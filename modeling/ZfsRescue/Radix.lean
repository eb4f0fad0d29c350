import Mathlib.Algebra.Ring.Nat
import Mathlib.Data.List.Basic

namespace radix

/-- The last `k` digits of a number, least significant first. -/
def lowDigits (base : Nat) : Nat → Nat → List Nat
  | 0, _ => []
  | k + 1, n => n % base :: lowDigits base k (n / base)

/-- The last `k` digits of a number, most significant first. -/
def digits (base k n : Nat) : List Nat := (lowDigits base k n).reverse

@[simp] theorem length_lowDigits (base k n : Nat) : (lowDigits base k n).length = k := by
  induction k generalizing n with
  | zero => rfl
  | succ k ih => simp [lowDigits, ih]

@[simp] theorem length_digits (base k n : Nat) : (digits base k n).length = k := by
  simp [digits]

theorem lowDigits_succ_last (base k n : Nat) :
    lowDigits base (k + 1) n = lowDigits base k n ++ [n / base ^ k % base] := by
  induction k generalizing n with
  | zero => simp [lowDigits]
  | succ k ih =>
    rw [lowDigits, ih, lowDigits, Nat.div_div_eq_div_mul, ← Nat.pow_succ', List.cons_append]

/-- The first digit, and then the digits of the rest. -/
theorem digits_succ (base k n : Nat) : digits base (k + 1) n = n / base ^ k % base :: digits base k n := by
  rw [digits, lowDigits_succ_last, List.reverse_append, digits]
  rfl

theorem digit_lt {base k n d : Nat} (hbase : 0 < base) (h : d ∈ digits base k n) : d < base := by
  rw [digits, List.mem_reverse] at h
  induction k generalizing n with
  | zero => simp [lowDigits] at h
  | succ k ih =>
    rcases List.mem_cons.mp h with rfl | h
    · exact Nat.mod_lt _ hbase
    · exact ih h

/-- Numbers have the same last `k` digits when they agree modulo the `k`-th
    power of the base. -/
theorem digits_eq_iff {base k n m : Nat} (hbase : 0 < base) :
    digits base k n = digits base k m ↔ n % base ^ k = m % base ^ k := by
  rw [digits, digits, List.reverse_inj]
  induction k generalizing n m with
  | zero => simp [lowDigits, Nat.mod_one]
  | succ k ih =>
    rw [lowDigits, lowDigits, List.cons.injEq, ih, Nat.pow_succ', Nat.mod_mul, Nat.mod_mul]
    have hn := Nat.mod_lt n hbase
    have hm := Nat.mod_lt m hbase
    constructor
    · rintro ⟨hlow, hhigh⟩
      rw [hlow, hhigh]
    · intro h
      have hlow : n % base = m % base := by
        have hmod := congrArg (· % base) h
        simpa [Nat.add_mul_mod_self_left, Nat.mod_eq_of_lt hn, Nat.mod_eq_of_lt hm] using hmod
      rw [hlow, Nat.add_left_cancel_iff] at h
      exact ⟨hlow, Nat.eq_of_mul_eq_mul_left hbase h⟩

theorem digits_mod (base k n : Nat) (hbase : 0 < base) : digits base k (n % base ^ k) = digits base k n := by
  rw [digits_eq_iff hbase, Nat.mod_mod]

/-- Any digits are those of a number. -/
theorem exists_digits {base k : Nat} {ds : List Nat} (hlength : ds.length = k) (hlt : ∀ d ∈ ds, d < base) :
    ∃ n, digits base k n = ds := by
  induction k generalizing ds with
  | zero =>
    rw [List.length_eq_zero_iff.mp hlength]
    exact ⟨0, rfl⟩
  | succ k ih =>
    obtain ⟨d, rest, rfl⟩ := List.exists_cons_of_length_eq_add_one hlength
    obtain ⟨hd, hrest⟩ := List.forall_mem_cons.mp hlt
    obtain ⟨m, rfl⟩ := ih (by simpa using hlength) hrest
    have hbase : 0 < base := by omega
    have hlow : m % base ^ k < base ^ k := Nat.mod_lt _ (Nat.pow_pos hbase)
    refine ⟨d * base ^ k + m % base ^ k, ?_⟩
    have hfirst : (d * base ^ k + m % base ^ k) / base ^ k = d := by
      rw [Nat.add_comm, Nat.add_mul_div_right _ _ (Nat.pow_pos hbase), Nat.div_eq_of_lt hlow, Nat.zero_add]
    rw [digits_succ, hfirst, Nat.mod_eq_of_lt hd, List.cons.injEq, digits_eq_iff hbase]
    refine ⟨rfl, ?_⟩
    rw [Nat.add_comm, Nat.add_mul_mod_self_right, Nat.mod_mod]

end radix
