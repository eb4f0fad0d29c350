import Mathlib.Data.List.GetD
import ZfsRescue.Lz4.Reader

open bytes

namespace lz4

/-- Each byte that is read for a length is read, though not all of them need be. -/
theorem continuation_le_length (xs : Bytes) : (continuation xs).2 ≤ xs.length := by
  induction xs with
  | nil => exact Nat.le_refl _
  | cons b xs ih =>
    rw [continuation]
    split
    · exact Nat.succ_le_succ ih
    · exact Nat.succ_le_succ (Nat.zero_le _)

theorem continuation_pos {xs : Bytes} (h : xs ≠ []) : 0 < (continuation xs).2 := by
  cases xs with
  | nil => exact absurd rfl h
  | cons b xs =>
    rw [continuation]
    split
    · exact Nat.succ_pos _
    · exact Nat.one_pos

/-- A length that goes on to the end is read to the end. -/
theorem continuation_of_all {xs : Bytes} (h : ∀ b ∈ xs, b = 255) : (continuation xs).2 = xs.length := by
  induction xs with
  | nil => rfl
  | cons b xs ih =>
    obtain ⟨rfl, hrest⟩ := List.forall_mem_cons.mp h
    rw [continuation, if_pos (by decide), List.length_cons, ih hrest]

/-- A length goes on over the bytes that are not its last. -/
theorem eq_of_lt_continuation {xs : Bytes} {n : Nat} (h : n < (continuation xs).2) : ∀ b ∈ xs.take n, b = 255 := by
  induction xs generalizing n with
  | nil => simp
  | cons b xs ih =>
    cases n with
    | zero => simp
    | succ n =>
      rw [continuation] at h
      split at h
      · rename_i hb
        rw [List.take_succ_cons, List.forall_mem_cons]
        exact ⟨UInt8.toNat_inj.mp hb, ih (Nat.lt_of_succ_lt_succ h)⟩
      · exact absurd h (by simp)

/-- The last byte of a length adds to it. -/
theorem continuation_append {xs : Bytes} (h : ∀ b ∈ xs, b = 255) {c : UInt8} (hc : c ≠ 255) (rest : Bytes) :
    continuation (xs ++ c :: rest) = (255 * xs.length + c.toNat, xs.length + 1) := by
  induction xs with
  | nil =>
    have hc' : c.toNat ≠ 255 := fun heq => hc (UInt8.toNat_inj.mp heq)
    rw [List.nil_append, continuation, if_neg hc']
    simp
  | cons b xs ih =>
    obtain ⟨rfl, hrest⟩ := List.forall_mem_cons.mp h
    rw [List.cons_append, continuation, if_pos (by decide), ih hrest, List.length_cons]
    simp only [Prod.mk.injEq, and_true]
    omega

section Lengths

variable {xs ys : Bytes} {n : Nat}

/-- What the first bytes say of a length, they say whatever is behind them. -/
theorem continuation_eq (hlength : xs.length = ys.length) (hsame : xs.take n = ys.take n)
    (h : (continuation xs).2 ≤ n) : continuation ys = continuation xs := by
  induction xs generalizing ys n with
  | nil => rw [List.length_eq_zero_iff.mp hlength.symm]
  | cons b xs ih =>
    cases ys with
    | nil => cases hlength
    | cons c ys =>
      cases n with
      | zero => exact absurd (continuation_pos (List.cons_ne_nil b xs)) (Nat.not_lt.mpr h)
      | succ n =>
        rw [List.take_succ_cons, List.take_succ_cons, List.cons.injEq] at hsame
        obtain ⟨rfl, hrest⟩ := hsame
        rw [continuation, continuation]
        rw [continuation] at h
        split
        · rename_i hb
          rw [if_pos hb] at h
          rw [ih (Nat.succ_inj.mp hlength) hrest (Nat.le_of_succ_le_succ h)]
        · rfl

/-- With zeros behind the first bytes a length is as short as it can be. -/
theorem continuation_le (hlength : xs.length = ys.length) (hsame : xs.take n = ys.take n)
    (hzeros : ∀ b ∈ xs.drop n, b = 0) :
    (continuation xs).1 ≤ (continuation ys).1 ∧ (continuation xs).2 ≤ (continuation ys).2 := by
  induction xs generalizing ys n with
  | nil => exact ⟨Nat.zero_le _, Nat.zero_le _⟩
  | cons b xs ih =>
    cases ys with
    | nil => cases hlength
    | cons c ys =>
      cases n with
      | zero =>
        rw [hzeros b List.mem_cons_self]
        exact ⟨Nat.zero_le _, continuation_pos (List.cons_ne_nil c ys)⟩
      | succ n =>
        rw [List.take_succ_cons, List.take_succ_cons, List.cons.injEq] at hsame
        obtain ⟨rfl, hrest⟩ := hsame
        have hle := ih (Nat.succ_inj.mp hlength) hrest hzeros
        rw [continuation, continuation]
        split
        · exact ⟨Nat.add_le_add_right hle.1 _, Nat.add_le_add_right hle.2 _⟩
        · exact ⟨Nat.le_refl _, Nat.le_refl _⟩

theorem lengthOf_eq (nibble : Nat) (hlength : xs.length = ys.length) (hsame : xs.take n = ys.take n)
    (h : (lengthOf nibble xs).2 ≤ n) : lengthOf nibble ys = lengthOf nibble xs := by
  rw [lengthOf, lengthOf]
  rw [lengthOf] at h
  split
  · rename_i h15
    rw [if_pos h15] at h
    rw [continuation_eq hlength hsame h]
  · rfl

theorem lengthOf_le (nibble : Nat) (hlength : xs.length = ys.length) (hsame : xs.take n = ys.take n)
    (hzeros : ∀ b ∈ xs.drop n, b = 0) :
    (lengthOf nibble xs).1 ≤ (lengthOf nibble ys).1 ∧ (lengthOf nibble xs).2 ≤ (lengthOf nibble ys).2 := by
  have hle := continuation_le hlength hsame hzeros
  rw [lengthOf, lengthOf]
  split
  · exact ⟨Nat.add_le_add_left hle.1 _, hle.2⟩
  · exact ⟨Nat.le_refl _, Nat.le_refl _⟩

end Lengths

section Sequences

variable {xs ys : Bytes} {p ip : Nat}

theorem drop_take_eq (hsame : xs.take p = ys.take p) (i : Nat) : (xs.drop i).take (p - i) = (ys.drop i).take (p - i) := by
  rw [← List.drop_take, hsame, List.drop_take]

theorem getD_eq_of_take (hsame : xs.take p = ys.take p) (hip : ip < p) : xs.getD ip 0 = ys.getD ip 0 := by
  have hget : (xs.take p)[ip]? = (ys.take p)[ip]? := by rw [hsame]
  rw [List.getElem?_take_of_lt hip, List.getElem?_take_of_lt hip] at hget
  rw [List.getD_eq_getElem?_getD, List.getD_eq_getElem?_getD, hget]

/-- A run of literals is that of every text with the same first bytes, if these say
    how long it is. -/
theorem runAt_eq (hlength : xs.length = ys.length) (hsame : xs.take p = ys.take p) (h : literalsAt xs ip ≤ p) :
    runAt ys ip = runAt xs ip := by
  rw [literalsAt] at h
  rw [runAt, ← getD_eq_of_take hsame (by omega), runAt]
  exact lengthOf_eq _ (by rw [List.length_drop, List.length_drop, hlength]) (drop_take_eq hsame (ip + 1))
    (by rw [runAt] at h; omega)

theorem offsetAt_eq (hlength : xs.length = ys.length) (hsame : xs.take p = ys.take p) (h : literalsAt xs ip ≤ p) :
    offsetAt ys ip = offsetAt xs ip := by
  rw [offsetAt, offsetAt, literalsAt, literalsAt, runAt_eq hlength hsame h]

theorem offsetAt_of_zero (h : xs.getD ip 0 = 0) : offsetAt xs ip = ip + 1 := by
  rw [offsetAt, literalsAt, runAt, h]
  rfl

theorem getD_of_zeros (hzeros : ∀ b ∈ xs.drop p, b = 0) (hip : p ≤ ip) : xs.getD ip 0 = 0 := by
  by_cases hin : ip < xs.length
  · rw [List.getD_eq_getElem _ _ hin]
    obtain ⟨i, rfl⟩ := Nat.exists_eq_add_of_le hip
    exact hzeros _ (List.mem_iff_getElem.mpr ⟨i, by rw [List.length_drop]; omega, List.getElem_drop⟩)
  · exact List.getD_eq_default _ _ (Nat.not_lt.mp hin)

/-- With zeros behind the first bytes a run ends as early as it can. -/
theorem offsetAt_le (hlength : xs.length = ys.length) (hsame : xs.take p = ys.take p) (hzeros : ∀ b ∈ xs.drop p, b = 0)
    (ip : Nat) : offsetAt xs ip ≤ offsetAt ys ip := by
  by_cases hip : ip < p
  · have hle := lengthOf_le ((xs.getD ip 0).toNat >>> 4) (by rw [List.length_drop, List.length_drop, hlength])
      (drop_take_eq hsame (ip + 1)) (by rw [List.drop_drop, show ip + 1 + (p - (ip + 1)) = p by omega]; exact hzeros)
    rw [offsetAt, offsetAt, literalsAt, literalsAt, runAt, runAt, ← getD_eq_of_take hsame hip]
    omega
  · rw [offsetAt_of_zero (getD_of_zeros hzeros (Nat.not_lt.mp hip))]
    exact lt_offsetAt ys ip

/-- The bytes of a run's length are there, or its token is not. -/
theorem literalsAt_le (xs : Bytes) (ip : Nat) : literalsAt xs ip ≤ max (ip + 1) xs.length := by
  have hle := continuation_le_length (xs.drop (ip + 1))
  rw [List.length_drop] at hle
  rw [literalsAt, runAt, lengthOf]
  split <;> simp only <;> omega

/-- A run of literals whose length is not over within the first bytes takes up all of
    them from its token on. -/
theorem open_of_lt_literalsAt {us ws : Bytes} (hip : ip < us.length) (h : us.length < literalsAt (us ++ ws) ip) :
    (us.getD ip 0).toNat >>> 4 = 15 ∧ ∀ b ∈ us.drop (ip + 1), b = 255 := by
  rw [literalsAt, runAt, List.getD_append _ _ _ _ hip, lengthOf] at h
  split at h
  · refine ⟨‹_›, ?_⟩
    have hall := eq_of_lt_continuation (n := us.length - (ip + 1)) (Nat.sub_lt_left_of_lt_add hip h)
    rwa [List.drop_append_of_le_length hip, List.take_left' List.length_drop] at hall
  · exact absurd h (by simp only; omega)

/-- The byte behind them then ends the length, unless it is another 255. -/
theorem offsetAt_of_open {us : Bytes} (hip : ip < us.length) (hnibble : (us.getD ip 0).toNat >>> 4 = 15)
    (hall : ∀ b ∈ us.drop (ip + 1), b = 255) {c : UInt8} (hc : c ≠ 255) (rest : Bytes) :
    literalsAt (us ++ c :: rest) ip = us.length + 1 ∧
      offsetAt (us ++ c :: rest) ip = us.length + 1 + (15 + (255 * (us.length - (ip + 1)) + c.toNat)) := by
  have hrun : runAt (us ++ c :: rest) ip =
      (15 + (255 * (us.length - (ip + 1)) + c.toNat), us.length - (ip + 1) + 1) := by
    rw [runAt, List.getD_append _ _ _ _ hip, List.drop_append_of_le_length hip, hnibble, lengthOf, if_pos rfl,
      continuation_append hall hc, List.length_drop]
  rw [offsetAt, literalsAt, hrun]
  omega

/-- The first `p` bytes of a text say where the sequence behind the one at `ip` starts. -/
def Fixed (xs : Bytes) (p ip : Nat) : Prop :=
  nextAt xs ip ≤ p ∨ (literalsAt xs ip ≤ p ∧ (repAt xs ip).1 < 15)

theorem Fixed.literalsAt_le (h : Fixed xs p ip) : literalsAt xs ip ≤ p := by
  rcases h with h | h
  · rw [nextAt, offsetAt] at h
    omega
  · exact h.1

theorem Fixed.nextAt_eq (h : Fixed xs p ip) (hlength : xs.length = ys.length) (hsame : xs.take p = ys.take p) :
    nextAt ys ip = nextAt xs ip := by
  have hliterals := h.literalsAt_le
  have hoffset := offsetAt_eq hlength hsame hliterals
  have htoken : xs.getD ip 0 = ys.getD ip 0 := getD_eq_of_take hsame (by rw [literalsAt] at hliterals; omega)
  have hrep : repAt ys ip = repAt xs ip := by
    rcases h with h | ⟨-, h⟩
    · rw [repAt, repAt, hoffset, ← htoken]
      refine lengthOf_eq _ (by rw [List.length_drop, List.length_drop, hlength]) (drop_take_eq hsame _) ?_
      rw [nextAt, repAt] at h
      omega
    · rw [repAt, lengthOf] at h
      rw [repAt, repAt, lengthOf, lengthOf, ← htoken]
      split at h
      · exact absurd h (by simp)
      · rename_i h15
        rw [if_neg h15, if_neg h15]
  rw [nextAt, nextAt, hoffset, hrep]

/-- Behind the first bytes a sequence that these fix has no length of its match to read. -/
theorem Fixed.nextAt_eq_offsetAt (h : Fixed xs p ip) (hpast : p < offsetAt xs ip + 2) :
    nextAt xs ip = offsetAt xs ip + 2 := by
  rcases h with hle | ⟨-, hlt⟩
  · rw [nextAt] at hle
    omega
  · rw [nextAt]
    rw [repAt, lengthOf] at hlt
    rw [repAt, lengthOf]
    split at hlt
    · exact absurd hlt (by simp)
    · rename_i hnibble
      rw [if_neg hnibble]
      rfl

/-- The match length of a sequence with bytes of 255 behind its offset goes on to the end
    of the text. -/
theorem length_le_nextAt (hnibble : (xs.getD ip 0).toNat &&& 15 = 15)
    (h : ∀ b ∈ xs.drop (offsetAt xs ip + 2), b = 255) : xs.length ≤ nextAt xs ip := by
  have hall := continuation_of_all h
  rw [List.length_drop] at hall
  rw [nextAt, repAt, lengthOf, if_pos hnibble, hall]
  omega

/-- The token 15 is that of a sequence without literals. -/
theorem length_le_nextAt_of_token (htoken : xs.getD ip 0 = 15) (h : ∀ b ∈ xs.drop (ip + 3), b = 255) :
    offsetAt xs ip = ip + 1 ∧ xs.length ≤ nextAt xs ip := by
  have hoffset : offsetAt xs ip = ip + 1 := by
    rw [offsetAt, literalsAt, runAt, htoken]
    rfl
  exact ⟨hoffset, length_le_nextAt (by rw [htoken]; rfl) (by rw [hoffset]; exact h)⟩

/-- A sequence whose match length the first bytes leave open goes on to the end when they
    have bytes of 255 behind them. -/
theorem length_le_nextAt_of_not_fixed (hlength : xs.length = ys.length) (hsame : xs.take p = ys.take p)
    (hliterals : literalsAt xs ip ≤ p) (hopen : ¬Fixed xs p ip) (hbehind : ∀ b ∈ ys.drop p, b = 255) :
    ys.length ≤ nextAt ys ip := by
  obtain ⟨hnext, hrep⟩ := not_or.mp hopen
  have hrep : ¬(repAt xs ip).1 < 15 := fun hlt => hrep ⟨hliterals, hlt⟩
  have hip : ip < p := by
    rw [literalsAt] at hliterals
    omega
  have hnibble : (xs.getD ip 0).toNat &&& 15 = 15 := by
    by_contra hne
    have hle : (xs.getD ip 0).toNat &&& 15 ≤ 15 := Nat.and_le_right
    rw [repAt, lengthOf, if_neg hne] at hrep
    simp only at hrep
    omega
  have hfirst : ∀ b ∈ (ys.take p).drop (offsetAt xs ip + 2), b = 255 := by
    rw [nextAt, repAt, lengthOf, if_pos hnibble] at hnext
    rw [← hsame, List.drop_take]
    rcases Nat.lt_or_ge (offsetAt xs ip + 2) p with hlt | hle
    · exact eq_of_lt_continuation (by omega)
    · rw [Nat.sub_eq_zero_of_le hle, List.take_zero]
      exact List.forall_mem_nil _
  refine length_le_nextAt (by rw [← getD_eq_of_take hsame hip, hnibble]) ?_
  rw [offsetAt_eq hlength hsame hliterals]
  intro b hb
  rw [← List.take_append_drop p ys, List.drop_append] at hb
  rcases List.mem_append.mp hb with hb | hb
  · exact hfirst b hb
  · exact hbehind b (List.mem_of_mem_drop hb)

end Sequences

end lz4
