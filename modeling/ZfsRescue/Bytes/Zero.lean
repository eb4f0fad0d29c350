import Mathlib.Data.List.GetD
import ZfsRescue.Bytes.Slice

namespace bytes

/-- Exactly `n` bytes: the first `n`, or all of them followed by zeros. -/
def fit (n : Nat) (xs : Bytes) : Bytes := xs.take n ++ List.replicate (n - xs.length) 0

/-- The `n` bytes from `off` on, with zeros past the end. -/
def window (xs : Bytes) (off n : Nat) : Bytes := (List.range n).map fun i => xs.getD (off + i) 0

@[simp] theorem length_fit (n : Nat) (xs : Bytes) : (fit n xs).length = n := by
  simp [fit]
  omega

theorem fit_of_length_eq {n : Nat} {xs : Bytes} (h : xs.length = n) : fit n xs = xs := by
  simp [fit, ← h]

theorem fit_of_le {n : Nat} {xs : Bytes} (h : xs.length ≤ n) : fit n xs = xs ++ List.replicate (n - xs.length) 0 := by
  rw [fit, List.take_of_length_le h]

/-- Cutting a filled up string at its old length takes the zeros off again. -/
theorem take_fit {n : Nat} {xs : Bytes} (h : xs.length ≤ n) : (fit n xs).take xs.length = xs := by
  rw [fit_of_le h, List.take_left]

theorem fit_fit_of_length {m n : Nat} {xs : Bytes} (hm : xs.length = m) (h : m ≤ n) : fit m (fit n xs) = xs := by
  subst hm
  rw [fit, take_fit h, length_fit, Nat.sub_eq_zero_of_le h, List.replicate_zero, List.append_nil]

/-- Filling up twice is filling up once. -/
theorem fit_fit_of_le {m n : Nat} {xs : Bytes} (hm : xs.length ≤ m) (h : m ≤ n) :
    fit n (fit m xs) = xs ++ List.replicate (n - xs.length) 0 := by
  rw [fit_of_le (n := n) (by rw [length_fit]; exact h), fit_of_le hm, List.append_assoc, List.replicate_append_replicate,
    List.length_append, List.length_replicate]
  congr 2
  omega

theorem getD_fit (n : Nat) (xs : Bytes) (i : Nat) (h : i < n) : (fit n xs).getD i 0 = xs.getD i 0 := by
  rw [fit]
  by_cases hi : i < xs.length
  · rw [List.getD_append _ _ _ _ (by simp; omega)]
    simp [List.getD_eq_getElem?_getD, h]
  · rw [List.getD_append_right _ _ _ _ (by simp; omega)]
    rw [List.getD_eq_default xs 0 (by omega)]
    simp only [List.getD_eq_getElem?_getD, List.getElem?_replicate]
    split <;> rfl

@[simp] theorem length_window (xs : Bytes) (off n : Nat) : (window xs off n).length = n := by
  simp [window]

theorem getD_window (xs : Bytes) (off n i : Nat) (h : i < n) :
    (window xs off n).getD i 0 = xs.getD (off + i) 0 := by
  simp [window, List.getD_eq_getElem?_getD, h]

/-- Byte strings of one length are equal when their bytes are. -/
theorem ext_getD {xs ys : Bytes} (hlen : xs.length = ys.length)
    (h : ∀ i, i < xs.length → xs.getD i 0 = ys.getD i 0) : xs = ys := by
  apply List.ext_getElem hlen
  intro i hx hy
  have hi := h i hx
  rwa [List.getD_eq_getElem _ _ hx, List.getD_eq_getElem _ _ hy] at hi

/-- The bytes from an offset on are those that are there, filled up with zeros. -/
theorem window_eq_fit (xs : Bytes) (off n : Nat) : window xs off n = fit n (slice xs off n) := by
  apply ext_getD (by simp)
  intro i hi
  rw [length_window] at hi
  rw [getD_window _ _ _ _ hi, getD_fit _ _ _ hi, getD_slice _ _ _ _ _ hi]

/-- The bytes with those from `start` on replaced by others. -/
def overwrite (xs : Bytes) (start : Nat) (ys : Bytes) : Bytes :=
  xs.take start ++ ys ++ xs.drop (start + ys.length)

@[simp] theorem overwrite_nil (xs : Bytes) (start : Nat) : overwrite xs start [] = xs := by
  simp [overwrite]

theorem length_overwrite {xs ys : Bytes} {start : Nat} (h : start + ys.length ≤ xs.length) :
    (overwrite xs start ys).length = xs.length := by
  simp [overwrite]
  omega

theorem getD_overwrite {xs ys : Bytes} {start : Nat} (h : start + ys.length ≤ xs.length) (i : Nat) :
    (overwrite xs start ys).getD i 0 =
      if start ≤ i ∧ i < start + ys.length then ys.getD (i - start) 0 else xs.getD i 0 := by
  have hlength : (xs.take start).length = start := by
    rw [List.length_take]
    omega
  simp only [overwrite, List.append_assoc, List.getD_eq_getElem?_getD]
  by_cases hbefore : i < start
  · rw [if_neg (by omega), List.getElem?_append_left (by omega), List.getElem?_take_of_lt hbefore]
  · rw [List.getElem?_append_right (by omega), hlength]
    by_cases hinside : i < start + ys.length
    · rw [if_pos (by omega), List.getElem?_append_left (by omega)]
    · rw [if_neg (by omega), List.getElem?_append_right (by omega), List.getElem?_drop]
      congr 2
      omega

/-- Overwriting byte by byte. -/
theorem overwrite_overwrite {xs ys : Bytes} {b : UInt8} {start : Nat} (h : start + (ys.length + 1) ≤ xs.length) :
    overwrite (overwrite xs start [b]) (start + 1) ys = overwrite xs start (b :: ys) := by
  have hfirst : (overwrite xs start [b]).length = xs.length := length_overwrite (by simp; omega)
  apply ext_getD
  · rw [length_overwrite (by omega), hfirst, length_overwrite (by simpa using h)]
  · intro i _
    rw [getD_overwrite (by omega), getD_overwrite (by simp; omega), getD_overwrite (by simpa using h)]
    simp only [List.length_cons, List.length_nil, Nat.zero_add]
    by_cases hi : i = start
    · subst hi
      rw [if_neg (by omega), if_pos (by omega), if_pos (by omega), Nat.sub_self]
      rfl
    · by_cases hinside : start + 1 ≤ i ∧ i < start + 1 + ys.length
      · obtain ⟨j, rfl⟩ := Nat.exists_eq_add_of_le hinside.1
        rw [if_pos hinside, if_pos (by omega), show start + 1 + j - start = j + 1 by omega,
          show start + 1 + j - (start + 1) = j by omega, List.getD_cons_succ]
      · rw [if_neg hinside, if_neg (by omega), if_neg (by omega)]

end bytes
