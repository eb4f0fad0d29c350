import Mathlib.Algebra.BigOperators.Ring.List
import Mathlib.Tactic.Positivity

namespace bytes

/-- A string of octets. -/
abbrev Bytes := List UInt8

/-- The sequence `xs[off:off+len]`: whatever lies past the end is dropped. -/
def slice {α : Type} (xs : List α) (off len : Nat) : List α := (xs.drop off).take len

@[simp] theorem length_slice {α : Type} (xs : List α) (off len : Nat) :
    (slice xs off len).length = min len (xs.length - off) := by
  simp [slice]

theorem length_slice_of_le {α : Type} {xs : List α} {off len : Nat} (h : off + len ≤ xs.length) :
    (slice xs off len).length = len := by
  rw [length_slice]
  omega

theorem length_slice_le {α : Type} (xs : List α) (off len : Nat) : (slice xs off len).length ≤ len := by
  rw [length_slice]
  omega

@[simp] theorem slice_zero_len {α : Type} (xs : List α) (off : Nat) : slice xs off 0 = [] := by
  simp [slice]

theorem getElem?_slice {α : Type} (xs : List α) (off len i : Nat) :
    (slice xs off len)[i]? = if i < len then xs[off + i]? else none := by
  simp only [slice, List.getElem?_take, List.getElem?_drop]

theorem getD_slice {α : Type} (xs : List α) (off len i : Nat) (d : α) (h : i < len) :
    (slice xs off len).getD i d = xs.getD (off + i) d := by
  simp only [List.getD_eq_getElem?_getD, getElem?_slice, if_pos h]

theorem slice_append_right {α : Type} (xs ys : List α) (off len : Nat) :
    slice (xs ++ ys) (xs.length + off) len = slice ys off len := by
  simp [slice, List.drop_append, List.drop_eq_nil_of_le (Nat.le_add_right xs.length off)]

theorem slice_append_of_le {α : Type} {xs ys : List α} {off len : Nat} (h : off + len ≤ xs.length) :
    slice (xs ++ ys) off len = slice xs off len := by
  rw [slice, List.drop_append_of_le_length (by omega), List.take_append_of_le_length (by simp; omega), slice]

/-- The middle one of three concatenated parts is read back at its own offset. -/
theorem slice_middle {α : Type} (xs ys zs : List α) : slice (xs ++ ys ++ zs) xs.length ys.length = ys := by
  simp [slice, List.append_assoc]

theorem slice_self {α : Type} (xs : List α) : slice xs 0 xs.length = xs := by
  simp [slice]

theorem slice_add {α : Type} (xs : List α) (off m n : Nat) :
    slice xs off (m + n) = slice xs off m ++ slice xs (off + m) n := by
  simp only [slice, List.take_add, List.drop_drop]

theorem slice_slice {α : Type} (xs : List α) {off len i n : Nat} (h : i + n ≤ len) :
    slice (slice xs off len) i n = slice xs (off + i) n := by
  apply List.ext_getElem?
  intro k
  simp only [getElem?_slice]
  by_cases hk : k < n
  · rw [if_pos hk, if_pos hk, if_pos (by omega), Nat.add_assoc]
  · rw [if_neg hk, if_neg hk]

theorem drop_add_of_drop {α : Type} {xs part rest : List α} {off : Nat} (h : xs.drop off = part ++ rest) :
    xs.drop (off + part.length) = rest := by
  rw [← List.drop_drop, h, List.drop_left]

theorem drop_succ_of_drop {α : Type} {xs rest : List α} {x : α} {off : Nat} (h : xs.drop off = x :: rest) :
    xs.drop (off + 1) = rest := by
  rw [← List.drop_drop, h, List.drop_succ_cons, List.drop_zero]

theorem slice_of_drop {α : Type} {xs part rest : List α} {off : Nat} (h : xs.drop off = part ++ rest) :
    slice xs off part.length = part := by
  rw [slice, h, List.take_left]

theorem take_append_of_le {α : Type} {n : Nat} {xs ys : List α} (h : xs.length ≤ n) :
    (xs ++ ys).take n = xs ++ ys.take (n - xs.length) := by
  rw [List.take_append, List.take_of_length_le h]

/-- Taking from a sequence and then from what follows is taking from both. -/
theorem take_take_append {α : Type} (m : Nat) (xs ys : List α) :
    xs.take (min m xs.length) ++ ys.take (m - min m xs.length) = (xs ++ ys).take m := by
  rw [List.take_append]
  congr 1
  · rw [List.take_eq_take_iff]
    omega
  · congr 1
    omega

theorem drop_drop_append {α : Type} (m : Nat) (xs ys : List α) :
    xs.drop (min m xs.length) ++ ys.drop (m - min m xs.length) = (xs ++ ys).drop m := by
  rw [List.drop_append]
  congr 1
  · rcases Nat.le_total m xs.length with h | h
    · rw [Nat.min_eq_left h]
    · rw [List.drop_eq_nil_of_le (by omega), List.drop_eq_nil_of_le h]
  · congr 1
    omega

/-- Cutting a sequence at consecutive offsets, one part for each length. -/
def cut {α : Type} (xs : List α) : Nat → List Nat → List (List α)
  | _, [] => []
  | ptr, size :: sizes => slice xs ptr size :: cut xs (ptr + size) sizes

/-- Cutting a concatenation at the lengths of its parts gives the parts back. -/
theorem cut_flatten {α : Type} (parts : List (List α)) (before after : List α) :
    cut (before ++ parts.flatten ++ after) before.length (parts.map List.length) = parts := by
  induction parts generalizing before with
  | nil => rfl
  | cons part parts ih =>
    simp only [List.map_cons, cut, List.flatten_cons]
    congr 1
    · rw [show before ++ (part ++ parts.flatten) ++ after = before ++ part ++ (parts.flatten ++ after) by simp]
      exact slice_middle _ _ _
    · have h := ih (before ++ part)
      simpa [List.append_assoc] using h

theorem map_length_cut {α : Type} {xs : List α} {ptr : Nat} {sizes : List Nat} (h : ptr + sizes.sum ≤ xs.length) :
    (cut xs ptr sizes).map List.length = sizes := by
  induction sizes generalizing ptr with
  | nil => rfl
  | cons size sizes ih =>
    rw [List.sum_cons] at h
    rw [cut, List.map_cons, length_slice_of_le (by omega), ih (by omega)]

theorem length_flatten_cut_le {α : Type} (xs : List α) (ptr : Nat) (sizes : List Nat) :
    (cut xs ptr sizes).flatten.length ≤ sizes.sum := by
  induction sizes generalizing ptr with
  | nil => simp [cut]
  | cons size sizes ih =>
    have hhead := length_slice_le xs ptr size
    have htail := ih (ptr + size)
    simp only [cut, List.flatten_cons, List.length_append, List.sum_cons]
    omega

/-- Cutting at lengths that add up to the whole loses nothing. -/
theorem flatten_cut {α : Type} (xs : List α) (ptr : Nat) (sizes : List Nat) :
    (cut xs ptr sizes).flatten = slice xs ptr sizes.sum := by
  induction sizes generalizing ptr with
  | nil => simp [cut]
  | cons size sizes ih => rw [cut, List.flatten_cons, ih, List.sum_cons, slice_add]

/-- Parts of one length lie at the multiples of it. -/
theorem slice_flatMap {α β : Type} {f : β → List α} {k : Nat} {xs : List β} (hf : ∀ x ∈ xs, (f x).length = k)
    {i : Nat} (hi : i < xs.length) : slice (xs.flatMap f) (i * k) k = f xs[i] := by
  induction xs generalizing i with
  | nil => simp at hi
  | cons x xs ih =>
    have hx := hf x (by simp)
    rw [List.flatMap_cons]
    cases i with
    | zero =>
      rw [Nat.zero_mul, slice_append_of_le (by omega), ← hx, slice_self]
      rfl
    | succ i =>
      rw [Nat.succ_mul, Nat.add_comm, ← hx, slice_append_right, hx]
      exact ih (fun y hy => hf y (by simp [hy])) (by simpa using hi)

theorem length_flatMap_of_length {α β : Type} {f : β → List α} {k : Nat} {xs : List β}
    (hf : ∀ x ∈ xs, (f x).length = k) : (xs.flatMap f).length = xs.length * k := by
  induction xs with
  | nil => simp
  | cons x xs ih =>
    rw [List.flatMap_cons, List.length_append, hf x (by simp), ih fun y hy => hf y (by simp [hy]), List.length_cons,
      Nat.succ_mul, Nat.add_comm]

end bytes
