import ZfsRescue.Bytes.Zero

namespace bytes

/-- The bytes of `d` exclusive-ored into the front of `p`. -/
def xorInto : Bytes → Bytes → Bytes
  | p, [] => p
  | [], _ => []
  | x :: p, y :: d => (x ^^^ y) :: xorInto p d

@[simp] theorem length_xorInto (p d : Bytes) : (xorInto p d).length = p.length := by
  induction p, d using xorInto.induct with
  | case1 p => simp [xorInto]
  | case2 d hd => simp [xorInto]
  | case3 x p y d ih => simp [xorInto, ih]

theorem getD_xorInto {p d : Bytes} (h : d.length ≤ p.length) (i : Nat) :
    (xorInto p d).getD i 0 = p.getD i 0 ^^^ d.getD i 0 := by
  induction p, d using xorInto.induct generalizing i with
  | case1 p => simp [xorInto]
  | case2 d hd => simp_all
  | case3 x p y d ih =>
    cases i with
    | zero => simp [xorInto]
    | succ i => simpa [xorInto] using ih (by simpa using h) i

/-- The parity byte of a group of columns, the shorter ones extended by zeros. -/
def parityAt (cols : List Bytes) (i : Nat) : UInt8 :=
  (cols.map fun col => col.getD i 0).foldr (· ^^^ ·) 0

@[simp] theorem parityAt_nil (i : Nat) : parityAt [] i = 0 := rfl

@[simp] theorem parityAt_cons (col : Bytes) (cols : List Bytes) (i : Nat) :
    parityAt (col :: cols) i = col.getD i 0 ^^^ parityAt cols i := rfl

theorem parityAt_append (xs ys : List Bytes) (i : Nat) :
    parityAt (xs ++ ys) i = parityAt xs i ^^^ parityAt ys i := by
  induction xs with
  | nil => simp
  | cons col xs ih => simp [ih, UInt8.xor_assoc]

theorem le_length_xorInto {p col : Bytes} {cols : List Bytes} (h : ∀ c ∈ col :: cols, c.length ≤ p.length) :
    ∀ c ∈ cols, c.length ≤ (xorInto p col).length := by
  intro c hc
  rw [length_xorInto]
  exact h c (List.mem_cons_of_mem col hc)

theorem length_foldl_xorInto (p : Bytes) (cols : List Bytes) :
    (cols.foldl xorInto p).length = p.length := by
  induction cols generalizing p with
  | nil => rfl
  | cons col cols ih => simp [ih]

theorem getD_foldl_xorInto {p : Bytes} {cols : List Bytes} (h : ∀ col ∈ cols, col.length ≤ p.length) (i : Nat) :
    (cols.foldl xorInto p).getD i 0 = p.getD i 0 ^^^ parityAt cols i := by
  induction cols generalizing p with
  | nil => simp
  | cons col cols ih =>
    have hcol : col.length ≤ p.length := h col (by simp)
    rw [List.foldl_cons, ih (le_length_xorInto h), getD_xorInto hcol, parityAt_cons, UInt8.xor_assoc]

/-- The column is the exclusive or of the others, the shorter ones extended by zeros. -/
def IsParity (p : Bytes) (cols : List Bytes) : Prop := ∀ i, i < p.length → p.getD i 0 = parityAt cols i

/-- A lost column is the parity column with every surviving column taken out
    of it again, cut to the length the lost one had. -/
theorem IsParity.recover {p lost : Bytes} {before after : List Bytes}
    (hparity : IsParity p (before ++ lost :: after))
    (hlen : ∀ col ∈ before ++ lost :: after, col.length ≤ p.length) :
    ((before ++ after).foldl xorInto p).take lost.length = lost := by
  have hlost : lost.length ≤ p.length := hlen lost (by simp)
  have hothers : ∀ col ∈ before ++ after, col.length ≤ p.length := by
    intro col hcol
    apply hlen
    rcases List.mem_append.mp hcol with h | h <;> simp [h]
  apply ext_getD
  · rw [List.length_take, length_foldl_xorInto]
    omega
  · intro i hi
    rw [List.length_take, length_foldl_xorInto] at hi
    have htake : ∀ xs : Bytes, (xs.take lost.length).getD i 0 = xs.getD i 0 := by
      intro xs
      simp only [List.getD_eq_getElem?_getD, List.getElem?_take, if_pos (show i < lost.length by omega)]
    rw [htake, getD_foldl_xorInto hothers, hparity i (by omega), parityAt_append, parityAt_append, parityAt_cons]
    -- the surviving columns cancel in pairs
    calc parityAt before i ^^^ (lost.getD i 0 ^^^ parityAt after i) ^^^ (parityAt before i ^^^ parityAt after i)
        = lost.getD i 0 ^^^ (parityAt before i ^^^ parityAt before i) ^^^ (parityAt after i ^^^ parityAt after i) := by
          ac_rfl
      _ = lost.getD i 0 := by simp

end bytes
