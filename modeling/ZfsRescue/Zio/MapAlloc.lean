import Mathlib.Data.List.Nodup
import Mathlib.Data.List.Perm.Basic
import Mathlib.Tactic.Positivity
import Mathlib.Algebra.BigOperators.Group.List.Basic
import Mathlib.Algebra.BigOperators.Ring.List
import ZfsRescue.Zio.GenericDevice

open bytes

namespace zfs_rescue.zio

/-- One column of an I/O: a byte range on one child. -/
structure RaidzCol where
  rc_devidx : Nat
  rc_offset : Nat
  rc_size : Nat
  deriving DecidableEq, Repr

/-- What `_map_alloc` returns. -/
structure RaidzMap where
  rm_cols : List RaidzCol
  rm_firstdatacol : Nat
  rm_skipstart : Nat
  deriving DecidableEq, Repr

/-- The local variables that the column loop of `_map_alloc` reads. -/
structure Stripe where
  f : Nat
  o : Nat
  q : Nat
  bc : Nat
  acols : Nat
  scols : Nat
  deriving DecidableEq, Repr

def RaidzDevice.stripe (dcols nparity io_offset io_size unit_shift : Nat) : Stripe :=
  let b := io_offset >>> unit_shift
  let s := io_size >>> unit_shift
  let q := s / (dcols - nparity)
  let r := s - q * (dcols - nparity)
  let bc := if r ≠ 0 then r + nparity else 0
  { f := b % dcols
    o := (b / dcols) <<< unit_shift
    q := q
    bc := bc
    acols := if q = 0 then bc else dcols
    scols := if q = 0 then min dcols (roundup bc (nparity + 1)) else dcols }

/-- The size of column `c`. -/
def Stripe.size (st : Stripe) (unit_shift c : Nat) : Nat :=
  if c ≥ st.acols then 0
  else if c < st.bc then (st.q + 1) <<< unit_shift
  else st.q <<< unit_shift

/-- Column `c`, wrapping to the next row of sectors after the last child. -/
def Stripe.col (st : Stripe) (dcols unit_shift c : Nat) : RaidzCol where
  rc_devidx := if st.f + c ≥ dcols then st.f + c - dcols else st.f + c
  rc_offset := if st.f + c ≥ dcols then st.o + 1 <<< unit_shift else st.o
  rc_size := st.size unit_shift c

/-- The columns kept: those that hold something. -/
def Stripe.cols (st : Stripe) (dcols unit_shift : Nat) : List RaidzCol :=
  ((List.range st.scols).map (st.col dcols unit_shift)).filter fun col => col.rc_size > 0

/-- The exchange of devices and offsets between the first two columns. -/
def swap_parity : List RaidzCol → Py (List RaidzCol)
  | c0 :: c1 :: rest => .ok ({ c0 with rc_devidx := c1.rc_devidx, rc_offset := c1.rc_offset } ::
      { c1 with rc_devidx := c0.rc_devidx, rc_offset := c0.rc_offset } :: rest)
  | _ => .error .IndexError

/-- `_map_alloc`, for a parity count of at most the number of children. -/
def RaidzDevice.map_alloc (dcols nparity io_offset io_size unit_shift : Nat) : Py RaidzMap :=
  if dcols = 0 ∨ dcols - nparity = 0 then .error .ZeroDivisionError
  else
    let st := RaidzDevice.stripe dcols nparity io_offset io_size unit_shift
    if nparity = 1 ∧ io_offset &&& (1 <<< 20) ≠ 0 then do
      let rm_cols ← swap_parity (st.cols dcols unit_shift)
      .ok { rm_cols := rm_cols, rm_firstdatacol := nparity, rm_skipstart := if st.bc = 0 then 1 else st.bc }
    else .ok { rm_cols := st.cols dcols unit_shift, rm_firstdatacol := nparity, rm_skipstart := st.bc }

section Single

variable {dcols io_size unit_shift : Nat} (io_offset : Nat)

/-- The arithmetic of a single-parity stripe of at least one sector. -/
theorem RaidzDevice.stripe_spec (hdcols : 2 ≤ dcols) (hs : 1 ≤ io_size >>> unit_shift) :
    let st := RaidzDevice.stripe dcols 1 io_offset io_size unit_shift
    st.f < dcols ∧ 2 ≤ st.acols ∧ st.acols ≤ st.scols ∧ st.scols ≤ dcols ∧ st.bc ≠ 1 ∧ st.bc ≤ st.acols ∧
      (st.q = 0 → st.acols = st.bc) ∧
      (st.acols - 1) * st.q + (st.bc - 1) = io_size >>> unit_shift := by
  simp only [RaidzDevice.stripe]
  generalize io_size >>> unit_shift = s at hs ⊢
  have hdecomp := Nat.div_add_mod s (dcols - 1)
  have hmod : s % (dcols - 1) < dcols - 1 := Nat.mod_lt _ (by omega)
  have hr : s - s / (dcols - 1) * (dcols - 1) = s % (dcols - 1) := by
    rw [Nat.mul_comm]
    omega
  rw [hr]
  generalize s / (dcols - 1) = q at hdecomp ⊢
  generalize s % (dcols - 1) = r at hdecomp hmod ⊢
  have hf : (io_offset >>> unit_shift) % dcols < dcols := Nat.mod_lt _ (by omega)
  by_cases hq : q = 0
  · subst hq
    have hrs : r = s := by simpa using hdecomp
    simp only [if_pos, roundup]
    rw [if_pos (by omega)]
    refine ⟨hf, by omega, ?_, Nat.min_le_left _ _, by omega, Nat.le_refl _, by simp, by simp; omega⟩
    rw [Nat.le_min]
    omega
  · simp only [if_neg hq]
    refine ⟨hf, hdcols, Nat.le_refl _, Nat.le_refl _, by split <;> omega, by split <;> omega,
      fun h => absurd h hq, ?_⟩
    split <;> omega

/-- No more columns are accessed or skipped than there are sectors, and two. -/
theorem RaidzDevice.stripe_scols_le (hdcols : 2 ≤ dcols) (hs : 1 ≤ io_size >>> unit_shift) :
    (RaidzDevice.stripe dcols 1 io_offset io_size unit_shift).scols ≤ io_size >>> unit_shift + 2 := by
  obtain ⟨_, hacols, _, _, _, _, hq0, htotal⟩ := RaidzDevice.stripe_spec io_offset hdcols hs
  have hscols : (RaidzDevice.stripe dcols 1 io_offset io_size unit_shift).scols ≤
      (RaidzDevice.stripe dcols 1 io_offset io_size unit_shift).acols + 1 := by
    simp only [RaidzDevice.stripe, roundup]
    split <;> omega
  generalize RaidzDevice.stripe dcols 1 io_offset io_size unit_shift = st at hacols hq0 htotal hscols
  by_cases hq : st.q = 0
  · have := hq0 hq
    omega
  · have hmul : st.acols - 1 ≤ (st.acols - 1) * st.q := Nat.le_mul_of_pos_right _ (Nat.pos_of_ne_zero hq)
    omega

/-- The sectors of the accessed columns, parity included. -/
theorem RaidzDevice.stripe_tot_le (hdcols : 2 ≤ dcols) (hs : 1 ≤ io_size >>> unit_shift) :
    (RaidzDevice.stripe dcols 1 io_offset io_size unit_shift).acols *
          (RaidzDevice.stripe dcols 1 io_offset io_size unit_shift).q +
        (RaidzDevice.stripe dcols 1 io_offset io_size unit_shift).bc ≤ 2 * io_size >>> unit_shift + 1 := by
  obtain ⟨_, hacols, _, _, _, _, _, htotal⟩ := RaidzDevice.stripe_spec io_offset hdcols hs
  generalize RaidzDevice.stripe dcols 1 io_offset io_size unit_shift = st at hacols htotal
  obtain ⟨n, hn⟩ : ∃ n, st.acols = n + 2 := ⟨st.acols - 2, by omega⟩
  have hq : (n + 1) * st.q = n * st.q + st.q := Nat.succ_mul _ _
  rw [hn, show n + 2 - 1 = n + 1 by omega, hq] at htotal
  rw [hn, show n + 2 = n + 1 + 1 by omega, Nat.succ_mul, hq]
  omega

/-- The columns that hold something are the accessed ones. -/
theorem RaidzDevice.stripe_cols (hdcols : 2 ≤ dcols) (hs : 1 ≤ io_size >>> unit_shift) :
    (RaidzDevice.stripe dcols 1 io_offset io_size unit_shift).cols dcols unit_shift =
      (List.range (RaidzDevice.stripe dcols 1 io_offset io_size unit_shift).acols).map
        ((RaidzDevice.stripe dcols 1 io_offset io_size unit_shift).col dcols unit_shift) := by
  obtain ⟨_, _, hscols, _, _, _, hq0, _⟩ := RaidzDevice.stripe_spec io_offset hdcols hs
  generalize RaidzDevice.stripe dcols 1 io_offset io_size unit_shift = st at hscols hq0 ⊢
  obtain ⟨skipped, hskipped⟩ := Nat.exists_eq_add_of_le hscols
  have hpos : ∀ n, 0 < (n + 1) <<< unit_shift := by
    intro n
    rw [Nat.shiftLeft_eq]
    positivity
  rw [Stripe.cols, hskipped, List.range_add, List.map_append, List.filter_append, List.map_map]
  have hkeep : ((List.range st.acols).map (st.col dcols unit_shift)).filter (fun col => col.rc_size > 0) =
      (List.range st.acols).map (st.col dcols unit_shift) := by
    rw [List.filter_eq_self]
    intro col hcol
    obtain ⟨c, hc, rfl⟩ := List.mem_map.mp hcol
    rw [List.mem_range] at hc
    simp only [Stripe.col, Stripe.size, decide_eq_true_eq, gt_iff_lt]
    rw [if_neg (by omega)]
    split
    · exact hpos st.q
    · have hq : st.q ≠ 0 := by
        intro h
        have := hq0 h
        omega
      rw [← Nat.sub_add_cancel (Nat.pos_of_ne_zero hq)]
      exact hpos _
  have hdrop : ((List.range skipped).map (st.col dcols unit_shift ∘ fun x => st.acols + x)).filter
      (fun col => col.rc_size > 0) = [] := by
    rw [List.filter_eq_nil_iff]
    intro col hcol
    obtain ⟨c, _, rfl⟩ := List.mem_map.mp hcol
    simp [Stripe.col, Stripe.size]
  rw [hkeep, hdrop, List.append_nil]

/-- The size of an accessed column, in sectors times the sector size. -/
theorem Stripe.size_of_lt {st : Stripe} {c : Nat} (unit_shift : Nat) (hc : c < st.acols) :
    st.size unit_shift c = (st.q + if c < st.bc then 1 else 0) * 2 ^ unit_shift := by
  rw [Stripe.size, if_neg (by omega)]
  split <;> simp [Nat.shiftLeft_eq]

private theorem sum_sectors (q bc n : Nat) :
    ((List.range n).map fun c => q + if c < bc then 1 else 0).sum = n * q + min n bc := by
  induction n with
  | zero => simp
  | succ n ih =>
    rw [List.range_succ, List.map_append, List.sum_append, ih, Nat.succ_mul]
    simp only [List.map_cons, List.map_nil, List.sum_cons, List.sum_nil]
    split <;> omega

/-- The accessed columns add up to one sector for each big column and `q` for
    every column. -/
theorem Stripe.sum_size {st : Stripe} (unit_shift : Nat) (hbc : st.bc ≤ st.acols) :
    ((List.range st.acols).map (st.size unit_shift)).sum = (st.acols * st.q + st.bc) * 2 ^ unit_shift := by
  have hsizes : (List.range st.acols).map (st.size unit_shift) =
      ((List.range st.acols).map fun c => st.q + if c < st.bc then 1 else 0).map (· * 2 ^ unit_shift) := by
    rw [List.map_map]
    apply List.map_congr_left
    intro c hc
    exact Stripe.size_of_lt unit_shift (List.mem_range.mp hc)
  rw [hsizes, List.sum_map_mul_right, List.map_id', sum_sectors, Nat.min_eq_right hbc]

theorem Stripe.map_rc_size (st : Stripe) (unit_shift n : Nat) :
    ((List.range n).map (st.col dcols unit_shift)).map RaidzCol.rc_size = (List.range n).map (st.size unit_shift) := by
  rw [List.map_map]
  rfl

/-- The data columns hold the whole sectors of the I/O. -/
theorem RaidzDevice.stripe_data_size (hdcols : 2 ≤ dcols) (hs : 1 ≤ io_size >>> unit_shift) :
    let st := RaidzDevice.stripe dcols 1 io_offset io_size unit_shift
    (((List.range st.acols).map (st.size unit_shift)).drop 1).sum = (io_size >>> unit_shift) * 2 ^ unit_shift := by
  obtain ⟨_, hacols, _, _, hbc1, hbc, _, htotal⟩ := RaidzDevice.stripe_spec io_offset hdcols hs
  generalize RaidzDevice.stripe dcols 1 io_offset io_size unit_shift = st at hacols hbc1 hbc htotal ⊢
  have hsum := Stripe.sum_size unit_shift hbc
  have hfirst := Stripe.size_of_lt unit_shift (show 0 < st.acols by omega)
  obtain ⟨n, hn⟩ : ∃ n, st.acols = n + 1 := ⟨st.acols - 1, by omega⟩
  have hsectors : st.acols * st.q + st.bc = (st.q + if 0 < st.bc then 1 else 0) + io_size >>> unit_shift := by
    rw [hn, Nat.add_sub_cancel] at htotal
    rw [hn, Nat.succ_mul]
    split <;> omega
  rw [hsectors, Nat.add_mul, ← hfirst, hn, List.range_succ_eq_map, List.map_cons, List.sum_cons] at hsum
  dsimp only
  rw [hn, List.range_succ_eq_map, List.map_cons, List.drop_succ_cons, List.drop_zero]
  omega

/-- Distinct columns lie on distinct children. -/
theorem Stripe.devidx_injOn {st : Stripe} {c c' : Nat} (hc : c < dcols) (hc' : c' < dcols)
    (h : (st.col dcols unit_shift c).rc_devidx = (st.col dcols unit_shift c').rc_devidx) : c = c' := by
  simp only [Stripe.col] at h
  split at h <;> split at h <;> omega

end Single

/-- What reading and rebuilding rely on: one parity column in front, every
    column on a child of its own, none longer than the first, and the data
    columns adding up to the size. -/
structure RaidzMap.Covers (m : RaidzMap) (dcols size : Nat) : Prop where
  firstdatacol : m.rm_firstdatacol = 1
  two_le : 2 ≤ m.rm_cols.length
  devidx_nodup : (m.rm_cols.map RaidzCol.rc_devidx).Nodup
  devidx_lt : ∀ col ∈ m.rm_cols, col.rc_devidx < dcols
  size_le : ∀ col ∈ m.rm_cols, ∀ parity, m.rm_cols.head? = some parity → col.rc_size ≤ parity.rc_size
  data_size : ((m.rm_cols.map RaidzCol.rc_size).drop 1).sum = size

theorem RaidzMap.Covers.exists_cons {m : RaidzMap} {dcols size : Nat} (h : m.Covers dcols size) :
    ∃ parity cols, m.rm_cols = parity :: cols :=
  List.exists_cons_of_length_pos (Nat.lt_of_lt_of_le (by omega) h.two_le)

/-- Exchanging the first two columns keeps the sizes in place and only
    permutes the children. -/
theorem swap_parity_spec {cols : List RaidzCol} (h : 2 ≤ cols.length) :
    ∃ swapped, swap_parity cols = .ok swapped ∧
      swapped.map RaidzCol.rc_size = cols.map RaidzCol.rc_size ∧
      (swapped.map RaidzCol.rc_devidx).Perm (cols.map RaidzCol.rc_devidx) := by
  match cols, h with
  | c0 :: c1 :: rest, _ => exact ⟨_, rfl, rfl, List.Perm.swap _ _ _⟩

/-- A map still covers after its columns exchange their children. -/
theorem RaidzMap.Covers.exchange {m m' : RaidzMap} {dcols size : Nat} (h : m.Covers dcols size)
    (hfirst : m'.rm_firstdatacol = m.rm_firstdatacol)
    (hsizes : m'.rm_cols.map RaidzCol.rc_size = m.rm_cols.map RaidzCol.rc_size)
    (hchildren : (m'.rm_cols.map RaidzCol.rc_devidx).Perm (m.rm_cols.map RaidzCol.rc_devidx)) :
    m'.Covers dcols size where
  firstdatacol := hfirst.trans h.firstdatacol
  two_le := by
    have hlength := congrArg List.length hsizes
    have htwo := h.two_le
    simp only [List.length_map] at hlength
    omega
  devidx_nodup := hchildren.nodup_iff.mpr h.devidx_nodup
  devidx_lt := by
    intro col hcol
    have hmem : col.rc_devidx ∈ m.rm_cols.map RaidzCol.rc_devidx := hchildren.mem_iff.mp (List.mem_map_of_mem hcol)
    obtain ⟨col', hcol', heq⟩ := List.mem_map.mp hmem
    rw [← heq]
    exact h.devidx_lt col' hcol'
  size_le := by
    intro col hcol parity hparity
    obtain ⟨first, cols, hcols⟩ := h.exists_cons
    have hmem : col.rc_size ∈ m'.rm_cols.map RaidzCol.rc_size := List.mem_map_of_mem hcol
    have hhead : (m'.rm_cols.map RaidzCol.rc_size).head? = some parity.rc_size := by
      rw [List.head?_map, hparity]
      rfl
    rw [hsizes] at hmem hhead
    obtain ⟨col', hcol', heq⟩ := List.mem_map.mp hmem
    have hle := h.size_le col' hcol' first (by rw [hcols]; rfl)
    rw [hcols, List.map_cons, List.head?_cons, Option.some.injEq] at hhead
    rw [← heq, ← hhead]
    exact hle
  data_size := by
    rw [hsizes]
    exact h.data_size

section Covering

variable {dcols io_size unit_shift : Nat} (io_offset : Nat)

/-- No accessed column is longer than the first. -/
theorem RaidzDevice.stripe_size_le (hdcols : 2 ≤ dcols) (hs : 1 ≤ io_size >>> unit_shift) :
    let st := RaidzDevice.stripe dcols 1 io_offset io_size unit_shift
    ∀ c < st.acols, st.size unit_shift c ≤ st.size unit_shift 0 := by
  obtain ⟨_, hacols, _, _, hbc1, hbc, _, _⟩ := RaidzDevice.stripe_spec io_offset hdcols hs
  dsimp only
  intro c hc
  rw [Stripe.size_of_lt unit_shift hc, Stripe.size_of_lt unit_shift (by omega)]
  apply Nat.mul_le_mul_right
  split <;> split <;> omega

/-- The columns before the exchange cover the I/O. -/
theorem RaidzDevice.stripe_covers (hdcols : 2 ≤ dcols) (hs : 1 ≤ io_size >>> unit_shift) (skip : Nat) :
    RaidzMap.Covers
      { rm_cols := (RaidzDevice.stripe dcols 1 io_offset io_size unit_shift).cols dcols unit_shift
        rm_firstdatacol := 1, rm_skipstart := skip } dcols ((io_size >>> unit_shift) * 2 ^ unit_shift) := by
  have hcols := RaidzDevice.stripe_cols io_offset hdcols hs
  have hdata := RaidzDevice.stripe_data_size io_offset hdcols hs
  have hmax := RaidzDevice.stripe_size_le io_offset hdcols hs
  obtain ⟨hf, hacols, hscols, hle, _, _, _, _⟩ := RaidzDevice.stripe_spec io_offset hdcols hs
  simp only [hcols] at hdata hmax ⊢
  generalize RaidzDevice.stripe dcols 1 io_offset io_size unit_shift = st at hf hacols hscols hle hdata hmax ⊢
  refine ⟨rfl, ?_, ?_, ?_, ?_, ?_⟩
  · simp only [List.length_map, List.length_range]
    exact hacols
  · rw [List.map_map]
    apply List.Nodup.map_on _ List.nodup_range
    intro c hc c' hc' h
    rw [List.mem_range] at hc hc'
    exact Stripe.devidx_injOn (by omega) (by omega) h
  · intro col hcol
    obtain ⟨c, hc, rfl⟩ := List.mem_map.mp hcol
    rw [List.mem_range] at hc
    simp only [Stripe.col]
    split <;> omega
  · intro col hcol parity hparity
    obtain ⟨c, hc, rfl⟩ := List.mem_map.mp hcol
    obtain ⟨n, hn⟩ : ∃ n, st.acols = n + 1 := ⟨st.acols - 1, by omega⟩
    simp only [hn, List.range_succ_eq_map, List.map_cons, List.head?_cons] at hparity
    cases hparity
    exact hmax c (List.mem_range.mp hc)
  · rw [Stripe.map_rc_size]
    exact hdata

end Covering

/-- The columns of a single-parity map cover the I/O, with or without the
    exchange of the first two. -/
theorem RaidzDevice.map_alloc_covers {dcols io_size unit_shift : Nat} (io_offset : Nat) (hdcols : 2 ≤ dcols)
    (hs : 1 ≤ io_size >>> unit_shift) :
    ∃ m, RaidzDevice.map_alloc dcols 1 io_offset io_size unit_shift = .ok m ∧
      m.Covers dcols ((io_size >>> unit_shift) * 2 ^ unit_shift) := by
  have hcovers := RaidzDevice.stripe_covers io_offset hdcols hs
  rw [RaidzDevice.map_alloc, if_neg (by omega)]
  dsimp only
  split
  · obtain ⟨swapped, hswap, hsizes, hchildren⟩ := swap_parity_spec (hcovers 0).two_le
    rw [hswap, bind_ok]
    exact ⟨_, rfl, (hcovers 0).exchange rfl hsizes hchildren⟩
  · exact ⟨_, rfl, hcovers _⟩

end zfs_rescue.zio
