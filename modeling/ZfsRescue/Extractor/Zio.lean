import Mathlib.Tactic.Ring
import ZfsRescue.Zio.MapAlloc

open zfs_rescue.zio

namespace zfs_rescue.extractor.zio

/-- A `uint64_t` result. -/
def u64 (n : Nat) : Nat := n % 2 ^ 64

/-- The difference of two `uint64_t` values. -/
def u64_sub (a b : Nat) : Nat := u64 (a + 2 ^ 64 - b)

def roundup (x y : Nat) : Nat := u64 (u64 (x + u64_sub y 1) / y * y)

/-- The buffer behind a column: none, one of its own, or a part of the buffer
    of the whole I/O. -/
inductive Abd where
  | null
  | linear (abd_size : Nat)
  | offset_size (off abd_size : Nat)
  deriving DecidableEq, Repr

/-- The fields of `raidz_col_t` that the map sets to something. -/
structure RaidzColT where
  rc_devidx : Nat
  rc_offset : Nat
  rc_size : Nat
  rc_abd : Abd
  deriving DecidableEq, Repr

/-- The fields of `raidz_map_t` that depend on the I/O. -/
structure RaidzMapT where
  rm_cols : Nat
  rm_scols : Nat
  rm_bigcols : Nat
  rm_asize : Nat
  rm_firstdatacol : Nat
  rm_nskip : Nat
  rm_skipstart : Nat
  rm_col : List RaidzColT
  deriving DecidableEq, Repr

/-- The local variables computed before the column loop. -/
def vdev_raidz_stripe (io_offset io_size ashift dcols nparity : Nat) : Stripe :=
  let b := io_offset >>> ashift
  let s := io_size >>> ashift
  let q := s / u64_sub dcols nparity
  let r := u64_sub s (u64 (q * u64_sub dcols nparity))
  let bc := if r = 0 then 0 else u64 (r + nparity)
  { f := b % dcols
    o := u64 ((b / dcols) <<< ashift)
    q := q
    bc := bc
    acols := if q = 0 then bc else dcols
    scols := if q = 0 then min dcols (roundup bc (u64 (nparity + 1))) else dcols }

/-- The total number of data and parity sectors. -/
def vdev_raidz_tot (io_size ashift dcols nparity : Nat) : Nat :=
  let s := io_size >>> ashift
  let q := s / u64_sub dcols nparity
  let r := u64_sub s (u64 (q * u64_sub dcols nparity))
  u64 (s + u64 (nparity * u64 (q + if r = 0 then 0 else 1)))

def rc_size (st : Stripe) (ashift c : Nat) : Nat :=
  if c ≥ st.acols then 0
  else if c < st.bc then u64 (u64 (st.q + 1) <<< ashift)
  else u64 (st.q <<< ashift)

def rc_sizes (st : Stripe) (ashift : Nat) : List Nat := (List.range st.scols).map (rc_size st ashift)

/-- The data columns take the buffer of the I/O apart from `off` on. -/
def data_abds (off : Nat) : List Nat → List Abd
  | [] => []
  | size :: sizes => .offset_size off size :: data_abds (u64 (off + size)) sizes

/-- Parity columns get a buffer of their own, data columns the next part of
    the buffer of the I/O, skipped columns none. -/
def rc_abds (st : Stripe) (ashift nparity : Nat) : List Abd :=
  ((rc_sizes st ashift).take nparity).map Abd.linear ++
    data_abds 0 (((rc_sizes st ashift).take st.acols).drop nparity) ++ List.replicate (st.scols - st.acols) .null

def rm_col (st : Stripe) (ashift dcols c : Nat) (abd : Abd) : RaidzColT :=
  let col := u64 (st.f + c)
  { rc_devidx := if col ≥ dcols then u64_sub col dcols else col
    rc_offset := if col ≥ dcols then u64 (st.o + u64 (1 <<< ashift)) else st.o
    rc_size := rc_size st ashift c
    rc_abd := abd }

/-- The exchange of devices and offsets between the first two columns. -/
def swap_parity : List RaidzColT → List RaidzColT
  | c0 :: c1 :: rest => { c0 with rc_devidx := c1.rc_devidx, rc_offset := c1.rc_offset } ::
      { c1 with rc_devidx := c0.rc_devidx, rc_offset := c0.rc_offset } :: rest
  | cols => cols

/-- `vdev_raidz_map_alloc`, for more children than parity columns and an I/O of
    at least one sector: for the others it divides by zero or writes past the
    columns it allocated. -/
def vdev_raidz_map_alloc (io_offset io_size ashift dcols nparity : Nat) : RaidzMapT :=
  let st := vdev_raidz_stripe io_offset io_size ashift dcols nparity
  let tot := vdev_raidz_tot io_size ashift dcols nparity
  let asize := (rc_sizes st ashift).foldl (fun asize size => u64 (asize + size)) 0
  let cols := List.zipWith (rm_col st ashift dcols) (List.range st.scols) (rc_abds st ashift nparity)
  let swap := nparity = 1 ∧ io_offset &&& (1 <<< 20) ≠ 0
  { rm_cols := st.acols
    rm_scols := st.scols
    rm_bigcols := st.bc
    rm_asize := roundup asize (u64 (u64 (nparity + 1) <<< ashift))
    rm_firstdatacol := nparity
    rm_nskip := u64_sub (roundup tot (u64 (nparity + 1))) tot
    rm_skipstart := if swap ∧ st.bc = 0 then 1 else st.bc
    rm_col := if swap then swap_parity cols else cols }

theorem u64_of_lt {n : Nat} (h : n < 2 ^ 64) : u64 n = n := Nat.mod_eq_of_lt h

theorem u64_sub_of_le {a b : Nat} (ha : a < 2 ^ 64) (h : b ≤ a) : u64_sub a b = a - b := by
  rw [u64_sub, u64]
  omega

theorem roundup_of_le {x y : Nat} (hy : 1 ≤ y) (hlt : y < 2 ^ 64) (h : x + (y - 1) < 2 ^ 64) :
    roundup x y = zfs_rescue.zio.roundup x y := by
  have hle : (x + (y - 1)) / y * y ≤ x + (y - 1) := Nat.div_mul_le_self _ _
  rw [roundup, zfs_rescue.zio.roundup, u64_sub_of_le hlt hy, u64_of_lt h, u64_of_lt (by omega),
    Nat.add_sub_assoc hy]

/-- The sectors of a stripe, parity included. -/
def tot (st : Stripe) : Nat := st.acols * st.q + st.bc

/-- No intermediate value of the map of a stripe takes more than 64 bits. -/
structure Fits (st : Stripe) (dcols ashift : Nat) : Prop where
  dcols_lt : dcols < 2 ^ 64
  col_le : st.f + st.scols ≤ 2 ^ 64
  coff_lt : dcols < st.f + st.scols → st.o + 2 ^ ashift < 2 ^ 64
  asize_le : (tot st + 2) * 2 ^ ashift ≤ 2 ^ 64

/-- The first row of a stripe starts no later on its disk than the stripe does. -/
theorem row_offset_le (dcols io_offset ashift : Nat) : (io_offset >>> ashift / dcols) <<< ashift ≤ io_offset := by
  calc (io_offset >>> ashift / dcols) <<< ashift
      = io_offset / 2 ^ ashift / dcols * 2 ^ ashift := by rw [Nat.shiftLeft_eq, Nat.shiftRight_eq_div_pow]
    _ ≤ io_offset / 2 ^ ashift * 2 ^ ashift := Nat.mul_le_mul_right _ (Nat.div_le_self _ _)
    _ ≤ io_offset := Nat.div_mul_le_self _ _

section Single

variable {dcols io_offset io_size ashift : Nat}

/-- The wrapping arithmetic computes the same stripe as the unbounded one. -/
theorem vdev_raidz_stripe_eq (hdcols : 2 ≤ dcols) (hlt : dcols < 2 ^ 64) (hoffset : io_offset < 2 ^ 64)
    (hsize : io_size < 2 ^ 64) :
    vdev_raidz_stripe io_offset io_size ashift dcols 1 = RaidzDevice.stripe dcols 1 io_offset io_size ashift := by
  have hs : io_size >>> ashift ≤ io_size := Nat.shiftRight_le _ _
  have ho := row_offset_le dcols io_offset ashift
  have hq : io_size >>> ashift / (dcols - 1) * (dcols - 1) ≤ io_size >>> ashift := Nat.div_mul_le_self _ _
  have hr : io_size >>> ashift - io_size >>> ashift / (dcols - 1) * (dcols - 1) < dcols - 1 := by
    rw [Nat.mul_comm, ← Nat.mod_eq_sub]
    exact Nat.mod_lt _ (by omega)
  simp only [vdev_raidz_stripe, RaidzDevice.stripe]
  rw [u64_sub_of_le hlt (by omega), u64_of_lt (by omega : _ * (dcols - 1) < 2 ^ 64),
    u64_sub_of_le (by omega) hq, u64_of_lt (by omega : _ <<< ashift < 2 ^ 64)]
  generalize io_size >>> ashift - io_size >>> ashift / (dcols - 1) * (dcols - 1) = r at hr
  have hbc : (if r = 0 then 0 else u64 (r + 1)) = if r ≠ 0 then r + 1 else 0 := by
    rw [u64_of_lt (by omega)]
    split <;> simp_all
  have hround : ∀ bc, bc < dcols → roundup bc (u64 (1 + 1)) = zfs_rescue.zio.roundup bc (1 + 1) := by
    intro bc hbc
    rw [u64_of_lt (by omega : 1 + 1 < 2 ^ 64)]
    exact roundup_of_le (by omega) (by omega) (by omega)
  rw [hbc, hround _ (by split <;> omega)]

theorem sectors_le_tot {st : Stripe} {c : Nat} (hc : c < st.acols) : (st.q + if c < st.bc then 1 else 0) ≤ tot st := by
  have hmul : st.q ≤ st.acols * st.q := Nat.le_mul_of_pos_left _ (by omega)
  rw [tot]
  split <;> omega

/-- The column sizes are those of the unbounded computation. -/
theorem rc_size_eq {st : Stripe} (hfits : Fits st dcols ashift) (c : Nat) : rc_size st ashift c = st.size ashift c := by
  have hasize := hfits.asize_le
  have hpos : 0 < 2 ^ ashift := by positivity
  have hlt : ∀ n, n ≤ tot st + 1 → n * 2 ^ ashift < 2 ^ 64 := by
    intro n hn
    have := Nat.mul_le_mul_right (2 ^ ashift) hn
    rw [show tot st + 2 = tot st + 1 + 1 by omega, Nat.succ_mul] at hasize
    omega
  have hle : ∀ n, n ≤ n * 2 ^ ashift := fun n => Nat.le_mul_of_pos_right n hpos
  rw [rc_size, Stripe.size]
  by_cases hc : c ≥ st.acols
  · rw [if_pos hc, if_pos hc]
  · have hq := sectors_le_tot (Nat.lt_of_not_le hc)
    rw [if_neg hc, if_neg hc]
    split at hq
    · have hq1 := hlt (st.q + 1) (by omega)
      have := hle (st.q + 1)
      rw [if_pos ‹_›, if_pos ‹_›, u64_of_lt (by omega : st.q + 1 < 2 ^ 64), Nat.shiftLeft_eq, u64_of_lt hq1]
    · rw [if_neg ‹_›, if_neg ‹_›, Nat.shiftLeft_eq, u64_of_lt (hlt st.q (by omega))]

/-- Every column lies where the unbounded computation puts it. -/
theorem rm_col_eq {st : Stripe} (hfits : Fits st dcols ashift) {c : Nat} (hc : c < st.scols) (abd : Abd) :
    rm_col st ashift dcols c abd =
      { rc_devidx := (st.col dcols ashift c).rc_devidx
        rc_offset := (st.col dcols ashift c).rc_offset
        rc_size := (st.col dcols ashift c).rc_size
        rc_abd := abd } := by
  have hcol := hfits.col_le
  have hdcols := hfits.dcols_lt
  rw [rm_col, Stripe.col, rc_size_eq hfits, u64_of_lt (by omega : st.f + c < 2 ^ 64)]
  by_cases hwrap : st.f + c ≥ dcols
  · have hcoff := hfits.coff_lt (by omega)
    simp only [if_pos hwrap]
    rw [u64_sub_of_le (by omega) hwrap, Nat.one_shiftLeft, u64_of_lt (by omega : 2 ^ ashift < 2 ^ 64),
      u64_of_lt hcoff]
  · simp only [if_neg hwrap]

/-- The parts of a buffer of consecutive sizes. -/
def parts (off : Nat) : List Nat → List Abd
  | [] => []
  | size :: sizes => .offset_size off size :: parts (off + size) sizes

theorem data_abds_eq {sizes : List Nat} {off : Nat} (h : off + sizes.sum < 2 ^ 64) :
    data_abds off sizes = parts off sizes := by
  induction sizes generalizing off with
  | nil => rfl
  | cons size sizes ih =>
    rw [List.sum_cons] at h
    rw [data_abds, parts, u64_of_lt (by omega), ih (by omega)]

theorem length_parts (off : Nat) (sizes : List Nat) : (parts off sizes).length = sizes.length := by
  induction sizes generalizing off with
  | nil => rfl
  | cons size sizes ih => simp [parts, ih]

/-- A column of the Python map together with its buffer. -/
def with_abd (col : RaidzCol) (abd : Abd) : RaidzColT where
  rc_devidx := col.rc_devidx
  rc_offset := col.rc_offset
  rc_size := col.rc_size
  rc_abd := abd

/-- The buffers of the accessed columns: the parity has one of its own, and the
    data columns share out the buffer of the I/O in order. -/
theorem take_rc_abds {st : Stripe} (hfits : Fits st dcols ashift) (hacols : 2 ≤ st.acols)
    (hscols : st.acols ≤ st.scols) (hsum : ((List.range st.acols).map (st.size ashift)).sum < 2 ^ 64) :
    (rc_abds st ashift 1).take st.acols =
      .linear (st.size ashift 0) :: parts 0 (((List.range st.acols).map (st.size ashift)).drop 1) := by
  have hsizes : rc_sizes st ashift = (List.range st.scols).map (st.size ashift) :=
    List.map_congr_left fun c _ => rc_size_eq hfits c
  have htake : (rc_sizes st ashift).take st.acols = (List.range st.acols).map (st.size ashift) := by
    rw [hsizes, ← List.map_take, List.take_range, Nat.min_eq_left hscols]
  have hfirst : (rc_sizes st ashift).take 1 = [st.size ashift 0] := by
    rw [hsizes, ← List.map_take, List.take_range, Nat.min_eq_left (by omega)]
    rfl
  have hdata : data_abds 0 (((List.range st.acols).map (st.size ashift)).drop 1) =
      parts 0 (((List.range st.acols).map (st.size ashift)).drop 1) := by
    have hdrop := List.sum_take_add_sum_drop ((List.range st.acols).map (st.size ashift)) 1
    exact data_abds_eq (by omega)
  rw [rc_abds, htake, hfirst, hdata]
  simp only [List.map_cons, List.map_nil, List.cons_append, List.nil_append]
  rw [List.take_cons (by omega), List.take_append_of_le_length (by simp [length_parts]), List.take_of_length_le]
  simp [length_parts]

/-- The exchange commutes with attaching the buffers. -/
theorem swap_parity_with_abd {cols swapped : List RaidzCol} {abd0 abd1 : Abd} {abds : List Abd}
    (h : zfs_rescue.zio.swap_parity cols = .ok swapped) :
    swap_parity (List.zipWith with_abd cols (abd0 :: abd1 :: abds)) =
      List.zipWith with_abd swapped (abd0 :: abd1 :: abds) := by
  match cols, h with
  | c0 :: c1 :: rest, h =>
    cases h
    rfl

theorem swap_parity_take {cols : List RaidzColT} {n : Nat} (hn : 2 ≤ n) :
    (swap_parity cols).take n = swap_parity (cols.take n) := by
  obtain ⟨k, rfl⟩ := Nat.exists_eq_add_of_le hn
  rw [Nat.add_comm]
  match cols with
  | [] => rfl
  | [c] => rfl
  | c0 :: c1 :: rest => rfl

private theorem zipWith_congr_left {α β γ : Type} {f g : α → β → γ} {xs : List α} {ys : List β}
    (h : ∀ x ∈ xs, ∀ y, f x y = g x y) : List.zipWith f xs ys = List.zipWith g xs ys := by
  induction xs generalizing ys with
  | nil => rfl
  | cons x xs ih =>
    cases ys with
    | nil => rfl
    | cons y ys =>
      rw [List.zipWith_cons_cons, List.zipWith_cons_cons, h x (by simp), ih fun z hz => h z (by simp [hz])]

/-- The accessed columns of the map are those of the Python map, in order, with
    the parity column in a buffer of its own and the data columns on consecutive
    parts of the buffer of the I/O. -/
theorem vdev_raidz_map_alloc_eq (hdcols : 2 ≤ dcols) (hs : 1 ≤ io_size >>> ashift) (hoffset : io_offset < 2 ^ 64)
    (hsize : io_size < 2 ^ 64) (hfits : Fits (RaidzDevice.stripe dcols 1 io_offset io_size ashift) dcols ashift) :
    ∃ m size, RaidzDevice.map_alloc dcols 1 io_offset io_size ashift = .ok m ∧
      (vdev_raidz_map_alloc io_offset io_size ashift dcols 1).rm_col.take
          (vdev_raidz_map_alloc io_offset io_size ashift dcols 1).rm_cols =
        List.zipWith with_abd m.rm_cols (.linear size :: parts 0 ((m.rm_cols.map RaidzCol.rc_size).drop 1)) ∧
      (vdev_raidz_map_alloc io_offset io_size ashift dcols 1).rm_firstdatacol = m.rm_firstdatacol ∧
      (vdev_raidz_map_alloc io_offset io_size ashift dcols 1).rm_skipstart = m.rm_skipstart := by
  have hcols := RaidzDevice.stripe_cols io_offset hdcols hs
  obtain ⟨hf, hacols, hscols, hle, hbc1, hbc, _, _⟩ := RaidzDevice.stripe_spec io_offset hdcols hs
  simp only [vdev_raidz_map_alloc]
  rw [vdev_raidz_stripe_eq hdcols hfits.dcols_lt hoffset hsize]
  rw [RaidzDevice.map_alloc, if_neg (by omega)]
  simp only [hcols]
  generalize RaidzDevice.stripe dcols 1 io_offset io_size ashift = st at hf hacols hscols hle hbc1 hbc hfits ⊢
  have hsum : ((List.range st.acols).map (st.size ashift)).sum < 2 ^ 64 := by
    have hasize := hfits.asize_le
    have hpos : 0 < 2 ^ ashift := by positivity
    rw [tot, Nat.add_mul, ← Stripe.sum_size ashift hbc] at hasize
    omega
  have habds := take_rc_abds hfits hacols hscols hsum
  have htake : (List.zipWith (rm_col st ashift dcols) (List.range st.scols) (rc_abds st ashift 1)).take st.acols =
      List.zipWith with_abd ((List.range st.acols).map (st.col dcols ashift)) ((rc_abds st ashift 1).take st.acols) := by
    rw [List.take_zipWith, List.take_range, Nat.min_eq_left hscols, List.zipWith_map_left]
    apply zipWith_congr_left
    intro c hc abd
    rw [List.mem_range] at hc
    exact rm_col_eq hfits (by omega) abd
  rw [habds, ← Stripe.map_rc_size st ashift] at htake
  have hlength : ((List.range st.acols).map (st.col dcols ashift)).length = st.acols := by simp
  generalize (List.range st.acols).map (st.col dcols ashift) = cols at htake hlength ⊢
  simp only [true_and]
  generalize io_offset &&& (1 <<< 20) = bit
  by_cases hswap : bit ≠ 0
  · obtain ⟨swapped, hswapped, hsame, _⟩ := swap_parity_spec (show 2 ≤ cols.length by omega)
    have hdata : ((cols.map RaidzCol.rc_size).drop 1).length = st.acols - 1 := by simp [hlength]
    obtain ⟨abd1, abds, habd1⟩ : ∃ abd1 abds, parts 0 ((cols.map RaidzCol.rc_size).drop 1) = abd1 :: abds :=
      List.exists_cons_of_length_pos (by rw [length_parts]; omega)
    refine ⟨_, st.size ashift 0, by rw [if_pos hswap, hswapped, bind_ok], ?_, rfl, ?_⟩
    · simp only [hsame]
      rw [if_pos hswap, swap_parity_take hacols, htake, habd1]
      exact swap_parity_with_abd hswapped
    · simp [hswap]
  · refine ⟨_, st.size ashift 0, by rw [if_neg hswap], ?_, rfl, ?_⟩
    · rw [if_neg hswap]
      exact htake
    · simp [hswap]

/-- The sizes and offsets a block pointer can hold leave the map well inside
    64 bits. -/
theorem fits_of_le (hdcols : 2 ≤ dcols) (hlt : dcols < 2 ^ 64) (hs : 1 ≤ io_size >>> ashift)
    (hoffset : io_offset ≤ 2 ^ 43) (hsize : io_size ≤ 2 ^ 26) (hashift : ashift ≤ 16) :
    Fits (RaidzDevice.stripe dcols 1 io_offset io_size ashift) dcols ashift := by
  have hpow : 2 ^ ashift ≤ 2 ^ 16 := Nat.pow_le_pow_right (by omega) hashift
  have hsectors : io_size >>> ashift * 2 ^ ashift ≤ io_size := by
    rw [Nat.shiftRight_eq_div_pow]
    exact Nat.div_mul_le_self _ _
  have hs' : io_size >>> ashift ≤ io_size := Nat.shiftRight_le _ _
  have hb : io_offset >>> ashift ≤ io_offset := Nat.shiftRight_le _ _
  have hf : io_offset >>> ashift % dcols ≤ io_offset >>> ashift := Nat.mod_le _ _
  have ho := row_offset_le dcols io_offset ashift
  have hscols := RaidzDevice.stripe_scols_le io_offset hdcols hs
  have htot := RaidzDevice.stripe_tot_le io_offset hdcols hs
  refine ⟨hlt, ?_, ?_, ?_⟩
  · simp only [RaidzDevice.stripe] at hscols ⊢
    omega
  · intro _
    simp only [RaidzDevice.stripe]
    omega
  · calc (tot (RaidzDevice.stripe dcols 1 io_offset io_size ashift) + 2) * 2 ^ ashift
        ≤ (2 * io_size >>> ashift + 3) * 2 ^ ashift := Nat.mul_le_mul_right _ (by rw [tot]; omega)
      _ = 2 * (io_size >>> ashift * 2 ^ ashift) + 3 * 2 ^ ashift := by ring
      _ ≤ 2 ^ 64 := by omega

end Single

end zfs_rescue.extractor.zio
