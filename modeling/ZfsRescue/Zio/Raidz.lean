import ZfsRescue.Bytes.Xor
import ZfsRescue.Proxy.Serves
import ZfsRescue.Zio.MapAlloc

open bytes
open zfs_rescue.proxy

namespace zfs_rescue.zio

/-- A RAID-Z device, with the defaults of its constructor. -/
structure RaidzDevice where
  devs : List String
  nparity : Nat
  bp : BlockProxy
  ashift : Nat := 9
  bad : Option (List Nat) := none
  repair : Bool := false

/-- `_xor(p, d)`: indexing past the end of `p` raises. -/
def RaidzDevice.xor (p d : Bytes) : Py Bytes :=
  if d.length ≤ p.length then .ok (xorInto p d) else .error .IndexError

/-- `_xor` of several columns into one, in order. -/
def RaidzDevice.xor_all (p : Bytes) (cols : List Bytes) : Py Bytes := cols.foldlM RaidzDevice.xor p

/-- The parity check: its result is thrown away, but it may raise. -/
def RaidzDevice.parity_check : List Bytes → Py Unit
  | [] => .ok ()
  | c :: cols => do
    let _ ← RaidzDevice.xor_all c cols
    .ok ()

/-- The columns `1, 2, ..` of the I/O without column `bad`. -/
def survivors (col_data : List Bytes) (bad : Nat) : List Bytes :=
  ((col_data.zipIdx.drop 1).filter fun c => c.2 ≠ bad).map Prod.fst

/-- The repair of the first bad child, if a column other than the first one
    lies on it. The rebuilt column is also left in place of the parity. -/
def RaidzDevice.repair_columns (self : RaidzDevice) (cols : List RaidzCol) (col_data : List Bytes) :
    Py (List Bytes) :=
  if self.repair then
    match self.bad with
    | none => .error .TypeError
    | some [] => .ok col_data
    | some (bad0 :: _) =>
      let devs := cols.map RaidzCol.rc_devidx
      if bad0 ∈ devs.drop 1 then do
        let bad := devs.idxOf bad0
        let parity ← index col_data 0
        let col ← index cols bad
        let parity ← RaidzDevice.xor_all parity (survivors col_data bad)
        .ok ((col_data.set 0 parity).set bad (parity.take col.rc_size))
      else .ok col_data
  else .ok col_data

/-- The ranges asked of the children, four mebibytes of labels further on. -/
def RaidzDevice.blockv (self : RaidzDevice) (cols : List RaidzCol) : Py (List (String × Nat × Nat)) :=
  cols.mapM fun col => do
    let dev ← index self.devs col.rc_devidx
    .ok (dev, col.rc_offset + 0x400000, col.rc_size)

def RaidzDevice.read_physical (self : RaidzDevice) (offset psize : Nat) : Py (Option Bytes) :=
  if offset > 8 * 1024 * 1024 * 1024 * 1024 then .ok none
  else do
    let m ← RaidzDevice.map_alloc self.devs.length self.nparity offset psize self.ashift
    let blockv ← self.blockv m.rm_cols
    let data ← self.bp.readv blockv
    let col_data := cut data 0 (m.rm_cols.map RaidzCol.rc_size)
    RaidzDevice.parity_check col_data
    let col_data ← self.repair_columns m.rm_cols col_data
    .ok (some (col_data.drop m.rm_firstdatacol).flatten)

/-- The device as `read_block` sees it, run with some `zlib.decompress`. -/
def RaidzDevice.to_generic (self : RaidzDevice) (zlib_decompress : Bytes → Py Bytes) : GenericDevice where
  ashift := self.ashift
  read_physical := self.read_physical
  zlib_decompress := zlib_decompress

theorem RaidzDevice.xor_all_of_le {p : Bytes} {cols : List Bytes} (h : ∀ col ∈ cols, col.length ≤ p.length) :
    RaidzDevice.xor_all p cols = .ok (cols.foldl xorInto p) := by
  induction cols generalizing p with
  | nil => rfl
  | cons col cols ih =>
    have hcol : col.length ≤ p.length := h col (by simp)
    rw [RaidzDevice.xor_all, List.foldlM_cons, RaidzDevice.xor, if_pos hcol, bind_ok, List.foldl_cons]
    exact ih (le_length_xorInto h)

theorem RaidzDevice.parity_check_of_le {c : Bytes} {cols : List Bytes} (h : ∀ col ∈ cols, col.length ≤ c.length) :
    RaidzDevice.parity_check (c :: cols) = .ok () := by
  rw [RaidzDevice.parity_check, RaidzDevice.xor_all_of_le h, bind_ok]

theorem survivors_eq (parity lost : Bytes) (before after : List Bytes) :
    survivors (parity :: (before ++ lost :: after)) (before.length + 1) = before ++ after := by
  have hbefore : (before.zipIdx 1).filter (fun c => c.2 ≠ before.length + 1) = before.zipIdx 1 := by
    rw [List.filter_eq_self]
    rintro ⟨c, i⟩ hc
    have := List.snd_lt_add_of_mem_zipIdx hc
    simp only [decide_eq_true_eq]
    omega
  have hafter : (after.zipIdx (before.length + 2)).filter (fun c => c.2 ≠ before.length + 1) =
      after.zipIdx (before.length + 2) := by
    rw [List.filter_eq_self]
    rintro ⟨c, i⟩ hc
    have := List.le_snd_of_mem_zipIdx hc
    simp only [decide_eq_true_eq]
    omega
  rw [survivors, List.zipIdx_cons, List.drop_succ_cons, List.drop_zero, List.zipIdx_append, List.filter_append,
    List.zipIdx_cons, hbefore]
  rw [List.filter_cons_of_neg (by simp; omega), show 0 + 1 + before.length + 1 = before.length + 2 by omega, hafter]
  simp

/-- The bytes of a child that a column covers. -/
def column (img : Nat → Bytes) (col : RaidzCol) : Bytes :=
  slice (img col.rc_devidx) (col.rc_offset + 0x400000) col.rc_size

def columns (img : Nat → Bytes) (cols : List RaidzCol) : List Bytes := cols.map (column img)

@[simp] theorem columns_nil (img : Nat → Bytes) : columns img [] = [] := rfl

@[simp] theorem columns_cons (img : Nat → Bytes) (col : RaidzCol) (cols : List RaidzCol) :
    columns img (col :: cols) = column img col :: columns img cols := rfl

@[simp] theorem columns_append (img : Nat → Bytes) (xs ys : List RaidzCol) :
    columns img (xs ++ ys) = columns img xs ++ columns img ys := List.map_append

@[simp] theorem length_columns (img : Nat → Bytes) (cols : List RaidzCol) : (columns img cols).length = cols.length :=
  List.length_map _

/-- Every column lies inside the image of its child. -/
def Inside (img : Nat → Bytes) (cols : List RaidzCol) : Prop :=
  ∀ col ∈ cols, col.rc_offset + 0x400000 + col.rc_size ≤ (img col.rc_devidx).length

theorem length_column {img : Nat → Bytes} {cols : List RaidzCol} (h : Inside img cols) {col : RaidzCol}
    (hcol : col ∈ cols) : (column img col).length = col.rc_size :=
  length_slice_of_le (h col hcol)

theorem map_length_columns {img : Nat → Bytes} {cols : List RaidzCol} (h : Inside img cols) :
    (columns img cols).map List.length = cols.map RaidzCol.rc_size := by
  rw [columns, List.map_map]
  apply List.map_congr_left
  intro col hcol
  exact length_column h hcol

theorem RaidzDevice.blockv_eq (self : RaidzDevice) {cols : List RaidzCol}
    (h : ∀ col ∈ cols, col.rc_devidx < self.devs.length) :
    self.blockv cols = .ok (cols.map fun col =>
      (self.devs.getD col.rc_devidx "", col.rc_offset + 0x400000, col.rc_size)) := by
  induction cols with
  | nil => rfl
  | cons col cols ih =>
    have hlt := h col (by simp)
    have hrest := ih fun c hc => h c (by simp [hc])
    rw [RaidzDevice.blockv] at hrest
    rw [RaidzDevice.blockv, List.mapM_cons, index_of_lt hlt, hrest]
    simp [List.getD_eq_getElem?_getD, hlt]

/-- Reading the columns of a map from children that hold them all gives each
    column back. -/
theorem RaidzDevice.read_columns (self : RaidzDevice) {img : Nat → Bytes} {cols : List RaidzCol}
    (hserves : self.bp.Serves self.devs img) (hlt : ∀ col ∈ cols, col.rc_devidx < self.devs.length)
    (hinside : Inside img cols) :
    ∃ blockv data, self.blockv cols = .ok blockv ∧ self.bp.readv blockv = .ok data ∧
      cut data 0 (cols.map RaidzCol.rc_size) = columns img cols := by
  have hblock := hserves (cols.map fun col => (col.rc_devidx, col.rc_offset + 0x400000, col.rc_size)) (by
    intro b hb
    obtain ⟨col, hcol, rfl⟩ := List.mem_map.mp hb
    exact ⟨hlt col hcol, hinside col hcol⟩)
  refine ⟨_, (columns img cols).flatten, self.blockv_eq hlt, ?_, ?_⟩
  · rw [List.map_map, List.flatMap_map] at hblock
    rw [columns, ← List.flatMap_def]
    exact hblock
  · have hcut := cut_flatten (columns img cols) [] []
    rw [map_length_columns hinside] at hcut
    simpa using hcut

/-- Every data column of a map is at most as long as its parity column. -/
theorem RaidzMap.Covers.length_le {m : RaidzMap} {dcols size : Nat} (hcovers : m.Covers dcols size)
    {parity : RaidzCol} {rest : List RaidzCol} (hcols : m.rm_cols = parity :: rest) {img : Nat → Bytes}
    (hinside : Inside img m.rm_cols) :
    ∀ col ∈ columns img rest, col.length ≤ (column img parity).length := by
  intro col hcol
  obtain ⟨c, hc, rfl⟩ := List.mem_map.mp hcol
  have hmem : c ∈ m.rm_cols := by rw [hcols]; exact List.mem_cons_of_mem _ hc
  have hparity : parity ∈ m.rm_cols := by rw [hcols]; exact List.mem_cons_self
  rw [length_column hinside hmem, length_column hinside hparity]
  exact hcovers.size_le c hmem parity (by rw [hcols]; rfl)

/-- The parity check raises on no map that covers an I/O. -/
theorem RaidzMap.Covers.parity_check {m : RaidzMap} {dcols size : Nat} (hcovers : m.Covers dcols size)
    {img : Nat → Bytes} (hinside : Inside img m.rm_cols) :
    RaidzDevice.parity_check (columns img m.rm_cols) = .ok () := by
  obtain ⟨parity, rest, hcols⟩ := hcovers.exists_cons
  rw [hcols]
  exact RaidzDevice.parity_check_of_le (hcovers.length_le hcols hinside)

end zfs_rescue.zio
