import ZfsRescue.Extractor.Zio
import ZfsRescue.Zio.Layout

open bytes
open zfs_rescue.proxy
open zfs_rescue.extractor.zio

namespace zfs_rescue.zio

/-- The children hold the buffer of an I/O through the columns of a map: every
    accessed column lies inside its child, and the data columns hold their part
    of the buffer. -/
def LaidOut (rm : RaidzMapT) (img : Nat → Bytes) (data : Bytes) : Prop :=
  ∀ col ∈ rm.rm_col.take rm.rm_cols,
    col.rc_offset + 0x400000 + col.rc_size ≤ (img col.rc_devidx).length ∧
      ∀ off size, col.rc_abd = .offset_size off size →
        slice (img col.rc_devidx) (col.rc_offset + 0x400000) size = slice data off size

private theorem laidOut_parts {img : Nat → Bytes} {data : Bytes} (cols : List RaidzCol) (off : Nat) :
    (∀ col ∈ List.zipWith with_abd cols (parts off (cols.map RaidzCol.rc_size)),
      col.rc_offset + 0x400000 + col.rc_size ≤ (img col.rc_devidx).length ∧
        ∀ off size, col.rc_abd = .offset_size off size →
          slice (img col.rc_devidx) (col.rc_offset + 0x400000) size = slice data off size) ↔
      Inside img cols ∧ columns img cols = cut data off (cols.map RaidzCol.rc_size) := by
  induction cols generalizing off with
  | nil => simp [Inside, cut]
  | cons col cols ih =>
    simp only [List.map_cons, parts, List.zipWith_cons_cons, List.forall_mem_cons, columns_cons, cut,
      List.cons.injEq, ih, with_abd, Abd.offset_size.injEq, Inside, column]
    constructor
    · rintro ⟨⟨hin, hpart⟩, hinside, hcols⟩
      exact ⟨⟨hin, hinside⟩, hpart off col.rc_size ⟨rfl, rfl⟩, hcols⟩
    · rintro ⟨⟨hin, hinside⟩, hpart, hcols⟩
      refine ⟨⟨hin, ?_⟩, hinside, hcols⟩
      rintro off' size ⟨rfl, rfl⟩
      exact hpart

section Single

variable {dcols io_offset io_size ashift : Nat}

/-- Laid out by the map of the extractor means readable through the map of the
    Python code, column by column. -/
theorem laidOut_iff (hdcols : 2 ≤ dcols) (hlt : dcols < 2 ^ 64) (hs : 1 ≤ io_size >>> ashift)
    (hoffset : io_offset ≤ 2 ^ 43) (hsize : io_size ≤ 2 ^ 26) (hashift : ashift ≤ 16) :
    ∃ m, RaidzDevice.map_alloc dcols 1 io_offset io_size ashift = .ok m ∧
      ∀ img data, LaidOut (vdev_raidz_map_alloc io_offset io_size ashift dcols 1) img data ↔
        Inside img m.rm_cols ∧
          (columns img m.rm_cols).drop 1 = cut data 0 ((m.rm_cols.map RaidzCol.rc_size).drop 1) := by
  obtain ⟨m, size, hmap, haccessed, _, _⟩ := vdev_raidz_map_alloc_eq hdcols hs (by omega) (by omega)
    (fits_of_le hdcols hlt hs hoffset hsize hashift)
  obtain ⟨m', hmap', hcovers⟩ := RaidzDevice.map_alloc_covers io_offset hdcols hs
  obtain rfl : m = m' := Except.ok.inj (hmap.symm.trans hmap')
  obtain ⟨parity, cols, hcols⟩ := hcovers.exists_cons
  refine ⟨m, hmap, fun img data => ?_⟩
  rw [LaidOut, haccessed, hcols, List.map_cons, List.drop_succ_cons, List.drop_zero, List.zipWith_cons_cons,
    List.forall_mem_cons, laidOut_parts, columns_cons, List.drop_succ_cons, List.drop_zero]
  simp only [with_abd, reduceCtorEq, false_implies, implies_true, and_true, Inside, List.forall_mem_cons,
    and_assoc]

end Single

/-- What a device reads back from children that hold its data columns. -/
theorem RaidzDevice.read_physical_columns (self : RaidzDevice) {offset size : Nat} {m : RaidzMap}
    {img : Nat → Bytes} (hnparity : self.nparity = 1) (hdevs : 2 ≤ self.devs.length) (hrepair : self.repair = false)
    (hoffset : offset ≤ 8 * 1024 * 1024 * 1024 * 1024) (hs : 1 ≤ size >>> self.ashift)
    (hmap : RaidzDevice.map_alloc self.devs.length 1 offset size self.ashift = .ok m)
    (hserves : self.bp.Serves self.devs img) (hinside : Inside img m.rm_cols) :
    self.read_physical offset size = .ok (some ((columns img m.rm_cols).drop 1).flatten) := by
  obtain ⟨m', hmap', hcovers⟩ := RaidzDevice.map_alloc_covers offset hdevs hs
  obtain rfl : m = m' := Except.ok.inj (hmap.symm.trans hmap')
  obtain ⟨blockv, read, hblockv, hread, hcut⟩ := self.read_columns hserves hcovers.devidx_lt hinside
  have hcheck : RaidzDevice.parity_check (columns img m.rm_cols) = .ok () := hcovers.parity_check hinside
  rw [RaidzDevice.read_physical, if_neg (by omega), hnparity, hmap, bind_ok, hblockv, bind_ok, hread, bind_ok, hcut]
  simp only
  rw [hcheck, bind_ok, RaidzDevice.repair_columns, if_neg (by simp [hrepair]), bind_ok, hcovers.firstdatacol]

/-- A device never delivers more than the whole sectors of what it was asked for. -/
theorem RaidzDevice.length_of_read_physical (self : RaidzDevice) {offset size : Nat} {data : Bytes}
    (hnparity : self.nparity = 1) (hdevs : 2 ≤ self.devs.length) (hrepair : self.repair = false)
    (hs : 1 ≤ size >>> self.ashift) (h : self.read_physical offset size = .ok (some data)) :
    data.length ≤ size >>> self.ashift * 2 ^ self.ashift := by
  obtain ⟨m, hmap, hcovers⟩ := RaidzDevice.map_alloc_covers offset hdevs hs
  rw [RaidzDevice.read_physical] at h
  split at h
  · cases h
  rw [hnparity, hmap, bind_ok, bind_eq_ok_iff] at h
  obtain ⟨blockv, _, h⟩ := h
  rw [bind_eq_ok_iff] at h
  obtain ⟨read, _, h⟩ := h
  rw [bind_eq_ok_iff] at h
  obtain ⟨_, _, h⟩ := h
  rw [RaidzDevice.repair_columns, if_neg (by simp [hrepair]), bind_ok, hcovers.firstdatacol] at h
  cases h
  obtain ⟨parity, cols, hcols⟩ := hcovers.exists_cons
  rw [← hcovers.data_size, hcols]
  simp only [List.map_cons, cut, List.drop_succ_cons, List.drop_zero]
  exact length_flatten_cut_le _ _ _

end zfs_rescue.zio
