import ZfsRescue.Zio.Raidz

open bytes
open zfs_rescue.blockptr zfs_rescue.proxy

namespace zfs_rescue.zio

/-- A range of bytes of a child. -/
structure Range where
  child : Nat
  offset : Nat
  length : Nat
  deriving DecidableEq, Repr

/-- `read_block` of the device, over some proxy. -/
def RaidzDevice.read_block_over (self : RaidzDevice) (zlib_decompress : Bytes → Py Bytes) (bptr : BlockPtr) (dva : Nat)
    (bp : BlockProxy) : Py (Option Bytes × Bool) :=
  ({ self with bp := bp }.to_generic zlib_decompress).read_block bptr dva

/-- `read_block` asks its proxy for a vector of ranges: an exception of `readv` at it
    is raised, and whatever else the proxy does plays no part. -/
structure RaidzDevice.Asks (vdev : RaidzDevice) (zlib_decompress : Bytes → Py Bytes) (bptr : BlockPtr) (dva : Nat)
    (blockv : List (String × Nat × Nat)) : Prop where
  raises : ∀ bp e, bp.readv blockv = .error e → vdev.read_block_over zlib_decompress bptr dva bp = .error e
  alone : ∀ bp bp', bp.readv blockv = bp'.readv blockv →
    vdev.read_block_over zlib_decompress bptr dva bp = vdev.read_block_over zlib_decompress bptr dva bp'

/-- The ranges of its children that `read_block` reads. -/
def RaidzDevice.Reads (self : RaidzDevice) (zlib_decompress : Bytes → Py Bytes) (bptr : BlockPtr) (dva : Nat)
    (x : Range) : Prop :=
  ∃ blockv path, self.Asks zlib_decompress bptr dva blockv ∧ self.devs[x.child]? = some path ∧
    (path, x.offset, x.length) ∈ blockv

section Asking

variable {self : RaidzDevice} {zlib_decompress : Bytes → Py Bytes} {bptr : BlockPtr} {dva : Nat}

/-- What does not depend on the proxy asks it for nothing. -/
theorem RaidzDevice.not_asks_of_const {r : Py (Option Bytes × Bool)}
    (h : ∀ bp, self.read_block_over zlib_decompress bptr dva bp = r) (blockv : List (String × Nat × Nat)) :
    ¬self.Asks zlib_decompress bptr dva blockv := by
  intro hasks
  have hraise : ∀ e, r = .error e := fun e =>
    (h _).symm.trans (hasks.raises { read := fun _ _ _ => .error e, readv := fun _ => .error e } e rfl)
  have heq := (hraise .OSError).symm.trans (hraise .TypeError)
  cases heq

/-- What goes on from one call of `readv` asks for its ranges and no others. -/
theorem RaidzDevice.asks_iff_of_bind {blockv : List (String × Nat × Nat)} {next : Bytes → Py (Option Bytes × Bool)}
    (h : ∀ bp, self.read_block_over zlib_decompress bptr dva bp = bp.readv blockv >>= next)
    (asked : List (String × Nat × Nat)) : self.Asks zlib_decompress bptr dva asked ↔ asked = blockv := by
  constructor
  · intro hasks
    by_contra hne
    let bp : BlockProxy :=
      { read := fun _ _ _ => .error .OSError
        readv := fun ranges => if ranges = asked then .error .OSError else .error .TypeError }
    have hraise := hasks.raises bp .OSError (if_pos rfl)
    have hother : bp.readv blockv = .error .TypeError := if_neg (Ne.symm hne)
    rw [h, hother] at hraise
    cases hraise
  · rintro rfl
    constructor
    · intro bp e he
      rw [h, he]
      rfl
    · intro bp bp' heq
      rw [h, h, heq]

/-- A pointer to a block goes on from the physical read of it. -/
theorem GenericDevice.read_block_bind (hempty : bptr.empty = false) (hembeded : bptr.embeded = false)
    (hgang : (bptr.get_dva dva).gang = false) (hpsize : bptr.psize ≠ 0) (zlib_decompress : Bytes → Py Bytes) :
    ∃ next : Option Bytes → Py (Option Bytes × Bool), ∀ dev : GenericDevice, dev.zlib_decompress = zlib_decompress →
      dev.read_block bptr dva = dev.read_physical (bptr.get_dva dva).offset (dev.rsize bptr.psize) >>= next := by
  refine ⟨fun data => (GenericDevice.mk 0 (fun _ _ => .ok data) zlib_decompress).read_block bptr dva, ?_⟩
  have hread : ∀ dev : GenericDevice, dev.read_block bptr dva =
      dev.read_stored bptr dva >>= fun stored => dev.expand bptr stored.1 stored.2 := by
    intro dev
    rw [GenericDevice.read_block, if_neg (by simp [hempty]), if_neg (by simp [hgang]), if_neg fun h => hpsize h.2]
  intro dev hzlib
  have hexpand : ∀ data cksum read, dev.expand bptr data cksum =
      (GenericDevice.mk 0 (fun _ _ => .ok read) zlib_decompress).expand bptr data cksum := by
    intro data cksum read
    simp only [GenericDevice.expand, GenericDevice.decompress, hzlib]
  cases hphysical : dev.read_physical (bptr.get_dva dva).offset (dev.rsize bptr.psize) with
  | error e =>
    have hstored : dev.read_stored bptr dva = .error e := by
      rw [GenericDevice.read_stored, if_neg (by simp [hembeded]), hphysical, bind_error]
    rw [hread, hstored, bind_error, bind_error]
  | ok read =>
    have hstored : dev.read_stored bptr dva =
        (GenericDevice.mk 0 (fun _ _ => .ok read) zlib_decompress).read_stored bptr dva := by
      rw [GenericDevice.read_stored, GenericDevice.read_stored, hphysical, bind_ok]
    rw [bind_ok, hread, hread, hstored]
    simp only [hexpand _ _ read]

/-- A physical read goes on from one call of `readv`, at the ranges of its map. -/
theorem RaidzDevice.read_physical_bind {offset psize : Nat} {m : RaidzMap} {blockv : List (String × Nat × Nat)}
    (hlimit : offset ≤ 8 * 1024 * 1024 * 1024 * 1024)
    (hmap : RaidzDevice.map_alloc self.devs.length self.nparity offset psize self.ashift = .ok m)
    (hblockv : self.blockv m.rm_cols = .ok blockv) :
    ∃ next : Bytes → Py (Option Bytes), ∀ bp,
      { self with bp := bp }.read_physical offset psize = bp.readv blockv >>= next := by
  refine ⟨fun data => do
    RaidzDevice.parity_check (cut data 0 (m.rm_cols.map RaidzCol.rc_size))
    let col_data ← self.repair_columns m.rm_cols (cut data 0 (m.rm_cols.map RaidzCol.rc_size))
    .ok (some (col_data.drop m.rm_firstdatacol).flatten), fun bp => ?_⟩
  have hranges : { self with bp := bp }.blockv m.rm_cols = .ok blockv := hblockv
  rw [RaidzDevice.read_physical, if_neg (by omega)]
  simp only [hmap, hranges, bind_ok]
  rfl

/-- `read_block` asks once, for the columns of the map behind the labels of their children. -/
theorem RaidzDevice.asks_iff {m : RaidzMap} (hempty : bptr.empty = false) (hembeded : bptr.embeded = false)
    (hgang : (bptr.get_dva dva).gang = false) (hpsize : bptr.psize ≠ 0)
    (hlimit : (bptr.get_dva dva).offset ≤ 8 * 1024 * 1024 * 1024 * 1024)
    (hmap : RaidzDevice.map_alloc self.devs.length self.nparity (bptr.get_dva dva).offset
      ((self.to_generic zlib_decompress).rsize bptr.psize) self.ashift = .ok m)
    (hlt : ∀ col ∈ m.rm_cols, col.rc_devidx < self.devs.length) (asked : List (String × Nat × Nat)) :
    self.Asks zlib_decompress bptr dva asked ↔
      asked = m.rm_cols.map fun col => (self.devs.getD col.rc_devidx "", col.rc_offset + 0x400000, col.rc_size) := by
  obtain ⟨behind, hphysical⟩ := RaidzDevice.read_physical_bind hlimit hmap (self.blockv_eq hlt)
  obtain ⟨next, hblock⟩ := GenericDevice.read_block_bind hempty hembeded hgang hpsize zlib_decompress
  refine @RaidzDevice.asks_iff_of_bind self zlib_decompress bptr dva _ (fun data => behind data >>= next) (fun bp => ?_) asked
  rw [RaidzDevice.read_block_over, hblock _ rfl, ← bind_assoc, ← hphysical]
  rfl

/-- `read_block` reads the columns of the map, behind the labels of their children. -/
theorem RaidzDevice.reads_iff {m : RaidzMap} (hempty : bptr.empty = false) (hembeded : bptr.embeded = false)
    (hgang : (bptr.get_dva dva).gang = false) (hpsize : bptr.psize ≠ 0)
    (hlimit : (bptr.get_dva dva).offset ≤ 8 * 1024 * 1024 * 1024 * 1024)
    (hmap : RaidzDevice.map_alloc self.devs.length self.nparity (bptr.get_dva dva).offset
      ((self.to_generic zlib_decompress).rsize bptr.psize) self.ashift = .ok m)
    (hlt : ∀ col ∈ m.rm_cols, col.rc_devidx < self.devs.length) (x : Range) :
    self.Reads zlib_decompress bptr dva x ↔
      ∃ col ∈ m.rm_cols, self.devs[x.child]? = self.devs[col.rc_devidx]? ∧ x.offset = col.rc_offset + 0x400000 ∧
        x.length = col.rc_size := by
  have hasks := RaidzDevice.asks_iff hempty hembeded hgang hpsize hlimit hmap hlt
  have hpath : ∀ col ∈ m.rm_cols, self.devs[col.rc_devidx]? = some (self.devs.getD col.rc_devidx "") := by
    intro col hcol
    rw [List.getD_eq_getElem?_getD, List.getElem?_eq_getElem (hlt col hcol), Option.getD_some]
  simp only [RaidzDevice.Reads, hasks]
  constructor
  · rintro ⟨_, path, rfl, hchild, hmem⟩
    obtain ⟨col, hcol, heq⟩ := List.mem_map.mp hmem
    simp only [Prod.mk.injEq] at heq
    obtain ⟨rfl, hoffset, hsize⟩ := heq
    exact ⟨col, hcol, hchild.trans (hpath col hcol).symm, hoffset.symm, hsize.symm⟩
  · rintro ⟨col, hcol, hchild, hoffset, hsize⟩
    refine ⟨_, _, rfl, hchild.trans (hpath col hcol), List.mem_map.mpr ⟨col, hcol, ?_⟩⟩
    rw [hoffset, hsize]

/-- Nothing is read for an empty pointer. -/
theorem RaidzDevice.not_reads_of_empty (hempty : bptr.empty = true) (x : Range) :
    ¬self.Reads zlib_decompress bptr dva x := by
  rintro ⟨blockv, _, hasks, -⟩
  exact RaidzDevice.not_asks_of_const (fun _ => GenericDevice.read_block_of_empty _ dva hempty) blockv hasks

/-- Nothing is read past the offset limit. -/
theorem RaidzDevice.not_reads_of_limit (hempty : bptr.empty = false) (hembeded : bptr.embeded = false)
    (hgang : (bptr.get_dva dva).gang = false) (hpsize : bptr.psize ≠ 0)
    (hlimit : 8 * 1024 * 1024 * 1024 * 1024 < (bptr.get_dva dva).offset) (x : Range) :
    ¬self.Reads zlib_decompress bptr dva x := by
  rintro ⟨blockv, _, hasks, -⟩
  obtain ⟨next, hblock⟩ := GenericDevice.read_block_bind hempty hembeded hgang hpsize zlib_decompress
  have hconst : ∀ bp, self.read_block_over zlib_decompress bptr dva bp = next none := by
    intro bp
    have hnone : ({ self with bp := bp }.to_generic zlib_decompress).read_physical (bptr.get_dva dva).offset
        (({ self with bp := bp }.to_generic zlib_decompress).rsize bptr.psize) = .ok none := if_pos hlimit
    rw [RaidzDevice.read_block_over, hblock _ rfl, hnone, bind_ok]
  exact RaidzDevice.not_asks_of_const hconst blockv hasks

end Asking

end zfs_rescue.zio
