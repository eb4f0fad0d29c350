import ZfsRescue.Extractor.RaidzMap
import ZfsRescue.Extractor.Spa
import ZfsRescue.Zio.Requests
import ZfsRescue.Zio.Tiles
import ZfsRescue.Zio.Unreadable

open bytes
open zfs_rescue.blockptr zfs_rescue.proxy zfs_rescue.zio
open zfs_rescue.extractor.spa

namespace zfs_rescue.extractor.zio

def NPARITY : Nat := 1
def DCOLS : Nat := 3
def ASHIFT : Nat := 12

/-- A call of `read_at`, which reads with one `pread64` of the file of its child. -/
structure ReadAt where
  c : Abd
  vdev : Nat
  offset : Nat
  psize : Nat
  deriving DecidableEq, Repr

def ReadAt.range (call : ReadAt) : Range where
  child := call.vdev
  offset := call.offset
  length := call.psize

instance (io_offset io_size ashift dcols nparity : Nat) : Decidable (Asserts io_offset io_size ashift dcols nparity) := by
  delta Asserts
  infer_instance

/-- `read_physical`: the buffer it returns, and the calls that fill it. It is `none`
    when an assertion of the map aborts: for less than a sector the map has no
    columns, and the first one is written behind its end. -/
def Raidz1Device.read_physical (offset psize : Nat) : Option (Abd × List ReadAt) :=
  let rm := vdev_raidz_map_alloc offset psize ASHIFT DCOLS NPARITY
  if Asserts offset psize ASHIFT DCOLS NPARITY then
    some (.linear psize, (rm.rm_col.take rm.rm_cols).map fun col =>
      { c := col.rc_abd, vdev := col.rc_devidx, offset := col.rc_offset, psize := col.rc_size })
  else none

/-- A turn of `loadBlkPtr`. -/
def Raidz1Device.load_dva (d : DvaT) : Option (Abd × List ReadAt) :=
  let asize := u64 ((d.dva_word0 &&& 0xffffff) <<< 9)
  let offset := d.dva_word1 &&& 0x7fffffffffffffff
  Raidz1Device.read_physical offset asize

/-- The loop of `loadBlkPtr`, up to the first buffer that is not null. -/
def Raidz1Device.load_dvas : List DvaT → Option (Abd × List ReadAt)
  | [] => some (.null, [])
  | d :: dvas => do
    let loaded ← Raidz1Device.load_dva d
    if loaded.1 ≠ .null then some loaded
    else do
      let others ← Raidz1Device.load_dvas dvas
      some (others.1, loaded.2 ++ others.2)

def Raidz1Device.loadBlkPtr (p : BlkptrT) : Option (Abd × List ReadAt) := Raidz1Device.load_dvas p.blk_dva

/-- The ranges read for an address. A read that aborts has read nothing. -/
def Raidz1Device.Reads (d : DvaT) (x : Range) : Prop :=
  ∃ loaded, Raidz1Device.load_dva d = some loaded ∧ ∃ call ∈ loaded.2, call.range = x

/-- `loadBlkPtr` and `read_block` read the same ranges for an address. -/
def SameRanges (self : RaidzDevice) (zlib_decompress : Bytes → Py Bytes) (bptr : BlockPtr) (dva : Nat) (d : DvaT) : Prop :=
  ∀ x, Raidz1Device.Reads d x ↔ self.Reads zlib_decompress bptr dva x

/-- The calls of a read of whole sectors are the columns of the Python map at the same
    offset and size, where they lie on their children. -/
theorem Raidz1Device.read_physical_eq {offset psize : Nat} (h : NoOverflow offset psize ASHIFT DCOLS NPARITY)
    (hs : 1 ≤ psize >>> ASHIFT) :
    ∃ m calls, RaidzDevice.map_alloc DCOLS NPARITY offset psize ASHIFT = .ok m ∧
      Raidz1Device.read_physical offset psize = some (.linear psize, calls) ∧
      calls.map ReadAt.range = m.rm_cols.map fun col => ⟨col.rc_devidx, col.rc_offset, col.rc_size⟩ := by
  obtain ⟨m, hm, hcols, -, -, hasserts⟩ := map_alloc_agree h (by decide) hs
  refine ⟨m, _, hm, if_pos hasserts, ?_⟩
  rw [← hcols, List.map_map, List.map_map]
  rfl

/-- A read of less than a sector aborts. -/
theorem Raidz1Device.read_physical_of_lt {offset psize : Nat} (hpsize : psize < 4096) :
    Raidz1Device.read_physical offset psize = none := by
  have hs : psize >>> ASHIFT = 0 := by
    rw [ASHIFT, Nat.shiftRight_eq_div_pow]
    omega
  apply if_neg
  rintro ⟨-, -, -, -, hcols, -⟩
  simp only [vdev_raidz_map_alloc, vdev_raidz_stripe, hs] at hcols
  revert hcols
  decide

/-- The first address decides: no buffer is null. -/
theorem Raidz1Device.load_dvas_cons (d : DvaT) (dvas : List DvaT) :
    Raidz1Device.load_dvas (d :: dvas) = Raidz1Device.load_dva d := by
  rw [Raidz1Device.load_dvas]
  cases hload : Raidz1Device.load_dva d with
  | none => rfl
  | some loaded =>
    rw [Raidz1Device.load_dva, Raidz1Device.read_physical] at hload
    split at hload
    · cases hload
      rfl
    · cases hload

/-- The extractor takes the offset of an address as it is stored, in units of 512 bytes. -/
theorem Raidz1Device.load_dva_eq (d : DvaT) :
    Raidz1Device.load_dva d =
      Raidz1Device.read_physical (d.dva_word1 &&& 0x7fffffffffffffff) (DVA.init d.dva_word0 d.dva_word1).asize := by
  have hasize : (d.dva_word0 &&& 0xffffff) <<< 9 < 2 ^ 64 := by
    rw [Nat.and_two_pow_sub_one_eq_mod _ 24, Nat.shiftLeft_eq]
    omega
  rw [Raidz1Device.load_dva, u64_of_lt hasize]
  rfl

/-- An address of a sector or more is read from where its unscaled offset lies. -/
theorem Raidz1Device.exists_reads {d : DvaT} (hasize : 4096 ≤ (DVA.init d.dva_word0 d.dva_word1).asize) :
    ∃ x, Raidz1Device.Reads d x ∧ x.offset ≤ ((d.dva_word1 &&& 0x7fffffffffffffff) >>> 12 / 3) <<< 12 := by
  have hlt : (DVA.init d.dva_word0 d.dva_word1).asize ≤ 2 ^ 40 := by
    show (d.dva_word0 &&& 0xffffff) <<< 9 ≤ 2 ^ 40
    rw [Nat.and_two_pow_sub_one_eq_mod _ 24, Nat.shiftLeft_eq]
    omega
  have hoffset : d.dva_word1 &&& 0x7fffffffffffffff < 2 ^ 63 := by
    rw [Nat.and_two_pow_sub_one_eq_mod _ 63]
    exact Nat.mod_lt _ (by decide)
  have hs : 1 ≤ (DVA.init d.dva_word0 d.dva_word1).asize >>> ASHIFT := by
    rw [ASHIFT, Nat.shiftRight_eq_div_pow]
    omega
  have hfits : NoOverflow (d.dva_word1 &&& 0x7fffffffffffffff) (DVA.init d.dva_word0 d.dva_word1).asize ASHIFT DCOLS
      NPARITY := noOverflow_of_le (by decide) (by decide) hs hoffset hlt (by decide)
  obtain ⟨m, calls, hm, hread, hranges⟩ := Raidz1Device.read_physical_eq hfits hs
  obtain ⟨m', hm', -, col, hcol, hrow⟩ :=
    RaidzDevice.map_alloc_row (d.dva_word1 &&& 0x7fffffffffffffff) (show 2 ≤ DCOLS by decide) hs
  rw [NPARITY] at hm
  obtain rfl := Except.ok.inj (hm.symm.trans hm')
  have hmem : (⟨col.rc_devidx, col.rc_offset, col.rc_size⟩ : Range) ∈ calls.map ReadAt.range :=
    hranges ▸ List.mem_map_of_mem hcol
  exact ⟨_, ⟨_, (Raidz1Device.load_dva_eq d).trans hread, List.mem_map.mp hmem⟩, hrow.le⟩

/-- Nothing is read for an address of less than a sector. -/
theorem Raidz1Device.load_dva_of_lt {d : DvaT} (hasize : (DVA.init d.dva_word0 d.dva_word1).asize < 4096) :
    Raidz1Device.load_dva d = none := by
  rw [Raidz1Device.load_dva_eq, Raidz1Device.read_physical_of_lt hasize]

section Pointers

variable {raw : Bytes} {bptr : BlockPtr} {dva : Nat} {d : DvaT} {self : RaidzDevice} {zlib_decompress : Bytes → Py Bytes}

/-- The address in the parsed pointer is that of the structure over its bytes. -/
theorem get_dva_of_overlay (hparse : BlockPtr.parse raw = .ok bptr) (hembeded : bptr.embeded = false)
    (hdva : (BlkptrT.overlay raw).blk_dva[dva]? = some d) : bptr.get_dva dva = DVA.init d.dva_word0 d.dva_word1 := by
  rw [of_bytes_of_embeded hparse hembeded]
  match dva, hdva with
  | 0, h | 1, h | 2, h =>
    cases h
    rfl

/-- What `read_block` reads of three children starts behind their labels, past the row of
    the scaled offset, and there is something if the offset is within the limit. -/
theorem reads_of_pointer (hparse : BlockPtr.parse raw = .ok bptr) (hembeded : bptr.embeded = false)
    (hgang : (bptr.get_dva dva).gang = false) (hdevs : self.devs.length = 3) (hnparity : self.nparity = 1)
    (hashift : self.ashift = 12) (hempty : bptr.empty = false)
    (hlimit : (bptr.get_dva dva).offset ≤ 8 * 1024 * 1024 * 1024 * 1024) :
    (∃ x, self.Reads zlib_decompress bptr dva x) ∧
      ∀ x, self.Reads zlib_decompress bptr dva x →
        ((bptr.get_dva dva).offset >>> 12 / 3) <<< 12 + 0x400000 ≤ x.offset := by
  obtain ⟨⟨hpsize, -⟩, -, -⟩ := sectors_of_parse hparse hembeded
  have hs : 1 ≤ (self.to_generic zlib_decompress).rsize bptr.psize >>> 12 := by
    have hrsize : 4096 ≤ (self.to_generic zlib_decompress).rsize bptr.psize := by
      rw [GenericDevice.rsize, RaidzDevice.to_generic, hashift, show 1 <<< 12 = 4096 by decide]
      split <;> omega
    rw [Nat.shiftRight_eq_div_pow]
    omega
  obtain ⟨m, hm, hrow, col, hcol, -⟩ := RaidzDevice.map_alloc_row (bptr.get_dva dva).offset (show 2 ≤ 3 by decide) hs
  rw [← hdevs, ← hnparity, ← hashift] at hm
  have hreads := RaidzDevice.reads_iff hempty hembeded hgang (by omega) hlimit hm fun col hcol => hdevs ▸ (hrow col hcol).1
  constructor
  · exact ⟨⟨col.rc_devidx, col.rc_offset + 0x400000, col.rc_size⟩, (hreads _).mpr ⟨col, hcol, rfl, rfl, rfl⟩⟩
  · intro x hx
    obtain ⟨col', hcol', -, hoffset, -⟩ := (hreads x).mp hx
    rw [hoffset]
    exact Nat.add_le_add_right (hrow col' hcol').2 _

/-- `read_block` reads nothing for an empty pointer or past its limit. -/
theorem not_reads_of_pointer (hparse : BlockPtr.parse raw = .ok bptr) (hembeded : bptr.embeded = false)
    (hgang : (bptr.get_dva dva).gang = false)
    (hnone : bptr.empty = true ∨ 8 * 1024 * 1024 * 1024 * 1024 < (bptr.get_dva dva).offset) (x : Range) :
    ¬self.Reads zlib_decompress bptr dva x := by
  obtain ⟨⟨hpsize, -⟩, -, -⟩ := sectors_of_parse hparse hembeded
  by_cases hempty : bptr.empty = true
  · exact RaidzDevice.not_reads_of_empty hempty x
  · exact RaidzDevice.not_reads_of_limit (by simpa using hempty) hembeded hgang (by omega) (hnone.resolve_left hempty) x

/-- A read that does not abort is of other ranges: one of them starts before the labels
    of its row end. -/
theorem not_sameRanges_of_sector (hparse : BlockPtr.parse raw = .ok bptr) (hembeded : bptr.embeded = false)
    (hdva : (BlkptrT.overlay raw).blk_dva[dva]? = some d) (hgang : (bptr.get_dva dva).gang = false)
    (hdevs : self.devs.length = 3) (hnparity : self.nparity = 1) (hashift : self.ashift = 12)
    (hasize : 4096 ≤ (bptr.get_dva dva).asize) : ¬SameRanges self zlib_decompress bptr dva d := by
  have hget := get_dva_of_overlay hparse hembeded hdva
  intro hsame
  obtain ⟨x, hx, hrow⟩ := Raidz1Device.exists_reads (hget ▸ hasize)
  have hreads := (hsame x).mp hx
  by_cases hnone : bptr.empty = true ∨ 8 * 1024 * 1024 * 1024 * 1024 < (bptr.get_dva dva).offset
  · exact not_reads_of_pointer hparse hembeded hgang hnone x hreads
  rw [not_or, Bool.not_eq_true, Nat.not_lt] at hnone
  have hlow := (reads_of_pointer hparse hembeded hgang hdevs hnparity hashift hnone.1 hnone.2).2 x hreads
  have hoffset : (bptr.get_dva dva).offset = (d.dva_word1 &&& 0x7fffffffffffffff) <<< 9 := by rw [hget]; rfl
  have hscaled : d.dva_word1 &&& 0x7fffffffffffffff ≤ (bptr.get_dva dva).offset := by
    rw [hoffset, Nat.shiftLeft_eq]
    exact Nat.le_mul_of_pos_right _ (by decide)
  have hrows : ((d.dva_word1 &&& 0x7fffffffffffffff) >>> 12 / 3) <<< 12 ≤ ((bptr.get_dva dva).offset >>> 12 / 3) <<< 12 := by
    simp only [Nat.shiftRight_eq_div_pow, Nat.shiftLeft_eq]
    exact Nat.mul_le_mul_right _ (Nat.div_le_div_right (Nat.div_le_div_right hscaled))
  omega

/-- The same ranges are read only where none are: the extractor aborts for an address of
    less than a sector, and the reader returns for an empty pointer or past its limit. -/
theorem sameRanges_iff (hparse : BlockPtr.parse raw = .ok bptr) (hembeded : bptr.embeded = false)
    (hdva : (BlkptrT.overlay raw).blk_dva[dva]? = some d) (hgang : (bptr.get_dva dva).gang = false)
    (hdevs : self.devs.length = 3) (hnparity : self.nparity = 1) (hashift : self.ashift = 12) :
    (SameRanges self zlib_decompress bptr dva d ↔
        (bptr.empty = true ∨ 8 * 1024 * 1024 * 1024 * 1024 < (bptr.get_dva dva).offset) ∧
          (bptr.get_dva dva).asize < 4096) ∧
      (Raidz1Device.load_dva d ≠ none → ¬SameRanges self zlib_decompress bptr dva d) ∧
      (dva = 0 → Raidz1Device.loadBlkPtr (BlkptrT.overlay raw) = Raidz1Device.load_dva d) := by
  have hget := get_dva_of_overlay hparse hembeded hdva
  have hfirst : dva = 0 → Raidz1Device.loadBlkPtr (BlkptrT.overlay raw) = Raidz1Device.load_dva d := by
    rintro rfl
    cases hdva
    exact Raidz1Device.load_dvas_cons _ _
  rcases Nat.lt_or_ge (bptr.get_dva dva).asize 4096 with hasize | hasize
  · have habort : Raidz1Device.load_dva d = none := Raidz1Device.load_dva_of_lt (hget ▸ hasize)
    have hnothing : ∀ x, ¬Raidz1Device.Reads d x := by
      rintro x ⟨loaded, hload, -⟩
      rw [habort] at hload
      cases hload
    refine ⟨?_, fun hload => absurd habort hload, hfirst⟩
    by_cases hnone : bptr.empty = true ∨ 8 * 1024 * 1024 * 1024 * 1024 < (bptr.get_dva dva).offset
    · exact iff_of_true (fun x => iff_of_false (hnothing x) (not_reads_of_pointer hparse hembeded hgang hnone x))
        ⟨hnone, hasize⟩
    · refine iff_of_false (fun hsame => ?_) fun h => hnone h.1
      rw [not_or, Bool.not_eq_true, Nat.not_lt] at hnone
      obtain ⟨x, hx⟩ := (reads_of_pointer hparse hembeded hgang hdevs hnparity hashift hnone.1 hnone.2).1
      exact hnothing x ((hsame x).mpr hx)
  · have hdiffer : ¬SameRanges self zlib_decompress bptr dva d :=
      not_sameRanges_of_sector hparse hembeded hdva hgang hdevs hnparity hashift hasize
    exact ⟨iff_of_false hdiffer fun h => by omega, fun _ => hdiffer, hfirst⟩

end Pointers

/-- The bytes of a pointer to a block of 4096 bytes, stored as they are. -/
def block_bytes (word0 word1 : Nat) : Bytes :=
  encode_words [word0, word1, 0, 0, 0, 0, 7 + 7 * 2 ^ 16 + 2 * 2 ^ 32 + 2 * 2 ^ 40, 0, 0, 0, 0, 0, 0, 0, 0, 0]

def three_disks : RaidzDevice where
  devs := ["disk0", "disk1", "disk2"]
  nparity := 1
  bp := BlockProxy.in_memory fun _ => []
  ashift := 12

private theorem block_bytes_fields {word0 word1 : Nat} (h : word0 = 16 ∧ word1 = 0x2d0 ∨ word0 = 1 ∧ word1 = 2 ^ 35) :
    ∃ bptr, BlockPtr.parse (block_bytes word0 word1) = .ok bptr ∧ bptr.embeded = false ∧ bptr.empty = false ∧
      bptr.psize = 4096 ∧ bptr.get_dva 0 = DVA.init word0 word1 ∧
      (BlkptrT.overlay (block_bytes word0 word1)).blk_dva[0]? = some ⟨word0, word1⟩ := by
  refine ⟨BlockPtr.parse_plain (block_bytes word0 word1), ?_⟩
  rcases h with ⟨rfl, rfl⟩ | ⟨rfl, rfl⟩ <;> decide +kernel

/-- For the address `0:5a000:2000` of a block of a sector, the extractor reads the start of
    each child, and the reader the block and its parity behind the labels. -/
theorem not_sameRanges_test_block :
    ∃ bptr, BlockPtr.parse (block_bytes 16 0x2d0) = .ok bptr ∧ bptr.embeded = false ∧
      (BlkptrT.overlay (block_bytes 16 0x2d0)).blk_dva[0]? = some ⟨16, 0x2d0⟩ ∧ (bptr.get_dva 0).gang = false ∧
      4096 ∣ bptr.psize ∧ three_disks.devs.length = 3 ∧ three_disks.nparity = 1 ∧ three_disks.ashift = 12 ∧
      (Raidz1Device.loadBlkPtr (BlkptrT.overlay (block_bytes 16 0x2d0))).map (fun loaded => loaded.2.map ReadAt.range) =
        some [⟨0, 0, 4096⟩, ⟨1, 0, 4096⟩, ⟨2, 0, 4096⟩] ∧
      three_disks.Asks .ok bptr 0 [("disk0", 0x41e000, 4096), ("disk1", 0x41e000, 4096)] ∧
      ¬SameRanges three_disks .ok bptr 0 ⟨16, 0x2d0⟩ := by
  obtain ⟨bptr, hparse, hembeded, hempty, hpsize, hget, hdva⟩ := block_bytes_fields (.inl ⟨rfl, rfl⟩)
  have hgang : (bptr.get_dva 0).gang = false := by
    rw [hget]
    decide
  have hasize : 4096 ≤ (bptr.get_dva 0).asize := by
    rw [hget]
    decide
  have hoffset : (bptr.get_dva 0).offset = 0x5a000 := by
    rw [hget]
    decide
  have hrsize : (three_disks.to_generic .ok).rsize bptr.psize = 4096 := by
    rw [hpsize]
    rfl
  obtain ⟨m, hmap, hcols⟩ : ∃ m, RaidzDevice.map_alloc 3 1 0x5a000 4096 12 = .ok m ∧
      m.rm_cols = [⟨0, 0x1e000, 4096⟩, ⟨1, 0x1e000, 4096⟩] := ⟨_, rfl, by decide +kernel⟩
  have hasks : three_disks.Asks .ok bptr 0 [("disk0", 0x41e000, 4096), ("disk1", 0x41e000, 4096)] := by
    rw [RaidzDevice.asks_iff hempty hembeded hgang (by omega) (by omega) (by rw [hrsize, hoffset]; exact hmap), hcols]
    · rfl
    · rw [hcols]
      decide
  have hdiffer : ¬SameRanges three_disks .ok bptr 0 ⟨16, 0x2d0⟩ :=
    not_sameRanges_of_sector hparse hembeded hdva hgang rfl rfl rfl hasize
  exact ⟨bptr, hparse, hembeded, hdva, hgang, by omega, rfl, rfl, rfl, by decide +kernel, hasks, hdiffer⟩

/-- Past the limit the reader returns, and the extractor aborts for less than a sector. -/
theorem sameRanges_far_address :
    ∃ bptr, BlockPtr.parse (block_bytes 1 (2 ^ 35)) = .ok bptr ∧ SameRanges three_disks .ok bptr 0 ⟨1, 2 ^ 35⟩ ∧
      Raidz1Device.loadBlkPtr (BlkptrT.overlay (block_bytes 1 (2 ^ 35))) = none := by
  obtain ⟨bptr, hparse, hembeded, -, -, hget, hdva⟩ := block_bytes_fields (.inr ⟨rfl, rfl⟩)
  have hgang : (bptr.get_dva 0).gang = false := by
    rw [hget]
    decide
  obtain ⟨hsame, -, hfirst⟩ := @sameRanges_iff _ bptr 0 _ three_disks .ok hparse hembeded hdva hgang rfl rfl rfl
  refine ⟨bptr, hparse, hsame.mpr ⟨.inr ?_, ?_⟩, (hfirst rfl).trans (by decide +kernel)⟩
  · rw [hget]
    decide
  · rw [hget]
    decide

end zfs_rescue.extractor.zio
