import ZfsRescue.Zio.LaidOut

open bytes
open zfs_rescue.blockptr
open zfs_rescue.proxy
open zfs_rescue.extractor.zio (vdev_raidz_map_alloc)

namespace zfs_rescue.zio

/-- The stored image of a logical block, by compression number: the block
    itself, or for a level of gzip its deflated form filled up with zeros, which
    inflates whatever number of zeros follow it. -/
inductive StoredImage (zlib_decompress : Bytes → Py Bytes) (psize : Nat) : Nat → Bytes → Bytes → Prop where
  | off {block : Bytes} (hlength : block.length = psize) : StoredImage zlib_decompress psize 2 block block
  | gzip {comp : Nat} {block deflated : Bytes} (hlo : 5 ≤ comp) (hhi : comp ≤ 13)
      (hlength : deflated.length ≤ psize)
      (hinflate : ∀ k, zlib_decompress (deflated ++ List.replicate k 0) = .ok block) :
      StoredImage zlib_decompress psize comp block (fit psize deflated)

/-- A block pointer to the stored image, with its fletcher4 checksum. -/
structure Describes (bptr : BlockPtr) (offset psize comp : Nat) (block image : Bytes) : Prop where
  not_empty : bptr.empty = false
  not_embeded : bptr.embeded = false
  gang : bptr.dva0.gang = false
  offset : bptr.dva0.offset = offset
  lsize : bptr.lsize = block.length
  psize : bptr.psize = psize
  comp : bptr.comp = comp
  cksum : bptr.cksum = 7
  checksum : fletcher4 image = .ok bptr.checksum

/-- Reading gives a block back, whichever device without repair it was laid out
    on by the map of the extractor, and whatever is in it. -/
def ReadBack (dcols ashift offset psize comp : Nat) : Prop :=
  ∀ (self : RaidzDevice) (zlib_decompress : Bytes → Py Bytes) (img : Nat → Bytes) (bptr : BlockPtr)
    (block image : Bytes),
    self.devs.length = dcols → self.nparity = 1 → self.ashift = ashift → self.repair = false →
    self.bp.Serves self.devs img →
    StoredImage zlib_decompress psize comp block image →
    LaidOut (vdev_raidz_map_alloc offset (roundup psize (2 ^ ashift)) ashift dcols 1) img
      (fit (roundup psize (2 ^ ashift)) image) →
    Describes bptr offset psize comp block image →
    (self.to_generic zlib_decompress).read_block bptr 0 = .ok (some block, true)

theorem StoredImage.length {zlib_decompress : Bytes → Py Bytes} {psize comp : Nat} {block image : Bytes}
    (h : StoredImage zlib_decompress psize comp block image) : image.length = psize := by
  cases h with
  | off hlength => exact hlength
  | gzip => simp

/-- The number of bytes asked for is the whole sectors of the block, unless the
    block is longer than a sector and ends inside one. -/
theorem GenericDevice.rsize_eq (self : GenericDevice) {psize : Nat} (hpos : 0 < psize)
    (h : psize ≤ 2 ^ self.ashift ∨ 2 ^ self.ashift ∣ psize) :
    self.rsize psize = roundup psize (2 ^ self.ashift) := by
  have hsector : 0 < 2 ^ self.ashift := by positivity
  rw [GenericDevice.rsize, roundup, Nat.one_shiftLeft]
  rcases h with h | ⟨k, rfl⟩
  · have hone : (psize + 2 ^ self.ashift - 1) / 2 ^ self.ashift = 1 :=
      Nat.div_eq_of_lt_le (by omega) (by omega)
    rw [hone]
    split <;> omega
  · have hk : 0 < k := Nat.pos_of_ne_zero fun h => by simp [h] at hpos
    have hdiv : (2 ^ self.ashift * k + 2 ^ self.ashift - 1) / 2 ^ self.ashift = k := by
      rw [Nat.add_sub_assoc hsector, Nat.mul_add_div hsector, Nat.div_eq_of_lt (by omega), Nat.add_zero]
    rw [hdiv, if_neg (by rw [Nat.not_lt]; exact Nat.le_mul_of_pos_right _ hk), Nat.mul_comm]

theorem GenericDevice.one_le_rsize (self : GenericDevice) {psize ashift : Nat} (hself : self.ashift = ashift) :
    1 ≤ self.rsize psize >>> ashift := by
  have hsector : 0 < 2 ^ ashift := by positivity
  rw [GenericDevice.rsize, hself, Nat.one_shiftLeft, Nat.shiftRight_eq_div_pow, Nat.le_div_iff_mul_le hsector]
  split <;> omega

/-- Rounding up gives whole sectors, at least one, and none too many. -/
theorem roundup_sectors {psize : Nat} (ashift : Nat) (hpos : 0 < psize) :
    1 ≤ roundup psize (2 ^ ashift) >>> ashift ∧
      roundup psize (2 ^ ashift) >>> ashift * 2 ^ ashift = roundup psize (2 ^ ashift) ∧
      psize ≤ roundup psize (2 ^ ashift) ∧ roundup psize (2 ^ ashift) < psize + 2 ^ ashift := by
  have hsector : 0 < 2 ^ ashift := by positivity
  have hround : roundup psize (2 ^ ashift) = (psize + 2 ^ ashift - 1) / 2 ^ ashift * 2 ^ ashift := rfl
  have hshift : roundup psize (2 ^ ashift) >>> ashift = (psize + 2 ^ ashift - 1) / 2 ^ ashift := by
    rw [Nat.shiftRight_eq_div_pow, hround, Nat.mul_div_cancel _ hsector]
  have hmod := Nat.div_add_mod (psize + 2 ^ ashift - 1) (2 ^ ashift)
  have hlt := Nat.mod_lt (psize + 2 ^ ashift - 1) hsector
  rw [Nat.mul_comm, ← hround] at hmod
  refine ⟨?_, by rw [hshift, hround], by omega, by omega⟩
  rw [hshift]
  exact (Nat.one_le_div_iff hsector).mpr (by omega)

/-- Among the nine levels of gzip the table knows three. -/
theorem mem_CompType_iff_gzip {comp : Nat} (hlo : 5 ≤ comp) (hhi : comp ≤ 13) :
    comp ∈ CompType ↔ comp = COMP_TYPE_GZIP_1 ∨ comp = COMP_TYPE_GZIP_5 ∨ comp = COMP_TYPE_GZIP_9 := by
  simp only [CompType, List.mem_cons, List.not_mem_nil, or_false, COMP_TYPE_ON, COMP_TYPE_LZJB, COMP_TYPE_GZIP_1,
    COMP_TYPE_GZIP_5, COMP_TYPE_GZIP_9, COMP_TYPE_LZ4]
  omega

section Read

variable {dcols ashift offset psize comp : Nat}

/-- A block whose size is at most a sector or whole sectors is read back whole
    from the physical device. -/
theorem RaidzDevice.read_physical_laidOut (self : RaidzDevice) {img : Nat → Bytes} {data : Bytes}
    (hdevs : 2 ≤ self.devs.length) (hlt : self.devs.length < 2 ^ 64) (hashift : self.ashift ≤ 16)
    (hnparity : self.nparity = 1) (hrepair : self.repair = false)
    (hlimit : offset ≤ 8 * 1024 * 1024 * 1024 * 1024) (hpos : 0 < psize) (hmax : psize ≤ 2 ^ 25)
    (hserves : self.bp.Serves self.devs img) (hlength : data.length = roundup psize (2 ^ self.ashift))
    (hlaid : LaidOut (vdev_raidz_map_alloc offset (roundup psize (2 ^ self.ashift)) self.ashift self.devs.length 1)
      img data) :
    self.read_physical offset (roundup psize (2 ^ self.ashift)) = .ok (some data) := by
  obtain ⟨hs, hwhole, _, hround⟩ := roundup_sectors self.ashift hpos
  have hpow : 2 ^ self.ashift ≤ 2 ^ 16 := Nat.pow_le_pow_right (by omega) hashift
  obtain ⟨m, hmap, hiff⟩ := laidOut_iff hdevs hlt hs (by omega) (by omega) hashift
  obtain ⟨hinside, hcolumns⟩ := (hiff img data).mp hlaid
  obtain ⟨m', hmap', hcovers⟩ := RaidzDevice.map_alloc_covers offset hdevs hs
  obtain rfl : m = m' := Except.ok.inj (hmap.symm.trans hmap')
  rw [self.read_physical_columns hnparity hdevs hrepair hlimit hs hmap hserves hinside, hcolumns, flatten_cut,
    hcovers.data_size, hwhole, ← hlength, slice_self]

/-- The image read back passes its checksum and expands to the block, if its
    compression is one the device knows. -/
theorem GenericDevice.read_block_stored (self : GenericDevice) {bptr : BlockPtr} {block image : Bytes}
    (hpos : 0 < psize) (hsize : psize ≤ 2 ^ self.ashift ∨ 2 ^ self.ashift ∣ psize)
    (hknown : comp = 2 ∨ comp ∈ CompType) (himage : StoredImage self.zlib_decompress psize comp block image)
    (hdescribes : Describes bptr offset psize comp block image)
    (hread : self.read_physical offset (roundup psize (2 ^ self.ashift)) =
      .ok (some (fit (roundup psize (2 ^ self.ashift)) image))) :
    self.read_block bptr 0 = .ok (some block, true) := by
  obtain ⟨_, _, hround, _⟩ := roundup_sectors self.ashift hpos
  have hlength := himage.length
  have hdva : bptr.get_dva 0 = bptr.dva0 := rfl
  have hstored : self.read_stored bptr 0 = .ok (some (fit (roundup psize (2 ^ self.ashift)) image), true) := by
    have htake : (fit (roundup psize (2 ^ self.ashift)) image).take psize = image := by
      rw [← hlength, take_fit (by rw [hlength]; exact hround)]
    rw [GenericDevice.read_stored, if_neg (by simp [hdescribes.not_embeded]), hdva, hdescribes.offset,
      hdescribes.psize, self.rsize_eq hpos hsize, hread, bind_ok, if_pos hdescribes.cksum]
    simp only
    rw [htake, hdescribes.checksum, bind_ok, beq_self_eq_true]
  have hlogical : logical_size bptr = block.length := by
    rw [logical_size, if_neg (by simp [hdescribes.not_embeded]), hdescribes.lsize]
  have hgang : (bptr.get_dva 0).gang = false := hdescribes.gang
  have hnonzero : bptr.psize ≠ 0 := by rw [hdescribes.psize]; omega
  rw [GenericDevice.read_block_of_stored hdescribes.not_empty hgang hnonzero hstored, GenericDevice.expand, hlogical]
  cases himage with
  | off _ =>
    rw [if_neg (by simp [BlockPtr.compressed, hdescribes.comp]), fit_fit_of_length rfl (by omega)]
  | @gzip _ _ deflated hlo hhi hdeflated hinflate =>
    have hcomp := (mem_CompType_iff_gzip hlo hhi).mp (hknown.resolve_left (by omega))
    have hdecompress : self.decompress bptr.comp
        (some (fit (roundup psize (2 ^ self.ashift)) (fit psize deflated))) block.length = some block := by
      rw [hdescribes.comp, GenericDevice.decompress_gzip _ _ _ hcomp, fit_fit_of_le hdeflated hround, hinflate]
    rw [if_pos (by simp only [BlockPtr.compressed, hdescribes.comp, bne_iff_ne]; omega),
      if_pos (by rw [hdescribes.comp]; exact hknown.resolve_left (by omega)), hdecompress]
    simp only
    rw [fit_of_length_eq rfl]

/-- Any buffer can be laid out on some children. -/
theorem exists_laidOut {io_size : Nat} (offset : Nat) (hdcols : 2 ≤ dcols) (hlt : dcols < 2 ^ 64) (hs : 1 ≤ io_size >>> ashift)
    (hoffset : offset ≤ 2 ^ 43) (hsize : io_size ≤ 2 ^ 26) (hashift : ashift ≤ 16) {data : Bytes}
    (hlength : data.length = io_size >>> ashift * 2 ^ ashift) :
    ∃ img, LaidOut (vdev_raidz_map_alloc offset io_size ashift dcols 1) img data := by
  obtain ⟨m, hmap, hiff⟩ := laidOut_iff hdcols hlt hs hoffset hsize hashift
  obtain ⟨m', hmap', hcovers⟩ := RaidzDevice.map_alloc_covers offset hdcols hs
  obtain rfl : m = m' := Except.ok.inj (hmap.symm.trans hmap')
  obtain ⟨parity, cols, hcols⟩ := hcovers.exists_cons
  have hsum := hcovers.data_size
  have hnodup := hcovers.devidx_nodup
  rw [hcols, List.map_cons, List.drop_succ_cons, List.drop_zero] at hsum
  rw [hcols] at hnodup
  have hsizes : (List.replicate parity.rc_size 0 :: cut data 0 (cols.map RaidzCol.rc_size)).map List.length =
      (parity :: cols).map RaidzCol.rc_size := by
    rw [List.map_cons, List.length_replicate, map_length_cut (by rw [hsum, hlength, Nat.zero_add]), List.map_cons]
  obtain ⟨hcolumns, hinside⟩ := columns_lay hnodup hsizes
  refine ⟨_, (hiff _ data).mpr ⟨by rw [hcols]; exact hinside, ?_⟩⟩
  rw [hcols, hcolumns, List.map_cons, List.drop_succ_cons, List.drop_zero, List.drop_succ_cons, List.drop_zero]

/-- A pointer to one copy of a block, with its fletcher4 checksum. -/
def pointer_to (offset psize lsize comp : Nat) (image : Bytes) : BlockPtr where
  dva0 := { asize_r := 512, asize := 512, grid := 0, vdev := 0, offset := offset, gang := false }
  dva1 := DVA.init 0 0
  dva2 := DVA.init 0 0
  lsize := lsize
  psize := psize
  comp := comp
  embeded := false
  cksum := 7
  type := 19
  lvl := 0
  encrypted := 0
  E := 1
  birth_txg := 1
  fill_count := 1
  checksum := fletcher4_sums image

theorem pointer_to_describes {block image : Bytes} (hlength : image.length = psize) (hdvd : 512 ∣ psize) :
    Describes (pointer_to offset psize block.length comp image) offset psize comp block image := by
  refine ⟨?_, rfl, rfl, rfl, rfl, rfl, rfl, rfl, fletcher4_of_dvd (by omega)⟩
  simp [pointer_to, BlockPtr.empty, DVA.null]

/-- A block that ends inside a sector other than its first one is cut short. -/
theorem GenericDevice.rsize_sectors_lt (self : GenericDevice)
    (h : ¬(psize ≤ 2 ^ self.ashift ∨ 2 ^ self.ashift ∣ psize)) :
    self.rsize psize >>> self.ashift * 2 ^ self.ashift < psize := by
  rw [not_or, Nat.not_le] at h
  rw [GenericDevice.rsize, Nat.one_shiftLeft, if_neg (by omega), Nat.shiftRight_eq_div_pow]
  exact Nat.lt_of_le_of_ne (Nat.div_mul_le_self _ _) fun heq =>
    h.2 ⟨psize / 2 ^ self.ashift, by rw [Nat.mul_comm, heq]⟩

/-- What reading back tells about a stored block: the bytes it came out of, too
    few of them unless the size fits. -/
theorem ReadBack.read (h : ReadBack dcols ashift offset psize comp) (hdcols : 2 ≤ dcols) (hlt : dcols < 2 ^ 64)
    (hashift : ashift ≤ 16) (hlimit : offset ≤ 8 * 1024 * 1024 * 1024 * 1024) (hdvd : 512 ∣ psize)
    (hpos : 0 < psize) (hmax : psize ≤ 2 ^ 25) {zlib_decompress : Bytes → Py Bytes} {block image : Bytes}
    (himage : StoredImage zlib_decompress psize comp block image) :
    ∃ src, ((psize ≤ 2 ^ ashift ∨ 2 ^ ashift ∣ psize) ∨ src.length < psize) ∧
      (comp = 2 → block = fit block.length src) ∧
      (comp ≠ 2 → comp ∈ CompType ∧
        (comp = COMP_TYPE_GZIP_1 ∨ comp = COMP_TYPE_GZIP_5 ∨ comp = COMP_TYPE_GZIP_9 →
          ∃ plain, zlib_decompress src = .ok plain)) := by
  obtain ⟨hs, hwhole, _, hround⟩ := roundup_sectors ashift hpos
  have hpow : 2 ^ ashift ≤ 2 ^ 16 := Nat.pow_le_pow_right (by omega) hashift
  obtain ⟨img, hlaid⟩ := exists_laidOut offset hdcols hlt hs (by omega) (by omega) hashift
    (show (fit (roundup psize (2 ^ ashift)) image).length = _ by rw [length_fit, hwhole])
  obtain ⟨device, hdevs, hnparity, hdevice, hrepair, hserves⟩ : ∃ device : RaidzDevice,
      device.devs.length = dcols ∧ device.nparity = 1 ∧ device.ashift = ashift ∧ device.repair = false ∧
        device.bp.Serves device.devs img :=
    ⟨{ devs := child_names dcols, nparity := 1, bp := .in_memory fun name => img name.length, ashift := ashift },
      length_child_names _, rfl, rfl, rfl, in_memory_serves dcols img⟩
  have hread := h device zlib_decompress img (pointer_to offset psize block.length comp image) block image hdevs
    hnparity hdevice hrepair hserves himage hlaid (pointer_to_describes himage.length hdvd)
  subst hdevice
  obtain ⟨stored, cksum, hphysical, hexpand⟩ := GenericDevice.read_block_inv (by rfl) hread
  obtain ⟨src, rfl, hplain, hcompressed⟩ := GenericDevice.expand_inv hexpand
  refine ⟨src, ?_, fun hoff => hplain (by simp [BlockPtr.compressed, pointer_to, hoff]), fun hoff => ?_⟩
  · rw [Classical.or_iff_not_imp_left]
    intro hsize
    have hshort := GenericDevice.rsize_sectors_lt (device.to_generic zlib_decompress) hsize
    have hsrc := device.length_of_read_physical hnparity (by omega) hrepair
      ((device.to_generic zlib_decompress).one_le_rsize rfl) hphysical
    exact Nat.lt_of_le_of_lt hsrc hshort
  · obtain ⟨hknown, plain, hdecompress, _⟩ :=
      hcompressed (by simp only [BlockPtr.compressed, pointer_to, bne_iff_ne]; exact hoff)
    refine ⟨hknown, fun hgzip => ?_⟩
    rw [show (pointer_to offset psize block.length comp image).comp = comp from rfl,
      GenericDevice.decompress_gzip _ _ _ hgzip] at hdecompress
    split at hdecompress
    · exact ⟨_, ‹_›⟩
    · cases hdecompress

/-- Uncompressed blocks are not read back unless their size fits. -/
theorem ReadBack.off_size (h : ReadBack dcols ashift offset psize 2) (hdcols : 2 ≤ dcols) (hlt : dcols < 2 ^ 64)
    (hashift : ashift ≤ 16) (hlimit : offset ≤ 8 * 1024 * 1024 * 1024 * 1024) (hdvd : 512 ∣ psize)
    (hpos : 0 < psize) (hmax : psize ≤ 2 ^ 25) : psize ≤ 2 ^ ashift ∨ 2 ^ ashift ∣ psize := by
  -- a block of zeros with a one at its very end
  have hlength : (List.replicate (psize - 1) 0 ++ [1] : Bytes).length = psize := by
    simp only [List.length_append, List.length_replicate, List.length_singleton]
    omega
  have hstored : StoredImage .ok psize 2 (List.replicate (psize - 1) 0 ++ [1]) (List.replicate (psize - 1) 0 ++ [1]) :=
    .off hlength
  obtain ⟨src, hsize | hshort, hplain, _⟩ := h.read hdcols hlt hashift hlimit hdvd hpos hmax hstored
  · exact hsize
  · have hlast := congrArg (fun block => block.getD (psize - 1) 0) (hplain rfl)
    rw [hlength, getD_fit _ _ _ (by omega), List.getD_eq_default src 0 (by omega),
      List.getD_append_right _ _ _ _ (by simp)] at hlast
    simp at hlast

/-- An inflater for streams of at least `psize` bytes. -/
def inflate_whole (psize : Nat) (stream : Bytes) : Py Bytes :=
  if stream.length < psize then .error .ZlibError else .ok (List.replicate 512 1)

/-- Deflated blocks are not read back unless their size fits and their level is
    known. -/
theorem ReadBack.gzip_size (h : ReadBack dcols ashift offset psize comp) (hdcols : 2 ≤ dcols) (hlt : dcols < 2 ^ 64)
    (hashift : ashift ≤ 16) (hlimit : offset ≤ 8 * 1024 * 1024 * 1024 * 1024) (hdvd : 512 ∣ psize)
    (hpos : 0 < psize) (hmax : psize ≤ 2 ^ 25) (hlo : 5 ≤ comp) (hhi : comp ≤ 13) :
    (psize ≤ 2 ^ ashift ∨ 2 ^ ashift ∣ psize) ∧
      (comp = COMP_TYPE_GZIP_1 ∨ comp = COMP_TYPE_GZIP_5 ∨ comp = COMP_TYPE_GZIP_9) := by
  -- a stream that fills the whole stored size
  have himage : StoredImage (inflate_whole psize) psize comp (List.replicate 512 1)
      (fit psize (List.replicate psize 1)) := by
    refine .gzip hlo hhi (by simp) fun k => ?_
    rw [inflate_whole, if_neg (by simp)]
  obtain ⟨src, hsize, _, hcompressed⟩ := h.read hdcols hlt hashift hlimit hdvd hpos hmax himage
  obtain ⟨hknown, hinflate⟩ := hcompressed (by omega)
  have hgzip := (mem_CompType_iff_gzip hlo hhi).mp hknown
  obtain ⟨plain, hplain⟩ := hinflate hgzip
  refine ⟨hsize.resolve_right fun hshort => ?_, hgzip⟩
  rw [inflate_whole, if_pos hshort] at hplain
  cases hplain

/-- Reading gives every block back exactly when its stored size is at most a
    sector or whole sectors, and it is uncompressed or deflated at one of the
    three levels the table lists. -/
theorem readBack_iff (hdcols : 2 ≤ dcols) (hlt : dcols < 2 ^ 64) (hashift : ashift ≤ 16)
    (hlimit : offset ≤ 8 * 1024 * 1024 * 1024 * 1024) (hdvd : 512 ∣ psize) (hpos : 0 < psize)
    (hmax : psize ≤ 2 ^ 25) (hcomp : comp = 2 ∨ (5 ≤ comp ∧ comp ≤ 13)) :
    ReadBack dcols ashift offset psize comp ↔
      (psize ≤ 2 ^ ashift ∨ 2 ^ ashift ∣ psize) ∧
        (comp = 2 ∨ comp = COMP_TYPE_GZIP_1 ∨ comp = COMP_TYPE_GZIP_5 ∨ comp = COMP_TYPE_GZIP_9) := by
  constructor
  · intro h
    rcases hcomp with rfl | ⟨hlo, hhi⟩
    · exact ⟨h.off_size hdcols hlt hashift hlimit hdvd hpos hmax, .inl rfl⟩
    · obtain ⟨hsize, hgzip⟩ := h.gzip_size hdcols hlt hashift hlimit hdvd hpos hmax hlo hhi
      exact ⟨hsize, .inr hgzip⟩
  · rintro ⟨hsize, hknown⟩ self zlib_decompress img bptr block image rfl hnparity rfl hrepair hserves himage hlaid
      hdescribes
    have hread := self.read_physical_laidOut hdcols hlt hashift hnparity hrepair hlimit hpos hmax hserves
      (length_fit _ _) hlaid
    refine GenericDevice.read_block_stored _ hpos hsize ?_ himage hdescribes hread
    rcases hcomp with hoff | ⟨hlo, hhi⟩
    · exact .inl hoff
    · exact .inr ((mem_CompType_iff_gzip hlo hhi).mpr (hknown.resolve_left (by omega)))

theorem readBack_two_sectors : ReadBack 3 12 0x100000 8192 9 :=
  (readBack_iff (by decide) (by decide) (by decide) (by decide) (by decide) (by decide) (by decide)
    (by decide)).mpr (by decide)

end Read

/-- Two children that hold one and a half sectors of a kibibyte, filled up to
    two sectors, and the same as parity. -/
def half_sector_pair (image : Bytes) : Nat → Bytes :=
  lay [⟨0, 0, 2048⟩, ⟨1, 0, 2048⟩] [fit 2048 image, fit 2048 image]

def half_sector_device (image : Bytes) : RaidzDevice where
  devs := child_names 2
  nparity := 1
  bp := (local_files (half_sector_pair image)).to_proxy
  ashift := 10

theorem half_sector_serves (image : Bytes) :
    (half_sector_device image).bp.Serves (half_sector_device image).devs (half_sector_pair image) :=
  local_files_serves (length_lay_lt (by decide) (by simp) (by decide))

theorem half_sector_laidOut (image : Bytes) :
    LaidOut (vdev_raidz_map_alloc 0 2048 10 2 1) (half_sector_pair image) (fit 2048 image) := by
  obtain ⟨m, hmap, hiff⟩ := laidOut_iff (show 2 ≤ 2 by decide) (by decide) (show 1 ≤ 2048 >>> 10 by decide)
    (Nat.zero_le _) (by decide) (by decide)
  obtain rfl : m = ⟨[⟨0, 0, 2048⟩, ⟨1, 0, 2048⟩], 1, 0⟩ := Except.ok.inj (hmap.symm.trans (by decide))
  have hsizes : [fit 2048 image, fit 2048 image].map List.length =
      [(⟨0, 0, 2048⟩ : RaidzCol), ⟨1, 0, 2048⟩].map RaidzCol.rc_size := by simp
  obtain ⟨hcolumns, hinside⟩ := columns_lay (by decide) hsizes
  refine (hiff _ _).mpr ⟨hinside, ?_⟩
  rw [half_sector_pair, hcolumns]
  have hself := slice_self (fit 2048 image)
  rw [length_fit] at hself
  simp [cut, hself]

private theorem half_sector_pair_eq (image : Bytes) (dev : Nat) (hdev : dev = 0 ∨ dev = 1) :
    ∃ labels : Bytes, labels.length = 0x400000 ∧ half_sector_pair image dev = labels ++ fit 2048 image := by
  refine ⟨List.replicate (0 + 0x400000) 0, List.length_replicate, ?_⟩
  rcases hdev with rfl | rfl
  · rw [half_sector_pair, lay, if_pos rfl]
  · rw [half_sector_pair, lay_of_ne (by decide), lay, if_pos rfl]

/-- Only the one whole sector of the stored size is read. -/
theorem half_sector_read_physical {image : Bytes} (hlength : image.length = 1536) :
    (half_sector_device image).read_physical 0 1536 = .ok (some (image.take 1024)) := by
  have hmap : RaidzDevice.map_alloc 2 1 0 1536 10 = .ok ⟨[⟨0, 0, 1024⟩, ⟨1, 0, 1024⟩], 1, 0⟩ := by decide
  have hinside : Inside (half_sector_pair image) [⟨0, 0, 1024⟩, ⟨1, 0, 1024⟩] := by
    intro col hcol
    simp only [List.mem_cons, List.not_mem_nil, or_false] at hcol
    obtain ⟨labels, hlabels, heq⟩ := half_sector_pair_eq image col.rc_devidx
      (by rcases hcol with rfl | rfl <;> simp)
    rw [heq, List.length_append, hlabels, length_fit]
    rcases hcol with rfl | rfl <;> simp
  have hmap' : RaidzDevice.map_alloc (half_sector_device image).devs.length 1 0 1536 (half_sector_device image).ashift =
      .ok ⟨[⟨0, 0, 1024⟩, ⟨1, 0, 1024⟩], 1, 0⟩ := by
    rw [half_sector_device, length_child_names]
    exact hmap
  rw [RaidzDevice.read_physical_columns (half_sector_device image) rfl (Nat.le_of_eq (length_child_names 2).symm) rfl
    (by decide) (Nat.le_refl 1) hmap' (half_sector_serves image) hinside]
  obtain ⟨labels, hlabels, heq⟩ := half_sector_pair_eq image 1 (.inr rfl)
  have hslice := slice_append_right labels (fit 2048 image) 0 1024
  rw [hlabels] at hslice
  simp only [columns_cons, columns_nil, List.drop_succ_cons, List.drop_zero, List.flatten_cons, List.flatten_nil,
    List.append_nil, column, heq, Nat.zero_add]
  rw [hslice, slice, List.drop_zero, fit_of_le (by omega), List.take_append_of_le_length (by omega)]

theorem half_sector_describes {image : Bytes} (hlength : image.length = 1536) :
    Describes (pointer_to 0 1536 1536 2 image) 0 1536 2 image image := by
  have hdescribes : Describes (pointer_to 0 1536 image.length 2 image) 0 1536 2 image image :=
    pointer_to_describes hlength (by decide)
  rwa [hlength] at hdescribes

/-- The rest of the block comes back as zeros, and the checksum is compared with
    that of the first sector. -/
theorem half_sector_read_block {image : Bytes} (hlength : image.length = 1536)
    (hsums : fletcher4_sums (image.take 1024) ≠ fletcher4_sums image) :
    ((half_sector_device image).to_generic .ok).read_block (pointer_to 0 1536 1536 2 image) 0 =
      .ok (some (fit 1536 (image.take 1024)), false) := by
  have hdescribes := half_sector_describes hlength
  have htake : (image.take 1024).take 1536 = image.take 1024 := by rw [List.take_take]; rfl
  have hphysical : ((half_sector_device image).to_generic .ok).read_physical
      ((pointer_to 0 1536 1536 2 image).get_dva 0).offset
      (((half_sector_device image).to_generic .ok).rsize (pointer_to 0 1536 1536 2 image).psize) =
        .ok (some (image.take 1024)) := half_sector_read_physical hlength
  have hstored : ((half_sector_device image).to_generic .ok).read_stored (pointer_to 0 1536 1536 2 image) 0 =
      .ok (some (image.take 1024), false) := by
    rw [GenericDevice.read_stored, if_neg (by simp [hdescribes.not_embeded]), hphysical, bind_ok,
      if_pos hdescribes.cksum]
    simp only [hdescribes.psize]
    rw [htake, fletcher4_of_dvd (by rw [List.length_take]; omega), bind_ok,
      show (pointer_to 0 1536 1536 2 image).checksum = fletcher4_sums image from rfl, beq_eq_false_iff_ne.mpr hsums]
  have hgang : ((pointer_to 0 1536 1536 2 image).get_dva 0).gang = false := hdescribes.gang
  rw [GenericDevice.read_block_of_stored hdescribes.not_empty hgang (by rw [hdescribes.psize]; omega) hstored,
    GenericDevice.expand, if_neg (by simp [BlockPtr.compressed, hdescribes.comp])]
  rfl

theorem half_sector_not_readBack {image : Bytes} (hlength : image.length = 1536)
    (hsums : fletcher4_sums (image.take 1024) ≠ fletcher4_sums image) : ¬ReadBack 2 10 0 1536 2 := by
  intro h
  have hread := h (half_sector_device image) .ok (half_sector_pair image) _ image image (length_child_names 2) rfl rfl
    rfl (half_sector_serves image) (.off hlength) (half_sector_laidOut image) (half_sector_describes hlength)
  rw [half_sector_read_block hlength hsums] at hread
  simp only [Except.ok.injEq, Prod.mk.injEq, Bool.false_eq_true, and_false] at hread

/-- Sectors of a kibibyte, and a block of one and a half of them: its second
    half comes back as zeros under a checksum that does not match. -/
theorem not_readBack_half_sector :
    ((half_sector_device (List.replicate (384 * 4) 7)).to_generic .ok).read_block
        (pointer_to 0 1536 1536 2 (List.replicate (384 * 4) 7)) 0 =
      .ok (some (fit 1536 ((List.replicate (384 * 4) 7).take 1024)), false) ∧
      ¬ReadBack 2 10 0 1536 2 := by
  have hlength : (List.replicate (384 * 4) (7 : UInt8)).length = 1536 := List.length_replicate
  have hsums : fletcher4_sums ((List.replicate (384 * 4) (7 : UInt8)).take 1024) ≠
      fletcher4_sums (List.replicate (384 * 4) 7) := by
    intro h
    have hfst := congrArg Prod.fst h
    rw [List.take_replicate, show min 1024 (384 * 4) = 256 * 4 by decide] at hfst
    have hword : readLE (List.replicate 4 7) = 0x07070707 := by decide
    simp only [fletcher4_sums_fst, words32_replicate, List.sum_replicate_nat, hword] at hfst
    omega
  exact ⟨half_sector_read_block hlength hsums, half_sector_not_readBack hlength hsums⟩

end zfs_rescue.zio
