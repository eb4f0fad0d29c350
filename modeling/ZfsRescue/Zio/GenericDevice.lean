import ZfsRescue.Blockptr
import ZfsRescue.Bytes.Zero
import ZfsRescue.Lz4zfs
import ZfsRescue.Lzjb

open bytes
open zfs_rescue.blockptr zfs_rescue.lz4zfs zfs_rescue.lzjb

namespace zfs_rescue.zio

def roundup (x y : Nat) : Nat := ((x + y - 1) / y) * y

def COMP_TYPE_ON : Nat := 1
def COMP_TYPE_LZJB : Nat := 3
def COMP_TYPE_LZ4 : Nat := 15
def COMP_TYPE_GZIP_1 : Nat := 5
def COMP_TYPE_GZIP_5 : Nat := 9
def COMP_TYPE_GZIP_9 : Nat := 13

/-- The keys of the `CompType` table. -/
def CompType : List Nat :=
  [COMP_TYPE_ON, COMP_TYPE_LZJB, COMP_TYPE_GZIP_1, COMP_TYPE_GZIP_5, COMP_TYPE_GZIP_9, COMP_TYPE_LZ4]

/-- A device: its sector shift, the physical read that each kind of device
    supplies, and the `zlib.decompress` of the interpreter it runs in. -/
structure GenericDevice where
  ashift : Nat
  read_physical : Nat → Nat → Py (Option Bytes)
  zlib_decompress : Bytes → Py Bytes

/-- The decompression attempt of `read_block`. Whatever it raises, a `TypeError`
    over missing data included, becomes `None`. -/
def GenericDevice.decompress (self : GenericDevice) (comp_alg : Nat) (data : Option Bytes) (lsize : Nat) :
    Option Bytes :=
  match data with
  | none => none
  | some src =>
    if comp_alg = COMP_TYPE_LZ4 then
      match lz4zfs_decompress src lsize with
      | .ok dst => dst
      | .error _ => none
    else if comp_alg = COMP_TYPE_GZIP_1 ∨ comp_alg = COMP_TYPE_GZIP_5 ∨ comp_alg = COMP_TYPE_GZIP_9 then
      match self.zlib_decompress src with
      | .ok dst => some dst
      | .error _ => none
    else
      match lzjb_decompress src lsize with
      | .ok dst => dst
      | .error _ => none

theorem GenericDevice.decompress_gzip (self : GenericDevice) {comp_alg : Nat} (src : Bytes) (lsize : Nat)
    (h : comp_alg = COMP_TYPE_GZIP_1 ∨ comp_alg = COMP_TYPE_GZIP_5 ∨ comp_alg = COMP_TYPE_GZIP_9) :
    self.decompress comp_alg (some src) lsize =
      match self.zlib_decompress src with
      | .ok dst => some dst
      | .error _ => none := by
  have hlz4 : comp_alg ≠ COMP_TYPE_LZ4 := by
    rcases h with rfl | rfl | rfl <;> decide
  rw [GenericDevice.decompress, if_neg hlz4, if_pos h]

/-- The number of bytes asked of the physical read: at least one sector. -/
def GenericDevice.rsize (self : GenericDevice) (psize : Nat) : Nat :=
  if psize < 1 <<< self.ashift then 1 <<< self.ashift else psize

/-- The stored bytes of a block and whether their checksum matched. Only
    fletcher4 is ever checked, and hashing `None` is a `TypeError`. -/
def GenericDevice.read_stored (self : GenericDevice) (bptr : BlockPtr) (dva : Nat) : Py (Option Bytes × Bool) :=
  if bptr.embeded then .ok (some bptr.embeded_data, true)
  else do
    let data ← self.read_physical (bptr.get_dva dva).offset (self.rsize bptr.psize)
    if bptr.cksum = 7 then
      match data with
      | none => .error .TypeError
      | some stored => do
        let sums ← fletcher4 (stored.take bptr.psize)
        .ok (data, sums == bptr.checksum)
    else .ok (data, true)

/-- The logical size `read_block` works with. -/
def logical_size (bptr : BlockPtr) : Nat := if bptr.embeded then bptr.embeded_lsize else bptr.lsize

/-- The second half of `read_block`: decompression, then padding or cutting to
    the logical size. -/
def GenericDevice.expand (self : GenericDevice) (bptr : BlockPtr) (data : Option Bytes) (cksum : Bool) :
    Py (Option Bytes × Bool) :=
  if bptr.compressed then
    if bptr.comp ∈ CompType then
      match self.decompress bptr.comp data (logical_size bptr) with
      | none => .ok (none, cksum)
      | some plain => .ok (some (fit (logical_size bptr) plain), cksum)
    else .ok (none, cksum)
  else
    match data with
    | none => .error .TypeError
    | some plain => .ok (some (fit (logical_size bptr) plain), cksum)

def GenericDevice.read_block (self : GenericDevice) (bptr : BlockPtr) (dva : Nat) : Py (Option Bytes × Bool) :=
  if bptr.empty then .ok (none, false)
  else if (bptr.get_dva dva).gang then .error .NotImplementedError
  else if (bptr.get_dva dva).offset = 0 ∧ bptr.psize = 0 then .ok (none, true)
  else do
    let stored ← self.read_stored bptr dva
    self.expand bptr stored.1 stored.2

theorem GenericDevice.read_block_of_empty (self : GenericDevice) {bptr : BlockPtr} (dva : Nat)
    (hempty : bptr.empty = true) : self.read_block bptr dva = .ok (none, false) := by
  simp [GenericDevice.read_block, hempty]

theorem GenericDevice.read_block_of_gang (self : GenericDevice) {bptr : BlockPtr} {dva : Nat}
    (hempty : bptr.empty = false) (hgang : (bptr.get_dva dva).gang = true) :
    self.read_block bptr dva = .error .NotImplementedError := by
  rw [GenericDevice.read_block, if_neg (by simp [hempty]), if_pos hgang]

/-- A pointer to a block of some size is read, and what comes back is expanded. -/
theorem GenericDevice.read_block_of_stored {self : GenericDevice} {bptr : BlockPtr} {dva : Nat}
    {stored : Option Bytes} {cksum : Bool} (hempty : bptr.empty = false) (hgang : (bptr.get_dva dva).gang = false)
    (hpsize : bptr.psize ≠ 0) (hstored : self.read_stored bptr dva = .ok (stored, cksum)) :
    self.read_block bptr dva = self.expand bptr stored cksum := by
  rw [GenericDevice.read_block, if_neg (by simp [hempty]), if_neg (by simp [hgang]), if_neg fun h => hpsize h.2,
    hstored, bind_ok]

/-- What is delivered was stored, and expanded. -/
theorem GenericDevice.read_block_some_inv {self : GenericDevice} {bptr : BlockPtr} {dva : Nat} {data : Bytes}
    {c : Bool} (h : self.read_block bptr dva = .ok (some data, c)) :
    ∃ stored cksum, self.read_stored bptr dva = .ok (stored, cksum) ∧
      self.expand bptr stored cksum = .ok (some data, c) := by
  unfold GenericDevice.read_block at h
  split at h
  · cases h
  split at h
  · cases h
  split at h
  · cases h
  obtain ⟨⟨stored, cksum⟩, hstored, h⟩ := bind_eq_ok_iff.mp h
  exact ⟨stored, cksum, hstored, h⟩

theorem GenericDevice.expand_data {self : GenericDevice} {bptr : BlockPtr} {stored : Option Bytes}
    {cksum c : Bool} {data : Option Bytes} (h : self.expand bptr stored cksum = .ok (data, c)) :
    c = cksum ∧ ∀ block, data = some block → block.length = logical_size bptr := by
  unfold GenericDevice.expand at h
  split at h
  · split at h
    · split at h <;> cases h
      · simp
      · simp
    · cases h
      simp
  · split at h
    · cases h
    · cases h
      simp

/-- Whatever `read_block` delivers has exactly the logical size of the pointer. -/
theorem GenericDevice.length_of_read_block {self : GenericDevice} {bptr : BlockPtr} {dva : Nat} {data : Bytes}
    {c : Bool} (h : self.read_block bptr dva = .ok (some data, c)) : data.length = logical_size bptr := by
  obtain ⟨stored, cksum, -, hexpand⟩ := GenericDevice.read_block_some_inv h
  exact (GenericDevice.expand_data hexpand).2 data rfl

/-- Where the bytes of a delivered block come from: the stored bytes, and for a
    compressed block one of the known decompressors. -/
theorem GenericDevice.expand_inv {self : GenericDevice} {bptr : BlockPtr} {stored : Option Bytes} {cksum c : Bool}
    {block : Bytes} (h : self.expand bptr stored cksum = .ok (some block, c)) :
    ∃ src, stored = some src ∧
      (bptr.compressed = false → block = fit (logical_size bptr) src) ∧
      (bptr.compressed = true → bptr.comp ∈ CompType ∧
        ∃ plain, self.decompress bptr.comp (some src) (logical_size bptr) = some plain ∧
          block = fit (logical_size bptr) plain) := by
  unfold GenericDevice.expand at h
  cases stored with
  | none =>
    simp only [GenericDevice.decompress] at h
    split at h
    · split at h <;> cases h
    · cases h
  | some src =>
    refine ⟨src, rfl, ?_, ?_⟩
    · intro hplain
      rw [if_neg (by simp [hplain])] at h
      cases h
      rfl
    · intro hcompressed
      rw [if_pos hcompressed] at h
      split at h
      · refine ⟨‹_›, ?_⟩
        split at h
        · cases h
        · rename_i plain hplain
          cases h
          exact ⟨plain, hplain, rfl⟩
      · cases h

/-- A block delivered for a pointer that is not embedded was read from a device. -/
theorem GenericDevice.read_block_inv {self : GenericDevice} {bptr : BlockPtr} {dva : Nat} {block : Bytes}
    {c : Bool} (hembeded : bptr.embeded = false) (h : self.read_block bptr dva = .ok (some block, c)) :
    ∃ stored cksum, self.read_physical (bptr.get_dva dva).offset (self.rsize bptr.psize) = .ok stored ∧
      self.expand bptr stored cksum = .ok (some block, c) := by
  obtain ⟨stored, cksum, hstored, h⟩ := GenericDevice.read_block_some_inv h
  refine ⟨stored, cksum, ?_, h⟩
  rw [GenericDevice.read_stored, if_neg (by simp [hembeded]), bind_eq_ok_iff] at hstored
  obtain ⟨data, hdata, hstored⟩ := hstored
  rw [hdata]
  split at hstored
  · cases data with
    | none => cases hstored
    | some src =>
      rw [bind_eq_ok_iff] at hstored
      obtain ⟨sums, _, hstored⟩ := hstored
      cases hstored
      rfl
  · cases hstored
    rfl

/-- The words of a pointer to one sector under a checksum of zeros: its first
    copy is in the second sector of the device, its second one is in the third
    or is missing, and it has no third. -/
def sector_words (second : Nat) : List Nat :=
  [1, 1, second, 2 * second, 0, 0, 2 * 2 ^ 32 + 7 * 2 ^ 40, 0, 0, 0, 0, 0, 0, 0, 0, 0]

def sector_pointer (second : Nat) : BlockPtr := BlockPtr.of_bytes (encode_words (sector_words second))

/-- What a device has in its sectors: zeros only in the third, and its label in
    the first. -/
def sector_byte (offset : Nat) : UInt8 := if offset = 0 then 2 else if offset = 1024 then 0 else 1

def sector_device : GenericDevice where
  ashift := 9
  read_physical offset _ := .ok (some (List.replicate 512 (sector_byte offset)))
  zlib_decompress := .ok

end zfs_rescue.zio
