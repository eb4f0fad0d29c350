import ZfsRescue.Blockptr.Fletcher
import ZfsRescue.Zio.GenericDevice

open bytes
open zfs_rescue.blockptr zfs_rescue.lzjb

namespace zfs_rescue.zio

/-- A pointer without data inside has the fields that every pointer sets. -/
theorem of_bytes_of_embeded {raw : Bytes} {bptr : BlockPtr} (hparse : BlockPtr.parse raw = .ok bptr)
    (hembeded : bptr.embeded = false) : bptr = BlockPtr.parse_plain raw := by
  obtain ⟨_, rfl⟩ := BlockPtr.parse_eq_ok_iff.mp hparse
  unfold BlockPtr.of_bytes at hembeded ⊢
  split
  · rename_i h
    rw [if_pos h] at hembeded
    exact absurd h (by simpa [BlockPtr.parse_embeded] using hembeded)
  · rfl

/-- It is to whole sectors of 512 bytes, at least one. -/
theorem sectors_of_parse {raw : Bytes} {bptr : BlockPtr} (hparse : BlockPtr.parse raw = .ok bptr)
    (hembeded : bptr.embeded = false) :
    (512 ≤ bptr.psize ∧ 512 ∣ bptr.psize) ∧ 512 ≤ bptr.lsize ∧ 512 ∣ bptr.lsize := by
  rw [of_bytes_of_embeded hparse hembeded]
  simp only [BlockPtr.parse_plain, Nat.shiftLeft_eq]
  omega

section Reading

variable {self : GenericDevice} {bptr : BlockPtr} {dva : Nat}

/-- A block that holds its data itself is always delivered or given up. -/
theorem GenericDevice.read_block_of_embeded (hembeded : bptr.embeded = true) (hgang : (bptr.get_dva dva).gang = false) :
    ∃ data cksum, self.read_block bptr dva = .ok (data, cksum) := by
  have hempty : bptr.empty = false := by simp [BlockPtr.empty, hembeded]
  rw [GenericDevice.read_block, if_neg (by simp [hempty]), if_neg (by simp [hgang])]
  split
  · exact ⟨_, _, rfl⟩
  · rw [GenericDevice.read_stored, if_pos hembeded, bind_ok, GenericDevice.expand]
    split
    · split
      · split <;> exact ⟨_, _, rfl⟩
      · exact ⟨_, _, rfl⟩
    · exact ⟨_, _, rfl⟩

/-- What the checksum makes of the physical result. -/
theorem GenericDevice.read_stored_of_read {r : Option Bytes} (hembeded : bptr.embeded = false)
    (hread : self.read_physical (bptr.get_dva dva).offset (self.rsize bptr.psize) = .ok r) :
    (∃ cksum, self.read_stored bptr dva = .ok (r, cksum)) ↔
      (bptr.cksum = 7 → ∃ stored, r = some stored ∧ 4 ∣ (stored.take bptr.psize).length) := by
  rw [GenericDevice.read_stored, if_neg (by simp [hembeded]), hread, bind_ok]
  split
  · rename_i hcksum
    cases r with
    | none =>
      refine iff_of_false ?_ fun h => ?_
      · rintro ⟨_, h⟩
        cases h
      · obtain ⟨_, heq, _⟩ := h hcksum
        cases heq
    | some stored =>
      by_cases hdvd : 4 ∣ (stored.take bptr.psize).length
      · dsimp only
        rw [fletcher4_of_dvd hdvd]
        exact iff_of_true ⟨_, rfl⟩ fun _ => ⟨stored, rfl, hdvd⟩
      · dsimp only
        rw [fletcher4_of_not_dvd hdvd]
        refine iff_of_false ?_ fun h => ?_
        · rintro ⟨_, h⟩
          cases h
        · obtain ⟨_, heq, hok⟩ := h hcksum
          cases heq
          exact hdvd hok
  · rename_i hcksum
    exact iff_of_true ⟨_, rfl⟩ fun h => absurd h hcksum

/-- The stored bytes are the physical result. -/
theorem GenericDevice.read_stored_eq {r stored : Option Bytes} {cksum : Bool} (hembeded : bptr.embeded = false)
    (hread : self.read_physical (bptr.get_dva dva).offset (self.rsize bptr.psize) = .ok r)
    (h : self.read_stored bptr dva = .ok (stored, cksum)) : stored = r := by
  rw [GenericDevice.read_stored, if_neg (by simp [hembeded]), hread, bind_ok] at h
  split at h
  · cases r with
    | none => cases h
    | some data =>
      obtain ⟨_, _, h⟩ := bind_eq_ok_iff.mp h
      cases h
      rfl
  · cases h
    rfl

/-- Nothing is decompressed to nothing by LZJB alone: the others raise an exception. -/
theorem GenericDevice.decompress_nil (hzlib : ∃ e, self.zlib_decompress [] = .error e) {comp_alg : Nat}
    (hcomp : comp_alg ∈ CompType) (lsize : Nat) :
    self.decompress comp_alg (some []) lsize =
      if comp_alg = COMP_TYPE_ON ∨ comp_alg = COMP_TYPE_LZJB then some [] else none := by
  obtain ⟨e, hzlib⟩ := hzlib
  have hlzjb : lzjb_decompress [] lsize = .ok (some []) := by
    rw [lzjb_decompress, decompress_loop, dif_neg (by decide)]
  simp only [CompType, List.mem_cons, List.not_mem_nil, or_false] at hcomp
  rcases hcomp with rfl | rfl | hcomp | hcomp | hcomp | rfl
  · rw [GenericDevice.decompress, hlzjb]
    rfl
  · rw [GenericDevice.decompress, hlzjb]
    rfl
  · rw [self.decompress_gzip [] lsize (.inl hcomp), hzlib, hcomp]
    rfl
  · rw [self.decompress_gzip [] lsize (.inr (.inl hcomp)), hzlib, hcomp]
    rfl
  · rw [self.decompress_gzip [] lsize (.inr (.inr hcomp)), hzlib, hcomp]
    rfl
  · rfl

/-- A physical read gave nothing: `None`, or no byte of an image that ends before the
    block. -/
def ReadNothing (r : Option Bytes) : Prop := r = none ∨ r = some []

/-- What is there to be expanded always is. Nothing is given up if the block is
    compressed, and no bytes are if that is not by LZJB. -/
theorem GenericDevice.expand_of_stored (hzlib : ∃ e, self.zlib_decompress [] = .error e) (r : Option Bytes)
    (cksum : Bool) :
    (∃ data c, self.expand bptr r cksum = .ok (data, c) ∧ (ReadNothing r → data = none)) ↔
      (r = none → bptr.compressed = true) ∧
        (r = some [] → bptr.compressed = true ∧ bptr.comp ≠ COMP_TYPE_ON ∧ bptr.comp ≠ COMP_TYPE_LZJB) := by
  by_cases hcompressed : bptr.compressed = true
  · unfold GenericDevice.expand
    rw [if_pos hcompressed]
    simp only [hcompressed, true_and, implies_true]
    by_cases hmem : bptr.comp ∈ CompType
    · rw [if_pos hmem]
      cases r with
      | none => exact iff_of_true ⟨none, cksum, rfl, fun _ => rfl⟩ nofun
      | some stored =>
        cases stored with
        | nil =>
          rw [GenericDevice.decompress_nil hzlib hmem, ← not_or]
          by_cases hlzjb : bptr.comp = COMP_TYPE_ON ∨ bptr.comp = COMP_TYPE_LZJB
          · rw [if_pos hlzjb]
            refine iff_of_false ?_ fun h => h rfl hlzjb
            rintro ⟨data, c, heq, hnone⟩
            rw [hnone (.inr rfl)] at heq
            cases heq
          · rw [if_neg hlzjb]
            exact iff_of_true ⟨none, cksum, rfl, fun _ => rfl⟩ fun _ => hlzjb
        | cons b stored =>
          refine iff_of_true ?_ nofun
          cases self.decompress bptr.comp (some (b :: stored)) (logical_size bptr) with
          | none => exact ⟨none, cksum, rfl, fun _ => rfl⟩
          | some plain => exact ⟨_, cksum, rfl, nofun⟩
    · rw [if_neg hmem]
      refine iff_of_true ⟨none, cksum, rfl, fun _ => rfl⟩ fun _ => ⟨fun heq => ?_, fun heq => ?_⟩
      · exact hmem (heq ▸ by decide)
      · exact hmem (heq ▸ by decide)
  · unfold GenericDevice.expand
    rw [if_neg hcompressed]
    cases r with
    | none => exact iff_of_false nofun fun h => hcompressed (h.1 rfl)
    | some stored =>
      cases stored with
      | nil =>
        refine iff_of_false ?_ fun h => hcompressed (h.2 rfl).1
        rintro ⟨data, c, heq, hnone⟩
        rw [hnone (.inr rfl)] at heq
        cases heq
      | cons b stored => exact iff_of_true ⟨_, cksum, rfl, nofun⟩ ⟨nofun, nofun⟩

end Reading

/-- `read_block` returns a pair, and no data where the physical read `r` gave
    nothing. A block that holds its data itself is not read. -/
def GenericDevice.Reports (self : GenericDevice) (bptr : BlockPtr) (dva : Nat) (r : Option Bytes) : Prop :=
  ∃ data cksum, self.read_block bptr dva = .ok (data, cksum) ∧ (bptr.embeded = false → ReadNothing r → data = none)

/-- An unreadable block is reported when it is compressed, and has no fletcher4
    checksum if `None` was read, or is not under LZJB if no byte was. A readable one is
    when it has no such checksum, or when what was read of its stored bytes are whole
    words. That `zlib` refuses to decompress nothing is taken from its documentation. -/
theorem GenericDevice.reports_iff {self : GenericDevice} {raw : Bytes} {bptr : BlockPtr} {dva : Nat} {r : Option Bytes}
    (hzlib : ∃ e, self.zlib_decompress [] = .error e) (hparse : BlockPtr.parse raw = .ok bptr)
    (hgang : (bptr.get_dva dva).gang = false)
    (hread : self.read_physical (bptr.get_dva dva).offset (self.rsize bptr.psize) = .ok r) :
    self.Reports bptr dva r ↔
      bptr.empty = true ∨ bptr.embeded = true ∨
        (r = none ∧ bptr.cksum ≠ 7 ∧ bptr.compressed = true) ∨
        (r = some [] ∧ bptr.compressed = true ∧ bptr.comp ≠ COMP_TYPE_ON ∧ bptr.comp ≠ COMP_TYPE_LZJB) ∨
        ∃ stored, r = some stored ∧ stored ≠ [] ∧ (bptr.cksum = 7 → bptr.psize ≤ stored.length ∨ 4 ∣ stored.length) := by
  by_cases hempty : bptr.empty = true
  · have hembeded : bptr.embeded = false := by
      simp only [BlockPtr.empty, Bool.and_eq_true, Bool.not_eq_true'] at hempty
      exact hempty.2
    exact iff_of_true ⟨none, false, GenericDevice.read_block_of_empty self dva hempty, fun _ _ => rfl⟩ (.inl hempty)
  by_cases hembeded : bptr.embeded = true
  · obtain ⟨data, cksum, hblock⟩ := @GenericDevice.read_block_of_embeded self _ _ hembeded hgang
    exact iff_of_true ⟨data, cksum, hblock, fun h => by simp [hembeded] at h⟩ (.inr (.inl hembeded))
  rw [Bool.not_eq_true] at hempty hembeded
  obtain ⟨⟨hpsize, hwhole⟩, -, -⟩ := sectors_of_parse hparse hembeded
  have hstored := GenericDevice.read_stored_of_read hembeded hread
  have htake : ∀ stored : Bytes, 4 ∣ (stored.take bptr.psize).length ↔ bptr.psize ≤ stored.length ∨ 4 ∣ stored.length := by
    intro stored
    rw [List.length_take]
    omega
  simp only [hempty, hembeded, Bool.false_eq_true, false_or]
  by_cases hok : bptr.cksum = 7 → ∃ stored, r = some stored ∧ 4 ∣ (stored.take bptr.psize).length
  · obtain ⟨cksum, hcksum⟩ := hstored.mpr hok
    have hexpand : self.Reports bptr dva r ↔
        (r = none → bptr.compressed = true) ∧
          (r = some [] → bptr.compressed = true ∧ bptr.comp ≠ COMP_TYPE_ON ∧ bptr.comp ≠ COMP_TYPE_LZJB) := by
      rw [← @GenericDevice.expand_of_stored self bptr hzlib r cksum, GenericDevice.Reports,
        GenericDevice.read_block_of_stored hempty hgang (by omega) hcksum]
      simp only [hembeded, forall_true_left]
    rw [hexpand]
    cases r with
    | none =>
      have hne : bptr.cksum ≠ 7 := fun h => by
        obtain ⟨_, heq, _⟩ := hok h
        cases heq
      simp [hne]
    | some stored =>
      cases stored with
      | nil => simp
      | cons b stored =>
        refine iff_of_true ⟨nofun, nofun⟩ (.inr (.inr ⟨_, rfl, List.cons_ne_nil _ _, fun h => ?_⟩))
        obtain ⟨_, heq, hdvd⟩ := hok h
        cases heq
        exact (htake _).mp hdvd
  · have hraises : ¬self.Reports bptr dva r := by
      rintro ⟨data, cksum, hblock, _⟩
      rw [GenericDevice.read_block, if_neg (by simp [hempty]), if_neg (by simp [hgang]), if_neg (by omega),
        bind_eq_ok_iff] at hblock
      obtain ⟨⟨stored, c⟩, hread_stored, _⟩ := hblock
      have hfound : stored = r := GenericDevice.read_stored_eq hembeded hread hread_stored
      exact hok (hstored.mp ⟨c, hfound ▸ hread_stored⟩)
    refine iff_of_false hraises ?_
    rintro (⟨_, hne, _⟩ | ⟨rfl, _⟩ | ⟨stored, rfl, -, hwhole⟩)
    · exact hok fun h => absurd h hne
    · exact hok fun _ => ⟨[], rfl, by simp⟩
    · exact hok fun h => ⟨stored, rfl, (htake stored).mpr (hwhole h)⟩

/-- The bytes of a pointer to one sector, `offset` sectors behind the labels,
    with the kinds of its compression and of its checksum. -/
def sector_bytes (offset comp cksum : Nat) : Bytes :=
  encode_words [1, offset, 0, 0, 0, 0, comp * 2 ^ 32 + cksum * 2 ^ 40, 0, 0, 0, 0, 0, 0, 0, 0, 0]

/-- A device that gives `None` past its limit, over an image that ends before its third
    sector and lacks the last byte of the second. No bytes and no zeros are a stream of
    `zlib`. -/
def truncated_device : GenericDevice where
  ashift := 9
  read_physical offset size :=
    .ok (if offset > 8 * 1024 * 1024 * 1024 * 1024 then none else some (List.replicate (min size (1023 - offset)) 0))
  zlib_decompress _ := .error .ZlibError

/-- Hashing `None` raises an exception, and so does hashing 511 bytes. No byte at all is
    filled up with zeros. -/
theorem truncated_device_raises :
    (BlockPtr.parse (sector_bytes (2 ^ 34 + 1) 2 7) = .ok (BlockPtr.of_bytes (sector_bytes (2 ^ 34 + 1) 2 7)) ∧
        truncated_device.read_block (BlockPtr.of_bytes (sector_bytes (2 ^ 34 + 1) 2 7)) 0 = .error .TypeError ∧
        ¬truncated_device.Reports (BlockPtr.of_bytes (sector_bytes (2 ^ 34 + 1) 2 7)) 0 none) ∧
      (BlockPtr.parse (sector_bytes 1 2 7) = .ok (BlockPtr.of_bytes (sector_bytes 1 2 7)) ∧
        truncated_device.read_block (BlockPtr.of_bytes (sector_bytes 1 2 7)) 0 = .error .TypeError ∧
        ¬truncated_device.Reports (BlockPtr.of_bytes (sector_bytes 1 2 7)) 0 (some (List.replicate 511 0))) ∧
      (BlockPtr.parse (sector_bytes 2 2 2) = .ok (BlockPtr.of_bytes (sector_bytes 2 2 2)) ∧
        truncated_device.read_physical 1024 512 = .ok (some []) ∧
        truncated_device.read_block (BlockPtr.of_bytes (sector_bytes 2 2 2)) 0 = .ok (some (List.replicate 512 0), true) ∧
        ¬truncated_device.Reports (BlockPtr.of_bytes (sector_bytes 2 2 2)) 0 (some [])) := by
  obtain ⟨hparse, hnothing, hparse', hshort, hparse'', hread, hzeros, hembeded⟩ :
      BlockPtr.parse (sector_bytes (2 ^ 34 + 1) 2 7) = .ok (BlockPtr.of_bytes (sector_bytes (2 ^ 34 + 1) 2 7)) ∧
        truncated_device.read_block (BlockPtr.of_bytes (sector_bytes (2 ^ 34 + 1) 2 7)) 0 = .error .TypeError ∧
        BlockPtr.parse (sector_bytes 1 2 7) = .ok (BlockPtr.of_bytes (sector_bytes 1 2 7)) ∧
        truncated_device.read_block (BlockPtr.of_bytes (sector_bytes 1 2 7)) 0 = .error .TypeError ∧
        BlockPtr.parse (sector_bytes 2 2 2) = .ok (BlockPtr.of_bytes (sector_bytes 2 2 2)) ∧
        truncated_device.read_physical 1024 512 = .ok (some []) ∧
        truncated_device.read_block (BlockPtr.of_bytes (sector_bytes 2 2 2)) 0 =
          .ok (some (List.replicate 512 0), true) ∧
        (BlockPtr.of_bytes (sector_bytes 2 2 2)).embeded = false := by
    decide +kernel
  refine ⟨⟨hparse, hnothing, ?_⟩, ⟨hparse', hshort, ?_⟩, hparse'', hread, hzeros, ?_⟩
  · rintro ⟨data, cksum, hblock, _⟩
    rw [hnothing] at hblock
    cases hblock
  · rintro ⟨data, cksum, hblock, _⟩
    rw [hshort] at hblock
    cases hblock
  · rintro ⟨data, cksum, hblock, hnone⟩
    rw [hzeros, hnone hembeded (.inr rfl)] at hblock
    cases hblock

/-- Past the limit a block under LZJB without a checksum is reported, and past the end
    of the image one under LZ4 with one. -/
theorem truncated_device_reports :
    truncated_device.Reports (BlockPtr.of_bytes (sector_bytes (2 ^ 34 + 1) 3 2)) 0 none ∧
      truncated_device.Reports (BlockPtr.of_bytes (sector_bytes 2 15 7)) 0 (some []) := by
  have hparse : BlockPtr.parse (sector_bytes (2 ^ 34 + 1) 3 2) =
        .ok (BlockPtr.of_bytes (sector_bytes (2 ^ 34 + 1) 3 2)) ∧
      BlockPtr.parse (sector_bytes 2 15 7) = .ok (BlockPtr.of_bytes (sector_bytes 2 15 7)) := by
    decide +kernel
  constructor
  · exact (GenericDevice.reports_iff ⟨_, rfl⟩ hparse.1 (by decide +kernel) (by decide +kernel)).mpr
      (.inr (.inr (.inl ⟨rfl, by decide +kernel, by decide +kernel⟩)))
  · exact (GenericDevice.reports_iff ⟨_, rfl⟩ hparse.2 (by decide +kernel) (by decide +kernel)).mpr
      (.inr (.inr (.inr (.inl ⟨rfl, by decide +kernel, by decide +kernel, by decide +kernel⟩))))

end zfs_rescue.zio
