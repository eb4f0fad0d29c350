import Mathlib.Data.Nat.Bitwise
import ZfsRescue.Extractor.Spa

open bytes
open zfs_rescue.extractor.spa

namespace zfs_rescue.blockptr

/-- A parsed address has the fields that the accessors read from its words. -/
structure DVA.Agrees (parsed : DVA) (dva : DvaT) : Prop where
  asize_r : parsed.asize_r = DVA_GET_ASIZE dva
  asize : parsed.asize = DVA_GET_ASIZE dva
  grid : parsed.grid = DVA_GET_GRID dva
  vdev : parsed.vdev = DVA_GET_VDEV dva
  offset : parsed.offset = DVA_GET_OFFSET dva
  gang : parsed.gang = (DVA_GET_GANG dva != 0)

/-- The fields that every pointer has. -/
structure AgreesAlways (bptr : BlockPtr) (bp : BlkptrT) : Prop where
  comp : bptr.comp = BP_GET_COMPRESS bp
  type : bptr.type = BP_GET_TYPE bp
  lvl : bptr.lvl = BP_GET_LEVEL bp
  encrypted : bptr.encrypted = BP_USES_CRYPT bp
  E : bptr.E = BP_GET_BYTEORDER bp
  birth_txg : bptr.birth_txg = bp.blk_birth

/-- The fields of a pointer to a block on the medium. -/
structure AgreesPlain (bptr : BlockPtr) (bp : BlkptrT) : Prop extends AgreesAlways bptr bp where
  dvas : ∀ i dva, bp.blk_dva[i]? = some dva → (bptr.get_dva i).Agrees dva
  lsize : bptr.lsize = BP_GET_LSIZE bp
  psize : bptr.psize = BP_GET_PSIZE bp
  cksum : bptr.cksum = BP_GET_CHECKSUM bp
  fill_count : bptr.fill_count = bp.blk_fill
  checksum : [bptr.checksum.1, bptr.checksum.2.1, bptr.checksum.2.2.1, bptr.checksum.2.2.2] = bp.blk_cksum

/-- The fields of a pointer with the data inside. -/
structure AgreesEmbedded (bptr : BlockPtr) (data : Bytes) : Prop extends AgreesAlways bptr (BlkptrT.overlay data) where
  lsize : bptr.lsize = BPE_GET_LSIZE (BlkptrT.overlay data)
  psize : bptr.psize = BPE_GET_PSIZE (BlkptrT.overlay data)
  etype : bptr.etype = BPE_GET_ETYPE (BlkptrT.overlay data)
  embeded_data : bptr.embeded_data = bpe_payload data

/-- What `parse` makes of the bytes is what the accessors read from them. -/
def DecodesPerFormat (data : Bytes) : Prop :=
  ∃ bptr, BlockPtr.parse data = .ok bptr ∧
    (BP_IS_EMBEDDED (BlkptrT.overlay data) = 0 → AgreesPlain bptr (BlkptrT.overlay data)) ∧
    (BP_IS_EMBEDDED (BlkptrT.overlay data) ≠ 0 → AgreesEmbedded bptr data)

theorem qword_lt (data : Bytes) (i : Nat) : qword data i < 2 ^ 64 := by
  have hlt := readLE_lt (slice data (8 * i) 8)
  have hpow : 256 ^ (slice data (8 * i) 8).length ≤ 256 ^ 8 :=
    Nat.pow_le_pow_right (by decide) (length_slice_le data (8 * i) 8)
  rw [qword]
  omega

theorem embeded_parse_plain (data : Bytes) :
    (BlockPtr.parse_plain data).embeded = (BP_IS_EMBEDDED (BlkptrT.overlay data) != 0) := by
  rw [BP_IS_EMBEDDED, BF64_GET_eq]
  simp only [BlockPtr.parse_plain, BlkptrT.overlay, Nat.and_two_pow_sub_one_eq_mod _ 1, Nat.shiftRight_eq_div_pow]

/-- An address agrees with its words up to the offset, which the accessors cut
    to 64 bits. -/
theorem DVA.init_agrees_iff {word0 word1 : Nat} (hword : word0 < 2 ^ 64) :
    (DVA.init word0 word1).Agrees ⟨word0, word1⟩ ↔ BF64_GET word1 55 8 = 0 := by
  have hasize : (word0 &&& 0xffffff) <<< 9 = DVA_GET_ASIZE ⟨word0, word1⟩ := by
    rw [DVA_GET_ASIZE, SPA_ASIZEBITS, SPA_MINBLOCKSHIFT, BF64_GET_SB_of_lt (by decide),
      Nat.and_two_pow_sub_one_eq_mod _ 24, Nat.shiftLeft_eq]
    simp only
    omega
  have hgrid : (word0 >>> 24) &&& 0xff = DVA_GET_GRID ⟨word0, word1⟩ := by
    rw [DVA_GET_GRID, BF64_GET_eq, Nat.and_two_pow_sub_one_eq_mod _ 8, Nat.shiftRight_eq_div_pow]
  have hvdev : word0 >>> 32 = DVA_GET_VDEV ⟨word0, word1⟩ := by
    rw [DVA_GET_VDEV, BF64_GET_eq, Nat.shiftRight_eq_div_pow]
    simp only
    omega
  have hgang : (word1 &&& (1 <<< 63) != 0) = (DVA_GET_GANG ⟨word0, word1⟩ != 0) := by
    rw [DVA_GET_GANG, BF64_GET_eq, Nat.one_shiftLeft, Nat.and_two_pow]
    simp only
    rw [Nat.pow_one, ← Nat.toNat_testBit]
    cases word1.testBit 63 <;> rfl
  have hoffset : (word1 &&& 0x7fffffffffffffff) <<< 9 = DVA_GET_OFFSET ⟨word0, word1⟩ ↔ BF64_GET word1 55 8 = 0 := by
    rw [DVA_GET_OFFSET, BF64_GET_SB, BF64_GET_eq, BF64_GET_eq, Nat.and_two_pow_sub_one_eq_mod _ 63,
      SPA_MINBLOCKSHIFT, Nat.shiftLeft_eq, Nat.shiftLeft_eq, extractor.zio.u64, extractor.zio.u64]
    simp only
    omega
  constructor
  · exact fun h => hoffset.mp h.offset
  · exact fun h => ⟨hasize, hasize, hgrid, hvdev, hoffset.mpr h, hgang⟩

/-- The level is read two bits too wide. -/
theorem lvl_eq_iff {prop : Nat} :
    (prop >>> 56) &&& 0x7f = BF64_GET prop 56 5 ↔ BF64_GET prop 61 1 = 0 ∧ BF64_GET prop 62 1 = 0 := by
  rw [BF64_GET_eq, BF64_GET_eq, BF64_GET_eq, Nat.and_two_pow_sub_one_eq_mod _ 7, Nat.shiftRight_eq_div_pow]
  omega

/-- Consecutive words are one range of bytes. -/
private theorem words_range' (data : Bytes) (wp n : Nat) :
    (List.range' wp n).flatMap (fun wp => slice data (8 * wp) 8) = slice data (8 * wp) (n * 8) := by
  induction n generalizing wp with
  | zero => simp
  | succ n ih =>
    rw [List.range'_succ, List.flatMap_cons, ih, show (n + 1) * 8 = 8 + n * 8 by omega, slice_add, Nat.mul_succ]

/-- The payload words are gathered in order. -/
theorem bpe_payload_eq (data : Bytes) :
    bpe_payload data = slice data 0 (6 * 8) ++ slice data (7 * 8) (3 * 8) ++ slice data (11 * 8) (5 * 8) := by
  have hwords : (List.range 16).filter (fun wp => wp ≠ 6 ∧ wp ≠ 10) =
      List.range' 0 6 ++ List.range' 7 3 ++ List.range' 11 5 := by decide
  rw [bpe_payload, hwords, List.flatMap_append, List.flatMap_append, words_range', words_range', words_range']

section Decoding

variable {data : Bytes}

/-- The three addresses agree as far as their offsets stay in 64 bits. -/
theorem get_dva_agrees_iff :
    (∀ i dva, (BlkptrT.overlay data).blk_dva[i]? = some dva → ((BlockPtr.parse_plain data).get_dva i).Agrees dva) ↔
      ∀ dva ∈ (BlkptrT.overlay data).blk_dva, BF64_GET dva.dva_word1 55 8 = 0 := by
  constructor
  · intro h dva hdva
    simp only [BlkptrT.overlay, List.mem_cons, List.not_mem_nil, or_false] at hdva
    rcases hdva with rfl | rfl | rfl
    · exact (DVA.init_agrees_iff (qword_lt data 0)).mp (h 0 _ rfl)
    · exact (DVA.init_agrees_iff (qword_lt data 2)).mp (h 1 _ rfl)
    · exact (DVA.init_agrees_iff (qword_lt data 4)).mp (h 2 _ rfl)
  · intro h i dva hdva
    have hzero := h dva (List.mem_of_getElem? hdva)
    rcases i with _ | _ | _ | i
    · cases hdva
      exact (DVA.init_agrees_iff (qword_lt data 0)).mpr hzero
    · cases hdva
      exact (DVA.init_agrees_iff (qword_lt data 2)).mpr hzero
    · cases hdva
      exact (DVA.init_agrees_iff (qword_lt data 4)).mpr hzero
    · cases hdva

/-- Without data inside, the fields agree as far as the level and the offsets do. -/
theorem parse_plain_agrees_iff (hplain : BP_IS_EMBEDDED (BlkptrT.overlay data) = 0) :
    AgreesPlain (BlockPtr.parse_plain data) (BlkptrT.overlay data) ↔
      BP_USES_CRYPT (BlkptrT.overlay data) = 0 ∧ BP_GET_DEDUP (BlkptrT.overlay data) = 0 ∧
        ∀ dva ∈ (BlkptrT.overlay data).blk_dva, BF64_GET dva.dva_word1 55 8 = 0 := by
  have hprop := qword_lt data 6
  have hsize : ∀ low, BF64_GET_SB (qword data 6) low 16 9 1 = (1 + qword data 6 / 2 ^ low % 2 ^ 16) * 2 ^ 9 := by
    intro low
    rw [BF64_GET_SB_of_lt (by decide), Nat.add_comm]
  constructor
  · intro h
    obtain ⟨hcrypt, hdedup⟩ := lvl_eq_iff.mp h.lvl
    exact ⟨hcrypt, hdedup, get_dva_agrees_iff.mp h.dvas⟩
  · rintro ⟨hcrypt, hdedup, hoffsets⟩
    refine
      { comp := ?_, type := ?_, lvl := lvl_eq_iff.mpr ⟨hcrypt, hdedup⟩, encrypted := ?_, E := ?_, birth_txg := rfl,
        dvas := get_dva_agrees_iff.mpr hoffsets, lsize := ?_, psize := ?_, cksum := ?_, fill_count := rfl, checksum := rfl }
    · rw [BP_GET_COMPRESS, BF64_GET_eq]
      simp only [BlockPtr.parse_plain, BlkptrT.overlay, Nat.and_two_pow_sub_one_eq_mod _ 7, Nat.shiftRight_eq_div_pow,
        SPA_COMPRESSBITS]
    · rw [BP_GET_TYPE, BF64_GET_eq]
      simp only [BlockPtr.parse_plain, BlkptrT.overlay, Nat.and_two_pow_sub_one_eq_mod _ 8, Nat.shiftRight_eq_div_pow]
    · rw [BP_USES_CRYPT, BF64_GET_eq]
      simp only [BlockPtr.parse_plain, BlkptrT.overlay, Nat.and_two_pow_sub_one_eq_mod _ 1, Nat.shiftRight_eq_div_pow]
    · rw [BP_GET_BYTEORDER, BF64_GET_eq]
      simp only [BlockPtr.parse_plain, BlkptrT.overlay, Nat.shiftRight_eq_div_pow]
      omega
    · rw [BP_GET_LSIZE, if_neg (by simp [hplain]), SPA_LSIZEBITS, SPA_MINBLOCKSHIFT]
      simp only [BlockPtr.parse_plain, BlkptrT.overlay, hsize, Nat.and_two_pow_sub_one_eq_mod _ 16, Nat.shiftLeft_eq,
        Nat.pow_zero, Nat.div_one]
    · rw [BP_GET_PSIZE, if_neg (by simp [hplain]), SPA_PSIZEBITS, SPA_MINBLOCKSHIFT]
      simp only [BlockPtr.parse_plain, BlkptrT.overlay, hsize, Nat.and_two_pow_sub_one_eq_mod _ 16, Nat.shiftLeft_eq,
        Nat.shiftRight_eq_div_pow]
    · rw [BP_GET_CHECKSUM, if_neg (by simp [hplain]), BF64_GET_eq]
      simp only [BlockPtr.parse_plain, BlkptrT.overlay, Nat.and_two_pow_sub_one_eq_mod _ 8, Nat.shiftRight_eq_div_pow]

/-- The sizes of data inside a pointer are taken without their bias; its kind and
    its bytes are right. -/
theorem parse_embeded_fields (data : Bytes) (self : BlockPtr) :
    (self.parse_embeded data).lsize + 1 = BPE_GET_LSIZE (BlkptrT.overlay data) ∧
      (self.parse_embeded data).psize + 1 = BPE_GET_PSIZE (BlkptrT.overlay data) ∧
      (self.parse_embeded data).etype = BPE_GET_ETYPE (BlkptrT.overlay data) ∧
      (self.parse_embeded data).embeded_data = bpe_payload data := by
  rw [BPE_GET_LSIZE, BPE_GET_PSIZE, BPE_GET_ETYPE, BF64_GET_eq, BF64_GET_SB_of_lt (by decide),
    BF64_GET_SB_of_lt (by decide), bpe_payload_eq]
  refine ⟨?_, ?_, ?_, rfl⟩
  · simp only [BlockPtr.parse_embeded, BlkptrT.overlay, Nat.and_two_pow_sub_one_eq_mod _ 25]
    omega
  · simp only [BlockPtr.parse_embeded, BlkptrT.overlay, Nat.and_two_pow_sub_one_eq_mod _ 7, Nat.shiftRight_eq_div_pow]
    omega
  · simp only [BlockPtr.parse_embeded, BlkptrT.overlay, Nat.and_two_pow_sub_one_eq_mod _ 8, Nat.shiftRight_eq_div_pow]

/-- A block pointer decodes per the format when it has no data inside, neither
    its encryption nor its deduplication bit is set, and no offset leaves the 64
    bits once it counts bytes. -/
theorem decodesPerFormat_iff (hlength : data.length = 128) :
    DecodesPerFormat data ↔
      BP_IS_EMBEDDED (BlkptrT.overlay data) = 0 ∧ BP_USES_CRYPT (BlkptrT.overlay data) = 0 ∧
        BP_GET_DEDUP (BlkptrT.overlay data) = 0 ∧
        ∀ dva ∈ (BlkptrT.overlay data).blk_dva, BF64_GET dva.dva_word1 55 8 = 0 := by
  have hparse : BlockPtr.parse data = .ok (BlockPtr.of_bytes data) := by
    rw [BlockPtr.parse, if_pos hlength]
  have hbit := embeded_parse_plain data
  by_cases hembedded : BP_IS_EMBEDDED (BlkptrT.overlay data) = 0
  · have hplain : BlockPtr.of_bytes data = BlockPtr.parse_plain data := by
      rw [BlockPtr.of_bytes, hbit, if_neg (by simp [hembedded])]
    rw [← parse_plain_agrees_iff hembedded]
    constructor
    · rintro ⟨bptr, hbptr, hagrees, -⟩
      rw [hparse, hplain] at hbptr
      cases hbptr
      exact ⟨hembedded, hagrees hembedded⟩
    · rintro ⟨-, hagrees⟩
      exact ⟨_, hplain ▸ hparse, fun _ => hagrees, fun h => absurd hembedded h⟩
  · have hinside : BlockPtr.of_bytes data = (BlockPtr.parse_plain data).parse_embeded data := by
      rw [BlockPtr.of_bytes, hbit, if_pos (by simp [hembedded])]
    constructor
    · rintro ⟨bptr, hbptr, -, hagrees⟩
      rw [hparse, hinside] at hbptr
      cases hbptr
      have hlsize := (hagrees hembedded).lsize
      have hbiased := (parse_embeded_fields data (BlockPtr.parse_plain data)).1
      omega
    · exact fun h => absurd h.1 hembedded

end Decoding

/-- A pointer to two sectors under a fletcher4 checksum. -/
theorem decodesPerFormat_two_sectors :
    DecodesPerFormat (encode_words [2, 8, 0, 0, 0, 0, 1 + 2 ^ 16 + 2 * 2 ^ 32 + 7 * 2 ^ 40, 0, 0, 0, 5, 1, 0, 0, 0, 0]) :=
  (decodesPerFormat_iff (by rw [length_encode_words]; rfl)).mpr (by decide)

/-- The deduplication bit turns level 0 into level 64. -/
theorem not_decodesPerFormat_dedup :
    ¬ DecodesPerFormat (encode_words [2, 8, 0, 0, 0, 0, 2 * 2 ^ 32 + 7 * 2 ^ 40 + 2 ^ 62, 0, 0, 0, 5, 1, 0, 0, 0, 0]) := by
  rintro ⟨bptr, hparse, hplain, -⟩
  have hlvl := (hplain (by decide)).lvl
  rw [BlockPtr.parse, if_pos (by rw [length_encode_words]; rfl)] at hparse
  cases hparse
  exact absurd hlvl (by decide)

end zfs_rescue.blockptr
