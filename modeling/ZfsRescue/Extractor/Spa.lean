import ZfsRescue.Blockptr
import ZfsRescue.Extractor.Zio

open bytes
open zfs_rescue.blockptr (qword)
open zfs_rescue.extractor.zio

namespace zfs_rescue.extractor.spa

def P2PHASE (x align : Nat) : Nat := x &&& (align - 1)

def BF64_GET (x low len : Nat) : Nat := P2PHASE (x >>> low) (1 <<< len)

def BF64_GET_SB (x low len shift bias : Nat) : Nat := u64 (u64 (BF64_GET x low len + bias) <<< shift)

def SPA_MINBLOCKSHIFT : Nat := 9
def SPA_LSIZEBITS : Nat := 16
def SPA_PSIZEBITS : Nat := 16
def SPA_ASIZEBITS : Nat := 24
def SPA_COMPRESSBITS : Nat := 7

/-- `dva_t`: two 64-bit words. -/
structure DvaT where
  dva_word0 : Nat
  dva_word1 : Nat
  deriving DecidableEq, Repr

/-- `blkptr_t`, less its padding and the physical birth. -/
structure BlkptrT where
  blk_dva : List DvaT
  blk_prop : Nat
  blk_birth : Nat
  blk_fill : Nat
  blk_cksum : List Nat
  deriving DecidableEq, Repr

/-- The structure over 128 bytes, as a little-endian machine sees them. -/
def BlkptrT.overlay (data : Bytes) : BlkptrT where
  blk_dva := [⟨qword data 0, qword data 1⟩, ⟨qword data 2, qword data 3⟩, ⟨qword data 4, qword data 5⟩]
  blk_prop := qword data 6
  blk_birth := qword data 10
  blk_fill := qword data 11
  blk_cksum := [qword data 12, qword data 13, qword data 14, qword data 15]

def DVA_GET_ASIZE (dva : DvaT) : Nat := BF64_GET_SB dva.dva_word0 0 SPA_ASIZEBITS SPA_MINBLOCKSHIFT 0
def DVA_GET_GRID (dva : DvaT) : Nat := BF64_GET dva.dva_word0 24 8
def DVA_GET_VDEV (dva : DvaT) : Nat := BF64_GET dva.dva_word0 32 32
def DVA_GET_OFFSET (dva : DvaT) : Nat := BF64_GET_SB dva.dva_word1 0 63 SPA_MINBLOCKSHIFT 0
def DVA_GET_GANG (dva : DvaT) : Nat := BF64_GET dva.dva_word1 63 1

section Accessors

variable (bp : BlkptrT)

def BPE_GET_ETYPE : Nat := BF64_GET bp.blk_prop 40 8
def BPE_GET_LSIZE : Nat := BF64_GET_SB bp.blk_prop 0 25 0 1
def BPE_GET_PSIZE : Nat := BF64_GET_SB bp.blk_prop 25 7 0 1
def BP_IS_EMBEDDED : Nat := BF64_GET bp.blk_prop 39 1

def BP_GET_LSIZE : Nat :=
  if BP_IS_EMBEDDED bp ≠ 0 then if BPE_GET_ETYPE bp = 0 then BPE_GET_LSIZE bp else 0
  else BF64_GET_SB bp.blk_prop 0 SPA_LSIZEBITS SPA_MINBLOCKSHIFT 1

def BP_GET_PSIZE : Nat :=
  if BP_IS_EMBEDDED bp ≠ 0 then 0 else BF64_GET_SB bp.blk_prop 16 SPA_PSIZEBITS SPA_MINBLOCKSHIFT 1

def BP_GET_COMPRESS : Nat := BF64_GET bp.blk_prop 32 SPA_COMPRESSBITS

/-- The checksum of an embedded pointer is `ZIO_CHECKSUM_OFF`. -/
def BP_GET_CHECKSUM : Nat := if BP_IS_EMBEDDED bp ≠ 0 then 2 else BF64_GET bp.blk_prop 40 8

def BP_GET_TYPE : Nat := BF64_GET bp.blk_prop 48 8
def BP_GET_LEVEL : Nat := BF64_GET bp.blk_prop 56 5
def BP_USES_CRYPT : Nat := BF64_GET bp.blk_prop 61 1
def BP_GET_DEDUP : Nat := BF64_GET bp.blk_prop 62 1
def BP_GET_BYTEORDER : Nat := BF64_GET bp.blk_prop 63 1

end Accessors

/-- The bytes of the payload words: all but those of `blk_prop` and `blk_birth`. -/
def bpe_payload (data : Bytes) : Bytes :=
  ((List.range 16).filter fun wp => wp ≠ 6 ∧ wp ≠ 10).flatMap fun wp => slice data (8 * wp) 8

theorem BF64_GET_eq (x low len : Nat) : BF64_GET x low len = x / 2 ^ low % 2 ^ len := by
  rw [BF64_GET, P2PHASE, Nat.one_shiftLeft, Nat.and_two_pow_sub_one_eq_mod, Nat.shiftRight_eq_div_pow]

/-- A scaled field that fits in a word is not cut. -/
theorem BF64_GET_SB_of_lt {x low len shift bias : Nat} (h : (2 ^ len + bias) * 2 ^ shift ≤ 2 ^ 64) :
    BF64_GET_SB x low len shift bias = (x / 2 ^ low % 2 ^ len + bias) * 2 ^ shift := by
  have hlt : x / 2 ^ low % 2 ^ len < 2 ^ len := Nat.mod_lt _ (Nat.two_pow_pos len)
  have hscaled : (x / 2 ^ low % 2 ^ len + bias) * 2 ^ shift < 2 ^ 64 :=
    Nat.lt_of_lt_of_le (Nat.mul_lt_mul_of_pos_right (by omega) (Nat.two_pow_pos shift)) h
  have hfield : x / 2 ^ low % 2 ^ len + bias < 2 ^ 64 :=
    Nat.lt_of_le_of_lt (Nat.le_mul_of_pos_right _ (Nat.two_pow_pos shift)) hscaled
  rw [BF64_GET_SB, BF64_GET_eq, u64_of_lt hfield, Nat.shiftLeft_eq, u64_of_lt hscaled]

end zfs_rescue.extractor.spa
