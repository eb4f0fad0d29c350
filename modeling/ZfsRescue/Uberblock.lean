import ZfsRescue.Blockptr

open bytes
open zfs_rescue.blockptr

namespace zfs_rescue.uberblock

def UBLOCK_MAGIC : Nat := 0x00bab10c

structure Uberblock where
  magic : Nat
  version : Nat
  txg : Nat
  guid_sum : Nat
  timestamp : Nat
  rootbp : BlockPtr
  valid : Bool
  deriving DecidableEq, Repr

/-- `parse` on data of enough length. -/
def Uberblock.of_bytes (data : Bytes) : Uberblock where
  magic := qword data 0
  version := qword data 1
  txg := qword data 2
  guid_sum := qword data 3
  timestamp := qword data 4
  rootbp := BlockPtr.of_bytes (slice data 40 128)
  valid := qword data 0 == UBLOCK_MAGIC

def Uberblock.parse (data : Bytes) : Py Uberblock :=
  if (data.take (5 * 8)).length ≠ 5 * 8 then .error .StructError
  else do
    let _ ← BlockPtr.parse (slice data 40 128)
    .ok (Uberblock.of_bytes data)

/-- The shift that `UBArray.parse` cuts the ring with. -/
def ublock_shift (ashift : Nat) : Nat := max ashift 10

/-- `UBArray.parse`: the stream is read block after block. -/
def UBArray.parse (data : Bytes) (ashift : Nat) : Py (List Uberblock) :=
  (List.range (data.length >>> ublock_shift ashift)).mapM fun i =>
    Uberblock.parse (slice data (i * (1 <<< ublock_shift ashift)) (1 <<< ublock_shift ashift))

def UBArray.find_block_by_txg (blocks : List Uberblock) (txg : Nat) : Option Uberblock :=
  blocks.find? fun b => b.valid && b.txg == txg

theorem Uberblock.parse_of_le {data : Bytes} (h : 168 ≤ data.length) : Uberblock.parse data = .ok (.of_bytes data) := by
  have hhead : (data.take (5 * 8)).length = 5 * 8 := by
    rw [List.length_take]
    omega
  have hrootbp : BlockPtr.parse (slice data 40 128) = .ok (.of_bytes (slice data 40 128)) :=
    BlockPtr.parse_eq_ok_iff.mpr ⟨length_slice_of_le (by omega), rfl⟩
  rw [Uberblock.parse, if_neg (by omega), hrootbp, bind_ok]

theorem qword_slice (data : Bytes) {off len i : Nat} (h : 8 * i + 8 ≤ len) :
    qword (slice data off len) i = readLE (slice data (off + 8 * i) 8) := by
  rw [qword, slice_slice data h]

/-- An uberblock is in the first bytes of its block, however long that is. -/
theorem Uberblock.of_bytes_slice (data : Bytes) {off len len' : Nat} (h : 168 ≤ len) (h' : 168 ≤ len') :
    Uberblock.of_bytes (slice data off len) = Uberblock.of_bytes (slice data off len') := by
  simp only [Uberblock.of_bytes]
  rw [slice_slice data (by omega : 40 + 128 ≤ len), slice_slice data (by omega : 40 + 128 ≤ len')]
  simp only [qword_slice data (by omega : 8 * 0 + 8 ≤ len), qword_slice data (by omega : 8 * 1 + 8 ≤ len),
    qword_slice data (by omega : 8 * 2 + 8 ≤ len), qword_slice data (by omega : 8 * 3 + 8 ≤ len),
    qword_slice data (by omega : 8 * 4 + 8 ≤ len), qword_slice data (by omega : 8 * 0 + 8 ≤ len'),
    qword_slice data (by omega : 8 * 1 + 8 ≤ len'), qword_slice data (by omega : 8 * 2 + 8 ≤ len'),
    qword_slice data (by omega : 8 * 3 + 8 ≤ len'), qword_slice data (by omega : 8 * 4 + 8 ≤ len')]

/-- Whatever the ring holds, it is cut into whole blocks. -/
theorem UBArray.parse_eq (data : Bytes) (ashift : Nat) :
    UBArray.parse data ashift = .ok ((List.range (data.length >>> ublock_shift ashift)).map fun i =>
      Uberblock.of_bytes (slice data (i * (1 <<< ublock_shift ashift)) (1 <<< ublock_shift ashift))) := by
  rw [UBArray.parse, mapM_eq_ok_iff, List.forall₂_map_right_iff, List.forall₂_same]
  intro i hi
  have hblock : 2 ^ 10 ≤ 1 <<< ublock_shift ashift := by
    rw [Nat.one_shiftLeft]
    exact Nat.pow_le_pow_right (by omega) (Nat.le_max_right _ _)
  have hroom : i * (1 <<< ublock_shift ashift) + 1 <<< ublock_shift ashift ≤ data.length := by
    rw [List.mem_range, Nat.shiftRight_eq_div_pow] at hi
    rw [Nat.one_shiftLeft, ← Nat.succ_mul]
    exact (Nat.le_div_iff_mul_le (Nat.two_pow_pos _)).mp hi
  apply Uberblock.parse_of_le
  rw [length_slice_of_le hroom]
  omega

theorem UBArray.find_block_by_txg_eq_some {blocks : List Uberblock} {txg : Nat} {b : Uberblock}
    (h : UBArray.find_block_by_txg blocks txg = some b) : b ∈ blocks ∧ b.valid = true ∧ b.txg = txg := by
  have hfound := List.find?_some h
  simp only [Bool.and_eq_true, beq_iff_eq] at hfound
  exact ⟨List.mem_of_find?_eq_some h, hfound⟩

theorem UBArray.exists_find_block_by_txg {blocks : List Uberblock} {b : Uberblock} (hmem : b ∈ blocks)
    (hvalid : b.valid = true) : ∃ found, UBArray.find_block_by_txg blocks b.txg = some found := by
  rw [← Option.isSome_iff_exists, UBArray.find_block_by_txg, List.find?_isSome]
  exact ⟨b, hmem, by simp [hvalid]⟩

end zfs_rescue.uberblock
