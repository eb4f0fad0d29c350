import ZfsRescue.Blocktree

open bytes
open zfs_rescue.blockptr zfs_rescue.zio zfs_rescue.dnode

namespace zfs_rescue.blocktree

/-- The words of a pointer to an uncompressed block of `4 * (n + 1)` block
    pointers without a checksum, at the start of the device. -/
def uniform_words (n : Nat) : List Nat :=
  [1, 0, 0, 0, 0, 0, n + n * 2 ^ 16 + 2 * 2 ^ 32, 0, 0, 0, 0, 0, 0, 0, 0, 0]

def uniform_pointer (n : Nat) : BlockPtr := BlockPtr.of_bytes (encode_words (uniform_words n))

/-- A block that holds nothing but that pointer. -/
def uniform_block (n : Nat) : Bytes :=
  (List.replicate (4 * (n + 1)) (uniform_words n)).flatMap encode_words

/-- A device with such a block wherever one reads it. -/
def uniform_device (n : Nat) : GenericDevice where
  ashift := 9
  read_physical _ _ := .ok (some (uniform_block n))
  zlib_decompress := .ok

/-- A pointer of zeros. -/
def hole : BlockPtr := BlockPtr.of_bytes (encode_words (List.replicate 16 0))

@[simp] theorem length_uniform_block (n : Nat) : (uniform_block n).length = 512 * (n + 1) := by
  rw [uniform_block, length_flatMap_of_length (k := 128), List.length_replicate]
  · omega
  · intro words hwords
    rw [List.eq_of_mem_replicate hwords, length_encode_words]
    rfl

theorem BlockPtrArray_uniform_block (n : Nat) :
    BlockPtrArray (uniform_block n) = List.replicate (4 * (n + 1)) (uniform_pointer n) := by
  rw [uniform_block, BlockPtrArray_flatMap, List.map_replicate, uniform_pointer]
  intro words hwords
  rw [List.eq_of_mem_replicate hwords, length_encode_words]
  rfl

private theorem qword_uniform {n : Nat} (hn : n < 2 ^ 16) (i : Nat) (hi : i < 16) :
    qword (encode_words (uniform_words n)) i = (uniform_words n).getD i 0 := by
  rw [List.getD_eq_getElem _ _ (show i < (uniform_words n).length from hi)]
  apply qword_encode_words
  have hall : ∀ word ∈ uniform_words n, word < 2 ^ 64 := by
    intro word hword
    simp only [uniform_words, List.mem_cons, List.not_mem_nil, or_false] at hword
    omega
  exact hall _ (List.getElem_mem _)

/-- The fields of that pointer. -/
theorem uniform_pointer_eq {n : Nat} (hn : n < 2 ^ 16) :
    uniform_pointer n =
      { dva0 := DVA.init 1 0, dva1 := DVA.init 0 0, dva2 := DVA.init 0 0, lsize := 512 * (n + 1),
        psize := 512 * (n + 1), comp := 2, embeded := false, cksum := 0, type := 0, lvl := 0, encrypted := 0, E := 0,
        birth_txg := 0, fill_count := 0, checksum := (0, 0, 0, 0) } := by
  have hwords := qword_uniform hn
  have hprop : qword (encode_words (uniform_words n)) 6 = n + n * 2 ^ 16 + 2 * 2 ^ 32 := hwords 6 (by omega)
  have hlsize : (n + n * 2 ^ 16 + 2 * 2 ^ 32) &&& 0xffff = n := by
    rw [Nat.and_two_pow_sub_one_eq_mod _ 16]
    omega
  have hpsize : ((n + n * 2 ^ 16 + 2 * 2 ^ 32) >>> 16) &&& 0xffff = n := by
    have hshift : (n + n * 2 ^ 16 + 2 * 2 ^ 32) / 2 ^ 16 = n + 2 * 2 ^ 16 := by omega
    rw [Nat.and_two_pow_sub_one_eq_mod _ 16, Nat.shiftRight_eq_div_pow, hshift]
    omega
  have hcomp : (n + n * 2 ^ 16 + 2 * 2 ^ 32) >>> 32 = 2 := by
    rw [Nat.shiftRight_eq_div_pow]
    omega
  have hhigh : ∀ k, 34 ≤ k → (n + n * 2 ^ 16 + 2 * 2 ^ 32) >>> k = 0 := by
    intro k hk
    have hpow : 2 ^ 34 ≤ 2 ^ k := Nat.pow_le_pow_right (by omega) hk
    rw [Nat.shiftRight_eq_div_pow]
    exact Nat.div_eq_of_lt (by omega)
  rw [uniform_pointer, BlockPtr.of_bytes]
  simp only [BlockPtr.parse_plain, hprop, hlsize, hpsize, hcomp, hhigh 39 (by omega), hhigh 40 (by omega),
    hhigh 48 (by omega), hhigh 56 (by omega), hhigh 61 (by omega), hhigh 63 (by omega), hwords 0 (by omega),
    hwords 1 (by omega), hwords 2 (by omega), hwords 3 (by omega), hwords 4 (by omega), hwords 5 (by omega),
    hwords 10 (by omega), hwords 11 (by omega), hwords 12 (by omega), hwords 13 (by omega), hwords 14 (by omega),
    hwords 15 (by omega), Nat.shiftLeft_eq]
  simp [uniform_words]
  omega

theorem logical_size_uniform {n : Nat} (hn : n < 2 ^ 16) : logical_size (uniform_pointer n) = 512 * (n + 1) := by
  rw [uniform_pointer_eq hn]
  rfl

theorem read_block_uniform {n : Nat} (hn : n < 2 ^ 16) :
    (uniform_device n).read_block (uniform_pointer n) 0 = .ok (some (uniform_block n), true) := by
  have hstored : (uniform_device n).read_stored (uniform_pointer n) 0 = .ok (some (uniform_block n), true) := by
    rw [uniform_pointer_eq hn]
    rfl
  have hsize := logical_size_uniform hn
  have hplain : (uniform_pointer n).compressed = false := by
    rw [uniform_pointer_eq hn]
    rfl
  have hempty : (uniform_pointer n).empty = false := by
    rw [uniform_pointer_eq hn]
    rfl
  have hgang : ((uniform_pointer n).get_dva 0).gang = false := by
    rw [uniform_pointer_eq hn]
    rfl
  have hpsize : (uniform_pointer n).psize = 512 * (n + 1) := by
    rw [uniform_pointer_eq hn]
  rw [GenericDevice.read_block_of_stored hempty hgang (by omega) hstored, GenericDevice.expand, hsize,
    if_neg (by simp [hplain])]
  rw [fit_of_length_eq (length_uniform_block n)]

/-- Every indirect block of the uniform device is the uniform block. -/
theorem load_indirect_uniform {n : Nat} (hn : n < 2 ^ 16) :
    load_indirect (uniform_device n) (uniform_pointer n) =
      .ok (some (List.replicate (4 * (n + 1)) (uniform_pointer n))) := by
  have hne : uniform_block n ≠ [] := by
    intro h
    have hlength := length_uniform_block n
    rw [h, List.length_nil] at hlength
    omega
  rw [load_indirect, read_copies_first (read_block_uniform hn) (data_and_c_iff.mpr ⟨_, rfl, hne⟩), bind_ok]
  simp only [copies_data, Option.bind_some, Option.map_some, BlockPtrArray_uniform_block]

theorem hole_empty : hole.empty = true := by decide

end zfs_rescue.blocktree
