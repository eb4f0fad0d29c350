import ZfsRescue.Python

open bytes

namespace zfs_rescue.blockptr

/-- A data virtual address: where one copy of a block lies. -/
structure DVA where
  asize_r : Nat
  asize : Nat
  grid : Nat
  vdev : Nat
  offset : Nat
  gang : Bool
  deriving DecidableEq, Repr

def DVA.init (qword0 qword1 : Nat) : DVA where
  asize_r := (qword0 &&& 0xffffff) <<< 9
  asize := (qword0 &&& 0xffffff) <<< 9
  grid := (qword0 >>> 24) &&& 0xff
  vdev := qword0 >>> 32
  offset := (qword1 &&& 0x7fffffffffffffff) <<< 9
  gang := (qword1 &&& (1 <<< 63)) != 0

def DVA.null (self : DVA) : Bool := self.vdev == 0 && self.offset == 0 && self.asize_r == 0

/-- A block pointer. The last three fields exist in the source only when
    `embeded` is set, and are read only then. -/
structure BlockPtr where
  dva0 : DVA
  dva1 : DVA
  dva2 : DVA
  lsize : Nat
  psize : Nat
  comp : Nat
  embeded : Bool
  cksum : Nat
  type : Nat
  lvl : Nat
  encrypted : Nat
  E : Nat
  birth_txg : Nat
  fill_count : Nat
  checksum : Nat × Nat × Nat × Nat
  embeded_lsize : Nat := 0
  embeded_data : Bytes := []
  etype : Nat := 0
  deriving DecidableEq, Repr

/-- The `i`-th of the sixteen 64-bit words of a block pointer. -/
def qword (data : Bytes) (i : Nat) : Nat := readLE (slice data (8 * i) 8)

/-- The fields that every 128-byte block pointer sets. -/
def BlockPtr.parse_plain (data : Bytes) : BlockPtr where
  dva0 := DVA.init (qword data 0) (qword data 1)
  dva1 := DVA.init (qword data 2) (qword data 3)
  dva2 := DVA.init (qword data 4) (qword data 5)
  lsize := (1 + (qword data 6 &&& 0xffff)) <<< 9
  psize := (1 + ((qword data 6 >>> 16) &&& 0xffff)) <<< 9
  comp := (qword data 6 >>> 32) &&& 0x7f
  embeded := (qword data 6 >>> 39) &&& 0x1 != 0
  cksum := (qword data 6 >>> 40) &&& 0xff
  type := (qword data 6 >>> 48) &&& 0xff
  lvl := (qword data 6 >>> 56) &&& 0x7f
  encrypted := (qword data 6 >>> 61) &&& 0x1
  E := qword data 6 >>> 63
  birth_txg := qword data 10
  fill_count := qword data 11
  checksum := (qword data 12, qword data 13, qword data 14, qword data 15)

/-- What `parse` overwrites when the embedded bit is set. -/
def BlockPtr.parse_embeded (self : BlockPtr) (data : Bytes) : BlockPtr :=
  { self with
    dva0 := DVA.init 0 0
    dva1 := DVA.init 0 0
    dva2 := DVA.init 0 0
    embeded_lsize := qword data 6 &&& 0x1ffffff
    embeded_data := slice data 0 (6 * 8) ++ slice data (7 * 8) (3 * 8) ++ slice data (11 * 8) (5 * 8)
    etype := (qword data 6 >>> 40) &&& 0xff
    psize := (qword data 6 >>> 25) &&& 0x7f
    lsize := qword data 6 &&& 0x1ffffff }

/-- `parse` on data of the right length. -/
def BlockPtr.of_bytes (data : Bytes) : BlockPtr :=
  if (BlockPtr.parse_plain data).embeded then (BlockPtr.parse_plain data).parse_embeded data
  else BlockPtr.parse_plain data

def BlockPtr.parse (data : Bytes) : Py BlockPtr :=
  if data.length = 128 then .ok (BlockPtr.of_bytes data) else .error .StructError

def BlockPtr.get_dva (self : BlockPtr) : Nat → DVA
  | 0 => self.dva0
  | 1 => self.dva1
  | 2 => self.dva2
  | _ => self.dva0

def BlockPtr.compressed (self : BlockPtr) : Bool := self.comp != 2

def BlockPtr.empty (self : BlockPtr) : Bool :=
  self.dva0.null && self.dva1.null && self.dva2.null && !self.embeded

/-- `BlockPtrArray(data)`: one pointer for each whole 128 bytes. -/
def BlockPtrArray (data : Bytes) : List BlockPtr :=
  (List.range (data.length / 128)).map fun i => BlockPtr.of_bytes (slice data (i * 128) 128)

@[simp] theorem length_BlockPtrArray (data : Bytes) : (BlockPtrArray data).length = data.length / 128 := by
  simp [BlockPtrArray]

/-- The bytes of 64-bit words. -/
def encode_words (words : List Nat) : Bytes := words.flatMap (writeLE 8)

@[simp] theorem length_encode_words (words : List Nat) : (encode_words words).length = words.length * 8 :=
  length_flatMap_of_length fun word _ => length_writeLE 8 word

/-- Words read back as they were written. -/
theorem qword_encode_words {words : List Nat} {i : Nat} (hi : i < words.length) (hlt : words[i] < 2 ^ 64) :
    qword (encode_words words) i = words[i] := by
  rw [qword, encode_words, Nat.mul_comm, slice_flatMap (fun word _ => length_writeLE 8 word) hi,
    readLE_writeLE (by omega)]

/-- Block pointers written one after the other are the array of them. -/
theorem BlockPtrArray_flatMap {α : Type} {f : α → Bytes} {xs : List α} (hf : ∀ x ∈ xs, (f x).length = 128) :
    BlockPtrArray (xs.flatMap f) = xs.map fun x => BlockPtr.of_bytes (f x) := by
  rw [BlockPtrArray, length_flatMap_of_length hf, Nat.mul_div_cancel _ (by omega)]
  apply List.ext_getElem (by simp)
  intro i hi _
  have hlt : i < xs.length := by simpa using hi
  simp [slice_flatMap hf hlt]

/-- The running sums of `fletcher4` after one more word. -/
def fletcher4_step (sums : Nat × Nat × Nat × Nat) (v : Nat) : Nat × Nat × Nat × Nat :=
  let a := sums.1 + v
  let b := sums.2.1 + a
  let c := sums.2.2.1 + b
  let d := sums.2.2.2 + c
  (a, b, c, d)

/-- The little-endian 32-bit words of the data, in order. -/
def words32 (data : Bytes) : List Nat :=
  (List.range (data.length / 4)).map fun i => readLE (slice data (i * 4) 4)

/-- The masked sums of data whose length is a multiple of four. -/
def fletcher4_sums (data : Bytes) : Nat × Nat × Nat × Nat :=
  let sums := (words32 data).foldl fletcher4_step (0, 0, 0, 0)
  (sums.1 &&& 0xffffffffffffffff, sums.2.1 &&& 0xffffffffffffffff,
    sums.2.2.1 &&& 0xffffffffffffffff, sums.2.2.2 &&& 0xffffffffffffffff)

/-- `fletcher4(data)`. The padding of an unaligned tail adds a list to a byte
    string, which Python refuses. -/
def fletcher4 (data : Bytes) : Py (Nat × Nat × Nat × Nat) :=
  let e := (4 - data.length % 4) % 4
  if e > 0 then .error .TypeError else .ok (fletcher4_sums data)

theorem fletcher4_of_dvd {data : Bytes} (h : 4 ∣ data.length) : fletcher4 data = .ok (fletcher4_sums data) := by
  have hmod : (4 - data.length % 4) % 4 = 0 := by omega
  simp [fletcher4, hmod]

private theorem foldl_fletcher4_step (words : List Nat) (sums : Nat × Nat × Nat × Nat) :
    (words.foldl fletcher4_step sums).1 = sums.1 + words.sum := by
  induction words generalizing sums with
  | nil => rfl
  | cons v words ih =>
    rw [List.foldl_cons, ih, List.sum_cons, fletcher4_step]
    omega

/-- The first sum is the sum of the words. -/
theorem fletcher4_sums_fst (data : Bytes) : (fletcher4_sums data).1 = (words32 data).sum % 2 ^ 64 := by
  rw [fletcher4_sums]
  simp only
  rw [foldl_fletcher4_step, Nat.zero_add]
  exact Nat.and_two_pow_sub_one_eq_mod _ 64

/-- Data of one repeated byte is one repeated word. -/
theorem words32_replicate (n : Nat) (b : UInt8) :
    words32 (List.replicate (n * 4) b) = List.replicate n (readLE (List.replicate 4 b)) := by
  have hword : ∀ i, i < n → slice (List.replicate (n * 4) b) (i * 4) 4 = List.replicate 4 b := by
    intro i hi
    rw [slice, List.drop_replicate, List.take_replicate, Nat.min_eq_left (by omega)]
  rw [words32, List.length_replicate, Nat.mul_div_cancel _ (by omega)]
  apply List.ext_getElem (by simp)
  intro i hi _
  simp only [List.length_map, List.length_range] at hi
  simp [hword i hi]

theorem BlockPtr.parse_eq_ok_iff {data : Bytes} {bptr : BlockPtr} :
    BlockPtr.parse data = .ok bptr ↔ data.length = 128 ∧ bptr = BlockPtr.of_bytes data := by
  unfold BlockPtr.parse
  split <;> simp_all [eq_comm]

end zfs_rescue.blockptr
