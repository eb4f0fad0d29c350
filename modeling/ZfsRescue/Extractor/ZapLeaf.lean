import ZfsRescue.Bytes.Words
import ZfsRescue.Bytes.Zero
import ZfsRescue.Linked

open bytes linked

namespace zfs_rescue.extractor.zap_leaf

def ZBT_LEAF : Nat := (1 <<< 63) + 0

def FZAP_BLOCK_SHIFT : Nat := 14

def ZAP_LEAF_CHUNKSIZE : Nat := 24
def ZAP_LEAF_ARRAY_BYTES : Nat := ZAP_LEAF_CHUNKSIZE - 3
def ZAP_LEAF_HASH_NUMENTRIES : Nat := 1 <<< (FZAP_BLOCK_SHIFT - 5)
def ZAP_LEAF_NUMCHUNKS : Nat := ((1 <<< FZAP_BLOCK_SHIFT) - 2 * ZAP_LEAF_HASH_NUMENTRIES) / ZAP_LEAF_CHUNKSIZE - 2

def ZAP_CHUNK_ENTRY : Nat := 252
def ZAP_CHUNK_ARRAY : Nat := 251

def CHAIN_END : Nat := 0xffff

/-- The hash table behind the header, which takes up two chunks. -/
def l_hash (leaf : Bytes) : List Nat :=
  (List.range ZAP_LEAF_HASH_NUMENTRIES).map fun i => readLE (slice leaf (2 * ZAP_LEAF_CHUNKSIZE + 2 * i) 2)

def ZAP_LEAF_CHUNK (leaf : Bytes) (idx : Nat) : Bytes :=
  slice leaf (2 * ZAP_LEAF_CHUNKSIZE + 2 * ZAP_LEAF_HASH_NUMENTRIES + idx * ZAP_LEAF_CHUNKSIZE) ZAP_LEAF_CHUNKSIZE

section Fields

variable (leaf : Bytes) (idx : Nat)

def le_type : Nat := ((ZAP_LEAF_CHUNK leaf idx).getD 0 0).toNat
def le_value_intlen : Nat := readLE (slice (ZAP_LEAF_CHUNK leaf idx) 1 1)
def le_next : Nat := readLE (slice (ZAP_LEAF_CHUNK leaf idx) 2 2)
def le_name_chunk : Nat := readLE (slice (ZAP_LEAF_CHUNK leaf idx) 4 2)
def le_name_numints : Nat := readLE (slice (ZAP_LEAF_CHUNK leaf idx) 6 2)
def le_value_chunk : Nat := readLE (slice (ZAP_LEAF_CHUNK leaf idx) 8 2)
def le_value_numints : Nat := readLE (slice (ZAP_LEAF_CHUNK leaf idx) 10 2)

def la_type : Nat := le_type leaf idx
def la_array : Bytes := slice (ZAP_LEAF_CHUNK leaf idx) 1 ZAP_LEAF_ARRAY_BYTES
def la_next : Nat := readLE (slice (ZAP_LEAF_CHUNK leaf idx) (1 + ZAP_LEAF_ARRAY_BYTES) 2)

/-- The chunk that an array goes on in. -/
def array_next : Option Nat := if la_next leaf idx = CHAIN_END then none else some (la_next leaf idx)

/-- The chunk that a hash chain goes on in. Only an entry has one. -/
def entry_next : Option Nat :=
  if le_type leaf idx = ZAP_CHUNK_ENTRY ∧ le_next leaf idx ≠ CHAIN_END then some (le_next leaf idx) else none

end Fields

/-- The chunks of an array, from the first one on. -/
structure ArrayChain (leaf : Bytes) (first : Nat) (chunks : List Nat) : Prop where
  path : Path (array_next leaf) first chunks
  inside : ∀ idx ∈ chunks, idx < ZAP_LEAF_NUMCHUNKS
  array : ∀ idx ∈ chunks, la_type leaf idx = ZAP_CHUNK_ARRAY

/-- The bytes of an array, with the unused ones of its last chunk. -/
def HoldsArray (leaf : Bytes) (first : Nat) (content : Bytes) : Prop :=
  ∃ chunks, ArrayChain leaf first chunks ∧ content = chunks.flatMap (la_array leaf)

/-- A name, and the integers stored under it with their size in bytes. -/
structure Attribute where
  name : Bytes
  intlen : Nat
  ints : List Nat
  deriving DecidableEq, Repr

/-- The integers as they are stored. -/
def Attribute.value (a : Attribute) : Bytes := a.ints.flatMap (writeBE a.intlen)

/-- The entry chunk of an attribute. Its name is followed by a zero byte. -/
structure Stores (leaf : Bytes) (idx : Nat) (a : Attribute) : Prop where
  entry : le_type leaf idx = ZAP_CHUNK_ENTRY
  intlen : le_value_intlen leaf idx = a.intlen
  name_numints : le_name_numints leaf idx = a.name.length + 1
  value_numints : le_value_numints leaf idx = a.ints.length
  name : ∃ content, HoldsArray leaf (le_name_chunk leaf idx) content ∧ a.name ++ [0] <+: content
  value : ∃ content, HoldsArray leaf (le_value_chunk leaf idx) content ∧ a.value <+: content

/-- The hash chain that starts in a chunk holds the attributes in this order. -/
def Chain (leaf : Bytes) (first : Nat) (attrs : List Attribute) : Prop :=
  ∃ path, Path (entry_next leaf) first path ∧ (∀ idx ∈ path, idx < ZAP_LEAF_NUMCHUNKS) ∧
    List.Forall₂ (Stores leaf) path attrs

def Bucket (leaf : Bytes) (first : Nat) (attrs : List Attribute) : Prop :=
  if first = CHAIN_END then attrs = [] else Chain leaf first attrs

/-- A leaf block, and the attributes of its buckets one after the other. -/
structure Leaf (leaf : Bytes) (attrs : List Attribute) : Prop where
  length : leaf.length = 1 <<< FZAP_BLOCK_SHIFT
  block_type : readLE (slice leaf 0 8) = ZBT_LEAF
  buckets : ∃ buckets, List.Forall₂ (Bucket leaf) (l_hash leaf) buckets ∧ attrs = buckets.flatten

theorem ArrayChain.unique {leaf : Bytes} {first : Nat} {chunks other : List Nat} (h : ArrayChain leaf first chunks)
    (h' : ArrayChain leaf first other) : chunks = other :=
  h.path.unique h'.path

theorem HoldsArray.unique {leaf : Bytes} {first : Nat} {content other : Bytes} (h : HoldsArray leaf first content)
    (h' : HoldsArray leaf first other) : content = other := by
  obtain ⟨chunks, hchunks, rfl⟩ := h
  obtain ⟨others, hothers, rfl⟩ := h'
  rw [hchunks.unique hothers]

/-- Arrays and entries take their chunks from the same supply. -/
theorem ArrayChain.length_add_le {leaf : Bytes} {first : Nat} {chunks entries : List Nat}
    (h : ArrayChain leaf first chunks) (hnodup : entries.Nodup) (hinside : ∀ idx ∈ entries, idx < ZAP_LEAF_NUMCHUNKS)
    (hentry : ∀ idx ∈ entries, le_type leaf idx = ZAP_CHUNK_ENTRY) :
    entries.length + chunks.length ≤ ZAP_LEAF_NUMCHUNKS := by
  have hdisjoint : entries.Disjoint chunks := by
    intro idx hentries hchunks
    have htype := h.array idx hchunks
    rw [la_type, hentry idx hentries] at htype
    cases htype
  rw [← List.length_append]
  apply length_le_of_nodup (List.Nodup.append hnodup h.path.nodup hdisjoint)
  intro idx hidx
  rcases List.mem_append.mp hidx with hidx | hidx
  · exact hinside idx hidx
  · exact h.inside idx hidx

/-- An array that does not go on is in its first chunk. -/
theorem holdsArray_of_last {leaf content : Bytes} {idx : Nat} (hidx : idx < ZAP_LEAF_NUMCHUNKS)
    (harray : la_type leaf idx = ZAP_CHUNK_ARRAY) (hnext : array_next leaf idx = none)
    (hcontent : content <+: la_array leaf idx) : ∃ whole, HoldsArray leaf idx whole ∧ content <+: whole := by
  refine ⟨_, ⟨[idx], ⟨.last hnext, by simpa using hidx, by simpa using harray⟩, rfl⟩, ?_⟩
  rw [List.flatMap_singleton]
  exact hcontent

theorem buckets_free {leaf : Bytes} (n : Nat) :
    List.Forall₂ (Bucket leaf) (List.replicate n CHAIN_END) (List.replicate n []) := by
  induction n with
  | zero => exact .nil
  | succ n ih =>
    rw [List.replicate_succ, List.replicate_succ]
    exact .cons (by rw [Bucket, if_pos rfl]) ih

/-- A leaf block, put together from its hash table and its chunks. -/
def leaf_block (hash : List Nat) (chunks : List Bytes) : Bytes :=
  writeLE 8 ZBT_LEAF ++ List.replicate 40 0 ++ hash.flatMap (writeLE 2) ++ chunks.flatMap id

section LeafBlock

variable {hash : List Nat} {chunks : List Bytes}

theorem length_leaf_block (hhash : hash.length = ZAP_LEAF_HASH_NUMENTRIES) (hchunks : chunks.length = ZAP_LEAF_NUMCHUNKS)
    (hsize : ∀ chunk ∈ chunks, chunk.length = ZAP_LEAF_CHUNKSIZE) :
    (leaf_block hash chunks).length = 1 <<< FZAP_BLOCK_SHIFT := by
  rw [leaf_block, List.length_append, List.length_append, List.length_append, length_writeLE, List.length_replicate,
    length_flatMap_of_length fun c _ => length_writeLE 2 c, length_flatMap_of_length (f := id) hsize, hhash, hchunks]
  rfl

theorem block_type_leaf_block : readLE (slice (leaf_block hash chunks) 0 8) = ZBT_LEAF := by
  have hfirst : slice (leaf_block hash chunks) 0 8 = writeLE 8 ZBT_LEAF := by
    rw [leaf_block, List.append_assoc, List.append_assoc, slice_append_of_le (by simp)]
    exact slice_self _
  rw [hfirst, readLE_writeLE (by decide)]

theorem l_hash_leaf_block (hhash : hash.length = ZAP_LEAF_HASH_NUMENTRIES) (hfits : ∀ c ∈ hash, c < 2 ^ 16) :
    l_hash (leaf_block hash chunks) = hash := by
  apply List.ext_getElem
  · rw [l_hash, List.length_map, List.length_range, hhash]
  · intro i _ hi
    have hslice : slice (leaf_block hash chunks) (2 * ZAP_LEAF_CHUNKSIZE + 2 * i) 2 = writeLE 2 hash[i] := by
      have hheader : (writeLE 8 ZBT_LEAF ++ List.replicate 40 (0 : UInt8)).length = 2 * ZAP_LEAF_CHUNKSIZE := by simp; rfl
      have hlength : (hash.flatMap (writeLE 2)).length = hash.length * 2 :=
        length_flatMap_of_length fun c _ => length_writeLE 2 c
      rw [leaf_block, List.append_assoc (_ ++ _), ← hheader, slice_append_right, slice_append_of_le (by omega),
        Nat.mul_comm, slice_flatMap (fun c _ => length_writeLE 2 c) hi]
    simp only [l_hash, List.getElem_map, List.getElem_range, hslice]
    exact readLE_writeLE (hfits _ (List.getElem_mem hi))

theorem chunk_leaf_block (hhash : hash.length = ZAP_LEAF_HASH_NUMENTRIES)
    (hsize : ∀ chunk ∈ chunks, chunk.length = ZAP_LEAF_CHUNKSIZE) {i : Nat} (hi : i < chunks.length) :
    ZAP_LEAF_CHUNK (leaf_block hash chunks) i = chunks[i] := by
  have hheader : (writeLE 8 ZBT_LEAF ++ List.replicate 40 (0 : UInt8) ++ hash.flatMap (writeLE 2)).length =
      2 * ZAP_LEAF_CHUNKSIZE + 2 * ZAP_LEAF_HASH_NUMENTRIES := by
    rw [List.length_append, List.length_append, length_writeLE, List.length_replicate,
      length_flatMap_of_length fun c _ => length_writeLE 2 c, hhash]
    rfl
  rw [ZAP_LEAF_CHUNK, leaf_block, ← hheader, slice_append_right]
  exact slice_flatMap (f := id) hsize hi

end LeafBlock

/-- An attribute whose name and value each fit in one chunk. -/
structure Attribute.Small (a : Attribute) : Prop where
  name : a.name.length < ZAP_LEAF_ARRAY_BYTES
  value : a.value.length ≤ ZAP_LEAF_ARRAY_BYTES
  intlen : a.intlen < 256
  ints : a.ints.length < 2 ^ 16

/-- An entry chunk that ends its hash chain, with its name in the next chunk and
    its value in the one after it. -/
def entry_chunk (idx : Nat) (a : Attribute) : Bytes :=
  [252, UInt8.ofNat a.intlen] ++ writeLE 2 CHAIN_END ++ writeLE 2 (idx + 1) ++ writeLE 2 (a.name.length + 1) ++
    writeLE 2 (idx + 2) ++ writeLE 2 a.ints.length ++ List.replicate 12 0

/-- An array in one chunk. -/
def array_chunk (content : Bytes) : Bytes := [251] ++ fit ZAP_LEAF_ARRAY_BYTES content ++ writeLE 2 CHAIN_END

def attribute_chunks (e : Attribute × Nat) : List Bytes :=
  [entry_chunk (e.2 * 3) e.1, array_chunk (e.1.name ++ [0]), array_chunk e.1.value]

/-- The chunks of some small attributes, and free ones behind them. -/
def small_chunks (attrs : List Attribute) : List Bytes :=
  attrs.zipIdx.flatMap attribute_chunks ++
    List.replicate (ZAP_LEAF_NUMCHUNKS - attrs.length * 3) (List.replicate ZAP_LEAF_CHUNKSIZE 0)

/-- Every attribute has a bucket of its own. -/
def small_hash (attrs : List Attribute) : List Nat :=
  (List.range attrs.length).map (· * 3) ++ List.replicate (ZAP_LEAF_HASH_NUMENTRIES - attrs.length) CHAIN_END

/-- A leaf with some small attributes. -/
def small_leaf (attrs : List Attribute) : Bytes := leaf_block (small_hash attrs) (small_chunks attrs)

section SmallLeaf

variable {attrs : List Attribute}

theorem length_array_chunk (content : Bytes) : (array_chunk content).length = ZAP_LEAF_CHUNKSIZE := by
  rw [array_chunk, List.length_append, List.length_append, length_fit]
  rfl

theorem length_attributes (attrs : List Attribute) : (attrs.zipIdx.flatMap attribute_chunks).length = attrs.length * 3 := by
  rw [length_flatMap_of_length (k := 3) fun e _ => rfl, List.length_zipIdx]

theorem length_small_chunks (hroom : attrs.length * 3 ≤ ZAP_LEAF_NUMCHUNKS) :
    (small_chunks attrs).length = ZAP_LEAF_NUMCHUNKS := by
  rw [small_chunks, List.length_append, length_attributes, List.length_replicate, Nat.add_sub_cancel' hroom]

theorem size_small_chunks : ∀ chunk ∈ small_chunks attrs, chunk.length = ZAP_LEAF_CHUNKSIZE := by
  intro chunk hchunk
  rw [small_chunks] at hchunk
  rcases List.mem_append.mp hchunk with hattr | hfree
  · obtain ⟨e, _, he⟩ := List.mem_flatMap.mp hattr
    simp only [attribute_chunks, List.mem_cons, List.not_mem_nil, or_false] at he
    rcases he with rfl | rfl | rfl
    · rfl
    · exact length_array_chunk _
    · exact length_array_chunk _
  · rw [List.eq_of_mem_replicate hfree, List.length_replicate]

theorem length_small_hash (hroom : attrs.length * 3 ≤ ZAP_LEAF_NUMCHUNKS) :
    (small_hash attrs).length = ZAP_LEAF_HASH_NUMENTRIES := by
  have hcount : attrs.length * 3 ≤ 638 := hroom
  rw [small_hash, List.length_append, List.length_map, List.length_range, List.length_replicate]
  change attrs.length + (512 - attrs.length) = 512
  omega

/-- The three chunks of an attribute are where its entry says. -/
theorem chunk_small_leaf (hroom : attrs.length * 3 ≤ ZAP_LEAF_NUMCHUNKS) {i r : Nat} (hi : i < attrs.length) (hr : r < 3) :
    ZAP_LEAF_CHUNK (small_leaf attrs) (i * 3 + r) = (attribute_chunks (attrs[i], i)).getD r [] := by
  have hlength := length_attributes attrs
  have hinside : i * 3 + r < (small_chunks attrs).length := by
    rw [length_small_chunks hroom]
    omega
  have hthree : slice (small_chunks attrs) (i * 3) 3 = attribute_chunks (attrs[i], i) := by
    rw [small_chunks, slice_append_of_le (by omega), slice_flatMap (k := 3) (fun e _ => rfl) (by simpa using hi)]
    simp
  have hget : (small_chunks attrs).getD (i * 3 + r) [] = (attribute_chunks (attrs[i], i)).getD r [] := by
    rw [← hthree, getD_slice _ _ _ _ _ hr]
  rw [small_leaf, chunk_leaf_block (length_small_hash hroom) size_small_chunks hinside, ← hget,
    List.getD_eq_getElem _ _ hinside]

theorem holdsArray_small_leaf {content : Bytes} (hcontent : content.length ≤ ZAP_LEAF_ARRAY_BYTES) {i : Nat}
    (hi : i < ZAP_LEAF_NUMCHUNKS) (hchunk : ZAP_LEAF_CHUNK (small_leaf attrs) i = array_chunk content) :
    ∃ whole, HoldsArray (small_leaf attrs) i whole ∧ content <+: whole := by
  have hnext : la_next (small_leaf attrs) i = CHAIN_END := by
    have hslice : slice (array_chunk content) (1 + ZAP_LEAF_ARRAY_BYTES) 2 = writeLE 2 CHAIN_END := by
      have hlength : ([251] ++ fit ZAP_LEAF_ARRAY_BYTES content).length = 1 + ZAP_LEAF_ARRAY_BYTES := by
        rw [List.length_append, length_fit]
        rfl
      rw [array_chunk, ← hlength, ← Nat.add_zero (List.length _), slice_append_right]
      rfl
    rw [la_next, hchunk, hslice, readLE_writeLE (by decide)]
  have harray : la_array (small_leaf attrs) i = fit ZAP_LEAF_ARRAY_BYTES content := by
    have hmiddle := slice_middle [251] (fit ZAP_LEAF_ARRAY_BYTES content) (writeLE 2 CHAIN_END)
    rw [length_fit] at hmiddle
    rw [la_array, hchunk]
    exact hmiddle
  have htype : la_type (small_leaf attrs) i = ZAP_CHUNK_ARRAY := by
    rw [la_type, le_type, hchunk]
    rfl
  refine holdsArray_of_last hi htype (if_pos hnext) ?_
  rw [harray, fit_of_le hcontent]
  exact List.prefix_append _ _

/-- The entry of a small attribute stores it. -/
theorem stores_small_leaf (hroom : attrs.length * 3 ≤ ZAP_LEAF_NUMCHUNKS) {i : Nat} (hi : i < attrs.length)
    (hsmall : attrs[i].Small) : Stores (small_leaf attrs) (i * 3) attrs[i] := by
  have hcount : attrs.length * 3 ≤ 638 := hroom
  have hlimit : attrs[i].name.length < 21 := hsmall.name
  have hentry : ZAP_LEAF_CHUNK (small_leaf attrs) (i * 3) = entry_chunk (i * 3) attrs[i] :=
    chunk_small_leaf hroom hi (r := 0) (by omega)
  have hname_chunk : ZAP_LEAF_CHUNK (small_leaf attrs) (i * 3 + 1) = array_chunk (attrs[i].name ++ [0]) :=
    chunk_small_leaf hroom hi (r := 1) (by omega)
  have hvalue_chunk : ZAP_LEAF_CHUNK (small_leaf attrs) (i * 3 + 2) = array_chunk attrs[i].value :=
    chunk_small_leaf hroom hi (r := 2) (by omega)
  have hfits : (attrs[i].name ++ [0]).length ≤ ZAP_LEAF_ARRAY_BYTES := by
    rw [List.length_append]
    exact hsmall.name
  have hnumints : attrs[i].name.length + 1 < 256 ^ 2 := by omega
  constructor
  · rw [le_type, hentry]
    rfl
  · rw [le_value_intlen, hentry]
    exact readLE_writeLE (k := 1) hsmall.intlen
  · rw [le_name_numints, hentry]
    exact readLE_writeLE hnumints
  · rw [le_value_numints, hentry]
    exact readLE_writeLE (k := 2) hsmall.ints
  · have hfirst : le_name_chunk (small_leaf attrs) (i * 3) = i * 3 + 1 := by
      rw [le_name_chunk, hentry]
      exact readLE_writeLE (k := 2) (show i * 3 + 1 < 65536 by omega)
    rw [hfirst]
    exact holdsArray_small_leaf hfits (show i * 3 + 1 < 638 by omega) hname_chunk
  · have hfirst : le_value_chunk (small_leaf attrs) (i * 3) = i * 3 + 2 := by
      rw [le_value_chunk, hentry]
      exact readLE_writeLE (k := 2) (show i * 3 + 2 < 65536 by omega)
    rw [hfirst]
    exact holdsArray_small_leaf hsmall.value (show i * 3 + 2 < 638 by omega) hvalue_chunk

theorem bucket_small_leaf (hroom : attrs.length * 3 ≤ ZAP_LEAF_NUMCHUNKS) {i : Nat} (hi : i < attrs.length)
    (hsmall : attrs[i].Small) : Bucket (small_leaf attrs) (i * 3) [attrs[i]] := by
  have hcount : attrs.length * 3 ≤ 638 := hroom
  have hend : entry_next (small_leaf attrs) (i * 3) = none := by
    have hnext : le_next (small_leaf attrs) (i * 3) = CHAIN_END := by
      have hfits : CHAIN_END < 256 ^ 2 := by decide
      have hentry : ZAP_LEAF_CHUNK (small_leaf attrs) (i * 3) = entry_chunk (i * 3) attrs[i] :=
        chunk_small_leaf hroom hi (r := 0) (by omega)
      rw [le_next, hentry]
      exact readLE_writeLE hfits
    rw [entry_next, if_neg fun h => h.2 hnext]
  have hinside : ∀ idx ∈ [i * 3], idx < ZAP_LEAF_NUMCHUNKS := by
    intro idx hidx
    rw [List.mem_singleton.mp hidx]
    exact show i * 3 < 638 by omega
  have hne : i * 3 ≠ CHAIN_END := show i * 3 ≠ 65535 by omega
  rw [Bucket, if_neg hne]
  exact ⟨[i * 3], .last hend, hinside, .cons (stores_small_leaf hroom hi hsmall) .nil⟩

theorem leaf_small_leaf (hroom : attrs.length * 3 ≤ ZAP_LEAF_NUMCHUNKS) (hsmall : ∀ a ∈ attrs, a.Small) :
    Leaf (small_leaf attrs) attrs := by
  have hcount : attrs.length * 3 ≤ 638 := hroom
  have hhash : l_hash (small_leaf attrs) = small_hash attrs := by
    rw [small_leaf]
    apply l_hash_leaf_block (length_small_hash hroom)
    intro c hc
    rw [small_hash] at hc
    rcases List.mem_append.mp hc with hc | hc
    · obtain ⟨i, hi, rfl⟩ := List.mem_map.mp hc
      have hi := List.mem_range.mp hi
      omega
    · rw [List.eq_of_mem_replicate hc]
      decide
  have hlength : (small_leaf attrs).length = 1 <<< FZAP_BLOCK_SHIFT := by
    rw [small_leaf]
    exact length_leaf_block (length_small_hash hroom) (length_small_chunks hroom) size_small_chunks
  have htype : readLE (slice (small_leaf attrs) 0 8) = ZBT_LEAF := by
    rw [small_leaf]
    exact block_type_leaf_block
  refine ⟨hlength, htype,
    attrs.map ([·]) ++ List.replicate (ZAP_LEAF_HASH_NUMENTRIES - attrs.length) [], ?_, ?_⟩
  · rw [hhash, small_hash]
    apply List.rel_append
    · rw [List.forall₂_map_left_iff, List.forall₂_map_right_iff, List.forall₂_iff_get]
      refine ⟨List.length_range, fun i _ hi => ?_⟩
      rw [List.get_eq_getElem, List.get_eq_getElem, List.getElem_range]
      exact bucket_small_leaf hroom hi (hsmall _ (List.getElem_mem hi))
    · exact buckets_free _
  · rw [List.flatten_append, List.flatten_replicate_nil, List.append_nil]
    exact (List.flatMap_singleton' attrs).symm

end SmallLeaf

end zfs_rescue.extractor.zap_leaf
