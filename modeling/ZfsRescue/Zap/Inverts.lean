import ZfsRescue.Zap.Leaves

open bytes dict
open zfs_rescue.blockptr zfs_rescue.zio
open zfs_rescue.extractor.zap_leaf

namespace zfs_rescue.zap

/-- The block that a fat ZAP starts with. -/
structure Header (header : Bytes) : Prop where
  length : header.length = 1 <<< FZAP_BLOCK_SHIFT
  block_type : readLE (header.take 8) = ZBT_HEADER

/-- A leaf block, the map that is stored in it, and whether it cannot be read. -/
structure LeafBlock where
  data : Bytes
  map : List (String × Nat)
  lost : Bool

/-- A 64-bit value under its name. -/
def qword_attribute (e : String × Nat) : Attribute where
  name := encode_utf8 e.1
  intlen := 8
  ints := [e.2]

/-- The map of some leaves, as callers of the ZAP see it. -/
def qword_items (leaves : List LeafBlock) : List (String × ZapValue) :=
  (leaves.flatMap LeafBlock.map).map fun e => (e.1, .int e.2)

/-- A block pointer whose block is read as it is, or is dropped. -/
def PointsTo (vdev : GenericDevice) (leaf : LeafBlock) (bptr : BlockPtr) : Prop :=
  if leaf.lost then ∃ data c, vdev.read_block bptr 0 = .ok (data, c) ∧ (c = true → data = none)
  else vdev.read_block bptr 0 = .ok (some leaf.data, true)

/-- A leaf that stores a map of names to 64-bit values. -/
structure LeafBlock.Stored (block : LeafBlock) : Prop where
  leaf : Leaf block.data (block.map.map qword_attribute)
  qword : ∀ e ∈ block.map, e.2 < 2 ^ 64

/-- The part of the data that a leaf's pointer contributes. -/
def LeafBlock.part (leaf : LeafBlock) : Bytes := if leaf.lost then [] else leaf.data

theorem item_qword_attribute {e : String × Nat} (h : e.2 < 2 ^ 64) : item (qword_attribute e) = (e.1, .int e.2) := by
  have hvalue : (qword_attribute e).value = writeBE 8 e.2 := List.flatMap_singleton _ _
  rw [item, hvalue, zap_value, if_pos (length_writeBE 8 e.2), readBE_writeBE (by omega)]
  exact Prod.ext (safe_decode_encode_utf8 e.1) rfl

theorem qword_items_eq {leaves : List LeafBlock} (hleaves : ∀ leaf ∈ leaves, leaf.Stored) :
    (leaves.map fun leaf => (leaf.map.map qword_attribute).map item).flatten = qword_items leaves := by
  rw [qword_items, List.flatMap_def, List.map_flatten, List.map_map]
  congr 1
  apply List.map_congr_left
  intro leaf hleaf
  rw [List.map_map]
  exact List.map_congr_left fun e he => item_qword_attribute ((hleaves leaf hleaf).qword e he)

/-- Leaves of whatever order and number are parsed into the map they store. -/
theorem parse_leaves {frames : Nat} (hframes : ZAP_LEAF_NUMCHUNKS ≤ frames) {header : Bytes} (hheader : Header header)
    {leaves : List LeafBlock} (hleaves : ∀ leaf ∈ leaves, leaf.Stored) :
    FatZap.parse (1 <<< FZAP_BLOCK_SHIFT) frames (header ++ (leaves.map LeafBlock.data).flatten) =
      .ok (update [] (qword_items leaves)) := by
  have hblocks : ∀ block ∈ leaves.map LeafBlock.data, block.length = 1 <<< FZAP_BLOCK_SHIFT := by
    intro block hblock
    obtain ⟨leaf, hleaf, rfl⟩ := List.mem_map.mp hblock
    exact (hleaves leaf hleaf).leaf.length
  rw [parse_iff hframes hheader.length hblocks]
  refine ⟨leaves.map fun leaf => (leaf.map.map qword_attribute).map item, ?_, by rw [qword_items_eq hleaves]⟩
  rw [List.forall₂_map_left_iff, List.forall₂_map_right_iff, List.forall₂_same]
  exact fun leaf hleaf => Leaf.holds (hleaves leaf hleaf).leaf

theorem zap_block_part {vdev : GenericDevice} {leaf : LeafBlock} {bptr : BlockPtr} (h : PointsTo vdev leaf bptr) :
    zap_block vdev bptr = .ok leaf.part := by
  rw [PointsTo] at h
  rw [zap_block, LeafBlock.part]
  split at h
  · rename_i hlost
    obtain ⟨data, c, hread, hdropped⟩ := h
    rw [hread, bind_ok, if_pos hlost]
    cases c with
    | false => rfl
    | true =>
      rw [hdropped rfl]
      rfl
  · rename_i hkept
    rw [h, bind_ok, if_neg hkept]
    rfl

/-- The data of the blocks behind the first pointers of an array. -/
theorem blockptrar_data_eq {vdev : GenericDevice} {bptrs : List BlockPtr} {parts : List Bytes}
    (hparts : List.Forall₂ (fun bptr part => zap_block vdev bptr = .ok part) bptrs parts) (more : List BlockPtr) :
    blockptrar_data vdev (bptrs ++ more) bptrs.length = .ok parts.flatten := by
  have hblocks : ((List.range bptrs.length).mapM fun i => do
      let bptr ← index (bptrs ++ more) i
      zap_block vdev bptr) = .ok parts := by
    rw [mapM_eq_ok_iff, List.forall₂_iff_get]
    refine ⟨by rw [List.length_range, hparts.length_eq], fun i hi hi' => ?_⟩
    have hlt : i < bptrs.length := by simpa using hi
    simp only [List.get_eq_getElem, List.getElem_range]
    rw [index_of_lt (by rw [List.length_append]; omega), List.getElem_append_left hlt, bind_ok]
    exact hparts.get hlt hi'
  rw [blockptrar_data, hblocks, bind_ok]

/-- The data of the leaves that are left. -/
theorem flatten_parts (leaves : List LeafBlock) :
    (leaves.map LeafBlock.part).flatten = ((leaves.filter fun leaf => !leaf.lost).map LeafBlock.data).flatten := by
  induction leaves with
  | nil => rfl
  | cons leaf leaves ih =>
    rw [List.map_cons, List.flatten_cons, ih, LeafBlock.part, List.filter_cons]
    cases leaf.lost with
    | false => rfl
    | true => rfl

/-- Data that starts with the header of a fat ZAP is parsed as one. -/
theorem choose_fat_zap {header : Bytes} (hheader : Header header) (frames dbsize : Nat) (rest : Bytes) :
    choose_zap_factory frames dbsize (header ++ rest) = (FatZap.parse dbsize frames (header ++ rest)).map some := by
  have hlength : header.length = 16384 := hheader.length
  have htype : readLE ((header ++ rest).take 8) = ZBT_HEADER := by
    rw [List.take_append_of_le_length (by omega), hheader.block_type]
  rw [choose_zap_factory, if_neg (by rw [List.length_append]; omega), htype, if_neg (by decide), if_pos rfl]
  cases FatZap.parse dbsize frames (header ++ rest) <;> rfl

theorem represents_qword_items {leaves : List LeafBlock}
    (hdistinct : ((leaves.flatMap LeafBlock.map).map Prod.fst).Nodup) :
    Represents (update [] (qword_items leaves)) (qword_items leaves) := by
  apply represents_update
  rw [qword_items, List.map_map]
  exact hdistinct

/-- Decoding inverts the encoding of a fat ZAP, and where some of its leaves
    cannot be read, of the map that the others store. -/
theorem blockptrar_zap_factory_inverts {frames : Nat} (hframes : ZAP_LEAF_NUMCHUNKS ≤ frames) {header : Bytes}
    (hheader : Header header) {leaves : List LeafBlock} (hleaves : ∀ leaf ∈ leaves, leaf.Stored)
    (hdistinct : ((leaves.flatMap LeafBlock.map).map Prod.fst).Nodup) {vdev : GenericDevice} {bptr : BlockPtr}
    {bptrs : List BlockPtr} (hbptr : vdev.read_block bptr 0 = .ok (some header, true))
    (hbptrs : List.Forall₂ (PointsTo vdev) leaves bptrs) (more : List BlockPtr) :
    (∃ entries, FatZap.parse (1 <<< FZAP_BLOCK_SHIFT) frames (header ++ (leaves.map LeafBlock.data).flatten) =
        .ok entries ∧ Represents entries (qword_items leaves)) ∧
      ∃ entries, blockptrar_zap_factory frames vdev (bptr :: bptrs ++ more) (1 <<< FZAP_BLOCK_SHIFT) (leaves.length + 1) =
        .ok (some entries) ∧ Represents entries (qword_items (leaves.filter fun leaf => !leaf.lost)) := by
  refine ⟨⟨_, parse_leaves hframes hheader hleaves, represents_qword_items hdistinct⟩, ?_⟩
  have hparts : List.Forall₂ (fun bptr part => zap_block vdev bptr = .ok part) (bptr :: bptrs)
      (header :: leaves.map LeafBlock.part) := by
    refine .cons ?_ ?_
    · rw [zap_block, hbptr]
      rfl
    · rw [List.forall₂_map_right_iff]
      exact hbptrs.flip.imp fun _ _ => zap_block_part
  have hdata := blockptrar_data_eq hparts more
  rw [List.length_cons, ← hbptrs.length_eq] at hdata
  have hkept : ∀ leaf ∈ leaves.filter (fun leaf => !leaf.lost), leaf.Stored :=
    fun leaf hleaf => hleaves leaf (List.mem_of_mem_filter hleaf)
  refine ⟨_, ?_, represents_qword_items (hdistinct.sublist (List.Sublist.map _ (List.Sublist.flatMap ?_ _)))⟩
  · rw [blockptrar_zap_factory, hdata, bind_ok, List.flatten_cons, flatten_parts, choose_fat_zap hheader,
      parse_leaves hframes hheader hkept]
    rfl
  · exact List.filter_sublist

/-- A pointer to an uncompressed block of 16 KiB without a checksum. -/
def plain_pointer (sector : Nat) : BlockPtr where
  dva0 := DVA.init 32 sector
  dva1 := DVA.init 0 0
  dva2 := DVA.init 0 0
  lsize := 1 <<< FZAP_BLOCK_SHIFT
  psize := 1 <<< FZAP_BLOCK_SHIFT
  comp := 2
  embeded := false
  cksum := 2
  type := 0
  lvl := 0
  encrypted := 0
  E := 0
  birth_txg := 0
  fill_count := 0
  checksum := (0, 0, 0, 0)

/-- A device with the given blocks at their sectors. -/
def plain_device (block : Nat → Bytes) : GenericDevice where
  ashift := 9
  read_physical offset _ := .ok (some (block (offset >>> 9)))
  zlib_decompress := .ok

theorem read_block_plain_pointer {block : Nat → Bytes} {sector : Nat} (hsector : sector < 2 ^ 63)
    (hlength : (block sector).length = 1 <<< FZAP_BLOCK_SHIFT) :
    (plain_device block).read_block (plain_pointer sector) 0 = .ok (some (block sector), true) := by
  have hoffset : ((plain_pointer sector).get_dva 0).offset = sector <<< 9 := by
    change (sector &&& (2 ^ 63 - 1)) <<< 9 = sector <<< 9
    rw [Nat.and_two_pow_sub_one_eq_mod, Nat.mod_eq_of_lt hsector]
  have hgang : ((plain_pointer sector).get_dva 0).gang = false := by
    change (sector &&& (1 <<< 63) != 0) = false
    rw [bne_eq_false_iff_eq, Nat.one_shiftLeft]
    apply Nat.eq_of_testBit_eq
    intro i
    rw [Nat.testBit_and, Nat.zero_testBit, Nat.testBit_two_pow]
    by_cases hi : 63 = i
    · rw [← hi, Nat.testBit_lt_two_pow hsector, Bool.false_and]
    · simp [hi]
  have hempty : (plain_pointer sector).empty = false := by
    simp [BlockPtr.empty, DVA.null, plain_pointer, DVA.init]
  have hstored : (plain_device block).read_stored (plain_pointer sector) 0 = .ok (some (block sector), true) := by
    rw [GenericDevice.read_stored, hoffset]
    change Except.ok (some (block ((sector <<< 9) >>> 9)), true) = _
    rw [Nat.shiftLeft_shiftRight]
  have hsize : (plain_pointer sector).psize ≠ 0 := show 1 <<< FZAP_BLOCK_SHIFT ≠ 0 by decide
  rw [GenericDevice.read_block_of_stored hempty hgang hsize hstored]
  change Except.ok (some (fit (1 <<< FZAP_BLOCK_SHIFT) (block sector)), true) = _
  rw [fit_of_length_eq hlength]

/-- The header of a fat ZAP with a pointer table of its own. -/
def plain_header : Bytes := fit (1 <<< FZAP_BLOCK_SHIFT) (writeLE 8 ZBT_HEADER)

theorem header_plain_header : Header plain_header where
  length := length_fit _ _
  block_type := by
    rw [plain_header, fit_of_le (by rw [length_writeLE]; decide), List.take_append_of_le_length (by simp),
      List.take_of_length_le (by simp), readLE_writeLE (by decide)]

theorem small_qword_attribute {e : String × Nat} (hname : (encode_utf8 e.1).length < ZAP_LEAF_ARRAY_BYTES) :
    (qword_attribute e).Small where
  name := hname
  value := by
    rw [length_value]
    exact show 1 * 8 ≤ 21 by omega
  intlen := show 8 < 256 by omega
  ints := show 1 < 2 ^ 16 by omega

/-- A leaf with a name of one letter. -/
def letter_leaf (letter : String) (v : Nat) (lost : Bool) : LeafBlock where
  data := small_leaf [qword_attribute (letter, v)]
  map := [(letter, v)]
  lost := lost

theorem stored_letter_leaf {letter : String} {v : Nat} (lost : Bool)
    (hletter : (encode_utf8 letter).length < ZAP_LEAF_ARRAY_BYTES) (hv : v < 2 ^ 64) :
    (letter_leaf letter v lost).Stored where
  leaf := leaf_small_leaf (show 1 * 3 ≤ 638 by omega) fun a ha =>
    List.mem_singleton.mp ha ▸ small_qword_attribute hletter
  qword e he := by
    rw [List.mem_singleton.mp he]
    exact hv

/-- A name that takes two chunks. -/
def long_name : String := "a name of twenty-eight bytes"

/-- Seven chunks in use, in no order: the name goes on from the last to the first, and its
    entry goes on to that of another name. Those behind them are not blank. -/
def chained_chunks : List Bytes :=
  [array_chunk ((encode_utf8 long_name).drop ZAP_LEAF_ARRAY_BYTES ++ [0]),
    [252, 8] ++ writeLE 2 3 ++ writeLE 2 6 ++ writeLE 2 29 ++ writeLE 2 2 ++ writeLE 2 1 ++ List.replicate 12 0,
    array_chunk (writeBE 8 7)] ++ attribute_chunks (qword_attribute ("a", 9), 1) ++
    [[251] ++ (encode_utf8 long_name).take ZAP_LEAF_ARRAY_BYTES ++ writeLE 2 0] ++
    List.replicate 631 (List.replicate ZAP_LEAF_CHUNKSIZE 9)

/-- A leaf with one bucket in use. -/
def chained_leaf : LeafBlock where
  data := leaf_block (1 :: List.replicate 511 CHAIN_END) chained_chunks
  map := [(long_name, 7), ("a", 9)]
  lost := false

theorem chained_leaf_long :
    (le_type chained_leaf.data 1 = ZAP_CHUNK_ENTRY ∧ le_value_intlen chained_leaf.data 1 = 8 ∧
        le_name_numints chained_leaf.data 1 = 29 ∧ le_value_numints chained_leaf.data 1 = 1 ∧
        le_name_chunk chained_leaf.data 1 = 6 ∧ le_value_chunk chained_leaf.data 1 = 2) ∧
      (la_type chained_leaf.data 6 = ZAP_CHUNK_ARRAY ∧ array_next chained_leaf.data 6 = some 0) ∧
      (la_type chained_leaf.data 0 = ZAP_CHUNK_ARRAY ∧ array_next chained_leaf.data 0 = none) ∧
      (la_type chained_leaf.data 2 = ZAP_CHUNK_ARRAY ∧ array_next chained_leaf.data 2 = none) ∧
      (encode_utf8 long_name ++ [0]).isPrefixOf ([6, 0].flatMap (la_array chained_leaf.data)) = true ∧
      (writeBE 8 7).isPrefixOf (la_array chained_leaf.data 2) = true := by
  decide +kernel

theorem chained_leaf_letter :
    (le_type chained_leaf.data 3 = ZAP_CHUNK_ENTRY ∧ le_value_intlen chained_leaf.data 3 = 8 ∧
        le_name_numints chained_leaf.data 3 = 2 ∧ le_value_numints chained_leaf.data 3 = 1 ∧
        le_name_chunk chained_leaf.data 3 = 4 ∧ le_value_chunk chained_leaf.data 3 = 5) ∧
      (la_type chained_leaf.data 4 = ZAP_CHUNK_ARRAY ∧ array_next chained_leaf.data 4 = none) ∧
      (la_type chained_leaf.data 5 = ZAP_CHUNK_ARRAY ∧ array_next chained_leaf.data 5 = none) ∧
      (encode_utf8 "a" ++ [0]).isPrefixOf (la_array chained_leaf.data 4) = true ∧
      (writeBE 8 9).isPrefixOf (la_array chained_leaf.data 5) = true := by
  decide +kernel

theorem stores_chained_leaf :
    Stores chained_leaf.data 1 (qword_attribute (long_name, 7)) ∧ Stores chained_leaf.data 3 (qword_attribute ("a", 9)) := by
  obtain ⟨⟨hentry, hintlen, hnumints, hints, hname, hvalue⟩, hhead, htail, harray, hlong, hseven⟩ := chained_leaf_long
  obtain ⟨⟨hentry', hintlen', hnumints', hints', hname', hvalue'⟩, hletter, harray', ha, hnine⟩ := chained_leaf_letter
  constructor
  · refine ⟨hentry, hintlen, hnumints, hints, ?_, ?_⟩
    · rw [hname]
      refine ⟨_, ⟨[6, 0], ⟨.link hhead.2 (.last htail.2), by decide, ?_⟩, rfl⟩, List.isPrefixOf_iff_prefix.mp hlong⟩
      simpa using ⟨hhead.1, htail.1⟩
    · rw [hvalue]
      exact holdsArray_of_last (by decide) harray.1 harray.2 (List.isPrefixOf_iff_prefix.mp hseven)
  · refine ⟨hentry', hintlen', hnumints', hints', ?_, ?_⟩
    · rw [hname']
      exact holdsArray_of_last (by decide) hletter.1 hletter.2 (List.isPrefixOf_iff_prefix.mp ha)
    · rw [hvalue']
      exact holdsArray_of_last (by decide) harray'.1 harray'.2 (List.isPrefixOf_iff_prefix.mp hnine)

theorem bucket_chained_leaf :
    Bucket chained_leaf.data 1 [qword_attribute (long_name, 7), qword_attribute ("a", 9)] := by
  have hnext : entry_next chained_leaf.data 1 = some 3 ∧ entry_next chained_leaf.data 3 = none := by decide +kernel
  obtain ⟨hlong, hletter⟩ := stores_chained_leaf
  rw [Bucket, if_neg (by decide)]
  exact ⟨[1, 3], .link hnext.1 (.last hnext.2), by decide, .cons hlong (.cons hletter .nil)⟩

theorem stored_chained_leaf : chained_leaf.Stored where
  leaf := by
    have hsize : ∀ chunk ∈ chained_chunks, chunk.length = ZAP_LEAF_CHUNKSIZE := by decide +kernel
    have hhash : l_hash chained_leaf.data = 1 :: List.replicate 511 CHAIN_END := by
      refine l_hash_leaf_block (by rw [List.length_cons, List.length_replicate]; rfl) fun c hc => ?_
      rcases List.mem_cons.mp hc with rfl | hc
      · decide
      · rw [List.eq_of_mem_replicate hc]
        decide
    refine ⟨?_, block_type_leaf_block, [qword_attribute (long_name, 7), qword_attribute ("a", 9)] :: List.replicate 511 [],
      ?_, ?_⟩
    · refine length_leaf_block (by rw [List.length_cons, List.length_replicate]; rfl) ?_ hsize
      decide +kernel
    · rw [hhash]
      exact .cons bucket_chained_leaf (buckets_free 511)
    · rw [List.flatten_cons, List.flatten_replicate_nil, List.append_nil]
      rfl
  qword := by decide

/-- Two leaves, of which the second cannot be read. -/
def chained_leaves : List LeafBlock := [chained_leaf, letter_leaf "b" 8 true]

def chained_device : GenericDevice := plain_device fun sector => if sector = 0 then plain_header else chained_leaf.data

/-- The names of the leaf that is left are found, the long one and the one behind it on the
    hash chain. -/
theorem blockptrar_zap_factory_inverts_chained_leaves :
    (∃ entries, FatZap.parse (1 <<< FZAP_BLOCK_SHIFT) 1000 (plain_header ++ (chained_leaves.map LeafBlock.data).flatten) =
        .ok entries ∧ Represents entries [(long_name, .int 7), ("a", .int 9), ("b", .int 8)]) ∧
      ∃ entries, blockptrar_zap_factory 1000 chained_device
          [plain_pointer 0, plain_pointer 32, { plain_pointer 0 with dva0 := DVA.init 0 0 }] (1 <<< FZAP_BLOCK_SHIFT) 3 =
        .ok (some entries) ∧ Represents entries [(long_name, .int 7), ("a", .int 9)] := by
  have hstored : ∀ leaf ∈ chained_leaves, leaf.Stored := by
    intro leaf hleaf
    simp only [chained_leaves, List.mem_cons, List.not_mem_nil, or_false] at hleaf
    rcases hleaf with rfl | rfl
    · exact stored_chained_leaf
    · exact stored_letter_leaf true (by decide) (by decide)
  have hheader : chained_device.read_block (plain_pointer 0) 0 = .ok (some plain_header, true) :=
    read_block_plain_pointer (by decide) header_plain_header.length
  have hfirst : chained_device.read_block (plain_pointer 32) 0 = .ok (some chained_leaf.data, true) :=
    read_block_plain_pointer (by decide) stored_chained_leaf.leaf.length
  have hsecond : PointsTo chained_device (letter_leaf "b" 8 true) { plain_pointer 0 with dva0 := DVA.init 0 0 } :=
    ⟨none, false, rfl, by decide⟩
  exact blockptrar_zap_factory_inverts (show ZAP_LEAF_NUMCHUNKS ≤ 1000 by decide) header_plain_header hstored
    (by decide) hheader (.cons hfirst (.cons hsecond .nil)) []

end zfs_rescue.zap
