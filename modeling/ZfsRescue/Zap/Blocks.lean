import ZfsRescue.Zap.Inverts

open bytes dict
open zfs_rescue.blockptr
open zfs_rescue.extractor.zap_leaf

namespace zfs_rescue.zap

/-- A block behind the header: a leaf with its attributes, or anything else. -/
inductive Block where
  | leaf (data : Bytes) (attrs : List Attribute)
  | other (data : Bytes)

def Block.data : Block → Bytes
  | .leaf data _ => data
  | .other data => data

/-- A leaf is a leaf, and anything else has at least its size. -/
def Block.WellFormed : Block → Prop
  | .leaf data attrs => Leaf data attrs
  | .other data => data.length = 1 <<< FZAP_BLOCK_SHIFT

/-- The entries of a block in their order. Anything else than a leaf has some
    when it happens to be well linked. -/
def Block.Holds : Block → List (String × ZapValue) → Prop
  | .leaf _ attrs, items => items = attrs.map item
  | .other data, items => HoldsBlock data items

def Block.HoldsName (block : Block) (k : String) : Prop := ∃ items v, block.Holds items ∧ (k, v) ∈ items

def Block.leaf_items : Block → List (String × ZapValue)
  | .leaf _ attrs => attrs.map item
  | .other _ => []

/-- The entries of all leaves. -/
def leaf_items (blocks : List Block) : List (String × ZapValue) := blocks.flatMap Block.leaf_items

/-- Every block that is no leaf is well linked, and what it holds under one of
    the names is the entry of a leaf, or comes again in a later block. -/
def Undisturbed (names : String → Prop) (blocks : List Block) : Prop :=
  ∀ before data after, blocks = before ++ .other data :: after →
    ∃ items, HoldsBlock data items ∧ ∀ k v, names k → last items k = some v →
      (k, v) ∈ leaf_items blocks ∨ ∃ block ∈ after, block.HoldsName k

theorem Block.Holds.unique {block : Block} {items others : List (String × ZapValue)} (h : block.Holds items)
    (h' : block.Holds others) : items = others := by
  cases block with
  | leaf data attrs => exact h.trans h'.symm
  | other data => exact HoldsBlock.unique h h'

theorem Block.WellFormed.length {block : Block} (h : block.WellFormed) : block.data.length = 1 <<< FZAP_BLOCK_SHIFT := by
  cases block with
  | leaf data attrs => exact Leaf.length h
  | other data => exact h

theorem Block.WellFormed.holds_iff {block : Block} (h : block.WellFormed) (items : List (String × ZapValue)) :
    HoldsBlock block.data items ↔ block.Holds items := by
  cases block with
  | leaf data attrs =>
    have hholds := Leaf.holds h
    constructor
    · exact fun hitems => HoldsBlock.unique hitems hholds
    · rintro rfl
      exact hholds
  | other data => exact Iff.rfl

/-- What a ZAP is parsed into, in terms of its blocks. -/
theorem parse_blocks_iff {frames : Nat} (hframes : ZAP_LEAF_NUMCHUNKS ≤ frames) {header : Bytes}
    (hheader : header.length = 1 <<< FZAP_BLOCK_SHIFT) {blocks : List Block}
    (hblocks : ∀ block ∈ blocks, block.WellFormed) (entries : Entries) :
    FatZap.parse (1 <<< FZAP_BLOCK_SHIFT) frames (header ++ (blocks.map Block.data).flatten) = .ok entries ↔
      ∃ held, List.Forall₂ Block.Holds blocks held ∧ entries = update [] held.flatten := by
  have hlength : ∀ data ∈ blocks.map Block.data, data.length = 1 <<< FZAP_BLOCK_SHIFT := by
    intro data hdata
    obtain ⟨block, hblock, rfl⟩ := List.mem_map.mp hdata
    exact (hblocks block hblock).length
  have hholds : ∀ held, List.Forall₂ HoldsBlock (blocks.map Block.data) held ↔ List.Forall₂ Block.Holds blocks held := by
    intro held
    rw [List.forall₂_map_left_iff]
    clear hlength
    induction blocks generalizing held with
    | nil => simp
    | cons block blocks ih =>
      simp only [List.forall₂_cons_left_iff, (hblocks block (by simp)).holds_iff,
        ih fun b hb => hblocks b (by simp [hb])]
  simp only [parse_iff hframes hheader hlength, hholds]

section Held

variable {blocks : List Block} {held : List (List (String × ZapValue))}

theorem holdsName_iff (hheld : List.Forall₂ Block.Holds blocks held) (k : String) :
    (∃ block ∈ blocks, block.HoldsName k) ↔ ∃ v, last held.flatten k = some v := by
  induction hheld with
  | nil => simp [last]
  | @cons block items blocks held hblock _ ih =>
    have hhead : block.HoldsName k ↔ ∃ v, last items k = some v := by
      constructor
      · rintro ⟨others, v, hothers, hmem⟩
        rw [hothers.unique hblock] at hmem
        exact exists_last_of_mem hmem
      · rintro ⟨v, hlast⟩
        exact ⟨items, v, hblock, mem_of_last hlast⟩
    simp only [List.exists_mem_cons_iff, ih, hhead, List.flatten_cons, last_append]
    cases last held.flatten k <;> simp

/-- The last entry under a name is in the last block that holds the name. -/
theorem last_held_iff (hheld : List.Forall₂ Block.Holds blocks held) (k : String) (v : ZapValue) :
    last held.flatten k = some v ↔
      ∃ before block after items, blocks = before ++ block :: after ∧ block.Holds items ∧ last items k = some v ∧
        ∀ later ∈ after, ¬later.HoldsName k := by
  induction hheld with
  | nil => simp [last]
  | @cons block items blocks held hblock hrest ih =>
    have hlater := holdsName_iff hrest k
    rw [List.flatten_cons, last_append]
    cases hlast : last held.flatten k with
    | some v' =>
      rw [hlast] at ih hlater
      rw [Option.some_or]
      constructor
      · intro h
        obtain ⟨before, block', after, items', rfl, h⟩ := ih.mp h
        exact ⟨block :: before, block', after, items', rfl, h⟩
      · rintro ⟨before, block', after, items', hsplit, hholds, hitems, hafter⟩
        rcases List.cons_eq_append_iff.mp hsplit with ⟨rfl, heq⟩ | ⟨before, rfl, heq⟩
        · cases heq
          obtain ⟨later, hmem, hname⟩ := hlater.mpr ⟨v', rfl⟩
          exact absurd hname (hafter later hmem)
        · exact ih.mpr ⟨before, block', after, items', heq, hholds, hitems, hafter⟩
    | none =>
      rw [hlast] at ih hlater
      rw [Option.none_or]
      constructor
      · refine fun h => ⟨[], block, blocks, items, rfl, hblock, h, fun later hmem hname => ?_⟩
        obtain ⟨v', hv'⟩ := hlater.mp ⟨later, hmem, hname⟩
        cases hv'
      · rintro ⟨before, block', after, items', hsplit, hholds, hitems, hafter⟩
        rcases List.cons_eq_append_iff.mp hsplit with ⟨rfl, heq⟩ | ⟨before, rfl, heq⟩
        · cases heq
          rw [hblock.unique hholds, hitems]
        · cases ih.mpr ⟨before, block', after, items', heq, hholds, hitems, hafter⟩

theorem mem_held_of_leaf_items (hheld : List.Forall₂ Block.Holds blocks held) {e : String × ZapValue}
    (h : e ∈ leaf_items blocks) : e ∈ held.flatten := by
  induction hheld with
  | nil => cases h
  | @cons block items blocks held hblock _ ih =>
    rw [leaf_items, List.flatMap_cons] at h
    rw [List.flatten_cons]
    rcases List.mem_append.mp h with h | h
    · cases block with
      | leaf data attrs =>
        cases hblock
        exact List.mem_append_left _ h
      | other data => cases h
    · exact List.mem_append_right _ (ih h)

end Held

/-- Under some names only leaf entries come last exactly when the other blocks
    do not disturb them. -/
theorem undisturbed_iff (names : String → Prop) (blocks : List Block) :
    (∃ held, List.Forall₂ Block.Holds blocks held ∧
      ∀ k v, names k → last held.flatten k = some v → (k, v) ∈ leaf_items blocks) ↔ Undisturbed names blocks := by
  constructor
  · rintro ⟨held, hheld, hlast⟩ before data after hsplit
    obtain ⟨items, hitems⟩ := exists_forall₂_iff.mp ⟨held, hheld⟩ (.other data) (by simp [hsplit])
    refine ⟨items, hitems, fun k v hk hv => ?_⟩
    by_cases hlater : ∃ block ∈ after, block.HoldsName k
    · exact .inr hlater
    · refine .inl (hlast k v hk ((last_held_iff hheld k v).mpr ⟨before, .other data, after, items, hsplit, hitems, hv, ?_⟩))
      exact fun later hmem hname => hlater ⟨later, hmem, hname⟩
  · intro h
    have hall : ∀ block ∈ blocks, ∃ items, block.Holds items := by
      intro block hblock
      cases block with
      | leaf data attrs => exact ⟨_, rfl⟩
      | other data =>
        obtain ⟨before, after, hsplit⟩ := List.append_of_mem hblock
        obtain ⟨items, hitems, _⟩ := h before data after hsplit
        exact ⟨items, hitems⟩
    obtain ⟨held, hheld⟩ := exists_forall₂_iff.mpr hall
    refine ⟨held, hheld, fun k v hk hv => ?_⟩
    obtain ⟨before, block, after, items, hsplit, hitems, hlast, hafter⟩ := (last_held_iff hheld k v).mp hv
    cases block with
    | leaf data attrs =>
      rw [hsplit, leaf_items, List.flatMap_append, List.flatMap_cons]
      have hmem := mem_of_last hlast
      rw [hitems] at hmem
      exact List.mem_append_right _ (List.mem_append_left _ hmem)
    | other data =>
      obtain ⟨items', hitems', hkept⟩ := h before data after hsplit
      rw [HoldsBlock.unique hitems hitems'] at hlast
      rcases hkept k v hk hlast with hmem | ⟨later, hlater, hname⟩
      · exact hmem
      · exact absurd hname (hafter later hlater)

/-- A block with a bucket that leads out of it is not well linked. -/
theorem not_holdsBlock_of_bucket {block : Bytes} {c : Nat} (hc : c ∈ l_hash block) (hend : c ≠ CHAIN_END)
    (houtside : ¬c < ZAP_LEAF_NUMCHUNKS) (items : List (String × ZapValue)) : ¬HoldsBlock block items := by
  rintro ⟨buckets, hbuckets, _⟩
  obtain ⟨held, hheld⟩ := exists_forall₂_iff.mp ⟨buckets, hbuckets⟩ c hc
  rw [HoldsBucket, if_neg hend] at hheld
  obtain ⟨path, hpath, hinside, _⟩ := hheld
  exact houtside (hinside c hpath.head_mem)

/-- A block whose buckets lead to no entry holds none. -/
theorem holdsBlock_nil {block : Bytes}
    (h : ∀ c ∈ l_hash block, c < ZAP_LEAF_NUMCHUNKS ∧ le_type block c ≠ ZAP_CHUNK_ENTRY) : HoldsBlock block [] := by
  refine ⟨(l_hash block).map fun _ => [], ?_, ?_⟩
  · rw [List.forall₂_map_right_iff, List.forall₂_same]
    intro c hc
    obtain ⟨hinside, htype⟩ := h c hc
    rw [HoldsBucket]
    split
    · rfl
    · exact ⟨[c], .last (if_neg fun hentry => htype hentry.1), by simpa using hinside, by simp [htype]⟩
  · rw [List.map_const', List.flatten_replicate_nil]

/-- The ZAP is parsed into the entries of its leaves and no others. -/
def OnlyLeaves (frames : Nat) (header : Bytes) (blocks : List Block) : Prop :=
  ∃ entries, FatZap.parse (1 <<< FZAP_BLOCK_SHIFT) frames (header ++ (blocks.map Block.data).flatten) = .ok entries ∧
    Represents entries (leaf_items blocks)

/-- The ZAP is parsed into some entries, and those of its leaves are among
    them. -/
def Contained (frames : Nat) (header : Bytes) (blocks : List Block) : Prop :=
  ∃ entries, FatZap.parse (1 <<< FZAP_BLOCK_SHIFT) frames (header ++ (blocks.map Block.data).flatten) = .ok entries ∧
    ∀ k v, (k, v) ∈ leaf_items blocks → entries.lookup k = some v

/-- Blocks that are no leaves add nothing exactly when they do not disturb any
    name. -/
theorem onlyLeaves_iff {frames : Nat} (hframes : ZAP_LEAF_NUMCHUNKS ≤ frames) {header : Bytes} (hheader : Header header)
    {blocks : List Block} (hblocks : ∀ block ∈ blocks, block.WellFormed)
    (hdistinct : ((leaf_items blocks).map Prod.fst).Nodup) :
    OnlyLeaves frames header blocks ↔ Undisturbed (fun _ => True) blocks := by
  rw [← undisturbed_iff, OnlyLeaves]
  simp only [parse_blocks_iff hframes hheader.length hblocks]
  constructor
  · rintro ⟨_, ⟨held, hheld, rfl⟩, hentries⟩
    refine ⟨held, hheld, fun k v _ hlast => (hentries k v).mp ?_⟩
    rw [lookup_update_nil, hlast]
  · rintro ⟨held, hheld, hlast⟩
    refine ⟨_, ⟨held, hheld, rfl⟩, fun k v => ?_⟩
    rw [lookup_update_nil]
    refine ⟨hlast k v trivial, fun hmem => ?_⟩
    obtain ⟨v', hv'⟩ := exists_last_of_mem (mem_held_of_leaf_items hheld hmem)
    rw [hv', value_unique hdistinct hmem (hlast k v' trivial hv')]

/-- Damaged blocks are contained exactly when they do not disturb the names of
    the undamaged leaves. -/
theorem contained_iff {frames : Nat} (hframes : ZAP_LEAF_NUMCHUNKS ≤ frames) {header : Bytes} (hheader : Header header)
    {blocks : List Block} (hblocks : ∀ block ∈ blocks, block.WellFormed)
    (hdistinct : ((leaf_items blocks).map Prod.fst).Nodup) :
    Contained frames header blocks ↔ Undisturbed (fun k => ∃ v, (k, v) ∈ leaf_items blocks) blocks := by
  rw [← undisturbed_iff, Contained]
  simp only [parse_blocks_iff hframes hheader.length hblocks]
  constructor
  · rintro ⟨_, ⟨held, hheld, rfl⟩, hentries⟩
    refine ⟨held, hheld, fun k v hk hlast => ?_⟩
    obtain ⟨v', hmem⟩ := hk
    have hentry := hentries k v' hmem
    rw [lookup_update_nil, hlast] at hentry
    cases hentry
    exact hmem
  · rintro ⟨held, hheld, hlast⟩
    refine ⟨_, ⟨held, hheld, rfl⟩, fun k v hmem => ?_⟩
    obtain ⟨v', hv'⟩ := exists_last_of_mem (mem_held_of_leaf_items hheld hmem)
    rw [lookup_update_nil, hv', value_unique hdistinct hmem (hlast k v' ⟨v, hmem⟩ hv')]

/-- A pointer table block whose entries all lead to one block. -/
def pointer_table (blk : Nat) : Bytes := (List.replicate 2048 blk).flatMap (writeLE 8)

def letter_block : Block := .leaf (letter_leaf "a" 7 false).data [qword_attribute ("a", 7)]

theorem wellFormed_letter_block : letter_block.WellFormed :=
  leaf_small_leaf (by decide) fun a ha => List.mem_singleton.mp ha ▸ small_qword_attribute (by decide)

theorem length_pointer_table (blk : Nat) : (pointer_table blk).length = 1 <<< FZAP_BLOCK_SHIFT := by
  rw [pointer_table, length_flatMap_of_length fun v _ => length_writeLE 8 v, List.length_replicate]
  rfl

theorem slice_pointer_table (blk : Nat) {k r n : Nat} (hk : k < 2048) (hn : r + n ≤ 8) :
    slice (pointer_table blk) (k * 8 + r) n = slice (writeLE 8 blk) r n := by
  have hlength : k < (List.replicate 2048 blk).length := by rwa [List.length_replicate]
  have hword := slice_flatMap (fun v _ => length_writeLE 8 v) hlength
  rw [List.getElem_replicate] at hword
  rw [← hword, slice_slice _ hn, pointer_table]

/-- A table of small block numbers is well linked, and holds nothing. -/
theorem holdsBlock_pointer_table : HoldsBlock (pointer_table 1) [] := by
  have hquarter : ∀ r, r < 4 → readLE (slice (writeLE 8 1) (2 * r) 2) < 2 := by decide
  apply holdsBlock_nil
  intro c hc
  obtain ⟨i, hi, rfl⟩ := List.mem_map.mp hc
  have hi : i < 512 := List.mem_range.mp hi
  have hoffset : 2 * ZAP_LEAF_CHUNKSIZE + 2 * i = (6 + i / 4) * 8 + 2 * (i % 4) := by
    change 48 + 2 * i = _
    omega
  rw [hoffset, slice_pointer_table 1 (by omega) (by omega)]
  have hsmall := hquarter (i % 4) (by omega)
  generalize readLE (slice (writeLE 8 1) (2 * (i % 4)) 2) = c at hsmall
  have hchunk : 2 * ZAP_LEAF_CHUNKSIZE + 2 * ZAP_LEAF_HASH_NUMENTRIES + c * ZAP_LEAF_CHUNKSIZE + 0 =
      (134 + 3 * c) * 8 + 0 := by
    change 1072 + c * 24 = _
    omega
  refine ⟨show c < 638 by omega, ?_⟩
  rw [le_type, ← getD_slice _ 0 1 0 0 (by omega), ZAP_LEAF_CHUNK, slice_slice _ (by decide), hchunk,
    slice_pointer_table 1 (by omega) (by omega)]
  decide

/-- A leaf, and a block that took the place of another one. -/
def letter_blocks (data : Bytes) : List Block := [letter_block, .other data]

theorem wellFormed_letter_blocks {data : Bytes} (hlength : data.length = 1 <<< FZAP_BLOCK_SHIFT) :
    ∀ block ∈ letter_blocks data, block.WellFormed := by
  simpa [letter_blocks] using ⟨wellFormed_letter_block, hlength⟩

theorem undisturbed_letter_blocks {data : Bytes} (names : String → Prop) (hdata : HoldsBlock data []) :
    Undisturbed names (letter_blocks data) := by
  intro before data' after hsplit
  have hother : Block.other data' ∈ letter_blocks data := by simp [hsplit]
  obtain rfl : data' = data := by simpa [letter_blocks, letter_block] using hother
  exact ⟨[], hdata, fun k v _ hlast => by cases hlast⟩

/-- One block that leads out of itself is enough to lose the ZAP. -/
theorem parse_letter_blocks_ne {header data : Bytes} (hheader : Header header)
    (hlength : data.length = 1 <<< FZAP_BLOCK_SHIFT) {c : Nat} (hc : c ∈ l_hash data) (hend : c ≠ CHAIN_END)
    (houtside : ¬c < ZAP_LEAF_NUMCHUNKS) (entries : Entries) :
    FatZap.parse (1 <<< FZAP_BLOCK_SHIFT) 1000 (header ++ ((letter_blocks data).map Block.data).flatten) ≠
      .ok entries := by
  intro hparse
  rw [parse_blocks_iff (by decide) hheader.length (wellFormed_letter_blocks hlength)] at hparse
  obtain ⟨held, hheld, _⟩ := hparse
  obtain ⟨items, hitems⟩ := exists_forall₂_iff.mp ⟨held, hheld⟩ (.other data) (by simp [letter_blocks])
  exact not_holdsBlock_of_bucket hc hend houtside items hitems

/-- The words of a header whose pointer table is one block, the third one. -/
def external_words : List Nat := [ZBT_HEADER, 0x2F52AB2AB, 2, 1, 11, 0, 0, 3, 1, 1, 0]

def external_header : Bytes := fit (1 <<< FZAP_BLOCK_SHIFT) (encode_words external_words)

theorem qword_external_header {i : Nat} (hi : i < 11) : qword external_header i = external_words[i] := by
  have hlength : 8 * i + 8 ≤ (encode_words external_words).length := by
    rw [length_encode_words]
    change 8 * i + 8 ≤ 11 * 8
    omega
  have hall : ∀ word ∈ external_words, word < 2 ^ 64 := by decide
  rw [external_header, qword, fit_of_le (by rw [length_encode_words]; decide), slice_append_of_le hlength]
  exact qword_encode_words hi (hall _ (List.getElem_mem hi))

theorem header_external_header : Header external_header where
  length := length_fit _ _
  block_type := qword_external_header (i := 0) (by omega)

theorem onlyLeaves_pointer_table : OnlyLeaves 1000 external_header (letter_blocks (pointer_table 1)) :=
  (onlyLeaves_iff (show ZAP_LEAF_NUMCHUNKS ≤ 1000 by decide) header_external_header
    (wellFormed_letter_blocks (length_pointer_table 1)) (by decide)).mpr
      (undisturbed_letter_blocks _ holdsBlock_pointer_table)

/-- A table with a large block number loses the whole ZAP. -/
theorem not_onlyLeaves_pointer_table : qword external_header 3 = 1 ∧ qword (pointer_table 1024) 0 ≠ ZBT_LEAF ∧
    (∀ block ∈ letter_blocks (pointer_table 1024), block.WellFormed) ∧
      ¬OnlyLeaves 1000 external_header (letter_blocks (pointer_table 1024)) := by
  have htype := slice_pointer_table 1024 (k := 0) (r := 0) (n := 8) (by omega) (by omega)
  have hbucket : 1024 ∈ l_hash (pointer_table 1024) := by
    have hoffset : 2 * ZAP_LEAF_CHUNKSIZE + 2 * 0 = 6 * 8 + 0 := by decide
    refine List.mem_map.mpr ⟨0, List.mem_range.mpr (by decide), ?_⟩
    rw [hoffset, slice_pointer_table 1024 (by omega) (by omega)]
    decide
  refine ⟨qword_external_header (by omega), ?_, wellFormed_letter_blocks (length_pointer_table 1024), ?_⟩
  · rw [Nat.zero_mul] at htype
    rw [qword, Nat.mul_zero, htype]
    decide
  · rintro ⟨entries, hparse, _⟩
    exact parse_letter_blocks_ne header_external_header (length_pointer_table 1024) hbucket (by decide) (by decide) entries hparse

theorem contained_pointer_table : Contained 1000 plain_header (letter_blocks (pointer_table 1)) :=
  (contained_iff (show ZAP_LEAF_NUMCHUNKS ≤ 1000 by decide) header_plain_header
    (wellFormed_letter_blocks (length_pointer_table 1)) (by decide)).mpr
      (undisturbed_letter_blocks _ holdsBlock_pointer_table)

/-- A leaf overwritten with one byte all over. -/
def overwritten (b : UInt8) : Bytes := List.replicate (1 <<< FZAP_BLOCK_SHIFT) b

/-- One leaf overwritten loses the entries of all. -/
theorem not_contained_overwritten : (∀ block ∈ letter_blocks (overwritten 0xfe), block.WellFormed) ∧
    ¬Contained 1000 plain_header (letter_blocks (overwritten 0xfe)) := by
  have hlength : (overwritten 0xfe).length = 1 <<< FZAP_BLOCK_SHIFT := List.length_replicate
  have hbucket : 0xfefe ∈ l_hash (overwritten 0xfe) := by
    refine List.mem_map.mpr ⟨0, List.mem_range.mpr (by decide), ?_⟩
    rw [overwritten, slice, List.drop_replicate, List.take_replicate]
    decide
  refine ⟨wellFormed_letter_blocks hlength, ?_⟩
  rintro ⟨entries, hparse, _⟩
  exact parse_letter_blocks_ne header_plain_header hlength hbucket (by decide) (by decide) entries hparse

end zfs_rescue.zap
