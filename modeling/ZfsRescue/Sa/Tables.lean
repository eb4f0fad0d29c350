import ZfsRescue.Extractor.Spa
import ZfsRescue.Sa

open bytes dict
open zfs_rescue.blockptr zfs_rescue.zio zfs_rescue.dnode zfs_rescue.objectset zfs_rescue.zap
open zfs_rescue.extractor.spa zfs_rescue.extractor.zap_leaf

namespace zfs_rescue.sa

def BF32_GET (x low len : Nat) : Nat := P2PHASE (x >>> low) (1 <<< len)

def ATTR_LENGTH (x : Nat) : Nat := BF32_GET x 24 16
def ATTR_NUM (x : Nat) : Nat := BF32_GET x 0 16

/-- An entry of the registry: a name and its word. -/
abbrev Registered := String × Nat

/-- An entry of the layouts: its number, and the numbers of its attributes. -/
abbrev Layout := Nat × List Nat

/-- The layouts store 16-bit integers under their numbers in decimal. -/
def layout_attribute (l : Layout) : Attribute where
  name := encode_utf8 (toString l.1)
  intlen := 2
  ints := l.2

/-- The blocks of a dnode read as a fat ZAP with these attributes. -/
def StoredZap (vdev : GenericDevice) (dnode : DNode) (attrs : List Attribute) : Prop :=
  ∃ header, Header header ∧ ∃ leaves : List (Bytes × List Attribute), (∀ l ∈ leaves, Leaf l.1 l.2) ∧
    attrs = leaves.flatMap Prod.snd ∧ dnode.datablksize = some (1 <<< FZAP_BLOCK_SHIFT) ∧
    zap_data vdev dnode = .ok (some (header ++ (leaves.map Prod.fst).flatten))

/-- The objects of the tables: a ZAP of whichever kind has their numbers. -/
structure Objects (frames : Nat) (vdev : GenericDevice) (dataset : ObjectSet) (idx registry_id layout_id : Nat)
    (registry layout : DNode) : Prop where
  master : ∃ dnode entries, dataset.lookup none idx = .ok (some dnode) ∧
    zap_factory frames vdev dnode = .ok (some entries) ∧ entries.lookup "REGISTRY" = some (.int registry_id) ∧
    entries.lookup "LAYOUTS" = some (.int layout_id)
  registry : dataset.lookup none registry_id = .ok (some registry)
  layout : dataset.lookup none layout_id = .ok (some layout)

/-- The two tables: maps of names and of numbers, the second one of registered
    attributes only, stored in the fat ZAPs of two objects. -/
structure Tables (vdev : GenericDevice) (registry layout : DNode) (attrs : List Registered) (layouts : List Layout) :
    Prop where
  registry : StoredZap vdev registry (attrs.map qword_attribute)
  layout : StoredZap vdev layout (layouts.map layout_attribute)
  words : ∀ r ∈ attrs, r.2 < 2 ^ 64
  names : (attrs.map Prod.fst).Nodup
  numbers : (layouts.map Prod.fst).Nodup
  registered : ∀ l ∈ layouts, ∀ num ∈ l.2, ∃ r ∈ attrs, ATTR_NUM r.2 = num

/-- The record of a registered attribute. -/
def IsRecord (lower : String → String) (attrs : List Registered) (num : Nat) (field : SaField) : Prop :=
  ∃ r ∈ attrs, ATTR_NUM r.2 = num ∧ field = { len := ATTR_LENGTH r.2, name := lower r.1 }

/-- The constructor completes, and every layout has the records of its
    attributes in order. -/
def Loads (frames : Nat) (lower : String → String) (vdev : GenericDevice) (dataset : ObjectSet) (caches : Caches)
    (idx : Nat) (attrs : List Registered) (layouts : List Layout) : Prop :=
  ∃ sa, SystemAttr.init frames lower vdev dataset caches idx = .ok sa ∧
    ∀ l ∈ layouts, ∃ fields, sa.lay.lookup (toString l.1) = some fields ∧
      List.Forall₂ (IsRecord lower attrs) l.2 fields

theorem toString_injective {m n : Nat} (h : toString m = toString n) : m = n := by
  have hdigits : Nat.toDigits 10 m = Nat.toDigits 10 n := by
    rw [← Nat.toList_repr, ← Nat.toList_repr]
    exact congrArg String.toList h
  rw [← Nat.ofDigitChars_toDigits (b := 10) (n := m) (by decide) (by decide), hdigits,
    Nat.ofDigitChars_toDigits (by decide) (by decide)]

/-- A fat ZAP is loaded into its attributes. -/
theorem zap_factory_stored {frames : Nat} (hframes : ZAP_LEAF_NUMCHUNKS ≤ frames) {vdev : GenericDevice} {dnode : DNode}
    {attrs : List Attribute} (h : StoredZap vdev dnode attrs) :
    zap_factory frames vdev dnode = .ok (some (update [] (attrs.map item))) := by
  obtain ⟨header, hheader, leaves, hleaves, rfl, hsize, hdata⟩ := h
  have hblocks : ∀ block ∈ leaves.map Prod.fst, block.length = 1 <<< FZAP_BLOCK_SHIFT := by
    intro block hblock
    obtain ⟨l, hl, rfl⟩ := List.mem_map.mp hblock
    exact (hleaves l hl).length
  have hparse : FatZap.parse (1 <<< FZAP_BLOCK_SHIFT) frames (header ++ (leaves.map Prod.fst).flatten) =
      .ok (update [] ((leaves.flatMap Prod.snd).map item)) := by
    rw [parse_iff hframes hheader.length hblocks]
    refine ⟨leaves.map fun l => l.2.map item, ?_, by rw [List.map_flatMap, List.flatMap_def]⟩
    rw [List.forall₂_map_left_iff, List.forall₂_map_right_iff, List.forall₂_same]
    exact fun l hl => Leaf.holds (hleaves l hl)
  rw [zap_factory, hdata, bind_ok, zap_of_data, hsize, Option.getD_some, choose_fat_zap hheader, hparse]
  rfl

theorem items_registry {attrs : List Registered} (hwords : ∀ r ∈ attrs, r.2 < 2 ^ 64) :
    (attrs.map qword_attribute).map item = attrs.map fun r => (r.1, .int r.2) := by
  rw [List.map_map]
  exact List.map_congr_left fun r hr => item_qword_attribute (hwords r hr)

theorem registered_eq (lower : String → String) (r : Registered) :
    registered lower (r.1, .int r.2) = .ok (ATTR_NUM r.2, { len := ATTR_LENGTH r.2, name := lower r.1 }) := rfl

/-- The loop over the registry gives every registered number a record of its
    own. -/
theorem foldlM_set_registered (lower : String → String) {attrs : List Registered} (hwords : ∀ r ∈ attrs, r.2 < 2 ^ 64)
    (hnames : (attrs.map Prod.fst).Nodup) :
    ∃ reg, (update [] ((attrs.map qword_attribute).map item)).foldlM (set_registered lower) [] = .ok reg ∧
      ∀ r ∈ attrs, ∃ field, reg.lookup (ATTR_NUM r.2) = some field ∧ IsRecord lower attrs (ATTR_NUM r.2) field := by
  have hdistinct : ((attrs.map fun r => (r.1, ZapValue.int r.2)).map Prod.fst).Nodup := by
    rw [List.map_map]
    exact hnames
  have hentries := mem_update_iff hdistinct
  rw [items_registry hwords]
  have hall : ∀ e ∈ update [] (attrs.map fun r => (r.1, ZapValue.int r.2)), ∃ y, registered lower e = .ok y := by
    intro e he
    obtain ⟨r, _, rfl⟩ := List.mem_map.mp ((hentries e).mp he)
    exact ⟨_, registered_eq lower r⟩
  obtain ⟨records, hrecords⟩ := exists_forall₂_iff.mpr hall
  refine ⟨update [] records, (foldlM_set_iff _ _ _).mpr ⟨records, hrecords, rfl⟩, fun r hr => ?_⟩
  have hmem : (r.1, ZapValue.int r.2) ∈ update [] (attrs.map fun r => (r.1, ZapValue.int r.2)) :=
    (hentries _).mpr (List.mem_map.mpr ⟨r, hr, rfl⟩)
  obtain ⟨record, hrecord, heq⟩ := exists_mem_of_forall₂ hrecords hmem
  rw [registered_eq] at heq
  cases heq
  obtain ⟨field, hfield⟩ := exists_last_of_mem hrecord
  refine ⟨field, by rw [lookup_update_nil, hfield], ?_⟩
  obtain ⟨e, he, hfrom⟩ := exists_mem_of_forall₂ hrecords.flip (mem_of_last hfield)
  obtain ⟨r', hr', rfl⟩ := List.mem_map.mp ((hentries e).mp he)
  simp only [registered_eq, Except.ok.injEq, Prod.mk.injEq] at hfrom
  exact ⟨r', hr', hfrom.1, hfrom.2.symm⟩

/-- A layout is read when it is not taken for a number. -/
theorem layout_fields_iff {reg : Dict Nat SaField} {nums : List Nat} (hnums : ∀ num ∈ nums, num < 2 ^ 16)
    (fields : List SaField) :
    layout_fields reg (zap_value (nums.flatMap (writeBE 2))) = .ok fields ↔
      nums.length ≠ 4 ∧ List.Forall₂ (fun num field => reg.lookup num = some field) nums fields := by
  have hlength : (nums.flatMap (writeBE 2)).length = nums.length * 2 :=
    length_flatMap_of_length fun num _ => length_writeBE 2 num
  rw [zap_value, hlength]
  by_cases hfour : nums.length = 4
  · rw [if_pos (by omega)]
    simp [layout_fields, hfour]
  · rw [if_neg (by omega), layout_fields, hlength, Nat.mul_div_cancel _ (by decide), mapM_eq_ok_iff]
    have hround : ∀ i (hi : i < nums.length) field, ((do
        let idx ← unpackBE 2 (slice (nums.flatMap (writeBE 2)) (i * 2) 2)
        reg_getitem reg idx) = .ok field ↔ reg.lookup nums[i] = some field) := by
      intro i hi field
      rw [slice_flatMap (fun num _ => length_writeBE 2 num) hi, unpackBE, if_pos (length_writeBE 2 _),
        readBE_writeBE (hnums _ (List.getElem_mem hi)), bind_ok, reg_getitem]
      cases reg.lookup nums[i] <;> simp
    simp only [List.forall₂_iff_get, List.length_range, List.get_eq_getElem, List.getElem_range, ne_eq, hfour,
      not_false_eq_true, true_and]
    constructor
    · rintro ⟨hcount, h⟩
      exact ⟨hcount, fun i hi hi' => (hround i hi _).mp (h i hi hi')⟩
    · rintro ⟨hcount, h⟩
      exact ⟨hcount, fun i hi hi' => (hround i hi _).mpr (h i hi hi')⟩

/-- A layout as the ZAP has it. -/
def layout_item (l : Layout) : String × ZapValue := (toString l.1, zap_value (l.2.flatMap (writeBE 2)))

theorem items_layout (layouts : List Layout) : (layouts.map layout_attribute).map item = layouts.map layout_item := by
  rw [List.map_map]
  exact List.map_congr_left fun l _ => Prod.ext (safe_decode_encode_utf8 (toString l.1)) rfl

section Layouts

variable {layouts : List Layout} {reg : Dict Nat SaField}

theorem mem_layout_entries_iff (hnumbers : (layouts.map Prod.fst).Nodup) (e : String × ZapValue) :
    e ∈ update [] (layouts.map layout_item) ↔ ∃ l ∈ layouts, layout_item l = e := by
  have hdistinct : ((layouts.map layout_item).map Prod.fst).Nodup := by
    have hkeys : (layouts.map layout_item).map Prod.fst = (layouts.map Prod.fst).map toString := by
      rw [List.map_map, List.map_map]
      rfl
    rw [hkeys]
    exact hnumbers.map fun _ _ => toString_injective
  rw [mem_update_iff hdistinct, List.mem_map]

theorem layout_records_iff {l : Layout} (hnums : ∀ num ∈ l.2, num < 2 ^ 16) (y : String × List SaField) :
    layout_records reg (layout_item l) = .ok y ↔ l.2.length ≠ 4 ∧
      List.Forall₂ (fun num field => reg.lookup num = some field) l.2 y.2 ∧ toString l.1 = y.1 := by
  rw [layout_records, layout_item]
  simp only [bind_eq_ok_iff, layout_fields_iff hnums, Except.ok.injEq]
  constructor
  · rintro ⟨fields, ⟨hfour, hall⟩, rfl⟩
    exact ⟨hfour, hall, rfl⟩
  · rintro ⟨hfour, hall, hkey⟩
    exact ⟨y.2, ⟨hfour, hall⟩, Prod.ext hkey rfl⟩

theorem length_ne_of_set_layout (hnumbers : (layouts.map Prod.fst).Nodup)
    (hnums : ∀ l ∈ layouts, ∀ num ∈ l.2, num < 2 ^ 16) {lay : Dict String (List SaField)}
    (hlay : (update [] (layouts.map layout_item)).foldlM (set_layout reg) [] = .ok lay) :
    ∀ l ∈ layouts, l.2.length ≠ 4 := by
  intro l hl
  obtain ⟨records, hloop, _⟩ := (foldlM_set_iff _ _ _).mp hlay
  obtain ⟨y, _, hy⟩ := exists_mem_of_forall₂ hloop ((mem_layout_entries_iff hnumbers _).mpr ⟨l, hl, rfl⟩)
  exact ((layout_records_iff (hnums l hl) y).mp hy).1

/-- The loop over the layouts, when none of them is taken for a number. -/
theorem foldlM_set_layout (hnumbers : (layouts.map Prod.fst).Nodup)
    (hnums : ∀ l ∈ layouts, ∀ num ∈ l.2, num < 2 ^ 16)
    (hreg : ∀ l ∈ layouts, ∀ num ∈ l.2, ∃ field, reg.lookup num = some field) (hfour : ∀ l ∈ layouts, l.2.length ≠ 4) :
    ∃ lay, (update [] (layouts.map layout_item)).foldlM (set_layout reg) [] = .ok lay ∧
      ∀ l ∈ layouts, ∃ fields, lay.lookup (toString l.1) = some fields ∧
        List.Forall₂ (fun num field => reg.lookup num = some field) l.2 fields := by
  have hentries := mem_layout_entries_iff hnumbers
  have hall : ∀ e ∈ update [] (layouts.map layout_item), ∃ y, layout_records reg e = .ok y := by
    intro e he
    obtain ⟨l, hl, rfl⟩ := (hentries e).mp he
    obtain ⟨fields, hfields⟩ := exists_forall₂_iff.mpr (hreg l hl)
    exact ⟨(toString l.1, fields), (layout_records_iff (hnums l hl) _).mpr ⟨hfour l hl, hfields, rfl⟩⟩
  obtain ⟨records, hloop⟩ := exists_forall₂_iff.mpr hall
  refine ⟨_, (foldlM_set_iff _ _ _).mpr ⟨records, hloop, rfl⟩, fun l hl => ?_⟩
  obtain ⟨⟨key, fields⟩, hy, hfrom⟩ := exists_mem_of_forall₂ hloop ((hentries _).mpr ⟨l, hl, rfl⟩)
  obtain ⟨_, _, rfl⟩ := (layout_records_iff (hnums l hl) _).mp hfrom
  obtain ⟨last, hlast⟩ := exists_last_of_mem hy
  refine ⟨last, by rw [lookup_update_nil, hlast], ?_⟩
  -- what is under this key comes from the same layout, for the numbers are distinct
  obtain ⟨e, he, hfrom'⟩ := exists_mem_of_forall₂ hloop.flip (mem_of_last hlast)
  obtain ⟨l', hl', rfl⟩ := (hentries e).mp he
  obtain ⟨_, hfields, hkey⟩ := (layout_records_iff (hnums l' hl') _).mp hfrom'
  have hsame : l' = l := List.inj_on_of_nodup_map hnumbers hl' hl (toString_injective hkey)
  rwa [hsame] at hfields

end Layouts

/-- What the constructor comes down to once the objects are found. -/
theorem init_eq {frames : Nat} (hframes : ZAP_LEAF_NUMCHUNKS ≤ frames) (lower : String → String) {vdev : GenericDevice}
    {dataset : ObjectSet} {caches : Caches} (hcached : dataset.Cached caches) {idx registry_id layout_id : Nat}
    {registry layout : DNode} (hobjects : Objects frames vdev dataset idx registry_id layout_id registry layout)
    {r_attrs l_attrs : List Attribute} (hregistry : StoredZap vdev registry r_attrs)
    (hlayout : StoredZap vdev layout l_attrs) :
    SystemAttr.init frames lower vdev dataset caches idx = (do
      let reg ← (update [] (r_attrs.map item)).foldlM (set_registered lower) []
      let lay ← (update [] (l_attrs.map item)).foldlM (set_layout reg) []
      .ok { sa_layout_id := layout_id, sa_registry_id := registry_id, reg := reg, lay := lay }) := by
  obtain ⟨dnode, entries, hdnode, hentries, hregistry_id, hlayout_id⟩ := hobjects.master
  obtain ⟨hfirst, hcached₁⟩ := ObjectSet.get_dnode_spec hcached none idx
  obtain ⟨hsecond, hcached₂⟩ := ObjectSet.get_dnode_spec hcached₁ none registry_id
  obtain ⟨hthird, _⟩ := ObjectSet.get_dnode_spec hcached₂ none layout_id
  simp only [SystemAttr.init, hfirst, hdnode, zap_of_dnode, hentries, zap_getitem, hregistry_id, hlayout_id, object_id,
    hsecond, hobjects.registry, hthird, hobjects.layout, zap_factory_stored hframes hregistry,
    zap_factory_stored hframes hlayout, zap_entries, bind_ok]

section Loads

variable {frames : Nat} {vdev : GenericDevice} {dataset : ObjectSet} {caches : Caches} {idx registry_id layout_id : Nat}
  {registry layout : DNode} {attrs : List Registered} {layouts : List Layout}

theorem Tables.num_lt (htables : Tables vdev registry layout attrs layouts) :
    ∀ l ∈ layouts, ∀ num ∈ l.2, num < 2 ^ 16 := by
  intro l hl num hnum
  obtain ⟨r, _, rfl⟩ := htables.registered l hl num hnum
  rw [ATTR_NUM, BF32_GET, P2PHASE]
  exact Nat.and_lt_two_pow _ (by decide)

theorem Loads.length_ne (hframes : ZAP_LEAF_NUMCHUNKS ≤ frames) {lower : String → String}
    (hcached : dataset.Cached caches) (hobjects : Objects frames vdev dataset idx registry_id layout_id registry layout)
    (htables : Tables vdev registry layout attrs layouts)
    (h : Loads frames lower vdev dataset caches idx attrs layouts) : ∀ l ∈ layouts, l.2.length ≠ 4 := by
  obtain ⟨sa, hsa, _⟩ := h
  rw [init_eq hframes lower hcached hobjects htables.registry htables.layout, items_layout] at hsa
  obtain ⟨reg, _, hsa⟩ := bind_eq_ok_iff.mp hsa
  obtain ⟨lay, hlay, _⟩ := bind_eq_ok_iff.mp hsa
  exact length_ne_of_set_layout htables.numbers htables.num_lt hlay

/-- The tables load exactly when no layout has four attributes. -/
theorem loads_iff (hframes : ZAP_LEAF_NUMCHUNKS ≤ frames) (lower : String → String) (hcached : dataset.Cached caches)
    (hobjects : Objects frames vdev dataset idx registry_id layout_id registry layout)
    (htables : Tables vdev registry layout attrs layouts) :
    Loads frames lower vdev dataset caches idx attrs layouts ↔ ∀ l ∈ layouts, l.2.length ≠ 4 := by
  refine ⟨Loads.length_ne hframes hcached hobjects htables, fun hfour => ?_⟩
  obtain ⟨reg, hreg, hrecords⟩ := foldlM_set_registered lower htables.words htables.names
  have hknown : ∀ l ∈ layouts, ∀ num ∈ l.2, ∃ field, reg.lookup num = some field := by
    intro l hl num hnum
    obtain ⟨r, hr, rfl⟩ := htables.registered l hl num hnum
    obtain ⟨field, hfield, _⟩ := hrecords r hr
    exact ⟨field, hfield⟩
  obtain ⟨lay, hlay, hfields⟩ := foldlM_set_layout htables.numbers htables.num_lt hknown hfour
  rw [Loads, init_eq hframes lower hcached hobjects htables.registry htables.layout, hreg, bind_ok, items_layout, hlay,
    bind_ok]
  refine ⟨_, rfl, fun l hl => ?_⟩
  obtain ⟨fields, hlookup, hall⟩ := hfields l hl
  refine ⟨fields, hlookup, ((List.forall₂_and_left _ _).mpr ⟨htables.registered l hl, hall⟩).imp fun num field h => ?_⟩
  obtain ⟨⟨r, hr, rfl⟩, hfield⟩ := h
  obtain ⟨field', hfield', hrecord⟩ := hrecords r hr
  rw [hfield] at hfield'
  cases hfield'
  exact hrecord

end Loads

/-- The words of a pointer to the block of 16 KiB at a sector. -/
def plain_words (sector : Nat) : List Nat :=
  [32, sector, 0, 0, 0, 0, 31 + 31 * 2 ^ 16 + 2 * 2 ^ 32 + 2 * 2 ^ 40, 0, 0, 0, 0, 0, 0, 0, 0, 0]

/-- A dnode with two blocks of 16 KiB, the first of them in sector 32. -/
def zap_dnode (sector : Nat) : Bytes :=
  fit 512 ([45, 17, 1, 2, 0, 0, 0, 0] ++ writeLE 2 32 ++ List.replicate 54 0 ++ encode_words (plain_words 32) ++
    encode_words (plain_words sector))

/-- Four attributes of eight bytes each, with the numbers from five on. -/
def four_attributes : List Registered :=
  [("A", 5 + 8 * 2 ^ 24), ("B", 6 + 8 * 2 ^ 24), ("C", 7 + 8 * 2 ^ 24), ("D", 8 + 8 * 2 ^ 24)]

def sa_dnodes : Bytes :=
  fit (1 <<< FZAP_BLOCK_SHIFT) (List.replicate 512 0 ++ zap_dnode 64 ++ zap_dnode 96 ++ zap_dnode 128)

/-- The blocks of a data set with these attributes and one layout: the dnodes,
    the header that all its ZAPs share, and their leaves. -/
def sa_block (nums : List Nat) (sector : Nat) : Bytes :=
  if sector = 0 then sa_dnodes
  else if sector = 32 then plain_header
  else if sector = 64 then small_leaf ([("REGISTRY", 2), ("LAYOUTS", 3)].map qword_attribute)
  else if sector = 96 then small_leaf (four_attributes.map qword_attribute)
  else small_leaf ([(2, nums)].map layout_attribute)

def sa_device (nums : List Nat) : GenericDevice := plain_device (sa_block nums)

def sa_dataset (nums : List Nat) : ObjectSet where
  vdev := sa_device nums
  dnode := DNode.parse_header []
  dnodes_per_block := 32
  blocktree := { levels := 1, vdev := sa_device nums, root := .pointer (plain_pointer 0) }

/-- What is parsed out of such a dnode. -/
def zap_object (sector : Nat) : DNode :=
  { DNode.parse_header (zap_dnode sector) with
    used := 0
    blkptr := some [plain_pointer 32, plain_pointer sector]
    datablksize := some (1 <<< FZAP_BLOCK_SHIFT)
    bonus := some (.raw []) }

theorem parse_zap_dnode {sector : Nat} (h : sector = 64 ∨ sector = 96 ∨ sector = 128) :
    DNode.parse none (zap_dnode sector) = .ok (zap_object sector) := by
  rcases h with rfl | rfl | rfl <;> decide +kernel

theorem pointers_zap_object {sector : Nat} (h : sector = 64 ∨ sector = 96 ∨ sector = 128) :
    BlockPtrArray (slice (zap_object sector).data BLKPTR_OFFSET (2 * 128)) = [plain_pointer 32, plain_pointer sector] := by
  rcases h with rfl | rfl | rfl <;> decide +kernel

section SaDevice

variable {nums : List Nat}

theorem small_layout_attribute (hnums : nums.length ≤ 10) : (layout_attribute (2, nums)).Small where
  name := by
    have htwo : (encode_utf8 (toString (2 : Nat))).length < ZAP_LEAF_ARRAY_BYTES := by decide
    simpa only [layout_attribute] using htwo
  value := by
    rw [length_value]
    exact show nums.length * 2 ≤ 21 by omega
  intlen := show 2 < 256 by omega
  ints := show nums.length < 2 ^ 16 by omega

theorem leaf_sa_block (hnums : nums.length ≤ 10) :
    Leaf (sa_block nums 64) ([("REGISTRY", 2), ("LAYOUTS", 3)].map qword_attribute) ∧
      Leaf (sa_block nums 96) (four_attributes.map qword_attribute) ∧
      Leaf (sa_block nums 128) ([(2, nums)].map layout_attribute) := by
  have hqwords : ∀ es : List (String × Nat), (∀ e ∈ es, (encode_utf8 e.1).length < ZAP_LEAF_ARRAY_BYTES) →
      ∀ a ∈ es.map qword_attribute, a.Small := by
    intro es hes a ha
    obtain ⟨e, he, rfl⟩ := List.mem_map.mp ha
    exact small_qword_attribute (hes e he)
  refine ⟨leaf_small_leaf (by decide) (hqwords _ (by decide)), leaf_small_leaf (by decide) (hqwords _ (by decide)),
    leaf_small_leaf (show 1 * 3 ≤ 638 by omega) fun a ha => ?_⟩
  rw [List.mem_singleton.mp ha]
  exact small_layout_attribute hnums

theorem read_sa_block (hnums : nums.length ≤ 10) {sector : Nat} (hsector : sector < 2 ^ 63) :
    (sa_device nums).read_block (plain_pointer sector) 0 = .ok (some (sa_block nums sector), true) := by
  obtain ⟨hmaster, hregistry, hlayout⟩ := leaf_sa_block hnums
  apply read_block_plain_pointer hsector
  rw [sa_block]
  split
  · exact length_fit _ _
  · split
    · exact header_plain_header.length
    · split
      · exact hmaster.length
      · split
        · exact hregistry.length
        · exact hlayout.length

theorem storedZap_zap_object (hnums : nums.length ≤ 10) {sector : Nat} (h : sector = 64 ∨ sector = 96 ∨ sector = 128)
    {attrs : List Attribute} (hleaf : Leaf (sa_block nums sector) attrs) :
    StoredZap (sa_device nums) (zap_object sector) attrs := by
  refine ⟨plain_header, header_plain_header, [(sa_block nums sector, attrs)], by simpa using hleaf, by simp, rfl, ?_⟩
  have hlevels : (zap_object sector).nlevels = 1 ∧ (zap_object sector).nblkptr = 2 := by
    rcases h with rfl | rfl | rfl <;> decide +kernel
  have hparts : List.Forall₂ (fun bptr part => zap_block (sa_device nums) bptr = .ok part)
      [plain_pointer 32, plain_pointer sector] [plain_header, sa_block nums sector] := by
    have hpart : ∀ sector < 2 ^ 63, zap_block (sa_device nums) (plain_pointer sector) = .ok (sa_block nums sector) := by
      intro sector hsector
      rw [zap_block, read_sa_block hnums hsector]
      rfl
    exact .cons (hpart 32 (by decide)) (.cons (hpart sector (by omega)) .nil)
  have hdata := blockptrar_data_eq hparts []
  rw [zap_data, DNode.blkptrs_eq rfl, index_of_lt (by simp), bind_ok, if_pos hlevels.1, hlevels.2,
    pointers_zap_object h]
  change (blockptrar_data (sa_device nums) _ 2 >>= _) = _
  rw [List.append_nil] at hdata
  rw [show 2 = [plain_pointer 32, plain_pointer sector].length from rfl, hdata]
  rfl

theorem lookup_sa_dataset (hnums : nums.length ≤ 10) {i sector : Nat}
    (h : i = 1 ∧ sector = 64 ∨ i = 2 ∧ sector = 96 ∨ i = 3 ∧ sector = 128) :
    (sa_dataset nums).lookup none i = .ok (some (zap_object sector)) := by
  have hslice : slice sa_dnodes (i * 512) 512 = zap_dnode sector := by
    rcases h with ⟨rfl, rfl⟩ | ⟨rfl, rfl⟩ | ⟨rfl, rfl⟩ <;> decide +kernel
  have hfetch : (sa_dataset nums).fetch_block 0 = .ok (some sa_dnodes) := by
    have hread : (sa_device nums).read_block (plain_pointer 0) 0 = .ok (some sa_dnodes, true) :=
      read_sa_block hnums (by decide)
    have htruthy : truthy (some sa_dnodes) = true :=
      truthy_iff.mpr ⟨sa_dnodes, rfl, List.ne_nil_of_length_pos (by rw [sa_dnodes, length_fit]; decide)⟩
    change load_dnode_block (sa_device nums) (some (plain_pointer 0)) = _
    rw [load_dnode_block, read_copies_first hread htruthy]
    rfl
  have hindex : (i : Int) / (32 : Nat) = 0 ∧ ((i : Int) % (32 : Nat)).toNat = i := by omega
  have hcount : (sa_dataset nums).dnodes_per_block ≠ 0 := show 32 ≠ 0 by omega
  rw [ObjectSet.lookup, if_neg hcount]
  change ((sa_dataset nums).fetch_block ((i : Int) / (32 : Nat)) >>= fun data =>
    dnode_at none ((i : Int) % (32 : Nat)).toNat data) = _
  have hsector : sector = 64 ∨ sector = 96 ∨ sector = 128 := by omega
  rw [hindex.1, hindex.2, hfetch, bind_ok, dnode_at, Option.map_some, hslice, DNode.from_data, parse_zap_dnode hsector]
  rfl

theorem objects_sa_dataset (hnums : nums.length ≤ 10) :
    Objects 1000 (sa_device nums) (sa_dataset nums) 1 2 3 (zap_object 96) (zap_object 128) where
  master := by
    have hstored := storedZap_zap_object hnums (.inl rfl) (leaf_sa_block hnums).1
    have hwords : ∀ r ∈ [("REGISTRY", 2), ("LAYOUTS", 3)], r.2 < 2 ^ 64 := by decide
    refine ⟨_, _, lookup_sa_dataset hnums (.inl ⟨rfl, rfl⟩), zap_factory_stored (by decide) hstored, ?_, ?_⟩
    · rw [items_registry hwords]
      decide
    · rw [items_registry hwords]
      decide
  registry := lookup_sa_dataset hnums (.inr (.inl ⟨rfl, rfl⟩))
  layout := lookup_sa_dataset hnums (.inr (.inr ⟨rfl, rfl⟩))

theorem tables_sa_dataset (hnums : nums.length ≤ 10) (hregistered : ∀ num ∈ nums, num ∈ [5, 6, 7, 8]) :
    Tables (sa_device nums) (zap_object 96) (zap_object 128) four_attributes [(2, nums)] where
  registry := storedZap_zap_object hnums (.inr (.inl rfl)) (leaf_sa_block hnums).2.1
  layout := storedZap_zap_object hnums (.inr (.inr rfl)) (leaf_sa_block hnums).2.2
  words := by decide
  names := by decide
  numbers := List.nodup_singleton _
  registered := by
    have hfour : ∀ num ∈ [5, 6, 7, 8], ∃ r ∈ four_attributes, ATTR_NUM r.2 = num := by decide
    intro l hl num hnum
    rw [List.mem_singleton.mp hl] at hnum
    exact hfour num (hregistered num hnum)

end SaDevice

theorem loads_three_attributes :
    Loads 1000 String.toLower (sa_device [5, 6, 7]) (sa_dataset [5, 6, 7]) {} 1 four_attributes [(2, [5, 6, 7])] := by
  have hnums : [5, 6, 7].length ≤ 10 := by decide
  exact (loads_iff (show ZAP_LEAF_NUMCHUNKS ≤ 1000 by decide) String.toLower (ObjectSet.cached_empty _)
    (objects_sa_dataset hnums) (tables_sa_dataset hnums (by decide))).mpr (by decide)

/-- A layout of four attributes keeps all tables from being loaded. -/
theorem not_loads_four_attributes :
    Objects 1000 (sa_device [5, 6, 7, 8]) (sa_dataset [5, 6, 7, 8]) 1 2 3 (zap_object 96) (zap_object 128) ∧
      Tables (sa_device [5, 6, 7, 8]) (zap_object 96) (zap_object 128) four_attributes [(2, [5, 6, 7, 8])] ∧
      ¬Loads 1000 String.toLower (sa_device [5, 6, 7, 8]) (sa_dataset [5, 6, 7, 8]) {} 1 four_attributes
        [(2, [5, 6, 7, 8])] := by
  have hnums : [5, 6, 7, 8].length ≤ 10 := by decide
  have hobjects := objects_sa_dataset hnums
  have htables := tables_sa_dataset hnums (by decide)
  refine ⟨hobjects, htables, fun hloads => ?_⟩
  exact hloads.length_ne (by decide) (ObjectSet.cached_empty _) hobjects htables _ (List.mem_singleton_self _) rfl

end zfs_rescue.sa
