import ZfsRescue.Zap.Blocks

open bytes dict
open zfs_rescue.extractor.zap_leaf

namespace zfs_rescue.zap

/-- What a name that is not UTF-8 is decoded to. -/
def fallback (val : Bytes) : String :=
  match decode_cp1251 val with
  | .ok s => s
  | .error _ => decode_latin1 val

/-- The name `x` is not UTF-8, and `y` is what it is decoded to, in UTF-8. -/
def Clash (x y : Bytes) : Prop := (∃ e, decode_utf8 x = .error e) ∧ y = encode_utf8 (fallback x)

theorem decode_utf8_eq_ok_iff {xs : Bytes} {s : String} : decode_utf8 xs = .ok s ↔ xs = encode_utf8 s := by
  constructor
  · intro h
    unfold decode_utf8 at h
    split at h
    · rename_i t ht
      cases h
      unfold String.fromUTF8? at ht
      split at ht
      · cases ht
        rfl
      · cases ht
    · cases h
  · rintro rfl
    exact decode_encode_utf8 s

theorem safe_decode_of_utf8 {xs : Bytes} {s : String} (h : decode_utf8 xs = .ok s) : safe_decode_string xs = s := by
  rw [safe_decode_string, h]

theorem safe_decode_of_error {xs : Bytes} {e : PyErr} (h : decode_utf8 xs = .error e) :
    safe_decode_string xs = fallback xs := by
  rw [safe_decode_string, h]
  rfl

/-- The code point of a byte in CP1251. -/
def cp1251 (b : UInt8) : Nat := if b < 0x80 then b.toNat else cp1251_upper.getD (b.toNat - 0x80) 0

theorem cp1251_upper_spec :
    cp1251_upper.Nodup ∧ cp1251_upper.length = 128 ∧ cp1251_upper.getD 0x18 0 = 0 ∧
      ∀ v ∈ cp1251_upper, v ≠ 0x98 ∧ v < 0xd800 ∧ (v = 0 ∨ 0x80 ≤ v) := by
  decide +kernel

/-- The entry of a byte in the upper half. -/
theorem cp1251_of_upper {b : UInt8} (hb : ¬b < 0x80) :
    ∃ h : b.toNat - 0x80 < cp1251_upper.length, cp1251 b = cp1251_upper[b.toNat - 0x80] := by
  have hlt := b.toNat_lt
  have hle : 0x80 ≤ b.toNat := UInt8.le_iff_toNat_le.mp (UInt8.not_lt.mp hb)
  have hin : b.toNat - 0x80 < cp1251_upper.length := by
    rw [cp1251_upper_spec.2.1]
    omega
  exact ⟨hin, by rw [cp1251, if_neg hb, List.getD_eq_getElem _ _ hin]⟩

/-- A byte with a character has one of its own half. -/
theorem cp1251_spec {b : UInt8} (hb : b ≠ 0x98) :
    cp1251 b ≠ 0x98 ∧ cp1251 b < 0xd800 ∧ (b < 0x80 ↔ cp1251 b < 0x80) := by
  obtain ⟨hnodup, hlength, hzero, hvalues⟩ := cp1251_upper_spec
  by_cases hlow : b < 0x80
  · have hlt : b.toNat < 0x80 := UInt8.lt_iff_toNat_lt.mp hlow
    rw [cp1251, if_pos hlow]
    exact ⟨by omega, by omega, iff_of_true hlow hlt⟩
  · obtain ⟨hin, hvalue⟩ := cp1251_of_upper hlow
    obtain ⟨h98, hlt, hup⟩ := hvalues _ (List.getElem_mem hin)
    rw [hvalue]
    refine ⟨h98, hlt, iff_of_false hlow ?_⟩
    rcases hup with h0 | hup
    · rw [List.getD_eq_getElem _ _ (by rw [hlength]; decide)] at hzero
      have hsame := (List.Nodup.getElem_inj_iff hnodup).mp (h0.trans hzero.symm)
      have hle : 0x80 ≤ b.toNat := UInt8.le_iff_toNat_le.mp (UInt8.not_lt.mp hlow)
      exact absurd (UInt8.toNat_inj.mp (show b.toNat = (0x98 : UInt8).toNat by change b.toNat = 0x98; omega)) hb
    · omega

theorem cp1251_injective {b c : UInt8} (hb : b ≠ 0x98) (hc : c ≠ 0x98) (h : cp1251 b = cp1251 c) : b = c := by
  have hhalf := (cp1251_spec hb).2.2.trans (h ▸ (cp1251_spec hc).2.2.symm)
  by_cases hlow : b < 0x80
  · rw [cp1251, if_pos hlow, cp1251, if_pos (hhalf.mp hlow)] at h
    exact UInt8.toNat_inj.mp h
  · have hlow' : ¬c < 0x80 := fun hc => hlow (hhalf.mpr hc)
    obtain ⟨hin, hvalue⟩ := cp1251_of_upper hlow
    obtain ⟨hin', hvalue'⟩ := cp1251_of_upper hlow'
    rw [hvalue, hvalue'] at h
    have hsame := (List.Nodup.getElem_inj_iff cp1251_upper_spec.1).mp h
    have hle : 0x80 ≤ b.toNat := UInt8.le_iff_toNat_le.mp (UInt8.not_lt.mp hlow)
    have hle' : 0x80 ≤ c.toNat := UInt8.le_iff_toNat_le.mp (UInt8.not_lt.mp hlow')
    exact UInt8.toNat_inj.mp (by omega)

theorem toNat_ofNat_of_lt {n : Nat} (h : n < 0xd800) : (Char.ofNat n).toNat = n := by
  have hvalid : n.isValidChar := .inl h
  rw [Char.ofNat, dif_pos hvalid]
  rfl

/-- Texts of mapped characters are equal when their bytes are, if the map is
    one to one on them. -/
theorem ofList_map_injective {f : UInt8 → Nat} {P : UInt8 → Prop} (hinj : ∀ b c, P b → P c → f b = f c → b = c)
    (hlt : ∀ b, P b → f b < 0xd800) {xs ys : Bytes} (hxs : ∀ b ∈ xs, P b) (hys : ∀ b ∈ ys, P b)
    (h : String.ofList (xs.map fun b => Char.ofNat (f b)) = String.ofList (ys.map fun b => Char.ofNat (f b))) : xs = ys := by
  have hchars := String.ofList_injective h
  clear h
  induction xs generalizing ys with
  | nil => exact (List.map_eq_nil_iff.mp hchars.symm).symm
  | cons b xs ih =>
    cases ys with
    | nil => cases hchars
    | cons c ys =>
      rw [List.map_cons, List.map_cons, List.cons.injEq] at hchars
      have hb := hxs b List.mem_cons_self
      have hc := hys c List.mem_cons_self
      have hnat := congrArg Char.toNat hchars.1
      rw [toNat_ofNat_of_lt (hlt b hb), toNat_ofNat_of_lt (hlt c hc)] at hnat
      rw [hinj b c hb hc hnat, ih (fun x hx => hxs x (List.mem_cons_of_mem _ hx))
        (fun x hx => hys x (List.mem_cons_of_mem _ hx)) hchars.2]

theorem decode_cp1251_of_mem {xs : Bytes} (h : 0x98 ∈ xs) : fallback xs = decode_latin1 xs := by
  rw [fallback, decode_cp1251, if_pos h]

theorem decode_cp1251_of_not_mem {xs : Bytes} (h : 0x98 ∉ xs) :
    fallback xs = String.ofList (xs.map fun b => Char.ofNat (cp1251 b)) := by
  rw [fallback, decode_cp1251, if_neg h]
  rfl

theorem decode_latin1_injective {xs ys : Bytes} (h : decode_latin1 xs = decode_latin1 ys) : xs = ys := by
  have hlt : ∀ b : UInt8, b.toNat < 0xd800 := fun b => Nat.lt_trans b.toNat_lt (by decide)
  exact @ofList_map_injective UInt8.toNat (fun _ => True) (fun _ _ _ _ => UInt8.toNat_inj.mp) (fun b _ => hlt b) xs ys
    (fun _ _ => trivial) (fun _ _ => trivial) h

/-- Only Latin-1 gives the character of its undefined byte. -/
theorem latin1_ne_cp1251 {xs ys : Bytes} (hxs : 0x98 ∈ xs) (hys : 0x98 ∉ ys) : fallback xs ≠ fallback ys := by
  rw [decode_cp1251_of_mem hxs, decode_cp1251_of_not_mem hys]
  intro h
  have hchars := String.ofList_injective h
  have hmem : Char.ofNat 0x98 ∈ ys.map fun b => Char.ofNat (cp1251 b) := by
    rw [← hchars]
    exact List.mem_map.mpr ⟨0x98, hxs, rfl⟩
  obtain ⟨b, hb, heq⟩ := List.mem_map.mp hmem
  have hne : b ≠ 0x98 := fun h98 => hys (h98 ▸ hb)
  obtain ⟨hrange, hlt, -⟩ := cp1251_spec hne
  have hnat := congrArg Char.toNat heq
  rw [toNat_ofNat_of_lt hlt, toNat_ofNat_of_lt (by decide)] at hnat
  exact hrange hnat

theorem fallback_injective {xs ys : Bytes} (h : fallback xs = fallback ys) : xs = ys := by
  by_cases hxs : 0x98 ∈ xs
  · by_cases hys : 0x98 ∈ ys
    · rw [decode_cp1251_of_mem hxs, decode_cp1251_of_mem hys] at h
      exact decode_latin1_injective h
    · exact absurd h (latin1_ne_cp1251 hxs hys)
  · by_cases hys : 0x98 ∈ ys
    · exact absurd h.symm (latin1_ne_cp1251 hys hxs)
    · rw [decode_cp1251_of_not_mem hxs, decode_cp1251_of_not_mem hys] at h
      exact @ofList_map_injective cp1251 (fun b => b ≠ 0x98) (fun _ _ => cp1251_injective) (fun _ hb => (cp1251_spec hb).2.1)
        xs ys (fun b hb h98 => hxs (h98 ▸ hb)) (fun b hb h98 => hys (h98 ▸ hb)) h

/-- Two names are decoded alike when they are one, or when one of them is the
    text of the other in UTF-8. -/
theorem safe_decode_string_eq_iff {x y : Bytes} :
    safe_decode_string x = safe_decode_string y ↔ x = y ∨ Clash x y ∨ Clash y x := by
  constructor
  · intro h
    rcases hx : decode_utf8 x with e | s <;> rcases hy : decode_utf8 y with e' | t
    · rw [safe_decode_of_error hx, safe_decode_of_error hy] at h
      exact .inl (fallback_injective h)
    · rw [safe_decode_of_error hx, safe_decode_of_utf8 hy] at h
      exact .inr (.inl ⟨⟨e, hx⟩, by rw [h]; exact decode_utf8_eq_ok_iff.mp hy⟩)
    · rw [safe_decode_of_utf8 hx, safe_decode_of_error hy] at h
      exact .inr (.inr ⟨⟨e', hy⟩, by rw [← h]; exact decode_utf8_eq_ok_iff.mp hx⟩)
    · rw [safe_decode_of_utf8 hx, safe_decode_of_utf8 hy] at h
      rw [decode_utf8_eq_ok_iff.mp hx, decode_utf8_eq_ok_iff.mp hy, h]
      exact .inl rfl
  · have hclash : ∀ {a b : Bytes}, Clash a b → safe_decode_string a = safe_decode_string b := by
      rintro a b ⟨⟨e, he⟩, rfl⟩
      rw [safe_decode_of_error he, safe_decode_encode_utf8]
    rintro (rfl | h | h)
    · rfl
    · exact hclash h
    · exact (hclash h).symm

theorem safe_decode_nil : safe_decode_string [] = "" := by
  have hnil : encode_utf8 "" = [] := rfl
  rw [← hnil, safe_decode_encode_utf8]

/-- Only the empty name is decoded to the empty text. -/
theorem safe_decode_eq_empty_iff {x : Bytes} : safe_decode_string x = "" ↔ x = [] := by
  constructor
  · intro h
    rcases hx : decode_utf8 x with e | s
    · rw [safe_decode_of_error hx] at h
      have hnil : fallback [] = "" := rfl
      exact fallback_injective (h.trans hnil.symm)
    · rw [safe_decode_of_utf8 hx] at h
      rw [decode_utf8_eq_ok_iff.mp hx, h]
      rfl
  · rintro rfl
    exact safe_decode_nil

/-- No two of the names are decoded to one. -/
def NoClash (names : List Bytes) : Prop := ∀ x ∈ names, ∀ y ∈ names, ¬Clash x y

/-- Distinct names stay distinct exactly when none is the text of another. -/
theorem nodup_decoded_iff {names : List Bytes} (hdistinct : names.Nodup) :
    (names.map safe_decode_string).Nodup ↔ NoClash names := by
  rw [List.nodup_map_iff_inj_on hdistinct]
  constructor
  · rintro hinj x hx y hy hclash
    have heq := hinj x hx y hy (safe_decode_string_eq_iff.mpr (.inr (.inl hclash)))
    obtain ⟨⟨e, he⟩, htext⟩ := hclash
    rw [heq, htext, decode_encode_utf8] at he
    cases he
  · intro hclash x hx y hy h
    rcases safe_decode_string_eq_iff.mp h with heq | hxy | hyx
    · exact heq
    · exact absurd hxy (hclash x hx y hy)
    · exact absurd hyx (hclash y hy x hx)

/-- There are as many names as entries, and every value is under its own. -/
def KeepsNames (entries : Entries) (stored : List (Bytes × ZapValue)) : Prop :=
  entries.length = stored.length ∧ ∀ e ∈ stored, entries.lookup (safe_decode_string e.1) = some e.2

/-- What the dictionary gets of the stored entries. -/
def decoded_items (stored : List (Bytes × ZapValue)) : List (String × ZapValue) :=
  stored.map fun e => (safe_decode_string e.1, e.2)

theorem keepsNames_iff {stored : List (Bytes × ZapValue)} (hdistinct : (stored.map Prod.fst).Nodup) :
    KeepsNames (update [] (decoded_items stored)) stored ↔ NoClash (stored.map Prod.fst) := by
  have hlength : (decoded_items stored).length = stored.length := List.length_map _
  have hnames : (decoded_items stored).map Prod.fst = (stored.map Prod.fst).map safe_decode_string := by
    rw [decoded_items, List.map_map, List.map_map]
    rfl
  rw [← nodup_decoded_iff hdistinct, ← hnames]
  constructor
  · rintro ⟨hcount, _⟩
    exact (length_update_eq_iff _).mp (hcount.trans hlength.symm)
  · intro hnodup
    refine ⟨((length_update_eq_iff _).mpr hnodup).trans hlength, fun e he => ?_⟩
    exact (represents_update hnodup _ _).mpr (List.mem_map.mpr ⟨e, he, rfl⟩)

/-- The name and the value of entry `n` of a micro ZAP. -/
def MicroZap.stored_entry (data : Bytes) (n : Nat) : Bytes × ZapValue :=
  (rstrip_nul (slice data (64 + 64 * n + 14) 50), .int (readLE (slice data (64 + 64 * n) 8)))

/-- Its entries in use: those with a name. -/
def MicroZap.stored (data : Bytes) : List (Bytes × ZapValue) :=
  ((List.range ((data.length - 64) / 64)).map (MicroZap.stored_entry data)).filter fun e => e.1 ≠ []

/-- One round of the loop over the entries. -/
theorem MicroZap.set_entry_eq {data : Bytes} {n : Nat} (hn : n < (data.length - 64) / 64) (entries : Entries) :
    MicroZap.set_entry data entries (64 + 64 * n) =
      .ok (if (MicroZap.stored_entry data n).1 ≠ [] then
        set entries (safe_decode_string (MicroZap.stored_entry data n).1) (MicroZap.stored_entry data n).2
      else entries) := by
  have hlength : ((slice data (64 + 64 * n) 64).take 64).length = 64 := by
    rw [List.length_take, length_slice]
    omega
  rw [MicroZap.set_entry, MicroZap.parse_entry, if_pos hlength, bind_ok, slice_slice _ (by omega),
    slice_slice _ (by omega), Nat.add_zero]
  simp only [ne_eq, safe_decode_eq_empty_iff]
  rfl

theorem MicroZap.foldlM_set_entry {data : Bytes} {ns : List Nat} (hns : ∀ n ∈ ns, n < (data.length - 64) / 64)
    (entries : Entries) :
    (ns.map fun n => 64 + 64 * n).foldlM (MicroZap.set_entry data) entries =
      .ok (update entries (decoded_items ((ns.map (MicroZap.stored_entry data)).filter fun e => e.1 ≠ []))) := by
  induction ns generalizing entries with
  | nil => rfl
  | cons n ns ih =>
    rw [List.map_cons, List.foldlM_cons, MicroZap.set_entry_eq (hns n (by simp)), bind_ok,
      ih fun m hm => hns m (by simp [hm]), List.map_cons]
    by_cases hname : (MicroZap.stored_entry data n).1 = []
    · rw [if_neg (by simpa using hname), List.filter_cons_of_neg (by simpa using hname)]
    · rw [if_pos hname, List.filter_cons_of_pos (by simpa using hname)]
      rfl

/-- A micro ZAP is parsed into its entries in use. -/
theorem MicroZap.parse_eq {data : Bytes} (hlength : 128 ≤ data.length) (htype : readLE (data.take 8) = ZBT_MICRO) :
    MicroZap.parse data = .ok (update [] (decoded_items (MicroZap.stored data))) := by
  rw [MicroZap.parse, if_neg (by omega), if_neg (not_not_intro htype),
    MicroZap.foldlM_set_entry fun n hn => List.mem_range.mp hn, MicroZap.stored]

/-- The entries of some leaves, with their names as they are stored. -/
def FatZap.stored (leaves : List (Bytes × List Attribute)) : List (Bytes × ZapValue) :=
  (leaves.flatMap Prod.snd).map fun a => (a.name, zap_value a.value)

/-- A fat ZAP of leaves only is parsed into their entries. -/
theorem FatZap.parse_eq {frames : Nat} (hframes : ZAP_LEAF_NUMCHUNKS ≤ frames) {header : Bytes} (hheader : Header header)
    {leaves : List (Bytes × List Attribute)} (hleaves : ∀ leaf ∈ leaves, Leaf leaf.1 leaf.2) :
    FatZap.parse (1 <<< FZAP_BLOCK_SHIFT) frames (header ++ (leaves.map Prod.fst).flatten) =
      .ok (update [] (decoded_items (FatZap.stored leaves))) := by
  have hblocks : ∀ block ∈ leaves.map Prod.fst, block.length = 1 <<< FZAP_BLOCK_SHIFT := by
    intro block hblock
    obtain ⟨leaf, hleaf, rfl⟩ := List.mem_map.mp hblock
    exact (hleaves leaf hleaf).length
  rw [parse_iff hframes hheader.length hblocks]
  refine ⟨leaves.map fun leaf => leaf.2.map item, ?_, ?_⟩
  · rw [List.forall₂_map_left_iff, List.forall₂_map_right_iff, List.forall₂_same]
    exact fun leaf hleaf => Leaf.holds (hleaves leaf hleaf)
  · rw [decoded_items, FatZap.stored, List.map_map, List.flatMap_def, List.map_flatten, List.map_map]
    rfl

/-- Entries with distinct names are all kept, each under its own, exactly when
    no name is the text of another one that is not UTF-8. -/
theorem names_kept_iff (data header : Bytes) (frames : Nat) (leaves : List (Bytes × List Attribute)) :
    (128 ≤ data.length → readLE (data.take 8) = ZBT_MICRO → ((MicroZap.stored data).map Prod.fst).Nodup →
        ((∃ entries, MicroZap.parse data = .ok entries ∧ KeepsNames entries (MicroZap.stored data)) ↔
          NoClash ((MicroZap.stored data).map Prod.fst))) ∧
      (ZAP_LEAF_NUMCHUNKS ≤ frames → Header header → (∀ leaf ∈ leaves, Leaf leaf.1 leaf.2) →
        ((FatZap.stored leaves).map Prod.fst).Nodup →
        ((∃ entries,
            FatZap.parse (1 <<< FZAP_BLOCK_SHIFT) frames (header ++ (leaves.map Prod.fst).flatten) = .ok entries ∧
              KeepsNames entries (FatZap.stored leaves)) ↔
          NoClash ((FatZap.stored leaves).map Prod.fst))) := by
  constructor
  · intro hlength htype hdistinct
    rw [MicroZap.parse_eq hlength htype, ← keepsNames_iff hdistinct]
    exact ⟨fun ⟨_, heq, hkept⟩ => Except.ok.inj heq ▸ hkept, fun hkept => ⟨_, rfl, hkept⟩⟩
  · intro hframes hheader hleaves hdistinct
    rw [FatZap.parse_eq hframes hheader hleaves, ← keepsNames_iff hdistinct]
    exact ⟨fun ⟨_, heq, hkept⟩ => Except.ok.inj heq ▸ hkept, fun hkept => ⟨_, rfl, hkept⟩⟩

/-- A micro ZAP of two entries. -/
def two_entries (first second : Bytes) : Bytes :=
  fit 64 (writeLE 8 ZBT_MICRO) ++ fit 64 (writeLE 8 7 ++ List.replicate 6 0 ++ first) ++
    fit 64 (writeLE 8 8 ++ List.replicate 6 0 ++ second)

theorem two_entries_cyrillic :
    (128 ≤ (two_entries [0xd0, 0xb0] [0xe0]).length ∧ readLE ((two_entries [0xd0, 0xb0] [0xe0]).take 8) = ZBT_MICRO) ∧
      MicroZap.stored (two_entries [0xd0, 0xb0] [0xe0]) = [([0xd0, 0xb0], .int 7), ([0xe0], .int 8)] ∧
      MicroZap.parse (two_entries [0xd0, 0xb0] [0xe0]) = .ok [("а", .int 8)] := by
  decide +kernel

/-- One letter, once in UTF-8 and once in CP1251: the first entry is lost. -/
theorem not_keepsNames_cyrillic :
    ((MicroZap.stored (two_entries [0xd0, 0xb0] [0xe0])).map Prod.fst).Nodup ∧
      (∀ e ∈ MicroZap.stored (two_entries [0xd0, 0xb0] [0xe0]), e.1 ≠ []) ∧
      MicroZap.parse (two_entries [0xd0, 0xb0] [0xe0]) = .ok [("а", .int 8)] ∧
      ¬KeepsNames [("а", .int 8)] (MicroZap.stored (two_entries [0xd0, 0xb0] [0xe0])) := by
  obtain ⟨_, hstored, hparse⟩ := two_entries_cyrillic
  rw [hstored]
  refine ⟨by decide, by decide, hparse, ?_⟩
  rintro ⟨hcount, _⟩
  cases hcount

/-- A micro ZAP and a leaf, both with names in ASCII. -/
theorem names_kept_ascii :
    (∃ entries, MicroZap.parse (two_entries [0x61] [0x62]) = .ok entries ∧
        KeepsNames entries (MicroZap.stored (two_entries [0x61] [0x62]))) ∧
      ∃ entries, FatZap.parse (1 <<< FZAP_BLOCK_SHIFT) 1000
          (plain_header ++ (([((letter_leaf "a" 7 false).data, [qword_attribute ("a", 7)])] :
            List (Bytes × List Attribute)).map Prod.fst).flatten) = .ok entries ∧
        KeepsNames entries (FatZap.stored [((letter_leaf "a" 7 false).data, [qword_attribute ("a", 7)])]) := by
  obtain ⟨hlength, htype, hstored⟩ : 128 ≤ (two_entries [0x61] [0x62]).length ∧
      readLE ((two_entries [0x61] [0x62]).take 8) = ZBT_MICRO ∧
      (MicroZap.stored (two_entries [0x61] [0x62])).map Prod.fst = [[0x61], [0x62]] := by
    decide +kernel
  have hutf8 : ∀ x ∈ ([[0x61], [0x62]] : List Bytes), ∃ s, decode_utf8 x = .ok s := by
    have ha : decode_utf8 [0x61] = .ok "a" := by decide +kernel
    have hb : decode_utf8 [0x62] = .ok "b" := by decide +kernel
    simpa using ⟨⟨_, ha⟩, _, hb⟩
  have hclash : ∀ names : List Bytes, (∀ x ∈ names, ∃ s, decode_utf8 x = .ok s) → NoClash names := by
    rintro names hnames x hx y _ ⟨⟨e, he⟩, _⟩
    obtain ⟨s, hs⟩ := hnames x hx
    rw [hs] at he
    cases he
  obtain ⟨hmicro, hfat⟩ := names_kept_iff (two_entries [0x61] [0x62]) plain_header 1000
    [((letter_leaf "a" 7 false).data, [qword_attribute ("a", 7)])]
  constructor
  · exact (hmicro hlength htype (by rw [hstored]; decide)).mpr (by rw [hstored]; exact hclash _ hutf8)
  · have hnames : (FatZap.stored [((letter_leaf "a" 7 false).data, [qword_attribute ("a", 7)])]).map Prod.fst =
        [encode_utf8 "a"] := rfl
    refine (hfat (by decide) header_plain_header ?_ ?_).mpr ?_
    · intro leaf hleaf
      rw [List.mem_singleton.mp hleaf]
      exact (stored_letter_leaf false (by decide) (by decide)).leaf
    · rw [hnames]
      exact List.nodup_singleton _
    · rw [hnames]
      refine hclash _ fun x hx => ?_
      rw [List.mem_singleton.mp hx]
      exact ⟨"a", decode_encode_utf8 "a"⟩

end zfs_rescue.zap
