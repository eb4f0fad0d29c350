import ZfsRescue.Nvpair
import ZfsRescue.Nvpair.Format

open bytes dict

namespace zfs_rescue.nvpair

variable {parse : Bytes → Py (NVList × Bytes)}

/-- The types whose values the parser reads element by element. -/
def supported : List Nat :=
  [DATA_TYPE_UINT32, DATA_TYPE_UINT64, DATA_TYPE_STRING, DATA_TYPE_NVLIST, DATA_TYPE_NVLIST_ARRAY]

/-- A single element stands without its list. -/
def single : List Value → Value
  | [v] => v
  | vs => .list vs

/-- The elements of a value of a supported type. `nested` says what a nested list is
    returned as. -/
def DataReads (nested : xdr.NVList → NVList → Prop) : xdr.NVData → List Value → Prop
  | .uint32 vs, values => values = vs.map .uint
  | .uint64 vs, values => values = vs.map .uint
  | .string vs, values => List.Forall₂ (fun s v => ∃ t, decode_ascii s = .ok t ∧ v = .str t) vs values
  | .nvlist ls, values => List.Forall₂ (fun l v => ∃ d, nested l d ∧ v = .nvlist d) ls values
  | .nvlist_array ls, values => List.Forall₂ (fun l v => ∃ d, nested l d ∧ v = .nvlist d) ls values
  | .other _ _ _, _ => False

/-- The round of a pair takes the pair and no more, and when its type is supported the
    dictionary has its name and its value. -/
structure PairDecodes (parse : Bytes → Py (NVList × Bytes)) (nested : xdr.NVList → NVList → Prop) (d : NVList)
    (p : xdr.NVPair) : Prop where
  consumed : ∃ item, ∀ rest, NVPairParser.read_pair parse (p.encode ++ rest) = .ok (some item, rest)
  returned : p.data.type ∈ supported → ∃ name values, decode_ascii p.name = .ok name ∧
    DataReads nested p.data values ∧ d.lookup name = some (single values)

/-- The parser takes a list and no more and returns the dictionary, and it does so for
    each pair at each level. -/
def Decodes : Nat → xdr.NVList → NVList → Prop
  | 0, _, _ => False
  | frames + 1, l, d =>
    (∀ rest, NVPairParser.parse_stream (frames + 1) (l.encode ++ rest) = .ok (d, rest)) ∧
      ∀ p ∈ l.pairs, PairDecodes (NVPairParser.parse_stream frames) (Decodes frames) d p

def Ascii (s : Bytes) : Prop := ∀ b ∈ s, b.toNat < 128

/-- The value of a type that is not supported is one element, or takes no bytes. -/
def ReadableData (nested : xdr.NVList → Prop) : xdr.NVData → Prop
  | .string vs => ∀ s ∈ vs, Ascii s
  | .nvlist ls => ∀ l ∈ ls, nested l
  | .nvlist_array ls => ∀ l ∈ ls, nested l
  | .other _ count value => count = 1 ∨ value = []
  | _ => True

def Readable : Nat → xdr.NVList → Prop
  | 0, _ => False
  | frames + 1, l => ∀ p ∈ l.pairs, Ascii p.name ∧ ReadableData (Readable frames) p.data

theorem read_nat (size : Nat) (stream : Bytes) : read size stream = (stream.take size, stream.drop size) :=
  if_neg (Int.not_lt.mpr (Int.natCast_nonneg size))

theorem read_append {xs : Bytes} {size : Int} (hsize : size = xs.length) (rest : Bytes) :
    read size (xs ++ rest) = (xs, rest) := by
  rw [hsize, read_nat, List.take_left, List.drop_left]

theorem read_uint32_append {v : Nat} (hv : v < 2 ^ 32) (rest : Bytes) :
    read_uint32 (writeBE 4 v ++ rest) = .ok (v, rest) := by
  rw [read_uint32, read_append (by simp)]
  simp [unpackBE, readBE_writeBE (k := 4) hv]

theorem read_uint64_append {v : Nat} (hv : v < 2 ^ 64) (rest : Bytes) :
    read_uint64 (writeBE 8 v ++ rest) = .ok (v, rest) := by
  rw [read_uint64, read_append (by simp)]
  simp [unpackBE, readBE_writeBE (k := 8) hv]

theorem read_string_append {s : Bytes} (hs : s.length < 2 ^ 32) (rest : Bytes) :
    read_string (xdr.string s ++ rest) =
      (decode_ascii s >>= fun t => .ok ((t, xdr.padded s.length + 4), rest)) := by
  have hle := xdr.le_padded s.length
  have hread : read (align4 s.length)
      (s ++ List.replicate (xdr.padded s.length - s.length) 0 ++ rest) =
      (s ++ List.replicate (xdr.padded s.length - s.length) 0, rest) := by
    apply read_append
    simp only [List.length_append, List.length_replicate, align4]
    unfold xdr.padded at hle ⊢
    omega
  rw [read_string, xdr.string, List.append_assoc, read_uint32_append hs, bind_ok]
  simp only [hread, List.take_left]
  rfl

/-- Elements that are read one by one are read in a row. -/
theorem read_values_append {α : Type} {data_type : Nat} {size : Int} {encode : α → Bytes} {xs : List α}
    {values : List Value}
    (h : List.Forall₂ (fun x v => ∀ rest, NVPairParser.read_value parse data_type size (encode x ++ rest) = .ok (v, rest))
      xs values) (rest : Bytes) :
    NVPairParser.read_values parse data_type size xs.length (xs.flatMap encode ++ rest) = .ok (values, rest) := by
  induction h with
  | nil => rfl
  | cons hhead _ ih =>
    rw [List.length_cons, NVPairParser.read_values, List.flatMap_cons, List.append_assoc, hhead, bind_ok]
    simp only [ih, bind_ok]

theorem read_value_string {size : Int} {s : Bytes} (hs : s.length < 2 ^ 32) (rest : Bytes) :
    NVPairParser.read_value parse DATA_TYPE_STRING size (xdr.string s ++ rest) =
      (decode_ascii s >>= fun t => .ok (.str t, rest)) := by
  rw [NVPairParser.read_value, if_neg (by decide), if_neg (by decide), if_pos rfl, read_string_append hs]
  cases decode_ascii s <;> rfl

theorem ascii_of_read_values {size : Int} {vs : List Bytes} (hfits : ∀ s ∈ vs, s.length < 2 ^ 32) {rest rest' : Bytes}
    {values : List Value}
    (h : NVPairParser.read_values parse DATA_TYPE_STRING size vs.length (vs.flatMap xdr.string ++ rest) =
      .ok (values, rest')) : ∀ s ∈ vs, Ascii s := by
  induction vs generalizing values with
  | nil => simp
  | cons s vs ih =>
    obtain ⟨hs, hvs⟩ := List.forall_mem_cons.mp hfits
    rw [List.length_cons, NVPairParser.read_values, List.flatMap_cons, List.append_assoc, read_value_string hs] at h
    simp only [bind_eq_ok_iff] at h
    obtain ⟨_, ⟨t, hdecode, hv⟩, ⟨values', _⟩, hrest, heq⟩ := h
    cases hv
    cases heq
    exact List.forall_mem_cons.mpr ⟨(decode_ascii_eq_ok_iff.mp hdecode).1, ih hvs hrest⟩

/-- A type that is not supported reads what the pair leaves for its value. -/
theorem read_value_other {data_type : Nat} (htype : data_type ∉ supported) (size : Nat) (stream : Bytes) :
    NVPairParser.read_value parse data_type size stream = .ok (.data (stream.take size), stream.drop size) := by
  simp only [supported, List.mem_cons, List.not_mem_nil, or_false, not_or] at htype
  obtain ⟨h32, h64, hstring, hnvlist, harray⟩ := htype
  rw [NVPairParser.read_value, if_neg h32, if_neg h64, if_neg hstring, if_neg hnvlist, if_neg harray, read_nat]

/-- It does so for each element. -/
theorem read_values_other {data_type : Nat} (htype : data_type ∉ supported) {size count : Nat} {stream rest : Bytes}
    {values : List Value} (h : NVPairParser.read_values parse data_type size count stream = .ok (values, rest)) :
    rest = stream.drop (count * size) := by
  induction count generalizing stream values with
  | zero =>
    cases h
    rw [Nat.zero_mul, List.drop_zero]
  | succ count ih =>
    rw [NVPairParser.read_values, read_value_other htype, bind_ok] at h
    obtain ⟨⟨values', rest'⟩, hvalues, heq⟩ := bind_eq_ok_iff.mp h
    cases heq
    rw [ih hvalues, List.drop_drop, Nat.succ_mul, Nat.add_comm]

theorem read_values_one {data_type : Nat} (htype : data_type ∉ supported) (value rest : Bytes) :
    NVPairParser.read_values parse data_type value.length 1 (value ++ rest) = .ok ([.data value], rest) := by
  rw [NVPairParser.read_values, read_value_other htype, bind_ok, List.take_left, List.drop_left]
  rfl

theorem read_values_empty {data_type : Nat} (htype : data_type ∉ supported) (count : Nat) (rest : Bytes) :
    NVPairParser.read_values parse data_type (0 : Nat) count rest = .ok (List.replicate count (.data []), rest) := by
  induction count with
  | zero => rfl
  | succ count ih =>
    rw [NVPairParser.read_values, read_value_other htype, bind_ok, List.take_zero, List.drop_zero, ih]
    rfl

theorem length_of_read_values {data_type : Nat} {size : Int} {count : Nat} {stream rest : Bytes} {values : List Value}
    (h : NVPairParser.read_values parse data_type size count stream = .ok (values, rest)) : values.length = count := by
  induction count generalizing stream values with
  | zero =>
    cases h
    rfl
  | succ count ih =>
    rw [NVPairParser.read_values] at h
    simp only [bind_eq_ok_iff] at h
    obtain ⟨v, -, value, hvalue, heq⟩ := h
    cases heq
    rw [List.length_cons, ih hvalue]

theorem unwrap_eq {count : Nat} {values : List Value} (h : values.length = count) :
    NVPairParser.unwrap count values = .ok (single values) := by
  subst h
  obtain _ | ⟨v, _ | ⟨w, values⟩⟩ := values
  · rfl
  · rfl
  · simp [NVPairParser.unwrap, single]

theorem type_le {data : xdr.NVData} (h : data.Fits) : data.type ≤ 27 := by
  cases data with
  | other type count value => exact h.2.1
  | _ => simp [xdr.NVData.type]

theorem type_lt {p : xdr.NVPair} (h : p.Fits) : p.data.type < 2 ^ 32 := by
  have hle := type_le h.data_fits
  omega

/-- The round of a pair: its name is decoded, and its value is read from where it
    begins. -/
theorem read_pair_iff {p : xdr.NVPair} (hfits : p.Fits) {rest rest' : Bytes} {item : String × Value} :
    NVPairParser.read_pair parse (p.encode ++ rest) = .ok (some item, rest') ↔
      decode_ascii p.name = .ok item.1 ∧ ∃ values,
        NVPairParser.read_values parse p.data.type p.data.encode.length p.data.count (p.data.encode ++ rest) =
          .ok (values, rest') ∧ item.2 = single values := by
  have hsize := hfits.size_lt
  unfold xdr.NVPair.size at hsize
  have hname := xdr.le_padded p.name.length
  have hrest : ((16 + (xdr.padded p.name.length + 4) + p.data.encode.length : Nat) : Int) -
      (16 + (xdr.padded p.name.length + 4 : Nat)) = p.data.encode.length := by
    omega
  rw [p.encode_eq, xdr.pair]
  simp only [List.append_assoc, NVPairParser.read_pair]
  rw [read_uint32_append hsize, bind_ok, read_uint32_append hfits.unpacked_lt, bind_ok, if_neg (by omega),
    read_string_append (by omega)]
  simp only [bind_eq_ok_iff, Except.ok.injEq]
  constructor
  · rintro ⟨_, ⟨name, hdecode, rfl⟩, data_type, htype, count, hcount, value, hvalue, v, hv, heq⟩
    rw [read_uint32_append (type_lt hfits)] at htype
    cases htype
    rw [read_uint32_append hfits.count_lt] at hcount
    cases hcount
    obtain ⟨values, stream⟩ := value
    rw [hrest] at hvalue
    rw [unwrap_eq (length_of_read_values hvalue)] at hv
    cases hv
    cases heq
    exact ⟨hdecode, values, hvalue, rfl⟩
  · rintro ⟨hdecode, values, hvalues, hitem⟩
    refine ⟨_, ⟨item.1, hdecode, rfl⟩, _, read_uint32_append (type_lt hfits) _, _, read_uint32_append hfits.count_lt _,
      (values, rest'), ?_, item.2, ?_, rfl⟩
    · rw [hrest, hvalues]
    · rw [hitem, unwrap_eq (length_of_read_values hvalues)]

/-- The two zero words end the list. -/
theorem read_pair_end (rest : Bytes) :
    NVPairParser.read_pair parse (List.replicate 8 0 ++ rest) = .ok (none, rest) := by
  have hzeros : List.replicate 8 (0 : UInt8) ++ rest = writeBE 4 0 ++ (writeBE 4 0 ++ rest) := rfl
  rw [hzeros, NVPairParser.read_pair, read_uint32_append (by decide), bind_ok, read_uint32_append (by decide), bind_ok]
  rfl

/-- The loop takes the pairs one after the other and stops behind the end of the list. -/
theorem read_pairs_append {ps : List xdr.NVPair} {items : List (String × Value)}
    (h : List.Forall₂ (fun p item => ∀ rest, NVPairParser.read_pair parse (p.encode ++ rest) = .ok (some item, rest))
      ps items) (rest : Bytes) {rounds : Nat} (hrounds : ps.length < rounds) (d : NVList) :
    NVPairParser.read_pairs parse rounds (ps.flatMap xdr.NVPair.encode ++ (List.replicate 8 0 ++ rest)) d =
      .ok (update d items, rest) := by
  induction h generalizing rounds d with
  | nil =>
    obtain ⟨rounds, rfl⟩ := Nat.exists_eq_succ_of_ne_zero (Nat.ne_of_gt hrounds)
    rw [List.flatMap_nil, List.nil_append, NVPairParser.read_pairs, read_pair_end]
    rfl
  | @cons p item ps items hhead _ ih =>
    obtain ⟨rounds, rfl⟩ := Nat.exists_eq_succ_of_ne_zero (Nat.ne_of_gt (Nat.zero_lt_of_lt hrounds))
    obtain ⟨name, value⟩ := item
    rw [List.flatMap_cons, List.append_assoc, NVPairParser.read_pairs, hhead, bind_ok]
    exact ih (Nat.lt_of_succ_lt_succ hrounds) (set d name value)

theorem length_le_length_encode (ps : List xdr.NVPair) : ps.length ≤ (ps.flatMap xdr.NVPair.encode).length := by
  induction ps with
  | nil => exact Nat.le_refl 0
  | cons p ps ih =>
    have hpair := p.length_encode
    unfold xdr.NVPair.size at hpair
    rw [List.length_cons, List.flatMap_cons, List.length_append]
    omega

/-- Pairs that are taken whole make a list that is. -/
theorem parse_stream_append {frames : Nat} {l : xdr.NVList} (hheader : l.header.length = 8)
    {items : List (String × Value)}
    (h : List.Forall₂ (fun p item => ∀ rest,
      NVPairParser.read_pair (NVPairParser.parse_stream frames) (p.encode ++ rest) = .ok (some item, rest)) l.pairs items)
    (rest : Bytes) :
    NVPairParser.parse_stream (frames + 1) (l.encode ++ rest) = .ok (update [] items, rest) := by
  have hrounds := length_le_length_encode l.pairs
  have hread : read 8 (l.encode ++ rest) =
      (l.header, l.pairs.flatMap xdr.NVPair.encode ++ (List.replicate 8 0 ++ rest)) := by
    rw [l.encode_eq, List.append_assoc, List.append_assoc]
    exact read_append (by omega) _
  have hcheck : NVPairParser.check_header l.header = .ok () := if_neg (not_not.mpr hheader)
  rw [NVPairParser.parse_stream]
  simp only [hread, hcheck, bind_ok]
  apply read_pairs_append h
  simp only [List.length_append]
  omega

theorem Decodes.parses {frames : Nat} {l : xdr.NVList} {d : NVList} (h : Decodes frames l d) (rest : Bytes) :
    NVPairParser.parse_stream frames (l.encode ++ rest) = .ok (d, rest) := by
  cases frames with
  | zero => cases h
  | succ frames => exact h.1 rest

/-- Elements that can be read one by one have values that are read in a row. -/
theorem exists_values {α : Type} {data_type : Nat} {size : Int} {encode : α → Bytes} {R : α → Value → Prop} {xs : List α}
    (h : ∀ x ∈ xs, ∃ v, (∀ rest, NVPairParser.read_value parse data_type size (encode x ++ rest) = .ok (v, rest)) ∧ R x v) :
    ∃ values, (∀ rest, NVPairParser.read_values parse data_type size xs.length (xs.flatMap encode ++ rest) =
      .ok (values, rest)) ∧ List.Forall₂ R xs values := by
  obtain ⟨values, hvalues⟩ := exists_forall₂_iff.mpr h
  have hreads := hvalues.imp fun _ _ hv => hv.1
  exact ⟨values, read_values_append hreads, hvalues.imp fun _ _ hv => hv.2⟩

theorem read_value_uint32 {size : Int} {v : Nat} (hv : v < 2 ^ 32) (rest : Bytes) :
    NVPairParser.read_value parse DATA_TYPE_UINT32 size (writeBE 4 v ++ rest) = .ok (.uint v, rest) := by
  rw [NVPairParser.read_value, if_pos rfl, read_uint32_append hv]
  rfl

theorem read_value_uint64 {size : Int} {v : Nat} (hv : v < 2 ^ 64) (rest : Bytes) :
    NVPairParser.read_value parse DATA_TYPE_UINT64 size (writeBE 8 v ++ rest) = .ok (.uint v, rest) := by
  rw [NVPairParser.read_value, if_neg (by decide), if_pos rfl, read_uint64_append hv]
  rfl

/-- Numbers that can be read one by one. -/
theorem read_uints {data_type : Nat} {size : Int} {encode : Nat → Bytes} {vs : List Nat}
    (h : ∀ v ∈ vs, ∀ rest, NVPairParser.read_value parse data_type size (encode v ++ rest) = .ok (.uint v, rest))
    (rest : Bytes) :
    NVPairParser.read_values parse data_type size vs.length (vs.flatMap encode ++ rest) = .ok (vs.map .uint, rest) := by
  apply read_values_append
  rw [List.forall₂_map_right_iff, List.forall₂_same]
  exact h

theorem read_value_nvlist {frames : Nat} {l : xdr.NVList} {d : NVList} (h : Decodes frames l d) {size : Int}
    {data_type : Nat} (htype : data_type = DATA_TYPE_NVLIST ∨ data_type = DATA_TYPE_NVLIST_ARRAY) (rest : Bytes) :
    NVPairParser.read_value (NVPairParser.parse_stream frames) data_type size (l.encode ++ rest) =
      .ok (.nvlist d, rest) := by
  rcases htype with rfl | rfl
  · rw [NVPairParser.read_value, if_neg (by decide), if_neg (by decide), if_neg (by decide), if_pos rfl, h.parses]
    rfl
  · rw [NVPairParser.read_value, if_neg (by decide), if_neg (by decide), if_neg (by decide), if_neg (by decide),
      if_pos rfl, h.parses]
    rfl

theorem exists_lists {frames : Nat} {size : Int} {ls : List xdr.NVList} (h : ∀ l ∈ ls, ∃ d, Decodes frames l d)
    {data_type : Nat} (htype : data_type = DATA_TYPE_NVLIST ∨ data_type = DATA_TYPE_NVLIST_ARRAY) :
    ∃ values, (∀ rest, NVPairParser.read_values (NVPairParser.parse_stream frames) data_type size ls.length
      (xdr.encodeLists ls ++ rest) = .ok (values, rest)) ∧
      List.Forall₂ (fun l v => ∃ d, Decodes frames l d ∧ v = .nvlist d) ls values := by
  rw [xdr.encodeLists_eq]
  apply exists_values
  intro l hl
  obtain ⟨d, hd⟩ := h l hl
  exact ⟨.nvlist d, read_value_nvlist hd htype, d, hd, rfl⟩

theorem decode_of_ascii {s : Bytes} (h : Ascii s) : ∃ t, decode_ascii s = .ok t :=
  ⟨_, decode_ascii_eq_ok_iff.mpr ⟨h, rfl⟩⟩

theorem exists_strings {size : Int} {vs : List Bytes} (hfits : ∀ s ∈ vs, s.length < 2 ^ 32) (h : ∀ s ∈ vs, Ascii s) :
    ∃ values, (∀ rest, NVPairParser.read_values parse DATA_TYPE_STRING size vs.length (vs.flatMap xdr.string ++ rest) =
      .ok (values, rest)) ∧ List.Forall₂ (fun s v => ∃ t, decode_ascii s = .ok t ∧ v = .str t) vs values := by
  apply exists_values
  intro s hs
  obtain ⟨t, ht⟩ := decode_of_ascii (h s hs)
  refine ⟨.str t, fun rest => ?_, t, ht, rfl⟩
  rw [read_value_string (hfits s hs), ht, bind_ok]

/-- A value that can be read is taken whole, with its elements when its type is
    supported. -/
theorem exists_data {frames : Nat} {data : xdr.NVData} (hfits : data.Fits)
    (hread : ReadableData (fun l => ∃ d, Decodes frames l d) data) :
    ∃ values, (∀ rest, NVPairParser.read_values (NVPairParser.parse_stream frames) data.type data.encode.length data.count
      (data.encode ++ rest) = .ok (values, rest)) ∧
      (data.type ∈ supported → DataReads (Decodes frames) data values) := by
  cases data with
  | uint32 vs =>
    rw [xdr.NVData.encode]
    exact ⟨_, read_uints fun v hv => read_value_uint32 (hfits v hv), fun _ => rfl⟩
  | uint64 vs =>
    rw [xdr.NVData.encode]
    exact ⟨_, read_uints fun v hv => read_value_uint64 (hfits v hv), fun _ => rfl⟩
  | string vs =>
    rw [xdr.NVData.encode]
    obtain ⟨values, hvalues, heach⟩ := exists_strings hfits hread
    exact ⟨values, hvalues, fun _ => heach⟩
  | nvlist ls =>
    rw [xdr.NVData.encode]
    obtain ⟨values, hvalues, heach⟩ := exists_lists hread (.inl rfl)
    exact ⟨values, hvalues, fun _ => heach⟩
  | nvlist_array ls =>
    rw [xdr.NVData.encode]
    obtain ⟨values, hvalues, heach⟩ := exists_lists hread (.inr rfl)
    exact ⟨values, hvalues, fun _ => heach⟩
  | other type count value =>
    rw [xdr.NVData.encode]
    have htype : type ∉ supported := hfits.2.2
    obtain rfl | rfl := hread
    · exact ⟨_, read_values_one htype value, fun hmem => absurd hmem htype⟩
    · exact ⟨_, read_values_empty htype count, fun hmem => absurd hmem htype⟩

/-- Different names in ASCII are different keys. -/
theorem keys_nodup {ps : List xdr.NVPair} {items : List (String × Value)}
    (hnames : List.Forall₂ (fun p item => decode_ascii p.name = .ok item.1) ps items)
    (hdistinct : (ps.map xdr.NVPair.name).Nodup) : (items.map Prod.fst).Nodup := by
  have hunique : Relator.BiUnique fun (s : Bytes) (t : String) => decode_ascii s = .ok t := by
    constructor
    · intro s t s' hs ht
      exact decode_ascii_injective hs ht
    · intro s t t' ht ht'
      rw [ht] at ht'
      cases ht'
      rfl
  refine (List.rel_nodup hunique ?_).mp hdistinct
  rw [List.forall₂_map_left_iff, List.forall₂_map_right_iff]
  exact hnames

/-- The round of a pair that can be read. -/
theorem exists_item {frames : Nat} {p : xdr.NVPair} (hfits : p.Fits) (hname : Ascii p.name)
    (hdata : ReadableData (fun l => ∃ d, Decodes frames l d) p.data) :
    ∃ item : String × Value,
      (∀ rest, NVPairParser.read_pair (NVPairParser.parse_stream frames) (p.encode ++ rest) = .ok (some item, rest)) ∧
      decode_ascii p.name = .ok item.1 ∧
      (p.data.type ∈ supported → ∃ values, DataReads (Decodes frames) p.data values ∧ item.2 = single values) := by
  obtain ⟨name, hdecode⟩ := decode_of_ascii hname
  obtain ⟨values, hvalues, hreads⟩ := exists_data hfits.data_fits hdata
  refine ⟨(name, single values), fun rest => ?_, hdecode, fun hmem => ⟨values, hreads hmem, rfl⟩⟩
  exact (read_pair_iff hfits).mpr ⟨hdecode, values, hvalues rest, rfl⟩

/-- A list whose pairs can be read decodes. -/
theorem exists_decodes {frames : Nat} {l : xdr.NVList} (hl : l.WellFormed)
    (hpairs : ∀ p ∈ l.pairs, Ascii p.name ∧ ReadableData (fun l => ∃ d, Decodes frames l d) p.data) :
    ∃ d, Decodes (frames + 1) l d := by
  obtain ⟨hheader, hdistinct, hfits, hlists⟩ := hl
  obtain ⟨items, hitems⟩ := exists_forall₂_iff.mpr fun p hp =>
    exists_item (hfits p hp) (hpairs p hp).1 (hpairs p hp).2
  have hkeys := keys_nodup (hitems.imp fun _ _ h => h.2.1) hdistinct
  refine ⟨update [] items, parse_stream_append (l := .mk _ _) hheader (hitems.imp fun _ _ h => h.1), fun p hp => ?_⟩
  obtain ⟨item, hmem, hconsumed, hname, hreturned⟩ := exists_mem_of_forall₂ hitems hp
  refine ⟨⟨item, hconsumed⟩, fun hsupported => ?_⟩
  obtain ⟨values, hreads, hvalue⟩ := hreturned hsupported
  refine ⟨item.1, values, hname, hreads, ?_⟩
  rw [← hvalue]
  exact (represents_update hkeys item.1 item.2).mpr hmem

theorem ReadableData.imp {P Q : xdr.NVList → Prop} {data : xdr.NVData} (h : ReadableData P data)
    (himp : ∀ l ∈ data.lists, P l → Q l) : ReadableData Q data := by
  cases data with
  | nvlist ls => exact fun l hl => himp l hl (h l hl)
  | nvlist_array ls => exact fun l hl => himp l hl (h l hl)
  | _ => exact h

/-- An element of another type that is read more than once, or not at all, leaves the
    stream beside the end of the pair. -/
theorem count_of_consumed {data_type count : Nat} {value : Bytes} (htype : data_type ∉ supported)
    (h : ∀ rest, ∃ values, NVPairParser.read_values parse data_type value.length count (value ++ rest) =
      .ok (values, rest)) : count = 1 ∨ value = [] := by
  obtain _ | ⟨b, value⟩ := value
  · exact .inr rfl
  left
  obtain ⟨values, hvalues⟩ := h [0]
  have hlength := congrArg List.length (read_values_other htype hvalues)
  simp only [List.length_drop, List.length_append, List.length_singleton] at hlength
  have hmul : count * (b :: value).length = 1 * (b :: value).length := by omega
  exact Nat.eq_of_mul_eq_mul_right (Nat.zero_lt_succ value.length) hmul

/-- What the round of a pair says of its value. -/
theorem readableData_of_decodes {frames : Nat} {p : xdr.NVPair} {d : NVList} (hfits : p.Fits)
    (h : PairDecodes (NVPairParser.parse_stream frames) (Decodes frames) d p) :
    Ascii p.name ∧ ReadableData (fun l => ∃ d, Decodes frames l d) p.data := by
  obtain ⟨⟨item, hconsumed⟩, hreturned⟩ := h
  have hvalues : ∀ rest, ∃ values, NVPairParser.read_values (NVPairParser.parse_stream frames) p.data.type
      p.data.encode.length p.data.count (p.data.encode ++ rest) = .ok (values, rest) := by
    intro rest
    obtain ⟨-, values, hvalues, -⟩ := (read_pair_iff hfits).mp (hconsumed rest)
    exact ⟨values, hvalues⟩
  have hdata := hfits.data_fits
  refine ⟨(decode_ascii_eq_ok_iff.mp ((read_pair_iff hfits).mp (hconsumed [])).1).1, ?_⟩
  obtain ⟨unpacked, name, data⟩ := p
  cases data with
  | string vs =>
    obtain ⟨values, hread⟩ := hvalues []
    simp only [xdr.NVPair.data, xdr.NVData.encode] at hread
    exact ascii_of_read_values hdata hread
  | nvlist ls =>
    obtain ⟨_, values, _, hlists, _⟩ := hreturned (by simp [xdr.NVPair.data, xdr.NVData.type, supported, DATA_TYPE_NVLIST])
    intro l hl
    obtain ⟨_, _, d, hd, _⟩ := exists_mem_of_forall₂ hlists hl
    exact ⟨d, hd⟩
  | nvlist_array ls =>
    obtain ⟨_, values, _, hlists, _⟩ :=
      hreturned (by simp [xdr.NVPair.data, xdr.NVData.type, supported, DATA_TYPE_NVLIST_ARRAY])
    intro l hl
    obtain ⟨_, _, d, hd, _⟩ := exists_mem_of_forall₂ hlists hl
    exact ⟨d, hd⟩
  | other type count value =>
    simp only [xdr.NVPair.data, xdr.NVData.encode] at hvalues
    exact count_of_consumed hdata.2.2 hvalues
  | _ => trivial

/-- The parser decodes a list exactly when its texts are ASCII, no value of another type
    is read more than once, and the nesting fits in the stack. -/
theorem decodes_iff (frames : Nat) {l : xdr.NVList} (hl : l.WellFormed) :
    (∃ d, Decodes frames l d) ↔ Readable frames l := by
  induction frames generalizing l with
  | zero =>
    constructor
    · rintro ⟨_, h⟩
      exact h
    · exact False.elim
  | succ frames ih =>
    have hpairs := hl
    obtain ⟨_, _, hfits, hlists⟩ := hpairs
    constructor
    · rintro ⟨d, -, hd⟩ p hp
      obtain ⟨hname, hdata⟩ := readableData_of_decodes (hfits p hp) (hd p hp)
      exact ⟨hname, hdata.imp fun l hmem h => (ih (hlists p hp l hmem)).mp h⟩
    · intro h
      refine exists_decodes hl fun p hp => ?_
      exact ⟨(h p hp).1, (h p hp).2.imp fun l hmem hread => (ih (hlists p hp l hmem)).mpr hread⟩

/-- The parser takes each pair of the list whole, whatever stands behind the list, and
    returns those of a supported type with their names and values. -/
def Decoded (frames : Nat) (l : xdr.NVList) : Prop :=
  ∃ d, Decodes frames l d ∧ ∀ rest, NVPairParser.parse frames (l.encode ++ rest) = .ok d

theorem decoded_iff (frames : Nat) {l : xdr.NVList} (hl : l.WellFormed) : Decoded frames l ↔ Readable frames l := by
  rw [← decodes_iff frames hl]
  constructor
  · rintro ⟨d, hd, -⟩
    exact ⟨d, hd⟩
  · rintro ⟨d, hd⟩
    refine ⟨d, hd, fun rest => ?_⟩
    rw [NVPairParser.parse, hd.parses, bind_ok]

/-- The pair that `Label.read` looks for. -/
def ashift : xdr.NVPair := .mk 32 [97, 115, 104, 105, 102, 116] (.uint64 [12])

theorem ashift_fits : ashift.Fits := by
  refine ⟨by decide, by decide, by decide, ?_⟩
  simp [ashift, xdr.NVPair.data, xdr.NVData.Fits]

/-- A device with nothing but its `ashift`. -/
def plain_device : xdr.NVList := .mk [0, 0, 0, 0, 0, 0, 0, 1] [ashift]

theorem plain_device_wellFormed : plain_device.WellFormed := by
  refine .mk rfl (by decide) ?_ ?_
  · simp only [List.forall_mem_singleton]
    exact ashift_fits
  · simp [ashift, xdr.NVPair.data, xdr.NVData.lists]

theorem ashift_readable (nested : xdr.NVList → Prop) : Ascii ashift.name ∧ ReadableData nested ashift.data := by
  refine ⟨?_, trivial⟩
  simp [Ascii, ashift, xdr.NVPair.name]

theorem plain_device_readable (frames : Nat) : Readable (frames + 1) plain_device := by
  intro p hp
  cases List.mem_singleton.mp hp
  exact ashift_readable _

/-- A flag, a string and a list with a device in it, before the `ashift`. -/
def nested_device : xdr.NVList :=
  .mk [0, 0, 0, 0, 0, 0, 0, 1]
    [.mk 40 [97] (.other 21 1 [0, 0, 0, 1]), .mk 40 [98] (.string [[100, 105, 115, 107]]),
      .mk 80 [99] (.nvlist_array [plain_device]), ashift]

theorem nested_device_wellFormed : nested_device.WellFormed := by
  refine .mk rfl (by decide) ?_ ?_
  · simp only [List.forall_mem_cons]
    refine ⟨⟨by decide, by decide, by decide, ?_⟩, ⟨by decide, by decide, by decide, ?_⟩,
      ⟨by decide, by decide, by decide, trivial⟩, ashift_fits, List.forall_mem_nil _⟩
    · simp [xdr.NVPair.data, xdr.NVData.Fits]
    · simp [xdr.NVPair.data, xdr.NVData.Fits]
  · simp [ashift, xdr.NVPair.data, xdr.NVData.lists, plain_device_wellFormed]

/-- The pairs before it and the nested list do not keep the `ashift` from being read. -/
theorem decoded_nested_device : Decoded 1000 nested_device := by
  refine (decoded_iff 1000 nested_device_wellFormed).mpr ?_
  intro p hp
  simp only [nested_device, xdr.NVList.pairs, List.mem_cons, List.not_mem_nil, or_false] at hp
  rcases hp with rfl | rfl | rfl | rfl
  · exact ⟨by simp [Ascii, xdr.NVPair.name], .inl rfl⟩
  · exact ⟨by simp [Ascii, xdr.NVPair.name], by simp [Ascii, xdr.NVPair.data, ReadableData]⟩
  · exact ⟨by simp [Ascii, xdr.NVPair.name], List.forall_mem_singleton.mpr (plain_device_readable 998)⟩
  · exact ashift_readable _

/-- A device with two numbers in an array before its `ashift`. -/
def array_device : xdr.NVList :=
  .mk [0, 0, 0, 0, 0, 0, 0, 1]
    [.mk 48 [97] (.other 16 2 [0, 0, 0, 0, 0, 0, 0, 1, 0, 0, 0, 0, 0, 0, 0, 2]), ashift]

theorem array_device_wellFormed : array_device.WellFormed := by
  refine .mk rfl (by decide) ?_ ?_
  · refine List.forall_mem_cons.mpr ⟨⟨by decide, by decide, by decide, ?_⟩, ?_⟩
    · simp [xdr.NVPair.data, xdr.NVData.Fits]
    · simp only [List.forall_mem_singleton]
      exact ashift_fits
  · simp [ashift, xdr.NVPair.data, xdr.NVData.lists]

/-- The second number is read out of the `ashift`. -/
theorem not_decoded_array_device : array_device.WellFormed ∧ ¬ Decoded 1000 array_device := by
  refine ⟨array_device_wellFormed, ?_⟩
  rintro ⟨d, hd, hparse⟩
  have hkeys : (NVPairParser.parse 1000 (array_device.encode ++ List.replicate 4 0)).map (List.map Prod.fst) =
      .ok ["a", "\x00"] := by
    decide +kernel
  have hdecode : decode_ascii ashift.name = .ok "ashift" := by decide +kernel
  have hmissing : "ashift" ∉ ["a", "\x00"] := by decide
  rw [hparse] at hkeys
  have hpair := hd.2 ashift (by simp [array_device, xdr.NVList.pairs])
  obtain ⟨name, values, hname, -, hlookup⟩ := hpair.returned (by decide)
  cases hdecode.symm.trans hname
  have hmem := List.mem_map_of_mem (f := Prod.fst) (mem_of_lookup hlookup)
  rw [Except.ok.inj hkeys] at hmem
  exact hmissing hmem

end zfs_rescue.nvpair
