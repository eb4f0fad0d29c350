import ZfsRescue.Dict
import ZfsRescue.Dnode

open bytes dict

namespace zfs_rescue.dnode

def SA_MAGIC : Nat := 0x2F505A

/-- `sa_layout_info`: the layout number in bits 0 to 9, and the size of the
    header in units of eight bytes in bits 10 to 15. -/
def sa_layout_info (num hdrsize : Nat) : Nat := hdrsize / 8 * 2 ^ 10 + num

/-- An attribute of an object: its record in the layout, and its data. -/
structure SaAttr where
  field : SaField
  data : Bytes
  deriving DecidableEq, Repr

/-- The data has the length of the record, or a length of its own where that is
    zero, and a multiple of eight in any case. -/
def SaAttr.Fits (a : SaAttr) : Prop :=
  8 ∣ a.data.length ∧ (if a.field.len = 0 then a.data.length < 2 ^ 16 else a.data.length = a.field.len)

/-- `sa_lengths`: the lengths of the attributes whose records have none. -/
def sa_lengths (attrs : List SaAttr) : List Nat := (attrs.filter fun a => a.field.len = 0).map fun a => a.data.length

/-- The attributes of an object of a layout with these fields, behind a header
    of this size, with the padding of the header and the inline content. -/
structure SaObject (fields : List SaField) (hdrsize : Nat) where
  attrs : List SaAttr
  pad : Bytes
  content : Bytes
  map_field : attrs.map SaAttr.field = fields
  fits : ∀ a ∈ attrs, a.Fits
  hdrsize_eq : 6 + 2 * (sa_lengths attrs).length + pad.length = hdrsize

section Object

variable {fields : List SaField} {hdrsize : Nat}

/-- `sa_hdr_phys_t`, for an object of layout `num`. -/
def SaObject.sa_hdr_phys (o : SaObject fields hdrsize) (num : Nat) : Bytes :=
  writeLE 4 SA_MAGIC ++ (writeLE 2 (sa_layout_info num hdrsize) ++ ((sa_lengths o.attrs).flatMap (writeLE 2) ++ o.pad))

def SaObject.bytes (o : SaObject fields hdrsize) (num : Nat) : Bytes :=
  o.sa_hdr_phys num ++ (o.attrs.flatMap SaAttr.data ++ o.content)

end Object

/-- Two words for a length of sixteen, one for a length of eight, and the data
    of a symbolic link as it is. No value is expected of the others. -/
def SaAttr.value (a : SaAttr) : SaValue :=
  if a.field.len = 16 then .pair (readLE (a.data.take 8)) (readLE (a.data.drop 8))
  else if a.field.len = 8 then .int (readLE a.data)
  else if a.field.len = 0 ∧ a.field.name = "zpl_symlink" then .bytes a.data
  else .none

/-- The attributes that are given a value. -/
def SaField.Valued (f : SaField) : Prop := f.len = 8 ∨ f.len = 16 ∨ f.len = 0 ∧ f.name = "zpl_symlink"

/-- Every object of the layout decodes to its attributes. -/
def Decodes (lay : SaLayouts) (num : Nat) (fields : List SaField) (hdrsize : Nat) : Prop :=
  ∀ o : SaObject fields hdrsize,
    (∀ a ∈ o.attrs, a.field.Valued →
      (BonusSysAttr.init (some lay) (o.bytes num)).getattr a.field.name = some a.value) ∧
    (BonusSysAttr.init (some lay) (o.bytes num)).getattr "zp_inline_content" = some (.bytes o.content)

/-- `f` is set under `name`, or under `name` with another prefix. -/
def SaField.Sets (f : SaField) (name : String) : Prop := name = f.name ∨ name = replace f.name "zpl_" "zp_"

/-- No attribute that is given a value is set over by a later one, or by the
    inline content. -/
def Unshadowed (fields : List SaField) : Prop :=
  fields.Pairwise (fun f later => f.Valued → ¬ later.Sets f.name) ∧
    ∀ f ∈ fields, f.Valued → f.name ≠ "zp_inline_content"

/-- What the attribute loop sets, in order. -/
def writes (attrs : List SaAttr) : List (String × SaValue) :=
  attrs.flatMap fun a => [(a.field.name, a.value), (replace a.field.name "zpl_" "zp_", a.value)]

theorem sysattr_value_eq {data rest : Bytes} {a : SaAttr} {ptr lenidx : Nat} (hfits : a.Fits)
    (hptr : data.drop ptr = a.data ++ rest)
    (hlen : a.field.len = 0 → slice data (6 + lenidx * 2) 2 = writeLE 2 a.data.length) :
    sysattr_value data ptr lenidx a.field =
      .ok (a.value, a.data.length, lenidx + (sa_lengths [a]).length) := by
  obtain ⟨hdvd, hlength⟩ := hfits
  have hslice := slice_of_drop hptr
  rw [sysattr_value, SaAttr.value]
  by_cases h0 : a.field.len = 0
  · rw [if_pos h0] at hlength
    have hread : readLE (writeLE 2 a.data.length) = a.data.length := readLE_writeLE (by omega)
    rw [if_neg (by omega), if_neg (by omega), if_neg (by omega), if_pos h0, if_neg (by omega), if_neg (by omega),
      hlen h0, unpackLE, if_pos (length_writeLE _ _), hread, bind_ok, hslice]
    simp [sa_lengths, h0]
  · rw [if_neg h0] at hlength
    have hlens : (sa_lengths [a]).length = 0 := by simp [sa_lengths, h0]
    rw [hlens]
    by_cases h16 : a.field.len = 16
    · rw [hlength, h16] at hslice
      rw [if_pos h16, if_pos h16, hslice, unpackLE, if_pos (by simp; omega), bind_ok, unpackLE, if_pos (by simp; omega),
        bind_ok, hlength, h16]
      simp [slice, List.take_of_length_le, hlength, h16]
    · by_cases h8 : a.field.len = 8
      · rw [hlength, h8] at hslice
        rw [if_neg h16, if_pos h8, if_neg h16, if_pos h8, hslice, unpackLE, if_pos (by omega), bind_ok, hlength, h8]
        rfl
      · rw [if_neg h16, if_neg h8, if_neg (by omega), if_neg h0, if_neg h16, if_neg h8, if_neg (fun h => h0 h.1), hlength]
        rfl

theorem sa_lengths_cons (a : SaAttr) (attrs : List SaAttr) :
    sa_lengths (a :: attrs) = sa_lengths [a] ++ sa_lengths attrs := by
  rw [sa_lengths, ← List.singleton_append, List.filter_append, List.map_append]
  rfl

/-- The loop sets every attribute and comes to its end behind the last one. -/
theorem sysattr_fields_eq {data content lens : Bytes} {attrs : List SaAttr} {ptr lenidx : Nat}
    {set : List (String × SaValue)} (hfits : ∀ a ∈ attrs, a.Fits)
    (hptr : data.drop ptr = attrs.flatMap SaAttr.data ++ content)
    (hlens : data.drop (6 + lenidx * 2) = (sa_lengths attrs).flatMap (writeLE 2) ++ lens) :
    sysattr_fields data ptr lenidx set (attrs.map SaAttr.field) =
      { attrs := (writes attrs).reverse ++ set, zp_inline_content := some content } := by
  induction attrs generalizing ptr lenidx set with
  | nil =>
    rw [List.flatMap_nil, List.nil_append] at hptr
    rw [List.map_nil, sysattr_fields, hptr]
    rfl
  | cons a attrs ih =>
    rw [List.flatMap_cons, List.append_assoc] at hptr
    rw [sa_lengths_cons, List.flatMap_append, List.append_assoc] at hlens
    have hlen : a.field.len = 0 → slice data (6 + lenidx * 2) 2 = writeLE 2 a.data.length := by
      intro h0
      have hone : sa_lengths [a] = [a.data.length] := by simp [sa_lengths, h0]
      rw [hone, List.flatMap_singleton] at hlens
      have hslice := slice_of_drop hlens
      rwa [length_writeLE] at hslice
    have hnext : data.drop (6 + (lenidx + (sa_lengths [a]).length) * 2) =
        (sa_lengths attrs).flatMap (writeLE 2) ++ lens := by
      have hdrop := drop_add_of_drop hlens
      rwa [length_flatMap_of_length (k := 2) (fun x _ => length_writeLE 2 x), Nat.add_assoc, ← Nat.add_mul] at hdrop
    rw [List.map_cons, sysattr_fields, sysattr_value_eq (hfits a (by simp)) hptr hlen]
    simp only
    rw [ih (fun b hb => hfits b (by simp [hb])) (drop_add_of_drop hptr) hnext]
    simp [writes]

section Header

variable {fields : List SaField} {hdrsize num : Nat}

theorem SaObject.length_sa_hdr_phys (o : SaObject fields hdrsize) (num : Nat) :
    (o.sa_hdr_phys num).length = hdrsize := by
  have hsize := o.hdrsize_eq
  simp only [SaObject.sa_hdr_phys, List.length_append, length_writeLE,
    length_flatMap_of_length (k := 2) (fun x _ => length_writeLE 2 x)]
  omega

theorem SaObject.drop_bytes (o : SaObject fields hdrsize) (num : Nat) :
    (o.bytes num).drop hdrsize = o.attrs.flatMap SaAttr.data ++ o.content := by
  rw [SaObject.bytes, List.drop_append_of_le_length (by rw [o.length_sa_hdr_phys num]),
    List.drop_eq_nil_of_le (by rw [o.length_sa_hdr_phys num]), List.nil_append]

theorem SaObject.drop_lengths (o : SaObject fields hdrsize) (num : Nat) :
    (o.bytes num).drop 6 = (sa_lengths o.attrs).flatMap (writeLE 2) ++
      (o.pad ++ (o.attrs.flatMap SaAttr.data ++ o.content)) := by
  have hbytes : o.bytes num = (writeLE 4 SA_MAGIC ++ writeLE 2 (sa_layout_info num hdrsize)) ++
      ((sa_lengths o.attrs).flatMap (writeLE 2) ++ (o.pad ++ (o.attrs.flatMap SaAttr.data ++ o.content))) := by
    simp [SaObject.bytes, SaObject.sa_hdr_phys]
  rw [hbytes]
  exact List.drop_left' (by simp)

/-- The constructor takes the two bytes of the layout information for the layout
    number and the size in units of two: above 255 the number spills over into
    the size. -/
theorem SaObject.init_eq (o : SaObject fields hdrsize) (hdvd : 8 ∣ hdrsize) (hhdr : hdrsize < 512) (hnum : num < 1024)
    (lay : SaLayouts) :
    (lay (toString (num % 256)) = none → BonusSysAttr.init (some lay) (o.bytes num) = {}) ∧
      ∀ found, lay (toString (num % 256)) = some found →
        BonusSysAttr.init (some lay) (o.bytes num) =
          sysattr_fields (o.bytes num) (hdrsize + 2 * (num / 256)) 0 [] found := by
  have hsize := o.hdrsize_eq
  have hlength : 8 ≤ (o.bytes num).length := by
    rw [SaObject.bytes, List.length_append, o.length_sa_hdr_phys num]
    omega
  have hfour : ((o.bytes num).getD 4 0).toNat = num % 256 := by
    change (UInt8.ofNat (sa_layout_info num hdrsize)).toNat = _
    rw [UInt8.toNat_ofNat', sa_layout_info]
    omega
  have hfive : ((o.bytes num).getD 5 0).toNat * 2 = hdrsize + 2 * (num / 256) := by
    change (UInt8.ofNat (sa_layout_info num hdrsize / 256)).toNat * 2 = _
    rw [UInt8.toNat_ofNat', sa_layout_info]
    omega
  have hmax : max (hdrsize + 2 * (num / 256)) 8 = hdrsize + 2 * (num / 256) := by omega
  rw [BonusSysAttr.init]
  simp only [unpackLE]
  rw [if_pos (by rw [List.length_take]; omega), hfour, hfive, hmax]
  exact ⟨fun hnone => by rw [hnone], fun found hfound => by rw [hfound]⟩

/-- Below 256 the constructor sets every attribute of the object. -/
theorem SaObject.init_of_lt (o : SaObject fields hdrsize) (hdvd : 8 ∣ hdrsize) (hhdr : hdrsize < 512)
    (hnum : num < 256) {lay : SaLayouts} (hlay : lay (toString num) = some fields) :
    BonusSysAttr.init (some lay) (o.bytes num) =
      { attrs := (writes o.attrs).reverse, zp_inline_content := some o.content } := by
  have hloop : sysattr_fields (o.bytes num) hdrsize 0 [] (o.attrs.map SaAttr.field) = _ :=
    sysattr_fields_eq o.fits (o.drop_bytes num) (o.drop_lengths num)
  have hinit := (o.init_eq hdvd hhdr (by omega : num < 1024) lay).2
  rw [Nat.mod_eq_of_lt hnum, Nat.div_eq_of_lt hnum] at hinit
  rw [o.map_field, List.append_nil] at hloop
  rw [hinit fields hlay]
  exact hloop

end Header

/-- The value of an attribute is what is left under its name when no later one
    sets it over. -/
theorem last_writes {attrs : List SaAttr}
    (h : (attrs.map SaAttr.field).Pairwise fun f later => f.Valued → ¬ later.Sets f.name) {a : SaAttr} (ha : a ∈ attrs)
    (hvalued : a.field.Valued) : last (writes attrs) a.field.name = some a.value := by
  induction attrs with
  | nil => cases ha
  | cons b attrs ih =>
    rw [List.map_cons, List.pairwise_cons] at h
    have hcons : writes (b :: attrs) = writes [b] ++ writes attrs := rfl
    rw [hcons, last_append]
    by_cases hmem : a ∈ attrs
    · rw [ih h.2 hmem]
      rfl
    · obtain rfl : a = b := (List.mem_cons.mp ha).resolve_right hmem
      have hnone : last (writes attrs) a.field.name = none := by
        rw [Option.eq_none_iff_forall_ne_some]
        intro v hv
        obtain ⟨later, hlater, hwrite⟩ := List.mem_flatMap.mp (mem_of_last hv)
        apply h.1 later.field (List.mem_map_of_mem hlater) hvalued
        simp only [List.mem_cons, Prod.mk.injEq, List.not_mem_nil, or_false] at hwrite
        exact hwrite.imp And.left And.left
      rw [hnone, Option.none_or]
      change List.lookup _ [(replace a.field.name "zpl_" "zp_", a.value), (a.field.name, a.value)] = _
      rw [lookup_cons, lookup_cons, if_pos rfl]
      split <;> rfl

section Zeros

/-- An attribute of zeros, or of no data where its length is its own. -/
def SaField.zeros (f : SaField) : SaAttr := { field := f, data := List.replicate f.len 0 }

theorem readLE_replicate (n : Nat) : readLE (List.replicate n 0) = 0 := by
  induction n with
  | zero => rfl
  | succ n ih =>
    rw [List.replicate_succ, readLE, ih]
    rfl

/-- An attribute of ones. -/
def SaField.ones (f : SaField) : SaAttr :=
  { field := f, data := List.replicate (if f.len = 0 then 8 else f.len) 1 }

theorem SaField.zeros_value (f : SaField) :
    f.zeros.value = .pair 0 0 ∨ f.zeros.value = .int 0 ∨ f.zeros.value = .bytes [] ∨ f.zeros.value = .none := by
  simp only [SaAttr.value, SaField.zeros, List.take_replicate, List.drop_replicate, readLE_replicate]
  by_cases h16 : f.len = 16
  · simp [h16]
  by_cases h8 : f.len = 8
  · simp [h8]
  by_cases h0 : f.len = 0
  · by_cases hname : f.name = "zpl_symlink" <;> simp [h0, hname]
  · simp [h16, h8, h0]

theorem SaField.Valued.ones_value_ne {f : SaField} (h : f.Valued) (f' : SaField) : f.ones.value ≠ f'.zeros.value := by
  have hone : readLE (List.replicate 8 1) ≠ 0 := by decide
  have hvalue : f.ones.value = .int (readLE (List.replicate 8 1)) ∨
      f.ones.value = .pair (readLE (List.replicate 8 1)) (readLE (List.replicate 8 1)) ∨
      f.ones.value = .bytes (List.replicate 8 1) := by
    rcases h with h | h | h
    · simp [SaAttr.value, SaField.ones, h]
    · simp [SaAttr.value, SaField.ones, h]
    · simp [SaAttr.value, SaField.ones, h]
  generalize readLE (List.replicate 8 1) = one at hone hvalue
  rcases f'.zeros_value with hzero | hzero | hzero | hzero <;> rcases hvalue with hvalue | hvalue | hvalue <;>
    rw [hzero, hvalue] <;> simp [hone]

theorem SaField.zeros_fits {f : SaField} (h : 8 ∣ f.len) : f.zeros.Fits := by
  rw [SaAttr.Fits, SaField.zeros, List.length_replicate]
  refine ⟨h, ?_⟩
  by_cases h0 : f.len = 0
  · rw [if_pos h0, h0]
    decide
  · rw [if_neg h0]

theorem map_field_zeros (fields : List SaField) : (fields.map SaField.zeros).map SaAttr.field = fields := by
  rw [List.map_map]
  exact List.map_id _

theorem fits_zeros {fields : List SaField} (h : ∀ f ∈ fields, 8 ∣ f.len) : ∀ a ∈ fields.map SaField.zeros, a.Fits := by
  intro a ha
  obtain ⟨f, hf, rfl⟩ := List.mem_map.mp ha
  exact SaField.zeros_fits (h f hf)

/-- On zeros, and with enough of them, the loop comes to its end. -/
theorem sysattr_fields_zeros {data : Bytes} (hzero : ∀ off len, 6 ≤ off → off + len ≤ data.length →
    slice data off len = List.replicate len 0) {fields : List SaField} {ptr lenidx : Nat} (set : List (String × SaValue))
    (hptr : 6 ≤ ptr) (hlength : ptr + (fields.map SaField.len).sum ≤ data.length)
    (hlens : 6 + (lenidx + fields.length) * 2 ≤ data.length) :
    (sysattr_fields data ptr lenidx set fields).zp_inline_content =
      some (data.drop (ptr + (fields.map SaField.len).sum)) := by
  induction fields generalizing ptr lenidx set with
  | nil => rfl
  | cons f fields ih =>
    rw [List.map_cons, List.sum_cons] at hlength ⊢
    rw [List.length_cons] at hlens
    have hread : ∀ off len, 6 ≤ off → off + len ≤ data.length → unpackLE len (slice data off len) = .ok 0 := by
      intro off len hoff hle
      rw [hzero off len hoff hle, unpackLE, if_pos (by simp), readLE_replicate]
    have hvalue : ∃ v lenidx', sysattr_value data ptr lenidx f = .ok (v, f.len, lenidx') ∧ lenidx' ≤ lenidx + 1 := by
      rw [sysattr_value]
      by_cases h16 : f.len = 16
      · have hlow : slice (slice data ptr 16) 0 8 = slice data ptr 8 := slice_slice _ (by omega)
        have hhigh : slice (slice data ptr 16) 8 8 = slice data (ptr + 8) 8 := slice_slice _ (by omega)
        rw [if_pos h16, hlow, hhigh, hread ptr 8 (by omega) (by omega), bind_ok,
          hread (ptr + 8) 8 (by omega) (by omega), bind_ok, h16]
        exact ⟨_, _, rfl, by omega⟩
      by_cases h8 : f.len = 8
      · rw [if_neg h16, if_pos h8, hread _ _ (by omega) (by omega), bind_ok, h8]
        exact ⟨_, _, rfl, by omega⟩
      by_cases h4 : f.len = 4
      · rw [if_neg h16, if_neg h8, if_pos h4, hread _ _ (by omega) (by omega), bind_ok, h4]
        exact ⟨_, _, rfl, by omega⟩
      by_cases h0 : f.len = 0
      · rw [if_neg h16, if_neg h8, if_neg h4, if_pos h0, hread _ _ (by omega) (by omega), bind_ok, h0]
        exact ⟨_, _, rfl, by omega⟩
      · rw [if_neg h16, if_neg h8, if_neg h4, if_neg h0]
        exact ⟨_, _, rfl, by omega⟩
    obtain ⟨v, lenidx', hv, hle⟩ := hvalue
    rw [sysattr_fields, hv]
    simp only
    rw [ih _ (by omega) (by omega) (by omega), Nat.add_assoc]

end Zeros

theorem length_sa_lengths (attrs : List SaAttr) :
    (sa_lengths attrs).length = ((attrs.map SaAttr.field).filter fun f => f.len = 0).length := by
  rw [sa_lengths, List.length_map, List.filter_map, List.length_map]
  rfl

section Layout

variable {fields : List SaField} {hdrsize : Nat}

/-- The object with these attributes, and zeros to fill its header. -/
def object (attrs : List SaAttr) (content : Bytes) (hfields : attrs.map SaAttr.field = fields)
    (hfits : ∀ a ∈ attrs, a.Fits) (hroom : 6 + 2 * (fields.filter fun f => f.len = 0).length ≤ hdrsize) :
    SaObject fields hdrsize where
  attrs := attrs
  pad := List.replicate (hdrsize - (6 + 2 * (fields.filter fun f => f.len = 0).length)) 0
  content := content
  map_field := hfields
  fits := hfits
  hdrsize_eq := by
    rw [length_sa_lengths, hfields, List.length_replicate]
    omega

/-- Behind the layout information there is nothing but zeros. -/
theorem slice_bytes_zeros {o : SaObject fields hdrsize} (hattrs : o.attrs = fields.map SaField.zeros)
    (hpad : ∀ b ∈ o.pad, b = 0) (hcontent : ∀ b ∈ o.content, b = 0) {num off len : Nat} (hoff : 6 ≤ off)
    (hle : off + len ≤ (o.bytes num).length) : slice (o.bytes num) off len = List.replicate len 0 := by
  rw [List.eq_replicate_iff]
  refine ⟨length_slice_of_le hle, ?_⟩
  intro b hb
  have hdrop : b ∈ (o.bytes num).drop 6 := by
    obtain ⟨k, rfl⟩ := Nat.exists_eq_add_of_le hoff
    rw [slice, ← List.drop_drop] at hb
    exact List.mem_of_mem_drop (List.mem_of_mem_take hb)
  have hzeros : ∀ a ∈ o.attrs, ∀ b ∈ a.data, b = 0 := by
    intro a ha b hb
    rw [hattrs] at ha
    obtain ⟨f, -, rfl⟩ := List.mem_map.mp ha
    exact List.eq_of_mem_replicate hb
  have hlens : ∀ n ∈ sa_lengths o.attrs, n = 0 := by
    intro n hn
    rw [sa_lengths, hattrs] at hn
    obtain ⟨a, ha, rfl⟩ := List.mem_map.mp hn
    obtain ⟨hmem, h0⟩ := List.mem_filter.mp ha
    obtain ⟨f, -, rfl⟩ := List.mem_map.mp hmem
    change (List.replicate f.len 0).length = 0
    rw [List.length_replicate]
    exact of_decide_eq_true h0
  rw [o.drop_lengths num] at hdrop
  simp only [List.mem_append, List.mem_flatMap] at hdrop
  rcases hdrop with ⟨n, hn, hb⟩ | hb | ⟨a, ha, hb⟩ | hb
  · rw [hlens n hn] at hb
    exact List.eq_of_mem_replicate (n := 2) hb
  · exact hpad b hb
  · exact hzeros a ha b hb
  · exact hcontent b hb

/-- A layout number above 255 puts the constructor past the header by two, four
    or six bytes, so what it takes for the inline content starts in the middle of
    a word. -/
theorem not_decodes_of_le {lay : SaLayouts} {num : Nat} (hfields : ∀ f ∈ fields, 8 ∣ f.len) (hdvd : 8 ∣ hdrsize)
    (hhdr : hdrsize < 512) (hroom : 6 + 2 * (fields.filter fun f => f.len = 0).length ≤ hdrsize) (hle : 256 ≤ num)
    (hnum : num < 1024) (hother : ∀ other, lay (toString (num % 256)) = some other → ∀ f ∈ other, 8 ∣ f.len) :
    ¬ Decodes lay num fields hdrsize := by
  intro hdecodes
  have hfits := fits_zeros hfields
  have hmap := map_field_zeros fields
  cases hlay : lay (toString (num % 256)) with
  | none =>
    have h := (hdecodes (object _ [] hmap hfits hroom)).2
    rw [(SaObject.init_eq _ hdvd hhdr hnum lay).1 hlay] at h
    cases h
  | some other =>
    let o := object (fields.map SaField.zeros)
      (List.replicate (6 + (other.map SaField.len).sum + 2 * other.length) 0) hmap hfits hroom
    have hlength : (o.bytes num).length = hdrsize + (fields.map SaField.len).sum +
        (6 + (other.map SaField.len).sum + 2 * other.length) := by
      have hdata : ((fields.map SaField.zeros).flatMap SaAttr.data).length = (fields.map SaField.len).sum := by
        rw [List.length_flatMap, List.map_map]
        congr 1
        exact List.map_congr_left fun f _ => List.length_replicate
      rw [SaObject.bytes, List.length_append, o.length_sa_hdr_phys num, List.length_append]
      change hdrsize + (((fields.map SaField.zeros).flatMap SaAttr.data).length + (List.replicate _ 0).length) = _
      rw [hdata, List.length_replicate]
      omega
    have hzero : ∀ off len, 6 ≤ off → off + len ≤ (o.bytes num).length →
        slice (o.bytes num) off len = List.replicate len 0 := fun off len =>
      slice_bytes_zeros rfl (fun _ => List.eq_of_mem_replicate) (fun _ => List.eq_of_mem_replicate)
    have hend : (sysattr_fields (o.bytes num) (hdrsize + 2 * (num / 256)) 0 [] other).zp_inline_content = _ :=
      sysattr_fields_zeros hzero [] (by omega) (by omega) (by omega)
    have h := (hdecodes o).2
    rw [(SaObject.init_eq o hdvd hhdr hnum lay).2 other hlay, BonusSysAttr.getattr, hend] at h
    simp only [if_pos, Option.some.injEq, SaValue.bytes.injEq] at h
    have hcontent := congrArg List.length h
    rw [List.length_drop, hlength] at hcontent
    have hsum : 8 ∣ (fields.map SaField.len).sum := List.dvd_sum (by simpa using hfields)
    have hothers : 8 ∣ (other.map SaField.len).sum := List.dvd_sum (by simpa using hother other hlay)
    change _ = (List.replicate _ 0).length at hcontent
    rw [List.length_replicate] at hcontent
    omega

theorem SaField.ones_fits {f : SaField} (h : 8 ∣ f.len) : f.ones.Fits := by
  rw [SaAttr.Fits, SaField.ones, List.length_replicate]
  by_cases h0 : f.len = 0
  · simp [h0]
  · simp only [if_neg h0]
    exact ⟨h, trivial⟩

/-- The inline content takes its name from every attribute. -/
theorem Decodes.name_ne {lay : SaLayouts} {num : Nat} (h : Decodes lay num fields hdrsize)
    (hfields : ∀ f ∈ fields, 8 ∣ f.len) (hroom : 6 + 2 * (fields.filter fun f => f.len = 0).length ≤ hdrsize)
    {f : SaField} (hf : f ∈ fields) (hvalued : f.Valued) : f.name ≠ "zp_inline_content" := by
  intro hname
  have hobject := h (object (fields.map SaField.zeros) [1] (map_field_zeros fields) (fits_zeros hfields) hroom)
  have hget := hobject.1 f.zeros (List.mem_map_of_mem hf) hvalued
  rw [show f.zeros.field.name = "zp_inline_content" from hname, hobject.2, Option.some.injEq] at hget
  rcases f.zeros_value with hzero | hzero | hzero | hzero <;> rw [hzero] at hget <;> cases hget

/-- An object in which one attribute differs from the others tells whether it is
    set over. -/
theorem Decodes.unshadowed {lay : SaLayouts} {num : Nat} (h : Decodes lay num fields hdrsize)
    (hfields : ∀ f ∈ fields, 8 ∣ f.len) (hdvd : 8 ∣ hdrsize) (hhdr : hdrsize < 512)
    (hroom : 6 + 2 * (fields.filter fun f => f.len = 0).length ≤ hdrsize) (hnum : num < 256)
    (hlay : lay (toString num) = some fields) : Unshadowed fields := by
  refine ⟨?_, fun f hf hvalued => h.name_ne hfields hroom hf hvalued⟩
  rw [List.pairwise_iff_forall_sublist]
  intro f later hsub hvalued hsets
  have hname : f.name ≠ "zp_inline_content" := h.name_ne hfields hroom (hsub.subset (by simp)) hvalued
  obtain ⟨front, back, rfl, hf, hlater⟩ := List.cons_sublist_iff.mp hsub
  rw [List.singleton_sublist] at hlater
  obtain ⟨before, between, rfl⟩ := List.append_of_mem hf
  let attrs := before.map SaField.zeros ++ f.ones :: (between ++ back).map SaField.zeros
  have hmap : attrs.map SaAttr.field = before ++ f :: between ++ back := by
    simp only [attrs, List.map_append, List.map_cons, map_field_zeros, List.append_assoc, List.cons_append]
    rfl
  have hfits : ∀ a ∈ attrs, a.Fits := by
    intro a ha
    simp only [attrs, List.mem_append, List.mem_cons] at ha
    rcases ha with ha | rfl | ha
    · exact fits_zeros (fun g hg => hfields g (by simp [hg])) a ha
    · exact SaField.ones_fits (hfields f (by simp))
    · exact fits_zeros (fun g hg => hfields g (by rcases List.mem_append.mp hg with hg | hg <;> simp [hg])) a ha
  have hget := (h (object attrs [] hmap hfits hroom)).1 f.ones (by simp [object, attrs]) hvalued
  rw [SaObject.init_of_lt _ hdvd hhdr hnum hlay, BonusSysAttr.getattr] at hget
  simp only [show f.ones.field.name = f.name from rfl, if_neg hname] at hget
  change last (writes attrs) f.name = _ at hget
  -- What is left under the name comes from an attribute behind `f`, all of which are zeros.
  have hsplit : writes attrs = writes (before.map SaField.zeros ++ [f.ones]) ++ writes ((between ++ back).map SaField.zeros) := by
    simp only [writes, attrs, List.flatMap_append, List.flatMap_cons, List.flatMap_nil, List.append_assoc, List.append_nil]
  have hmem : (f.name, later.zeros.value) ∈ writes ((between ++ back).map SaField.zeros) := by
    refine List.mem_flatMap.mpr ⟨later.zeros, List.mem_map_of_mem (List.mem_append_right _ hlater), ?_⟩
    simp only [List.mem_cons, Prod.mk.injEq, and_true, List.not_mem_nil, or_false]
    exact hsets
  obtain ⟨v, hv⟩ := exists_last_of_mem hmem
  rw [hsplit, last_append, hv, Option.some_or, Option.some.injEq] at hget
  obtain ⟨a, ha, hwrite⟩ := List.mem_flatMap.mp (mem_of_last hv)
  obtain ⟨g, -, rfl⟩ := List.mem_map.mp ha
  have hvalue : v = g.zeros.value := by
    simp only [List.mem_cons, Prod.mk.injEq, List.not_mem_nil, or_false] at hwrite
    exact hwrite.elim And.right And.right
  exact hvalued.ones_value_ne g (hget ▸ hvalue)

/-- Every object of a layout decodes exactly when the layout number fits into
    its low byte and no attribute is set over. -/
theorem sysattr_decodes_iff {lay : SaLayouts} {num : Nat} (hnum : 1 ≤ num ∧ num < 1024) (hlay : lay (toString num) = some fields)
    (hfields : ∀ f ∈ fields, 8 ∣ f.len) (hdvd : 8 ∣ hdrsize) (hhdr : hdrsize < 512)
    (hroom : 6 + 2 * (fields.filter fun f => f.len = 0).length ≤ hdrsize)
    (hother : 256 ≤ num → ∀ other, lay (toString (num % 256)) = some other → ∀ f ∈ other, 8 ∣ f.len) :
    Decodes lay num fields hdrsize ↔ num < 256 ∧ Unshadowed fields := by
  constructor
  · intro h
    have hlt : num < 256 := by
      by_contra hle
      exact not_decodes_of_le hfields hdvd hhdr hroom (by omega) hnum.2 (hother (by omega)) h
    exact ⟨hlt, h.unshadowed hfields hdvd hhdr hroom hlt hlay⟩
  · rintro ⟨hlt, hlater, hname⟩ o
    have hmem : ∀ a ∈ o.attrs, a.field ∈ fields := by
      intro a ha
      conv => rw [← o.map_field]
      exact List.mem_map_of_mem ha
    rw [o.init_of_lt hdvd hhdr hlt hlay]
    refine ⟨?_, rfl⟩
    intro a ha hvalued
    simp only [BonusSysAttr.getattr]
    rw [if_neg (hname a.field (hmem a ha) hvalued)]
    rw [← o.map_field] at hlater
    exact last_writes hlater ha hvalued

end Layout

/-- A layout table with one layout, for a file that has a size and a link. -/
def lay_of (num : Nat) : SaLayouts := fun layoutid =>
  if layoutid = toString num then some [{ name := "zpl_size", len := 8 }, { name := "zpl_symlink", len := 0 }] else none

theorem sysattr_decodes_two :
    Decodes (lay_of 2) 2 [{ name := "zpl_size", len := 8 }, { name := "zpl_symlink", len := 0 }] 8 :=
  (sysattr_decodes_iff (by decide) rfl (by decide) (by decide) (by decide) (by decide) (by intro h; omega)).mpr
    ⟨by decide, by unfold Unshadowed SaField.Valued SaField.Sets; decide⟩

/-- Nothing of an object of layout 256 is found. -/
theorem not_decodes_256 :
    ¬ Decodes (lay_of 256) 256 [{ name := "zpl_size", len := 8 }, { name := "zpl_symlink", len := 0 }] 8 := by
  intro h
  have hget := (h (object [{ field := { name := "zpl_size", len := 8 }, data := [5, 0, 0, 0, 0, 0, 0, 0] },
    { field := { name := "zpl_symlink", len := 0 }, data := [] }] [] rfl (by unfold SaAttr.Fits; decide) (by decide))).2
  exact absurd hget (by decide)

end zfs_rescue.dnode
