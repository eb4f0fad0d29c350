import ZfsRescue.Zap.Walk

open bytes dict linked
open zfs_rescue.extractor.zap_leaf

namespace zfs_rescue.zap

/-- What a caller of the ZAP sees of an attribute. -/
def item (a : Attribute) : String × ZapValue := (safe_decode_string a.name, zap_value a.value)

theorem HoldsEntry.unique {block : Bytes} : Relator.RightUnique (HoldsEntry block) := by
  intro idx item other h h'
  obtain ⟨name, value, hname, hvalue, rfl⟩ := h
  obtain ⟨name', value', hname', hvalue', rfl⟩ := h'
  rw [hname.unique hname', hvalue.unique hvalue']

theorem HoldsChain.unique {block : Bytes} : Relator.RightUnique (HoldsChain block) := by
  intro first items others h h'
  obtain ⟨path, hpath, _, hitems⟩ := h
  obtain ⟨path', hpath', _, hothers⟩ := h'
  obtain rfl := hpath.unique hpath'
  exact List.right_unique_forall₂' HoldsEntry.unique hitems hothers

theorem HoldsBucket.unique {block : Bytes} : Relator.RightUnique (HoldsBucket block) := by
  intro first items others h h'
  rw [HoldsBucket] at h h'
  split at h
  · rename_i hend
    rw [if_pos hend] at h'
    rw [h, h']
  · rename_i hgo
    rw [if_neg hgo] at h'
    exact HoldsChain.unique h h'

theorem HoldsBlock.unique : Relator.RightUnique HoldsBlock := by
  intro block items others h h'
  obtain ⟨buckets, hbuckets, rfl⟩ := h
  obtain ⟨buckets', hbuckets', rfl⟩ := h'
  obtain rfl := List.right_unique_forall₂' HoldsBucket.unique hbuckets hbuckets'
  rfl

theorem length_value (a : Attribute) : a.value.length = a.ints.length * a.intlen :=
  length_flatMap_of_length fun v _ => length_writeBE a.intlen v

theorem Stores.holds {leaf : Bytes} {idx : Nat} {a : Attribute} (h : Stores leaf idx a) : HoldsEntry leaf idx (item a) := by
  obtain ⟨name, hname, hnul⟩ := h.name
  obtain ⟨value, hvalue, hints⟩ := h.value
  refine ⟨name, value, hname, hvalue, ?_⟩
  have hnumints : ((le_name_numints leaf idx : Nat) - 1 : Int) = (a.name.length : Nat) := by
    rw [h.name_numints]
    omega
  have htake : name.take a.name.length = a.name := by
    exact (List.prefix_iff_eq_take.mp ((List.prefix_append _ _).trans hnul)).symm
  have hwhole : value.take (le_value_numints leaf idx * le_value_intlen leaf idx) = a.value := by
    rw [h.value_numints, h.intlen, ← length_value]
    exact (List.prefix_iff_eq_take.mp hints).symm
  rw [hnumints, pySlice_zero_natCast, htake, hwhole, item]

theorem Chain.holds {leaf : Bytes} {first : Nat} {attrs : List Attribute} (h : Chain leaf first attrs) :
    HoldsChain leaf first (attrs.map item) := by
  obtain ⟨path, hpath, hinside, hattrs⟩ := h
  have hall : ∀ idx ∈ path, le_type leaf idx = ZAP_CHUNK_ENTRY := by
    clear hpath hinside
    induction hattrs with
    | nil => simp
    | cons hstores _ ih => simpa using ⟨hstores.entry, ih⟩
  refine ⟨path, hpath, hinside, ?_⟩
  rw [List.filter_eq_self.mpr fun idx hidx => decide_eq_true (hall idx hidx), List.forall₂_map_right_iff]
  exact hattrs.imp fun _ _ => Stores.holds

theorem Bucket.holds {leaf : Bytes} {first : Nat} {attrs : List Attribute} (h : Bucket leaf first attrs) :
    HoldsBucket leaf first (attrs.map item) := by
  rw [Bucket] at h
  rw [HoldsBucket]
  split at h
  · rename_i hend
    rw [if_pos hend, h, List.map_nil]
  · rename_i hgo
    rw [if_neg hgo]
    exact Chain.holds h

/-- A leaf is well linked, and reading it gives its attributes. -/
theorem Leaf.holds {leaf : Bytes} {attrs : List Attribute} (h : Leaf leaf attrs) : HoldsBlock leaf (attrs.map item) := by
  obtain ⟨buckets, hbuckets, rfl⟩ := h.buckets
  refine ⟨buckets.map (List.map item), ?_, List.map_flatten⟩
  rw [List.forall₂_map_right_iff]
  exact hbuckets.imp fun _ _ => Bucket.holds

end zfs_rescue.zap
