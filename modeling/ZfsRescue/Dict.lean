import Mathlib.Data.List.Induction
import Mathlib.Data.List.Nodup

namespace dict

variable {κ ν : Type} [DecidableEq κ]

/-- A dictionary that keeps its keys in the order of their insertion. -/
abbrev Dict (κ ν : Type) := List (κ × ν)

/-- `d[k] = v`. -/
def set (d : Dict κ ν) (k : κ) (v : ν) : Dict κ ν :=
  match d with
  | [] => [(k, v)]
  | (k', v') :: rest => if k' = k then (k', v) :: rest else (k', v') :: set rest k v

/-- The items set one after the other. -/
def update (d : Dict κ ν) (items : List (κ × ν)) : Dict κ ν := items.foldl (fun d item => set d item.1 item.2) d

theorem lookup_cons (k : κ) (v : ν) (d : Dict κ ν) (k' : κ) :
    List.lookup k' ((k, v) :: d) = if k' = k then some v else d.lookup k' := by
  rw [List.lookup_cons]
  by_cases h : k' = k
  · rw [if_pos h, beq_iff_eq.mpr h]
  · rw [if_neg h, beq_eq_false_iff_ne.mpr h]

theorem lookup_set (d : Dict κ ν) (k : κ) (v : ν) (k' : κ) :
    (set d k v).lookup k' = if k' = k then some v else d.lookup k' := by
  induction d with
  | nil => exact lookup_cons k v [] k'
  | cons item rest ih =>
    obtain ⟨k'', v''⟩ := item
    rw [set]
    by_cases hset : k'' = k
    · subst hset
      rw [if_pos rfl, lookup_cons, lookup_cons]
      by_cases h : k' = k'' <;> simp [h]
    · rw [if_neg hset, lookup_cons, lookup_cons, ih]
      by_cases h : k' = k''
      · have hne : k' ≠ k := h ▸ hset
        simp [h, hset]
      · simp [h]

theorem set_of_not_mem {d : Dict κ ν} {k : κ} (h : k ∉ d.map Prod.fst) (v : ν) : set d k v = d ++ [(k, v)] := by
  induction d with
  | nil => rfl
  | cons item rest ih =>
    obtain ⟨k', v'⟩ := item
    rw [List.map_cons, List.mem_cons, not_or] at h
    rw [set, if_neg (Ne.symm h.1), ih h.2, List.cons_append]

theorem update_append (d : Dict κ ν) (items more : List (κ × ν)) :
    update d (items ++ more) = update (update d items) more := by
  rw [update, List.foldl_append]
  rfl

/-- The last of the items under a key is the one that is left. -/
theorem lookup_update (d : Dict κ ν) (items : List (κ × ν)) (k : κ) :
    (update d items).lookup k = (items.reverse.lookup k).or (d.lookup k) := by
  induction items using List.reverseRecOn with
  | nil => rfl
  | append_singleton items item ih =>
    obtain ⟨k', v⟩ := item
    rw [update_append, List.reverse_append, List.reverse_singleton, List.singleton_append, lookup_cons]
    change (set (update d items) k' v).lookup k = _
    rw [lookup_set, ih]
    by_cases h : k = k' <;> simp [h]

/-- The last of the items under a key. -/
def last (items : List (κ × ν)) (k : κ) : Option ν := items.reverse.lookup k

theorem lookup_update_nil (items : List (κ × ν)) (k : κ) : (update [] items).lookup k = last items k := by
  rw [lookup_update, last]
  exact Option.or_none

theorem mem_of_lookup {items : List (κ × ν)} {k : κ} {v : ν} (h : items.lookup k = some v) : (k, v) ∈ items := by
  induction items with
  | nil => cases h
  | cons item items ih =>
    obtain ⟨k', v'⟩ := item
    rw [lookup_cons] at h
    split at h
    · rename_i heq
      cases h
      simp [heq]
    · exact List.mem_cons_of_mem _ (ih h)

theorem exists_lookup_of_mem {items : List (κ × ν)} {k : κ} {v : ν} (h : (k, v) ∈ items) :
    ∃ v', items.lookup k = some v' := by
  induction items with
  | nil => cases h
  | cons item items ih =>
    obtain ⟨k', v'⟩ := item
    rw [lookup_cons]
    split
    · exact ⟨v', rfl⟩
    · rename_i hne
      rcases List.mem_cons.mp h with heq | hmem
      · cases heq
        exact absurd rfl hne
      · exact ih hmem

theorem last_append (items more : List (κ × ν)) (k : κ) : last (items ++ more) k = (last more k).or (last items k) := by
  rw [last, List.reverse_append, List.lookup_append, last, last]

theorem mem_of_last {items : List (κ × ν)} {k : κ} {v : ν} (h : last items k = some v) : (k, v) ∈ items :=
  List.mem_reverse.mp (mem_of_lookup h)

theorem exists_last_of_mem {items : List (κ × ν)} {k : κ} {v : ν} (h : (k, v) ∈ items) : ∃ v', last items k = some v' :=
  exists_lookup_of_mem (List.mem_reverse.mpr h)

/-- A key that occurs once has one value. -/
theorem value_unique {κ ν : Type} {items : List (κ × ν)} (hdistinct : (items.map Prod.fst).Nodup) {k : κ} {v v' : ν}
    (h : (k, v) ∈ items) (h' : (k, v') ∈ items) : v = v' := by
  have heq := List.inj_on_of_nodup_map hdistinct h h' rfl
  cases heq
  rfl

theorem lookup_of_mem {d : Dict κ ν} (hdistinct : (d.map Prod.fst).Nodup) {k : κ} {v : ν} (h : (k, v) ∈ d) :
    d.lookup k = some v := by
  obtain ⟨v', hlookup⟩ := exists_lookup_of_mem h
  rw [hlookup, value_unique hdistinct h (mem_of_lookup hlookup)]

/-- The dictionary is the map with these items, no more and no less. -/
def Represents (d : Dict κ ν) (items : List (κ × ν)) : Prop := ∀ k v, d.lookup k = some v ↔ (k, v) ∈ items

/-- Setting items with distinct keys makes the map with these items. -/
theorem represents_update {items : List (κ × ν)} (hdistinct : (items.map Prod.fst).Nodup) :
    Represents (update [] items) items := by
  intro k v
  rw [lookup_update_nil]
  constructor
  · exact mem_of_last
  · intro hmem
    obtain ⟨v', hlast⟩ := exists_last_of_mem hmem
    rw [hlast, value_unique hdistinct hmem (mem_of_last hlast)]

theorem mem_set {d : Dict κ ν} {k : κ} {v : ν} {item : κ × ν} (h : item ∈ set d k v) : item ∈ d ∨ item = (k, v) := by
  induction d with
  | nil => exact .inr (List.mem_singleton.mp h)
  | cons first rest ih =>
    obtain ⟨k', v'⟩ := first
    rw [set] at h
    split at h
    · rename_i heq
      rcases List.mem_cons.mp h with h | h
      · exact .inr (heq ▸ h)
      · exact .inl (List.mem_cons_of_mem _ h)
    · rcases List.mem_cons.mp h with h | h
      · exact .inl (h ▸ List.mem_cons_self)
      · exact (ih h).imp_left (List.mem_cons_of_mem _)

/-- The items of a dictionary made of items with distinct keys are these. -/
theorem mem_update_iff {items : List (κ × ν)} (hdistinct : (items.map Prod.fst).Nodup) (item : κ × ν) :
    item ∈ update [] items ↔ item ∈ items := by
  constructor
  · clear hdistinct
    induction items using List.reverseRecOn with
    | nil => exact id
    | append_singleton items last ih =>
      intro h
      rw [update_append] at h
      exact List.mem_append.mpr ((mem_set h).imp ih List.mem_singleton.mpr)
  · intro h
    exact mem_of_lookup ((represents_update hdistinct item.1 item.2).mpr h)

theorem keys_set (d : Dict κ ν) (k : κ) (v : ν) (k' : κ) :
    k' ∈ (set d k v).map Prod.fst ↔ k' = k ∨ k' ∈ d.map Prod.fst := by
  induction d with
  | nil => simp [set]
  | cons item rest ih =>
    obtain ⟨k'', v''⟩ := item
    rw [set]
    split
    · rename_i heq
      simp [heq]
    · rw [List.map_cons, List.mem_cons, List.map_cons, List.mem_cons, ih]
      exact or_left_comm

theorem length_set (d : Dict κ ν) (k : κ) (v : ν) :
    (set d k v).length = if k ∈ d.map Prod.fst then d.length else d.length + 1 := by
  induction d with
  | nil => rfl
  | cons item rest ih =>
    obtain ⟨k', v'⟩ := item
    rw [set]
    by_cases heq : k' = k
    · simp [heq]
    · have hne : k ≠ k' := Ne.symm heq
      rw [if_neg heq, List.length_cons, ih, List.length_cons, List.map_cons]
      by_cases hmem : k ∈ rest.map Prod.fst
      · rw [if_pos hmem, if_pos (List.mem_cons_of_mem _ hmem)]
      · rw [if_neg hmem, if_neg (fun h => (List.mem_cons.mp h).elim hne hmem)]

theorem keys_update (items : List (κ × ν)) (k : κ) : k ∈ (update [] items).map Prod.fst ↔ k ∈ items.map Prod.fst := by
  induction items using List.reverseRecOn with
  | nil => exact Iff.rfl
  | append_singleton items item ih =>
    rw [update_append, List.map_append, List.mem_append, List.map_singleton, List.mem_singleton, ← ih, or_comm]
    exact keys_set _ _ _ _

theorem length_update_le (items : List (κ × ν)) : (update [] items).length ≤ items.length := by
  induction items using List.reverseRecOn with
  | nil => exact Nat.le_refl _
  | append_singleton items item ih =>
    have hset : update [] (items ++ [item]) = set (update [] items) item.1 item.2 := update_append _ _ _
    rw [hset, length_set, List.length_append, List.length_singleton]
    split <;> omega

/-- No item is lost exactly when no key occurs twice. -/
theorem length_update_eq_iff (items : List (κ × ν)) :
    (update [] items).length = items.length ↔ (items.map Prod.fst).Nodup := by
  induction items using List.reverseRecOn with
  | nil => simp [update]
  | append_singleton items item ih =>
    have hset : update [] (items ++ [item]) = set (update [] items) item.1 item.2 := update_append _ _ _
    have hle := length_update_le items
    rw [hset, length_set, List.length_append, List.length_singleton, List.map_append, List.map_singleton]
    by_cases hmem : item.1 ∈ items.map Prod.fst
    · rw [if_pos ((keys_update items item.1).mpr hmem)]
      refine iff_of_false (by omega) fun h => ?_
      exact (List.nodup_append.mp h).2.2 item.1 hmem item.1 (List.mem_singleton_self _) rfl
    · rw [if_neg (mt (keys_update items item.1).mp hmem), Nat.add_right_cancel_iff, ih]
      refine ⟨fun h => List.nodup_append.mpr ⟨h, List.nodup_singleton _, ?_⟩, fun h => (List.nodup_append.mp h).1⟩
      intro k hk k' hk' heq
      exact hmem (List.mem_singleton.mp hk' ▸ heq ▸ hk)

end dict
