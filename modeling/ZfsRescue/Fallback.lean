import Mathlib.Data.List.Basic

namespace fallback

variable {ε ι β : Type} {read : ι → Except ε β} {stop : β → Bool}

/-- The search from a list of sources on, given what it would end on if there
    were none. -/
def searchFrom (read : ι → Except ε β) (stop : β → Bool) : Option (ι × β) → List ι → Except ε (Option (ι × β))
  | last, [] => .ok last
  | _, i :: rest =>
    match read i with
    | .error e => .error e
    | .ok b => if stop b then .ok (some (i, b)) else searchFrom read stop (some (i, b)) rest

/-- Reads the sources in order until one of them satisfies the stop test. The
    search ends on the last source read, with what it gave. -/
def search (read : ι → Except ε β) (stop : β → Bool) (sources : List ι) : Except ε (Option (ι × β)) :=
  searchFrom read stop none sources

/-- A source that is read and does not end the search. -/
def PassedOver (read : ι → Except ε β) (stop : β → Bool) (i : ι) : Prop := ∃ b, read i = .ok b ∧ stop b = false

/-- A source of a list is its first, or one of the rest. -/
private theorem exists_split_cons {i j : ι} {rest : List ι} {P : List ι → List ι → Prop} :
    (∃ before after, j :: rest = before ++ i :: after ∧ P before after) ↔
      (j = i ∧ P [] rest) ∨ ∃ before after, rest = before ++ i :: after ∧ P (j :: before) after := by
  constructor
  · rintro ⟨_ | ⟨k, before⟩, after, hsplit, hP⟩
    · cases hsplit
      exact .inl ⟨rfl, hP⟩
    · cases hsplit
      exact .inr ⟨before, after, rfl, hP⟩
  · rintro (⟨rfl, hP⟩ | ⟨before, after, rfl, hP⟩)
    · exact ⟨[], rest, rfl, hP⟩
    · exact ⟨j :: before, after, rfl, hP⟩

private theorem forall_split_cons {j : ι} {rest : List ι} {P : List ι → ι → List ι → Prop} :
    (∀ before k after, j :: rest = before ++ k :: after → P before k after) ↔
      P [] j rest ∧ ∀ before k after, rest = before ++ k :: after → P (j :: before) k after := by
  constructor
  · intro h
    exact ⟨h [] j rest rfl, fun before k after hsplit => h (j :: before) k after (congrArg (j :: ·) hsplit)⟩
  · rintro ⟨hfirst, hrest⟩ (_ | ⟨m, before⟩) k after hsplit
    · cases hsplit
      exact hfirst
    · cases hsplit
      exact hrest before k after rfl

/-- What the search ends on, from any sources on. The induction is on the sources, by what
    the first of them gives. -/
private theorem searchFrom_iff (i : ι) (b : β) (sources : List ι) (last : Option (ι × β)) :
    searchFrom read stop last sources = .ok (some (i, b)) ↔
      (sources = [] ∧ last = some (i, b)) ∨
        ∃ before after, sources = before ++ i :: after ∧ (∀ k ∈ before, PassedOver read stop k) ∧
          read i = .ok b ∧ (stop b = true ∨ after = []) := by
  induction sources generalizing last with
  | nil => simp [searchFrom]
  | cons j rest ih =>
    rw [exists_split_cons, searchFrom]
    cases hread : read j with
    | error e =>
      constructor
      · intro h
        cases h
      · rintro (⟨hnil, -⟩ | ⟨rfl, -, hi, -⟩ | ⟨before, after, -, hpassed, -⟩)
        · cases hnil
        · rw [hread] at hi
          cases hi
        · obtain ⟨c, hc, -⟩ := hpassed j List.mem_cons_self
          rw [hread] at hc
          cases hc
    | ok c =>
      cases hstop : stop c with
      | true =>
        simp only [hstop, if_true, Except.ok.injEq, Option.some.injEq, Prod.mk.injEq]
        constructor
        · rintro ⟨rfl, rfl⟩
          exact .inr (.inl ⟨rfl, by simp, hread, .inl hstop⟩)
        · rintro (⟨hnil, -⟩ | ⟨rfl, -, hi, -⟩ | ⟨before, after, -, hpassed, -⟩)
          · cases hnil
          · rw [hread] at hi
            cases hi
            exact ⟨rfl, rfl⟩
          · obtain ⟨c', hc, hgo⟩ := hpassed j List.mem_cons_self
            rw [hread] at hc
            cases hc
            rw [hstop] at hgo
            cases hgo
      | false =>
        simp only [hstop, Bool.false_eq_true, if_false, ih]
        constructor
        · rintro (⟨rfl, heq⟩ | ⟨before, after, hsplit, hpassed, hi, hend⟩)
          · cases heq
            exact .inr (.inl ⟨rfl, by simp, hread, .inr rfl⟩)
          · exact .inr (.inr ⟨before, after, hsplit, List.forall_mem_cons.mpr ⟨⟨c, hread, hstop⟩, hpassed⟩, hi, hend⟩)
        · rintro (⟨hnil, -⟩ | ⟨rfl, -, hi, hend⟩ | ⟨before, after, hsplit, hpassed, hi, hend⟩)
          · cases hnil
          · rw [hread] at hi
            cases hi
            exact .inl ⟨hend.resolve_left (by simp [hstop]), rfl⟩
          · exact .inr ⟨before, after, hsplit, (List.forall_mem_cons.mp hpassed).2, hi, hend⟩

/-- The search ends on a source when every one before it was passed over, and
    it satisfies the stop test or is the last. -/
theorem search_eq_ok_some_iff {sources : List ι} {i : ι} {b : β} :
    search read stop sources = .ok (some (i, b)) ↔
      ∃ before after, sources = before ++ i :: after ∧ (∀ j ∈ before, PassedOver read stop j) ∧
        read i = .ok b ∧ (stop b = true ∨ after = []) := by
  rw [search, searchFrom_iff]
  simp

/-- A search among some sources ends on one of them. -/
theorem search_ne_ok_none {sources : List ι} (h : sources ≠ []) : search read stop sources ≠ .ok none := by
  have hrun : ∀ sources last, searchFrom read stop last sources = .ok none → sources = [] ∧ last = none := by
    intro sources
    induction sources with
    | nil =>
      intro last hlast
      rw [searchFrom] at hlast
      cases hlast
      exact ⟨rfl, rfl⟩
    | cons i rest ih =>
      intro last hlast
      rw [searchFrom] at hlast
      split at hlast
      · cases hlast
      · split at hlast
        · cases hlast
        · cases (ih _ hlast).2
  exact fun hsearch => h (hrun sources none hsearch).1

/-- When good sources satisfy the stop test, the search ends on a good one
    exactly when everything before the first of them is passed over. -/
theorem search_good_iff {sources : List ι} {good : ι → Prop}
    (hgood : ∀ i, good i → ∃ b, read i = .ok b ∧ stop b = true) :
    (∃ i b, search read stop sources = .ok (some (i, b)) ∧ good i) ↔
      ∃ before i after, sources = before ++ i :: after ∧ good i ∧ ∀ j ∈ before, PassedOver read stop j := by
  constructor
  · rintro ⟨i, b, hsearch, hi⟩
    obtain ⟨before, after, hsplit, hpassed, _, _⟩ := search_eq_ok_some_iff.mp hsearch
    exact ⟨before, i, after, hsplit, hi, hpassed⟩
  · rintro ⟨before, i, after, hsplit, hi, hpassed⟩
    obtain ⟨b, hread, hstop⟩ := hgood i hi
    exact ⟨i, b, search_eq_ok_some_iff.mpr ⟨before, after, hsplit, hpassed, hread, .inl hstop⟩, hi⟩

private theorem searchFrom_ends_iff {good : ι → β → Prop} (sources : List ι) (last : Option (ι × β)) :
    (∃ found, searchFrom read stop last sources = .ok found ∧ ∀ i b, found = some (i, b) → good i b) ↔
      (sources = [] → ∀ i b, last = some (i, b) → good i b) ∧
        ∀ before k after, sources = before ++ k :: after → (∀ m ∈ before, PassedOver read stop m) →
          ∃ b, read k = .ok b ∧ (stop b = true ∨ after = [] → good k b) := by
  induction sources generalizing last with
  | nil => simp [searchFrom]
  | cons j rest ih =>
    rw [forall_split_cons, searchFrom]
    cases hread : read j with
    | error e =>
      constructor
      · rintro ⟨found, h, -⟩
        cases h
      · rintro ⟨-, hfirst, -⟩
        obtain ⟨b, hb, -⟩ := hfirst (by simp)
        cases hb
    | ok b =>
      cases hstop : stop b with
      | true =>
        simp only [hstop, if_true]
        constructor
        · rintro ⟨found, h, hgood⟩
          cases h
          refine ⟨by simp, fun _ => ⟨b, rfl, fun _ => hgood j b rfl⟩, ?_⟩
          intro before k after _ hpassed
          obtain ⟨c, hc, hgo⟩ := hpassed j List.mem_cons_self
          rw [hread] at hc
          cases hc
          rw [hstop] at hgo
          cases hgo
        · rintro ⟨-, hfirst, -⟩
          obtain ⟨c, hc, hgood⟩ := hfirst (by simp)
          cases hc
          refine ⟨some (j, b), rfl, ?_⟩
          rintro i c heq
          cases heq
          exact hgood (.inl hstop)
      | false =>
        simp only [hstop, Bool.false_eq_true, if_false, ih]
        constructor
        · rintro ⟨hlast, hrest⟩
          refine ⟨by simp, fun _ => ⟨b, rfl, fun hend => ?_⟩, ?_⟩
          · exact hlast (hend.resolve_left (by simp [hstop])) j b rfl
          · exact fun before k after hsplit hpassed =>
              hrest before k after hsplit (List.forall_mem_cons.mp hpassed).2
        · rintro ⟨-, hfirst, hrest⟩
          refine ⟨fun hnil i c heq => ?_, fun before k after hsplit hpassed => ?_⟩
          · cases heq
            obtain ⟨c, hc, hgood⟩ := hfirst (by simp)
            cases hc
            exact hgood (.inr hnil)
          · exact hrest before k after hsplit (List.forall_mem_cons.mpr ⟨⟨b, hread, hstop⟩, hpassed⟩)

/-- The search comes to a good end exactly when every source it reaches can be
    read, and is good if the search ends there. -/
theorem search_ends_iff {sources : List ι} {good : ι → β → Prop} :
    (∃ found, search read stop sources = .ok found ∧ ∀ i b, found = some (i, b) → good i b) ↔
      ∀ before j after, sources = before ++ j :: after → (∀ k ∈ before, PassedOver read stop k) →
        ∃ b, read j = .ok b ∧ (stop b = true ∨ after = [] → good j b) := by
  rw [search, searchFrom_ends_iff]
  simp

end fallback
