import Mathlib.Order.WellFounded

namespace runs

variable {σ : Type} {step : σ → σ → Prop}

/-- Every run from a state comes to the goal, whatever steps it takes. -/
inductive Inevitable (step : σ → σ → Prop) (goal : σ → Prop) : σ → Prop where
  | now {s : σ} : goal s → Inevitable step goal s
  | later {s : σ} : (∃ t, step s t) → (∀ t, step s t → Inevitable step goal t) → Inevitable step goal s

/-- An invariant under which there is always a step to take and every step makes
    a measure smaller leads to the goal. -/
theorem inevitable_of_invariant {μ : Type} [WellFoundedRelation μ] {goal : σ → Prop} (inv : σ → Prop)
    (measure : σ → μ)
    (hprogress : ∀ s, inv s → ¬ goal s → ∃ t, step s t)
    (hstep : ∀ s t, inv s → ¬ goal s → step s t →
      inv t ∧ WellFoundedRelation.rel (measure t) (measure s))
    {s : σ} (hinv : inv s) : Inevitable step goal s := by
  have hacc : Acc WellFoundedRelation.rel (measure s) := WellFoundedRelation.wf.apply (measure s)
  generalize hm : measure s = m at hacc
  induction hacc generalizing s with
  | intro m _ ih =>
    by_cases hgoal : goal s
    · exact .now hgoal
    · refine .later (hprogress s hinv hgoal) fun t hst => ?_
      obtain ⟨ht, hlt⟩ := hstep s t hinv hgoal hst
      exact ih (measure t) (hm ▸ hlt) ht rfl

/-- Two goals that are both inevitable and that no step takes back are met
    together. -/
theorem Inevitable.meets {goal goal' : σ → Prop} {s : σ} (h : Inevitable step goal s)
    (h' : Inevitable step goal' s) (hstable : ∀ s t, goal s → step s t → goal t)
    (hstable' : ∀ s t, goal' s → step s t → goal' t) : ∃ t, goal t ∧ goal' t := by
  induction h with
  | @now s hgoal =>
    induction h' with
    | @now s hgoal' => exact ⟨s, hgoal, hgoal'⟩
    | later hnext _ ih =>
      obtain ⟨t, hst⟩ := hnext
      exact ih t hst (hstable _ t hgoal hst)
  | @later s hnext _ ih =>
    obtain ⟨t, hst⟩ := hnext
    refine ih t hst ?_
    cases h' with
    | now hgoal' => exact .now (hstable' s t hgoal' hst)
    | later _ hall => exact hall t hst

/-- What always keeps a goal away does not make it inevitable. -/
theorem Inevitable.not_of_invariant {goal : σ → Prop} (inv : σ → Prop) (hnot : ∀ s, inv s → ¬ goal s)
    (hstep : ∀ s t, inv s → step s t → inv t) {s : σ} (hinv : inv s) : ¬ Inevitable step goal s := by
  intro h
  induction h with
  | now hs => exact hnot _ hinv hs
  | later hnext _ ih =>
    obtain ⟨t, hst⟩ := hnext
    exact ih t hst (hstep _ t hinv hst)

/-- Every run from a state comes to the goal, and the states before it are safe. -/
inductive Leads (step : σ → σ → Prop) (safe goal : σ → Prop) : σ → Prop where
  | now {s : σ} : goal s → Leads step safe goal s
  | later {s : σ} : safe s → (∃ t, step s t) → (∀ t, step s t → Leads step safe goal t) → Leads step safe goal s

theorem Leads.mono {safe safe' goal goal' : σ → Prop} (hsafe : ∀ s, safe s → safe' s) (hgoal : ∀ s, goal s → goal' s)
    {s : σ} (h : Leads step safe goal s) : Leads step safe' goal' s := by
  induction h with
  | now hs => exact .now (hgoal _ hs)
  | later hs hnext _ ih => exact .later (hsafe _ hs) hnext ih

theorem Leads.trans {safe mid goal : σ → Prop} {s : σ} (h : Leads step safe mid s)
    (hmid : ∀ t, mid t → Leads step safe goal t) : Leads step safe goal s := by
  induction h with
  | now hs => exact hmid _ hs
  | later hs hnext _ ih => exact .later hs hnext ih

/-- What is not at its goal is safe and comes there by every step. -/
theorem Leads.next {safe goal : σ → Prop} {s : σ} (h : Leads step safe goal s) (hnot : ¬ goal s) :
    safe s ∧ (∃ t, step s t) ∧ ∀ t, step s t → Leads step safe goal t := by
  cases h with
  | now hs => exact absurd hs hnot
  | later hs hnext hall => exact ⟨hs, hnext, hall⟩

/-- A goal that is not met before another one is still ahead of it. -/
theorem Leads.meets {safe safe' mid goal : σ → Prop} (hnot : ∀ s, safe' s → ¬ goal s) {s : σ}
    (h : Leads step safe goal s) (h' : Leads step safe' mid s) : ∃ t, mid t ∧ Leads step safe goal t := by
  induction h' with
  | @now s hs => exact ⟨s, hs, h⟩
  | @later s hs hnext _ ih =>
    obtain ⟨t, hst⟩ := hnext
    exact ih t hst ((h.next (hnot s hs)).2.2 t hst)

/-- What always keeps a goal away does not lead to it. -/
theorem Leads.not_of_invariant {safe goal : σ → Prop} (inv : σ → Prop) (hnot : ∀ s, inv s → ¬ goal s)
    (hstep : ∀ s t, inv s → step s t → inv t) {s : σ} (hinv : inv s) : ¬ Leads step safe goal s := by
  intro h
  induction h with
  | now hs => exact hnot _ hinv hs
  | later _ hnext _ ih =>
    obtain ⟨t, hst⟩ := hnext
    exact ih t hst (hstep _ t hinv hst)

/-- An invariant that is safe, under which there is always a step to take and every step
    makes a measure smaller, leads to the goal. -/
theorem leads_of_invariant {μ : Type} [WellFoundedRelation μ] {safe goal : σ → Prop} (inv : σ → Prop)
    (measure : σ → μ) (hsafe : ∀ s, inv s → safe s) (hprogress : ∀ s, inv s → ∃ t, step s t)
    (hstep : ∀ s t, inv s → step s t →
      goal t ∨ inv t ∧ WellFoundedRelation.rel (measure t) (measure s))
    {s : σ} (hinv : inv s) : Leads step safe goal s := by
  have hacc : Acc WellFoundedRelation.rel (measure s) := WellFoundedRelation.wf.apply (measure s)
  generalize hm : measure s = m at hacc
  induction hacc generalizing s with
  | intro m _ ih =>
    refine .later (hsafe s hinv) (hprogress s hinv) fun t hst => ?_
    obtain hgoal | ⟨ht, hlt⟩ := hstep s t hinv hst
    · exact .now hgoal
    · exact ih (measure t) (hm ▸ hlt) ht rfl

section Along

variable {ρ : Type} {after : σ → ρ → σ}

/-- Every request of a run has a property, in the state in which it comes. -/
def Along (after : σ → ρ → σ) (prop : σ → ρ → Prop) : σ → List ρ → Prop
  | _, [] => True
  | s, r :: requests => prop s r ∧ Along after prop (after s r) requests

instance decidableAlong {prop : σ → ρ → Prop} [∀ s r, Decidable (prop s r)] :
    ∀ (s : σ) (requests : List ρ), Decidable (Along after prop s requests)
  | _, [] => inferInstanceAs (Decidable True)
  | s, r :: requests =>
    have : Decidable (Along after prop (after s r) requests) := decidableAlong (after s r) requests
    inferInstanceAs (Decidable (prop s r ∧ Along after prop (after s r) requests))

theorem Along.and {prop prop' : σ → ρ → Prop} {s : σ} {requests : List ρ} (h : Along after prop s requests)
    (h' : Along after prop' s requests) : Along after (fun s r => prop s r ∧ prop' s r) s requests := by
  induction requests generalizing s with
  | nil => trivial
  | cons r requests ih => exact ⟨⟨h.1, h'.1⟩, ih h.2 h'.2⟩

/-- An invariant that the requests keep is one of the whole run, and so is what it
    says of a request. -/
theorem along_of_invariant {given holds : σ → ρ → Prop} (inv : σ → Prop)
    (hstep : ∀ s r, inv s → given s r → holds s r ∧ inv (after s r)) {s : σ} {requests : List ρ} (hinv : inv s)
    (h : Along after given s requests) : Along after holds s requests ∧ inv (requests.foldl after s) := by
  induction requests generalizing s with
  | nil => exact ⟨trivial, hinv⟩
  | cons r requests ih =>
    obtain ⟨hholds, hnext⟩ := hstep s r hinv h.1
    obtain ⟨hrest, hend⟩ := ih hnext h.2
    exact ⟨⟨hholds, hrest⟩, hend⟩

/-- Under an invariant that the requests keep, two properties that are the same for each
    of them are the same for the whole run. -/
theorem along_iff_of_invariant {given holds : σ → ρ → Prop} (inv : σ → Prop)
    (hstep : ∀ s r, inv s → (holds s r ↔ given s r) ∧ (given s r → inv (after s r))) {s : σ} {requests : List ρ}
    (hinv : inv s) : Along after holds s requests ↔ Along after given s requests := by
  induction requests generalizing s with
  | nil => exact Iff.rfl
  | cons r requests ih =>
    obtain ⟨hiff, hnext⟩ := hstep s r hinv
    exact ⟨fun h => ⟨hiff.mp h.1, (ih (hnext (hiff.mp h.1))).mp h.2⟩,
      fun h => ⟨hiff.mpr h.1, (ih (hnext h.1)).mpr h.2⟩⟩

/-- A request either has the property and keeps the invariant, or leads to where no
    later request gets away from: a run that ends elsewhere has the property all
    along. -/
theorem along_of_not_stuck {given holds : σ → ρ → Prop} (inv stuck : σ → Prop)
    (hstep : ∀ s r, inv s → given s r → holds s r ∧ inv (after s r) ∨ stuck (after s r))
    (hstuck : ∀ s r, stuck s → given s r → stuck (after s r)) {s : σ} {requests : List ρ} (hinv : inv s)
    (h : Along after given s requests) (hend : ¬ stuck (requests.foldl after s)) : Along after holds s requests := by
  induction requests generalizing s with
  | nil => trivial
  | cons r requests ih =>
    obtain ⟨hholds, hnext⟩ | hnext := hstep s r hinv h.1
    · exact ⟨hholds, ih hnext h.2 hend⟩
    · exact absurd (along_of_invariant stuck (fun s r hs hr => ⟨trivial, hstuck s r hs hr⟩) hnext h.2).2 hend

end Along

end runs
