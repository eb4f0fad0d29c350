import ZfsRescue.Walk

namespace walk

variable {σ ε α E : Type}

/-- The walk in which some entries are not there. -/
def Walk.without (w : Walk σ ε α E) (drop : ε → Bool) : Walk σ ε α E where
  visit s := do
    let place ← w.visit s
    .ok (place.1, place.2.filter fun e => !drop e)
  step := w.step
  full := w.full

/-- What the entries that are left out give can be told from what the others
    give: at the places that the others lead to nothing is left out of the
    output by itself, and an entry left out leads to a place without entries at
    most. -/
structure Separates (w : Walk σ ε α E) (drop : ε → Bool) (good : σ → Prop) (shown : α → Bool) : Prop where
  visit : ∀ s out es, good s → w.visit s = .ok (out, es) → out.filter shown = out
  kept : ∀ s e own next, drop e = false → w.step s e = .ok (own, next) →
    own.filter shown = own ∧ ∀ t, next = some t → good t
  dropped : ∀ s e own next, drop e = true → w.step s e = .ok (own, next) →
    own.filter shown = [] ∧ ∀ t, next = some t → ∃ out, w.visit t = .ok (out, []) ∧ out.filter shown = []

section Without

variable {w : Walk σ ε α E} {drop : ε → Bool}

theorem visit_without_eq_ok_iff {s : σ} {out : List α} {es : List ε} :
    (w.without drop).visit s = .ok (out, es) ↔
      ∃ all, w.visit s = .ok (out, all) ∧ es = all.filter fun e => !drop e := by
  simp only [Walk.without, bind_eq_ok_iff, Except.ok.injEq, Prod.mk.injEq, Prod.exists]
  constructor
  · rintro ⟨out', all, hvisit, rfl, rfl⟩
    exact ⟨all, hvisit, rfl⟩
  · rintro ⟨all, hvisit, rfl⟩
    exact ⟨out, all, hvisit, rfl, rfl⟩

theorem goes_of_without {s t : σ} (h : (w.without drop).Goes s t) : w.Goes s t := by
  obtain ⟨out, es, e, own, hvisit, he, hstep⟩ := h
  obtain ⟨all, hall, rfl⟩ := visit_without_eq_ok_iff.mp hvisit
  exact ⟨out, all, e, own, hall, (List.mem_filter.mp he).1, hstep⟩

/-- No entry that is left out raises, at any place that the others lead to. -/
def NoneRaises (w : Walk σ ε α E) (drop : ε → Bool) (s : σ) : Prop :=
  ∀ t, Relation.ReflTransGen (w.without drop).Goes s t → ∀ out es, w.visit t = .ok (out, es) →
    ∀ e ∈ es, drop e = true → ∃ r, w.step t e = .ok r

theorem noneRaises_of_run {frames : Nat} {s : σ} {out : List α} (h : w.run frames s = .ok out) :
    NoneRaises w drop s := by
  intro t hreach own es hvisit e he _
  have hreach' : Relation.ReflTransGen w.Goes s t := hreach.lift id fun _ _ => goes_of_without
  obtain ⟨own', es', hvisit', hsteps⟩ := clean_of_reachable h hreach'
  rw [hvisit] at hvisit'
  cases hvisit'
  exact hsteps e he

variable {good : σ → Prop} {shown : α → Bool}

/-- The entries of one place. -/
theorem entries_without (hsep : Separates w drop good shown) {s : σ} {es : List ε} {out : List α} {frames : Nat}
    (h : (w.without drop).entries ((w.without drop).run frames) s (es.filter fun e => !drop e) = .ok out)
    (hraise : ∀ e ∈ es, drop e = true → ∃ r, w.step s e = .ok r)
    (hdown : ∀ e ∈ es, drop e = false → ∀ own t sub, w.step s e = .ok (own, some t) →
      (w.without drop).run frames t = .ok sub → ∃ sub', w.run (frames + 1) t = .ok sub' ∧ sub'.filter shown = sub) :
    ∃ out', w.entries (w.run (frames + 1)) s es = .ok out' ∧ out'.filter shown = out := by
  induction es generalizing out with
  | nil =>
    cases h
    exact ⟨[], rfl, rfl⟩
  | cons e es ih =>
    have hraise' : ∀ e' ∈ es, drop e' = true → ∃ r, w.step s e' = .ok r := fun e' he' => hraise e' (by simp [he'])
    have hdown' : ∀ e' ∈ es, drop e' = false → ∀ own t sub, w.step s e' = .ok (own, some t) →
        (w.without drop).run frames t = .ok sub → ∃ sub', w.run (frames + 1) t = .ok sub' ∧ sub'.filter shown = sub :=
      fun e' he' => hdown e' (by simp [he'])
    cases hdrop : drop e with
    | true =>
      rw [List.filter_cons_of_neg (by simp [hdrop])] at h
      obtain ⟨rest, hrest, hshown⟩ := ih h hraise' hdown'
      obtain ⟨⟨own, next⟩, hstep⟩ := hraise e (by simp) hdrop
      obtain ⟨hown, hnext⟩ := hsep.dropped s e own next hdrop hstep
      have hsub : ∃ sub, below (w.run (frames + 1)) next = .ok sub ∧ sub.filter shown = [] := by
        cases next with
        | none => exact ⟨[], rfl, rfl⟩
        | some t =>
          obtain ⟨sub, hvisit, hsub⟩ := hnext t rfl
          refine ⟨sub, run_succ_eq_ok_iff.mpr ⟨sub, [], [], hvisit, rfl, ?_⟩, hsub⟩
          rw [List.append_nil]
      obtain ⟨sub, hsub, hnone⟩ := hsub
      refine ⟨_, entries_cons_eq_ok_iff.mpr ⟨own, next, sub, rest, hstep, hsub, hrest, rfl⟩, ?_⟩
      rw [List.filter_append, List.filter_append, hown, hnone, hshown]
      rfl
    | false =>
      rw [List.filter_cons_of_pos (by simp [hdrop])] at h
      obtain ⟨own, next, sub, rest, hstep, hsub, hrest, rfl⟩ := entries_cons_eq_ok_iff.mp h
      obtain ⟨rest', hrest', hshown⟩ := ih hrest hraise' hdown'
      obtain ⟨hown, -⟩ := hsep.kept s e own next hdrop hstep
      have hsub' : ∃ sub', below (w.run (frames + 1)) next = .ok sub' ∧ sub'.filter shown = sub := by
        cases next with
        | none =>
          cases hsub
          exact ⟨[], rfl, rfl⟩
        | some t => exact hdown e (by simp) hdrop own t sub hstep hsub
      obtain ⟨sub', hsub', hshown'⟩ := hsub'
      refine ⟨_, entries_cons_eq_ok_iff.mpr ⟨own, next, sub', rest', hstep, hsub', hrest', rfl⟩, ?_⟩
      rw [List.filter_append, List.filter_append, hown, hshown', hshown]

/-- Where no entry left out raises, the walk with them ends when the walk without
    them does, and gives the same but for what these entries add. -/
theorem run_without (hsep : Separates w drop good shown) {frames : Nat} {s : σ} {out : List α}
    (h : (w.without drop).run frames s = .ok out) (hgood : good s) (hraise : NoneRaises w drop s) :
    ∃ out', w.run (frames + 1) s = .ok out' ∧ out'.filter shown = out := by
  induction frames generalizing s out with
  | zero => cases h
  | succ frames ih =>
    obtain ⟨own, es, rest, hvisit, hrest, rfl⟩ := run_succ_eq_ok_iff.mp h
    obtain ⟨all, hall, rfl⟩ := visit_without_eq_ok_iff.mp hvisit
    obtain ⟨rest', hrest', hshown⟩ := entries_without hsep hrest (hraise s .refl own all hall)
      (fun e he hdrop own' t sub hstep hsub => by
        have hgoes : (w.without drop).Goes s t :=
          ⟨own, _, e, own', hvisit, List.mem_filter.mpr ⟨he, by simp [hdrop]⟩, hstep⟩
        exact ih hsub ((hsep.kept s e own' _ hdrop hstep).2 t rfl) fun u hu => hraise u (.head hgoes hu))
    refine ⟨_, run_succ_eq_ok_iff.mpr ⟨own, all, rest', hall, hrest', rfl⟩, ?_⟩
    rw [List.filter_append, hsep.visit s own all hgood hall, hshown]

/-- The walk gives what it gives without some entries, but for what these add. -/
def Walk.Contains (w : Walk σ ε α E) (shown : α → Bool) (s : σ) (out : List α) : Prop :=
  ∃ frames out', w.run frames s = .ok out' ∧ out'.filter shown = out

/-- Given that the walk without some entries ends, the walk with them gives the
    same otherwise exactly when none of these raises. -/
theorem contains_iff (hsep : Separates w drop good shown) {frames : Nat} {s : σ} {out : List α}
    (h : (w.without drop).run frames s = .ok out) (hgood : good s) :
    w.Contains shown s out ↔ NoneRaises w drop s := by
  constructor
  · rintro ⟨frames', out', hrun, -⟩
    exact noneRaises_of_run hrun
  · intro hraise
    obtain ⟨out', hrun, hshown⟩ := run_without hsep h hgood hraise
    exact ⟨frames + 1, out', hrun, hshown⟩

end Without

end walk
