import Mathlib.Logic.Relation

namespace walk

/-- A walk: what a place gives by itself and its entries, and what an entry gives
    and the place that it leads to. `full` is raised when the stack is. -/
structure Walk (σ ε α E : Type) where
  visit : σ → Except E (List α × List ε)
  step : σ → ε → Except E (List α × Option σ)
  full : E

variable {σ ε α E : Type}

/-- What lies below an entry. -/
def below (down : σ → Except E (List α)) : Option σ → Except E (List α)
  | none => .ok []
  | some t => down t

/-- The entries of a place in order, each with what lies below it. -/
def Walk.entries (w : Walk σ ε α E) (down : σ → Except E (List α)) (s : σ) : List ε → Except E (List α)
  | [] => .ok []
  | e :: es => do
    let r ← w.step s e
    let sub ← below down r.2
    let rest ← w.entries down s es
    .ok (r.1 ++ sub ++ rest)

/-- The walk from a place, on a stack with room for some more calls. -/
def Walk.run (w : Walk σ ε α E) : Nat → σ → Except E (List α)
  | 0, _ => .error w.full
  | frames + 1, s => do
    let place ← w.visit s
    let rest ← w.entries (w.run frames) s place.2
    .ok (place.1 ++ rest)

/-- The walk comes to its end on some stack. -/
def Walk.Finishes (w : Walk σ ε α E) (s : σ) : Prop := ∃ frames out, w.run frames s = .ok out

/-- An entry of `s` leads to `t`. -/
def Walk.Goes (w : Walk σ ε α E) (s t : σ) : Prop :=
  ∃ out es e own, w.visit s = .ok (out, es) ∧ e ∈ es ∧ w.step s e = .ok (own, some t)

/-- Neither the place nor any of its entries raises. -/
def Walk.Clean (w : Walk σ ε α E) (s : σ) : Prop :=
  ∃ out es, w.visit s = .ok (out, es) ∧ ∀ e ∈ es, ∃ r, w.step s e = .ok r

theorem bind_eq_ok_iff {β γ : Type} {x : Except E β} {f : β → Except E γ} {c : γ} :
    (x >>= f) = .ok c ↔ ∃ b, x = .ok b ∧ f b = .ok c := by
  cases x <;> simp [Bind.bind, Except.bind]

section Run

variable {w : Walk σ ε α E}

theorem entries_cons_eq_ok_iff {down : σ → Except E (List α)} {s : σ} {e : ε} {es : List ε} {out : List α} :
    w.entries down s (e :: es) = .ok out ↔
      ∃ own next sub rest, w.step s e = .ok (own, next) ∧ below down next = .ok sub ∧
        w.entries down s es = .ok rest ∧ out = own ++ sub ++ rest := by
  simp only [Walk.entries, bind_eq_ok_iff, Except.ok.injEq, Prod.exists]
  constructor
  · rintro ⟨own, next, hstep, sub, hsub, rest, hrest, rfl⟩
    exact ⟨own, next, sub, rest, hstep, hsub, hrest, rfl⟩
  · rintro ⟨own, next, sub, rest, hstep, hsub, hrest, rfl⟩
    exact ⟨own, next, hstep, sub, hsub, rest, hrest, rfl⟩

theorem run_succ_eq_ok_iff {frames : Nat} {s : σ} {out : List α} :
    w.run (frames + 1) s = .ok out ↔
      ∃ own es rest, w.visit s = .ok (own, es) ∧ w.entries (w.run frames) s es = .ok rest ∧ out = own ++ rest := by
  simp only [Walk.run, bind_eq_ok_iff, Except.ok.injEq, Prod.exists]
  constructor
  · rintro ⟨own, es, hvisit, rest, hrest, rfl⟩
    exact ⟨own, es, rest, hvisit, hrest, rfl⟩
  · rintro ⟨own, es, rest, hvisit, hrest, rfl⟩
    exact ⟨own, es, hvisit, rest, hrest, rfl⟩

theorem entries_mono {down down' : σ → Except E (List α)} (h : ∀ t out, down t = .ok out → down' t = .ok out) {s : σ}
    {es : List ε} {out : List α} (hrun : w.entries down s es = .ok out) : w.entries down' s es = .ok out := by
  induction es generalizing out with
  | nil => exact hrun
  | cons e es ih =>
    obtain ⟨own, next, sub, rest, hstep, hsub, hrest, rfl⟩ := entries_cons_eq_ok_iff.mp hrun
    refine entries_cons_eq_ok_iff.mpr ⟨own, next, sub, rest, hstep, ?_, ih hrest, rfl⟩
    cases next with
    | none => exact hsub
    | some t => exact h t sub hsub

/-- More room on the stack does not change a walk that ends. -/
theorem run_mono {frames frames' : Nat} {s : σ} {out : List α} (h : w.run frames s = .ok out) (hle : frames ≤ frames') :
    w.run frames' s = .ok out := by
  induction frames generalizing frames' s out with
  | zero => cases h
  | succ frames ih =>
    obtain ⟨frames', rfl⟩ : ∃ n, frames' = n + 1 := ⟨frames' - 1, by omega⟩
    obtain ⟨own, es, rest, hvisit, hrest, rfl⟩ := run_succ_eq_ok_iff.mp h
    exact run_succ_eq_ok_iff.mpr
      ⟨own, es, rest, hvisit, entries_mono (fun t out ht => ih ht (by omega)) hrest, rfl⟩

/-- In entries that come to their end every step does, and so does the walk from
    where it leads to. -/
theorem step_of_entries {down : σ → Except E (List α)} {s : σ} {es : List ε} {out : List α}
    (h : w.entries down s es = .ok out) {e : ε} (he : e ∈ es) :
    ∃ own next sub, w.step s e = .ok (own, next) ∧ below down next = .ok sub := by
  induction es generalizing out with
  | nil => cases he
  | cons first es ih =>
    obtain ⟨own, next, sub, rest, hstep, hsub, hrest, -⟩ := entries_cons_eq_ok_iff.mp h
    rcases List.mem_cons.mp he with rfl | he
    · exact ⟨own, next, sub, hstep, hsub⟩
    · exact ih hrest he

theorem entries_of_steps {down : σ → Except E (List α)} {s : σ} {es : List ε}
    (h : ∀ e ∈ es, ∃ own next sub, w.step s e = .ok (own, next) ∧ below down next = .ok sub) :
    ∃ out, w.entries down s es = .ok out := by
  induction es with
  | nil => exact ⟨[], rfl⟩
  | cons e es ih =>
    obtain ⟨own, next, sub, hstep, hsub⟩ := h e (by simp)
    obtain ⟨rest, hrest⟩ := ih fun e' he' => h e' (by simp [he'])
    exact ⟨_, entries_cons_eq_ok_iff.mpr ⟨own, next, sub, rest, hstep, hsub, hrest, rfl⟩⟩

theorem clean_of_run {frames : Nat} {s : σ} {out : List α} (h : w.run (frames + 1) s = .ok out) : w.Clean s := by
  obtain ⟨own, es, rest, hvisit, hrest, -⟩ := run_succ_eq_ok_iff.mp h
  refine ⟨own, es, hvisit, fun e he => ?_⟩
  obtain ⟨own', next, sub, hstep, -⟩ := step_of_entries hrest he
  exact ⟨_, hstep⟩

theorem run_of_goes {frames : Nat} {s t : σ} {out : List α} (h : w.run (frames + 1) s = .ok out) (hgoes : w.Goes s t) :
    ∃ sub, w.run frames t = .ok sub := by
  obtain ⟨own, es, rest, hvisit, hrest, -⟩ := run_succ_eq_ok_iff.mp h
  obtain ⟨own', es', e, own'', hvisit', he, hstep⟩ := hgoes
  rw [hvisit] at hvisit'
  cases hvisit'
  obtain ⟨found, next, sub, hstep', hsub⟩ := step_of_entries hrest he
  rw [hstep] at hstep'
  cases hstep'
  exact ⟨sub, hsub⟩

theorem clean_of_reachable {frames : Nat} {s t : σ} {out : List α} (h : w.run frames s = .ok out)
    (hreach : Relation.ReflTransGen w.Goes s t) : w.Clean t := by
  induction frames generalizing s out with
  | zero => cases h
  | succ frames ih =>
    rcases hreach.cases_head with rfl | ⟨u, hgoes, hrest⟩
    · exact clean_of_run h
    · obtain ⟨sub, hsub⟩ := run_of_goes h hgoes
      exact ih hsub hrest

theorem acc_of_run {frames : Nat} {s : σ} {out : List α} (h : w.run frames s = .ok out) :
    Acc (fun t s => w.Goes s t) s := by
  induction frames generalizing s out with
  | zero => cases h
  | succ frames ih =>
    refine Acc.intro s fun t hgoes => ?_
    obtain ⟨sub, hsub⟩ := run_of_goes h hgoes
    exact ih hsub

/-- What holds below each entry on some stack and on every larger one holds on one
    stack for all of them. -/
theorem exists_frames {p : Nat → σ → Prop} (hmono : ∀ n m t, p n t → n ≤ m → p m t) {s : σ} {es : List ε}
    (h : ∀ e ∈ es, ∀ own t, w.step s e = .ok (own, some t) → ∃ frames, p frames t) :
    ∃ frames, ∀ e ∈ es, ∀ own t, w.step s e = .ok (own, some t) → p frames t := by
  induction es with
  | nil => exact ⟨0, by simp⟩
  | cons e es ih =>
    obtain ⟨frames, hframes⟩ := ih fun e' he' => h e' (by simp [he'])
    have hfirst : ∃ frames', ∀ own t, w.step s e = .ok (own, some t) → p frames' t := by
      by_cases hgoes : ∃ own t, w.step s e = .ok (own, some t)
      · obtain ⟨own, t, hstep⟩ := hgoes
        obtain ⟨frames', hp⟩ := h e (by simp) own t hstep
        refine ⟨frames', fun own' t' hstep' => ?_⟩
        rw [hstep] at hstep'
        cases hstep'
        exact hp
      · exact ⟨0, fun own t hstep => absurd ⟨own, t, hstep⟩ hgoes⟩
    obtain ⟨frames', hframes'⟩ := hfirst
    refine ⟨max frames frames', fun e' he' own t hstep => ?_⟩
    rcases List.mem_cons.mp he' with rfl | he'
    · exact hmono _ _ t (hframes' own t hstep) (by omega)
    · exact hmono _ _ t (hframes e' he' own t hstep) (by omega)

/-- A walk ends exactly when it does not go down forever and nothing on its way
    raises. -/
theorem finishes_iff {s : σ} :
    w.Finishes s ↔ Acc (fun t s => w.Goes s t) s ∧ ∀ t, Relation.ReflTransGen w.Goes s t → w.Clean t := by
  constructor
  · rintro ⟨frames, out, h⟩
    exact ⟨acc_of_run h, fun t hreach => clean_of_reachable h hreach⟩
  · rintro ⟨hacc, hclean⟩
    induction hacc with
    | intro s _ ih =>
      obtain ⟨own, es, hvisit, hsteps⟩ := hclean s .refl
      have hbelow : ∀ e ∈ es, ∀ own' t, w.step s e = .ok (own', some t) → w.Finishes t := by
        intro e he own' t hstep
        have hgoes : w.Goes s t := ⟨own, es, e, own', hvisit, he, hstep⟩
        exact ih t hgoes fun u hu => hclean u (.head hgoes hu)
      have hmono : ∀ n m t, (∃ sub, w.run n t = .ok sub) → n ≤ m → ∃ sub, w.run m t = .ok sub := by
        rintro n m t ⟨sub, hsub⟩ hle
        exact ⟨sub, run_mono hsub hle⟩
      obtain ⟨frames, hframes⟩ := exists_frames hmono hbelow
      obtain ⟨rest, hrest⟩ : ∃ rest, w.entries (w.run frames) s es = .ok rest := by
        apply entries_of_steps
        intro e he
        obtain ⟨⟨own', next⟩, hstep⟩ := hsteps e he
        cases next with
        | none => exact ⟨own', none, [], hstep, rfl⟩
        | some t =>
          obtain ⟨sub, hsub⟩ := hframes e he own' t hstep
          exact ⟨own', some t, sub, hstep, hsub⟩
      exact ⟨frames + 1, _, run_succ_eq_ok_iff.mpr ⟨own, es, rest, hvisit, hrest, rfl⟩⟩

/-- From some stack on, a larger one does not change what the walk gives, and this
    is not that the stack is full. -/
def Walk.Settles (w : Walk σ ε α E) (s : σ) : Prop :=
  ∃ frames r, ∀ full frames', frames ≤ frames' → { w with full := full }.run frames' s = r

/-- What the entries of a place give depends on what lies below them alone. -/
theorem entries_congr {down down' : σ → Except E (List α)} (full : E) {s : σ} {es : List ε}
    (h : ∀ e ∈ es, ∀ own t, w.step s e = .ok (own, some t) → down t = down' t) :
    { w with full := full }.entries down s es = w.entries down' s es := by
  induction es with
  | nil => rfl
  | cons e es ih =>
    rw [Walk.entries, Walk.entries, ih fun e' he' => h e' (by simp [he'])]
    show (w.step s e >>= _) = _
    cases hstep : w.step s e with
    | error _ => rfl
    | ok r =>
      obtain ⟨own, next⟩ := r
      cases next with
      | none => rfl
      | some t =>
        have ht : down t = down' t := h e (by simp) own t hstep
        simp only [Bind.bind, Except.bind, below, ht]

/-- A walk that does not go down for ever settles, also where something raises. -/
theorem settles_of_acc {s : σ} (hacc : Acc (fun t s => w.Goes s t) s) : w.Settles s := by
  induction hacc with
  | intro s _ ih =>
    cases hvisit : w.visit s with
    | error e =>
      refine ⟨1, .error e, fun full frames' hle => ?_⟩
      obtain ⟨n, rfl⟩ : ∃ n, frames' = n + 1 := ⟨frames' - 1, by omega⟩
      rw [Walk.run]
      simp only [hvisit]
      rfl
    | ok place =>
      have hbelow : ∀ e ∈ place.2, ∀ own t, w.step s e = .ok (own, some t) → w.Settles t := fun e he own t hstep =>
        ih t ⟨place.1, place.2, e, own, hvisit, he, hstep⟩
      have hmono : ∀ n m t, (∃ r, ∀ full frames', n ≤ frames' → { w with full := full }.run frames' t = r) → n ≤ m →
          ∃ r, ∀ full frames', m ≤ frames' → { w with full := full }.run frames' t = r := by
        rintro n m t ⟨r, hr⟩ hle
        exact ⟨r, fun full frames' hle' => hr full frames' (Nat.le_trans hle hle')⟩
      obtain ⟨frames, hframes⟩ := exists_frames hmono hbelow
      refine ⟨frames + 1, w.run (frames + 1) s, fun full frames' hle => ?_⟩
      obtain ⟨n, rfl⟩ : ∃ n, frames' = n + 1 := ⟨frames' - 1, by omega⟩
      rw [Walk.run, Walk.run]
      simp only [hvisit]
      show ({ w with full := full }.entries _ s place.2 >>= _) = (w.entries _ s place.2 >>= _)
      rw [entries_congr full fun e he own t hstep => ?_]
      obtain ⟨r, hr⟩ := hframes e he own t hstep
      rw [hr full n (by omega), ← hr w.full frames (Nat.le_refl _)]

end Run

end walk
