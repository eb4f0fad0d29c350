import Mathlib.Data.Fintype.Card
import Mathlib.Data.Set.Finite.Basic
import ZfsRescue.Walk

namespace walk

variable {σ τ ε α E : Type}

/-- Nothing that `s` leads to leads back to itself. -/
def NoReturn (r : τ → τ → Prop) (s : τ) : Prop := ∀ t, Relation.ReflTransGen r s t → ¬ Relation.TransGen r t t

private theorem not_self_of_acc {r : τ → τ → Prop} {t : τ} (h : Acc r t) : ¬ r t t := by
  induction h with
  | intro t _ ih => exact fun hloop => ih t hloop hloop

/-- Going on for ever among finitely many places means coming back to one. -/
theorem acc_iff_noReturn {r : τ → τ → Prop} {s : τ} (hfinite : {t | Relation.ReflTransGen r s t}.Finite) :
    Acc (fun t s => r s t) s ↔ NoReturn r s := by
  constructor
  · intro hacc t hreach hloop
    have hacc' : Acc (fun t s => r s t) t := by
      rcases Relation.reflTransGen_iff_eq_or_transGen.mp hreach with rfl | htrans
      · exact hacc
      · exact hacc.inv_of_transGen (Relation.transGen_swap.mpr htrans)
    exact not_self_of_acc hacc'.transGen (Relation.transGen_swap.mpr hloop)
  · intro hreturn
    let q : {t // Relation.ReflTransGen r s t} → {t // Relation.ReflTransGen r s t} → Prop := fun a b => r b.1 a.1
    have : Finite {t // Relation.ReflTransGen r s t} := hfinite
    have : IsTrans _ (Relation.TransGen q) := ⟨fun _ _ _ => Relation.TransGen.trans⟩
    have : Std.Irrefl (Relation.TransGen q) := by
      refine ⟨fun a hloop => hreturn a.1 a.2 ?_⟩
      exact Relation.transGen_swap.mp (hloop.lift Subtype.val fun _ _ h => h)
    have hwf : WellFounded q :=
      Subrelation.wf (fun h => Relation.TransGen.single h) (Finite.wellFounded_of_trans_of_irrefl (Relation.TransGen q))
    have hall : ∀ a : {t // Relation.ReflTransGen r s t}, Acc (fun t s => r s t) a.1 := by
      intro a
      induction a using hwf.induction with
      | h a ih => exact Acc.intro _ fun t ht => ih ⟨t, a.2.tail ht⟩ ht
    exact hall ⟨s, .refl⟩

section Projection

/-- Where the entries of a place lead, and whether any of them raises, depends on
    a part of the place only. -/
structure Projects (w : Walk σ ε α E) (f : σ → τ) (r : τ → τ → Prop) (ok : τ → Prop) : Prop where
  clean : ∀ s, w.Clean s ↔ ok (f s)
  forth : ∀ s t, w.Goes s t → r (f s) (f t)
  back : ∀ s b, w.Clean s → r (f s) b → ∃ t, w.Goes s t ∧ f t = b

variable {w : Walk σ ε α E} {f : σ → τ} {r : τ → τ → Prop} {ok : τ → Prop}

theorem Projects.reach (h : Projects w f r ok) {s t : σ} (hreach : Relation.ReflTransGen w.Goes s t) :
    Relation.ReflTransGen r (f s) (f t) := hreach.lift f h.forth

theorem Projects.exists_reach (h : Projects w f r ok) {s : σ} {b : τ}
    (hclean : ∀ t, Relation.ReflTransGen w.Goes s t → w.Clean t) (hreach : Relation.ReflTransGen r (f s) b) :
    ∃ t, Relation.ReflTransGen w.Goes s t ∧ f t = b := by
  induction hreach with
  | refl => exact ⟨s, .refl, rfl⟩
  | tail _ hstep ih =>
    obtain ⟨t, ht, rfl⟩ := ih
    obtain ⟨u, hu, hfu⟩ := h.back t _ (hclean t ht) hstep
    exact ⟨u, ht.tail hu, hfu⟩

theorem Projects.acc_of_goes (h : Projects w f r ok) {s : σ} (hacc : Acc (fun t s => w.Goes s t) s)
    (hclean : ∀ t, Relation.ReflTransGen w.Goes s t → w.Clean t) : Acc (fun t s => r s t) (f s) := by
  induction hacc with
  | intro s _ ih =>
    refine Acc.intro _ fun b hb => ?_
    obtain ⟨t, ht, rfl⟩ := h.back s b (hclean s .refl) hb
    exact ih t ht fun u hu => hclean u (.head ht hu)

theorem Projects.acc_goes (h : Projects w f r ok) {s : σ} (hacc : Acc (fun t s => r s t) (f s)) :
    Acc (fun t s => w.Goes s t) s :=
  Subrelation.accessible (fun hgoes => h.forth _ _ hgoes) (InvImage.accessible f hacc)

/-- Among finitely many places, a walk ends exactly when it never comes back to
    where it was and nothing on its way raises. -/
theorem Projects.finishes_iff (h : Projects w f r ok) {s : σ} (hfinite : {b | Relation.ReflTransGen r (f s) b}.Finite) :
    w.Finishes s ↔ NoReturn r (f s) ∧ ∀ b, Relation.ReflTransGen r (f s) b → ok b := by
  rw [walk.finishes_iff, ← acc_iff_noReturn hfinite]
  constructor
  · rintro ⟨hacc, hclean⟩
    refine ⟨h.acc_of_goes hacc hclean, fun b hb => ?_⟩
    obtain ⟨t, ht, rfl⟩ := h.exists_reach hclean hb
    exact (h.clean t).mp (hclean t ht)
  · rintro ⟨hacc, hok⟩
    exact ⟨h.acc_goes hacc, fun t ht => (h.clean t).mpr (hok _ (h.reach ht))⟩

end Projection

end walk
