import Mathlib.Data.List.Induction
import Mathlib.Data.List.Nodup
import Mathlib.Order.Lattice

namespace cursor

variable {α κ : Type}

/-- The position after a page: the key of its last entry. -/
def next (key : α → κ) (off : κ) (page : List α) : κ := (page.getLast?.map key).getD off

theorem next_append_singleton {key : α → κ} {off : κ} (front : List α) (x : α) :
    next key off (front ++ [x]) = key x := by
  rw [next, List.getLast?_append, List.getLast?_singleton]
  rfl

variable [LinearOrder κ]

/-- What is still to come of a list behind a position. -/
def rest (key : α → κ) (xs : List α) (off : κ) : List α := xs.filter fun x => decide (off < key x)

/-- The pages in which a list is taken from a position on, each as much as is wanted
    of what is to come, until there is nothing more. -/
inductive Pages (key : α → κ) (xs : List α) : κ → List (List α) → Prop where
  | done {off : κ} : rest key xs off = [] → Pages key xs off []
  | page {off : κ} {page : List α} {pages : List (List α)} : page <+: rest key xs off →
      Pages key xs (next key off page) pages → Pages key xs off (page :: pages)

/-- No page ends before an entry that has the key of its last one. -/
def Uncut (key : α → κ) (xs : List α) : κ → List (List α) → Prop
  | _, [] => True
  | off, page :: pages =>
    (∀ x ∈ (rest key xs off).drop page.length, next key off page < key x) ∧ Uncut key xs (next key off page) pages

variable {key : α → κ} {xs page : List α} {pages : List (List α)} {off : κ}

theorem le_next (hpage : page <+: rest key xs off) : off ≤ next key off page := by
  induction page using List.reverseRecOn with
  | nil => exact le_refl off
  | append_singleton front x _ =>
    rw [next_append_singleton]
    have hmem : x ∈ rest key xs off := hpage.subset (by simp)
    exact le_of_lt (of_decide_eq_true (List.mem_filter.mp hmem).2)

theorem key_le_next (hsorted : xs.Pairwise fun a b => key a ≤ key b) (hpage : page <+: rest key xs off) {x : α}
    (hx : x ∈ page) : key x ≤ next key off page := by
  have hpairwise : page.Pairwise fun a b => key a ≤ key b := (hsorted.filter _).sublist hpage.sublist
  induction page using List.reverseRecOn with
  | nil => cases hx
  | append_singleton front y _ =>
    rw [next_append_singleton]
    rcases List.mem_append.mp hx with hx | hx
    · exact (List.pairwise_append.mp hpairwise).2.2 x hx y (by simp)
    · rw [List.mem_singleton.mp hx]

/-- What is to come after a page is what the page leaves of it, but for the entries
    with the key of its last one. -/
theorem rest_next (hsorted : xs.Pairwise fun a b => key a ≤ key b) (hpage : page <+: rest key xs off) :
    rest key xs (next key off page) =
      ((rest key xs off).drop page.length).filter fun x => decide (next key off page < key x) := by
  have hle := le_next hpage
  have hfilter : rest key xs (next key off page) =
      (rest key xs off).filter fun x => decide (next key off page < key x) := by
    rw [rest, rest, List.filter_filter]
    apply List.filter_congr
    intro x _
    have himp : next key off page < key x → off < key x := lt_of_le_of_lt hle
    simp only [← Bool.decide_and, decide_eq_decide]
    tauto
  obtain ⟨tail, htail⟩ := hpage
  have htaken : page.filter (fun x => decide (next key off page < key x)) = [] := by
    rw [List.filter_eq_nil_iff]
    intro x hx
    rw [decide_eq_true_eq, not_lt]
    exact key_le_next hsorted ⟨tail, htail⟩ hx
  rw [hfilter, ← htail, List.filter_append, htaken, List.nil_append, List.drop_left]

/-- The pages together hold entries that were to come, in their order. -/
theorem Pages.sublist (hsorted : xs.Pairwise fun a b => key a ≤ key b) (h : Pages key xs off pages) :
    List.Sublist pages.flatten (rest key xs off) := by
  induction h with
  | done hrest => rw [hrest, List.flatten_nil]
  | @page off page pages hpage _ ih =>
    obtain ⟨tail, htail⟩ := hpage
    rw [rest_next hsorted ⟨tail, htail⟩, ← htail, List.drop_left] at ih
    rw [List.flatten_cons, ← htail]
    exact (ih.trans List.filter_sublist).append_left page

/-- The pages together are all that was to come exactly when no page ends before
    an entry with the key of its last one. -/
theorem Pages.flatten_eq_iff (hsorted : xs.Pairwise fun a b => key a ≤ key b) (h : Pages key xs off pages) :
    pages.flatten = rest key xs off ↔ Uncut key xs off pages := by
  induction h with
  | done hrest => simp [Uncut, hrest]
  | @page off page pages hpage hpages ih =>
    have hnext := rest_next hsorted hpage
    obtain ⟨tail, htail⟩ := hpage
    have hsub := hpages.sublist hsorted
    rw [← htail, List.drop_left] at hnext
    rw [Uncut, ← ih, ← htail, List.drop_left, List.flatten_cons, List.append_cancel_left_eq]
    rw [hnext] at hsub ⊢
    constructor
    · intro heq
      have hall : tail.filter (fun x => decide (next key off page < key x)) = tail :=
        List.filter_sublist.antisymm (heq ▸ hsub)
      refine ⟨fun x hx => ?_, by rw [heq, hall]⟩
      exact of_decide_eq_true (List.filter_eq_self.mp hall x hx)
    · rintro ⟨hlt, heq⟩
      rw [heq, List.filter_eq_self]
      exact fun x hx => decide_eq_true (hlt x hx)

/-- Two neighbours in a sorted list have the same key, or all keys differ. -/
theorem exists_neighbours (hsorted : xs.Pairwise fun a b => key a ≤ key b) (hdup : ¬ (xs.map key).Nodup) :
    ∃ front x y back, xs = front ++ x :: y :: back ∧ key x = key y := by
  induction xs with
  | nil => exact absurd List.nodup_nil hdup
  | cons x xs ih =>
    rw [List.pairwise_cons] at hsorted
    by_cases hrest : (xs.map key).Nodup
    · have hmem : key x ∈ xs.map key := by
        by_contra hnot
        exact hdup (List.nodup_cons.mpr ⟨hnot, hrest⟩)
      obtain ⟨z, hz, hxz⟩ := List.mem_map.mp hmem
      cases xs with
      | nil => cases hz
      | cons y back =>
        refine ⟨[], x, y, back, rfl, le_antisymm (hsorted.1 y (by simp)) ?_⟩
        rcases List.mem_cons.mp hz with rfl | hz
        · exact hxz.le
        · rw [← hxz]
          exact (List.pairwise_cons.mp hsorted.2).1 z hz
    · obtain ⟨front, x', y, back, rfl, heq⟩ := ih hsorted.2 hrest
      exact ⟨x :: front, x', y, back, rfl, heq⟩

/-- What is to come behind the last of it is nothing. -/
theorem rest_next_self (hsorted : xs.Pairwise fun a b => key a ≤ key b) :
    rest key xs (next key off (rest key xs off)) = [] := by
  rw [rest_next hsorted (List.prefix_refl _), List.drop_length, List.filter_nil]

theorem Pages.uncut_of_nodup (hsorted : xs.Pairwise fun a b => key a ≤ key b) (h : Pages key xs off pages)
    (hnodup : ((rest key xs off).map key).Nodup) : Uncut key xs off pages := by
  induction h with
  | done _ => trivial
  | @page off page pages hpage _ ih =>
    have hnext := rest_next hsorted hpage
    have hpairwise : (rest key xs off).Pairwise fun a b => key a ≤ key b := hsorted.filter _
    have hsub : List.Sublist (rest key xs (next key off page)) (rest key xs off) := by
      rw [hnext]
      exact List.filter_sublist.trans (List.drop_sublist _ _)
    refine ⟨?_, ih (hnodup.sublist (hsub.map key))⟩
    obtain ⟨tail, htail⟩ := hpage
    intro x hx
    rw [← htail, List.drop_left] at hx
    rw [← htail] at hpairwise hnodup
    rcases List.eq_nil_or_concat page with rfl | ⟨front, y, rfl⟩
    · have hmem : x ∈ rest key xs off := htail ▸ hx
      exact of_decide_eq_true (List.mem_filter.mp hmem).2
    · rw [List.concat_eq_append] at hpairwise hnodup ⊢
      rw [next_append_singleton]
      rw [List.map_append, List.nodup_append] at hnodup
      refine lt_of_le_of_ne ((List.pairwise_append.mp hpairwise).2.2 y (by simp) x hx) ?_
      exact hnodup.2.2 _ (List.mem_map_of_mem (by simp)) _ (List.mem_map_of_mem hx)

/-- However a list is cut into pages they hold all of it, exactly when no key occurs
    twice. -/
theorem forall_flatten_eq_iff (hsorted : xs.Pairwise fun a b => key a ≤ key b) :
    (∀ pages, Pages key xs off pages → pages.flatten = rest key xs off) ↔ ((rest key xs off).map key).Nodup := by
  have hsorted' : (rest key xs off).Pairwise fun a b => key a ≤ key b := hsorted.filter _
  constructor
  · intro hall
    by_contra hdup
    obtain ⟨front, x, y, back, hsplit, hxy⟩ := exists_neighbours hsorted' hdup
    have hpage : front ++ [x] <+: rest key xs off := ⟨y :: back, by rw [hsplit]; simp⟩
    have hpages : Pages key xs off [front ++ [x], rest key xs (next key off (front ++ [x]))] :=
      .page hpage (.page (List.prefix_refl _) (.done (rest_next_self hsorted)))
    have huncut := ((hpages.flatten_eq_iff hsorted).mp (hall _ hpages)).1 y (by rw [hsplit]; simp)
    rw [next_append_singleton, hxy] at huncut
    exact lt_irrefl _ huncut
  · intro hnodup pages hpages
    exact (hpages.flatten_eq_iff hsorted).mpr (hpages.uncut_of_nodup hsorted hnodup)

end cursor
