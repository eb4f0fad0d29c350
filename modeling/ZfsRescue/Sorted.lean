import Mathlib.Data.List.Sort

namespace sorted

variable {α : Type} {r : α → α → Prop} [DecidableRel r]

/-- Sorting keeps the order of what is left of a sorted list. -/
theorem filter_orderedInsert [IsTrans α r] (p : α → Bool) (a : α) {xs : List α} (h : xs.Pairwise r) :
    (xs.orderedInsert r a).filter p = if p a then (xs.filter p).orderedInsert r a else xs.filter p := by
  induction xs with
  | nil => by_cases hp : p a <;> simp [hp]
  | cons b xs ih =>
    rw [List.pairwise_cons] at h
    rw [List.orderedInsert_cons]
    by_cases hab : r a b
    · rw [if_pos hab]
      by_cases hp : p a
      · rw [List.filter_cons_of_pos hp, if_pos hp]
        have hfirst : ∀ c ∈ (b :: xs).filter p, r a c := by
          intro c hc
          rcases List.mem_cons.mp (List.mem_filter.mp hc).1 with rfl | hc
          · exact hab
          · exact IsTrans.trans _ _ _ hab (h.1 c hc)
        generalize (b :: xs).filter p = ys at hfirst
        cases ys with
        | nil => rfl
        | cons c ys => rw [List.orderedInsert_cons, if_pos (hfirst c (by simp))]
      · rw [List.filter_cons_of_neg hp, if_neg hp]
    · rw [if_neg hab]
      by_cases hb : p b
      · rw [List.filter_cons_of_pos hb, List.filter_cons_of_pos hb, ih h.2, List.orderedInsert_cons, if_neg hab]
        split <;> rfl
      · rw [List.filter_cons_of_neg hb, List.filter_cons_of_neg hb, ih h.2]

theorem filter_insertionSort [IsTrans α r] [Std.Total r] (p : α → Bool) (xs : List α) :
    (xs.insertionSort r).filter p = (xs.filter p).insertionSort r := by
  induction xs with
  | nil => rfl
  | cons a xs ih =>
    rw [List.insertionSort_cons, filter_orderedInsert p a (List.pairwise_insertionSort r xs), ih]
    by_cases hp : p a
    · rw [if_pos hp, List.filter_cons_of_pos hp, List.insertionSort_cons]
    · rw [if_neg hp, List.filter_cons_of_neg hp]

/-- The order of two sequences of numbers by the first place where they differ. -/
def lex_le : List Nat → List Nat → Bool
  | [], _ => true
  | _ :: _, [] => false
  | a :: as, b :: bs => if a = b then lex_le as bs else decide (a < b)

theorem lex_le_total (as bs : List Nat) : lex_le as bs = true ∨ lex_le bs as = true := by
  induction as generalizing bs with
  | nil => exact .inl rfl
  | cons a as ih =>
    cases bs with
    | nil => exact .inr rfl
    | cons b bs =>
      rw [lex_le, lex_le]
      by_cases hab : a = b
      · rw [if_pos hab, if_pos hab.symm]
        exact ih bs
      · rw [if_neg hab, if_neg (Ne.symm hab), decide_eq_true_eq, decide_eq_true_eq]
        omega

theorem lex_le_trans {as bs cs : List Nat} (h : lex_le as bs = true) (h' : lex_le bs cs = true) :
    lex_le as cs = true := by
  induction as generalizing bs cs with
  | nil => rfl
  | cons a as ih =>
    cases bs with
    | nil => cases h
    | cons b bs =>
      cases cs with
      | nil => cases h'
      | cons c cs =>
        rw [lex_le] at h h' ⊢
        by_cases hab : a = b
        · subst hab
          rw [if_pos rfl] at h
          by_cases hac : a = c
          · rw [if_pos hac] at h' ⊢
            exact ih h h'
          · rwa [if_neg hac] at h' ⊢
        · rw [if_neg hab, decide_eq_true_eq] at h
          by_cases hbc : b = c
          · rw [if_neg (by omega), decide_eq_true_eq]
            omega
          · rw [if_neg hbc, decide_eq_true_eq] at h'
            rw [if_neg (by omega), decide_eq_true_eq]
            omega

end sorted
