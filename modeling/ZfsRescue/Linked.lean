import Mathlib.Data.List.Nodup
import Mathlib.Data.List.Perm.Subperm

namespace linked

variable {ι : Type}

/-- The cells of a linked list, from the one it starts at to the one that has no
    next. -/
inductive Path (next : ι → Option ι) : ι → List ι → Prop where
  | last {i : ι} : next i = none → Path next i [i]
  | link {i j : ι} {path : List ι} : next i = some j → Path next j path → Path next i (i :: path)

variable {next : ι → Option ι} {i : ι} {path : List ι}

theorem Path.head_mem (h : Path next i path) : i ∈ path := by
  cases h <;> simp

theorem Path.unique {other : List ι} (h : Path next i path) (h' : Path next i other) : path = other := by
  induction h generalizing other with
  | last hnext =>
    cases h' with
    | last _ => rfl
    | link hlink _ =>
      rw [hnext] at hlink
      cases hlink
  | link hlink _ ih =>
    cases h' with
    | last hnext =>
      rw [hnext] at hlink
      cases hlink
    | link hlink' hrest =>
      rw [hlink] at hlink'
      cases hlink'
      rw [ih hrest]

/-- From every cell of a list the rest of it goes on to the end. -/
theorem Path.suffix {j : ι} (h : Path next i path) (hj : j ∈ path) : ∃ rest, Path next j rest ∧ rest <:+ path := by
  induction h with
  | last hnext =>
    rw [List.mem_singleton] at hj
    subst hj
    exact ⟨_, .last hnext, List.suffix_rfl⟩
  | link hlink hrest ih =>
    rcases List.mem_cons.mp hj with rfl | hj
    · exact ⟨_, .link hlink hrest, List.suffix_rfl⟩
    · obtain ⟨rest, hpath, hsuffix⟩ := ih hj
      exact ⟨rest, hpath, hsuffix.trans (List.suffix_cons _ _)⟩

/-- A list that ends comes to no cell twice. -/
theorem Path.nodup (h : Path next i path) : path.Nodup := by
  induction h with
  | last _ => exact List.nodup_singleton _
  | @link i j path hlink hrest ih =>
    refine List.nodup_cons.mpr ⟨fun hmem => ?_, ih⟩
    obtain ⟨rest, hpath, hsuffix⟩ := hrest.suffix hmem
    have hsame := (Path.link hlink hrest).unique hpath
    have hlength := hsuffix.length_le
    rw [← hsame, List.length_cons] at hlength
    omega

/-- Distinct cells below a bound are no more than the bound. -/
theorem length_le_of_nodup {path : List Nat} {n : Nat} (hnodup : path.Nodup) (hlt : ∀ i ∈ path, i < n) : path.length ≤ n := by
  have hsub : path ⊆ List.range n := fun i hi => List.mem_range.mpr (hlt i hi)
  simpa using (hnodup.subperm hsub).length_le

end linked
