import ZfsRescue.Dataset.Directories

open bytes walk
open zfs_rescue.zap

namespace zfs_rescue.dataset

/-- From `id` the traversal comes to no directory that leads back to itself. -/
def Dataset.Acyclic (self : Dataset) (enters : Nat → Prop) (id : Nat) : Prop := NoReturn (self.Leads enters) id

/-- From `id` the traversal comes only to directories that can be listed and whose
    entries all pass. -/
def Dataset.Undisturbed (self : Dataset) (enters : Nat → Prop) (passes : DirEntry → Prop) (id : Nat) : Prop :=
  ∀ d, Relation.ReflTransGen (self.Leads enters) id d → self.Listable d ∧ ∀ e, self.Holds d e → passes e

/-- `_export_dir` comes to its end. -/
def Dataset.ExportEnds (self : Dataset) (id : Nat) (dir_name : String) : Prop :=
  ∃ frames rows, self.export_dir frames id dir_name = .ok rows

/-- `_archive` comes to its end. -/
def Dataset.ArchiveEnds (self : Dataset) (skip_objs : List Nat) (id : Nat) (dir_name : String) : Prop :=
  ∃ frames members, self.archive frames skip_objs id dir_name = .ok members

theorem exportEnds_iff {self : Dataset} {id : Nat} {dir_name : String} :
    self.ExportEnds id dir_name ↔
      self.Acyclic (fun _ => True) id ∧ self.Undisturbed (fun _ => True) self.Exportable id :=
  (export_traverses self).projects.finishes_iff (finite_reach self _ id)

theorem archiveEnds_iff {self : Dataset} {skip_objs : List Nat} {id : Nat} {dir_name : String} :
    self.ArchiveEnds skip_objs id dir_name ↔
      self.Acyclic (self.Archives skip_objs) id ∧
        self.Undisturbed (self.Archives skip_objs) (self.Archivable skip_objs) id :=
  (archive_traverses self skip_objs).projects.finishes_iff (finite_reach self _ id)

theorem Traverses.settles {α : Type} {self : Dataset} {w : Walk Place (String × ZapValue) α PyErr}
    {missing : Place → List α} {enters : Nat → Prop} {passes : DirEntry → Prop}
    (h : Traverses self w missing enters passes) {dir : Place} (hacyclic : self.Acyclic enters dir.1) :
    w.Settles dir :=
  settles_of_acc (h.projects.acc_goes ((acc_iff_noReturn (finite_reach self enters dir.1)).mpr hacyclic))

/-- Both traversals come to their end exactly when they come to no directory that
    leads back to itself and nothing that they come to raises. Without such a
    directory a traversal is over after finitely many, at its end or with what was
    raised. -/
theorem traversals_end_iff (self : Dataset) (skip_objs : List Nat) (id : Nat) (dir_name dir_name' : String) :
    (self.ExportEnds id dir_name ↔
      self.Acyclic (fun _ => True) id ∧ self.Undisturbed (fun _ => True) self.Exportable id) ∧
    (self.ArchiveEnds skip_objs id dir_name' ↔
      self.Acyclic (self.Archives skip_objs) id ∧
        self.Undisturbed (self.Archives skip_objs) (self.Archivable skip_objs) id) ∧
    (self.Acyclic (fun _ => True) id → (export_walk self).Settles (id, dir_name)) ∧
    (self.Acyclic (self.Archives skip_objs) id → (archive_walk self skip_objs).Settles (id, dir_name')) :=
  ⟨exportEnds_iff, archiveEnds_iff, fun h => (export_traverses self).settles h,
    fun h => (archive_traverses self skip_objs).settles h⟩

/-- A directory with one entry, of type directory, that refers to itself. -/
def self_referring : Dataset := directory_of [] [] [([100], 4 * 2 ^ 60 + 1)] []

private theorem self_referring_holds : self_referring.Holds 1 { name := "d", v := 1, k := 'd' } := by
  decide +kernel

theorem not_traversals_end_self_referring :
    ¬ self_referring.ExportEnds 1 "/" ∧ ¬ self_referring.ArchiveEnds [] 1 "" := by
  constructor
  · intro h
    have hleads : self_referring.Leads (fun _ => True) 1 1 := ⟨trivial, "d", self_referring_holds⟩
    exact (exportEnds_iff.mp h).1 1 .refl (.single hleads)
  · intro h
    have hleads : self_referring.Leads (self_referring.Archives []) 1 1 :=
      ⟨⟨List.not_mem_nil, getitem_of_holds self_referring_holds⟩, "d", self_referring_holds⟩
    exact (archiveEnds_iff.mp h).1 1 .refl (.single hleads)

end zfs_rescue.dataset
