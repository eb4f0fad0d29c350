import ZfsRescue.Dataset.Directories
import ZfsRescue.Walk.Without

open bytes walk
open zfs_rescue.blockptr zfs_rescue.zio zfs_rescue.dnode zfs_rescue.objectset zfs_rescue.zap zfs_rescue.fileobj

namespace zfs_rescue.dataset

/-- The object has no dnode. -/
def Dataset.unreachable (self : Dataset) (v : Nat) : Bool := decide (self.getitem v = .ok none)

/-- The dnode of the object was invalidated when it was parsed. -/
def Dataset.invalidated (self : Dataset) (v : Nat) : Bool :=
  match self.getitem v with
  | .ok (some dn) => dn.type.isNone && dn.bonus.isNone
  | _ => false

def Dataset.damaged (self : Dataset) (v : Nat) : Bool := self.unreachable v || self.invalidated v

def Dataset.damaged_entry (self : Dataset) (item : String × ZapValue) : Bool :=
  match dir_entry item with
  | .ok e => self.damaged e.v
  | .error _ => false

/-- The data set in which the damaged entries are absent. -/
def Dataset.without_damaged (self : Dataset) : Dataset where
  vdev := self.vdev
  getitem := self.getitem
  zap_factory dn := do
    let zap ← self.zap_factory dn
    .ok (zap.map fun entries => entries.filter fun item => !self.damaged_entry item)

theorem damaged_entry_eq {self : Dataset} {item : String × ZapValue} {e : DirEntry} (he : dir_entry item = .ok e) :
    self.damaged_entry item = self.damaged e.v := by
  rw [Dataset.damaged_entry, he]

theorem damaged_iff {self : Dataset} {v : Nat} :
    self.damaged v = true ↔
      self.getitem v = .ok none ∨ ∃ dn, self.getitem v = .ok (some dn) ∧ dn.type = none ∧ dn.bonus = none := by
  rw [Dataset.damaged, Bool.or_eq_true, Dataset.unreachable, decide_eq_true_eq, Dataset.invalidated]
  cases self.getitem v with
  | error e => simp
  | ok dn => cases dn <;> simp

theorem getitem_of_invalidated {self : Dataset} {v : Nat} (h : self.invalidated v = true) :
    ∃ dn, self.getitem v = .ok (some dn) := by
  rw [Dataset.invalidated] at h
  split at h
  · rename_i dn hdn
    exact ⟨dn, hdn⟩
  · cases h

@[simp] theorem getitem_without_damaged (self : Dataset) : self.without_damaged.getitem = self.getitem := rfl

theorem zap_factory_without_damaged {self : Dataset} {dn : DNode} :
    self.without_damaged.zap_factory dn =
      self.zap_factory dn >>= fun zap =>
        .ok (zap.map fun entries => entries.filter fun item => !self.damaged_entry item) := rfl

theorem listed_without_damaged (self : Dataset) (d : Nat) :
    self.without_damaged.listed d = (self.listed d).filter fun item => !self.damaged_entry item := by
  rw [Dataset.listed, Dataset.listed, getitem_without_damaged]
  cases self.getitem d with
  | error e => rfl
  | ok dn =>
    cases dn with
    | none => rfl
    | some dn =>
      simp only [zap_factory_without_damaged]
      cases self.zap_factory dn with
      | error e => rfl
      | ok zap => cases zap <;> rfl

theorem entries_without_damaged {α : Type} (self : Dataset) (missing : Place → List α) (dir : Place) :
    self.without_damaged.entries missing dir =
      self.entries missing dir >>= fun place =>
        .ok (place.1, place.2.filter fun item => !self.damaged_entry item) := by
  rw [Dataset.entries, Dataset.entries, getitem_without_damaged]
  cases self.getitem dir.1 with
  | error e => rfl
  | ok dn =>
    cases dn with
    | none => rfl
    | some dn =>
      show (self.without_damaged.zap_factory dn >>= _) = ((self.zap_factory dn >>= _) >>= _)
      rw [zap_factory_without_damaged]
      cases self.zap_factory dn with
      | error e => rfl
      | ok zap =>
        show Except.ok _ = Except.ok _
        rw [filter_sorted_entries]
        cases zap <;> rfl

theorem export_walk_without_damaged (self : Dataset) :
    export_walk self.without_damaged = (export_walk self).without self.damaged_entry := by
  rw [export_walk, Walk.without]
  congr 1
  funext dir
  exact entries_without_damaged self _ dir

theorem archive_walk_without_damaged (self : Dataset) (skip_objs : List Nat) :
    archive_walk self.without_damaged skip_objs = (archive_walk self skip_objs).without self.damaged_entry := by
  rw [archive_walk, Walk.without]
  congr 1
  funext dir
  exact entries_without_damaged self _ dir

/-- A damaged entry that `_export_dir` passes is unreachable. -/
theorem unreachable_of_exportable {self : Dataset} {e : DirEntry} (hpass : self.Exportable e)
    (hdamaged : self.damaged e.v = true) : self.getitem e.v = .ok none := by
  obtain hnone | ⟨dn, size, hdn, hsize⟩ := hpass
  · exact hnone
  · obtain hnone | ⟨dn', hdn', -, hbonus⟩ := damaged_iff.mp hdamaged
    · exact hnone
    · rw [hdn] at hdn'
      cases hdn'
      rw [zp_size, hbonus] at hsize
      cases hsize

/-- What `_archive` packs is not damaged. -/
theorem not_damaged_of_packable {self : Dataset} {v : Nat} {k : Char} {dn : DNode}
    (hdn : self.getitem v = .ok (some dn)) (hpack : self.Packable k dn) : self.damaged v = false := by
  rw [← Bool.not_eq_true]
  intro hdamaged
  obtain ⟨bonus, -, hbonus, -⟩ := hpack
  obtain hnone | ⟨dn', hdn', -, hbonus'⟩ := damaged_iff.mp hdamaged
  · rw [hdn] at hnone
    cases hnone
  · rw [hdn] at hdn'
    cases hdn'
    rw [hbonus] at hbonus'
    cases hbonus'

/-- A row of an object that is not damaged. -/
def Dataset.shows (self : Dataset) (row : Row) : Bool := !self.damaged row.v

theorem export_separates (self : Dataset) :
    Separates (export_walk self) self.damaged_entry (fun dir => ∃ dn, self.getitem dir.1 = .ok (some dn))
      self.shows where
  visit dir out es hgood hvisit := by
    obtain ⟨dn, hdn⟩ := hgood
    rw [(export_traverses self).visit] at hvisit
    obtain ⟨-, ⟨hnone, -⟩ | ⟨-, rfl⟩⟩ := entries_inv hvisit
    · rw [hdn] at hnone
      cases hnone
    · rfl
  kept dir item own next hdrop hstep := by
    obtain ⟨e, he, hpass, hrows, -, hnext⟩ := export_entry_inv hstep
    rw [damaged_entry_eq he] at hdrop
    constructor
    · rw [List.filter_eq_self]
      intro row hrow
      rw [Dataset.shows, hrows row hrow, hdrop]
      rfl
    · intro t ht
      rw [(hnext t ht).2]
      obtain hnone | ⟨dn, -, hdn, -⟩ := hpass
      · rw [damaged_iff.mpr (.inl hnone)] at hdrop
        cases hdrop
      · exact ⟨dn, hdn⟩
  dropped dir item own next hdrop hstep := by
    obtain ⟨e, he, hpass, hrows, -, hnext⟩ := export_entry_inv hstep
    rw [damaged_entry_eq he] at hdrop
    have hnone : self.getitem e.v = .ok none := unreachable_of_exportable hpass hdrop
    constructor
    · rw [List.filter_eq_nil_iff]
      intro row hrow
      rw [Dataset.shows, hrows row hrow, hdrop]
      decide
    · intro t ht
      have hv : t.1 = e.v := (hnext t ht).2
      have hvisit : (export_walk self).visit t = .ok ([{ v := t.1, size := none, full_name := t.2 }], []) := by
        rw [(export_traverses self).visit, entries_of_none (hv ▸ hnone)]
      refine ⟨_, hvisit, ?_⟩
      rw [List.filter_cons_of_neg (by simp [Dataset.shows, hv, hdrop]), List.filter_nil]

theorem archive_separates (self : Dataset) (skip_objs : List Nat) :
    Separates (archive_walk self skip_objs) self.damaged_entry (fun dir => ∃ dn, self.getitem dir.1 = .ok (some dn))
      fun _ => true where
  visit dir out es hgood hvisit := List.filter_true _
  kept dir item own next hdrop hstep := by
    refine ⟨List.filter_true _, fun t ht => ?_⟩
    obtain ⟨e, he, ⟨-, -, hnone⟩ | ⟨-, dn, hdn, -, -, hnext⟩⟩ := archive_entry_inv hstep
    · rw [hnone] at ht
      cases ht
    · rw [(hnext t ht).2]
      exact ⟨dn, hdn⟩
  dropped dir item own next hdrop hstep := by
    obtain ⟨e, he, ⟨-, rfl, rfl⟩ | ⟨-, dn, hdn, hpack, -⟩⟩ := archive_entry_inv hstep
    · simp
    · rw [damaged_entry_eq he, not_damaged_of_packable hdn hpack] at hdrop
      cases hdrop

section NoneRaises

variable {α : Type} {self : Dataset} {w : Walk Place (String × ZapValue) α PyErr} {missing : Place → List α}
  {enters : Nat → Prop} {passes passes' : DirEntry → Prop}

/-- That no damaged entry raises where the others lead is a matter of the objects. -/
theorem noneRaises_iff (h : Traverses self w missing enters passes)
    (h' : Traverses self.without_damaged (w.without self.damaged_entry) missing enters passes') {dir : Place}
    {frames : Nat} {out : List α} (hrun : (w.without self.damaged_entry).run frames dir = .ok out) :
    NoneRaises w self.damaged_entry dir ↔
      ∀ d, Relation.ReflTransGen (self.without_damaged.Leads enters) dir.1 d →
        ∀ e, self.Holds d e → self.damaged e.v = true → passes e := by
  have hclean : ∀ t, Relation.ReflTransGen (w.without self.damaged_entry).Goes dir t →
      (w.without self.damaged_entry).Clean t := fun t ht => clean_of_reachable hrun ht
  constructor
  · rintro hraise d hd e ⟨item, hitem, he⟩ hdamaged
    obtain ⟨t, ht, rfl⟩ := h'.projects.exists_reach hclean hd
    obtain ⟨own, es, hvisit, -⟩ := hclean t ht
    obtain ⟨all, hall, -⟩ := visit_without_eq_ok_iff.mp hvisit
    have hmem : item ∈ all := (mem_entries (h.visit ▸ hall) item).mpr hitem
    have hdrop : self.damaged_entry item = true := (damaged_entry_eq he).trans hdamaged
    obtain ⟨e', he', hpass⟩ := (h.clean t item).mp (hraise t ht own all hall item hmem hdrop)
    rw [he] at he'
    cases he'
    exact hpass
  · intro hpass t ht own es hvisit item hitem hdrop
    have hmem : item ∈ self.listed t.1 := (mem_entries (h.visit ▸ hvisit) item).mp hitem
    cases he : dir_entry item with
    | error _ =>
      rw [Dataset.damaged_entry, he] at hdrop
      cases hdrop
    | ok e =>
      rw [damaged_entry_eq he] at hdrop
      exact (h.clean t item).mpr ⟨e, he, hpass t.1 (h'.projects.reach ht) e ⟨item, hmem, he⟩ hdrop⟩

theorem invalidated_of_damaged {v : Nat} (h : self.damaged v = true) (hsome : self.getitem v ≠ .ok none) :
    self.invalidated v = true := by
  rw [Dataset.damaged, Dataset.unreachable, decide_eq_false hsome, Bool.false_or] at h
  exact h

theorem damaged_of_invalidated {v : Nat} (h : self.invalidated v = true) : self.damaged v = true := by
  rw [Dataset.damaged, h, Bool.or_true]

theorem exportable_of_damaged {e : DirEntry} :
    (self.damaged e.v = true → self.Exportable e) ↔ self.invalidated e.v = false := by
  constructor
  · intro h
    rw [← Bool.not_eq_true]
    intro hinvalid
    have hdamaged := damaged_of_invalidated hinvalid
    obtain ⟨dn, hdn⟩ := getitem_of_invalidated hinvalid
    have hnone := unreachable_of_exportable (h hdamaged) hdamaged
    rw [hdn] at hnone
    cases hnone
  · intro hvalid hdamaged
    by_cases hnone : self.getitem e.v = .ok none
    · exact .inl hnone
    · rw [invalidated_of_damaged hdamaged hnone] at hvalid
      cases hvalid

theorem archivable_of_damaged {skip_objs : List Nat} {e : DirEntry} :
    (self.damaged e.v = true → self.Archivable skip_objs e) ↔
      (e.v ∉ skip_objs → e.k ∈ ['d', 'f', 'l'] → self.invalidated e.v = false) := by
  constructor
  · intro h hskip hk
    rw [← Bool.not_eq_true]
    intro hinvalid
    have hdamaged := damaged_of_invalidated hinvalid
    obtain ⟨dn, hdn⟩ := getitem_of_invalidated hinvalid
    obtain (hskip' | hk' | hnone) | ⟨dn', hdn', hpack⟩ := h hdamaged
    · exact hskip hskip'
    · exact hk' hk
    · rw [hdn] at hnone
      cases hnone
    · rw [not_damaged_of_packable hdn' hpack] at hdamaged
      cases hdamaged
  · intro hvalid hdamaged
    by_cases hskip : e.v ∈ skip_objs
    · exact .inl (.inl hskip)
    · by_cases hk : e.k ∈ ['d', 'f', 'l']
      · by_cases hnone : self.getitem e.v = .ok none
        · exact .inl (.inr (.inr hnone))
        · have hinvalid := invalidated_of_damaged hdamaged hnone
          rw [hvalid hskip hk] at hinvalid
          cases hinvalid
      · exact .inl (.inr (.inl hk))

end NoneRaises

/-- `_export_dir` gives the rows that it gives without the damaged entries, but for
    those of damaged objects. -/
def Dataset.ExportsBeside (self : Dataset) (id : Nat) (dir_name : String) (rows : List Row) : Prop :=
  ∃ frames rows', self.export_dir frames id dir_name = .ok rows' ∧ rows'.filter self.shows = rows

/-- `_archive` adds the members that it adds without the damaged entries. -/
def Dataset.ArchivesBeside (self : Dataset) (skip_objs : List Nat) (id : Nat) (dir_name : String)
    (members : List Member) : Prop :=
  ∃ frames, self.archive frames skip_objs id dir_name = .ok members

/-- `readdir` gives the nodes that it gives without the damaged entries, but for
    those of damaged objects. -/
def Dataset.ListsBeside (self : Dataset) (id inoderoot : Nat) (relpath : String) (nodes : List zfsnode) : Prop :=
  ∃ nodes', self.readdir id inoderoot relpath = .ok (some nodes') ∧
    nodes'.filter (fun node => !self.damaged node.datasetid) = nodes

theorem exportsBeside_iff {self : Dataset} {id : Nat} {dir_name : String} {frames : Nat} {rows : List Row}
    (hdir : ∃ dn, self.getitem id = .ok (some dn))
    (h : self.without_damaged.export_dir frames id dir_name = .ok rows) :
    self.ExportsBeside id dir_name rows ↔
      ∀ d, Relation.ReflTransGen (self.without_damaged.Leads fun _ => True) id d →
        ∀ e, self.Holds d e → self.invalidated e.v = false := by
  have htraverses := export_traverses self.without_damaged
  rw [Dataset.export_dir, export_walk_without_damaged] at h
  rw [export_walk_without_damaged] at htraverses
  have hcontains := contains_iff (export_separates self) h hdir
  rw [noneRaises_iff (export_traverses self) htraverses h] at hcontains
  simp only [exportable_of_damaged] at hcontains
  exact hcontains

theorem archivesBeside_iff {self : Dataset} {skip_objs : List Nat} {id : Nat} {dir_name : String} {frames : Nat}
    {members : List Member} (hdir : ∃ dn, self.getitem id = .ok (some dn))
    (h : self.without_damaged.archive frames skip_objs id dir_name = .ok members) :
    self.ArchivesBeside skip_objs id dir_name members ↔
      ∀ d, Relation.ReflTransGen (self.without_damaged.Leads (self.Archives skip_objs)) id d →
        ∀ e, self.Holds d e → e.v ∉ skip_objs → e.k ∈ ['d', 'f', 'l'] → self.invalidated e.v = false := by
  have htraverses := archive_traverses self.without_damaged skip_objs
  rw [Dataset.archive, archive_walk_without_damaged] at h
  rw [archive_walk_without_damaged] at htraverses
  have hcontains := contains_iff (archive_separates self skip_objs) h hdir
  rw [noneRaises_iff (archive_traverses self skip_objs) htraverses h] at hcontains
  simp only [archivable_of_damaged] at hcontains
  rw [← hcontains]
  constructor
  · rintro ⟨frames', hrun⟩
    exact ⟨frames', members, hrun, List.filter_true _⟩
  · rintro ⟨frames', members', hrun, hsame⟩
    rw [List.filter_true] at hsame
    exact ⟨frames', hsame ▸ hrun⟩

/-- Calls for all of a list give what they give for a part of it, among what they
    give for the rest. -/
theorem mapM_filter {α β : Type} {f : α → Py β} {keep : α → Bool} {shown : β → Bool}
    (hshown : ∀ a b, f a = .ok b → shown b = keep a) {xs : List α} {ys : List β}
    (h : (xs.filter keep).mapM f = .ok ys) (hrest : ∀ a ∈ xs, keep a = false → ∃ b, f a = .ok b) :
    ∃ zs, xs.mapM f = .ok zs ∧ zs.filter shown = ys := by
  simp only [mapM_eq_ok_iff] at h ⊢
  induction xs generalizing ys with
  | nil =>
    cases h
    exact ⟨[], .nil, rfl⟩
  | cons a xs ih =>
    have hrest' : ∀ a' ∈ xs, keep a' = false → ∃ b, f a' = .ok b := fun a' ha' => hrest a' (by simp [ha'])
    cases hkeep : keep a with
    | true =>
      rw [List.filter_cons_of_pos hkeep] at h
      cases h with
      | cons hfirst h =>
        obtain ⟨zs, hzs, rfl⟩ := ih hrest' h
        exact ⟨_, .cons hfirst hzs, List.filter_cons_of_pos ((hshown a _ hfirst).trans hkeep)⟩
    | false =>
      rw [List.filter_cons_of_neg (by simp [hkeep])] at h
      obtain ⟨b, hb⟩ := hrest a (by simp) hkeep
      obtain ⟨zs, hzs, rfl⟩ := ih hrest' h
      exact ⟨b :: zs, .cons hb hzs, List.filter_cons_of_neg (by simp [hshown a b hb, hkeep])⟩

theorem listsBeside_iff {self : Dataset} {id inoderoot : Nat} {relpath : String} {nodes : List zfsnode}
    (h : self.without_damaged.readdir id inoderoot relpath = .ok (some nodes)) :
    self.ListsBeside id inoderoot relpath nodes ↔ ∀ e, self.Holds id e → self.unreachable e.v = false := by
  obtain ⟨⟨dn, hdn⟩, hnodes⟩ := readdir_inv h
  rw [listed_without_damaged, ← filter_sorted_entries] at hnodes
  constructor
  · rintro ⟨nodes', hnodes', -⟩ e ⟨item, hitem, he⟩
    obtain ⟨-, hall⟩ := readdir_inv hnodes'
    obtain ⟨node, -, hnode⟩ := exists_mem_of_forall₂ (mapM_eq_ok_iff.mp hall) (mem_sorted_entries.mpr hitem)
    obtain ⟨e', dn', he', hdn', -⟩ := readdir_entry_inv hnode
    rw [he] at he'
    cases he'
    rw [Dataset.unreachable, hdn']
    rfl
  · intro hreachable
    have hshown : ∀ item node, readdir_entry self inoderoot relpath item = .ok node →
        (!self.damaged node.datasetid) = !self.damaged_entry item := by
      intro item node hnode
      obtain ⟨e, dn, he, -, rfl⟩ := readdir_entry_inv hnode
      rw [damaged_entry_eq he]
    have hrest : ∀ item ∈ sorted_entries (self.listed id), (!self.damaged_entry item) = false →
        ∃ node, readdir_entry self inoderoot relpath item = .ok node := by
      intro item hitem hdrop
      rw [mem_sorted_entries] at hitem
      cases he : dir_entry item with
      | error _ => simp [Dataset.damaged_entry, he] at hdrop
      | ok e =>
        rw [damaged_entry_eq he, Bool.not_eq_false'] at hdrop
        obtain hnone | ⟨dn', hdn', -⟩ := damaged_iff.mp hdrop
        · have hreach := hreachable e ⟨item, hitem, he⟩
          rw [Dataset.unreachable, decide_eq_true hnone] at hreach
          cases hreach
        · exact readdir_entry_of he hdn' inoderoot relpath
    obtain ⟨nodes', hall, hsame⟩ := mapM_filter hshown hnodes hrest
    refine ⟨nodes', ?_, hsame⟩
    rw [@readdir_eq self _ _ _ _ hdn, hall]
    rfl

/-- Compared with the traversals without the damaged entries: `readdir` keeps the
    other nodes exactly when no entry is unreachable, `_export_dir` keeps the other
    rows and `_archive` the members exactly when they come to no invalidated
    entry. -/
theorem damage_contained_iff (self : Dataset) (id inoderoot : Nat) (relpath dir_name dir_name' : String)
    (skip_objs : List Nat) (hdir : ∃ dn, self.getitem id = .ok (some dn)) :
    (∀ nodes, self.without_damaged.readdir id inoderoot relpath = .ok (some nodes) →
      (self.ListsBeside id inoderoot relpath nodes ↔ ∀ e, self.Holds id e → self.unreachable e.v = false)) ∧
    (∀ frames rows, self.without_damaged.export_dir frames id dir_name = .ok rows →
      (self.ExportsBeside id dir_name rows ↔
        ∀ d, Relation.ReflTransGen (self.without_damaged.Leads fun _ => True) id d →
          ∀ e, self.Holds d e → self.invalidated e.v = false)) ∧
    (∀ frames members, self.without_damaged.archive frames skip_objs id dir_name' = .ok members →
      (self.ArchivesBeside skip_objs id dir_name' members ↔
        ∀ d, Relation.ReflTransGen (self.without_damaged.Leads (self.Archives skip_objs)) id d →
          ∀ e, self.Holds d e → e.v ∉ skip_objs → e.k ∈ ['d', 'f', 'l'] → self.invalidated e.v = false)) :=
  ⟨fun _ h => listsBeside_iff h, fun _ _ h => exportsBeside_iff hdir h, fun _ _ h => archivesBeside_iff hdir h⟩

/-- A directory with a file `a`, and an entry `b` for the object `v`: the third one,
    whose dnode does not look like one, or one that is not there. -/
def file_and (v : Nat) : Dataset :=
  directory_of (dnode_slot 19 (plain_pointer 5 1) 5 []) (dnode_slot 200 (plain_pointer 5 1) 5 [])
    [([97], 8 * 2 ^ 60 + 2), ([98], 8 * 2 ^ 60 + v)] [104, 101, 108, 108, 111]

def row_a : Row := { v := 2, size := some (.int 5), full_name := "/a" }

def member_a : Member := { name := "a", type := .file [104, 101, 108, 108, 111] }

private theorem file_and_nine :
    (file_and 9).Holds 1 { name := "b", v := 9, k := 'f' } ∧
    (file_and 9).listed 1 = [("a", .int (8 * 2 ^ 60 + 2)), ("b", .int (8 * 2 ^ 60 + 9))] ∧
    (file_and 9).unreachable 9 = true ∧ (file_and 9).invalidated 2 = false ∧ (file_and 9).invalidated 9 = false ∧
    (file_and 9).without_damaged.export_dir 1 1 "/" = .ok [row_a] ∧
    (((file_and 9).without_damaged.readdir 1 1 "").toOption.bind id).isSome = true := by
  decide +kernel

private theorem file_and_three :
    (file_and 3).Holds 1 { name := "b", v := 3, k := 'f' } ∧ (file_and 3).invalidated 3 = true ∧
    (file_and 3).without_damaged.export_dir 1 1 "/" = .ok [row_a] ∧
    (file_and 3).without_damaged.archive 1 [] 1 "" = .ok [member_a] := by
  decide +kernel

/-- The row of an object that is not there is one more, and that is all. -/
theorem damage_contained_unreachable : (file_and 9).ExportsBeside 1 "/" [row_a] := by
  obtain ⟨hb, hlisted, -, htwo, hnine, hbase, -⟩ := file_and_nine
  have hholds : ∀ e, (file_and 9).Holds 1 e → e.k = 'f' ∧ (e.v = 2 ∨ e.v = 9) := by
    rintro e ⟨item, hitem, he⟩
    rw [hlisted, List.mem_cons, List.mem_singleton] at hitem
    rcases hitem with rfl | rfl
    · cases he
      decide
    · cases he
      decide
  have hdir : ∃ dn, (file_and 9).getitem 1 = .ok (some dn) := getitem_of_holds hb
  refine ((damage_contained_iff (file_and 9) 1 1 "" "/" "" [] hdir).2.1 1 [row_a] hbase).mpr fun d hreach e he => ?_
  rcases hreach.cases_head with rfl | ⟨d', ⟨-, name, item, hitem, hentry⟩, -⟩
  · obtain ⟨-, hv | hv⟩ := hholds e he
    · rw [hv, htwo]
    · rw [hv, hnine]
  · rw [listed_without_damaged] at hitem
    have hk := (hholds _ ⟨item, (List.mem_filter.mp hitem).1, hentry⟩).1
    simp at hk

theorem not_damage_contained :
    (∃ nodes, (file_and 9).without_damaged.readdir 1 1 "" = .ok (some nodes) ∧
      ¬ (file_and 9).ListsBeside 1 1 "" nodes) ∧
    ((file_and 3).without_damaged.export_dir 1 1 "/" = .ok [row_a] ∧ ¬ (file_and 3).ExportsBeside 1 "/" [row_a]) ∧
    ((file_and 3).without_damaged.archive 1 [] 1 "" = .ok [member_a] ∧
      ¬ (file_and 3).ArchivesBeside [] 1 "" [member_a]) := by
  obtain ⟨hb, hinvalid, hexport, harchive⟩ := file_and_three
  refine ⟨?_, ⟨hexport, fun h => ?_⟩, ⟨harchive, fun h => ?_⟩⟩
  · obtain ⟨hnine, -, hunreach, -, -, -, hsome⟩ := file_and_nine
    obtain ⟨nodes, hbase⟩ : ∃ nodes, (file_and 9).without_damaged.readdir 1 1 "" = .ok (some nodes) := by
      cases hread : (file_and 9).without_damaged.readdir 1 1 "" with
      | error _ =>
        rw [hread] at hsome
        cases hsome
      | ok nodes =>
        rw [hread] at hsome
        obtain ⟨nodes, rfl⟩ := Option.isSome_iff_exists.mp hsome
        exact ⟨nodes, rfl⟩
    refine ⟨nodes, hbase, fun h => ?_⟩
    have hreach := (listsBeside_iff hbase).mp h _ hnine
    rw [hunreach] at hreach
    cases hreach
  · have hvalid := (exportsBeside_iff (getitem_of_holds hb) hexport).mp h 1 .refl _ hb
    rw [hinvalid] at hvalid
    cases hvalid
  · have hvalid := (archivesBeside_iff (getitem_of_holds hb) harchive).mp h 1 .refl _ hb (by decide) (by decide)
    rw [hinvalid] at hvalid
    cases hvalid

end zfs_rescue.dataset
