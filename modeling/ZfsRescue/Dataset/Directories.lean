import ZfsRescue.Dataset.Traversal
import ZfsRescue.Walk.Acyclic

open bytes sorted walk
open zfs_rescue.blockptr zfs_rescue.zio zfs_rescue.dnode zfs_rescue.objectset zfs_rescue.zap zfs_rescue.fileobj

namespace zfs_rescue.dataset

/-- The names and values in the ZAP of a directory, if it has one. -/
def Dataset.listed (self : Dataset) (d : Nat) : Entries :=
  match self.getitem d with
  | .ok (some dn) =>
    match self.zap_factory dn with
    | .ok (some entries) => entries
    | _ => []
  | _ => []

/-- `e` is an entry of the directory `d`. -/
def Dataset.Holds (self : Dataset) (d : Nat) (e : DirEntry) : Prop :=
  ∃ item ∈ self.listed d, dir_entry item = .ok e

instance (self : Dataset) (d : Nat) (e : DirEntry) : Decidable (self.Holds d e) :=
  inferInstanceAs (Decidable (∃ item ∈ self.listed d, dir_entry item = .ok e))

/-- The directory `d` has an entry for the directory `d'`, which is one that is
    entered. -/
def Dataset.Leads (self : Dataset) (enters : Nat → Prop) (d d' : Nat) : Prop :=
  enters d' ∧ ∃ name, self.Holds d { name := name, v := d', k := 'd' }

/-- The directory is unreachable, or it has a ZAP whose values are numbers with a
    type. -/
def Dataset.Listable (self : Dataset) (d : Nat) : Prop :=
  self.getitem d = .ok none ∨
    (∃ dn zap, self.getitem d = .ok (some dn) ∧ self.zap_factory dn = .ok zap) ∧
      ∀ item ∈ self.listed d, ∃ e, dir_entry item = .ok e

theorem listed_of_none {self : Dataset} {d : Nat} (h : self.getitem d = .ok none) : self.listed d = [] := by
  rw [Dataset.listed, h]

theorem listed_of_some {self : Dataset} {d : Nat} {dn : DNode} {zap : Option Entries}
    (h : self.getitem d = .ok (some dn)) (hzap : self.zap_factory dn = .ok zap) : self.listed d = zap.getD [] := by
  rw [Dataset.listed, h]
  simp only [hzap]
  cases zap with
  | none => rfl
  | some entries => rfl

theorem dir_entry_lt {item : String × ZapValue} {e : DirEntry} (h : dir_entry item = .ok e) : e.v < 2 ^ 60 := by
  rw [dir_entry] at h
  split at h
  · cases h
  · obtain ⟨k, -, hk⟩ := bind_eq_ok_iff.mp h
    cases hk
    exact Nat.mod_lt _ (by decide)

theorem str_le_total (a b : String) : str_le a b = true ∨ str_le b a = true := lex_le_total _ _

theorem str_le_trans {a b c : String} (h : str_le a b = true) (h' : str_le b c = true) : str_le a c = true :=
  lex_le_trans h h'

theorem filter_sorted_entries (p : String × ZapValue → Bool) (entries : Entries) :
    (sorted_entries entries).filter p = sorted_entries (entries.filter p) := by
  have : IsTrans (String × ZapValue) fun a b => str_le a.1 b.1 = true := ⟨fun _ _ _ => str_le_trans⟩
  have : Std.Total fun (a b : String × ZapValue) => str_le a.1 b.1 = true := ⟨fun _ _ => str_le_total _ _⟩
  exact filter_insertionSort p entries

@[simp] theorem mem_sorted_entries {entries : Entries} {item : String × ZapValue} :
    item ∈ sorted_entries entries ↔ item ∈ entries := List.mem_insertionSort _

section Entries

variable {α : Type} {self : Dataset} {missing : Place → List α}

theorem entries_of_none {dir : Place} (h : self.getitem dir.1 = .ok none) :
    self.entries missing dir = .ok (missing dir, []) := by
  rw [Dataset.entries, h]
  rfl

theorem entries_of_some {dir : Place} {dn : DNode} {zap : Option Entries} (h : self.getitem dir.1 = .ok (some dn))
    (hzap : self.zap_factory dn = .ok zap) :
    self.entries missing dir = .ok ([], sorted_entries (self.listed dir.1)) := by
  rw [Dataset.entries, h, listed_of_some h hzap]
  show (self.zap_factory dn >>= _) = _
  rw [hzap]
  rfl

/-- The entries that are gone through are those of the ZAP. -/
theorem entries_inv {dir : Place} {out : List α} {es : Entries} (h : self.entries missing dir = .ok (out, es)) :
    es = sorted_entries (self.listed dir.1) ∧
      (self.getitem dir.1 = .ok none ∧ out = missing dir ∨
        (∃ dn zap, self.getitem dir.1 = .ok (some dn) ∧ self.zap_factory dn = .ok zap) ∧ out = []) := by
  obtain ⟨dn, hdn, hrest⟩ := bind_eq_ok_iff.mp h
  cases dn with
  | none =>
    cases hrest
    rw [listed_of_none hdn]
    exact ⟨rfl, .inl ⟨hdn, rfl⟩⟩
  | some dn =>
    obtain ⟨zap, hzap, hzap'⟩ := bind_eq_ok_iff.mp hrest
    cases hzap'
    rw [listed_of_some hdn hzap]
    exact ⟨rfl, .inr ⟨⟨dn, zap, hdn, hzap⟩, rfl⟩⟩

theorem mem_entries {dir : Place} {out : List α} {es : Entries} (h : self.entries missing dir = .ok (out, es))
    (item : String × ZapValue) : item ∈ es ↔ item ∈ self.listed dir.1 := by
  rw [(entries_inv h).1, mem_sorted_entries]

end Entries

section Traverses

/-- A traversal of the directories: whether it raises at an entry and goes on from
    there depends on the object of the entry. -/
structure Traverses {α : Type} (os : Dataset) (w : Walk Place (String × ZapValue) α PyErr)
    (missing : Place → List α) (enters : Nat → Prop) (passes : DirEntry → Prop) : Prop where
  visit : w.visit = os.entries missing
  clean : ∀ dir item, (∃ r, w.step dir item = .ok r) ↔ ∃ e, dir_entry item = .ok e ∧ passes e
  forth : ∀ dir item e own t, dir_entry item = .ok e → w.step dir item = .ok (own, some t) →
    e.k = 'd' ∧ t.1 = e.v ∧ enters e.v
  back : ∀ dir item e own next, dir_entry item = .ok e → w.step dir item = .ok (own, next) → e.k = 'd' →
    enters e.v → ∃ t, next = some t

variable {α : Type} {self : Dataset} {w : Walk Place (String × ZapValue) α PyErr} {missing : Place → List α}
  {enters : Nat → Prop} {passes : DirEntry → Prop}

/-- Where a traversal goes and what it raises is a matter of the objects. -/
theorem Traverses.projects (h : Traverses self w missing enters passes) :
    Projects w Prod.fst (self.Leads enters) fun d => self.Listable d ∧ ∀ e, self.Holds d e → passes e where
  clean dir := by
    constructor
    · rintro ⟨out, es, hvisit, hsteps⟩
      rw [h.visit] at hvisit
      have hstep : ∀ item ∈ self.listed dir.1, ∃ e, dir_entry item = .ok e ∧ passes e := fun item hitem =>
        (h.clean dir item).mp (hsteps item ((mem_entries hvisit item).mpr hitem))
      constructor
      · obtain ⟨-, ⟨hnone, -⟩ | ⟨hsome, -⟩⟩ := entries_inv hvisit
        · exact .inl hnone
        · exact .inr ⟨hsome, fun item hitem => (hstep item hitem).imp fun _ he => he.1⟩
      · rintro e ⟨item, hitem, he⟩
        obtain ⟨e', he', hpass⟩ := hstep item hitem
        rw [he] at he'
        cases he'
        exact hpass
    · rintro ⟨hlist, hpass⟩
      obtain hnone | ⟨⟨dn, zap, hdn, hzap⟩, hentry⟩ := hlist
      · refine ⟨missing dir, [], ?_, by simp⟩
        rw [h.visit, entries_of_none hnone]
      · refine ⟨[], sorted_entries (self.listed dir.1), ?_, fun item hitem => ?_⟩
        · rw [h.visit, entries_of_some hdn hzap]
        · rw [mem_sorted_entries] at hitem
          obtain ⟨e, he⟩ := hentry item hitem
          exact (h.clean dir item).mpr ⟨e, he, hpass e ⟨item, hitem, he⟩⟩
  forth := by
    rintro dir t ⟨out, es, item, own, hvisit, hitem, hstep⟩
    rw [h.visit] at hvisit
    obtain ⟨e, he, -⟩ := (h.clean dir item).mp ⟨_, hstep⟩
    obtain ⟨hk, hv, henters⟩ := h.forth dir item e own t he hstep
    obtain ⟨name, v, k⟩ := e
    subst hk
    rw [hv]
    exact ⟨henters, name, item, (mem_entries hvisit item).mp hitem, he⟩
  back := by
    rintro dir b ⟨out, es, hvisit, hsteps⟩ ⟨henters, name, item, hitem, he⟩
    have hitem' : item ∈ es := (mem_entries (h.visit ▸ hvisit) item).mpr hitem
    obtain ⟨⟨own, next⟩, hstep⟩ := hsteps item hitem'
    obtain ⟨t, rfl⟩ := h.back dir item _ own next he hstep rfl henters
    obtain ⟨-, hv, -⟩ := h.forth dir item _ own t he hstep
    exact ⟨t, ⟨out, es, item, own, hvisit, hitem', hstep⟩, hv⟩

end Traverses

theorem holds_lt {self : Dataset} {d : Nat} {e : DirEntry} (h : self.Holds d e) : e.v < 2 ^ 60 := by
  obtain ⟨item, -, he⟩ := h
  exact dir_entry_lt he

theorem getitem_of_holds {self : Dataset} {d : Nat} {e : DirEntry} (h : self.Holds d e) :
    ∃ dn, self.getitem d = .ok (some dn) := by
  obtain ⟨item, hitem, -⟩ := h
  rw [Dataset.listed] at hitem
  split at hitem
  · exact ⟨_, ‹_›⟩
  · cases hitem

/-- An object set has finitely many directories. -/
theorem finite_reach (self : Dataset) (enters : Nat → Prop) (d : Nat) :
    {b | Relation.ReflTransGen (self.Leads enters) d b}.Finite := by
  refine Set.Finite.subset ((Set.finite_lt_nat (2 ^ 60)).insert d) ?_
  intro b hreach
  rcases Relation.ReflTransGen.cases_tail hreach with rfl | ⟨c, -, -, name, hholds⟩
  · exact Set.mem_insert _ _
  · exact Set.mem_insert_of_mem _ (holds_lt hholds)

/-- The entry has a size, or no dnode. -/
def Dataset.Exportable (self : Dataset) (e : DirEntry) : Prop :=
  self.getitem e.v = .ok none ∨ ∃ dn size, self.getitem e.v = .ok (some dn) ∧ zp_size dn = .ok size

/-- The object can be archived under the type it has in its entry. -/
def Dataset.Packable (self : Dataset) (k : Char) (dn : DNode) : Prop :=
  ∃ bonus size, dn.bonus = some bonus ∧ bonus.size_value = .ok size ∧
    (k = 'f' → ∃ extracted, extract_file self.vdev (some dn) = .ok extracted) ∧
    (k = 'l' → ∃ target, link_target self.vdev dn bonus = .ok target)

/-- The archive leaves the entry out. -/
def Dataset.LeavesOut (self : Dataset) (skip_objs : List Nat) (e : DirEntry) : Prop :=
  e.v ∈ skip_objs ∨ e.k ∉ ['d', 'f', 'l'] ∨ self.getitem e.v = .ok none

def Dataset.Archivable (self : Dataset) (skip_objs : List Nat) (e : DirEntry) : Prop :=
  self.LeavesOut skip_objs e ∨ ∃ dn, self.getitem e.v = .ok (some dn) ∧ self.Packable e.k dn

/-- The archive goes into directories that are not skipped and have a dnode. -/
def Dataset.Archives (self : Dataset) (skip_objs : List Nat) (v : Nat) : Prop :=
  v ∉ skip_objs ∧ ∃ dn, self.getitem v = .ok (some dn)

theorem exportable_iff {self : Dataset} {e : DirEntry} :
    self.Exportable e ↔ ∃ dn size, self.getitem e.v = .ok dn ∧ entry_size dn = .ok size := by
  constructor
  · rintro (hnone | ⟨dn, size, hdn, hsize⟩)
    · exact ⟨none, none, hnone, rfl⟩
    · exact ⟨some dn, some size, hdn, bind_eq_ok_iff.mpr ⟨size, hsize, rfl⟩⟩
  · rintro ⟨dn, size, hdn, hsize⟩
    cases dn with
    | none => exact .inl hdn
    | some dn =>
      obtain ⟨size', hsize', -⟩ := bind_eq_ok_iff.mp hsize
      exact .inr ⟨dn, size', hdn, hsize'⟩

/-- What an entry gives: rows of its object, and the object if it is a directory. -/
theorem export_entry_inv {self : Dataset} {dir : Place} {item : String × ZapValue} {own : List Row}
    {next : Option Place} (h : export_entry self dir item = .ok (own, next)) :
    ∃ e, dir_entry item = .ok e ∧ self.Exportable e ∧ (∀ row ∈ own, row.v = e.v) ∧
      (e.k = 'd' → ∃ t, next = some t) ∧ ∀ t, next = some t → e.k = 'd' ∧ t.1 = e.v := by
  simp only [export_entry, bind_eq_ok_iff] at h
  obtain ⟨e, he, dn, hdn, size, hsize, h⟩ := h
  refine ⟨e, he, exportable_iff.mpr ⟨dn, size, hdn, hsize⟩, ?_⟩
  by_cases hf : e.k = 'f'
  · rw [if_pos hf] at h
    cases h
    simp [hf]
  · rw [if_neg hf] at h
    by_cases hl : e.k = 'l'
    · rw [if_pos hl] at h
      cases h
      simp [hl]
    · rw [if_neg hl] at h
      by_cases hd : e.k = 'd'
      · rw [if_pos hd] at h
        cases h
        simp [hd]
      · rw [if_neg hd] at h
        cases h
        simp [hd]

theorem export_entry_of {self : Dataset} {dir : Place} {item : String × ZapValue} {e : DirEntry}
    (he : dir_entry item = .ok e) (h : self.Exportable e) : ∃ r, export_entry self dir item = .ok r := by
  obtain ⟨dn, size, hdn, hsize⟩ := exportable_iff.mp h
  simp only [export_entry, bind_eq_ok_iff]
  by_cases hf : e.k = 'f'
  · exact ⟨_, e, he, dn, hdn, size, hsize, if_pos hf⟩
  · by_cases hl : e.k = 'l'
    · exact ⟨_, e, he, dn, hdn, size, hsize, by rw [if_neg hf, if_pos hl]⟩
    · by_cases hd : e.k = 'd'
      · exact ⟨_, e, he, dn, hdn, size, hsize, by rw [if_neg hf, if_neg hl, if_pos hd]⟩
      · exact ⟨_, e, he, dn, hdn, size, hsize, by rw [if_neg hf, if_neg hl, if_neg hd]⟩

theorem export_traverses (self : Dataset) :
    Traverses self (export_walk self) (fun dir => [{ v := dir.1, size := none, full_name := dir.2 }])
      (fun _ => True) self.Exportable where
  visit := rfl
  clean dir item := by
    constructor
    · rintro ⟨⟨own, next⟩, h⟩
      obtain ⟨e, he, hpass, -⟩ := export_entry_inv h
      exact ⟨e, he, hpass⟩
    · rintro ⟨e, he, hpass⟩
      exact export_entry_of he hpass
  forth dir item e own t he h := by
    obtain ⟨e', he', -, -, -, hnext⟩ := export_entry_inv h
    rw [he] at he'
    cases he'
    exact ⟨(hnext t rfl).1, (hnext t rfl).2, trivial⟩
  back dir item e own next he h hk _ := by
    obtain ⟨e', he', -, -, hdir, -⟩ := export_entry_inv h
    rw [he] at he'
    cases he'
    exact hdir hk

/-- What an object gives the archive. -/
theorem archive_object_inv {self : Dataset} {dir : Place} {e : DirEntry} {dn : DNode} {own : List Member}
    {next : Option Place} (h : archive_object self dir e dn = .ok (own, next)) :
    self.Packable e.k dn ∧ (e.k = 'd' → ∃ t, next = some t) ∧ ∀ t, next = some t → e.k = 'd' ∧ t.1 = e.v := by
  rw [archive_object] at h
  cases hbonus : dn.bonus with
  | none =>
    rw [hbonus] at h
    cases h
  | some bonus =>
    rw [hbonus] at h
    obtain ⟨size, hsize, h⟩ := bind_eq_ok_iff.mp h
    by_cases hf : e.k = 'f'
    · rw [if_pos hf] at h
      obtain ⟨extracted, hextracted, h⟩ := bind_eq_ok_iff.mp h
      cases h
      exact ⟨⟨bonus, size, hbonus, hsize, fun _ => ⟨extracted, hextracted⟩, by simp [hf]⟩, by simp [hf], by simp⟩
    · rw [if_neg hf] at h
      by_cases hd : e.k = 'd'
      · rw [if_pos hd] at h
        cases h
        exact ⟨⟨bonus, size, hbonus, hsize, by simp [hd], by simp [hd]⟩, fun _ => ⟨_, rfl⟩, by simp [hd]⟩
      · rw [if_neg hd] at h
        obtain ⟨target, htarget, h⟩ := bind_eq_ok_iff.mp h
        have hpack : self.Packable e.k dn :=
          ⟨bonus, size, hbonus, hsize, fun hf' => absurd hf' hf, fun _ => ⟨target, htarget⟩⟩
        cases target with
        | none =>
          cases h
          exact ⟨hpack, fun hd' => absurd hd' hd, by simp⟩
        | some linkname =>
          cases h
          exact ⟨hpack, fun hd' => absurd hd' hd, by simp⟩

theorem archive_object_of {self : Dataset} {dir : Place} {e : DirEntry} {dn : DNode}
    (hk : e.k = 'd' ∨ e.k = 'f' ∨ e.k = 'l') (h : self.Packable e.k dn) :
    ∃ r, archive_object self dir e dn = .ok r := by
  obtain ⟨bonus, size, hbonus, hsize, hfile, hlink⟩ := h
  simp only [archive_object, hbonus, bind_eq_ok_iff]
  by_cases hf : e.k = 'f'
  · obtain ⟨extracted, hextracted⟩ := hfile hf
    simp only [if_pos hf, bind_eq_ok_iff]
    exact ⟨_, size, hsize, extracted, hextracted, rfl⟩
  · simp only [if_neg hf]
    by_cases hd : e.k = 'd'
    · simp only [if_pos hd]
      exact ⟨_, size, hsize, rfl⟩
    · obtain ⟨target, htarget⟩ := hlink (by tauto)
      simp only [if_neg hd, bind_eq_ok_iff]
      cases target with
      | none => exact ⟨_, size, hsize, none, htarget, rfl⟩
      | some linkname => exact ⟨_, size, hsize, some linkname, htarget, rfl⟩

/-- What an entry gives the archive: nothing, or what its object gives. -/
theorem archive_entry_inv {self : Dataset} {skip_objs : List Nat} {dir : Place} {item : String × ZapValue}
    {own : List Member} {next : Option Place} (h : archive_entry self skip_objs dir item = .ok (own, next)) :
    ∃ e, dir_entry item = .ok e ∧
      (self.LeavesOut skip_objs e ∧ own = [] ∧ next = none ∨
        e.v ∉ skip_objs ∧ ∃ dn, self.getitem e.v = .ok (some dn) ∧ self.Packable e.k dn ∧
          (e.k = 'd' → ∃ t, next = some t) ∧ ∀ t, next = some t → e.k = 'd' ∧ t.1 = e.v) := by
  obtain ⟨e, he, h⟩ := bind_eq_ok_iff.mp h
  refine ⟨e, he, ?_⟩
  by_cases hskip : e.v ∈ skip_objs
  · rw [if_pos hskip] at h
    cases h
    exact .inl ⟨.inl hskip, rfl, rfl⟩
  · rw [if_neg hskip] at h
    by_cases hk : e.k = 'd' ∨ e.k = 'f' ∨ e.k = 'l'
    · rw [if_pos hk] at h
      obtain ⟨dn, hdn, h⟩ := bind_eq_ok_iff.mp h
      cases dn with
      | none =>
        cases h
        exact .inl ⟨.inr (.inr hdn), rfl, rfl⟩
      | some dn => exact .inr ⟨hskip, dn, hdn, archive_object_inv h⟩
    · rw [if_neg hk] at h
      cases h
      exact .inl ⟨.inr (.inl (by simpa using hk)), rfl, rfl⟩

theorem archive_entry_of {self : Dataset} {skip_objs : List Nat} {dir : Place} {item : String × ZapValue}
    {e : DirEntry} (he : dir_entry item = .ok e) (h : self.Archivable skip_objs e) :
    ∃ r, archive_entry self skip_objs dir item = .ok r := by
  simp only [archive_entry, bind_eq_ok_iff]
  by_cases hskip : e.v ∈ skip_objs
  · exact ⟨_, e, he, if_pos hskip⟩
  · by_cases hk : e.k = 'd' ∨ e.k = 'f' ∨ e.k = 'l'
    · obtain (hskip' | hk' | hnone) | ⟨dn, hdn, hpack⟩ := h
      · exact absurd hskip' hskip
      · exact absurd (by simpa using hk) hk'
      · refine ⟨([], none), e, he, ?_⟩
        rw [if_neg hskip, if_pos hk, bind_eq_ok_iff]
        exact ⟨none, hnone, rfl⟩
      · obtain ⟨r, hr⟩ := @archive_object_of _ dir _ _ hk hpack
        refine ⟨r, e, he, ?_⟩
        rw [if_neg hskip, if_pos hk, bind_eq_ok_iff]
        exact ⟨some dn, hdn, hr⟩
    · exact ⟨_, e, he, by rw [if_neg hskip, if_neg hk]⟩

theorem archive_traverses (self : Dataset) (skip_objs : List Nat) :
    Traverses self (archive_walk self skip_objs) (fun _ => []) (self.Archives skip_objs)
      (self.Archivable skip_objs) where
  visit := rfl
  clean dir item := by
    constructor
    · rintro ⟨⟨own, next⟩, h⟩
      obtain ⟨e, he, ⟨hout, -⟩ | ⟨-, dn, hdn, hpack, -⟩⟩ := archive_entry_inv h
      · exact ⟨e, he, .inl hout⟩
      · exact ⟨e, he, .inr ⟨dn, hdn, hpack⟩⟩
    · rintro ⟨e, he, hpass⟩
      exact archive_entry_of he hpass
  forth dir item e own t he h := by
    obtain ⟨e', he', ⟨-, -, hnext⟩ | ⟨hskip, dn, hdn, -, -, hnext⟩⟩ := archive_entry_inv h
    · cases hnext
    · rw [he] at he'
      cases he'
      exact ⟨(hnext t rfl).1, (hnext t rfl).2, hskip, dn, hdn⟩
  back dir item e own next he h hk hgoes := by
    obtain ⟨hskip, dn, hdn⟩ := hgoes
    obtain ⟨e', he', hcase⟩ := archive_entry_inv h
    rw [he] at he'
    cases he'
    obtain ⟨hskip' | hk' | hnone, -⟩ | ⟨-, -, -, -, hdir, -⟩ := hcase
    · exact absurd hskip' hskip
    · simp [hk] at hk'
    · rw [hdn] at hnone
      cases hnone
    · exact hdir hk

section Readdir

/-- The nodes of a directory that can be reached are made from its entries. -/
theorem readdir_eq {self : Dataset} {id inoderoot : Nat} {relpath : String} {dn : DNode}
    (h : self.getitem id = .ok (some dn)) :
    self.readdir id inoderoot relpath =
      (sorted_entries (self.listed id)).mapM (readdir_entry self inoderoot relpath) >>= fun r => .ok (some r) := by
  rw [Dataset.readdir, Dataset.listed, h, bind_ok]
  cases hzap : self.zap_factory dn with
  | error _ =>
    simp only [hzap]
    rfl
  | ok zap =>
    simp only [hzap]
    cases zap <;> rfl

theorem readdir_inv {self : Dataset} {id inoderoot : Nat} {relpath : String} {nodes : List zfsnode}
    (h : self.readdir id inoderoot relpath = .ok (some nodes)) :
    (∃ dn, self.getitem id = .ok (some dn)) ∧
      (sorted_entries (self.listed id)).mapM (readdir_entry self inoderoot relpath) = .ok nodes := by
  obtain ⟨dn, hdn, -⟩ := bind_eq_ok_iff.mp h
  cases dn with
  | none =>
    rw [Dataset.readdir, hdn] at h
    cases h
  | some dn =>
    rw [readdir_eq hdn] at h
    obtain ⟨r, hr, hnodes⟩ := bind_eq_ok_iff.mp h
    cases hnodes
    exact ⟨⟨dn, hdn⟩, hr⟩

theorem readdir_entry_of {self : Dataset} {item : String × ZapValue} {e : DirEntry} {dn : DNode}
    (he : dir_entry item = .ok e) (hdn : self.getitem e.v = .ok (some dn)) (inoderoot : Nat) (relpath : String) :
    ∃ node, readdir_entry self inoderoot relpath item = .ok node :=
  ⟨_, bind_eq_ok_iff.mpr ⟨e, he, bind_eq_ok_iff.mpr ⟨some dn, hdn, rfl⟩⟩⟩

/-- A node is made from its entry and the dnode of the object. -/
theorem readdir_entry_inv {self : Dataset} {inoderoot : Nat} {relpath : String} {item : String × ZapValue}
    {node : zfsnode} (h : readdir_entry self inoderoot relpath item = .ok node) :
    ∃ e dn, dir_entry item = .ok e ∧ self.getitem e.v = .ok (some dn) ∧
      node =
        { dnode := some dn, stattype := e.k, mode := some (size_and_mode dn).2, datasetid := e.v,
          size := (size_and_mode dn).1, name := e.name, inoderoot := inoderoot, inode := inoderoot + e.v,
          abspath := relpath ++ "/" ++ e.name } := by
  obtain ⟨e, he, h⟩ := bind_eq_ok_iff.mp h
  obtain ⟨dn, hdn, h⟩ := bind_eq_ok_iff.mp h
  cases dn with
  | none => cases h
  | some dn =>
    cases h
    exact ⟨e, dn, he, hdn, rfl⟩

end Readdir

section Medium

/-- A pointer to sectors that are stored as they are, without a checksum. -/
def plain_pointer (sector sectors : Nat) : Bytes :=
  encode_words
    [sectors, sector, 0, 0, 0, 0, (sectors - 1) + (sectors - 1) * 2 ^ 16 + 2 * 2 ^ 32 + 2 * 2 ^ 40, 0, 0, 0, 5, 1, 0, 0,
      0, 0]

/-- A dnode of one block whose bonus is an old-style node of the given size, with
    some content behind it. -/
def dnode_slot (type : UInt8) (bptr : Bytes) (size : Nat) (content : Bytes) : Bytes :=
  fit 512
    ([type, 17, 1, 1, 17, 0, 0, 0, 1, 0] ++ writeLE 2 (264 + content.length) ++ List.replicate 52 0 ++ bptr ++
      encode_words ((List.range 33).map fun i => if i = 10 then size else 0) ++ content)

/-- A sector with a ZAP of the given names and values. -/
def micro_zap (entries : List (Bytes × Nat)) : Bytes :=
  fit 512
    (encode_words [ZBT_MICRO, 0, 0, 0, 0, 0, 0, 0] ++
      entries.flatMap fun e => writeLE 8 e.2 ++ List.replicate 6 0 ++ fit 50 e.1)

/-- The object set of the four dnodes at the beginning of a medium. -/
def four_dnodes (image : Bytes) : ObjectSet where
  vdev := { ashift := 9, read_physical := fun off size => .ok (some (slice image off size)), zlib_decompress := .ok }
  dnode := DNode.parse_header []
  dnodes_per_block := 4
  blocktree :=
    { levels := 1
      vdev := { ashift := 9, read_physical := fun off size => .ok (some (slice image off size)), zlib_decompress := .ok }
      root := .pointer (BlockPtr.of_bytes (plain_pointer 0 4)) }

/-- A directory, which is object 1, two more objects, and the contents of the
    directory and of the second object. -/
def directory_of (second third : Bytes) (entries : List (Bytes × Nat)) (content : Bytes) : Dataset :=
  Dataset.of
    (four_dnodes (List.replicate 512 0 ++ dnode_slot 20 (plain_pointer 4 1) 2 [] ++ fit 512 second ++
      fit 512 third ++ micro_zap entries ++ fit 512 content)) none 10

end Medium

end zfs_rescue.dataset
