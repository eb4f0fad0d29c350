import ZfsRescue.Runs
import ZfsRescue.Fuse.Paging

open bytes dict runs
open zfs_rescue.zio zfs_rescue.dnode zfs_rescue.dataset zfs_rescue.fileobj

namespace zfs_rescue.fuse

/-- What the extraction of a file leaves, where it does not raise. -/
def extracted (dataset : Dataset) (v : Nat) : Option Bytes :=
  match dataset.getitem v with
  | .error _ => none
  | .ok r =>
    match extract_file dataset.vdev r with
    | .error _ => none
    | .ok r => some r.1

/-- The size of a node is a number, as the text that `open` logs takes it. -/
def sized (e : zfsnode) : Bool :=
  match node_size e with
  | .int _ => true
  | _ => false

/-- An open file: the inode that it was opened by, the object that was registered for
    it then, and the number of the file. -/
structure Handle where
  inode : Nat
  object : Nat
  datasetid : Nat
  deriving DecidableEq, Repr

/-- The mounted file system beside the handles that are open. -/
structure Mount where
  fs : zfsfuse
  handles : List Handle
  deriving DecidableEq, Repr

/-- A handle on an inode, opened through the object that is registered now. -/
def Mount.Through (m : Mount) (inode : Nat) (h : Handle) : Prop :=
  h.inode = inode ∧ m.fs.inode_map.lookup inode = some h.object

instance (m : Mount) (inode : Nat) : DecidablePred (m.Through inode) := fun _ => inferInstanceAs (Decidable (_ ∧ _))

/-- The handle that a release closes. All the handles on an inode are the same to
    the kernel. -/
def Mount.closes (m : Mount) (fd : Nat) : Option Handle :=
  (m.handles.find? fun h => m.Through fd h).or (m.handles.find? fun h => h.inode = fd)

/-- The handles after a request. -/
def Mount.held (dataset : Dataset) (m : Mount) : Request → List Handle
  | .open_file inode =>
    match m.fs.object inode, (m.fs.open_file dataset inode).1 with
    | some (k, o), .ok fd => m.handles ++ [{ inode := fd, object := k, datasetid := o.node.datasetid }]
    | _, _ => m.handles
  | .release fd =>
    match m.closes fd with
    | some h => m.handles.erase h
    | none => m.handles
  | _ => m.handles

def Mount.after (dataset : Dataset) (m : Mount) (r : Request) : Mount where
  fs := m.fs.after dataset r
  handles := m.held dataset r

def Mount.start (s : zfsfuse) : Mount where
  fs := s
  handles := []

def Mount.run (dataset : Dataset) (m : Mount) (requests : List Request) : Mount := requests.foldl (Mount.after dataset) m

/-- What the kernel keeps to, where files can be extracted: it opens files, it reads
    with signed 64-bit numbers, and it releases what is open. -/
def Mount.Requested (dataset : Dataset) (m : Mount) : Request → Prop
  | .open_file inode =>
    ∀ found ∈ m.fs.object inode, found.2.node.stattype = 'f' ∧ (extracted dataset found.2.node.datasetid).isSome
  | .read _ off size => off < 2 ^ 63 ∧ size < 2 ^ 63
  | .release fd => ∃ h ∈ m.handles, h.inode = fd
  | _ => True

/-- No object is opened while a handle on it is open, and an inode with handles is
    read and released by an object that one of them was opened through. -/
def Mount.Isolated (m : Mount) : Request → Prop
  | .open_file inode => ∀ found ∈ m.fs.object inode, sized found.2.node = true ∧ ¬ ∃ h ∈ m.handles, m.Through inode h
  | .read fh _ _ => (∃ h ∈ m.handles, h.inode = fh) → ∃ h ∈ m.handles, m.Through fh h
  | .release fd => ∃ h ∈ m.handles, m.Through fd h
  | _ => True

/-- A read by a handle gives the slice of its file, and a release succeeds. -/
def Mount.Right (dataset : Dataset) (m : Mount) : Request → Prop
  | .read fh off size =>
    ∀ h ∈ m.handles, h.inode = fh →
      ∃ content, extracted dataset h.datasetid = some content ∧ m.fs.read fh off size = .ok (slice content off size)
  | .release fd => (m.fs.release fd).1 = .ok ()
  | _ => True

/-- A run in which all is answered as it should, and that leaves no temporary file if
    it releases all its handles. -/
def Mount.Serves (dataset : Dataset) (m : Mount) (requests : List Request) : Prop :=
  Along (Mount.after dataset) (Mount.Right dataset) m requests ∧
    ((m.run dataset requests).handles = [] → (m.run dataset requests).fs.files = [])

instance (dataset : Dataset) (m : Mount) : DecidablePred (m.Requested dataset)
  | .open_file inode => inferInstanceAs (Decidable (∀ found ∈ m.fs.object inode, _ ∧ _))
  | .read _ off size => inferInstanceAs (Decidable (off < 2 ^ 63 ∧ size < 2 ^ 63))
  | .release fd => inferInstanceAs (Decidable (∃ h ∈ m.handles, h.inode = fd))
  | .lookup _ _ => inferInstanceAs (Decidable True)
  | .readdir _ _ => inferInstanceAs (Decidable True)

instance (m : Mount) : DecidablePred m.Isolated
  | .open_file inode => inferInstanceAs (Decidable (∀ found ∈ m.fs.object inode, _ ∧ _))
  | .read fh _ _ => inferInstanceAs (Decidable ((∃ h ∈ m.handles, h.inode = fh) → ∃ h ∈ m.handles, m.Through fh h))
  | .release fd => inferInstanceAs (Decidable (∃ h ∈ m.handles, m.Through fd h))
  | .lookup _ _ => inferInstanceAs (Decidable True)
  | .readdir _ _ => inferInstanceAs (Decidable True)

theorem grows_registerinode {s t : zfsfuse} (h : Grows s t) (i k : Nat) : Grows s (t.registerinode i k) where
  old := h.old
  new := h.new
  files := h.files
  names := h.names

theorem grows_lookup (dataset : Dataset) (s : zfsfuse) (parent_inode : Nat) (name : String) :
    Grows s (s.lookup dataset parent_inode name).2 := by
  obtain hsame | ⟨k, -, hsame | ⟨directory, j, o, -, -, hsame⟩⟩ := lookup_cases dataset s parent_inode name
  · rw [hsame]
    exact .refl s
  · rw [hsame]
    exact grows_node_readdir dataset s k
  · rw [hsame]
    exact grows_registerinode (grows_node_readdir dataset s k) _ _

theorem grows_readdir (dataset : Dataset) (s : zfsfuse) (fh off : Nat) : Grows s (s.readdir dataset fh off).2 := by
  obtain hsame | ⟨k, hsame⟩ := readdir_state dataset s fh off
  · rw [hsame]
    exact .refl s
  · rw [hsame]
    exact grows_node_readdir dataset s k

theorem Grows.cache_file {s t : zfsfuse} (h : Grows s t) {k name : Nat} {o : NodeObject} (hk : t.objects[k]? = some o)
    (hcache : o.cache_file = some name) : ∃ p : NodeObject, s.objects[k]? = some p ∧ p.cache_file = some name := by
  obtain ⟨p, hp, -, hsame⟩ | ⟨-, hnone⟩ := h.new k o hk
  · exact ⟨p, hp, hsame ▸ hcache⟩
  · rw [hnone] at hcache
    cases hcache

/-- The state after a file was extracted by an object. -/
def zfsfuse.opened (self : zfsfuse) (k : Nat) (o : NodeObject) (content : Bytes) : zfsfuse :=
  { self with
    objects := self.objects.set k { o with cache_file := some self.names }
    names := self.names + 1
    files := set self.files self.names content }

theorem opened_objects {s : zfsfuse} {k : Nat} {o : NodeObject} (hk : s.objects[k]? = some o) (content : Bytes)
    (j : Nat) :
    (s.opened k o content).objects[j]? = if k = j then some { o with cache_file := some s.names } else s.objects[j]? := by
  rw [zfsfuse.opened, List.getElem?_set]
  by_cases hkj : k = j
  · subst hkj
    rw [if_pos rfl, if_pos rfl, if_pos (List.getElem?_eq_some_iff.mp hk).1]
  · rw [if_neg hkj, if_neg hkj]

/-- The object names a new file, and the others keep theirs. -/
theorem opened_cache_file {s : zfsfuse} {k j name : Nat} {o p : NodeObject} {content : Bytes}
    (hk : s.objects[k]? = some o) (hj : (s.opened k o content).objects[j]? = some p) (hcache : p.cache_file = some name) :
    k = j ∧ name = s.names ∨ k ≠ j ∧ s.objects[j]? = some p := by
  rw [opened_objects hk] at hj
  split at hj
  · rename_i hkj
    cases hj
    cases hcache
    exact .inl ⟨hkj, rfl⟩
  · rename_i hkj
    exact .inr ⟨hkj, hj⟩

theorem left_behind_of_extracted {dataset : Dataset} {v : Nat} {content : Bytes}
    (h : extracted dataset v = some content) : left_behind dataset v = some content := by
  rw [extracted] at h
  rw [left_behind]
  cases hget : dataset.getitem v with
  | error e =>
    rw [hget] at h
    cases h
  | ok r =>
    rw [hget] at h
    cases r with
    | none => cases h
    | some dn =>
      simp only at h ⊢
      cases hextract : zfs_rescue.dataset.extract_file dataset.vdev (some dn) with
      | error e =>
        rw [hextract] at h
        cases h
      | ok r =>
        rw [hextract] at h
        exact h

theorem extract_file_eq {dataset : Dataset} {s : zfsfuse} {k : Nat} {o : NodeObject} {content : Bytes}
    (hk : s.objects[k]? = some o) (hfile : o.node.stattype = 'f')
    (hcontent : extracted dataset o.node.datasetid = some content) : s.extract_file dataset k = s.opened k o content := by
  rw [zfsfuse.extract_file, hk]
  simp only [hfile, left_behind_of_extracted hcontent]
  rfl

/-- Opening raises after the extraction, where the size is no number. -/
theorem open_file_eq {dataset : Dataset} {s : zfsfuse} {inode k : Nat} {o : NodeObject}
    (hobject : s.object inode = some (k, o)) :
    s.open_file dataset inode =
      (if sized o.node = true then .ok inode else .error (.raised .TypeError), s.extract_file dataset k) := by
  rw [zfsfuse.open_file, hobject, sized]
  simp only
  cases node_size o.node <;> rfl

theorem open_file_none {dataset : Dataset} {s : zfsfuse} {inode : Nat} (hobject : s.object inode = none) :
    s.open_file dataset inode = (.error .ENOENT, s) := by
  rw [zfsfuse.open_file, hobject]

theorem read_of_file {s : zfsfuse} {fh k name : Nat} {o : NodeObject} {content : Bytes}
    (hobject : s.object fh = some (k, o)) (hcache : o.cache_file = some name)
    (hlookup : s.files.lookup name = some content) {off size : Nat} (hoff : off < 2 ^ 63) (hsize : size < 2 ^ 63) :
    s.read fh off size = .ok (slice content off size) := by
  rw [zfsfuse.read, hobject]
  simp only [hcache, hlookup, seek_read_of_lt content hoff hsize]

theorem read_inv {s : zfsfuse} {fh off size : Nat} {data : Bytes} (h : s.read fh off size = .ok data) :
    ∃ k o name content, s.object fh = some (k, o) ∧ o.cache_file = some name ∧ s.files.lookup name = some content := by
  rw [zfsfuse.read] at h
  cases hobject : s.object fh with
  | none =>
    rw [hobject] at h
    cases h
  | some found =>
    obtain ⟨k, o⟩ := found
    simp only [hobject] at h
    cases hcache : o.cache_file with
    | none =>
      rw [hcache] at h
      cases h
    | some name =>
      simp only [hcache] at h
      cases hlookup : s.files.lookup name with
      | none =>
        rw [hlookup] at h
        cases h
      | some content => exact ⟨k, o, name, content, rfl, hcache, hlookup⟩

theorem release_of_file {s : zfsfuse} {fd k name : Nat} {o : NodeObject} {content : Bytes}
    (hobject : s.object fd = some (k, o)) (hcache : o.cache_file = some name)
    (hlookup : s.files.lookup name = some content) :
    s.release fd = (.ok (), { s with files := s.files.filter fun file => file.1 ≠ name }) := by
  rw [zfsfuse.release, hobject]
  simp only [hcache, hlookup]

/-- A release that succeeds takes a file away, or there was no name to one. -/
theorem release_inv {s : zfsfuse} {fd : Nat} (h : (s.release fd).1 = .ok ()) :
    ∃ k o, s.object fd = some (k, o) ∧
      ((s.release fd).2 = s ∨ ∃ name content, o.cache_file = some name ∧ s.files.lookup name = some content) := by
  rw [zfsfuse.release] at h ⊢
  cases hobject : s.object fd with
  | none =>
    rw [hobject] at h
    cases h
  | some found =>
    obtain ⟨k, o⟩ := found
    simp only [hobject] at h
    refine ⟨k, o, rfl, ?_⟩
    cases hcache : o.cache_file with
    | none =>
      refine .inl ?_
      simp only [hcache]
    | some name =>
      simp only [hcache] at h
      cases hlookup : s.files.lookup name with
      | none =>
        rw [hlookup] at h
        cases h
      | some content => exact .inr ⟨name, content, rfl, hlookup⟩

/-- The temporary files have names that were drawn, each its own. -/
structure Tidy (s : zfsfuse) : Prop where
  drawn : ∀ file ∈ s.files, file.1 < s.names
  distinct : (s.files.map Prod.fst).Nodup

theorem Tidy.lt_names {s : zfsfuse} (h : Tidy s) {name : Nat} (hname : name ∈ s.files.map Prod.fst) : name < s.names := by
  obtain ⟨file, hfile, rfl⟩ := List.mem_map.mp hname
  exact h.drawn file hfile

theorem Tidy.names_not_mem {s : zfsfuse} (h : Tidy s) : s.names ∉ s.files.map Prod.fst :=
  fun hmem => Nat.lt_irrefl _ (h.lt_names hmem)

theorem Tidy.opened_files {s : zfsfuse} (h : Tidy s) (k : Nat) (o : NodeObject) (content : Bytes) :
    (s.opened k o content).files = s.files ++ [(s.names, content)] := set_of_not_mem h.names_not_mem content

theorem Tidy.opened {s : zfsfuse} (h : Tidy s) (k : Nat) (o : NodeObject) (content : Bytes) :
    Tidy (s.opened k o content) where
  drawn file hfile := by
    rw [h.opened_files, List.mem_append, List.mem_singleton] at hfile
    show file.1 < s.names + 1
    obtain hfile | rfl := hfile
    · exact Nat.lt_succ_of_lt (h.drawn file hfile)
    · exact Nat.lt_succ_self _
  distinct := by
    rw [h.opened_files, List.map_append, List.map_singleton, ← List.concat_eq_append]
    exact h.distinct.concat h.names_not_mem

theorem Tidy.filter {s : zfsfuse} (h : Tidy s) (name : Nat) :
    Tidy { s with files := s.files.filter fun file => file.1 ≠ name } where
  drawn file hfile := h.drawn file (List.mem_of_mem_filter hfile)
  distinct := h.distinct.sublist (List.filter_sublist.map _)

theorem Tidy.of_grows {s t : zfsfuse} (h : Tidy s) (hgrows : Grows s t) : Tidy t where
  drawn := hgrows.files ▸ hgrows.names ▸ h.drawn
  distinct := hgrows.files ▸ h.distinct

/-- One name has at most one file. -/
theorem Tidy.length_filter {s : zfsfuse} (h : Tidy s) (name : Nat) :
    s.files.length ≤ (s.files.filter fun file => file.1 ≠ name).length + 1 := by
  have hone : (s.files.filter fun file => file.1 = name).length ≤ 1 := by
    have hcount := List.nodup_iff_count_le_one.mp h.distinct name
    rw [List.count, List.countP_map, List.countP_eq_length_filter] at hcount
    simpa [Function.comp_def, beq_eq_decide] using hcount
  have hsplit := List.length_eq_length_filter_add (l := s.files) fun file => decide (file.1 = name)
  simp only [decide_not] at *
  omega

/-- The object that a handle was opened through names the temporary file with what
    was extracted. -/
def Backs (dataset : Dataset) (s : zfsfuse) (h : Handle) (file : Nat × Bytes) : Prop :=
  ∃ o : NodeObject, s.objects[h.object]? = some o ∧ o.cache_file = some file.1 ∧ o.node.stattype = 'f' ∧
    o.node.inode = h.inode ∧ o.node.datasetid = h.datasetid ∧ extracted dataset h.datasetid = some file.2

/-- What holds while the handles are kept apart: they belong to different objects,
    and the temporary files are theirs, one each. -/
structure Held (dataset : Dataset) (m : Mount) : Prop where
  sound : Sound dataset m.fs
  tidy : Tidy m.fs
  drawn : ∀ (k : Nat) (o : NodeObject) (name : Nat), m.fs.objects[k]? = some o → o.cache_file = some name →
    name < m.fs.names
  apart : ∀ (k k' : Nat) (o o' : NodeObject) (name : Nat), m.fs.objects[k]? = some o → m.fs.objects[k']? = some o' →
    o.cache_file = some name → o'.cache_file = some name → k = k'
  distinct : (m.handles.map Handle.object).Nodup
  backed : List.Forall₂ (Backs dataset m.fs) m.handles m.fs.files

theorem held_init {dataset : Dataset} {rootdir_id : Nat} {s : zfsfuse} (h : zfsfuse.init dataset rootdir_id = .ok s) :
    Held dataset (.start s) := by
  have hsound := sound_init h
  obtain ⟨root, -, hs⟩ := bind_eq_ok_iff.mp h
  cases hs
  have hnone : ∀ (k : Nat) (o : NodeObject), [({ node := root } : NodeObject)][k]? = some o → o.cache_file = none := by
    intro k o hk
    rw [List.mem_singleton.mp (List.mem_of_getElem? hk)]
  refine ⟨hsound, ⟨nofun, .nil⟩, ?_, ?_, .nil, .nil⟩
  · intro k o name hk hcache
    rw [hnone k o hk] at hcache
    cases hcache
  · intro k k' o o' name hk hk' hcache
    rw [hnone k o hk] at hcache
    cases hcache

section Held

variable {dataset : Dataset} {m : Mount}

theorem Held.of_grows (h : Held dataset m) {s : zfsfuse} (hgrows : Grows m.fs s) (hsound : Sound dataset s) :
    Held dataset { fs := s, handles := m.handles } := by
  refine ⟨hsound, h.tidy.of_grows hgrows, ?_, ?_, h.distinct, ?_⟩
  · intro k o name hk hcache
    obtain ⟨p, hp, hsame⟩ := hgrows.cache_file hk hcache
    show name < s.names
    rw [hgrows.names]
    exact h.drawn k p name hp hsame
  · intro k k' o o' name hk hk' hcache hcache'
    obtain ⟨p, hp, hsame⟩ := hgrows.cache_file hk hcache
    obtain ⟨p', hp', hsame'⟩ := hgrows.cache_file hk' hcache'
    exact h.apart k k' p p' name hp hp' hsame hsame'
  · show List.Forall₂ (Backs dataset s) m.handles s.files
    rw [hgrows.files]
    refine h.backed.imp fun x file hbacks => ?_
    obtain ⟨o, ho, hcache, hrest⟩ := hbacks
    obtain ⟨o', ho', hnode, hsame⟩ := hgrows.old x.object o ho
    exact ⟨o', ho', hsame ▸ hcache, hnode ▸ hrest⟩

/-- A handle has its temporary file. -/
theorem Held.file_of_handle (h : Held dataset m) {x : Handle} (hx : x ∈ m.handles) :
    ∃ name content, Backs dataset m.fs x (name, content) ∧ m.fs.files.lookup name = some content := by
  obtain ⟨file, hfile, hbacks⟩ := exists_mem_of_forall₂ h.backed hx
  exact ⟨file.1, file.2, hbacks, lookup_of_mem h.tidy.distinct hfile⟩

/-- The object that names a temporary file is one that a handle was opened
    through. -/
theorem Held.handle_of_file (h : Held dataset m) {k name : Nat} {o : NodeObject} {content : Bytes}
    (hk : m.fs.objects[k]? = some o) (hcache : o.cache_file = some name)
    (hlookup : m.fs.files.lookup name = some content) :
    ∃ x ∈ m.handles, x.object = k ∧ Backs dataset m.fs x (name, content) := by
  obtain ⟨x, hx, p, hp, hsame, hrest⟩ := exists_mem_of_forall₂ h.backed.flip (mem_of_lookup hlookup)
  exact ⟨x, hx, h.apart x.object k p o name hp hk hsame hcache, p, hp, hsame, hrest⟩

/-- A handle through the object of an inode is a handle on this inode. -/
theorem Held.through (h : Held dataset m) {inode k : Nat} {o : NodeObject} (hobject : m.fs.object inode = some (k, o))
    {x : Handle} (hx : x ∈ m.handles) (hk : x.object = k) : m.Through inode x := by
  obtain ⟨hmap, ho⟩ := object_eq_some_iff.mp hobject
  obtain ⟨name, content, ⟨p, hp, -, -, hinode, -⟩, -⟩ := h.file_of_handle hx
  obtain ⟨q, hq, hregistered⟩ := h.sound.registered inode k hmap
  rw [hk] at hp
  rw [hp] at hq
  cases hq
  exact ⟨hinode.symm.trans hregistered, hk ▸ hmap⟩

/-- The file of a handle through the object of its inode. -/
theorem Held.object_of_through (h : Held dataset m) {inode : Nat} {x : Handle} (hx : x ∈ m.handles)
    (hthrough : m.Through inode x) :
    ∃ o name content, m.fs.object inode = some (x.object, o) ∧ o.cache_file = some name ∧
      m.fs.files.lookup name = some content ∧ extracted dataset x.datasetid = some content := by
  obtain ⟨name, content, ⟨o, ho, hcache, -, -, -, hcontent⟩, hlookup⟩ := h.file_of_handle hx
  exact ⟨o, name, content, object_eq_some_iff.mpr ⟨hthrough.2, ho⟩, hcache, hlookup, hcontent⟩

/-- Handles on one inode are handles on one file. -/
theorem Held.datasetid_eq (h : Held dataset m) {x y : Handle} (hx : x ∈ m.handles) (hy : y ∈ m.handles)
    (hinode : x.inode = y.inode) : x.datasetid = y.datasetid := by
  have hplaced : ∀ z ∈ m.handles, z.inode = ROOT_INODE + z.datasetid := by
    intro z hz
    obtain ⟨name, content, ⟨o, ho, -, hfile, hinode, hid, -⟩, -⟩ := h.file_of_handle hz
    rw [← hinode, ← hid]
    exact h.sound.placed z.object o ho hfile
  have hsum := hinode
  rw [hplaced x hx, hplaced y hy] at hsum
  exact Nat.add_left_cancel hsum

theorem Held.read (h : Held dataset m) {fh off size : Nat} (hoff : off < 2 ^ 63) (hsize : size < 2 ^ 63)
    (hisolated : m.Isolated (.read fh off size)) : m.Right dataset (.read fh off size) := by
  intro x hx hinode
  obtain ⟨y, hy, hthrough⟩ := hisolated ⟨x, hx, hinode⟩
  obtain ⟨o, name, content, hobject, hcache, hlookup, hcontent⟩ := h.object_of_through hy hthrough
  refine ⟨content, ?_, read_of_file hobject hcache hlookup hoff hsize⟩
  rw [h.datasetid_eq hx hy (hinode.trans hthrough.1.symm)]
  exact hcontent

theorem Held.opened (h : Held dataset m) {inode k : Nat} {o : NodeObject} {content : Bytes}
    (hobject : m.fs.object inode = some (k, o)) (hfile : o.node.stattype = 'f')
    (hcontent : extracted dataset o.node.datasetid = some content) (hsound : Sound dataset (m.fs.opened k o content))
    (hnot : ∀ x ∈ m.handles, x.object ≠ k) :
    Held dataset
      { fs := m.fs.opened k o content
        handles := m.handles ++ [{ inode := inode, object := k, datasetid := o.node.datasetid }] } := by
  obtain ⟨hmap, hk⟩ := object_eq_some_iff.mp hobject
  refine ⟨hsound, h.tidy.opened k o content, ?_, ?_, ?_, ?_⟩
  · intro j p name hj hcache
    show name < m.fs.names + 1
    obtain ⟨-, rfl⟩ | ⟨-, hold⟩ := opened_cache_file hk hj hcache
    · exact Nat.lt_succ_self _
    · exact Nat.lt_succ_of_lt (h.drawn j p name hold hcache)
  · intro j j' p p' name hj hj' hcache hcache'
    obtain ⟨rfl, hname⟩ | ⟨-, hold⟩ := opened_cache_file hk hj hcache
    · obtain ⟨hkj', -⟩ | ⟨-, hold'⟩ := opened_cache_file hk hj' hcache'
      · exact hkj'
      · exact absurd hname (h.drawn j' p' name hold' hcache').ne
    · obtain ⟨-, hname⟩ | ⟨-, hold'⟩ := opened_cache_file hk hj' hcache'
      · exact absurd hname (h.drawn j p name hold hcache).ne
      · exact h.apart j j' p p' name hold hold' hcache hcache'
  · rw [List.map_append, List.map_singleton, ← List.concat_eq_append]
    refine h.distinct.concat fun hmem => ?_
    obtain ⟨x, hx, hxk⟩ := List.mem_map.mp hmem
    exact hnot x hx hxk
  · show List.Forall₂ (Backs dataset (m.fs.opened k o content)) _ (m.fs.opened k o content).files
    rw [h.tidy.opened_files]
    refine List.rel_append ?_ (.cons ?_ .nil)
    · refine ((List.forall₂_and_left _ _).mpr ⟨hnot, h.backed⟩).imp fun y file hboth => ?_
      obtain ⟨hne, p, hp, hrest⟩ := hboth
      refine ⟨p, ?_, hrest⟩
      rw [opened_objects hk, if_neg (Ne.symm hne)]
      exact hp
    · refine ⟨{ o with cache_file := some m.fs.names }, ?_, rfl, hfile, ?_, rfl, hcontent⟩
      · rw [opened_objects hk, if_pos rfl]
      · obtain ⟨q, hq, hregistered⟩ := h.sound.registered inode k hmap
        rw [hk] at hq
        cases hq
        exact hregistered

theorem Held.released (h : Held dataset m) {x : Handle} (hx : x ∈ m.handles) {o : NodeObject} {name : Nat}
    (hobject : m.fs.objects[x.object]? = some o) (hcache : o.cache_file = some name)
    (hsound : Sound dataset { m.fs with files := m.fs.files.filter fun file => file.1 ≠ name }) :
    Held dataset
      { fs := { m.fs with files := m.fs.files.filter fun file => file.1 ≠ name }
        handles := m.handles.erase x } := by
  have herase : m.handles.erase x = m.handles.filter fun y => y.object ≠ x.object := by
    rw [(List.Nodup.of_map _ h.distinct).erase_eq_filter]
    refine List.filter_congr fun y hy => ?_
    rw [Bool.eq_iff_iff, bne_iff_ne, decide_eq_true_iff, not_iff_not]
    exact ⟨fun heq => heq ▸ rfl, fun heq => List.inj_on_of_nodup_map h.distinct hy hx heq⟩
  refine ⟨hsound, h.tidy.filter name, h.drawn, h.apart, h.distinct.sublist (List.erase_sublist.map _), ?_⟩
  show List.Forall₂ (Backs dataset m.fs) (m.handles.erase x) (m.fs.files.filter fun file => file.1 ≠ name)
  rw [herase]
  refine List.rel_filter (fun y file hbacks => ?_) h.backed
  obtain ⟨p, hp, hsame, -⟩ := hbacks
  simp only [decide_eq_true_iff]
  rw [not_iff_not]
  constructor
  · intro heq
    rw [heq, hobject] at hp
    cases hp
    rw [hsame] at hcache
    cases hcache
    rfl
  · intro heq
    exact h.apart _ _ p o name hp hobject (heq ▸ hsame) hcache

theorem after_open_none {inode : Nat} (hobject : m.fs.object inode = none) : m.after dataset (.open_file inode) = m := by
  rw [Mount.after, Mount.held, zfsfuse.after, open_file_none hobject, hobject]

theorem after_open {inode k : Nat} {o : NodeObject} (hobject : m.fs.object inode = some (k, o))
    (hrequested : m.Requested dataset (.open_file inode)) :
    o.node.stattype = 'f' ∧ ∃ content, extracted dataset o.node.datasetid = some content ∧
      m.after dataset (.open_file inode) =
        { fs := m.fs.opened k o content
          handles :=
            if sized o.node = true then m.handles ++ [{ inode := inode, object := k, datasetid := o.node.datasetid }]
            else m.handles } := by
  obtain ⟨hfile, hsome⟩ := hrequested (k, o) hobject
  obtain ⟨content, hcontent⟩ := Option.isSome_iff_exists.mp hsome
  refine ⟨hfile, content, hcontent, ?_⟩
  rw [Mount.after, Mount.held, zfsfuse.after, open_file_eq hobject, hobject,
    extract_file_eq (object_eq_some_iff.mp hobject).2 hfile hcontent]
  by_cases hsized : sized o.node = true
  · simp only [if_pos hsized]
  · simp only [if_neg hsized]

/-- A release that comes when a handle is open on the inode closes one, and it closes
    one through the registered object if there is one. -/
theorem closes_of_requested {fd : Nat} (h : ∃ x ∈ m.handles, x.inode = fd) :
    ∃ x ∈ m.handles, m.closes fd = some x ∧ ((∃ y ∈ m.handles, m.Through fd y) → m.Through fd x) := by
  rw [Mount.closes]
  cases hfind : m.handles.find? fun x => m.Through fd x with
  | some x =>
    have hthrough : m.Through fd x := by simpa using List.find?_some hfind
    exact ⟨x, List.mem_of_find?_eq_some hfind, rfl, fun _ => hthrough⟩
  | none =>
    have hnone : ∀ y ∈ m.handles, ¬ m.Through fd y := by simpa using hfind
    cases hfirst : m.handles.find? fun x => x.inode = fd with
    | some x =>
      exact ⟨x, List.mem_of_find?_eq_some hfirst, rfl, fun ⟨y, hy, hthrough⟩ => absurd hthrough (hnone y hy)⟩
    | none =>
      obtain ⟨x, hx, hinode⟩ := h
      have hne : ∀ y ∈ m.handles, ¬ y.inode = fd := by simpa using hfirst
      exact absurd hinode (hne x hx)

theorem held_release {fd : Nat} {x : Handle} (h : m.closes fd = some x) :
    m.held dataset (.release fd) = m.handles.erase x := by
  rw [Mount.held, h]

/-- A request that keeps the handles apart is answered as it should, and leaves them
    apart. -/
theorem Held.after (h : Held dataset m) {r : Request} (hrequested : m.Requested dataset r) (hisolated : m.Isolated r) :
    m.Right dataset r ∧ Held dataset (m.after dataset r) := by
  have hsound := h.sound.after r
  cases r with
  | lookup parent_inode name => exact ⟨trivial, h.of_grows (grows_lookup dataset m.fs parent_inode name) hsound⟩
  | readdir fh off => exact ⟨trivial, h.of_grows (grows_readdir dataset m.fs fh off) hsound⟩
  | open_file inode =>
    refine ⟨trivial, ?_⟩
    cases hobject : m.fs.object inode with
    | none =>
      rw [after_open_none hobject]
      exact h
    | some found =>
      obtain ⟨k, o⟩ := found
      obtain ⟨hfile, content, hcontent, hafter⟩ := after_open hobject hrequested
      obtain ⟨hsized, hnot⟩ := hisolated (k, o) hobject
      have hfs : m.fs.after dataset (.open_file inode) = m.fs.opened k o content := congrArg Mount.fs hafter
      rw [hafter, if_pos hsized]
      exact h.opened hobject hfile hcontent (hfs ▸ hsound) fun x hx hk => hnot ⟨x, hx, h.through hobject hx hk⟩
  | read fh off size => exact ⟨h.read hrequested.1 hrequested.2 hisolated, h⟩
  | release fd =>
    obtain ⟨x, hx, hcloses, hthrough⟩ := closes_of_requested hrequested
    obtain ⟨o, name, content, hobject, hcache, hlookup, -⟩ := h.object_of_through hx (hthrough hisolated)
    have hrelease := release_of_file hobject hcache hlookup
    have hfs : m.fs.after dataset (.release fd) = { m.fs with files := m.fs.files.filter fun file => file.1 ≠ name } :=
      congrArg Prod.snd hrelease
    refine ⟨congrArg Prod.fst hrelease, ?_⟩
    rw [Mount.after, held_release hcloses, hfs]
    exact h.released hx (object_eq_some_iff.mp hobject).2 hcache (hfs ▸ hsound)

end Held

/-- A temporary file that no release comes to take away any more: there are more files
    than handles, or no object has its name. -/
structure Stuck (m : Mount) : Prop where
  tidy : Tidy m.fs
  left : m.handles.length < m.fs.files.length ∨
    ∃ name ∈ m.fs.files.map Prod.fst, ∀ (k : Nat) (o : NodeObject), m.fs.objects[k]? = some o → o.cache_file ≠ some name

section Stuck

variable {dataset : Dataset} {m : Mount}

theorem Stuck.of_grows (h : Stuck m) {s : zfsfuse} (hgrows : Grows m.fs s) :
    Stuck { fs := s, handles := m.handles } := by
  refine ⟨h.tidy.of_grows hgrows, ?_⟩
  show m.handles.length < s.files.length ∨ ∃ name ∈ s.files.map Prod.fst, _
  rw [hgrows.files]
  refine h.left.imp_right fun ⟨name, hname, hnone⟩ => ⟨name, hname, fun k o hk hcache => ?_⟩
  obtain ⟨p, hp, hsame⟩ := hgrows.cache_file hk hcache
  exact hnone k p hp hsame

theorem Stuck.opened (h : Stuck m) {k : Nat} {o : NodeObject} (hk : m.fs.objects[k]? = some o) (content : Bytes)
    {handles : List Handle} (hlength : handles.length ≤ m.handles.length + 1) :
    Stuck { fs := m.fs.opened k o content, handles := handles } := by
  refine ⟨h.tidy.opened k o content, ?_⟩
  show handles.length < (m.fs.opened k o content).files.length ∨ _
  rw [h.tidy.opened_files]
  obtain hless | ⟨name, hname, hnone⟩ := h.left
  · left
    rw [List.length_append, List.length_singleton]
    omega
  · refine .inr ⟨name, ?_, fun j p hj hcache => ?_⟩
    · rw [List.map_append]
      exact List.mem_append_left _ hname
    · obtain ⟨-, rfl⟩ | ⟨-, hold⟩ := opened_cache_file hk hj hcache
      · exact h.tidy.names_not_mem hname
      · exact hnone j p hold hcache

theorem Stuck.released (h : Stuck m) (fd : Nat) {x : Handle} (hx : x ∈ m.handles) :
    Stuck { fs := (m.fs.release fd).2, handles := m.handles.erase x } := by
  have hlength : (m.handles.erase x).length = m.handles.length - 1 := List.length_erase_of_mem hx
  have hpos := List.length_pos_of_mem hx
  obtain hsame | ⟨k, o, name, hk, hcache, hsame⟩ := release_state m.fs fd
  · rw [hsame]
    exact ⟨h.tidy, h.left.imp_left fun hless => show (m.handles.erase x).length < m.fs.files.length by omega⟩
  · rw [hsame]
    refine ⟨h.tidy.filter name, h.left.imp (fun hless => ?_) fun ⟨kept, hkept, hnone⟩ => ⟨kept, ?_, hnone⟩⟩
    · have hfiles := h.tidy.length_filter name
      show (m.handles.erase x).length < (m.fs.files.filter fun file => file.1 ≠ name).length
      omega
    · obtain ⟨file, hfile, rfl⟩ := List.mem_map.mp hkept
      refine List.mem_map_of_mem (List.mem_filter.mpr ⟨hfile, decide_eq_true fun heq => ?_⟩)
      exact hnone k o hk (heq ▸ hcache)

theorem Stuck.after (h : Stuck m) {r : Request} (hrequested : m.Requested dataset r) :
    Stuck (m.after dataset r) := by
  cases r with
  | lookup parent_inode name => exact h.of_grows (grows_lookup dataset m.fs parent_inode name)
  | readdir fh off => exact h.of_grows (grows_readdir dataset m.fs fh off)
  | open_file inode =>
    cases hobject : m.fs.object inode with
    | none =>
      rw [after_open_none hobject]
      exact h
    | some found =>
      obtain ⟨k, o⟩ := found
      obtain ⟨-, content, -, hafter⟩ := after_open hobject hrequested
      rw [hafter]
      refine h.opened (object_eq_some_iff.mp hobject).2 content ?_
      split
      · rw [List.length_append, List.length_singleton]
      · exact Nat.le_succ _
  | read fh off size => exact h
  | release fd =>
    obtain ⟨x, hx, hcloses, -⟩ := closes_of_requested hrequested
    rw [Mount.after, held_release hcloses]
    exact h.released fd hx

/-- Where files are stuck, they remain when all handles are released. -/
theorem Stuck.files_ne_nil (h : Stuck m) (hhandles : m.handles = []) : m.fs.files ≠ [] := by
  intro hfiles
  obtain hless | ⟨name, hname, -⟩ := h.left
  · rw [hhandles, hfiles] at hless
    exact Nat.lt_irrefl _ hless
  · rw [hfiles] at hname
    cases hname

theorem Held.stuck_of_open (h : Held dataset m) {inode k : Nat} {o : NodeObject}
    (hobject : m.fs.object inode = some (k, o)) (hrequested : m.Requested dataset (.open_file inode))
    (hnot : ¬ (sized o.node = true ∧ ¬ ∃ x ∈ m.handles, m.Through inode x)) :
    Stuck (m.after dataset (.open_file inode)) := by
  obtain ⟨-, content, -, hafter⟩ := after_open hobject hrequested
  have hk := (object_eq_some_iff.mp hobject).2
  rw [hafter]
  refine ⟨h.tidy.opened k o content, ?_⟩
  show _ < (m.fs.opened k o content).files.length ∨ ∃ name ∈ (m.fs.opened k o content).files.map Prod.fst, _
  rw [h.tidy.opened_files]
  by_cases hsized : sized o.node = true
  · -- The name of the file of the open handle is overwritten.
    obtain ⟨x, hx, hthrough⟩ : ∃ x ∈ m.handles, m.Through inode x := by
      by_contra hnone
      exact hnot ⟨hsized, hnone⟩
    obtain ⟨p, name, content', hobject', hcache, hlookup, -⟩ := h.object_of_through hx hthrough
    rw [hobject] at hobject'
    cases hobject'
    refine .inr ⟨name, ?_, fun j q hj hname => ?_⟩
    · rw [List.map_append]
      exact List.mem_append_left _ (List.mem_map_of_mem (mem_of_lookup hlookup))
    · obtain ⟨-, rfl⟩ | ⟨hne, hold⟩ := opened_cache_file hk hj hname
      · exact Nat.lt_irrefl _ (h.drawn x.object o _ hk hcache)
      · exact hne (h.apart x.object j o q name hk hold hcache hname)
  · left
    rw [if_neg hsized, List.length_append, h.backed.length_eq]
    exact Nat.lt_succ_self _

/-- A request that is answered as it should keeps the handles apart, or files are stuck
    after it. -/
theorem Held.isolated_or_stuck (h : Held dataset m) {r : Request} (hrequested : m.Requested dataset r)
    (hright : m.Right dataset r) : m.Isolated r ∨ Stuck (m.after dataset r) := by
  cases r with
  | lookup parent_inode name => exact .inl trivial
  | readdir fh off => exact .inl trivial
  | open_file inode =>
    by_cases hisolated : m.Isolated (.open_file inode)
    · exact .inl hisolated
    · refine .inr ?_
      obtain ⟨found, hnot⟩ := Classical.not_forall.mp hisolated
      obtain ⟨hobject, hnot⟩ := Classical.not_imp.mp hnot
      exact h.stuck_of_open hobject hrequested hnot
  | read fh off size =>
    refine .inl fun ⟨x, hx, hinode⟩ => ?_
    obtain ⟨content, -, hread⟩ := hright x hx hinode
    obtain ⟨k, o, name, content, hobject, hcache, hlookup⟩ := read_inv hread
    obtain ⟨y, hy, hk, -⟩ := h.handle_of_file (object_eq_some_iff.mp hobject).2 hcache hlookup
    exact ⟨y, hy, h.through hobject hy hk⟩
  | release fd =>
    obtain ⟨k, o, hobject, hsame | ⟨name, content, hcache, hlookup⟩⟩ := release_inv hright
    · obtain ⟨x, hx, hcloses, -⟩ := closes_of_requested hrequested
      have hlength := List.length_erase_of_mem hx
      have hpos := List.length_pos_of_mem hx
      have hfs : m.fs.after dataset (.release fd) = m.fs := hsame
      refine .inr ?_
      rw [Mount.after, held_release hcloses, hfs]
      refine ⟨h.tidy, .inl ?_⟩
      show (m.handles.erase x).length < m.fs.files.length
      rw [← h.backed.length_eq]
      omega
    · obtain ⟨y, hy, hk, -⟩ := h.handle_of_file (object_eq_some_iff.mp hobject).2 hcache hlookup
      exact .inl ⟨y, hy, h.through hobject hy hk⟩

end Stuck

/-- In a run that keeps the handles apart every read by a handle gives its slice, every
    release succeeds, and no temporary file remains when all are released. A run that
    releases all its handles is like this exactly when it keeps them apart. -/
theorem handles_isolated_iff {dataset : Dataset} {rootdir_id : Nat} {s : zfsfuse}
    (hinit : zfsfuse.init dataset rootdir_id = .ok s) {requests : List Request}
    (hrequested : Along (Mount.after dataset) (Mount.Requested dataset) (.start s) requests) :
    (Along (Mount.after dataset) Mount.Isolated (.start s) requests → (Mount.start s).Serves dataset requests) ∧
    (((Mount.start s).run dataset requests).handles = [] →
      ((Mount.start s).Serves dataset requests ↔ Along (Mount.after dataset) Mount.Isolated (.start s) requests)) := by
  have hheld := held_init hinit
  have hforward : Along (Mount.after dataset) Mount.Isolated (.start s) requests →
      (Mount.start s).Serves dataset requests := by
    intro hisolated
    obtain ⟨hright, hend⟩ := along_of_invariant (Held dataset)
      (fun m r hm hr => hm.after hr.1 hr.2) hheld (hrequested.and hisolated)
    refine ⟨hright, fun hhandles => ?_⟩
    have hbacked := hend.backed
    change List.Forall₂ _ ((Mount.start s).run dataset requests).handles _ at hbacked
    rw [hhandles] at hbacked
    exact List.forall₂_nil_left_iff.mp hbacked
  refine ⟨hforward, fun hhandles => ⟨fun hserves => ?_, hforward⟩⟩
  refine along_of_not_stuck (Held dataset) Stuck (fun m r hm hr => ?_) (fun m r hm hr => hm.after hr.1) hheld
    (hrequested.and hserves.1) fun hstuck => hstuck.files_ne_nil hhandles (hserves.2 hhandles)
  obtain hisolated | hstuck := hm.isolated_or_stuck hr.1 hr.2
  · exact .inl ⟨hisolated, (hm.after hr.1 hisolated).2⟩
  · exact .inr hstuck

/-- A file that is looked up, opened, read and released. -/
def one_open : List Request :=
  [.lookup ROOT_INODE "a", .open_file 3, .read 3 1 3, .release 3]

/-- A file that is opened again before it is released. -/
def two_opens : List Request :=
  [.lookup ROOT_INODE "a", .open_file 3, .open_file 3, .release 3, .release 3]

/-- A file whose other name is looked up while it is open. -/
def other_name : List Request :=
  [.lookup ROOT_INODE "a", .open_file 3, .lookup ROOT_INODE "b"]

theorem handles_isolated_one_open : (Mount.start (mounted (two_names 2))).Serves (two_names 2) one_open := by
  have hrun :
      zfsfuse.init (two_names 2) 1 = .ok (mounted (two_names 2)) ∧
      Along (Mount.after (two_names 2)) (Mount.Requested (two_names 2)) (.start (mounted (two_names 2))) one_open ∧
      Along (Mount.after (two_names 2)) Mount.Isolated (.start (mounted (two_names 2))) one_open := by decide +kernel
  exact (handles_isolated_iff hrun.1 hrun.2.1).1 hrun.2.2

/-- Of a file that was opened twice a temporary file remains after both releases. After
    its other name was looked up, an open file cannot be read. -/
theorem not_handles_isolated_two_opens :
    zfsfuse.init (two_names 2) 1 = .ok (mounted (two_names 2)) ∧
    Along (Mount.after (two_names 2)) (Mount.Requested (two_names 2)) (.start (mounted (two_names 2))) two_opens ∧
    ((Mount.start (mounted (two_names 2))).run (two_names 2) two_opens).handles = [] ∧
    ((Mount.start (mounted (two_names 2))).run (two_names 2) two_opens).fs.files = [(0, [104, 101, 108, 108, 111])] ∧
    ¬ (Mount.start (mounted (two_names 2))).Serves (two_names 2) two_opens ∧
    ((Mount.start (mounted (two_names 2))).run (two_names 2) other_name).handles =
      [{ inode := 3, object := 1, datasetid := 2 }] ∧
    ((Mount.start (mounted (two_names 2))).run (two_names 2) other_name).fs.read 3 1 3 = .error (.raised .TypeError) := by
  have hruns :
      zfsfuse.init (two_names 2) 1 = .ok (mounted (two_names 2)) ∧
      Along (Mount.after (two_names 2)) (Mount.Requested (two_names 2)) (.start (mounted (two_names 2))) two_opens ∧
      ((Mount.start (mounted (two_names 2))).run (two_names 2) two_opens).handles = [] ∧
      ((Mount.start (mounted (two_names 2))).run (two_names 2) two_opens).fs.files = [(0, [104, 101, 108, 108, 111])] ∧
      ((Mount.start (mounted (two_names 2))).run (two_names 2) other_name).handles =
        [{ inode := 3, object := 1, datasetid := 2 }] ∧
      ((Mount.start (mounted (two_names 2))).run (two_names 2) other_name).fs.read 3 1 3 =
        .error (.raised .TypeError) := by decide +kernel
  obtain ⟨hinit, hrequested, hhandles, hfiles, hother, hread⟩ := hruns
  refine ⟨hinit, hrequested, hhandles, hfiles, fun h => ?_, hother, hread⟩
  rw [h.2 hhandles] at hfiles
  cases hfiles

end zfs_rescue.fuse
