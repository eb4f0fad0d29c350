import ZfsRescue.Fuse

open bytes dict
open zfs_rescue.zio zfs_rescue.dnode zfs_rescue.dataset zfs_rescue.fileobj

namespace zfs_rescue.fuse

/-- A request of the kernel, as far as it works on the node objects. -/
inductive Request where
  | lookup (parent_inode : Nat) (name : String)
  | readdir (fh off : Nat)
  | open_file (inode : Nat)
  | read (fh off size : Nat)
  | release (fd : Nat)
  deriving DecidableEq, Repr

/-- The state that a request leaves behind, also when it raises. -/
def zfsfuse.after (dataset : Dataset) (self : zfsfuse) : Request → zfsfuse
  | .lookup parent_inode name => (self.lookup dataset parent_inode name).2
  | .readdir fh off => (self.readdir dataset fh off).2
  | .open_file inode => (self.open_file dataset inode).2
  | .read _ _ _ => self
  | .release fd => (self.release fd).2

/-- Objects keep their node and their temporary file while others are made. Which
    object is registered for an inode may change. -/
structure Grows (s s' : zfsfuse) : Prop where
  old : ∀ (j : Nat) (o : NodeObject), s.objects[j]? = some o →
    ∃ o' : NodeObject, s'.objects[j]? = some o' ∧ o'.node = o.node ∧ o'.cache_file = o.cache_file
  new : ∀ (j : Nat) (o' : NodeObject), s'.objects[j]? = some o' →
    (∃ o : NodeObject, s.objects[j]? = some o ∧ o'.node = o.node ∧ o'.cache_file = o.cache_file) ∨
      s.objects.length ≤ j ∧ o'.cache_file = none
  files : s'.files = s.files
  names : s'.names = s.names

theorem Grows.refl (s : zfsfuse) : Grows s s where
  old _ o h := ⟨o, h, rfl, rfl⟩
  new _ o h := .inl ⟨o, h, rfl, rfl⟩
  files := rfl
  names := rfl

/-- The state after the directory of an object was read. -/
def zfsfuse.load (self : zfsfuse) (k : Nat) (o : NodeObject) (nodes : List zfsnode) : zfsfuse :=
  { self with
    objects :=
      self.objects.set k { o with directory := some ((List.range nodes.length).map fun j => self.objects.length + j) } ++
        nodes.map fun e => { node := e } }

theorem load_of_lt {s : zfsfuse} {k : Nat} {o : NodeObject} (nodes : List zfsnode) {j : Nat}
    (h : j < s.objects.length) :
    (s.load k o nodes).objects[j]? =
      if k = j then some { o with directory := some ((List.range nodes.length).map fun j => s.objects.length + j) }
      else s.objects[j]? := by
  rw [zfsfuse.load, List.getElem?_append_left (by simpa using h), List.getElem?_set]
  by_cases hjk : k = j
  · subst hjk
    rw [if_pos rfl, if_pos rfl, if_pos h]
  · rw [if_neg hjk, if_neg hjk]

theorem load_of_le {s : zfsfuse} {k : Nat} {o : NodeObject} (nodes : List zfsnode) {j : Nat}
    (h : s.objects.length ≤ j) :
    (s.load k o nodes).objects[j]? = (nodes[j - s.objects.length]?).map fun e => { node := e } := by
  rw [zfsfuse.load, List.getElem?_append_right (by simpa using h), List.length_set, List.getElem?_map]

/-- Reading a directory for the first time makes its objects, and later the state
    stays as it is. -/
theorem node_readdir_cases (dataset : Dataset) (s : zfsfuse) (k : Nat) :
    (s.node_readdir dataset k).2 = s ∧
        (∀ directory, (s.node_readdir dataset k).1 = .ok (some directory) →
          ∃ o, s.objects[k]? = some o ∧ o.directory = some directory) ∨
      ∃ o nodes, s.objects[k]? = some o ∧ o.directory = none ∧
        dataset.readdir o.node.datasetid o.node.inoderoot o.node.abspath = .ok (some nodes) ∧
        s.node_readdir dataset k =
          (.ok (some ((List.range nodes.length).map fun j => s.objects.length + j)), s.load k o nodes) := by
  rw [zfsfuse.node_readdir]
  cases hk : s.objects[k]? with
  | none => exact .inl ⟨rfl, fun _ h => by cases h⟩
  | some o =>
    cases hdirectory : o.directory with
    | some directory =>
      refine .inl ⟨by simp only [hdirectory], fun d h => ⟨o, rfl, ?_⟩⟩
      simp only [hdirectory] at h
      cases h
      exact hdirectory
    | none =>
      simp only [hdirectory]
      cases hread : dataset.readdir o.node.datasetid o.node.inoderoot o.node.abspath with
      | error e => exact .inl ⟨rfl, fun _ h => by cases h⟩
      | ok nodes =>
        cases nodes with
        | none => exact .inl ⟨rfl, fun _ h => by cases h⟩
        | some nodes => exact .inr ⟨o, nodes, rfl, hdirectory, hread, rfl⟩

theorem grows_load {s : zfsfuse} {k : Nat} {o : NodeObject} (hk : s.objects[k]? = some o) (nodes : List zfsnode) :
    Grows s (s.load k o nodes) where
  old j p hj := by
    have hlt : j < s.objects.length := (List.getElem?_eq_some_iff.mp hj).1
    rw [load_of_lt nodes hlt]
    by_cases hjk : k = j
    · subst hjk
      rw [hk] at hj
      cases hj
      rw [if_pos rfl]
      exact ⟨_, rfl, rfl, rfl⟩
    · rw [if_neg hjk]
      exact ⟨p, hj, rfl, rfl⟩
  new j p hj := by
    by_cases hlt : j < s.objects.length
    · rw [load_of_lt nodes hlt] at hj
      split at hj
      · rename_i hjk
        subst hjk
        cases hj
        exact .inl ⟨o, hk, rfl, rfl⟩
      · exact .inl ⟨p, hj, rfl, rfl⟩
    · rw [load_of_le nodes (by omega), Option.map_eq_some_iff] at hj
      obtain ⟨e, -, rfl⟩ := hj
      exact .inr ⟨by omega, rfl⟩
  files := rfl
  names := rfl

theorem grows_node_readdir (dataset : Dataset) (s : zfsfuse) (k : Nat) : Grows s (s.node_readdir dataset k).2 := by
  obtain ⟨hsame, -⟩ | ⟨o, nodes, hk, -, -, heq⟩ := node_readdir_cases dataset s k
  · rw [hsame]
    exact .refl s
  · rw [heq]
    exact grows_load hk nodes

/-- What holds of the objects whatever is requested: an inode has an object with
    this inode, the inode of a file is made from its number, and a directory that
    was read has the objects of its nodes. -/
structure Sound (dataset : Dataset) (s : zfsfuse) : Prop where
  registered : ∀ i k, s.inode_map.lookup i = some k → ∃ o : NodeObject, s.objects[k]? = some o ∧ o.node.inode = i
  rooted : ∀ (k : Nat) (o : NodeObject), s.objects[k]? = some o → o.node.inoderoot = ROOT_INODE
  placed : ∀ (k : Nat) (o : NodeObject), s.objects[k]? = some o → o.node.stattype = 'f' →
    o.node.inode = ROOT_INODE + o.node.datasetid
  kept : ∀ (k : Nat) (o : NodeObject) directory, s.objects[k]? = some o → o.directory = some directory →
    ∃ nodes, dataset.readdir o.node.datasetid o.node.inoderoot o.node.abspath = .ok (some nodes) ∧
      directory.map (fun j => (s.objects[j]?).map NodeObject.node) = nodes.map some

/-- The nodes that `readdir` makes belong under its root, and their inodes are
    counted from that of the root. -/
theorem of_mem_readdir {dataset : Dataset} {id inoderoot : Nat} {relpath : String} {nodes : List zfsnode}
    (h : dataset.readdir id inoderoot relpath = .ok (some nodes)) {e : zfsnode} (he : e ∈ nodes) :
    e.inoderoot = inoderoot ∧ e.inode = inoderoot + e.datasetid := by
  obtain ⟨-, hall⟩ := readdir_inv h
  obtain ⟨item, -, hitem⟩ := exists_mem_of_forall₂ (mapM_eq_ok_iff.mp hall).flip he
  obtain ⟨entry, dn, -, -, rfl⟩ := readdir_entry_inv hitem
  exact ⟨rfl, rfl⟩

section Sound

variable {dataset : Dataset} {s s' : zfsfuse}

/-- Only the temporary files of the objects change. -/
theorem Sound.of_same (h : Sound dataset s) (hmap : s'.inode_map = s.inode_map)
    (hobjects : ∀ j : Nat, (s'.objects[j]?).map (fun o => (o.node, o.directory)) =
      (s.objects[j]?).map fun o => (o.node, o.directory)) : Sound dataset s' := by
  have hnode : ∀ j : Nat, (s'.objects[j]?).map NodeObject.node = (s.objects[j]?).map NodeObject.node := by
    intro j
    have hj := congrArg (Option.map Prod.fst) (hobjects j)
    rw [Option.map_map, Option.map_map] at hj
    exact hj
  have hback : ∀ (j : Nat) (o' : NodeObject), s'.objects[j]? = some o' →
      ∃ o : NodeObject, s.objects[j]? = some o ∧ o'.node = o.node ∧ o'.directory = o.directory := by
    intro j o' ho'
    have hj := hobjects j
    rw [ho', Option.map_some, eq_comm, Option.map_eq_some_iff] at hj
    obtain ⟨o, ho, heq⟩ := hj
    rw [Prod.mk.injEq] at heq
    exact ⟨o, ho, heq.1.symm, heq.2.symm⟩
  constructor
  · intro i k hi
    obtain ⟨o, ho, hinode⟩ := h.registered i k (hmap ▸ hi)
    have hk := hnode k
    rw [ho, Option.map_some, Option.map_eq_some_iff] at hk
    obtain ⟨o', ho', heq⟩ := hk
    exact ⟨o', ho', by rw [heq, hinode]⟩
  · intro k o' ho'
    obtain ⟨o, ho, heq, -⟩ := hback k o' ho'
    rw [heq]
    exact h.rooted k o ho
  · intro k o' ho'
    obtain ⟨o, ho, heq, -⟩ := hback k o' ho'
    rw [heq]
    exact h.placed k o ho
  · intro k o' directory ho' hdirectory
    obtain ⟨o, ho, heq, hsame⟩ := hback k o' ho'
    obtain ⟨nodes, hread, hnodes⟩ := h.kept k o directory ho (hsame ▸ hdirectory)
    rw [heq]
    refine ⟨nodes, hread, ?_⟩
    rw [← hnodes]
    simp only [hnode]

theorem Sound.load (h : Sound dataset s) {k : Nat} {o : NodeObject} {nodes : List zfsnode}
    (hk : s.objects[k]? = some o)
    (hread : dataset.readdir o.node.datasetid o.node.inoderoot o.node.abspath = .ok (some nodes)) :
    Sound dataset (s.load k o nodes) := by
  have hgrows := grows_load hk nodes
  have hnode : ∀ (j : Nat) (e : zfsnode), (s.objects[j]?).map NodeObject.node = some e →
      ((s.load k o nodes).objects[j]?).map NodeObject.node = some e := by
    intro j e hj
    obtain ⟨p, hp, rfl⟩ := Option.map_eq_some_iff.mp hj
    obtain ⟨p', hp', hsame, -⟩ := hgrows.old j p hp
    rw [hp', Option.map_some, hsame]
  constructor
  · intro i j hi
    obtain ⟨p, hp, hinode⟩ := h.registered i j hi
    obtain ⟨p', hp', hsame, -⟩ := hgrows.old j p hp
    exact ⟨p', hp', by rw [hsame, hinode]⟩
  · intro j p' hp'
    obtain ⟨p, hp, hsame, -⟩ | ⟨hlen, -⟩ := hgrows.new j p' hp'
    · rw [hsame]
      exact h.rooted j p hp
    · rw [load_of_le nodes hlen, Option.map_eq_some_iff] at hp'
      obtain ⟨e, he, rfl⟩ := hp'
      exact (of_mem_readdir hread (List.mem_of_getElem? he)).1.trans (h.rooted k o hk)
  · intro j p' hp' hfile
    obtain ⟨p, hp, hsame, -⟩ | ⟨hlen, -⟩ := hgrows.new j p' hp'
    · rw [hsame] at hfile ⊢
      exact h.placed j p hp hfile
    · rw [load_of_le nodes hlen, Option.map_eq_some_iff] at hp'
      obtain ⟨e, he, rfl⟩ := hp'
      rw [(of_mem_readdir hread (List.mem_of_getElem? he)).2, h.rooted k o hk]
  · intro j p' directory hp' hdirectory
    by_cases hlt : j < s.objects.length
    · rw [load_of_lt nodes hlt] at hp'
      split at hp'
      · cases hp'
        cases hdirectory
        refine ⟨nodes, hread, ?_⟩
        apply List.ext_getElem (by simp)
        intro i hi _
        have hi' : i < nodes.length := by simpa using hi
        simp [load_of_le nodes (Nat.le_add_right s.objects.length i), List.getElem?_eq_getElem hi']
      · obtain ⟨nodes', hread', hnodes'⟩ := h.kept j p' directory hp' hdirectory
        refine ⟨nodes', hread', ?_⟩
        rw [← hnodes']
        apply List.map_congr_left
        intro i hi
        have hmem : (s.objects[i]?).map NodeObject.node ∈ nodes'.map some :=
          hnodes' ▸ List.mem_map_of_mem hi
        obtain ⟨e, -, he⟩ := List.mem_map.mp hmem
        rw [← he, hnode i e he.symm]
    · rw [load_of_le nodes (by omega), Option.map_eq_some_iff] at hp'
      obtain ⟨e, -, rfl⟩ := hp'
      cases hdirectory

theorem Sound.node_readdir (h : Sound dataset s) (k : Nat) : Sound dataset (s.node_readdir dataset k).2 := by
  obtain ⟨hsame, -⟩ | ⟨o, nodes, hk, -, hread, heq⟩ := node_readdir_cases dataset s k
  · rw [hsame]
    exact h
  · rw [heq]
    exact h.load hk hread

theorem Sound.registerinode (h : Sound dataset s) {j : Nat} {o : NodeObject} (hj : s.objects[j]? = some o) :
    Sound dataset (s.registerinode o.node.inode j) where
  registered i k hi := by
    rw [zfsfuse.registerinode, lookup_set] at hi
    split at hi
    · rename_i heq
      cases hi
      exact ⟨o, hj, heq.symm⟩
    · exact h.registered i k hi
  rooted := h.rooted
  placed := h.placed
  kept := h.kept

theorem of_named {directory : List Nat} {name : String} {j : Nat} {o : NodeObject}
    (h : s.named directory name = some (j, o)) : s.objects[j]? = some o ∧ j ∈ directory ∧ o.node.name = name := by
  have hname := List.find?_some h
  have hmem := List.mem_of_find?_eq_some h
  rw [List.mem_reverse, zfsfuse.members, List.mem_filterMap] at hmem
  obtain ⟨i, hi, hobject⟩ := hmem
  obtain ⟨p, hp, heq⟩ := Option.map_eq_some_iff.mp hobject
  cases heq
  exact ⟨hp, hi, by simpa using hname⟩

/-- A lookup reads the directory, and registers the object it finds. -/
theorem lookup_cases (dataset : Dataset) (s : zfsfuse) (parent_inode : Nat) (name : String) :
    (s.lookup dataset parent_inode name).2 = s ∨
      ∃ k, s.inode_map.lookup parent_inode = some k ∧
        ((s.lookup dataset parent_inode name).2 = (s.node_readdir dataset k).2 ∨
          ∃ directory j o, (s.node_readdir dataset k).1 = .ok (some directory) ∧
            (s.node_readdir dataset k).2.named directory name = some (j, o) ∧
            (s.lookup dataset parent_inode name).2 = (s.node_readdir dataset k).2.registerinode o.node.inode j) := by
  rw [zfsfuse.lookup, zfsfuse.findinode]
  cases hmap : s.inode_map.lookup parent_inode with
  | none => exact .inl rfl
  | some k =>
    refine .inr ⟨k, rfl, ?_⟩
    simp only
    generalize s.node_readdir dataset k = found
    obtain ⟨r, t⟩ := found
    cases r with
    | error e => exact .inl rfl
    | ok directory =>
      cases directory with
      | none => exact .inl rfl
      | some directory =>
        simp only
        cases hnamed : t.named directory name with
        | none => exact .inl rfl
        | some m =>
          obtain ⟨j, o⟩ := m
          exact .inr ⟨directory, j, o, rfl, hnamed, rfl⟩

theorem readdir_state (dataset : Dataset) (s : zfsfuse) (fh off : Nat) :
    (s.readdir dataset fh off).2 = s ∨ ∃ k, (s.readdir dataset fh off).2 = (s.node_readdir dataset k).2 := by
  rw [zfsfuse.readdir]
  cases s.findinode fh with
  | error e => exact .inl rfl
  | ok k =>
    refine .inr ⟨k, ?_⟩
    simp only
    generalize s.node_readdir dataset k = found
    obtain ⟨r, t⟩ := found
    cases r with
    | error e => rfl
    | ok directory => cases directory <;> rfl

theorem open_file_state (dataset : Dataset) (s : zfsfuse) (inode : Nat) :
    (s.open_file dataset inode).2 = s ∨ ∃ k, (s.open_file dataset inode).2 = s.extract_file dataset k := by
  rw [zfsfuse.open_file]
  cases s.object inode with
  | none => exact .inl rfl
  | some m =>
    obtain ⟨k, o⟩ := m
    refine .inr ⟨k, ?_⟩
    simp only
    split <;> rfl

theorem extract_file_objects (dataset : Dataset) (s : zfsfuse) (k j : Nat) :
    ((s.extract_file dataset k).objects[j]?).map (fun o => (o.node, o.directory)) =
      (s.objects[j]?).map fun o => (o.node, o.directory) := by
  rw [zfsfuse.extract_file]
  cases hk : s.objects[k]? with
  | none => rfl
  | some o =>
    simp only
    split
    · simp only [List.getElem?_set]
      split
      · rename_i hjk
        subst hjk
        rw [if_pos (List.getElem?_eq_some_iff.mp hk).1, hk]
        rfl
      · rfl
    · rfl

theorem object_eq_some_iff {s : zfsfuse} {i k : Nat} {o : NodeObject} :
    s.object i = some (k, o) ↔ s.inode_map.lookup i = some k ∧ s.objects[k]? = some o := by
  rw [zfsfuse.object]
  cases s.inode_map.lookup i with
  | none => simp
  | some j =>
    simp only [Option.map_eq_some_iff, Option.some.injEq, Prod.mk.injEq]
    constructor
    · rintro ⟨p, hp, rfl, rfl⟩
      exact ⟨rfl, hp⟩
    · rintro ⟨rfl, ho⟩
      exact ⟨o, ho, rfl, rfl⟩

/-- A release takes away the temporary file of an object, if anything. -/
theorem release_state (s : zfsfuse) (fd : Nat) :
    (s.release fd).2 = s ∨ ∃ (k : Nat) (o : NodeObject) (name : Nat), s.objects[k]? = some o ∧ o.cache_file = some name ∧
      (s.release fd).2 = { s with files := s.files.filter fun file => file.1 ≠ name } := by
  rw [zfsfuse.release]
  cases hobject : s.object fd with
  | none => exact .inl rfl
  | some found =>
    obtain ⟨k, o⟩ := found
    simp only
    cases hcache : o.cache_file with
    | none => exact .inl rfl
    | some name =>
      simp only
      cases s.files.lookup name with
      | none => exact .inl rfl
      | some content => exact .inr ⟨k, o, name, (object_eq_some_iff.mp hobject).2, hcache, rfl⟩

theorem Sound.after (h : Sound dataset s) (r : Request) : Sound dataset (s.after dataset r) := by
  cases r with
  | lookup parent_inode name =>
    show Sound dataset (s.lookup dataset parent_inode name).2
    obtain hsame | ⟨k, -, hsame | ⟨directory, j, o, -, hnamed, hsame⟩⟩ := lookup_cases dataset s parent_inode name
    · rw [hsame]
      exact h
    · rw [hsame]
      exact h.node_readdir k
    · rw [hsame]
      exact (h.node_readdir k).registerinode (of_named hnamed).1
  | readdir fh off =>
    show Sound dataset (s.readdir dataset fh off).2
    obtain hsame | ⟨k, hsame⟩ := readdir_state dataset s fh off
    · rw [hsame]
      exact h
    · rw [hsame]
      exact h.node_readdir k
  | open_file inode =>
    show Sound dataset (s.open_file dataset inode).2
    obtain hsame | ⟨k, hsame⟩ := open_file_state dataset s inode
    · rw [hsame]
      exact h
    · rw [hsame]
      refine h.of_same ?_ (extract_file_objects dataset s k)
      rw [zfsfuse.extract_file]
      split
      · rfl
      · split <;> rfl
  | read fh off size => exact h
  | release fd =>
    show Sound dataset (s.release fd).2
    obtain hsame | ⟨k, o, name, -, -, hsame⟩ := release_state s fd
    · rw [hsame]
      exact h
    · rw [hsame]
      exact h.of_same rfl fun _ => rfl

/-- Whatever is requested, the objects stay sound. -/
theorem Sound.run (h : Sound dataset s) (requests : List Request) :
    Sound dataset (requests.foldl (fun s r => s.after dataset r) s) := by
  induction requests generalizing s with
  | nil => exact h
  | cons r requests ih => exact ih (h.after r)

theorem sound_one {root : zfsnode} (hroot : root.inoderoot = ROOT_INODE) (hdir : root.stattype = 'd') :
    Sound dataset { objects := [{ node := root }], inode_map := [(root.inode, 0)], files := [], names := 0 } := by
  have hone : ∀ (k : Nat) (o : NodeObject), [({ node := root } : NodeObject)][k]? = some o → o = { node := root } :=
    fun k o h => List.mem_singleton.mp (List.mem_of_getElem? h)
  constructor
  · intro i k hi
    rw [lookup_cons] at hi
    split at hi
    · rename_i heq
      cases hi
      exact ⟨{ node := root }, rfl, heq.symm⟩
    · cases hi
  · intro k o h
    rw [hone k o h]
    exact hroot
  · intro k o h hfile
    rw [hone k o h, hdir] at hfile
    exact absurd hfile (by decide)
  · intro k o directory h hdirectory
    rw [hone k o h] at hdirectory
    cases hdirectory

theorem sound_init {rootdir_id : Nat} (h : zfsfuse.init dataset rootdir_id = .ok s) : Sound dataset s := by
  obtain ⟨root, hroot, hs⟩ := bind_eq_ok_iff.mp h
  obtain ⟨r, -, hroot⟩ := bind_eq_ok_iff.mp hroot
  cases hroot
  cases hs
  exact sound_one rfl rfl

end Sound

end zfs_rescue.fuse
