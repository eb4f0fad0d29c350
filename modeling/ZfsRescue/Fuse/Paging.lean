import ZfsRescue.Cursor
import ZfsRescue.Fuse.Objects

open bytes dict cursor
open zfs_rescue.zio zfs_rescue.dnode zfs_rescue.dataset zfs_rescue.fileobj

namespace zfs_rescue.fuse

/-- The entries of a directory in the order in which they are yielded. -/
def listing (nodes : List zfsnode) : List Dirent :=
  (nodes.map dirent).insertionSort fun a b => dirent_le a b = true

/-- The calls of `readdir` for a directory from an offset on. Of each the kernel
    takes as much as it wants, and the last one yields nothing. -/
inductive Paging (dataset : Dataset) (fh : Nat) : zfsfuse → Nat → List (List Dirent) → Prop where
  | done {s : zfsfuse} {off : Nat} : (s.readdir dataset fh off).1 = .ok [] → Paging dataset fh s off []
  | page {s : zfsfuse} {off : Nat} {entries page : List Dirent} {pages : List (List Dirent)} :
      (s.readdir dataset fh off).1 = .ok entries → page <+: entries →
      Paging dataset fh (s.readdir dataset fh off).2 (next Dirent.ino off page) pages →
      Paging dataset fh s off (page :: pages)

/-- A state that requests lead to after the mount. -/
def Reachable (dataset : Dataset) (rootdir_id : Nat) (s : zfsfuse) : Prop :=
  ∃ (s₀ : zfsfuse) (requests : List Request), zfsfuse.init dataset rootdir_id = .ok s₀ ∧ s = requests.foldl (fun s r => s.after dataset r) s₀

/-- The object under an inode is one of a directory with these nodes. -/
structure Shows (dataset : Dataset) (s : zfsfuse) (fh : Nat) (nodes : List zfsnode) : Prop where
  sound : Sound dataset s
  object : ∃ (k : Nat) (o : NodeObject), s.inode_map.lookup fh = some k ∧ s.objects[k]? = some o ∧
    dataset.readdir o.node.datasetid o.node.inoderoot o.node.abspath = .ok (some nodes)

theorem dirent_le_iff {a b : Dirent} :
    dirent_le a b = true ↔ a.ino < b.ino ∨ a.ino = b.ino ∧ str_le a.name b.name = true := by
  simp [dirent_le]

theorem dirent_le_total (a b : Dirent) : dirent_le a b = true ∨ dirent_le b a = true := by
  rw [dirent_le_iff, dirent_le_iff]
  rcases Nat.lt_trichotomy a.ino b.ino with h | h | h
  · exact .inl (.inl h)
  · exact (str_le_total a.name b.name).imp (fun hname => .inr ⟨h, hname⟩) fun hname => .inr ⟨h.symm, hname⟩
  · exact .inr (.inl h)

theorem dirent_le_trans {a b c : Dirent} (h : dirent_le a b = true) (h' : dirent_le b c = true) :
    dirent_le a c = true := by
  rw [dirent_le_iff] at h h' ⊢
  rcases h with h | ⟨h, hname⟩
  · rcases h' with h' | ⟨h', -⟩
    · exact .inl (h.trans h')
    · exact .inl (h' ▸ h)
  · rcases h' with h' | ⟨h', hname'⟩
    · exact .inl (h ▸ h')
    · exact .inr ⟨h.trans h', str_le_trans hname hname'⟩

theorem sorted_listing (nodes : List zfsnode) : (listing nodes).Pairwise fun a b => a.ino ≤ b.ino := by
  have : IsTrans Dirent fun a b => dirent_le a b = true := ⟨fun _ _ _ => dirent_le_trans⟩
  have : Std.Total fun a b => dirent_le a b = true := ⟨dirent_le_total⟩
  refine (List.pairwise_insertionSort (fun a b => dirent_le a b = true) (nodes.map dirent)).imp fun {a b} h => ?_
  rcases dirent_le_iff.mp h with h | ⟨h, -⟩
  · exact h.le
  · exact h.le

theorem perm_listing (nodes : List zfsnode) : (listing nodes).Perm (nodes.map dirent) := List.perm_insertionSort _ _

theorem entries_from_eq (nodes : List zfsnode) (off : Nat) :
    entries_from nodes off = rest Dirent.ino (listing nodes) off := rfl

section Shows

variable {dataset : Dataset} {s : zfsfuse} {fh : Nat} {nodes : List zfsnode}

theorem members_nodes {directory : List Nat}
    (h : directory.map (fun j => (s.objects[j]?).map NodeObject.node) = nodes.map some) :
    (s.members directory).map (fun m => m.2.node) = nodes := by
  rw [zfsfuse.members, List.map_filterMap]
  have hcomp : ∀ j : Nat, ((s.objects[j]?).map fun o => (j, o)).map (fun m : Nat × NodeObject => m.2.node) =
      (s.objects[j]?).map NodeObject.node := by
    intro j
    rw [Option.map_map]
    rfl
  have hid := congrArg (List.filterMap id) h
  rw [List.filterMap_map, List.filterMap_map] at hid
  simp only [hcomp]
  simpa [Function.comp_def] using hid

/-- Reading the directory of an object gives the objects of its nodes, and they are
    those that later readings give. -/
theorem node_readdir_of_nodes (hsound : Sound dataset s) {k : Nat} {o : NodeObject} (hk : s.objects[k]? = some o)
    (hread : dataset.readdir o.node.datasetid o.node.inoderoot o.node.abspath = .ok (some nodes)) :
    ∃ directory s', s.node_readdir dataset k = (.ok (some directory), s') ∧
      (s'.members directory).map (fun m => m.2.node) = nodes ∧ Sound dataset s' ∧ s'.inode_map = s.inode_map ∧
      ∃ o' : NodeObject, s'.objects[k]? = some o' ∧ o'.node = o.node := by
  cases hdirectory : o.directory with
  | some directory =>
    obtain ⟨nodes', hread', hnodes'⟩ := hsound.kept k o directory hk hdirectory
    rw [hread] at hread'
    cases hread'
    refine ⟨directory, s, ?_, members_nodes hnodes', hsound, rfl, o, hk, rfl⟩
    rw [zfsfuse.node_readdir, hk]
    simp only [hdirectory]
  | none =>
    have hloaded := hsound.load hk hread
    obtain ⟨o', ho', hnode, -⟩ := (grows_load hk nodes).old k o hk
    have hkept : (s.load k o nodes).objects[k]? =
        some { o with directory := some ((List.range nodes.length).map fun j => s.objects.length + j) } := by
      rw [load_of_lt nodes (List.getElem?_eq_some_iff.mp hk).1, if_pos rfl]
    obtain ⟨nodes', hread', hnodes'⟩ := hloaded.kept k _ _ hkept rfl
    rw [hread] at hread'
    cases hread'
    refine ⟨_, _, ?_, members_nodes hnodes', hloaded, rfl, o', ho', hnode⟩
    rw [zfsfuse.node_readdir, hk]
    simp only [hdirectory, hread]
    rfl

/-- Every call lists the nodes of the directory. -/
theorem Shows.readdir (h : Shows dataset s fh nodes) (off : Nat) :
    (s.readdir dataset fh off).1 = .ok (rest Dirent.ino (listing nodes) off) ∧
      Shows dataset (s.readdir dataset fh off).2 fh nodes := by
  obtain ⟨k, o, hmap, hk, hread⟩ := h.object
  obtain ⟨directory, s', hreaddir, hmembers, hsound, hsame, o', ho', hnode⟩ := node_readdir_of_nodes h.sound hk hread
  rw [zfsfuse.readdir, zfsfuse.findinode, hmap]
  simp only [hreaddir]
  refine ⟨?_, hsound, k, o', hsame ▸ hmap, ho', hnode ▸ hread⟩
  rw [hmembers, entries_from_eq]

/-- The calls take the sorted entries in pages. -/
theorem Shows.paging_iff (h : Shows dataset s fh nodes) {off : Nat} {pages : List (List Dirent)} :
    Paging dataset fh s off pages ↔ Pages Dirent.ino (listing nodes) off pages := by
  constructor
  · intro hpaging
    induction hpaging with
    | @done s off hnothing =>
      rw [(h.readdir off).1, Except.ok.injEq] at hnothing
      exact .done hnothing
    | @page s off entries page pages hentries hprefix _ ih =>
      rw [(h.readdir off).1] at hentries
      cases hentries
      exact .page hprefix (ih (h.readdir off).2)
  · intro hpages
    induction hpages generalizing s with
    | @done off hnothing => exact .done (by rw [(h.readdir off).1, hnothing])
    | @page off page pages hprefix _ ih => exact .page (h.readdir off).1 hprefix (ih (h.readdir off).2)

/-- The inode of every entry comes after the first offset. -/
theorem Shows.rest_zero (h : Shows dataset s fh nodes) : rest Dirent.ino (listing nodes) 0 = listing nodes := by
  obtain ⟨k, o, -, hk, hread⟩ := h.object
  rw [rest, List.filter_eq_self]
  intro e he
  obtain ⟨node, hnode, rfl⟩ := List.mem_map.mp ((perm_listing nodes).subset he)
  have hino := (of_mem_readdir hread hnode).2
  rw [h.sound.rooted k o hk] at hino
  exact decide_eq_true (show 0 < node.inode by rw [hino, ROOT_INODE]; omega)

theorem Shows.perm_iff (h : Shows dataset s fh nodes) {pages : List (List Dirent)} (hpaging : Paging dataset fh s 0 pages) :
    pages.flatten.Perm (nodes.map dirent) ↔ pages.flatten = rest Dirent.ino (listing nodes) 0 := by
  have hsub := (h.paging_iff.mp hpaging).sublist (sorted_listing nodes)
  rw [h.rest_zero] at hsub ⊢
  constructor
  · intro hperm
    exact hsub.eq_of_length (hperm.trans (perm_listing nodes).symm).length_eq
  · intro heq
    rw [heq]
    exact perm_listing nodes

/-- A paging holds every entry once exactly when no page ends between two entries
    for the same object, and every paging does exactly when no two entries are for
    the same object. -/
theorem Shows.perm_iff_uncut (h : Shows dataset s fh nodes) :
    (∀ pages, Paging dataset fh s 0 pages →
      (pages.flatten.Perm (nodes.map dirent) ↔ Uncut Dirent.ino (listing nodes) 0 pages)) ∧
    ((∀ pages, Paging dataset fh s 0 pages → pages.flatten.Perm (nodes.map dirent)) ↔
      (nodes.map zfsnode.inode).Nodup) := by
  constructor
  · intro pages hpaging
    rw [h.perm_iff hpaging]
    exact (h.paging_iff.mp hpaging).flatten_eq_iff (sorted_listing nodes)
  · have hinodes : ((rest Dirent.ino (listing nodes) 0).map Dirent.ino).Perm (nodes.map zfsnode.inode) := by
      rw [h.rest_zero]
      refine ((perm_listing nodes).map Dirent.ino).trans ?_
      rw [List.map_map]
      exact .refl _
    rw [← hinodes.nodup_iff, ← forall_flatten_eq_iff (sorted_listing nodes)]
    constructor
    · intro hall pages hpages
      have hpaging := h.paging_iff.mpr hpages
      exact (h.perm_iff hpaging).mp (hall pages hpaging)
    · intro hall pages hpaging
      exact (h.perm_iff hpaging).mpr (hall pages (h.paging_iff.mp hpaging))

end Shows

theorem Reachable.init {dataset : Dataset} {rootdir_id : Nat} {s : zfsfuse}
    (h : zfsfuse.init dataset rootdir_id = .ok s) : Reachable dataset rootdir_id s := ⟨s, [], h, rfl⟩

theorem Reachable.sound {dataset : Dataset} {rootdir_id : Nat} {s : zfsfuse} (h : Reachable dataset rootdir_id s) :
    Sound dataset s := by
  obtain ⟨s₀, requests, hinit, rfl⟩ := h
  exact (sound_init hinit).run requests

theorem shows_of_object {dataset : Dataset} {s : zfsfuse} {fh k : Nat} {o : NodeObject} {nodes : List zfsnode}
    (hsound : Sound dataset s) (hobject : s.object fh = some (k, o))
    (hread : dataset.readdir o.node.datasetid o.node.inoderoot o.node.abspath = .ok (some nodes)) :
    Shows dataset s fh nodes := by
  obtain ⟨hmap, hk⟩ := object_eq_some_iff.mp hobject
  exact ⟨hsound, k, o, hmap, hk, hread⟩

/-- After any requests, the pages of a directory hold every entry once exactly when
    none ends between two entries for the same object. They do so however the
    listing is cut exactly when no two entries are for the same object. -/
theorem listed_once_iff {dataset : Dataset} {rootdir_id : Nat} {s : zfsfuse} {fh k : Nat} {o : NodeObject}
    {nodes : List zfsnode} (hreach : Reachable dataset rootdir_id s) (hobject : s.object fh = some (k, o))
    (hread : dataset.readdir o.node.datasetid o.node.inoderoot o.node.abspath = .ok (some nodes)) :
    (∀ pages, Paging dataset fh s 0 pages →
      (pages.flatten.Perm (nodes.map dirent) ↔ Uncut Dirent.ino (listing nodes) 0 pages)) ∧
    ((∀ pages, Paging dataset fh s 0 pages → pages.flatten.Perm (nodes.map dirent)) ↔
      (nodes.map zfsnode.inode).Nodup) :=
  (shows_of_object hreach.sound hobject hread).perm_iff_uncut

/-- The file system of a directory with two names, for a file and for the object
    `v`. -/
def two_names (v : Nat) : Dataset :=
  directory_of (dnode_slot 19 (plain_pointer 5 1) 5 []) (dnode_slot 19 (plain_pointer 5 1) 5 [])
    [([97], 8 * 2 ^ 60 + 2), ([98], 8 * 2 ^ 60 + v)] [104, 101, 108, 108, 111]

/-- The state after the mount of directory 1. -/
def mounted (dataset : Dataset) : zfsfuse :=
  match zfsfuse.init dataset 1 with
  | .ok s => s
  | .error _ => { objects := [], inode_map := [], files := [], names := 0 }

def file_dirent (name : String) (ino : Nat) : Dirent where
  ino := ino
  name := name
  attr := { st_mode := 0o100777, st_size := .int 5, st_ino := ino }

/-- The root is registered after the mount. -/
theorem object_of_init {dataset : Dataset} {rootdir_id : Nat} {s : zfsfuse}
    (h : zfsfuse.init dataset rootdir_id = .ok s) :
    ∃ o, s.object ROOT_INODE = some (0, o) ∧ o.node.datasetid = rootdir_id ∧ o.node.inoderoot = ROOT_INODE ∧
      o.node.abspath = "" := by
  obtain ⟨root, hroot, hs⟩ := bind_eq_ok_iff.mp h
  obtain ⟨r, -, hroot⟩ := bind_eq_ok_iff.mp hroot
  cases hroot
  cases hs
  exact ⟨_, rfl, rfl, rfl, rfl⟩

/-- The names of two objects are listed once, however the listing is cut. -/
theorem listed_once_two_objects :
    ∃ nodes, (two_names 3).readdir 1 ROOT_INODE "" = .ok (some nodes) ∧
      ∀ pages, Paging (two_names 3) ROOT_INODE (mounted (two_names 3)) 0 pages →
        pages.flatten.Perm (nodes.map dirent) := by
  have hlisted :
      zfsfuse.init (two_names 3) 1 = .ok (mounted (two_names 3)) ∧
      ((two_names 3).readdir 1 ROOT_INODE "" >>= fun nodes => .ok (nodes.map (List.map zfsnode.inode))) =
        .ok (some [3, 4]) := by decide +kernel
  obtain ⟨hinit, hinodes⟩ := hlisted
  obtain ⟨nodes, hread, hsome⟩ := bind_eq_ok_iff.mp hinodes
  rw [Except.ok.injEq, Option.map_eq_some_iff] at hsome
  obtain ⟨nodes, rfl, hmap⟩ := hsome
  obtain ⟨o, hobject, hid, hroot, hpath⟩ := object_of_init hinit
  refine ⟨nodes, hread, (listed_once_iff (.init hinit) hobject ?_).2.mpr ?_⟩
  · rw [hid, hroot, hpath]
    exact hread
  · rw [hmap]
    decide

/-- Of two names for one object the second is lost when the first page ends between
    them. -/
theorem not_listed_once_two_names :
    zfsfuse.init (two_names 2) 1 = .ok (mounted (two_names 2)) ∧
    ((two_names 2).readdir 1 ROOT_INODE "" >>= fun nodes => .ok (nodes.map (List.map dirent))) =
      .ok (some [file_dirent "a" 3, file_dirent "b" 3]) ∧
    Paging (two_names 2) ROOT_INODE (mounted (two_names 2)) 0 [[file_dirent "a" 3]] ∧
    ¬ [[file_dirent "a" 3]].flatten.Perm [file_dirent "a" 3, file_dirent "b" 3] := by
  have hlisted :
      zfsfuse.init (two_names 2) 1 = .ok (mounted (two_names 2)) ∧
      ((two_names 2).readdir 1 ROOT_INODE "" >>= fun nodes => .ok (nodes.map (List.map dirent))) =
        .ok (some [file_dirent "a" 3, file_dirent "b" 3]) ∧
      ((mounted (two_names 2)).readdir (two_names 2) ROOT_INODE 0).1 =
        .ok [file_dirent "a" 3, file_dirent "b" 3] ∧
      (((mounted (two_names 2)).readdir (two_names 2) ROOT_INODE 0).2.readdir (two_names 2) ROOT_INODE 3).1 = .ok [] := by
    decide +kernel
  obtain ⟨hinit, hread, hfirst, hsecond⟩ := hlisted
  have hprefix : [file_dirent "a" 3] <+: [file_dirent "a" 3, file_dirent "b" 3] := ⟨[file_dirent "b" 3], rfl⟩
  refine ⟨hinit, hread, .page hfirst hprefix (.done hsecond), fun h => ?_⟩
  exact absurd h.length_eq (by decide)

end zfs_rescue.fuse
