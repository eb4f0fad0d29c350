import ZfsRescue.Objectset

open zfs_rescue.blockptr zfs_rescue.dnode zfs_rescue.blocktree

namespace zfs_rescue.blocktree

/-- What lookups one after the other give. -/
def BlockTree.getitems (self : BlockTree) : Cache → List Int → List (Py (Option BlockPtr))
  | _, [] => []
  | cache, item :: items => (self.getitem cache item).1 :: self.getitems (self.getitem cache item).2 items

theorem BlockTree.getitems_eq {self : BlockTree} {cache : Cache} (hcached : self.Cached cache) (items : List Int) :
    self.getitems cache items = items.map self.lookup := by
  induction items generalizing cache with
  | nil => rfl
  | cons item items ih =>
    obtain ⟨hresult, hcached'⟩ := BlockTree.getitem_spec hcached item
    rw [BlockTree.getitems, List.map_cons, hresult, ih hcached']

end zfs_rescue.blocktree

namespace zfs_rescue.objectset

/-- A lookup in an object set: of a block in its tree, or of an object, with the
    attribute layouts known by then. -/
inductive Lookup where
  | block (blockid : Int)
  | object (sa : Option SaLayouts) (dnode_id : Int)

inductive Answer where
  | pointer (result : Py (Option BlockPtr))
  | dnode (result : Py (Option DNode))

/-- One lookup, with the caches before and after. -/
def ObjectSet.answer (self : ObjectSet) (caches : Caches) : Lookup → Answer × Caches
  | .block blockid =>
    let found := self.blocktree.getitem caches.tree blockid
    (.pointer found.1, { caches with tree := found.2 })
  | .object sa dnode_id =>
    let found := self.get_dnode sa caches dnode_id
    (.dnode found.1, found.2)

/-- What lookups one after the other give. -/
def ObjectSet.answers (self : ObjectSet) : Caches → List Lookup → List Answer
  | _, [] => []
  | caches, l :: lookups => (self.answer caches l).1 :: self.answers (self.answer caches l).2 lookups

/-- The answer that the medium holds. -/
def ObjectSet.uncached (self : ObjectSet) : Lookup → Answer
  | .block blockid => .pointer (self.blocktree.lookup blockid)
  | .object sa dnode_id => .dnode (self.lookup sa dnode_id)

/-- An answer does not depend on the caches, and leaves them right. -/
theorem ObjectSet.answer_spec {self : ObjectSet} {caches : Caches} (hcached : self.Cached caches) (l : Lookup) :
    (self.answer caches l).1 = self.uncached l ∧ self.Cached (self.answer caches l).2 := by
  cases l with
  | block blockid =>
    obtain ⟨hresult, htree⟩ := BlockTree.getitem_spec hcached.tree blockid
    exact ⟨congrArg Answer.pointer hresult, htree, hcached.blocks⟩
  | object sa dnode_id =>
    obtain ⟨hresult, hcached'⟩ := ObjectSet.get_dnode_spec hcached sa dnode_id
    exact ⟨congrArg Answer.dnode hresult, hcached'⟩

theorem ObjectSet.answers_eq {self : ObjectSet} {caches : Caches} (hcached : self.Cached caches)
    (lookups : List Lookup) : self.answers caches lookups = lookups.map self.uncached := by
  induction lookups generalizing caches with
  | nil => rfl
  | cons l lookups ih =>
    obtain ⟨hresult, hcached'⟩ := ObjectSet.answer_spec hcached l
    rw [ObjectSet.answers, List.map_cons, hresult, ih hcached']

/-- Lookups in any order, also failed ones, give what each of them gives in a
    tree or an object set that has not been asked for anything. -/
theorem lookups_transparent :
    (∀ (tree : BlockTree) (items : List Int),
      tree.getitems [] items = items.map fun item => (tree.getitem [] item).1) ∧
    ∀ (os : ObjectSet) (lookups : List Lookup),
      os.answers {} lookups = lookups.map fun l => (os.answer {} l).1 := by
  constructor
  · intro tree items
    rw [BlockTree.getitems_eq tree.cached_nil]
    exact List.map_congr_left fun item _ => (BlockTree.getitem_spec tree.cached_nil item).1.symm
  · intro os lookups
    rw [ObjectSet.answers_eq os.cached_empty]
    exact List.map_congr_left fun l _ => (ObjectSet.answer_spec os.cached_empty l).1.symm

end zfs_rescue.objectset
