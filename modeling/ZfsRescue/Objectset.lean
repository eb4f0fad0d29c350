import ZfsRescue.Blocktree

open bytes
open zfs_rescue.blockptr zfs_rescue.zio zfs_rescue.dnode zfs_rescue.blocktree

namespace zfs_rescue.objectset

/-- An object set whose own dnode was loaded. -/
structure ObjectSet where
  vdev : GenericDevice
  dnode : DNode
  dnodes_per_block : Nat
  blocktree : BlockTree

/-- What an object set remembers: the pointer arrays of its tree, and the data
    of the dnode blocks looked up, also where there was none. -/
structure Caches where
  tree : Cache := []
  blocks : List (Int × Option Bytes) := []

/-- The constructor. A broken object set is `none`. -/
def ObjectSet.init (vdev : GenericDevice) (os_bptr : BlockPtr) (dvas : List Nat) : Py (Option ObjectSet) := do
  let dnode ← DNode.from_bptr vdev os_bptr dvas none
  match dnode with
  | none => .ok none
  | some dn =>
    match dn.datablksize with
    | none => .error .TypeError
    | some datablksize => do
      let tree ← block_tree vdev dn
      .ok (some { vdev := vdev, dnode := dn, dnodes_per_block := datablksize / 512, blocktree := tree })

/-- The stop test of the dnode block load, which leaves the checksum out. -/
def data_only (r : Option Bytes × Bool) : Bool := truthy r.1

/-- The load of a dnode block, through the pointer that the tree gave. -/
def load_dnode_block (vdev : GenericDevice) : Option BlockPtr → Py (Option Bytes)
  | none => .ok none
  | some bp => do
    let found ← read_copies vdev data_only bp [0, 1, 2]
    .ok (copies_data found)

def ObjectSet.get_block (self : ObjectSet) (caches : Caches) (blockid : Int) : Py (Option Bytes) × Caches :=
  match caches.blocks.lookup blockid with
  | some data => (.ok data, caches)
  | none =>
    match self.blocktree.getitem caches.tree blockid with
    | (.error e, tree) => (.error e, { caches with tree := tree })
    | (.ok bp, tree) =>
      match load_dnode_block self.vdev bp with
      | .error e => (.error e, { caches with tree := tree })
      | .ok data => (.ok data, { tree := tree, blocks := (blockid, data) :: caches.blocks })

/-- The dnode in slot `dnid` of a block, with the attribute layouts known by now. -/
def dnode_at (sa : Option SaLayouts) (dnid : Nat) (data : Option Bytes) : Py (Option DNode) :=
  DNode.from_data sa (data.map fun block => slice block (dnid * 512) 512)

/-- `objset[dnode_id]`, with the caches before and after. -/
def ObjectSet.get_dnode (self : ObjectSet) (sa : Option SaLayouts) (caches : Caches) (dnode_id : Int) :
    Py (Option DNode) × Caches :=
  if self.dnodes_per_block = 0 then (.error .ZeroDivisionError, caches)
  else
    match self.get_block caches (dnode_id / self.dnodes_per_block) with
    | (.error e, caches) => (.error e, caches)
    | (.ok data, caches) => (dnode_at sa (dnode_id % self.dnodes_per_block).toNat data, caches)

/-- The caches after some lookups, whatever came of them. -/
def ObjectSet.after (self : ObjectSet) (sa : Option SaLayouts) (items : List Int) : Caches :=
  items.foldl (fun caches item => (self.get_dnode sa caches item).2) {}

/-- A dnode block, read from the medium. -/
def ObjectSet.fetch_block (self : ObjectSet) (blockid : Int) : Py (Option Bytes) := do
  let bp ← self.blocktree.lookup blockid
  load_dnode_block self.vdev bp

/-- A lookup without caches. -/
def ObjectSet.lookup (self : ObjectSet) (sa : Option SaLayouts) (dnode_id : Int) : Py (Option DNode) :=
  if self.dnodes_per_block = 0 then .error .ZeroDivisionError
  else do
    let data ← self.fetch_block (dnode_id / self.dnodes_per_block)
    dnode_at sa (dnode_id % self.dnodes_per_block).toNat data

/-- The tree's cache is right, and every remembered block is what the medium
    holds. -/
structure ObjectSet.Cached (os : ObjectSet) (caches : Caches) : Prop where
  tree : os.blocktree.Cached caches.tree
  blocks : ∀ blockid data, caches.blocks.lookup blockid = some data → os.fetch_block blockid = .ok data

theorem ObjectSet.cached_empty (self : ObjectSet) : self.Cached {} where
  tree := self.blocktree.cached_nil
  blocks _ _ h := by cases h

theorem ObjectSet.get_block_spec {self : ObjectSet} {caches : Caches} (hcached : self.Cached caches) (blockid : Int) :
    (self.get_block caches blockid).1 = self.fetch_block blockid ∧
      self.Cached (self.get_block caches blockid).2 := by
  rw [ObjectSet.get_block]
  cases hlookup : caches.blocks.lookup blockid with
  | some data => exact ⟨(hcached.blocks blockid data hlookup).symm, hcached⟩
  | none =>
    obtain ⟨hresult, htree⟩ := BlockTree.getitem_spec hcached.tree blockid
    simp only
    generalize self.blocktree.getitem caches.tree blockid = found at hresult htree
    obtain ⟨bp, tree⟩ := found
    simp only at hresult htree
    cases bp with
    | error e =>
      rw [ObjectSet.fetch_block, ← hresult]
      exact ⟨rfl, { hcached with tree := htree }⟩
    | ok bp =>
      have hfetch : self.fetch_block blockid = load_dnode_block self.vdev bp := by
        rw [ObjectSet.fetch_block, ← hresult, bind_ok]
      simp only [hfetch]
      cases hload : load_dnode_block self.vdev bp with
      | error e => exact ⟨rfl, { hcached with tree := htree }⟩
      | ok data =>
        refine ⟨rfl, htree, fun other other_data hother => ?_⟩
        simp only [List.lookup_cons] at hother
        split at hother
        · rename_i heq
          rw [beq_iff_eq] at heq
          cases hother
          rw [heq, hfetch, hload]
        · exact hcached.blocks other other_data hother

theorem ObjectSet.get_dnode_spec {self : ObjectSet} {caches : Caches} (hcached : self.Cached caches)
    (sa : Option SaLayouts) (dnode_id : Int) :
    (self.get_dnode sa caches dnode_id).1 = self.lookup sa dnode_id ∧
      self.Cached (self.get_dnode sa caches dnode_id).2 := by
  rw [ObjectSet.get_dnode, ObjectSet.lookup]
  split
  · exact ⟨rfl, hcached⟩
  · obtain ⟨hresult, hcached'⟩ := ObjectSet.get_block_spec hcached (dnode_id / self.dnodes_per_block)
    rw [← hresult]
    generalize self.get_block caches (dnode_id / self.dnodes_per_block) = found at hcached'
    obtain ⟨data, caches'⟩ := found
    cases data with
    | error e => exact ⟨rfl, hcached'⟩
    | ok data => exact ⟨rfl, hcached'⟩

theorem ObjectSet.cached_after (self : ObjectSet) (sa : Option SaLayouts) (items : List Int) :
    self.Cached (self.after sa items) := by
  have hrun : ∀ caches, self.Cached caches →
      self.Cached (items.foldl (fun caches item => (self.get_dnode sa caches item).2) caches) := by
    induction items with
    | nil => exact fun caches h => h
    | cons item items ih => exact fun caches h => ih _ (ObjectSet.get_dnode_spec h sa item).2
  exact hrun {} self.cached_empty

/-- The caches are transparent: a lookup after any others is a lookup on the
    medium. -/
theorem ObjectSet.get_dnode_after (self : ObjectSet) (sa : Option SaLayouts) (items : List Int) (dnode_id : Int) :
    (self.get_dnode sa (self.after sa items) dnode_id).1 = self.lookup sa dnode_id :=
  (ObjectSet.get_dnode_spec (self.cached_after sa items) sa dnode_id).1

end zfs_rescue.objectset
