import ZfsRescue.Dnode
import ZfsRescue.Radix

open bytes
open zfs_rescue.blockptr zfs_rescue.zio zfs_rescue.dnode

namespace zfs_rescue.blocktree

/-- What a tree starts from: the one block pointer of a tree of one level, or
    the pointers in the block that the root pointer leads to. -/
inductive Root where
  | pointer (bptr : BlockPtr)
  | array (bpa : List BlockPtr)
  deriving DecidableEq, Repr

/-- A block tree without its cache. -/
structure BlockTree where
  levels : Nat
  vdev : GenericDevice
  root : Root

/-- The cached pointer arrays, by the indices that lead to them. An entry whose
    block could not be read is never found, as in the source. -/
abbrev Cache := List (List Nat × List BlockPtr)

def load_from_bptr (vdev : GenericDevice) (bptr : BlockPtr) : Py (Option (List BlockPtr)) := do
  let found ← read_copies vdev data_and_c bptr [0, 1, 2]
  .ok ((copies_data found).map BlockPtrArray)

/-- The load of an indirect block inside a lookup. -/
def load_indirect (vdev : GenericDevice) (b : BlockPtr) : Py (Option (List BlockPtr)) := do
  let found ← read_copies vdev data_and_c b [0, 1, 2]
  .ok ((copies_data found).map BlockPtrArray)

/-- The constructor: the length of a root that was not loaded is a `TypeError`. -/
def BlockTree.init (levels : Nat) (vdev : GenericDevice) (root_bptr : BlockPtr) : Py BlockTree :=
  if levels = 1 then .ok { levels := levels, vdev := vdev, root := .pointer root_bptr }
  else do
    let root ← load_from_bptr vdev root_bptr
    match root with
    | none => .error .TypeError
    | some bpa => .ok { levels := levels, vdev := vdev, root := .array bpa }

/-- The tree that object sets, file objects and the extraction of a file build
    for a dnode. -/
def block_tree (vdev : GenericDevice) (dn : DNode) : Py BlockTree := do
  let root_bptr ← dn.blkptrs 0
  BlockTree.init dn.nlevels vdev root_bptr

def get_level_indices (levels blocks_per_level blockid : Nat) : Py (List Nat) :=
  if levels - 1 ≠ 0 ∧ blocks_per_level = 0 then .error .ZeroDivisionError
  else .ok (radix.digits blocks_per_level (levels - 1) blockid)

/-- The array below index `i` of an array, read from the medium. -/
def load_at (vdev : GenericDevice) (bpa : List BlockPtr) (i : Nat) : Py (Option (List BlockPtr)) := do
  let b ← index bpa i
  load_indirect vdev b

/-- One turn of the descent: the array below index `i`, from the cache or from
    the block that the pointer leads to. -/
def descend_step (vdev : GenericDevice) (cache : Cache) (path : List Nat) (bpa : List BlockPtr) (i : Nat) :
    Py (Option (List BlockPtr)) × Cache :=
  match cache.lookup (path ++ [i]) with
  | some next_bpa => (.ok (some next_bpa), cache)
  | none =>
    match load_at vdev bpa i with
    | .ok (some next_bpa) => (.ok (some next_bpa), (path ++ [i], next_bpa) :: cache)
    | .ok none => (.ok none, cache)
    | .error e => (.error e, cache)

/-- The descent along all indices but the last, and the pointer at the last. -/
def descend (vdev : GenericDevice) (cache : Cache) (path : List Nat) (bpa : List BlockPtr) :
    List Nat → Py (Option BlockPtr) × Cache
  | [] => (.error .IndexError, cache)
  | [i] =>
    match index bpa i with
    | .ok b => (.ok (some b), cache)
    | .error e => (.error e, cache)
  | i :: rest =>
    match descend_step vdev cache path bpa i with
    | (.error e, cache) => (.error e, cache)
    | (.ok none, cache) => (.ok none, cache)
    | (.ok (some next_bpa), cache) => descend vdev cache (path ++ [i]) next_bpa rest

/-- `tree[item]`, with the cache before and after. -/
def BlockTree.getitem (self : BlockTree) (cache : Cache) (item : Int) : Py (Option BlockPtr) × Cache :=
  if item < 0 then (.ok none, cache)
  else
    match self.root with
    | .pointer b => (.ok (if item = 0 then some b else none), cache)
    | .array bpa =>
      match get_level_indices self.levels bpa.length item.toNat with
      | .error e => (.error e, cache)
      | .ok indices => descend self.vdev cache [] bpa indices

/-- The cache after some lookups, whatever came of them. -/
def BlockTree.after (self : BlockTree) (items : List Int) : Cache :=
  items.foldl (fun cache item => (self.getitem cache item).2) []

/-- The pointer that a path of indices leads to, read from the medium. -/
def follow (vdev : GenericDevice) (bpa : List BlockPtr) : List Nat → Py (Option BlockPtr)
  | [] => .error .IndexError
  | [i] => do
    let b ← index bpa i
    .ok (some b)
  | i :: rest => do
    let next ← load_at vdev bpa i
    match next with
    | none => .ok none
    | some next_bpa => follow vdev next_bpa rest

/-- A lookup without a cache. -/
def BlockTree.lookup (self : BlockTree) (item : Int) : Py (Option BlockPtr) :=
  if item < 0 then .ok none
  else
    match self.root with
    | .pointer b => .ok (if item = 0 then some b else none)
    | .array bpa => do
      let indices ← get_level_indices self.levels bpa.length item.toNat
      follow self.vdev bpa indices

/-- The array that a path of indices leads to, read from the medium. -/
def reach (vdev : GenericDevice) (bpa : List BlockPtr) : List Nat → Py (Option (List BlockPtr))
  | [] => .ok (some bpa)
  | i :: rest => do
    let next ← load_at vdev bpa i
    match next with
    | none => .ok none
    | some next_bpa => reach vdev next_bpa rest

/-- Every cached array is the one that its path leads to. -/
def Cached (vdev : GenericDevice) (root : List BlockPtr) (cache : Cache) : Prop :=
  ∀ path bpa, cache.lookup path = some bpa → reach vdev root path = .ok (some bpa)

/-- Nothing is loaded through an empty pointer. -/
theorem load_indirect_of_empty {vdev : GenericDevice} {b : BlockPtr} (hempty : b.empty = true) :
    load_indirect vdev b = .ok none := by
  have hread : ∀ dva, vdev.read_block b dva = .ok (none, false) := fun dva => vdev.read_block_of_empty dva hempty
  have hsearch : read_copies vdev data_and_c b [0, 1, 2] = .ok (some (2, none, false)) := by
    refine fallback.search_eq_ok_some_iff.mpr ⟨[0, 1], [], rfl, ?_, hread 2, .inr rfl⟩
    exact fun j _ => ⟨_, hread j, rfl⟩
  rw [load_indirect, hsearch, bind_ok]
  rfl

theorem reach_append {vdev : GenericDevice} {root bpa : List BlockPtr} {path : List Nat}
    (h : reach vdev root path = .ok (some bpa)) (i : Nat) :
    reach vdev root (path ++ [i]) = load_at vdev bpa i := by
  induction path generalizing root with
  | nil =>
    rw [reach] at h
    cases h
    rw [List.nil_append, reach]
    cases load_at vdev bpa i with
    | error e => rfl
    | ok next => cases next <;> rfl
  | cons j rest ih =>
    rw [reach] at h
    rw [List.cons_append, reach]
    cases hload : load_at vdev root j with
    | error e => rw [hload] at h; cases h
    | ok next =>
      rw [hload, bind_ok] at h
      rw [bind_ok]
      cases next with
      | none => cases h
      | some next_bpa => exact ih h

/-- A turn of the descent does not depend on the cache, and keeps it right. -/
theorem descend_step_spec {vdev : GenericDevice} {root bpa : List BlockPtr} {cache : Cache} {path : List Nat}
    (hcached : Cached vdev root cache) (hpath : reach vdev root path = .ok (some bpa)) (i : Nat) :
    (descend_step vdev cache path bpa i).1 = load_at vdev bpa i ∧
      Cached vdev root (descend_step vdev cache path bpa i).2 := by
  rw [descend_step]
  cases hlookup : cache.lookup (path ++ [i]) with
  | some next_bpa =>
    refine ⟨?_, hcached⟩
    rw [← reach_append hpath i]
    exact (hcached _ _ hlookup).symm
  | none =>
    simp only
    have happend := reach_append hpath i
    split
    · rename_i next_bpa hload
      refine ⟨hload.symm, ?_⟩
      intro other other_bpa hother
      rw [List.lookup_cons] at hother
      split at hother
      · rename_i heq
        rw [beq_iff_eq] at heq
        cases hother
        rw [heq, happend, hload]
      · exact hcached _ _ hother
    · rename_i hload
      exact ⟨hload.symm, hcached⟩
    · rename_i e hload
      exact ⟨hload.symm, hcached⟩

theorem descend_spec {vdev : GenericDevice} {root bpa : List BlockPtr} {cache : Cache} {path : List Nat}
    (hcached : Cached vdev root cache) (hpath : reach vdev root path = .ok (some bpa)) (indices : List Nat) :
    (descend vdev cache path bpa indices).1 = follow vdev bpa indices ∧
      Cached vdev root (descend vdev cache path bpa indices).2 := by
  induction indices generalizing cache path bpa with
  | nil => exact ⟨rfl, hcached⟩
  | cons i rest ih =>
    cases rest with
    | nil =>
      rw [descend, follow]
      cases index bpa i with
      | error e => exact ⟨rfl, hcached⟩
      | ok b => exact ⟨rfl, hcached⟩
    | cons j rest =>
      obtain ⟨hstep, hcached'⟩ := descend_step_spec hcached hpath i
      have happend := reach_append hpath i
      rw [descend, follow]
      · generalize descend_step vdev cache path bpa i = step at hstep hcached'
        obtain ⟨result, cache'⟩ := step
        simp only at hstep hcached'
        subst hstep
        cases hload : load_at vdev bpa i with
        | error e => exact ⟨rfl, hcached'⟩
        | ok next =>
          cases next with
          | none => exact ⟨rfl, hcached'⟩
          | some next_bpa =>
            rw [hload] at happend
            exact ih hcached' happend
      · simp
      · simp

/-- The cache of a tree is right. A tree of one level never uses it. -/
def BlockTree.Cached (self : BlockTree) (cache : Cache) : Prop :=
  ∀ bpa, self.root = .array bpa → blocktree.Cached self.vdev bpa cache

/-- A lookup gives what the medium holds, whatever is in the cache, and keeps
    the cache right. -/
theorem BlockTree.getitem_spec {self : BlockTree} {cache : Cache} (hcached : self.Cached cache) (item : Int) :
    (self.getitem cache item).1 = self.lookup item ∧ self.Cached (self.getitem cache item).2 := by
  rw [BlockTree.getitem, BlockTree.lookup]
  by_cases hneg : item < 0
  · rw [if_pos hneg, if_pos hneg]
    exact ⟨rfl, hcached⟩
  · rw [if_neg hneg, if_neg hneg]
    cases hroot : self.root with
    | pointer b => exact ⟨rfl, hcached⟩
    | array bpa =>
      simp only
      cases get_level_indices self.levels bpa.length item.toNat with
      | error e => exact ⟨rfl, hcached⟩
      | ok indices =>
        have hstart : reach self.vdev bpa [] = .ok (some bpa) := rfl
        obtain ⟨hresult, hcached'⟩ := descend_spec (hcached bpa hroot) hstart indices
        refine ⟨hresult, fun other hother => ?_⟩
        rw [hroot] at hother
        cases hother
        exact hcached'

theorem BlockTree.cached_nil (self : BlockTree) : self.Cached [] :=
  fun _ _ _ _ h => by cases h

theorem BlockTree.cached_after (self : BlockTree) (items : List Int) : self.Cached (self.after items) := by
  have hrun : ∀ cache, self.Cached cache →
      self.Cached (items.foldl (fun cache item => (self.getitem cache item).2) cache) := by
    induction items with
    | nil => exact fun cache h => h
    | cons item items ih => exact fun cache h => ih _ (BlockTree.getitem_spec h item).2
  exact hrun [] self.cached_nil

/-- The cache is transparent: a lookup after any others is a lookup on the
    medium. -/
theorem BlockTree.getitem_after (self : BlockTree) (items : List Int) (item : Int) :
    (self.getitem (self.after items) item).1 = self.lookup item :=
  (BlockTree.getitem_spec (self.cached_after items) item).1

end zfs_rescue.blocktree
