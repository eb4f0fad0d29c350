import ZfsRescue.Nvpair
import ZfsRescue.Uberblock

open bytes
open zfs_rescue.nvpair zfs_rescue.uberblock

namespace zfs_rescue.label

def K : Nat := 1 <<< 10

def Label.NVLIST_OFFSET : Nat := 16 * K
def Label.NVLIST_SIZE : Nat := (128 - 16) * K
def Label.UBARRAY_OFFSET : Nat := 128 * K
def Label.UBARRAY_SIZE : Nat := 128 * K

/-- A label that has been read: its name/value list and its uberblocks. -/
structure Label where
  nvlist : NVList
  ashift : Nat
  ubarray : List Uberblock

/-- Whether `'ashift' in s` for a string. -/
def str_contains (s sub : String) : Bool := s.toList.tails.any fun rest => sub.toList.isPrefixOf rest

def is_str (s : String) : Value → Bool
  | .str s' => s' == s
  | _ => false

/-- `v['ashift'] if 'ashift' in v else 9`. -/
def ashift_of : Value → Py Value
  | .nvlist items => .ok ((items.lookup "ashift").getD (.uint 9))
  | .str s => if str_contains s "ashift" then .error .TypeError else .ok (.uint 9)
  | .list vs => if vs.any (is_str "ashift") then .error .TypeError else .ok (.uint 9)
  | .uint _ | .data _ => .error .TypeError

/-- The sector shift of the label, nine where it names none. -/
def label_ashift (nvlist : NVList) : Py Value :=
  match nvlist.lookup "vdev_tree" with
  | none => .ok (.uint 9)
  | some vdev_tree => ashift_of vdev_tree

/-- A value that `max` compares with a number. -/
def number : Value → Py Nat
  | .uint n => .ok n
  | _ => .error .TypeError

/-- `read`, once the bytes of the label are there. -/
def Label.read (frames : Nat) (data : Bytes) : Py Label := do
  let nvlist ← NVPairParser.parse frames ((slice data Label.NVLIST_OFFSET Label.NVLIST_SIZE).drop 4)
  let v ← label_ashift nvlist
  let ashift ← number v
  let ubarray ← UBArray.parse (slice data Label.UBARRAY_OFFSET Label.UBARRAY_SIZE) ashift
  .ok { nvlist := nvlist, ashift := ashift, ubarray := ubarray }

/-- One round of the loop of `find_active_ub`: the number of the uberblock chosen
    so far, if any, and the transaction group to reach. -/
def active_step (ubarray : List Uberblock) (found : Option Nat × Nat) (i : Nat) : Option Nat × Nat :=
  match ubarray[i]? with
  | none => found
  | some ub => if ub.valid ∧ found.2 ≤ ub.txg then (some i, ub.txg) else found

/-- The loop of `find_active_ub`, from the transaction group of the label on. -/
def active_ub (ubarray : List Uberblock) (txg : Nat) : Option Uberblock :=
  ((List.range ubarray.length).foldl (active_step ubarray) (none, txg)).1.bind fun i => ubarray[i]?

def Label.find_active_ub (self : Label) : Py (Option Uberblock) :=
  match self.nvlist.lookup "txg" with
  | none => .error .KeyError
  | some (.uint txg) => .ok (active_ub self.ubarray txg)
  | some _ => if self.ubarray.any Uberblock.valid then .error .TypeError else .ok none

def Label.find_ub_txg (self : Label) (txg : Nat) : Option Uberblock := UBArray.find_block_by_txg self.ubarray txg

/-- An uberblock that may become the active one. -/
def Candidate (txg : Nat) (ub : Uberblock) : Prop := ub.valid = true ∧ txg ≤ ub.txg

/-- What the loop has found after the blocks seen so far. -/
def Newest (txg : Nat) (ubarray seen : List Uberblock) (found : Option Nat × Nat) : Prop :=
  (found = (none, txg) ∧ ∀ ub ∈ seen, ¬ Candidate txg ub) ∨
    ∃ i ub, found = (some i, ub.txg) ∧ ubarray[i]? = some ub ∧ Candidate txg ub ∧
      ∀ other ∈ seen, other.valid = true → other.txg ≤ ub.txg

theorem active_step_newest {txg : Nat} {ubarray : List Uberblock} {found : Option Nat × Nat} {i : Nat} {ub : Uberblock}
    (hub : ubarray[i]? = some ub) (h : Newest txg ubarray (ubarray.take i) found) :
    Newest txg ubarray (ubarray.take (i + 1)) (active_step ubarray found i) := by
  have hseen : ubarray.take (i + 1) = ubarray.take i ++ [ub] := by
    rw [List.take_add_one, hub]
    rfl
  rw [active_step, hub, hseen]
  simp only [Newest, List.forall_mem_append, List.forall_mem_singleton]
  by_cases hnew : ub.valid = true ∧ found.2 ≤ ub.txg
  · rw [if_pos hnew]
    rcases h with ⟨rfl, hnone⟩ | ⟨j, best, rfl, hj, hbest, hmax⟩
    · refine .inr ⟨i, ub, rfl, hub, hnew, fun other hother hvalid => ?_, fun _ => Nat.le_refl _⟩
      have hold := hnone other hother
      rw [Candidate, not_and, Nat.not_le] at hold
      exact Nat.le_of_lt ((hold hvalid).trans_le hnew.2)
    · refine .inr ⟨i, ub, rfl, hub, ⟨hnew.1, hbest.2.trans hnew.2⟩, fun other hother hvalid => ?_,
        fun _ => Nat.le_refl _⟩
      exact (hmax other hother hvalid).trans hnew.2
  · rw [if_neg hnew]
    rcases h with ⟨rfl, hnone⟩ | ⟨j, best, rfl, hj, hbest, hmax⟩
    · exact .inl ⟨rfl, hnone, hnew⟩
    · refine .inr ⟨j, best, rfl, hj, hbest, hmax, fun hvalid => ?_⟩
      by_contra hgt
      exact hnew ⟨hvalid, by simp only; omega⟩

theorem foldl_active_step_newest (txg : Nat) (ubarray : List Uberblock) {n : Nat} (hn : n ≤ ubarray.length) :
    Newest txg ubarray (ubarray.take n) ((List.range n).foldl (active_step ubarray) (none, txg)) := by
  induction n with
  | zero => exact .inl ⟨rfl, by simp⟩
  | succ n ih =>
    rw [List.range_succ, List.foldl_append, List.foldl_cons, List.foldl_nil]
    exact active_step_newest (List.getElem?_eq_getElem hn) (ih (by omega))

/-- The active uberblock is a newest one of those that are not older than the
    label; there is none only when there is no such uberblock. -/
theorem active_ub_spec (ubarray : List Uberblock) (txg : Nat) :
    (active_ub ubarray txg = none ↔ ∀ ub ∈ ubarray, ¬ Candidate txg ub) ∧
      ∀ ub, active_ub ubarray txg = some ub →
        ub ∈ ubarray ∧ Candidate txg ub ∧ ∀ other ∈ ubarray, other.valid = true → other.txg ≤ ub.txg := by
  have hrun := foldl_active_step_newest txg ubarray (Nat.le_refl _)
  rw [List.take_length] at hrun
  rw [active_ub]
  rcases hrun with ⟨heq, hnone⟩ | ⟨i, best, heq, hbest, hcandidate, hmax⟩
  · rw [heq]
    refine ⟨⟨fun _ => hnone, fun _ => rfl⟩, fun ub h => ?_⟩
    cases h
  · have hfound : ((some i : Option Nat).bind fun i => ubarray[i]?) = some best := hbest
    rw [heq, hfound]
    have hmem := List.mem_of_getElem? hbest
    refine ⟨⟨fun h => ?_, fun h => absurd hcandidate (h best hmem)⟩, fun ub h => ?_⟩
    · cases h
    · cases h
      exact ⟨hmem, hcandidate, hmax⟩

end zfs_rescue.label
