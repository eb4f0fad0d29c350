import ZfsRescue.Objectset
import ZfsRescue.Zap

open bytes
open zfs_rescue.blockptr zfs_rescue.zio zfs_rescue.dnode zfs_rescue.blocktree zfs_rescue.objectset zfs_rescue.zap

namespace zfs_rescue.copies

/-- The places that load metadata through a block pointer. -/
inductive Loader where
  | from_bptr (dvas : List Nat)
  | load_from_bptr
  | load_indirect
  | load_dnode_block
  | zap_block
  | indirect_data
  deriving DecidableEq, Repr

/-- The copies a loader tries, in order. -/
def Loader.dvas : Loader → List Nat
  | .from_bptr dvas => dvas
  | .load_from_bptr | .load_indirect | .load_dnode_block => [0, 1, 2]
  | .zap_block | .indirect_data => [0]

/-- What makes a loader try no further copy. -/
def Loader.stop : Loader → Option Bytes × Bool → Bool
  | .from_bptr _ | .load_from_bptr | .load_indirect => data_and_c
  | .load_dnode_block => data_only
  | .zap_block | .indirect_data => fun _ => true

/-- The copy a loader ends on, and what reading it gave. -/
def Loader.load (self : Loader) (vdev : GenericDevice) (bptr : BlockPtr) : Py (Option (Nat × Option Bytes × Bool)) :=
  read_copies vdev self.stop bptr self.dvas

section Loaders

variable (vdev : GenericDevice) (bptr : BlockPtr)

theorem from_bptr_eq (dvas : List Nat) (sa : Option SaLayouts) :
    DNode.from_bptr vdev bptr dvas sa =
      ((Loader.from_bptr dvas).load vdev bptr >>= fun found => DNode.from_data sa (copies_data found)) :=
  rfl

theorem load_from_bptr_eq :
    blocktree.load_from_bptr vdev bptr =
      (Loader.load_from_bptr.load vdev bptr >>= fun found => .ok ((copies_data found).map BlockPtrArray)) :=
  rfl

theorem load_indirect_eq :
    blocktree.load_indirect vdev bptr =
      (Loader.load_indirect.load vdev bptr >>= fun found => .ok ((copies_data found).map BlockPtrArray)) :=
  rfl

theorem load_dnode_block_eq :
    objectset.load_dnode_block vdev (some bptr) =
      (Loader.load_dnode_block.load vdev bptr >>= fun found => .ok (copies_data found)) :=
  rfl

/-- A search of one copy is a read of it. -/
theorem read_copies_one (stop : Option Bytes × Bool → Bool) (dva : Nat) :
    read_copies vdev stop bptr [dva] = (vdev.read_block bptr dva >>= fun r => .ok (some (dva, r))) := by
  rw [read_copies, fallback.search, fallback.searchFrom]
  cases vdev.read_block bptr dva with
  | error e => rfl
  | ok r => simp [fallback.searchFrom]

theorem zap_block_eq :
    zap.zap_block vdev bptr =
      (Loader.zap_block.load vdev bptr >>= fun found =>
        .ok (if found.any fun f => f.2.2 then (copies_data found).getD [] else [])) := by
  rw [Loader.load, Loader.dvas, read_copies_one, zap.zap_block]
  cases vdev.read_block bptr 0 <;> rfl

theorem indirect_data_eq (nblocks : Nat) :
    zap.indirect_data vdev bptr nblocks =
      (Loader.indirect_data.load vdev bptr >>= fun found => indirect_blocks vdev nblocks (copies_data found)) := by
  rw [Loader.load, Loader.dvas, read_copies_one, zap.indirect_data]
  cases vdev.read_block bptr 0 <;> rfl

end Loaders

/-- An allocated copy that can be read and matches its checksum. -/
def Intact (vdev : GenericDevice) (bptr : BlockPtr) (dva : Nat) : Prop :=
  dva < 3 ∧ (bptr.get_dva dva).null = false ∧ ∃ data, vdev.read_block bptr dva = .ok (some data, true)

/-- A loader goes on with the data of an intact copy. -/
def Loader.UsesIntact (self : Loader) (vdev : GenericDevice) (bptr : BlockPtr) : Prop :=
  ∃ dva r, self.load vdev bptr = .ok (some (dva, r)) ∧ Intact vdev bptr dva

/-- A copy that is read but does not keep a loader from the next one. -/
def Loader.PassesOver (self : Loader) (vdev : GenericDevice) (bptr : BlockPtr) (dva : Nat) : Prop :=
  fallback.PassedOver (vdev.read_block bptr) self.stop dva

/-- A pointer on the medium with an allocated copy is not an embedded one, and
    stands for at least one sector of data. -/
theorem lsize_of_allocated {raw : Bytes} {dva : Nat} (h : ((BlockPtr.of_bytes raw).get_dva dva).null = false) :
    0 < logical_size (BlockPtr.of_bytes raw) := by
  rw [BlockPtr.of_bytes] at h ⊢
  split at h
  · exfalso
    have hnull : ((BlockPtr.parse_plain raw).parse_embeded raw).get_dva dva = DVA.init 0 0 := by
      unfold BlockPtr.get_dva
      split <;> rfl
    rw [hnull] at h
    cases h
  · rename_i hplain
    rw [if_neg hplain, logical_size, if_neg hplain]
    simp only [BlockPtr.parse_plain, Nat.shiftLeft_eq]
    omega

theorem Intact.stops {vdev : GenericDevice} {raw : Bytes} {dva : Nat}
    (h : Intact vdev (BlockPtr.of_bytes raw) dva) (self : Loader) :
    ∃ r, vdev.read_block (BlockPtr.of_bytes raw) dva = .ok r ∧ self.stop r = true := by
  obtain ⟨-, hnull, data, hread⟩ := h
  have hne : data ≠ [] := by
    intro hnil
    have hlength := GenericDevice.length_of_read_block hread
    have hpos := lsize_of_allocated hnull
    rw [hnil, List.length_nil] at hlength
    omega
  have htruthy : truthy (some data) = true := truthy_iff.mpr ⟨data, rfl, hne⟩
  refine ⟨_, hread, ?_⟩
  cases self with
  | from_bptr dvas | load_from_bptr | load_indirect => exact data_and_c_iff.mpr ⟨data, rfl, hne⟩
  | load_dnode_block => exact htruthy
  | zap_block | indirect_data => rfl

/-- A loader uses an intact copy, where there is one, exactly when it tries an
    intact one and passes over all it tries before. -/
theorem Loader.usesIntact_iff (self : Loader) (vdev : GenericDevice) (raw : Bytes) :
    ((∃ dva, Intact vdev (BlockPtr.of_bytes raw) dva) → self.UsesIntact vdev (BlockPtr.of_bytes raw)) ↔
      ((∃ dva, Intact vdev (BlockPtr.of_bytes raw) dva) →
        ∃ before dva after, self.dvas = before ++ dva :: after ∧ Intact vdev (BlockPtr.of_bytes raw) dva ∧
          ∀ other ∈ before, self.PassesOver vdev (BlockPtr.of_bytes raw) other) :=
  imp_congr_right fun _ => fallback.search_good_iff fun _ h => h.stops self

/-- A damaged first copy hides the intact second one from the load of a dnode
    block, which goes on with the damaged data. -/
theorem not_usesIntact_damaged_copy :
    Intact sector_device (sector_pointer 1) 1 ∧
      objectset.load_dnode_block sector_device (some (sector_pointer 1)) = .ok (some (List.replicate (128 * 4) 1)) ∧
      ¬ Loader.load_dnode_block.UsesIntact sector_device (sector_pointer 1) := by
  have hfirst : sector_device.read_block (sector_pointer 1) 0 = .ok (some (List.replicate (128 * 4) 1), false) :=
    by decide +kernel
  have hsecond : sector_device.read_block (sector_pointer 1) 1 = .ok (some (List.replicate (128 * 4) 0), true) :=
    by decide +kernel
  have hne : List.replicate (128 * 4) (1 : UInt8) ≠ [] :=
    List.ne_nil_of_length_pos (by rw [List.length_replicate]; omega)
  have hload : Loader.load_dnode_block.load sector_device (sector_pointer 1) =
      .ok (some (0, some (List.replicate (128 * 4) 1), false)) :=
    read_copies_first hfirst (truthy_iff.mpr ⟨_, rfl, hne⟩)
  refine ⟨⟨by omega, by decide, _, hsecond⟩, ?_, ?_⟩
  · rw [load_dnode_block_eq, hload, bind_ok]
    rfl
  · rintro ⟨dva, r, h, -, -, data, hdata⟩
    rw [hload] at h
    cases h
    rw [hfirst] at hdata
    cases hdata

/-- An allocated copy, or no data at all. -/
def NoNullData (bptr : BlockPtr) (dva : Nat) (r : Option Bytes × Bool) : Prop :=
  r.1 = none ∨ (bptr.get_dva dva).null = false

/-- A loader ends with data read at an allocated address, or without data. -/
def Loader.EndsAllocated (self : Loader) (vdev : GenericDevice) (bptr : BlockPtr) : Prop :=
  ∃ found, self.load vdev bptr = .ok found ∧ ∀ dva r, found = some (dva, r) → NoNullData bptr dva r

/-- A loader ends so exactly when every copy it comes to can be read, and no
    unallocated one stops it with data or is the last with data. -/
theorem Loader.endsAllocated_iff (self : Loader) (vdev : GenericDevice) (bptr : BlockPtr) :
    self.EndsAllocated vdev bptr ↔
      ∀ before dva after, self.dvas = before ++ dva :: after →
        (∀ other ∈ before, self.PassesOver vdev bptr other) →
        ∃ r, vdev.read_block bptr dva = .ok r ∧
          ((bptr.get_dva dva).null = true → self.stop r = true ∨ after = [] → r.1 = none) := by
  rw [Loader.EndsAllocated, Loader.load, read_copies, fallback.search_ends_iff]
  have hiff : ∀ dva r, (((bptr.get_dva dva).null = true → r.1 = none) ↔ NoNullData bptr dva r) := by
    intro dva r
    rw [NoNullData]
    cases (bptr.get_dva dva).null <;> simp
  constructor
  · intro h before dva after hsplit hpassed
    obtain ⟨r, hread, hend⟩ := h before dva after hsplit hpassed
    exact ⟨r, hread, fun hnull hstop => (hiff dva r).mpr (hend hstop) hnull⟩
  · intro h before dva after hsplit hpassed
    obtain ⟨r, hread, hend⟩ := h before dva after hsplit hpassed
    exact ⟨r, hread, fun hstop => (hiff dva r).mp fun hnull => hend hnull hstop⟩

/-- Behind a damaged only copy the root of a block tree is taken from the first
    sector of the device. -/
theorem not_endsAllocated_label :
    blocktree.load_from_bptr sector_device (sector_pointer 0) =
        .ok (some (BlockPtrArray (List.replicate (128 * 4) 2))) ∧
      ¬ Loader.load_from_bptr.EndsAllocated sector_device (sector_pointer 0) := by
  have hfirst : sector_device.read_block (sector_pointer 0) 0 = .ok (some (List.replicate (128 * 4) 1), false) :=
    by decide +kernel
  have hnull : ∀ dva, dva = 1 ∨ dva = 2 →
      sector_device.read_block (sector_pointer 0) dva = .ok (some (List.replicate (128 * 4) 2), false) := by
    rintro dva (rfl | rfl) <;> decide +kernel
  have hload : Loader.load_from_bptr.load sector_device (sector_pointer 0) =
      .ok (some (2, some (List.replicate (128 * 4) 2), false)) := by
    refine fallback.search_eq_ok_some_iff.mpr ⟨[0, 1], [], rfl, ?_, hnull 2 (.inr rfl), .inr rfl⟩
    intro dva hdva
    rcases List.mem_cons.mp hdva with rfl | hdva
    · exact ⟨_, hfirst, data_and_c_false _⟩
    · exact ⟨_, hnull dva (.inl (List.mem_singleton.mp hdva)), data_and_c_false _⟩
  refine ⟨?_, ?_⟩
  · rw [load_from_bptr_eq, hload, bind_ok]
    rfl
  · rintro ⟨found, h, hgood⟩
    rw [hload] at h
    cases h
    rcases hgood 2 _ rfl with hnone | hallocated
    · cases hnone
    · exact absurd hallocated (by decide)

end zfs_rescue.copies
