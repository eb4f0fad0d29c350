import ZfsRescue.Objectset
import ZfsRescue.Zio.Unreadable

open bytes
open zfs_rescue.blockptr zfs_rescue.zio zfs_rescue.dnode zfs_rescue.blocktree

namespace zfs_rescue.objectset

/-- What the medium has for a block: the data of the first copy that has some and
    matches its checksum, or else of the last. No copy up to there raises an
    exception. -/
def Answers (vdev : GenericDevice) (b : BlockPtr) (data : Option Bytes) : Prop :=
  ∃ before dva after c, [0, 1, 2] = before ++ dva :: after ∧
    (∀ other ∈ before, fallback.PassedOver (vdev.read_block b) data_and_c other) ∧
    vdev.read_block b dva = .ok (data, c) ∧ (data_and_c (data, c) = true ∨ after = [])

/-- The medium has no data for a block. -/
def Unreadable (vdev : GenericDevice) (b : BlockPtr) : Prop := ¬∃ block, Answers vdev b (some block)

theorem load_indirect_eq_ok_iff {vdev : GenericDevice} {b : BlockPtr} {next : Option (List BlockPtr)} :
    load_indirect vdev b = .ok next ↔ ∃ data, Answers vdev b data ∧ next = data.map BlockPtrArray := by
  rw [load_indirect, bind_eq_ok_iff]
  constructor
  · rintro ⟨found, hsearch, hnext⟩
    cases found with
    | none => exact absurd hsearch (fallback.search_ne_ok_none (by simp))
    | some found =>
      obtain ⟨dva, data, c⟩ := found
      obtain ⟨before, after, hsplit, hpassed, hread, hend⟩ := fallback.search_eq_ok_some_iff.mp hsearch
      exact ⟨data, ⟨before, dva, after, c, hsplit, hpassed, hread, hend⟩, (Except.ok.inj hnext).symm⟩
  · rintro ⟨data, ⟨before, dva, after, c, hsplit, hpassed, hread, hend⟩, rfl⟩
    exact ⟨some (dva, data, c), fallback.search_eq_ok_some_iff.mpr ⟨before, after, hsplit, hpassed, hread, hend⟩, rfl⟩

theorem follow_cons (vdev : GenericDevice) (bpa : List BlockPtr) (i : Nat) {rest : List Nat} (hrest : rest ≠ []) :
    follow vdev bpa (i :: rest) = (load_at vdev bpa i >>= fun next =>
      match next with
      | none => .ok none
      | some next_bpa => follow vdev next_bpa rest) := by
  cases rest with
  | nil => exact absurd rfl hrest
  | cons j rest => rfl

/-- Down to the arrays that point at data, every indirect block below the first
    `k` pointers of an array is there with `k` pointers or more, or is found to be
    missing. -/
def Full (vdev : GenericDevice) (k : Nat) : Nat → List BlockPtr → Prop
  | 0, bpa => k ≤ bpa.length
  | depth + 1, bpa =>
    k ≤ bpa.length ∧
      ∀ i < k, ∀ b, bpa[i]? = some b →
        ∃ data, Answers vdev b data ∧ ∀ block, data = some block → Full vdev k depth (BlockPtrArray block)

/-- An indirect block on the path is missing, or too short to contain the slot. -/
inductive PathBroken (vdev : GenericDevice) : List BlockPtr → List Nat → Prop where
  | short {bpa : List BlockPtr} {i : Nat} {rest : List Nat} : bpa.length ≤ i → PathBroken vdev bpa (i :: rest)
  | missing {bpa : List BlockPtr} {i : Nat} {rest : List Nat} {b : BlockPtr} :
      rest ≠ [] → bpa[i]? = some b → Unreadable vdev b → PathBroken vdev bpa (i :: rest)
  | deeper {bpa : List BlockPtr} {i : Nat} {rest : List Nat} {b : BlockPtr} {block : Bytes} :
      rest ≠ [] → bpa[i]? = some b → Answers vdev b (some block) → PathBroken vdev (BlockPtrArray block) rest →
      PathBroken vdev bpa (i :: rest)

section Walks

variable {vdev : GenericDevice} {k depth : Nat} {bpa : List BlockPtr} {indices : List Nat}

theorem Full.le_length (h : Full vdev k depth bpa) : k ≤ bpa.length := by
  cases depth with
  | zero => exact h
  | succ depth => exact h.1

/-- Below full blocks every walk comes to its end, and to nothing if its path is
    broken. -/
theorem Full.follow (hfull : Full vdev k depth bpa) (hlength : indices.length = depth + 1)
    (hlt : ∀ i ∈ indices, i < k) :
    ∃ found, blocktree.follow vdev bpa indices = .ok found ∧ (PathBroken vdev bpa indices → found = none) := by
  obtain ⟨i, rest, rfl⟩ := List.exists_cons_of_length_eq_add_one hlength
  obtain ⟨hi, hrest⟩ := List.forall_mem_cons.mp hlt
  have hin : i < bpa.length := Nat.lt_of_lt_of_le hi hfull.le_length
  have hget : bpa[i]? = some bpa[i] := List.getElem?_eq_getElem hin
  induction depth generalizing bpa i rest with
  | zero =>
    obtain rfl : rest = [] := List.length_eq_zero_iff.mp (by simpa using hlength)
    refine ⟨some bpa[i], by rw [blocktree.follow, index_of_lt hin, bind_ok], fun hbroken => ?_⟩
    cases hbroken with
    | short hshort => omega
    | missing hne => exact absurd rfl hne
    | deeper hne => exact absurd rfl hne
  | succ depth ih =>
    have hne : rest ≠ [] := List.ne_nil_of_length_pos (by simp at hlength; omega)
    obtain ⟨data, hanswers, hnext⟩ := hfull.2 i hi _ hget
    have hload : load_at vdev bpa i = .ok (data.map BlockPtrArray) := by
      rw [load_at, index_of_lt hin, bind_ok]
      exact load_indirect_eq_ok_iff.mpr ⟨data, hanswers, rfl⟩
    rw [follow_cons vdev bpa i hne, hload, bind_ok]
    cases data with
    | none => exact ⟨none, rfl, fun _ => rfl⟩
    | some block =>
      obtain ⟨j, rest, rfl⟩ := List.exists_cons_of_length_eq_add_one (show rest.length = depth + 1 by simpa using hlength)
      obtain ⟨hj, hrest'⟩ := List.forall_mem_cons.mp hrest
      have hbelow := hnext block rfl
      have hjn : j < (BlockPtrArray block).length := Nat.lt_of_lt_of_le hj hbelow.le_length
      obtain ⟨found, hfollow, hfound⟩ := ih hbelow j rest (by simpa using hlength) hrest hj hrest' hjn
        (List.getElem?_eq_getElem hjn)
      refine ⟨found, hfollow, fun hbroken => hfound ?_⟩
      cases hbroken with
      | short hshort => omega
      | missing _ hb hunreadable =>
        rw [hget] at hb
        cases hb
        exact absurd ⟨block, hanswers⟩ hunreadable
      | deeper _ hb hanswers' hpath =>
        rw [hget] at hb
        cases hb
        have heq := (load_indirect_eq_ok_iff.mpr ⟨_, hanswers, rfl⟩).symm.trans
          (load_indirect_eq_ok_iff.mpr ⟨_, hanswers', rfl⟩)
        simp only [Option.map_some, Except.ok.injEq, Option.some.injEq] at heq
        rw [heq]
        exact hpath

/-- Where no walk raises an exception, the blocks are full. -/
theorem full_of_follow (hk : 0 < k)
    (h : ∀ indices : List Nat, indices.length = depth + 1 → (∀ i ∈ indices, i < k) →
      ∃ found, blocktree.follow vdev bpa indices = .ok found) : Full vdev k depth bpa := by
  induction depth generalizing bpa with
  | zero =>
    obtain ⟨found, hfollow⟩ := h [k - 1] rfl (by simp; omega)
    rw [blocktree.follow, bind_eq_ok_iff] at hfollow
    obtain ⟨b, hb, -⟩ := hfollow
    have hlt := (List.getElem?_eq_some_iff.mp (index_eq_ok_iff.mp hb)).1
    rw [Full]
    omega
  | succ depth ih =>
    -- a walk that goes on with zeros after its first index
    have hstep : ∀ i < k, ∃ b next, bpa[i]? = some b ∧ load_indirect vdev b = .ok next := by
      intro i hi
      have hne : List.replicate (depth + 1) 0 ≠ [] := by simp
      obtain ⟨found, hfollow⟩ := h (i :: List.replicate (depth + 1) 0) (by simp) (by simp; omega)
      rw [follow_cons vdev bpa i hne, load_at, bind_eq_ok_iff] at hfollow
      obtain ⟨next, hload, -⟩ := hfollow
      obtain ⟨b, hb, hload⟩ := bind_eq_ok_iff.mp hload
      exact ⟨b, next, index_eq_ok_iff.mp hb, hload⟩
    refine ⟨?_, fun i hi b hb => ?_⟩
    · obtain ⟨b, -, hb, -⟩ := hstep (k - 1) (by omega)
      have hlt := (List.getElem?_eq_some_iff.mp hb).1
      omega
    · obtain ⟨b', next, hb', hload⟩ := hstep i hi
      obtain rfl : b' = b := Option.some.inj (hb'.symm.trans hb)
      obtain ⟨data, hanswers, rfl⟩ := load_indirect_eq_ok_iff.mp hload
      refine ⟨data, hanswers, ?_⟩
      rintro block rfl
      refine ih fun rest hlength hlt => ?_
      have hne : rest ≠ [] := List.ne_nil_of_length_pos (by omega)
      obtain ⟨found, hfollow⟩ := h (i :: rest) (by simpa using hlength) (List.forall_mem_cons.mpr ⟨hi, hlt⟩)
      rw [follow_cons vdev bpa i hne, load_at, index_eq_ok_iff.mpr hb, bind_ok, hload, bind_ok] at hfollow
      exact ⟨found, hfollow⟩

end Walks

/-- An indirect block on the way to a number is missing or too short, the one
    behind the root pointer included. -/
def BrokenAt (vdev : GenericDevice) (levels : Nat) (root_bptr : BlockPtr) (item : Int) : Prop :=
  levels ≠ 1 ∧ 0 ≤ item ∧
    (Unreadable vdev root_bptr ∨
      ∃ block, Answers vdev root_bptr (some block) ∧
        PathBroken vdev (BlockPtrArray block)
          (radix.digits (BlockPtrArray block).length (levels - 1) item.toNat))

/-- `objset[dnode_id]` of any object set: nothing is looked up in a broken one. -/
def getitem (os : Option ObjectSet) (sa : Option SaLayouts) (caches : Caches) (dnode_id : Int) :
    Py (Option DNode) × Caches :=
  match os with
  | none => (.ok none, caches)
  | some os => os.get_dnode sa caches dnode_id

/-- A tree is built and no lookup in it raises an exception, whatever was looked
    up before; what is behind a broken path is `None`. -/
def TreeDegrades (vdev : GenericDevice) (levels : Nat) (root_bptr : BlockPtr) : Prop :=
  ∃ tree, BlockTree.init levels vdev root_bptr = .ok tree ∧
    ∀ earlier item, ∃ found, (tree.getitem (tree.after earlier) item).1 = .ok found ∧
      (BrokenAt vdev levels root_bptr item → found = none)

/-- An object set over a tree without a root is a broken one. -/
def ObjectSetDegrades (vdev : GenericDevice) (levels : Nat) (root_bptr : BlockPtr) : Prop :=
  ∀ os_bptr dvas dn, DNode.from_bptr vdev os_bptr dvas none = .ok (some dn) → dn.nlevels = levels →
    dn.blkptrs 0 = .ok root_bptr → levels ≠ 1 → Unreadable vdev root_bptr →
    ∃ os, ObjectSet.init vdev os_bptr dvas = .ok os ∧ os.isNone ∧
      ∀ sa caches dnode_id, (getitem os sa caches dnode_id).1 = .ok none

section Trees

variable {vdev : GenericDevice} {levels : Nat} {root_bptr : BlockPtr}

/-- The constructor needs the block behind the root pointer. -/
theorem init_of_unreadable (hlevels : levels ≠ 1) (h : Unreadable vdev root_bptr) :
    ∃ e, BlockTree.init levels vdev root_bptr = .error e := by
  rw [BlockTree.init, if_neg hlevels]
  cases hload : load_from_bptr vdev root_bptr with
  | error e => exact ⟨e, rfl⟩
  | ok root =>
    obtain ⟨data, hanswers, rfl⟩ := load_indirect_eq_ok_iff.mp hload
    cases data with
    | none => exact ⟨.TypeError, rfl⟩
    | some block => exact absurd ⟨block, hanswers⟩ h

theorem init_of_answers (hlevels : levels ≠ 1) {block : Bytes} (h : Answers vdev root_bptr (some block)) :
    BlockTree.init levels vdev root_bptr =
      .ok { levels := levels, vdev := vdev, root := .array (BlockPtrArray block) } := by
  have hload : load_from_bptr vdev root_bptr = .ok (some (BlockPtrArray block)) :=
    load_indirect_eq_ok_iff.mpr ⟨_, h, rfl⟩
  rw [BlockTree.init, if_neg hlevels, hload, bind_ok]

/-- A number is looked up along its digits, where there is a pointer to start at. -/
theorem lookup_array {bpa : List BlockPtr} (item : Nat) :
    BlockTree.lookup { levels := levels, vdev := vdev, root := .array bpa } item =
      if levels - 1 ≠ 0 ∧ bpa.length = 0 then .error .ZeroDivisionError
      else follow vdev bpa (radix.digits bpa.length (levels - 1) item) := by
  rw [BlockTree.lookup, if_neg (by omega)]
  simp only [get_level_indices, Int.toNat_natCast]
  split
  · rfl
  · rfl

/-- A tree of several levels degrades when its root is there with a pointer, and
    all blocks below have as many pointers or are missing. -/
theorem treeDegrades_deep {depth : Nat} {block : Bytes} (h : Answers vdev root_bptr (some block)) :
    TreeDegrades vdev (depth + 2) root_bptr ↔
      128 ≤ block.length ∧ Full vdev (block.length / 128) depth (BlockPtrArray block) := by
  have hlevels : depth + 2 ≠ 1 := by omega
  have hlength : (BlockPtrArray block).length = block.length / 128 := length_BlockPtrArray block
  have hlookup : ∀ item : Nat,
      BlockTree.lookup { levels := depth + 2, vdev := vdev, root := .array (BlockPtrArray block) } item =
        if depth + 1 ≠ 0 ∧ block.length / 128 = 0 then .error .ZeroDivisionError
        else follow vdev (BlockPtrArray block) (radix.digits (block.length / 128) (depth + 1) item) := by
    intro item
    rw [lookup_array, hlength]
    rfl
  constructor
  · rintro ⟨tree, htree, hall⟩
    rw [init_of_answers hlevels h] at htree
    cases htree
    have hfound : ∀ item : Nat, ∃ found,
        BlockTree.lookup { levels := depth + 2, vdev := vdev, root := .array (BlockPtrArray block) } item =
          .ok found := by
      intro item
      obtain ⟨found, hfound, -⟩ := hall [] item
      rw [BlockTree.getitem_after] at hfound
      exact ⟨found, hfound⟩
    have hpos : 0 < block.length / 128 := by
      by_contra hzero
      obtain ⟨found, hraises⟩ := hfound 0
      rw [hlookup, if_pos ⟨by omega, by omega⟩] at hraises
      cases hraises
    refine ⟨by omega, full_of_follow hpos fun indices hindices hlt => ?_⟩
    obtain ⟨item, rfl⟩ := radix.exists_digits hindices hlt
    obtain ⟨found, hfollow⟩ := hfound item
    rw [hlookup, if_neg (by omega)] at hfollow
    exact ⟨found, hfollow⟩
  · rintro ⟨hblock, hfull⟩
    refine ⟨_, init_of_answers hlevels h, fun earlier item => ?_⟩
    rw [BlockTree.getitem_after]
    by_cases hneg : item < 0
    · exact ⟨none, by rw [BlockTree.lookup, if_pos hneg], fun _ => rfl⟩
    · obtain ⟨n, rfl⟩ : ∃ n : Nat, item = n := ⟨item.toNat, by omega⟩
      obtain ⟨found, hfollow, hfound⟩ := hfull.follow (radix.length_digits (block.length / 128) (depth + 1) n)
        fun i hi => radix.digit_lt (by omega) hi
      refine ⟨found, by rw [hlookup, if_neg (by omega), hfollow], ?_⟩
      rintro ⟨-, -, hunreadable | ⟨other, hother, hpath⟩⟩
      · exact absurd ⟨block, h⟩ hunreadable
      · have heq := (init_of_answers hlevels h).symm.trans (init_of_answers hlevels hother)
        simp only [Except.ok.injEq, BlockTree.mk.injEq, Root.array.injEq, true_and] at heq
        rw [← heq, hlength] at hpath
        exact hfound hpath

theorem treeDegrades_one : TreeDegrades vdev 1 root_bptr := by
  refine ⟨_, rfl, fun earlier item => ?_⟩
  rw [BlockTree.getitem_after, BlockTree.lookup]
  split
  · exact ⟨none, rfl, fun _ => rfl⟩
  · exact ⟨_, rfl, fun hbroken => absurd rfl hbroken.1⟩

theorem not_treeDegrades_zero : ¬TreeDegrades vdev 0 root_bptr := by
  rintro ⟨tree, htree, hall⟩
  obtain ⟨found, hfound, -⟩ := hall [] (0 : Nat)
  rw [BlockTree.getitem_after] at hfound
  by_cases hunreadable : Unreadable vdev root_bptr
  · obtain ⟨e, he⟩ := init_of_unreadable (show (0 : Nat) ≠ 1 by decide) hunreadable
    rw [he] at htree
    cases htree
  · obtain ⟨block, hanswers⟩ := not_not.mp hunreadable
    rw [init_of_answers (by decide) hanswers] at htree
    cases htree
    have hlookup := @lookup_array vdev 0 (BlockPtrArray block) 0
    rw [if_neg (by simp)] at hlookup
    rw [hlookup] at hfound
    cases hfound

end Trees

/-- A tree degrades as it should when it has no indirect block, or when the one
    behind its root pointer is there and not empty and every one below it is at
    least as long or found to be missing. An object set over a tree without a
    root is never constructed. -/
theorem degrades_iff (vdev : GenericDevice) :
    (∀ levels root_bptr,
        (TreeDegrades vdev levels root_bptr ∧ ObjectSetDegrades vdev levels root_bptr) ↔
          levels = 1 ∨
            2 ≤ levels ∧
              ∃ block, Answers vdev root_bptr (some block) ∧ 128 ≤ block.length ∧
                Full vdev (block.length / 128) (levels - 2) (BlockPtrArray block)) ∧
      ∀ os_bptr dvas dn root_bptr, DNode.from_bptr vdev os_bptr dvas none = .ok (some dn) →
        dn.blkptrs 0 = .ok root_bptr → dn.nlevels ≠ 1 → Unreadable vdev root_bptr →
        ∃ e, ObjectSet.init vdev os_bptr dvas = .error e := by
  constructor
  · intro levels root_bptr
    rcases levels with _ | _ | depth
    · exact iff_of_false (fun h => not_treeDegrades_zero h.1) (by omega)
    · exact iff_of_true ⟨treeDegrades_one, fun _ _ _ _ _ _ hne => absurd rfl hne⟩ (.inl rfl)
    · by_cases hunreadable : Unreadable vdev root_bptr
      · refine iff_of_false ?_ ?_
        · rintro ⟨⟨tree, htree, -⟩, -⟩
          obtain ⟨e, he⟩ := init_of_unreadable (show depth + 2 ≠ 1 by omega) hunreadable
          rw [he] at htree
          cases htree
        · rintro (h | ⟨-, block, hanswers, -⟩)
          · omega
          · exact hunreadable ⟨block, hanswers⟩
      · obtain ⟨block, hanswers⟩ := not_not.mp hunreadable
        have htree := @treeDegrades_deep vdev root_bptr depth block hanswers
        constructor
        · rintro ⟨h, -⟩
          obtain ⟨hblock, hfull⟩ := htree.mp h
          exact .inr ⟨by omega, block, hanswers, hblock, hfull⟩
        · rintro (h | ⟨-, other, hother, hblock, hfull⟩)
          · omega
          · exact ⟨(treeDegrades_deep hother).mpr ⟨hblock, hfull⟩, fun _ _ _ _ _ _ _ h => absurd h hunreadable⟩
  · intro os_bptr dvas dn root_bptr hdnode hroot hlevels hunreadable
    obtain ⟨e, he⟩ := init_of_unreadable hlevels hunreadable
    have htree : block_tree vdev dn = .error e := by
      rw [block_tree, hroot, bind_ok, he]
    rw [ObjectSet.init, hdnode, bind_ok]
    simp only
    cases dn.datablksize with
    | none => exact ⟨.TypeError, rfl⟩
    | some size => exact ⟨e, by simp only [htree, bind_error]⟩

/-- The bytes of a pointer to two sectors as they are, without a checksum. -/
def two_sector_bytes (offset : Nat) : Bytes :=
  encode_words [2, offset, 0, 0, 0, 0, 1 + 2 ^ 16 + 2 * 2 ^ 32 + 2 * 2 ^ 40, 0, 0, 0, 0, 0, 0, 0, 0, 0]

/-- The bytes of a dnode with a tree of two levels behind one pointer. -/
def two_level_dnode (root : Bytes) : Bytes :=
  fit 512 ([10, 17, 2, 1, 0, 0, 0, 0, 1, 0, 0, 0] ++ List.replicate 52 0 ++ root)

/-- A device with nothing in its label and its third sector. The second holds a dnode
    whose tree has its root there, the fourth and fifth an array of eight pointers,
    the first of them to the sixth, where there are four. -/
def gap_device : GenericDevice where
  ashift := 9
  read_physical offset size :=
    .ok
      (if offset = 512 then some (two_level_dnode (sector_bytes 2 3 2))
      else if offset = 0 ∨ offset = 1024 then none
      else if offset = 1536 then some (fit size (sector_bytes 5 2 2))
      else some (List.replicate size 0))
  zlib_decompress := .ok

theorem unreadable_gap_device : Unreadable gap_device (BlockPtr.of_bytes (sector_bytes 2 3 2)) := by
  have hnone : ∀ dva ∈ [0, 1, 2], gap_device.read_block (BlockPtr.of_bytes (sector_bytes 2 3 2)) dva = .ok (none, true) := by
    decide +kernel
  rintro ⟨block, before, dva, after, c, hsplit, -, hread, -⟩
  rw [hnone dva (hsplit ▸ by simp)] at hread
  cases hread

theorem from_bptr_gap_device :
    ∃ dn, DNode.from_bptr gap_device (BlockPtr.of_bytes (sector_bytes 1 2 2)) [0] none = .ok (some dn) ∧
      dn.nlevels = 2 ∧ dn.blkptrs 0 = .ok (BlockPtr.of_bytes (sector_bytes 2 3 2)) := by
  have hfields :
      (DNode.from_bptr gap_device (BlockPtr.of_bytes (sector_bytes 1 2 2)) [0] none).map
          (Option.map fun dn => (dn.nlevels, dn.blkptrs 0)) =
        .ok (some (2, .ok (BlockPtr.of_bytes (sector_bytes 2 3 2)))) := by
    decide +kernel
  obtain ⟨dnode, hload, hdnode⟩ := map_eq_ok_iff.mp hfields
  obtain ⟨dn, rfl, hdn⟩ := Option.map_eq_some_iff.mp hdnode
  exact ⟨dn, hload, Prod.mk.inj hdn⟩

/-- Without its root a tree is not built and an object set not constructed; a block
    of four pointers below an array of eight makes a lookup raise an exception. -/
theorem not_degrades_gap_device :
    (Unreadable gap_device (BlockPtr.of_bytes (sector_bytes 2 3 2)) ∧
        ((BlockTree.init 2 gap_device (BlockPtr.of_bytes (sector_bytes 2 3 2)) >>= fun tree => (tree.getitem [] 0).1) =
          .error .TypeError) ∧
        ¬TreeDegrades gap_device 2 (BlockPtr.of_bytes (sector_bytes 2 3 2))) ∧
      (((ObjectSet.init gap_device (BlockPtr.of_bytes (sector_bytes 1 2 2)) [0] >>= fun os => (getitem os none {} 0).1) =
          .error .TypeError) ∧
        ¬ObjectSetDegrades gap_device 2 (BlockPtr.of_bytes (sector_bytes 2 3 2))) ∧
      ((BlockTree.init 3 gap_device (BlockPtr.of_bytes (two_sector_bytes 3)) >>= fun tree => (tree.getitem [] 4).1) =
          .error .IndexError) ∧
        ¬TreeDegrades gap_device 3 (BlockPtr.of_bytes (two_sector_bytes 3)) := by
  obtain ⟨dn, hdnode, hlevels, hblkptr⟩ := from_bptr_gap_device
  obtain ⟨hroot, hset, hshort⟩ :
      ((BlockTree.init 2 gap_device (BlockPtr.of_bytes (sector_bytes 2 3 2)) >>= fun tree => (tree.getitem [] 0).1) =
          .error .TypeError) ∧
        ((ObjectSet.init gap_device (BlockPtr.of_bytes (sector_bytes 1 2 2)) [0] >>= fun os => (getitem os none {} 0).1) =
          .error .TypeError) ∧
        ((BlockTree.init 3 gap_device (BlockPtr.of_bytes (two_sector_bytes 3)) >>= fun tree => (tree.getitem [] 4).1) =
          .error .IndexError) := by
    decide +kernel
  refine ⟨⟨unreadable_gap_device, hroot, ?_⟩, ⟨hset, ?_⟩, hshort, ?_⟩
  · rintro ⟨tree, htree, hall⟩
    obtain ⟨found, hfound, -⟩ := hall [] 0
    rw [htree, bind_ok] at hroot
    rw [show tree.after [] = [] from rfl, hroot] at hfound
    cases hfound
  · intro hdegrades
    obtain ⟨os, hos, -, hall⟩ := hdegrades _ _ dn hdnode hlevels hblkptr (by decide) unreadable_gap_device
    rw [hos, bind_ok, hall] at hset
    cases hset
  · rintro ⟨tree, htree, hall⟩
    obtain ⟨found, hfound, -⟩ := hall [] 4
    rw [htree, bind_ok] at hshort
    rw [show tree.after [] = [] from rfl, hshort] at hfound
    cases hfound

/-- A tree of three levels whose root points at nothing. -/
theorem degrades_missing :
    (TreeDegrades gap_device 3 (BlockPtr.of_bytes (sector_bytes 5 2 2)) ∧
        ObjectSetDegrades gap_device 3 (BlockPtr.of_bytes (sector_bytes 5 2 2))) ∧
      ∃ e, ObjectSet.init gap_device (BlockPtr.of_bytes (sector_bytes 1 2 2)) [0] = .error e := by
  obtain ⟨dn, hdnode, hlevels, hblkptr⟩ := from_bptr_gap_device
  obtain ⟨htree, hset⟩ := degrades_iff gap_device
  constructor
  · refine (htree 3 _).mpr (.inr ⟨by decide, List.replicate 512 0, ?_, by rw [List.length_replicate]; decide, ?_⟩)
    · exact ⟨[], 0, [1, 2], true, rfl, by simp, by decide +kernel, .inl (by decide +kernel)⟩
    · refine ⟨by decide +kernel, fun i _ b hb => ⟨none, ?_, fun block h => by cases h⟩⟩
      have hempty : ∀ b ∈ BlockPtrArray (List.replicate 512 0), b.empty = true := by decide +kernel
      obtain ⟨data, hanswers, hdata⟩ :=
        load_indirect_eq_ok_iff.mp (load_indirect_of_empty (hempty b (List.mem_of_getElem? hb)))
      cases data with
      | none => exact hanswers
      | some block => cases hdata
  · exact hset _ _ dn _ hdnode hblkptr (by omega) unreadable_gap_device

end zfs_rescue.objectset
