import ZfsRescue.Blocktree.Uniform

open bytes
open zfs_rescue.blockptr zfs_rescue.zio zfs_rescue.dnode

namespace zfs_rescue.blocktree

/-- The pointer below a pointer, along a path of indices: none when a block on
    the way cannot be read. -/
def below (vdev : GenericDevice) (b : BlockPtr) : List Nat → Py (Option BlockPtr)
  | [] => .ok (some b)
  | i :: rest => do
    let next ← load_indirect vdev b
    match next with
    | none => .ok none
    | some bpa => do
      let c ← index bpa i
      below vdev c rest

/-- The pointer that the on-disk format assigns to a block number: the quotient
    by the size of a whole tree chooses the top-level pointer, and the digits of
    the remainder lead down from it. -/
def assigned (vdev : GenericDevice) (B levels : Nat) (blkptrs : List BlockPtr) (n : Nat) : Py (Option BlockPtr) := do
  let top ← index blkptrs (n / B ^ (levels - 1))
  below vdev top (radix.digits B (levels - 1) (n % B ^ (levels - 1)))

/-- A pointer `depth` levels above the data, below which every block that can
    be read holds `B` pointers, and no read raises. -/
def Shaped (vdev : GenericDevice) (B : Nat) : Nat → BlockPtr → Prop
  | 0, _ => True
  | depth + 1, b => ∃ next, load_indirect vdev b = .ok next ∧
      ∀ bpa, next = some bpa → bpa.length = B ∧ ∀ c ∈ bpa, Shaped vdev B depth c

/-- Where in the tree a lookup ends, by the indices it follows. -/
def BlockTree.slot (self : BlockTree) (item : Int) : Option (List Nat) :=
  if item < 0 then none
  else
    match self.root with
    | .pointer _ => if item = 0 then some [] else none
    | .array bpa =>
      match get_level_indices self.levels bpa.length item.toNat with
      | .ok indices => some indices
      | .error _ => none

/-- Lookups of the block numbers in a set are right, for every dnode of a given
    shape on every medium, after any earlier lookups: blocks of the file are at
    their assigned pointers, numbers outside the tree have none, and no two
    numbers share a place. -/
def Addressed (B levels k maxblkid : Nat) (S : Int → Prop) : Prop :=
  ∀ (vdev : GenericDevice) (dn : DNode) (blkptrs : List BlockPtr) (tree : BlockTree) (earlier : List Int),
    dn.nlevels = levels → dn.maxblkid = maxblkid → dn.blkptr = some blkptrs → blkptrs.length = k →
    (∀ b ∈ blkptrs, Shaped vdev B (levels - 1) b) → block_tree vdev dn = .ok tree →
    (∀ n : Nat, S n → n ≤ maxblkid →
      (tree.getitem (tree.after earlier) n).1 = assigned vdev B levels blkptrs n) ∧
    (∀ n : Int, S n → (n < 0 ∨ ((k * B ^ (levels - 1) : Nat) : Int) ≤ n) →
      (tree.getitem (tree.after earlier) n).1 = .ok none) ∧
    (∀ n m : Int, S n → S m → n ≠ m → tree.slot n ≠ none → tree.slot n ≠ tree.slot m)

/-- Only block numbers have a place in the tree. -/
theorem BlockTree.nonneg_of_slot {self : BlockTree} {item : Int} (h : self.slot item ≠ none) :
    ∃ n : Nat, item = n := by
  refine ⟨item.toNat, ?_⟩
  by_contra hneg
  rw [BlockTree.slot, if_pos (by omega)] at h
  exact h rfl

theorem follow_eq_below {vdev : GenericDevice} (bpa : List BlockPtr) (i : Nat) (rest : List Nat) :
    follow vdev bpa (i :: rest) = (index bpa i >>= fun c => below vdev c rest) := by
  induction rest generalizing bpa i with
  | nil => rfl
  | cons j rest ih =>
    rw [follow, load_at]
    · cases index bpa i with
      | error e => rfl
      | ok c =>
        rw [bind_ok, bind_ok, below]
        cases load_indirect vdev c with
        | error e => rfl
        | ok next =>
          rw [bind_ok, bind_ok]
          cases next with
          | none => rfl
          | some next_bpa => exact ih next_bpa j
    · simp

section Trees

variable {vdev : GenericDevice} {dn : DNode} {blkptrs : List BlockPtr} {tree : BlockTree} {B depth : Nat}

theorem block_tree_one (hlevels : dn.nlevels = 1) (htree : block_tree vdev dn = .ok tree) :
    ∃ b, dn.blkptrs 0 = .ok b ∧ tree = { levels := 1, vdev := vdev, root := .pointer b } := by
  rw [block_tree, bind_eq_ok_iff] at htree
  obtain ⟨b, hb, htree⟩ := htree
  rw [BlockTree.init, if_pos hlevels, hlevels] at htree
  cases htree
  exact ⟨b, hb, rfl⟩

/-- A tree of one level has a pointer for block 0 only. -/
theorem lookup_one (b : BlockPtr) (item : Int) :
    (BlockTree.mk 1 vdev (.pointer b)).lookup item = .ok (if item = 0 then some b else none) ∧
      (BlockTree.mk 1 vdev (.pointer b)).slot item = if item = 0 then some [] else none := by
  rw [BlockTree.lookup, BlockTree.slot]
  split
  · rw [if_neg (by omega), if_neg (by omega)]
    exact ⟨rfl, rfl⟩
  · exact ⟨rfl, rfl⟩

theorem block_tree_deep (hlevels : dn.nlevels = depth + 2) (htree : block_tree vdev dn = .ok tree) :
    ∃ b bpa, dn.blkptrs 0 = .ok b ∧ load_indirect vdev b = .ok (some bpa) ∧
      tree = { levels := depth + 2, vdev := vdev, root := .array bpa } := by
  rw [block_tree, bind_eq_ok_iff] at htree
  obtain ⟨b, hb, htree⟩ := htree
  rw [BlockTree.init, if_neg (by omega), bind_eq_ok_iff] at htree
  obtain ⟨root, hroot, htree⟩ := htree
  cases root with
  | none => cases htree
  | some bpa =>
    rw [hlevels] at htree
    cases htree
    exact ⟨b, bpa, hb, hroot, rfl⟩

/-- A lookup in a deep tree follows the last digits of the number, whatever the
    digits in front of them are. -/
theorem lookup_deep {bpa : List BlockPtr} (hB : 0 < B) (hlength : bpa.length = B) (n : Nat) :
    (BlockTree.mk (depth + 2) vdev (.array bpa)).lookup n = follow vdev bpa (radix.digits B (depth + 1) n) ∧
      (BlockTree.mk (depth + 2) vdev (.array bpa)).slot n = some (radix.digits B (depth + 1) n) := by
  have hindices : get_level_indices (depth + 2) bpa.length n = .ok (radix.digits B (depth + 1) n) := by
    rw [get_level_indices, if_neg (by omega), hlength]
    rfl
  rw [BlockTree.lookup, BlockTree.slot, if_neg (by omega), if_neg (by omega)]
  simp only [Int.toNat_natCast, hindices, bind_ok]
  exact ⟨trivial, trivial⟩

/-- The digits lead down from the pointer that the tree was built from. -/
theorem lookup_deep_below {b : BlockPtr} {bpa : List BlockPtr} (hB : 0 < B) (hlength : bpa.length = B)
    (hload : load_indirect vdev b = .ok (some bpa)) (n : Nat) :
    (BlockTree.mk (depth + 2) vdev (.array bpa)).lookup n = below vdev b (radix.digits B (depth + 1) n) := by
  rw [(lookup_deep hB hlength n).1, radix.digits_succ, follow_eq_below, below, hload, bind_ok]

/-- Below the first top-level pointer lookups are right. -/
theorem lookup_deep_assigned {b : BlockPtr} {bpa : List BlockPtr} (hB : 0 < B) (hlength : bpa.length = B)
    (hfirst : index blkptrs 0 = .ok b) (hload : load_indirect vdev b = .ok (some bpa)) {n : Nat}
    (hn : n < B ^ (depth + 1)) :
    (BlockTree.mk (depth + 2) vdev (.array bpa)).lookup n = assigned vdev B (depth + 2) blkptrs n := by
  rw [lookup_deep_below hB hlength hload, assigned, show depth + 2 - 1 = depth + 1 from rfl, Nat.div_eq_of_lt hn,
    hfirst, bind_ok, Nat.mod_eq_of_lt hn]

end Trees

/-- A dnode of a file with the given shape, whose first pointer is the uniform
    one and whose others are holes. -/
def uniform_dnode (n levels k maxblkid : Nat) : DNode where
  data := encode_words
    ([19 + 17 * 2 ^ 8 + levels * 2 ^ 16 + k * 2 ^ 24, n + 1, maxblkid, 0, 0, 0, 0, 0] ++ uniform_words n ++
      List.replicate 40 0)
  type := some 19
  indblkshift := 17
  nlevels := levels
  nblkptr := k
  bonustype := 0
  flags := 0
  datablkszsec := n + 1
  bonuslen := 0
  extra_slots := 0
  maxblkid := maxblkid
  used := 0
  blkptr := some (uniform_pointer n :: List.replicate (k - 1) hole)
  datablksize := some (512 * (n + 1))
  bonus := some (.raw [])

theorem shaped_uniform {n : Nat} (hn : n < 2 ^ 16) (depth : Nat) :
    Shaped (uniform_device n) (4 * (n + 1)) depth (uniform_pointer n) := by
  induction depth with
  | zero => trivial
  | succ depth ih =>
    refine ⟨_, load_indirect_uniform hn, ?_⟩
    intro bpa hbpa
    cases hbpa
    refine ⟨List.length_replicate, ?_⟩
    intro c hc
    rw [List.eq_of_mem_replicate hc]
    exact ih

theorem shaped_of_empty {vdev : GenericDevice} {b : BlockPtr} (hempty : b.empty = true) (B depth : Nat) :
    Shaped vdev B depth b := by
  cases depth with
  | zero => trivial
  | succ depth => exact ⟨none, load_indirect_of_empty hempty, fun bpa h => by cases h⟩

theorem shaped_uniform_dnode {n : Nat} (hn : n < 2 ^ 16) (k depth : Nat) :
    ∀ b ∈ uniform_pointer n :: List.replicate (k - 1) hole, Shaped (uniform_device n) (4 * (n + 1)) depth b := by
  intro b hb
  rcases List.mem_cons.mp hb with rfl | hb
  · exact shaped_uniform hn depth
  · rw [List.eq_of_mem_replicate hb]
    exact shaped_of_empty hole_empty _ depth

/-- Every path leads to the uniform pointer. -/
theorem follow_uniform {n : Nat} (hn : n < 2 ^ 16) {indices : List Nat} (hne : indices ≠ [])
    (hindices : ∀ i ∈ indices, i < 4 * (n + 1)) :
    follow (uniform_device n) (List.replicate (4 * (n + 1)) (uniform_pointer n)) indices =
      .ok (some (uniform_pointer n)) := by
  have hindex : ∀ i, i < 4 * (n + 1) →
      index (List.replicate (4 * (n + 1)) (uniform_pointer n)) i = .ok (uniform_pointer n) := by
    intro i hi
    rw [index_of_lt (by simpa using hi), List.getElem_replicate]
  induction indices with
  | nil => exact absurd rfl hne
  | cons i rest ih =>
    have hi := hindex i (hindices i (by simp))
    cases rest with
    | nil => rw [follow, hi, bind_ok]
    | cons j rest =>
      rw [follow, load_at, hi, bind_ok, load_indirect_uniform hn, bind_ok]
      · exact ih (by simp) fun m hm => hindices m (by simp [hm])
      · simp

/-- The tree of that dnode, when it has indirect blocks. -/
theorem block_tree_uniform {n : Nat} (hn : n < 2 ^ 16) (depth k maxblkid : Nat) :
    block_tree (uniform_device n) (uniform_dnode n (depth + 2) k maxblkid) =
      .ok ⟨depth + 2, uniform_device n, .array (List.replicate (4 * (n + 1)) (uniform_pointer n))⟩ := by
  have hfirst : (uniform_dnode n (depth + 2) k maxblkid).blkptrs 0 = .ok (uniform_pointer n) := rfl
  have hload : load_from_bptr (uniform_device n) (uniform_pointer n) = _ := load_indirect_uniform hn
  rw [block_tree, hfirst, bind_ok, BlockTree.init, if_neg (by simp [uniform_dnode]), hload, bind_ok]
  rfl

theorem getitem_uniform {n : Nat} (hn : n < 2 ^ 16) (depth : Nat) (earlier : List Int) (item : Nat) :
    let tree : BlockTree :=
      ⟨depth + 2, uniform_device n, .array (List.replicate (4 * (n + 1)) (uniform_pointer n))⟩
    (tree.getitem (tree.after earlier) item).1 = .ok (some (uniform_pointer n)) := by
  intro tree
  rw [tree.getitem_after, (lookup_deep (by omega) List.length_replicate item).1]
  apply follow_uniform hn
  · intro h
    have hlength := radix.length_digits (4 * (n + 1)) (depth + 1) item
    rw [h, List.length_nil] at hlength
    omega
  · exact fun i hi => radix.digit_lt (by omega) hi

/-- The pointers behind the first lead nowhere. -/
theorem assigned_uniform_ne {n : Nat} (depth k : Nat) {item : Nat} (hitem : (4 * (n + 1)) ^ (depth + 1) ≤ item) :
    assigned (uniform_device n) (4 * (n + 1)) (depth + 2) (uniform_pointer n :: List.replicate (k - 1) hole) item ≠
      .ok (some (uniform_pointer n)) := by
  have htop : item / (4 * (n + 1)) ^ (depth + 1) ≠ 0 := by
    have hpos : 0 < (4 * (n + 1)) ^ (depth + 1) := Nat.pow_pos (by omega)
    have hdiv := Nat.div_pos hitem hpos
    omega
  obtain ⟨top, heq⟩ := Nat.exists_eq_succ_of_ne_zero htop
  rw [assigned, show depth + 2 - 1 = depth + 1 from rfl, heq]
  by_cases hlt : top < k - 1
  · rw [index_of_lt (by simpa using hlt), bind_ok, List.getElem_cons_succ, List.getElem_replicate,
      radix.digits_succ, below, load_indirect_of_empty hole_empty, bind_ok]
    simp
  · rw [index_of_le (by simp; omega)]
    simp

section Shapes

variable {n k maxblkid depth : Nat} {S : Int → Prop}

theorem addressed_one_iff (hn : n < 2 ^ 16) (hk : 1 ≤ k) :
    Addressed (4 * (n + 1)) 1 k maxblkid S ↔ ∀ i : Nat, S i → maxblkid < i ∨ i < 1 := by
  constructor
  · intro h i hi
    have htree : block_tree (uniform_device n) (uniform_dnode n 1 k maxblkid) =
        .ok ⟨1, uniform_device n, .pointer (uniform_pointer n)⟩ := rfl
    by_contra hout
    obtain ⟨hin, -, -⟩ := h (uniform_device n) (uniform_dnode n 1 k maxblkid) _ _ [] rfl rfl rfl
      (by simp; omega) (shaped_uniform_dnode hn k _) htree
    have hlookup := hin i hi (by omega)
    rw [BlockTree.getitem_after, (lookup_one _ _).1, if_neg (by omega), assigned, show 1 - 1 = 0 from rfl,
      Nat.pow_zero, Nat.div_one] at hlookup
    cases htop : index (uniform_pointer n :: List.replicate (k - 1) hole) i with
    | error e => rw [htop] at hlookup; cases hlookup
    | ok b => rw [htop] at hlookup; cases hlookup
  · intro h vdev dn blkptrs tree earlier hlevels _ hblkptrs _ _ htree
    obtain ⟨b, hb, rfl⟩ := block_tree_one hlevels htree
    rw [DNode.blkptrs_eq hblkptrs] at hb
    refine ⟨?_, ?_, ?_⟩
    · intro i hi hle
      obtain rfl : i = 0 := by
        have hcases := h i hi
        omega
      rw [BlockTree.getitem_after, assigned, Nat.zero_div, hb]
      rfl
    · intro i _ hout
      rw [BlockTree.getitem_after, (lookup_one b i).1, if_neg (by simp at hout; omega)]
    · intro i j _ _ hne hslot
      rw [(lookup_one b i).2] at hslot ⊢
      rw [(lookup_one b j).2]
      by_cases hi : i = 0
      · rw [if_pos hi, if_neg (by omega)]
        simp
      · rw [if_neg hi] at hslot
        exact absurd rfl hslot

theorem addressed_deep_iff (hn : n < 2 ^ 16) (hk : 1 ≤ k) :
    Addressed (4 * (n + 1)) (depth + 2) k maxblkid S ↔
      (∀ i : Nat, S i → maxblkid < i ∨ i < (4 * (n + 1)) ^ (depth + 1)) ∧
        (∀ i : Nat, S i → i < k * (4 * (n + 1)) ^ (depth + 1)) ∧
          ∀ i j : Nat, S i → S j → i % (4 * (n + 1)) ^ (depth + 1) = j % (4 * (n + 1)) ^ (depth + 1) → i = j := by
  constructor
  · intro h
    obtain ⟨hin, hout, hslots⟩ := h (uniform_device n) (uniform_dnode n (depth + 2) k maxblkid) _ _ [] rfl rfl rfl
      (by simp; omega) (shaped_uniform_dnode hn k _) (block_tree_uniform hn depth k maxblkid)
    refine ⟨?_, ?_, ?_⟩
    · intro i hi
      by_contra hbeyond
      have hlookup := hin i hi (by omega)
      rw [getitem_uniform hn] at hlookup
      exact assigned_uniform_ne depth k (by omega) hlookup.symm
    · intro i hi
      by_contra hbeyond
      have hlookup := hout i hi (.inr (by simp only [show depth + 2 - 1 = depth + 1 from rfl]; omega))
      rw [getitem_uniform hn] at hlookup
      cases hlookup
    · intro i j hi hj hmod
      by_contra hne
      have hslot := hslots i j hi hj (by omega)
      have hdigits := (radix.digits_eq_iff (show 0 < 4 * (n + 1) by omega)).mpr hmod
      rw [(lookup_deep (by omega) List.length_replicate i).2, (lookup_deep (by omega) List.length_replicate j).2,
        hdigits] at hslot
      exact hslot (by simp) rfl
  · rintro ⟨hin, hout, hslots⟩ vdev dn blkptrs tree earlier hlevels _ hblkptrs _ hshaped htree
    obtain ⟨b, bpa, hb, hload, rfl⟩ := block_tree_deep hlevels htree
    rw [DNode.blkptrs_eq hblkptrs] at hb
    have hlength : bpa.length = 4 * (n + 1) := by
      obtain ⟨next, hnext, hbpa⟩ := hshaped b (List.mem_of_getElem? (index_eq_ok_iff.mp hb))
      rw [hload] at hnext
      cases hnext
      exact (hbpa bpa rfl).1
    refine ⟨?_, ?_, ?_⟩
    · intro i hi hle
      rw [BlockTree.getitem_after]
      exact lookup_deep_assigned (by omega) hlength hb hload ((hin i hi).resolve_left (by omega))
    · intro i hi hbeyond
      rcases hbeyond with hneg | hbeyond
      · rw [BlockTree.getitem_after, BlockTree.lookup, if_pos hneg]
      · obtain ⟨item, rfl⟩ : ∃ item : Nat, i = item := ⟨i.toNat, by omega⟩
        have hlt := hout item hi
        simp only [show depth + 2 - 1 = depth + 1 from rfl] at hbeyond
        omega
    · intro i j hi hj hne hslot heq
      obtain ⟨a, rfl⟩ := BlockTree.nonneg_of_slot hslot
      obtain ⟨c, rfl⟩ := BlockTree.nonneg_of_slot (heq ▸ hslot)
      rw [(lookup_deep (by omega) hlength a).2, (lookup_deep (by omega) hlength c).2, Option.some.injEq,
        radix.digits_eq_iff (by omega)] at heq
      exact hne (congrArg _ (hslots a c hi hj heq))

end Shapes

/-- Lookups are right exactly for the numbers within the first top-level
    pointer, and for larger ones beyond the last block only where there are no
    indirect blocks. -/
theorem addressed_iff {B levels k maxblkid : Nat} {S : Int → Prop} (hlevels : 1 ≤ levels) (hk : 1 ≤ k)
    (hB : 0 < B) (hsector : 4 ∣ B) (hsize : B ≤ 2 ^ 18) :
    Addressed B levels k maxblkid S ↔
      (∀ n : Nat, S n → maxblkid < n ∨ n < B ^ (levels - 1)) ∧
        (2 ≤ levels →
          (∀ n : Nat, S n → n < k * B ^ (levels - 1)) ∧
            ∀ n m : Nat, S n → S m → n % B ^ (levels - 1) = m % B ^ (levels - 1) → n = m) := by
  obtain ⟨n, rfl⟩ : ∃ n, B = 4 * (n + 1) := by
    obtain ⟨c, rfl⟩ := hsector
    exact ⟨c - 1, by omega⟩
  have hn : n < 2 ^ 16 := by omega
  rcases Nat.eq_or_lt_of_le hlevels with rfl | hdeep
  · rw [addressed_one_iff hn hk]
    simp
  · obtain ⟨depth, rfl⟩ := Nat.exists_eq_add_of_le hdeep
    rw [show (1 : Nat).succ + depth = depth + 2 by omega, addressed_deep_iff hn hk]
    simp

/-- Indirect blocks of 1024 pointers, one level of them, two top-level pointers. -/
theorem addressed_first_pointer : Addressed 1024 2 2 2047 (fun i => i < 1024 ∧ i ≠ 7) :=
  (addressed_iff (by decide) (by decide) (by decide) (by decide) (by decide)).mpr
    ⟨fun n hn => .inr (by omega), fun _ => ⟨fun n hn => by omega, fun n m hn hm h => by omega⟩⟩

/-- The first block below the second of two top-level pointers is taken for the
    first block of the file. -/
theorem not_addressed_second_pointer :
    (¬ Addressed 1024 2 2 1024 fun _ => True) ∧
      DNode.parse none (uniform_dnode 255 2 2 1024).data = .ok (uniform_dnode 255 2 2 1024) ∧
      ∃ tree, block_tree (uniform_device 255) (uniform_dnode 255 2 2 1024) = .ok tree ∧
        (tree.getitem [] 1024).1 = .ok (some (uniform_pointer 255)) ∧
        assigned (uniform_device 255) 1024 2 [uniform_pointer 255, hole] 1024 = .ok none := by
  have hn : (255 : Nat) < 2 ^ 16 := by omega
  refine ⟨fun h => ?_, by decide +kernel, _, block_tree_uniform hn 0 2 1024, getitem_uniform hn 0 [] 1024, ?_⟩
  · have hin := ((@addressed_deep_iff 255 2 1024 0 _ hn (by omega)).mp h).1 1024 trivial
    omega
  · rw [assigned, show 2 - 1 = 1 from rfl, index_of_lt (by simp), bind_ok, radix.digits_succ, below]
    exact congrArg (· >>= _) (load_indirect_of_empty hole_empty)

end zfs_rescue.blocktree
