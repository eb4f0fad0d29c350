import ZfsRescue.Blocktree.Addressing
import ZfsRescue.Dataset.ExtractFile
import ZfsRescue.Zio.Unreadable

open bytes
open zfs_rescue.blockptr zfs_rescue.zio zfs_rescue.dnode zfs_rescue.blocktree

namespace zfs_rescue.dataset

/-- The medium below a pointer `depth` levels above the data. Every pointer is
    empty or its first copy matches its checksum, indirect blocks hold `B`
    pointers, and blocks of data have `D` bytes. -/
def Healthy (vdev : GenericDevice) (B D : Nat) : Nat → BlockPtr → Prop
  | 0, b => b.empty = true ∨ logical_size b = D ∧ ∃ data, vdev.read_block b 0 = .ok (some data, true)
  | depth + 1, b => b.empty = true ∨ ∃ data, vdev.read_block b 0 = .ok (some data, true) ∧
      (BlockPtrArray data).length = B ∧ ∀ c ∈ BlockPtrArray data, Healthy vdev B D depth c

/-- What is stored behind a pointer. -/
def data_at (vdev : GenericDevice) (b : BlockPtr) : Option Bytes :=
  match vdev.read_block b 0 with
  | .ok (data, _) => data
  | .error _ => none

/-- The `n`-th block of data below a pointer. Holes have none. -/
def block_of (vdev : GenericDevice) (B : Nat) : Nat → BlockPtr → Nat → Option Bytes
  | 0, b, _ => data_at vdev b
  | depth + 1, b, n =>
    (data_at vdev b).bind fun data =>
      (BlockPtrArray data)[n / B ^ depth]?.bind fun c => block_of vdev B depth c (n % B ^ depth)

/-- A file whose blocks all lie below its first pointer, on a medium that is
    healthy there. An empty file without its first pointer has one level. -/
structure HealthyFile (vdev : GenericDevice) (file_dnode : DNode) (root : BlockPtr) (B D depth size : Nat) :
    Prop where
  bptr : file_dnode.blkptrs 0 = .ok root
  levels : file_dnode.nlevels = depth + 1
  datablksize : file_dnode.datablksize = some D
  bonus_size : file_size file_dnode = .ok size
  pointers : 0 < B
  healthy : Healthy vdev B D depth root
  maxblkid : file_dnode.maxblkid < B ^ depth
  hole : root.empty = true → 0 < size ∨ depth = 0

theorem data_at_of_empty {vdev : GenericDevice} {b : BlockPtr} (hempty : b.empty = true) : data_at vdev b = none := by
  rw [data_at, vdev.read_block_of_empty 0 hempty]

theorem data_at_of_read {vdev : GenericDevice} {b : BlockPtr} {data : Option Bytes} {c : Bool}
    (hread : vdev.read_block b 0 = .ok (data, c)) : data_at vdev b = data := by
  rw [data_at, hread]

/-- An indirect block whose first copy is sound is loaded from it. -/
theorem load_indirect_of_read {vdev : GenericDevice} {b : BlockPtr} {data : Bytes}
    (hread : vdev.read_block b 0 = .ok (some data, true)) (hne : data ≠ []) :
    load_indirect vdev b = .ok (some (BlockPtrArray data)) := by
  rw [load_indirect, read_copies_first hread (data_and_c_iff.mpr ⟨data, rfl, hne⟩), bind_ok]
  rfl

section Medium

variable {vdev : GenericDevice} {B D : Nat}

/-- What a read finds for block `n` below a pointer. -/
def Found (vdev : GenericDevice) (B D depth : Nat) (b : BlockPtr) (n : Nat) (r : Py (Option Bytes × Bool)) : Prop :=
  ∃ c, r = .ok (block_of vdev B depth b n, c) ∧ ∀ data, block_of vdev B depth b n = some data → data.length = D

private theorem found_of_empty {depth n : Nat} {b : BlockPtr} (hempty : b.empty = true) :
    Found vdev B D depth b n (.ok (none, false)) := by
  have hnone : block_of vdev B depth b n = none := by
    cases depth <;> simp [block_of, data_at_of_empty hempty]
  exact ⟨false, by rw [hnone], fun data h => by rw [hnone] at h; cases h⟩

private theorem ne_nil_of_pointers {data : Bytes} (hB : 0 < B) (hlength : (BlockPtrArray data).length = B) :
    data ≠ [] := by
  rintro rfl
  rw [length_BlockPtrArray, List.length_nil] at hlength
  omega

/-- Following the digits of a number below a healthy pointer leads to its block. -/
theorem below_healthy (hB : 0 < B) {depth : Nat} {b : BlockPtr} (hhealthy : Healthy vdev B D depth b) {n : Nat}
    (hn : n < B ^ depth) :
    ∃ bp, below vdev b (radix.digits B depth n) = .ok bp ∧ Found vdev B D depth b n (read_bp vdev bp) := by
  induction depth generalizing b n with
  | zero =>
    refine ⟨some b, rfl, ?_⟩
    rcases hhealthy with hempty | ⟨hsize, data, hread⟩
    · rw [read_bp, vdev.read_block_of_empty 0 hempty]
      exact found_of_empty hempty
    · rw [read_bp, hread]
      refine ⟨true, by rw [block_of, data_at_of_read hread], ?_⟩
      intro other hother
      rw [block_of, data_at_of_read hread] at hother
      cases hother
      rw [GenericDevice.length_of_read_block hread, hsize]
  | succ depth ih =>
    rw [radix.digits_succ, below]
    rcases hhealthy with hempty | ⟨data, hread, hlength, hchildren⟩
    · rw [load_indirect_of_empty hempty]
      exact ⟨none, rfl, found_of_empty hempty⟩
    · have hdigit : n / B ^ depth < B := by
        rw [Nat.div_lt_iff_lt_mul (Nat.pow_pos hB), ← Nat.pow_succ']
        exact hn
      have hbound : n / B ^ depth < (BlockPtrArray data).length := by omega
      rw [load_indirect_of_read hread (ne_nil_of_pointers hB hlength), bind_ok, Nat.mod_eq_of_lt hdigit]
      simp only
      rw [index_of_lt hbound, bind_ok, ← radix.digits_mod B depth n hB]
      obtain ⟨bp, hbelow, hfound⟩ := ih (hchildren _ (List.getElem_mem hbound)) (Nat.mod_lt n (Nat.pow_pos hB))
      have hblock : block_of vdev B (depth + 1) b n =
          block_of vdev B depth (BlockPtrArray data)[n / B ^ depth] (n % B ^ depth) := by
        rw [block_of, data_at_of_read hread, Option.bind_some, List.getElem?_eq_getElem hbound, Option.bind_some]
      refine ⟨bp, hbelow, ?_⟩
      rw [Found, hblock]
      exact hfound

end Medium

section Files

variable {vdev : GenericDevice} {file_dnode : DNode} {root : BlockPtr} {B D depth size : Nat}

/-- The tree of a healthy file is built, unless its first pointer is empty and
    has to lead to indirect blocks. -/
theorem HealthyFile.block_tree_ok (h : HealthyFile vdev file_dnode root B D depth size)
    (hroot : root.empty = true → depth = 0) : ∃ bt, block_tree vdev file_dnode = .ok bt := by
  rw [block_tree, h.bptr, bind_ok, BlockTree.init, h.levels]
  cases depth with
  | zero => exact ⟨_, rfl⟩
  | succ depth =>
    rw [if_neg (by omega)]
    rcases h.healthy with hempty | ⟨data, hread, hlength, -⟩
    · exact absurd (hroot hempty) (by omega)
    · have hload : load_from_bptr vdev root = _ :=
        load_indirect_of_read hread (ne_nil_of_pointers h.pointers hlength)
      rw [hload]
      exact ⟨_, rfl⟩

/-- Reading a block of a healthy file finds what is stored for it. -/
theorem HealthyFile.file_block_found (h : HealthyFile vdev file_dnode root B D depth size) {bt : BlockTree}
    (hbt : block_tree vdev file_dnode = .ok bt) {n : Nat} (hn : n ≤ file_dnode.maxblkid) :
    Found vdev B D depth root n (file_block bt n) := by
  have hlt : n < B ^ depth := Nat.lt_of_le_of_lt hn h.maxblkid
  obtain ⟨bp, hbelow, hfound⟩ := below_healthy h.pointers h.healthy hlt
  cases depth with
  | zero =>
    obtain ⟨b, hb, rfl⟩ := block_tree_one h.levels hbt
    rw [h.bptr] at hb
    cases hb
    obtain rfl : n = 0 := by simpa using hlt
    cases hbelow
    exact hfound
  | succ depth =>
    obtain ⟨b, bpa, hb, hload, rfl⟩ := block_tree_deep h.levels hbt
    rw [h.bptr] at hb
    cases hb
    have hlength : bpa.length = B := by
      rcases h.healthy with hempty | ⟨data, hread, hlength, -⟩
      · rw [load_indirect_of_empty hempty] at hload
        cases hload
      · rw [load_indirect_of_read hread (ne_nil_of_pointers h.pointers hlength)] at hload
        cases hload
        exact hlength
    rw [file_block, lookup_deep_below h.pointers hlength hload, hbelow, bind_ok]
    exact hfound

/-- The piece that the loop writes for a block of a healthy file. -/
theorem HealthyFile.piece_eq (h : HealthyFile vdev file_dnode root B D depth size) {bt : BlockTree}
    (hbt : block_tree vdev file_dnode = .ok bt) {n : Nat} (hn : n ≤ file_dnode.maxblkid) :
    piece file_dnode bt n = (block_of vdev B depth root n).getD (List.replicate D 0) ∧
      bad_block bt n = (block_of vdev B depth root n).isNone ∧ Passable file_dnode bt n ∧
      (piece file_dnode bt n).length = D := by
  obtain ⟨c, hblock, hlength⟩ := h.file_block_found hbt hn
  rw [piece, bad_block, Passable, hblock, h.datablksize]
  cases hstored : block_of vdev B depth root n with
  | none => exact ⟨rfl, rfl, ⟨_, rfl, fun _ => ⟨D, rfl⟩⟩, List.length_replicate⟩
  | some data => exact ⟨rfl, rfl, ⟨_, rfl, fun hnone => by cases hnone⟩, hlength data hstored⟩

/-- The loop over a healthy file writes all its blocks, and finds it corrupted
    exactly when one of them is a hole. -/
theorem HealthyFile.write_file_ok (h : HealthyFile vdev file_dnode root B D depth size) {bt : BlockTree}
    (hbt : block_tree vdev file_dnode = .ok bt) (hsize : 0 < size) :
    ∃ out, write_file file_dnode bt size = .ok out ∧ out.written.length = (file_dnode.maxblkid + 1) * D ∧
      (∀ p, p < out.written.length →
        out.written.getD p 0 = ((block_of vdev B depth root (p / D)).getD []).getD (p % D) 0) ∧
      (out.corrupted = false ↔ ∀ n, n ≤ file_dnode.maxblkid → block_of vdev B depth root n ≠ none) := by
  have hmem : ∀ n, n ∈ List.range (file_dnode.maxblkid + 1) → n ≤ file_dnode.maxblkid := by
    intro n hn
    rw [List.mem_range] at hn
    omega
  have hpieces : ∀ n ∈ List.range (file_dnode.maxblkid + 1), (piece file_dnode bt n).length = D :=
    fun n hn => (h.piece_eq hbt (hmem n hn)).2.2.2
  have hlength : ((List.range (file_dnode.maxblkid + 1)).flatMap (piece file_dnode bt)).length =
      (file_dnode.maxblkid + 1) * D := by
    rw [length_flatMap_of_length hpieces, List.length_range]
  refine ⟨⟨(List.range (file_dnode.maxblkid + 1)).flatMap (piece file_dnode bt),
    (List.range (file_dnode.maxblkid + 1)).any (bad_block bt)⟩, ?_, hlength, ?_, ?_⟩
  · rw [write_file, if_pos hsize, write_blocks_eq_ok_iff bt.cached_nil]
    exact ⟨fun n hn => (h.piece_eq hbt (hmem n hn)).2.2.1, rfl⟩
  · intro p hp
    rw [hlength] at hp
    have hD : 0 < D := Nat.pos_of_mul_pos_left (Nat.zero_lt_of_lt hp)
    have hn : p / D < file_dnode.maxblkid + 1 := by
      rw [Nat.div_lt_iff_lt_mul hD]
      exact hp
    have hslice := slice_flatMap hpieces (show p / D < (List.range (file_dnode.maxblkid + 1)).length by simpa using hn)
    have hsplit : p = p / D * D + p % D := by
      rw [Nat.mul_comm]
      exact (Nat.div_add_mod p D).symm
    calc ((List.range (file_dnode.maxblkid + 1)).flatMap (piece file_dnode bt)).getD p 0
        = (piece file_dnode bt (p / D)).getD (p % D) 0 := by
          rw [List.getElem_range] at hslice
          rw [← hslice, getD_slice _ _ _ _ _ (Nat.mod_lt p hD), ← hsplit]
      _ = ((block_of vdev B depth root (p / D)).getD []).getD (p % D) 0 := by
          rw [(h.piece_eq hbt (Nat.le_of_lt_succ hn)).1]
          cases block_of vdev B depth root (p / D) with
          | none => simp [List.getD_eq_getElem?_getD, Nat.mod_lt p hD]
          | some data => rfl
  · simp only [List.any_eq_false, Bool.not_eq_true]
    constructor
    · intro hall n hn hnone
      have hbad := hall n (by rw [List.mem_range]; omega)
      rw [(h.piece_eq hbt hn).2.1, hnone] at hbad
      cases hbad
    · intro hall n hn
      rw [(h.piece_eq hbt (hmem n hn)).2.1, Option.isNone_eq_false_iff, Option.isSome_iff_ne_none]
      exact hall n (hmem n hn)

/-- Extraction of a healthy file. One whose first pointer is a hole is turned
    away; any other is written to its size or to the end of its last block, with
    zeros for the holes, and is called intact when none of its blocks is a hole. -/
theorem extract_file_healthy (h : HealthyFile vdev file_dnode root B D depth size) :
    ∃ written success, extract_file vdev (some file_dnode) = .ok (written, success) ∧
      (root.empty = true ∧ 0 < size → written = [] ∧ success = false) ∧
      (¬ (root.empty = true ∧ 0 < size) →
        written.length = min size ((file_dnode.maxblkid + 1) * D) ∧
        (∀ p, p < written.length →
          written.getD p 0 = ((block_of vdev B depth root (p / D)).getD []).getD (p % D) 0) ∧
        (success = true ↔ size = 0 ∨ ∀ n, n ≤ file_dnode.maxblkid → block_of vdev B depth root n ≠ none)) := by
  by_cases hskip : root.empty = true ∧ 0 < size
  · refine ⟨[], false, ?_, fun _ => ⟨rfl, rfl⟩, fun hnot => absurd hskip hnot⟩
    have hcannot : cannot_extract file_dnode = .ok true := by
      rw [cannot_extract, h.bptr, bind_ok, if_pos hskip.1, h.bonus_size, bind_ok, decide_eq_true hskip.2]
    rw [extract_file, hcannot, bind_ok, if_pos rfl]
  · have hcannot : cannot_extract file_dnode = .ok false := by
      rw [cannot_extract, h.bptr, bind_ok]
      by_cases hempty : root.empty = true
      · rw [if_pos hempty, h.bonus_size, bind_ok, decide_eq_false fun hpos => hskip ⟨hempty, hpos⟩]
      · rw [if_neg hempty]
    obtain ⟨bt, hbt⟩ := h.block_tree_ok fun hempty => (h.hole hempty).resolve_left fun hpos => hskip ⟨hempty, hpos⟩
    have hrun : ∀ written success, extract_file vdev (some file_dnode) = .ok (written, success) ↔
        ∃ bt size out, block_tree vdev file_dnode = .ok bt ∧ file_size file_dnode = .ok size ∧
          write_file file_dnode bt size = .ok out ∧ written = out.written.take (min out.written.length size) ∧
          success = !out.corrupted := by
      intro written success
      rw [extract_file, hcannot, bind_ok, if_neg (by simp), extract_blocks_eq_ok_iff]
    rcases Nat.eq_zero_or_pos size with rfl | hsize
    · refine ⟨[], true, (hrun _ _).mpr ⟨bt, 0, {}, hbt, h.bonus_size, rfl, rfl, rfl⟩, fun hnot => absurd hnot hskip, ?_⟩
      exact fun _ => ⟨by simp, fun p hp => absurd hp (Nat.not_lt_zero p), by simp⟩
    · obtain ⟨out, hout, hlength, hbytes, hintact⟩ := h.write_file_ok hbt hsize
      refine ⟨_, _, (hrun _ _).mpr ⟨bt, size, out, hbt, h.bonus_size, hout, rfl, rfl⟩, fun hnot => absurd hnot hskip,
        fun _ => ⟨?_, ?_, ?_⟩⟩
      · rw [List.length_take, hlength, Nat.min_assoc, Nat.min_comm size, ← Nat.min_assoc, Nat.min_self, Nat.min_comm]
      · intro p hp
        rw [List.length_take] at hp
        rw [← hbytes p (by omega), List.getD_eq_getElem?_getD, List.getElem?_take_of_lt (by omega),
          List.getD_eq_getElem?_getD]
      · rw [Bool.not_eq_true', hintact]
        exact ⟨.inr, fun hor => hor.resolve_left (by omega)⟩

end Files

/-- The bytes of a dnode of a file of 1200 bytes in three blocks, behind an indirect one. -/
def sparse_file : Bytes :=
  fit 512
    (encode_words [19 + 17 * 2 ^ 8 + 2 * 2 ^ 16 + 2 ^ 24 + 17 * 2 ^ 32, 1 + 264 * 2 ^ 16, 2, 0, 0, 0, 0, 0] ++
      sector_bytes 1 2 2 ++ encode_words (List.replicate 10 0 ++ [1200]))

/-- The indirect block: the second block of the file is a hole. -/
def sparse_block : Bytes :=
  sector_bytes 2 2 2 ++ List.replicate 128 0 ++ sector_bytes 3 2 2 ++ List.replicate 128 0

/-- A device with that block in its second sector, and with each other sector filled with
    its number. -/
def sparse_device : GenericDevice where
  ashift := 9
  read_physical offset size :=
    .ok (some (if offset = 512 then sparse_block else List.replicate size (UInt8.ofNat (offset / 512))))
  zlib_decompress := .ok

theorem sparse_block_pointers :
    BlockPtrArray sparse_block =
      [BlockPtr.of_bytes (sector_bytes 2 2 2), hole, BlockPtr.of_bytes (sector_bytes 3 2 2), hole] := by
  decide +kernel

theorem read_block_sparse :
    sparse_device.read_block (BlockPtr.of_bytes (sector_bytes 1 2 2)) 0 = .ok (some sparse_block, true) ∧
      sparse_device.read_block (BlockPtr.of_bytes (sector_bytes 2 2 2)) 0 = .ok (some (List.replicate 512 2), true) ∧
      sparse_device.read_block (BlockPtr.of_bytes (sector_bytes 3 2 2)) 0 = .ok (some (List.replicate 512 3), true) := by
  decide +kernel

theorem healthy_sparse : Healthy sparse_device 4 512 1 (BlockPtr.of_bytes (sector_bytes 1 2 2)) := by
  obtain ⟨hindirect, hfirst, hlast⟩ := read_block_sparse
  refine .inr ⟨sparse_block, hindirect, ?_, ?_⟩
  · rw [sparse_block_pointers]
    rfl
  · rw [sparse_block_pointers]
    simp only [List.forall_mem_cons]
    exact ⟨.inr ⟨by decide +kernel, _, hfirst⟩, .inl hole_empty, .inr ⟨by decide +kernel, _, hlast⟩, .inl hole_empty,
      List.forall_mem_nil _⟩

/-- The second block is written as zeros, and the file counts as damaged. -/
theorem extract_file_sparse :
    ∃ dn written, DNode.parse none sparse_file = .ok dn ∧
      extract_file sparse_device (some dn) = .ok (written, false) ∧ written.length = 1200 ∧
      ∀ p, p < 1200 → written.getD p 0 = if p < 512 then 2 else if p < 1024 then 0 else 3 := by
  have hfacts : (DNode.parse none sparse_file).map (fun dn => decide (
      dn.blkptrs 0 = .ok (BlockPtr.of_bytes (sector_bytes 1 2 2)) ∧ dn.nlevels = 2 ∧ dn.datablksize = some 512 ∧
      file_size dn = .ok 1200 ∧ dn.maxblkid = 2)) = .ok true := by
    decide +kernel
  obtain ⟨dn, hparse, hdn⟩ := map_eq_ok_iff.mp hfacts
  obtain ⟨hbptr, hlevels, hdatablksize, hsize, hmaxblkid⟩ := of_decide_eq_true hdn
  have hempty : (BlockPtr.of_bytes (sector_bytes 1 2 2)).empty = false := by decide +kernel
  have hhealthy : HealthyFile sparse_device dn (BlockPtr.of_bytes (sector_bytes 1 2 2)) 4 512 1 1200 :=
    { bptr := hbptr
      levels := hlevels
      datablksize := hdatablksize
      bonus_size := hsize
      pointers := by omega
      healthy := healthy_sparse
      maxblkid := by omega
      hole := fun _ => .inl (by omega) }
  obtain ⟨written, success, hrun, -, hfile⟩ := extract_file_healthy hhealthy
  obtain ⟨hlength, hbytes, hsuccess⟩ := hfile (by simp [hempty])
  have hblocks : block_of sparse_device 4 1 (BlockPtr.of_bytes (sector_bytes 1 2 2)) 0 = some (List.replicate 512 2) ∧
      block_of sparse_device 4 1 (BlockPtr.of_bytes (sector_bytes 1 2 2)) 1 = none ∧
      block_of sparse_device 4 1 (BlockPtr.of_bytes (sector_bytes 1 2 2)) 2 = some (List.replicate 512 3) := by
    decide +kernel
  have hdamaged : success = false := by
    rw [← Bool.not_eq_true, hsuccess]
    rintro (hzero | hall)
    · exact absurd hzero (by decide)
    · exact hall 1 (by omega) hblocks.2.1
  rw [hmaxblkid] at hlength
  refine ⟨dn, written, hparse, hdamaged ▸ hrun, hlength, ?_⟩
  intro p hp
  rw [hbytes p (by omega)]
  have hlt := Nat.mod_lt p (show 0 < 512 by omega)
  rcases Nat.lt_or_ge p 512 with hfirst | hfirst
  · rw [Nat.div_eq_of_lt hfirst, hblocks.1, if_pos hfirst, Option.getD_some, List.getD_replicate _ hlt]
  rcases Nat.lt_or_ge p 1024 with hsecond | hsecond
  · rw [show p / 512 = 1 by omega, hblocks.2.1, if_neg (by omega), if_pos hsecond]
    rfl
  · rw [show p / 512 = 2 by omega, hblocks.2.2, if_neg (by omega), if_neg (by omega), Option.getD_some,
      List.getD_replicate _ hlt]

/-- A file that is one hole is not written, and not called intact. -/
theorem extract_file_hole :
    DNode.parse none (sector_dnode (List.replicate 16 0)).data = .ok (sector_dnode (List.replicate 16 0)) ∧
      HealthyFile sector_device (sector_dnode (List.replicate 16 0)) hole 1 512 0 512 ∧
      extract_file sector_device (some (sector_dnode (List.replicate 16 0))) = .ok ([], false) ∧
      ¬ ∃ written, extract_file sector_device (some (sector_dnode (List.replicate 16 0))) = .ok (written, true) ∧
        written.length = 512 := by
  have hrun : extract_file sector_device (some (sector_dnode (List.replicate 16 0))) = .ok ([], false) := by
    have hcannot : cannot_extract (sector_dnode (List.replicate 16 0)) = .ok true := by decide
    rw [extract_file, hcannot, bind_ok, if_pos rfl]
  refine ⟨by decide +kernel, ?_, hrun, ?_⟩
  · exact
      { bptr := rfl
        levels := rfl
        datablksize := rfl
        bonus_size := rfl
        pointers := by omega
        healthy := .inl hole_empty
        maxblkid := by decide
        hole := fun _ => .inr rfl }
  · rintro ⟨written, hrun', -⟩
    rw [hrun] at hrun'
    cases hrun'

end zfs_rescue.dataset
