import ZfsRescue.Objectset

open bytes
open zfs_rescue.blockptr zfs_rescue.zio zfs_rescue.dnode zfs_rescue.blocktree zfs_rescue.objectset

namespace zfs_rescue.dataset

/-- `bonus.size()`. A dnode without a bonus has `None` there. -/
def file_size (file_dnode : DNode) : Py Nat :=
  match file_dnode.bonus with
  | none => .error .AttributeError
  | some bonus => bonus.size

/-- The target file while it is written, and whether a block was bad so far. -/
structure Output where
  written : Bytes := []
  corrupted : Bool := false
  deriving DecidableEq, Repr

/-- The read of the block behind what the tree gave. -/
def read_bp (vdev : GenericDevice) : Option BlockPtr → Py (Option Bytes × Bool)
  | none => .ok (none, false)
  | some bp => vdev.read_block bp 0

/-- One turn of the loop, once the block is read. Its checksum flag has been
    dropped by now. -/
def Output.write_block (self : Output) (file_dnode : DNode) : Option Bytes → Py Output
  | some block_data => .ok { self with written := self.written ++ block_data }
  | none =>
    match file_dnode.datablksize with
    | none => .error .TypeError
    | some datablksize => .ok { written := self.written ++ List.replicate datablksize 0, corrupted := true }

/-- The loop over the blocks, with the tree's cache. -/
def write_blocks (file_dnode : DNode) (bt : BlockTree) : Cache → Output → List Nat → Py Output
  | _, out, [] => .ok out
  | cache, out, n :: rest =>
    match bt.getitem cache n with
    | (.error e, _) => .error e
    | (.ok bp, cache) => do
      let r ← read_bp bt.vdev bp
      let out ← out.write_block file_dnode r.1
      write_blocks file_dnode bt cache out rest

def write_file (file_dnode : DNode) (bt : BlockTree) (size : Nat) : Py Output :=
  if 0 < size then write_blocks file_dnode bt [] {} (List.range (file_dnode.maxblkid + 1)) else .ok {}

/-- The early return for a file of some size whose first pointer is empty. -/
def cannot_extract (file_dnode : DNode) : Py Bool := do
  let bptr ← file_dnode.blkptrs 0
  if bptr.empty then do
    let size ← file_size file_dnode
    .ok (decide (0 < size))
  else .ok false

/-- The part behind the early return. -/
def extract_blocks (vdev : GenericDevice) (file_dnode : DNode) : Py (Bytes × Bool) := do
  let bt ← block_tree vdev file_dnode
  let size ← file_size file_dnode
  let out ← write_file file_dnode bt size
  .ok (out.written.take (min out.written.length size), !out.corrupted)

/-- `extract_file` for what the object set gave: the target file that it leaves
    behind, and what it returns. -/
def extract_file (vdev : GenericDevice) : Option DNode → Py (Bytes × Bool)
  | none => .error .AttributeError
  | some file_dnode => do
    let skip ← cannot_extract file_dnode
    if skip then .ok ([], false) else extract_blocks vdev file_dnode

/-- What reading block `n` of a file gives. -/
def file_block (bt : BlockTree) (n : Nat) : Py (Option Bytes × Bool) := do
  let bp ← bt.lookup n
  read_bp bt.vdev bp

theorem file_block_pointer (levels : Nat) (vdev : GenericDevice) (bptr : BlockPtr) :
    file_block ⟨levels, vdev, .pointer bptr⟩ 0 = vdev.read_block bptr 0 :=
  rfl

/-- What the loop writes for block `n`. -/
def piece (file_dnode : DNode) (bt : BlockTree) (n : Nat) : Bytes :=
  match file_block bt n with
  | .ok (some block_data, _) => block_data
  | _ => List.replicate (file_dnode.datablksize.getD 0) 0

/-- Whether the loop counts block `n` as bad. -/
def bad_block (bt : BlockTree) (n : Nat) : Bool :=
  match file_block bt n with
  | .ok (some _, _) => false
  | _ => true

/-- The loop gets past block `n`: reading it raises nothing, and where it is bad
    the size of the zeros is known. -/
def Passable (file_dnode : DNode) (bt : BlockTree) (n : Nat) : Prop :=
  ∃ r, file_block bt n = .ok r ∧ (r.1 = none → ∃ datablksize, file_dnode.datablksize = some datablksize)

theorem write_block_eq_ok_iff {file_dnode : DNode} {bt : BlockTree} {out out' : Output} {n : Nat} :
    (file_block bt n >>= fun r => out.write_block file_dnode r.1) = .ok out' ↔
      Passable file_dnode bt n ∧
        out' = { written := out.written ++ piece file_dnode bt n, corrupted := out.corrupted || bad_block bt n } := by
  rw [Passable, piece, bad_block]
  cases file_block bt n with
  | error e => simp
  | ok r =>
    obtain ⟨data, c⟩ := r
    rw [bind_ok]
    cases data with
    | some block_data => simp [Output.write_block, eq_comm]
    | none =>
      cases hsize : file_dnode.datablksize with
      | none => simp [Output.write_block, hsize]
      | some datablksize => simp [Output.write_block, hsize, eq_comm]

/-- The whole loop, on the medium: it ends when no block stops it, and leaves
    behind the pieces in order. -/
theorem write_blocks_eq_ok_iff {file_dnode : DNode} {bt : BlockTree} {cache : Cache} {out out' : Output}
    (hcached : bt.Cached cache) (blocks : List Nat) :
    write_blocks file_dnode bt cache out blocks = .ok out' ↔
      (∀ n ∈ blocks, Passable file_dnode bt n) ∧
        out' =
          { written := out.written ++ blocks.flatMap (piece file_dnode bt)
            corrupted := out.corrupted || blocks.any (bad_block bt) } := by
  induction blocks generalizing cache out with
  | nil => simp [write_blocks, eq_comm]
  | cons n rest ih =>
    obtain ⟨hlookup, hcached'⟩ := BlockTree.getitem_spec hcached (n : Int)
    have hstep : write_blocks file_dnode bt cache out (n :: rest) =
        ((file_block bt n >>= fun r => out.write_block file_dnode r.1) >>= fun out =>
          write_blocks file_dnode bt (bt.getitem cache n).2 out rest) := by
      rw [write_blocks, file_block, ← hlookup]
      generalize bt.getitem cache n = found
      obtain ⟨bp, cache'⟩ := found
      cases bp with
      | error e => rfl
      | ok bp =>
        simp only [bind_ok]
        cases read_bp bt.vdev bp <;> rfl
    rw [hstep, bind_eq_ok_iff]
    simp only [write_block_eq_ok_iff, ih hcached']
    constructor
    · rintro ⟨_, ⟨hn, rfl⟩, hrest, rfl⟩
      refine ⟨fun m hm => ?_, by simp [Bool.or_assoc]⟩
      rcases List.mem_cons.mp hm with rfl | hm
      · exact hn
      · exact hrest m hm
    · rintro ⟨hall, rfl⟩
      exact ⟨_, ⟨hall n (by simp), rfl⟩, fun m hm => hall m (by simp [hm]), by simp [Bool.or_assoc]⟩

/-- What a run of `extract_file` that returns something must have done behind
    the early return. -/
theorem extract_blocks_eq_ok_iff {vdev : GenericDevice} {file_dnode : DNode} {written : Bytes} {success : Bool} :
    extract_blocks vdev file_dnode = .ok (written, success) ↔
      ∃ bt size out, block_tree vdev file_dnode = .ok bt ∧ file_size file_dnode = .ok size ∧
        write_file file_dnode bt size = .ok out ∧ written = out.written.take (min out.written.length size) ∧
        success = !out.corrupted := by
  simp only [extract_blocks, bind_eq_ok_iff, Except.ok.injEq, Prod.mk.injEq]
  constructor
  · rintro ⟨bt, hbt, size, hsize, out, hout, rfl, rfl⟩
    exact ⟨bt, size, out, hbt, hsize, hout, rfl, rfl⟩
  · rintro ⟨bt, size, out, hbt, hsize, hout, rfl, rfl⟩
    exact ⟨bt, hbt, size, hsize, out, hout, rfl, rfl⟩

/-- A file whose first block can be read is not turned away. -/
theorem cannot_extract_of_block {vdev : GenericDevice} {file_dnode : DNode} {bt : BlockTree} {data : Bytes} {c : Bool}
    (hbt : block_tree vdev file_dnode = .ok bt) (hblock : file_block bt 0 = .ok (some data, c)) :
    cannot_extract file_dnode = .ok false := by
  rw [block_tree, bind_eq_ok_iff] at hbt
  obtain ⟨bptr, hbptr, hinit⟩ := hbt
  rw [cannot_extract, hbptr, bind_ok]
  by_cases hempty : bptr.empty = true
  · exfalso
    rw [BlockTree.init] at hinit
    split at hinit
    · cases hinit
      rw [file_block_pointer, vdev.read_block_of_empty 0 hempty] at hblock
      cases hblock
    · have hroot : load_from_bptr vdev bptr = .ok none := load_indirect_of_empty hempty
      rw [hroot] at hinit
      cases hinit
  · rw [if_neg hempty]

section Corruption

variable {vdev : GenericDevice} {file_dnode : DNode} {bt : BlockTree} {size : Nat}

/-- Where in the written file block `n` starts. -/
def start (file_dnode : DNode) (bt : BlockTree) (n : Nat) : Nat :=
  ((List.range n).flatMap (piece file_dnode bt)).length

/-- Block `n` gives bytes to the truncated file. -/
def Contributes (file_dnode : DNode) (bt : BlockTree) (size n : Nat) : Prop :=
  piece file_dnode bt n ≠ [] ∧ start file_dnode bt n < size

/-- Where the extraction reports success, every block that gave bytes matched its
    checksum. -/
def NoSilentCorruption (vdev : GenericDevice) (file_dnode : DNode) : Prop :=
  ∀ written, extract_file vdev (some file_dnode) = .ok (written, true) →
    ∀ bt size, block_tree vdev file_dnode = .ok bt → file_size file_dnode = .ok size →
      ∀ n, n ≤ file_dnode.maxblkid → Contributes file_dnode bt size n →
        ∃ data, file_block bt n = .ok (some data, true)

theorem bad_block_eq_false_iff {n : Nat} : bad_block bt n = false ↔ ∃ data c, file_block bt n = .ok (some data, c) := by
  rw [bad_block]
  split
  · rename_i data c h
    simp [h]
  · rename_i h
    simp only [Bool.true_eq_false, false_iff, not_exists]
    exact h

/-- A file of some size is reported intact exactly when each of its blocks was
    found and gave data. -/
theorem write_file_intact (hsize : 0 < size) :
    (∃ out, write_file file_dnode bt size = .ok out ∧ out.corrupted = false) ↔
      ∀ n, n ≤ file_dnode.maxblkid → ∃ data c, file_block bt n = .ok (some data, c) := by
  rw [write_file, if_pos hsize]
  simp only [write_blocks_eq_ok_iff bt.cached_nil, List.mem_range, ← bad_block_eq_false_iff]
  constructor
  · rintro ⟨_, ⟨-, rfl⟩, hintact⟩ n hn
    simp only [Bool.false_or, List.any_eq_false, List.mem_range, Bool.not_eq_true] at hintact
    exact hintact n (by omega)
  · intro hall
    refine ⟨_, ⟨fun n hn => ?_, rfl⟩, ?_⟩
    · obtain ⟨data, c, hblock⟩ := bad_block_eq_false_iff.mp (hall n (by omega))
      exact ⟨_, hblock, fun h => by cases h⟩
    · simp only [Bool.false_or, List.any_eq_false, List.mem_range, Bool.not_eq_true]
      exact fun n hn => hall n (by omega)

/-- Corruption goes unreported exactly when every block of the file gives data,
    and one that counts gives it against its checksum. -/
theorem noSilentCorruption_iff (vdev : GenericDevice) (file_dnode : DNode) :
    NoSilentCorruption vdev file_dnode ↔
      ∀ bt size, block_tree vdev file_dnode = .ok bt → file_size file_dnode = .ok size →
        (∀ n, n ≤ file_dnode.maxblkid → ∃ data c, file_block bt n = .ok (some data, c)) →
          ∀ n data, n ≤ file_dnode.maxblkid → file_block bt n = .ok (some data, false) →
            data = [] ∨ size ≤ start file_dnode bt n := by
  constructor
  · intro h bt size hbt hsize hall n data hn hblock
    by_contra hcounts
    rw [not_or, Nat.not_le] at hcounts
    obtain ⟨out, hout, hintact⟩ := (write_file_intact (show 0 < size by omega)).mpr hall
    obtain ⟨first, c, hfirst⟩ := hall 0 (Nat.zero_le _)
    have hrun : extract_file vdev (some file_dnode) = .ok (out.written.take (min out.written.length size), true) := by
      rw [extract_file, cannot_extract_of_block hbt hfirst, bind_ok, if_neg (by simp), extract_blocks_eq_ok_iff]
      exact ⟨bt, size, out, hbt, hsize, hout, rfl, by simp [hintact]⟩
    have hcontributes : Contributes file_dnode bt size n := by
      refine ⟨?_, hcounts.2⟩
      rw [piece, hblock]
      exact hcounts.1
    obtain ⟨other, hother⟩ := h _ hrun bt size hbt hsize n hn hcontributes
    rw [hblock] at hother
    cases hother
  · intro h written hrun bt size hbt hsize n hn hcontributes
    rw [extract_file, bind_eq_ok_iff] at hrun
    obtain ⟨skip, -, hrun⟩ := hrun
    cases skip with
    | true => cases hrun
    | false =>
      rw [if_neg (by simp), extract_blocks_eq_ok_iff] at hrun
      obtain ⟨bt', size', out, hbt', hsize', hout, -, hsuccess⟩ := hrun
      rw [hbt] at hbt'
      rw [hsize] at hsize'
      cases hbt'
      cases hsize'
      have hall := (write_file_intact (Nat.zero_lt_of_lt hcontributes.2)).mp ⟨out, hout, by simpa using hsuccess.symm⟩
      obtain ⟨data, c, hblock⟩ := hall n hn
      cases c with
      | true => exact ⟨data, hblock⟩
      | false =>
        have hpiece : piece file_dnode bt n = data := by rw [piece, hblock]
        rcases h bt size hbt hsize hall n data hn hblock with hnil | hle
        · exact absurd (hpiece.trans hnil) hcontributes.1
        · exact absurd hcontributes.2 (by omega)

end Corruption

/-- A dnode of a file of one sector, with the words of its pointer. -/
def sector_dnode (words : List Nat) : DNode where
  data := encode_words
    ([19 + 17 * 2 ^ 8 + 2 ^ 16 + 2 ^ 24 + 17 * 2 ^ 32, 1 + 264 * 2 ^ 16, 0, 0, 0, 0, 0, 0] ++ words ++
      List.replicate 10 0 ++ [512] ++ List.replicate 29 0)
  type := some 19
  indblkshift := 17
  nlevels := 1
  nblkptr := 1
  bonustype := 17
  flags := 0
  datablkszsec := 1
  bonuslen := 264
  extra_slots := 0
  maxblkid := 0
  used := 0
  blkptr := some [BlockPtr.of_bytes (encode_words words)]
  datablksize := some 512
  bonus := some (.znode { words := List.replicate 10 0 ++ [512] ++ List.replicate 7 0, zp_inline_content := [] })

/-- A sector of ones under a checksum of zeros is extracted as an intact file. -/
theorem not_noSilentCorruption_sector :
    DNode.parse none (sector_dnode (sector_words 0)).data = .ok (sector_dnode (sector_words 0)) ∧
      extract_file sector_device (some (sector_dnode (sector_words 0))) = .ok (List.replicate (128 * 4) 1, true) ∧
      ¬ NoSilentCorruption sector_device (sector_dnode (sector_words 0)) := by
  have hbt : block_tree sector_device (sector_dnode (sector_words 0)) =
      .ok ⟨1, sector_device, .pointer (sector_pointer 0)⟩ := rfl
  have hsize : file_size (sector_dnode (sector_words 0)) = .ok 512 := rfl
  have hread : sector_device.read_block (sector_pointer 0) 0 = .ok (some (List.replicate (128 * 4) 1), false) :=
    by decide +kernel
  have hblock : file_block ⟨1, sector_device, .pointer (sector_pointer 0)⟩ 0 =
      .ok (some (List.replicate (128 * 4) 1), false) := by
    rw [file_block_pointer, hread]
  have hall : ∀ n, n ≤ (sector_dnode (sector_words 0)).maxblkid → ∃ data c,
      file_block ⟨1, sector_device, .pointer (sector_pointer 0)⟩ n = .ok (some data, c) := by
    intro n hn
    obtain rfl : n = 0 := Nat.le_zero.mp hn
    exact ⟨_, _, hblock⟩
  have hpiece : piece (sector_dnode (sector_words 0)) ⟨1, sector_device, .pointer (sector_pointer 0)⟩ 0 =
      List.replicate (128 * 4) 1 := by
    rw [piece, hblock]
  have hrun : extract_file sector_device (some (sector_dnode (sector_words 0))) =
      .ok (List.replicate (128 * 4) 1, true) := by
    obtain ⟨out, hout, hintact⟩ := (write_file_intact (show 0 < 512 by omega)).mpr hall
    have hwritten : out.written = List.replicate (128 * 4) 1 := by
      rw [write_file, if_pos (by omega), write_blocks_eq_ok_iff (BlockTree.cached_nil _)] at hout
      obtain ⟨-, rfl⟩ := hout
      have hrange : List.range ((sector_dnode (sector_words 0)).maxblkid + 1) = [0] := rfl
      rw [hrange, List.flatMap_cons, List.flatMap_nil, hpiece, List.append_nil, List.nil_append]
    rw [extract_file, cannot_extract_of_block hbt hblock, bind_ok, if_neg (by simp), extract_blocks_eq_ok_iff]
    refine ⟨_, _, out, hbt, hsize, hout, ?_, by simp [hintact]⟩
    rw [hwritten, List.length_replicate, Nat.min_self, List.take_of_length_le (by rw [List.length_replicate])]
  refine ⟨by decide +kernel, hrun, fun h => ?_⟩
  have hcontributes : Contributes (sector_dnode (sector_words 0)) ⟨1, sector_device, .pointer (sector_pointer 0)⟩ 512
      0 := by
    refine ⟨?_, by rw [start, List.range_zero, List.flatMap_nil, List.length_nil]; omega⟩
    rw [hpiece]
    exact List.ne_nil_of_length_pos (by rw [List.length_replicate]; omega)
  obtain ⟨data, hintact⟩ := h _ hrun _ _ hbt hsize 0 (Nat.le_refl _) hcontributes
  rw [hblock] at hintact
  cases hintact

end zfs_rescue.dataset
