import ZfsRescue.Fileobj.Calls
import ZfsRescue.Runs
import ZfsRescue.Zio.Unreadable

open bytes
open zfs_rescue.zio zfs_rescue.dnode zfs_rescue.blocktree zfs_rescue.dataset runs

namespace zfs_rescue.fileobj

/-- How much of the file block `k` is: as many bytes as it has, or a whole block where
    it cannot be read. -/
def FileObj.block_size (file : FileObj) (k : Nat) : Nat :=
  match file_block file.bt k with
  | .ok (some block, _) => block.length
  | _ => file.datablksize.getD 0

/-- Where block `k` starts in the file. -/
def FileObj.block_start (file : FileObj) (k : Nat) : Nat := ((List.range k).map file.block_size).sum

/-- The file has this byte at an offset. -/
def FileObj.FileByte (file : FileObj) (offset : Nat) (b : UInt8) : Prop :=
  ∃ k block i, k ≤ file.max_blkid ∧ Readable file.bt k block ∧ block[i]? = some b ∧ offset = file.block_start k + i

/-- These are the last bytes of the file before block `k`. -/
def FileObj.Held (file : FileObj) (bytes : Bytes) (k : Nat) : Prop :=
  ∀ i b, bytes[i]? = some b → ∃ offset, file.FileByte offset b ∧ offset + bytes.length = file.block_start k + i

section File

variable {file : FileObj} {k : Nat}

theorem block_size_of_readable {block : Bytes} (h : Readable file.bt k block) : file.block_size k = block.length := by
  obtain ⟨c, h⟩ := readable_iff.mp h
  rw [FileObj.block_size, h]

theorem block_start_succ (file : FileObj) (k : Nat) : file.block_start (k + 1) = file.block_start k + file.block_size k := by
  rw [FileObj.block_start, List.range_succ, List.map_append, List.sum_append, List.map_singleton, List.sum_singleton]
  rfl

theorem block_start_mono {j : Nat} (h : j ≤ k) : file.block_start j ≤ file.block_start k := by
  induction k with
  | zero => rw [Nat.le_zero.mp h]
  | succ k ih =>
    rcases Nat.eq_or_lt_of_le h with rfl | hlt
    · exact Nat.le_refl _
    · rw [block_start_succ]
      exact Nat.le_add_right_of_le (ih (by omega))

/-- The blocks of the file that can be read have the size of the dnode. -/
def FileObj.Regular (file : FileObj) (datablksize : Nat) : Prop :=
  file.datablksize = some datablksize ∧
    ∀ k block, k ≤ file.max_blkid → Readable file.bt k block → block.length = datablksize

/-- There a block starts at its multiple of that size. -/
theorem FileObj.Regular.block_start_eq {datablksize : Nat} (h : file.Regular datablksize)
    (hk : k ≤ file.max_blkid + 1) : file.block_start k = k * datablksize := by
  obtain ⟨hsize, hblocks⟩ := h
  induction k with
  | zero => rw [Nat.zero_mul]; rfl
  | succ k ih =>
    have hlast : file.block_size k = datablksize := by
      by_cases h : ∃ block, Readable file.bt k block
      · obtain ⟨block, hblock⟩ := h
        rw [block_size_of_readable hblock, hblocks k block (by omega) hblock]
      · rw [FileObj.block_size]
        split
        · rename_i block c hread
          exact absurd ⟨block, readable_iff.mpr ⟨c, hread⟩⟩ h
        · rw [hsize, Option.getD_some]
    rw [block_start_succ, ih (by omega), hlast, Nat.succ_mul]

theorem held_nil (file : FileObj) (k : Nat) : file.Held [] k := by
  intro i b h
  cases h

theorem FileObj.Held.drop {bytes : Bytes} (h : file.Held bytes k) (n : Nat) : file.Held (bytes.drop n) k := by
  intro i b hb
  rw [List.getElem?_drop] at hb
  obtain ⟨offset, hbyte, hoffset⟩ := h _ b hb
  have hlt := (List.getElem?_eq_some_iff.mp hb).1
  refine ⟨offset, hbyte, ?_⟩
  rw [List.length_drop]
  omega

/-- Behind the bytes before a block come the bytes of the block. -/
theorem FileObj.Held.append_block {bytes block : Bytes} (h : file.Held bytes k) (hblock : Readable file.bt k block)
    (hk : k ≤ file.max_blkid) : file.Held (bytes ++ block) (k + 1) := by
  have hsize := block_size_of_readable hblock
  intro i b hb
  rw [block_start_succ, List.length_append]
  by_cases hi : i < bytes.length
  · rw [List.getElem?_append_left hi] at hb
    obtain ⟨offset, hbyte, hoffset⟩ := h i b hb
    exact ⟨offset, hbyte, by omega⟩
  · rw [List.getElem?_append_right (by omega)] at hb
    exact ⟨_, ⟨k, block, _, hk, hblock, hb, rfl⟩, by omega⟩

theorem FileObj.Held.append_blocks {bytes : Bytes} {blocks : List Bytes} (h : file.Held bytes k)
    (hblocks : ReadableFrom file.bt k blocks) (hcount : k + blocks.length ≤ file.max_blkid + 1) :
    file.Held (bytes ++ blocks.flatten) (k + blocks.length) := by
  induction blocks generalizing bytes k with
  | nil => simpa using h
  | cons block blocks ih =>
    rw [List.length_cons] at hcount ⊢
    have hnext := ih (h.append_block hblocks.1 (by omega)) hblocks.2 (by omega)
    rw [List.flatten_cons, ← List.append_assoc, show k + (blocks.length + 1) = k + 1 + blocks.length by omega]
    exact hnext

theorem block_start_add {blocks : List Bytes} (hblocks : ReadableFrom file.bt k blocks) :
    file.block_start (k + blocks.length) = file.block_start k + blocks.flatten.length := by
  induction blocks generalizing k with
  | nil => rfl
  | cons block blocks ih =>
    have hnext := ih hblocks.2
    rw [block_start_succ, block_size_of_readable hblocks.1] at hnext
    rw [List.length_cons, List.flatten_cons, List.length_append, show k + (blocks.length + 1) = k + 1 + blocks.length by omega,
      hnext]
    omega

/-- The file has no byte where a block that cannot be read starts. -/
theorem not_fileByte_of_bad {b : UInt8} (hk : k ≤ file.max_blkid) (hbad : Bad file.bt file.max_blkid k)
    (hsize : 0 < file.block_size k) : ¬ file.FileByte (file.block_start k) b := by
  rintro ⟨j, block, i, hj, hblock, hb, hoffset⟩
  have hi := (List.getElem?_eq_some_iff.mp hb).1
  have hsucc := block_start_succ file j
  rw [block_size_of_readable hblock] at hsucc
  rcases Nat.lt_trichotomy j k with hlt | rfl | hlt
  · have hmono := @block_start_mono file k (j + 1) hlt
    omega
  · exact hbad hk ⟨block, hblock⟩
  · have hmono := @block_start_mono file j (k + 1) hlt
    rw [block_start_succ] at hmono
    omega

/-- Of the blocks that can be read from some number on, a bad one is behind the last. -/
theorem flatten_eq_nil_of_bad {blocks empties : List Bytes} (hblocks : ReadableFrom file.bt k blocks)
    (hcount : k + blocks.length ≤ file.max_blkid + 1) (hempties : ReadableFrom file.bt k empties)
    (hnone : empties.flatten = []) (hbad : Bad file.bt file.max_blkid (k + empties.length)) : blocks.flatten = [] := by
  induction blocks generalizing k empties with
  | nil => rfl
  | cons block blocks ih =>
    rw [List.length_cons] at hcount
    cases empties with
    | nil => exact absurd ⟨block, hblocks.1⟩ (hbad (by simp only [List.length_nil]; omega))
    | cons empty empties =>
      rw [List.flatten_cons, List.append_eq_nil_iff] at hnone
      rw [List.length_cons, show k + (empties.length + 1) = k + 1 + empties.length by omega] at hbad
      rw [List.flatten_cons, ih hblocks.2 (by omega) hempties.2 hnone.2 hbad, hblocks.1.eq hempties.1, hnone.1]
      rfl

end File

/-- There is a buffer, and the first block behind those that the call can read raises
    this exception by itself before the call has enough. -/
def FileObj.Raising (file self : FileObj) (n : Nat) (e : PyErr) : Prop :=
  ∃ rest blocks, self.rest = some rest ∧ ReadableFrom file.bt self.next_blkid blocks ∧
    (rest ++ blocks.flatten).length < n ∧ self.next_blkid + blocks.length ≤ file.max_blkid ∧
    file_block file.bt (self.next_blkid + blocks.length) = .error e

/-- A call gives bytes of the file from the position before it on, fewer than asked for
    only at a block that is bad or none, and moves the position behind them. It raises
    an exception only where the block that it comes to does by itself. -/
def FileObj.Truthful (file self : FileObj) (n : Nat) : Prop :=
  (∃ data f, self.call n = some (.ok (data, f)) ∧ f.tell = self.tell + data.length ∧
    (∀ i b, data[i]? = some b → file.FileByte (self.tell + i) b) ∧
    (data.length = n ∨ data.length < n ∧ ∃ k, Bad file.bt file.max_blkid k ∧ (f.next_blkid = k ∨ f.next_blkid = k + 1))) ∨
  ∃ e, self.call n = some (.error e) ∧ file.Raising self n e

/-- The bytes given so far and those left in the buffer are all before the next block. -/
def FileObj.Aligned (file self : FileObj) : Prop :=
  ∃ rest, self.rest = some rest ∧ self.tell + rest.length = file.block_start self.next_blkid

/-- There is a buffer, but no byte to give: none is asked for, or the buffer is used up
    and no byte is ahead of the next bad block. -/
def FileObj.Silent (file self : FileObj) (n : Nat) : Prop :=
  ∃ rest, self.rest = some rest ∧
    (n = 0 ∨ rest = [] ∧ ∃ blocks, ReadableFrom file.bt self.next_blkid blocks ∧ blocks.flatten = [] ∧
      Bad file.bt file.max_blkid (self.next_blkid + blocks.length))

/-- A call to which no block was lost before, or that has nothing to give. -/
def FileObj.Sound (file self : FileObj) (n : Nat) : Prop := file.Aligned self ∨ file.Silent self n

/-- What holds of the object whatever was called: the buffer has bytes of the file
    before the next block. -/
def FileObj.Holds (file self : FileObj) : Prop :=
  self.Reads file.bt file.max_blkid ∧ ∀ rest, self.rest = some rest → file.Held rest self.next_blkid

section Calls

variable {file self f : FileObj} {n k : Nat}

theorem FileObj.StoppedAt.held (hstopped : f.StoppedAt file.bt file.max_blkid k) :
    ∀ rest, f.rest = some rest → file.Held rest f.next_blkid := by
  intro rest hrest
  have hnil : rest = [] := by
    obtain ⟨-, -, hempty⟩ | ⟨-, -, -, hnone | hempty⟩ := hstopped
    · rw [hrest] at hempty
      exact Option.some.inj hempty
    · rw [hrest] at hnone
      cases hnone
    · rw [hrest] at hempty
      exact Option.some.inj hempty
  rw [hnil]
  exact held_nil file _

/-- The block at which a call stopped is bad or none. -/
theorem FileObj.StoppedAt.bad (hstopped : f.StoppedAt file.bt file.max_blkid k) :
    Bad file.bt file.max_blkid k ∧ (f.next_blkid = k ∨ f.next_blkid = k + 1) := by
  obtain ⟨hk, hnext, -⟩ | ⟨-, hbad, hnext, -⟩ := hstopped
  · exact ⟨fun h => by omega, .inl hnext⟩
  · exact ⟨hbad, .inr hnext⟩

/-- Every call keeps what holds of the object. -/
theorem FileObj.Holds.after (h : file.Holds self) (n : Nat) : file.Holds (self.after n) := by
  obtain ⟨hreads, hheld⟩ := h
  cases hrest : self.rest with
  | none =>
    rw [(FileObj.call_of_rest_none hrest n).2]
    exact ⟨hreads, hheld⟩
  | some rest =>
    obtain ⟨blocks, hblocks, hcount, hcases⟩ := hreads.call_cases hrest n
    obtain ⟨-, f, hcall, hf, hnext, -, hleft⟩ | ⟨-, ⟨f, hcall, hf, -, hstopped⟩ | ⟨-, e, -, hcall, hf, hleft⟩⟩ := hcases
    · rw [FileObj.after_of_ok hcall]
      refine ⟨hf, fun rest' hrest' => ?_⟩
      rw [hleft] at hrest'
      cases hrest'
      rw [hnext]
      exact ((hheld rest hrest).append_blocks hblocks hcount).drop n
    · rw [FileObj.after_of_ok hcall]
      exact ⟨hf, hstopped.held⟩
    · refine ⟨hf, fun rest' hrest' => ?_⟩
      rw [hleft] at hrest'
      cases hrest'
      exact held_nil file _

/-- A call to which no block was lost gives the bytes at its position. -/
theorem FileObj.Holds.truthful_of_aligned (h : file.Holds self) (haligned : file.Aligned self) (n : Nat) :
    file.Truthful self n := by
  obtain ⟨hreads, hheld⟩ := h
  obtain ⟨rest, hrest, hstart⟩ := haligned
  obtain ⟨blocks, hblocks, hcount, hcases⟩ := hreads.call_cases hrest n
  have hbytes : ∀ i b, (rest ++ blocks.flatten)[i]? = some b → file.FileByte (self.tell + i) b := by
    intro i b hb
    obtain ⟨offset, hbyte, hoffset⟩ := (hheld rest hrest).append_blocks hblocks hcount i b hb
    rw [block_start_add hblocks, List.length_append] at hoffset
    rwa [show self.tell + i = offset by omega]
  obtain ⟨henough, f, hcall, -, -, htell, -⟩ | ⟨hshort, ⟨f, hcall, -, htell, hstopped⟩ | ⟨hmax, e, hraise, hcall, -⟩⟩ := hcases
  · have hlength := List.length_take_of_le henough
    refine .inl ⟨_, f, hcall, by rw [htell, hlength], fun i b hb => ?_, .inl hlength⟩
    have hi := (List.getElem?_eq_some_iff.mp hb).1
    rw [List.getElem?_take_of_lt (by omega)] at hb
    exact hbytes i b hb
  · exact .inl ⟨_, f, hcall, htell, hbytes, .inr ⟨hshort, _, hstopped.bad⟩⟩
  · exact .inr ⟨e, hcall, rest, blocks, hrest, hblocks, hshort, hmax, hraise⟩

/-- A call that asks for nothing changes nothing. -/
theorem FileObj.Reads.call_zero {rest : Bytes} (hreads : self.Reads file.bt file.max_blkid) (hrest : self.rest = some rest) :
    ∃ f, self.call 0 = some (.ok ([], f)) ∧ f.rest = some rest ∧ f.tell = self.tell ∧ f.next_blkid = self.next_blkid := by
  obtain ⟨buf, hbuf, rfl⟩ := Option.map_eq_some_iff.mp hrest
  refine ⟨self, ?_, hrest, rfl, rfl⟩
  have hmax := hreads.max_blkid_eq
  cases self
  simp only at hbuf hmax
  subst hbuf
  simp [FileObj.call, FileObj.read, FileObj.read_blocks]

/-- A call that has nothing to give gives nothing. -/
theorem FileObj.Holds.truthful_of_silent (h : file.Holds self) (hsilent : file.Silent self n) : file.Truthful self n := by
  obtain ⟨hreads, -⟩ := h
  obtain ⟨rest, hrest, rfl | ⟨rfl, empties, hempties, hnone, hbad⟩⟩ := hsilent
  · obtain ⟨f, hcall, -, htell, -⟩ := hreads.call_zero hrest
    exact .inl ⟨[], f, hcall, htell, by simp, .inl rfl⟩
  · obtain ⟨blocks, hblocks, hcount, hcases⟩ := hreads.call_cases hrest n
    have hflatten := flatten_eq_nil_of_bad hblocks hcount hempties hnone hbad
    rw [hflatten] at hcases
    obtain ⟨henough, f, hcall, -, -, htell, -⟩ | ⟨hshort, ⟨f, hcall, -, htell, hstopped⟩ | ⟨hmax, e, hraise, hcall, -⟩⟩ := hcases
    · have hzero : n = 0 := Nat.le_zero.mp henough
      subst hzero
      exact .inl ⟨_, f, hcall, htell, by simp, .inl rfl⟩
    · exact .inl ⟨_, f, hcall, htell, by simp, .inr ⟨hshort, _, hstopped.bad⟩⟩
    · exact .inr ⟨e, hcall, [], blocks, hrest, hblocks, by rw [hflatten]; exact hshort, hmax, hraise⟩

theorem FileObj.Holds.truthful (h : file.Holds self) (hsound : file.Sound self n) : file.Truthful self n :=
  hsound.elim (fun haligned => h.truthful_of_aligned haligned n) h.truthful_of_silent

/-- Without a buffer even a call for nothing is lost. -/
theorem FileObj.not_sound_of_rest_none (hnone : self.rest = none) : ¬file.Sound self n := by
  rintro (⟨rest, hrest, -⟩ | ⟨rest, hrest, -⟩)
  · rw [hnone] at hrest
    cases hrest
  · rw [hnone] at hrest
    cases hrest

/-- The object is at the start of a bad block that it has passed over. -/
def FileObj.Skipped (file self : FileObj) : Prop :=
  self.rest = some [] ∧
    ∃ k, k < self.next_blkid ∧ k ≤ file.max_blkid ∧ Bad file.bt file.max_blkid k ∧ 0 < file.block_size k ∧
      self.tell = file.block_start k

/-- Where an object is that no exception of a block has left: without a buffer, at the
    position of its bytes, or at a block that it has passed over. -/
def FileObj.Placed (file self : FileObj) : Prop :=
  file.Holds self ∧ (self.rest = none ∨ file.Aligned self ∨ file.Skipped self)

/-- A call that stopped at a bad block leaves no buffer, passes over the block, or finds
    it to be of no size. -/
theorem FileObj.StoppedAt.placed (hstopped : f.StoppedAt file.bt file.max_blkid k) (htell : f.tell = file.block_start k) :
    f.rest = none ∨ file.Aligned f ∨ file.Skipped f := by
  obtain ⟨-, hnext, hempty⟩ | ⟨hk, hbad, hnext, hnone | hempty⟩ := hstopped
  · exact .inr (.inl ⟨[], hempty, by rw [htell, hnext]; rfl⟩)
  · exact .inl hnone
  · rcases Nat.eq_zero_or_pos (file.block_size k) with hzero | hpos
    · exact .inr (.inl ⟨[], hempty, by rw [htell, hnext, block_start_succ, hzero]; rfl⟩)
    · exact .inr (.inr ⟨hempty, k, by omega, hk, hbad, hpos, htell⟩)

/-- Reading a block gives it, or finds that it cannot be read. -/
def FileObj.NeverRaises (file : FileObj) : Prop := ∀ k ≤ file.max_blkid, ∃ r, file_block file.bt k = .ok r

theorem FileObj.NeverRaises.ne_error {e : PyErr} (hfree : file.NeverRaises) (hk : k ≤ file.max_blkid) :
    file_block file.bt k ≠ .error e := by
  obtain ⟨r, hr⟩ := hfree k hk
  rw [hr]
  intro hraise
  cases hraise

/-- Behind a call at the position of the bytes the object is still placed. -/
theorem FileObj.Placed.after_of_aligned (h : file.Placed self) (hfree : file.NeverRaises) (haligned : file.Aligned self)
    (n : Nat) : file.Placed (self.after n) := by
  refine ⟨h.1.after n, ?_⟩
  obtain ⟨rest, hrest, hstart⟩ := haligned
  obtain ⟨blocks, hblocks, hcount, hcases⟩ := h.1.1.call_cases hrest n
  have hend := block_start_add hblocks
  obtain ⟨henough, f, hcall, -, hnext, htell, hleft⟩ | ⟨-, ⟨f, hcall, -, htell, hstopped⟩ | ⟨hmax, e, hraise, -⟩⟩ := hcases
  · rw [FileObj.after_of_ok hcall]
    refine .inr (.inl ⟨_, hleft, ?_⟩)
    rw [hnext, hend, htell, List.length_drop]
    rw [List.length_append] at henough ⊢
    omega
  · rw [FileObj.after_of_ok hcall]
    refine hstopped.placed ?_
    rw [htell, hend, List.length_append]
    omega
  · exact absurd hraise (hfree.ne_error hmax)

/-- A call that has nothing to give leaves a block that was passed over behind. -/
theorem FileObj.Placed.after_of_silent (h : file.Placed self) (hfree : file.NeverRaises) (hskipped : file.Skipped self)
    (hsilent : file.Silent self n) : file.Placed (self.after n) := by
  refine ⟨h.1.after n, ?_⟩
  obtain ⟨hrest, k, hlt, hk, hbad, hsize, htell⟩ := hskipped
  have hplaced : ∀ f : FileObj, f.rest = none ∨ f.rest = some [] → f.tell = self.tell → self.next_blkid ≤ f.next_blkid →
      f.rest = none ∨ file.Aligned f ∨ file.Skipped f := by
    rintro f (hnone | hempty) hsame hnext
    · exact .inl hnone
    · exact .inr (.inr ⟨hempty, k, by omega, hk, hbad, hsize, hsame.trans htell⟩)
  obtain ⟨rest, hrest', rfl | ⟨-, empties, hempties, hnone, hnext⟩⟩ := hsilent
  · obtain ⟨f, hcall, hleft, hsame, hnext⟩ := h.1.1.call_zero hrest
    rw [FileObj.after_of_ok hcall]
    exact hplaced f (.inr hleft) hsame hnext.ge
  · obtain ⟨blocks, hblocks, hcount, hcases⟩ := h.1.1.call_cases hrest n
    rw [flatten_eq_nil_of_bad hblocks hcount hempties hnone hnext] at hcases
    obtain ⟨henough, f, hcall, -, hnext, hsame, hleft⟩ | ⟨-, ⟨f, hcall, -, hsame, hstopped⟩ | ⟨hmax, e, hraise, -⟩⟩ := hcases
    · rw [FileObj.after_of_ok hcall]
      have hzero : n = 0 := Nat.le_zero.mp henough
      exact hplaced f (.inr (by rw [hleft, List.append_nil, List.drop_nil])) (by rw [hsame, hzero]; rfl) (by omega)
    · rw [FileObj.after_of_ok hcall]
      obtain ⟨-, hstop, hempty⟩ | ⟨-, -, hstop, hleft⟩ := hstopped
      · exact hplaced f (.inr hempty) hsame (by omega)
      · exact hplaced f hleft hsame (by omega)
    · exact absurd hraise (hfree.ne_error hmax)

/-- Behind a block that was passed over a call is truthful only if it has nothing to
    give: its first byte would be one of the block. -/
theorem FileObj.Placed.silent_of_truthful (h : file.Placed self) (hfree : file.NeverRaises) (hskipped : file.Skipped self)
    (htruthful : file.Truthful self n) : file.Silent self n := by
  obtain ⟨hrest, k, -, hk, hbad, hsize, htell⟩ := hskipped
  have hbyte : ∀ b, ¬ file.FileByte self.tell b := fun b => htell ▸ not_fileByte_of_bad hk hbad hsize
  have hempty : ∀ data f, self.call n = some (.ok (data, f)) → data = [] := by
    intro data f hcall
    obtain ⟨data', f', hcall', -, hbytes, -⟩ | ⟨e, hcall', -⟩ := htruthful
    · rw [hcall] at hcall'
      cases hcall'
      cases data with
      | nil => rfl
      | cons b data => exact absurd (hbytes 0 b rfl) (hbyte b)
    · rw [hcall] at hcall'
      cases hcall'
  obtain ⟨blocks, hblocks, hcount, hcases⟩ := h.1.1.call_cases hrest n
  obtain ⟨henough, f, hcall, -⟩ | ⟨-, ⟨f, hcall, -, -, hstopped⟩ | ⟨hmax, e, hraise, -⟩⟩ := hcases
  · have hnil := hempty _ f hcall
    have hlength := List.length_take_of_le henough
    rw [hnil] at hlength
    exact ⟨[], hrest, .inl hlength.symm⟩
  · exact ⟨[], hrest, .inr ⟨rfl, blocks, hblocks, hempty _ f hcall, hstopped.bad.1⟩⟩
  · exact absurd hraise (hfree.ne_error hmax)

/-- Of a placed object exactly the calls are truthful to which no block was lost, or that
    have nothing to give, and they leave it placed. -/
theorem FileObj.Placed.step (h : file.Placed self) (hfree : file.NeverRaises) (n : Nat) :
    (file.Truthful self n ↔ file.Sound self n) ∧ (file.Sound self n → file.Placed (self.after n)) := by
  by_cases haligned : file.Aligned self
  · exact ⟨iff_of_true (h.1.truthful_of_aligned haligned n) (.inl haligned), fun _ => h.after_of_aligned hfree haligned n⟩
  obtain ⟨hholds, hnone | haligned' | hskipped⟩ := id h
  · constructor
    · refine iff_of_false ?_ ?_
      · have hcall := (FileObj.call_of_rest_none hnone n).1
        rintro (⟨data, f, hcall', -⟩ | ⟨e, -, rest, blocks, hrest, -⟩)
        · rw [hcall] at hcall'
          cases hcall'
        · rw [hnone] at hrest
          cases hrest
      · exact FileObj.not_sound_of_rest_none hnone
    · exact fun hsound => absurd hsound (FileObj.not_sound_of_rest_none hnone)
  · exact absurd haligned' haligned
  · exact ⟨⟨fun ht => .inr (h.silent_of_truthful hfree hskipped ht), hholds.truthful⟩,
      fun hsound => h.after_of_silent hfree hskipped (hsound.resolve_left haligned)⟩

end Calls

/-- An object that was just opened is at the start of its file. -/
theorem init_holds {vdev : GenericDevice} {dnode : DNode} {file : FileObj} (h : FileObj.init vdev dnode false = .ok file) :
    file.Holds file ∧ file.Aligned file := by
  obtain ⟨bt, -, h⟩ := bind_eq_ok_iff.mp h
  obtain ⟨size, -, h⟩ := bind_eq_ok_iff.mp h
  cases h
  refine ⟨⟨⟨rfl, rfl, rfl, bt.cached_nil, Nat.zero_le _⟩, ?_⟩, [], rfl, rfl⟩
  intro rest hrest
  cases hrest
  exact held_nil _ _

/-- The calls of a run are truthful when no block was lost before any of them, and where
    blocks do not raise exceptions only then. The offsets of the bytes are those at which
    a file of equal blocks has them. -/
theorem calls_truthful {vdev : GenericDevice} {dnode : DNode} {file : FileObj}
    (h : FileObj.init vdev dnode false = .ok file) (sizes : List Nat) :
    (Along FileObj.after file.Sound file sizes → Along FileObj.after file.Truthful file sizes) ∧
      (file.NeverRaises →
        (Along FileObj.after file.Truthful file sizes ↔ Along FileObj.after file.Sound file sizes)) ∧
      ∀ datablksize, file.Regular datablksize → ∀ k ≤ file.max_blkid + 1, file.block_start k = k * datablksize := by
  obtain ⟨hholds, haligned⟩ := init_holds h
  refine ⟨fun hsound => ?_, fun hfree => ?_, fun datablksize hregular k hk => hregular.block_start_eq hk⟩
  · exact (along_of_invariant file.Holds (fun f n hf hn => ⟨hf.truthful hn, hf.after n⟩) hholds hsound).1
  · exact along_iff_of_invariant file.Placed (fun f n hf => hf.step hfree n) ⟨hholds, .inr (.inl haligned)⟩

/-- The bytes of a dnode of eight blocks of 512 bytes, with its root in some sector. -/
def file_dnode (nlevels root : Nat) : Bytes :=
  fit 512
    ([19, 17, UInt8.ofNat nlevels, 1, 17, 0, 0, 0, 1, 0, 144, 0, 0, 0, 0, 0, 7] ++ List.replicate 47 0 ++
      sector_bytes root 2 2)

/-- A device with an array of two pointers in its first sector, to nothing in the second
    and to the third, which has a pointer to the fourth. -/
def lost_device : GenericDevice where
  ashift := 9
  read_physical offset size :=
    .ok
      (if offset = 0 ∨ offset = 1024 then none
      else if offset = 512 then some (fit size (sector_bytes 2 3 2 ++ sector_bytes 3 2 2))
      else if offset = 1536 then some (fit size (sector_bytes 4 2 2))
      else some (List.replicate size 7))
  zlib_decompress := .ok

def opened (nlevels root : Nat) : Py FileObj := do
  let dn ← DNode.parse none (file_dnode nlevels root)
  FileObj.init lost_device dn false

/-- Behind an unreadable block the next call raises an exception. Behind four that
    cannot be reached the fifth is given at the position of the first. -/
theorem not_truthful_lost :
    (∃ file, opened 2 1 = .ok file ∧ file.reads 9 [10] = some (.ok [([], 0)]) ∧
        file.reads 9 [10, 10] = some (.error .TypeError) ∧ ¬ Along FileObj.after file.Truthful file [10, 10]) ∧
      ∃ file, opened 3 1 = .ok file ∧
        file.reads 9 [512, 512, 512, 512, 3] = some (.ok [([], 0), ([], 0), ([], 0), ([], 0), ([7, 7, 7], 3)]) ∧
        ¬ Along FileObj.after file.Truthful file [512, 512, 512, 512, 3] := by
  have hraises : (opened 2 1).map (fun file => decide (file.reads 9 [10] = some (.ok [([], 0)]) ∧
      file.reads 9 [10, 10] = some (.error .TypeError) ∧
      ((file.after 10).call 10).map (Except.map Prod.fst) = some (.error .TypeError) ∧
      (file.after 10).rest = none)) = .ok true := by
    decide +kernel
  have hlost : (opened 3 1).map (fun file => decide (
      file.reads 9 [512, 512, 512, 512, 3] = some (.ok [([], 0), ([], 0), ([], 0), ([], 0), ([7, 7, 7], 3)]) ∧
      ((((file.after 512).after 512).after 512).after 512).tell = 0 ∧
      (((((file.after 512).after 512).after 512).after 512).call 3).map (Except.map Prod.fst) = some (.ok [7, 7, 7]) ∧
      file_block file.bt 0 = .ok (none, false) ∧ file.block_size 0 = 512)) = .ok true := by
    decide +kernel
  obtain ⟨file, hopened, hfacts⟩ := map_eq_ok_iff.mp hraises
  obtain ⟨file', hopened', hfacts'⟩ := map_eq_ok_iff.mp hlost
  obtain ⟨hfirst, hsecond, hcall, hnone⟩ := of_decide_eq_true hfacts
  obtain ⟨hreads, htell, hcall', hblock, hsize⟩ := of_decide_eq_true hfacts'
  refine ⟨⟨file, hopened, hfirst, hsecond, ?_⟩, file', hopened', hreads, ?_⟩
  · rintro ⟨-, htruthful, -⟩
    obtain ⟨data, f, h, -⟩ | ⟨e, -, rest, blocks, hrest, -⟩ := htruthful
    · rw [h] at hcall
      cases hcall
    · rw [hnone] at hrest
      cases hrest
  · rintro ⟨-, -, -, -, htruthful, -⟩
    obtain ⟨data, f, h, -, hbytes, -⟩ | ⟨e, h, -⟩ := htruthful
    · rw [h] at hcall'
      cases hcall'
      have hbyte := hbytes 0 7 rfl
      rw [htell] at hbyte
      refine not_fileByte_of_bad (Nat.zero_le _) (fun _ => ?_) (by omega) hbyte
      rintro ⟨block, hreadable⟩
      obtain ⟨c, hread⟩ := readable_iff.mp hreadable
      rw [hblock] at hread
      cases hread
    · rw [h] at hcall'
      cases hcall'

/-- One block in two calls. -/
theorem calls_truthful_sector : ∃ file, opened 1 4 = .ok file ∧ Along FileObj.after file.Truthful file [100, 412] := by
  have hruns : (opened 1 4).map (fun file => ((file.after 100).rest, (file.after 100).tell,
      file.block_start (file.after 100).next_blkid)) = .ok (some (List.replicate 412 7), 100, 512) := by
    decide +kernel
  obtain ⟨file, hopened, hfacts⟩ := map_eq_ok_iff.mp hruns
  simp only [Prod.mk.injEq] at hfacts
  obtain ⟨hrest, htell, hstart⟩ := hfacts
  obtain ⟨dn, -, hinit⟩ := bind_eq_ok_iff.mp hopened
  refine ⟨file, hopened, (calls_truthful hinit [100, 412]).1 ⟨.inl (init_holds hinit).2, .inl ⟨_, hrest, ?_⟩, trivial⟩⟩
  rw [htell, hstart, List.length_replicate]

end zfs_rescue.fileobj
