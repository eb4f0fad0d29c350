import ZfsRescue.Proxy.Parts
import ZfsRescue.Proxy.ReadvNetwork

open bytes
open zfs_rescue.server runs

namespace zfs_rescue.proxy.vector

/-- The slices that `_read_physical` cuts the buffer into. -/
def pieces (data : Bytes) (blockv : List Block) : List Bytes := cut data 0 (blockv.map fun b => b.2.2)

/-- Over files and over the network the read comes back with one buffer, and what it has for
    a block are the bytes of the image of its device, with zeros past the end. -/
def ReadsInPlace (self : FileProxy) (disks : Disks) (img : String → File) (blockv : List Block) : Prop :=
  ∃ data, (∀ files, self.Reached files → (self.readv_files files blockv).1 = .ok data) ∧
    pieces data blockv = blockv.map (fun b => window (img b.1).1 b.2.1 b.2.2) ∧
    ∃ reader sent, readv_network blockv = .ok (reader, sent) ∧
      Leads (Step disks fun _ => false) OwnReply (fun s => s.reader = .returned (.ok data))
        ⟨reader, sent, .command [], 0, []⟩

/-- Every block that is not empty lies in its image, and all of them can be requested. -/
def InImages (img : String → File) (blockv : List Block) : Prop :=
  blockv.length ≤ 255 ∧ ∀ b ∈ blockv, (encode_utf8 b.1).length < 2 ^ 8 ∧ b.2.1 < 2 ^ 63 ∧
    (b.2.2 = 0 ∨ b.2.1 + b.2.2 ≤ (img b.1).1.length)

/-- What the files have of some blocks, without what is missing. -/
def available (img : String → File) (blockv : List Block) : Bytes :=
  blockv.flatMap fun b => slice (img b.1).1 b.2.1 b.2.2

theorem available_cons (img : String → File) (b : Block) (rest : List Block) :
    available img (b :: rest) = slice (img b.1).1 b.2.1 b.2.2 ++ available img rest := rfl

section Files

variable {self : FileProxy} {img : String → File} {blockv : List Block}

theorem read_files_whole (hwhole : self.use_1tb = false) {files : DeviceFiles} (hfiles : self.Reached files) {b : Block}
    (hopen : self.open_part b.1 0 = .ok (img b.1).1) :
    (self.read_files files b.1 b.2.1 b.2.2).1 = seek_read (img b.1).1 b.2.1 b.2.2 := by
  rw [hfiles.read_files, FileProxy.open_part_whole hwhole b.1 _ 0, hopen, bind_ok, FileProxy.part_offset, hwhole,
    if_neg Bool.false_ne_true]

/-- The loop over the blocks appends what each read returns. -/
theorem readv_files_cons_iff (self : FileProxy) (files : DeviceFiles) (b : Block) (rest : List Block) (data : Bytes) :
    (self.readv_files files (b :: rest)).1 = .ok data ↔
      ∃ xs ys, (self.read_files files b.1 b.2.1 b.2.2).1 = .ok xs ∧
        (self.readv_files (self.read_files files b.1 b.2.1 b.2.2).2 rest).1 = .ok ys ∧ data = xs ++ ys := by
  rw [FileProxy.readv_files]
  obtain ⟨first, files'⟩ := self.read_files files b.1 b.2.1 b.2.2
  cases first with
  | error e => simp
  | ok xs =>
    dsimp only
    generalize self.readv_files files' rest = next
    obtain ⟨more, files''⟩ := next
    cases more with
    | error e => simp
    | ok ys =>
      simp only [Except.ok.injEq]
      constructor
      · rintro rfl
        exact ⟨xs, ys, rfl, rfl, rfl⟩
      · rintro ⟨_, _, rfl, rfl, rfl⟩
        rfl

/-- The read over files puts together what there is of the blocks. -/
theorem readv_files_eq_ok_iff (hwhole : self.use_1tb = false)
    (hopen : ∀ b ∈ blockv, self.open_part b.1 0 = .ok (img b.1).1) (hchunk : ∀ b ∈ blockv, b.2.2 ≤ CHUNKSIZE)
    {files : DeviceFiles} (hfiles : self.Reached files) {data : Bytes} :
    (self.readv_files files blockv).1 = .ok data ↔ (∀ b ∈ blockv, b.2.1 < 2 ^ 63) ∧ data = available img blockv := by
  induction blockv generalizing files data with
  | nil =>
    simp only [FileProxy.readv_files, Except.ok.injEq, available, List.flatMap_nil, List.not_mem_nil, false_implies,
      implies_true, true_and]
    exact eq_comm
  | cons b rest ih =>
    obtain ⟨hopenb, hopen⟩ := List.forall_mem_cons.mp hopen
    obtain ⟨hb, hchunk⟩ := List.forall_mem_cons.mp hchunk
    have hcount : b.2.2 < 2 ^ 63 := Nat.lt_of_le_of_lt hb (by decide)
    have hrest := fun ys => @ih hopen hchunk _ (hfiles.read b.1 b.2.1 b.2.2) ys
    simp only [readv_files_cons_iff, read_files_whole hwhole hfiles hopenb, seek_read_eq_ok_iff, hrest, List.forall_mem_cons,
      available_cons]
    constructor
    · rintro ⟨_, _, ⟨hseek, -, rfl⟩, ⟨hoffsets, rfl⟩, rfl⟩
      exact ⟨⟨hseek, hoffsets⟩, rfl⟩
    · rintro ⟨⟨hseek, hoffsets⟩, rfl⟩
      exact ⟨_, _, ⟨hseek, hcount, rfl⟩, ⟨hoffsets, rfl⟩, rfl⟩

/-- What is there of a block is at most the block. -/
theorem length_available_le (img : String → File) (blockv : List Block) :
    (available img blockv).length ≤ (blockv.map fun b => b.2.2).sum := by
  induction blockv with
  | nil => exact Nat.le_refl 0
  | cons b rest ih =>
    have hslice := length_slice_le (img b.1).1 b.2.1 b.2.2
    rw [available_cons, List.length_append, List.map_cons, List.sum_cons]
    omega

/-- Nothing is missing when as many bytes are there as were asked for. -/
theorem inside_of_length (h : (blockv.map fun b => b.2.2).sum ≤ (available img blockv).length) :
    ∀ b ∈ blockv, b.2.2 = 0 ∨ b.2.1 + b.2.2 ≤ (img b.1).1.length := by
  induction blockv with
  | nil => simp
  | cons b rest ih =>
    have hslice := length_slice (img b.1).1 b.2.1 b.2.2
    have hrest := length_available_le img rest
    rw [available_cons, List.length_append, List.map_cons, List.sum_cons] at h
    refine List.forall_mem_cons.mpr ⟨by omega, ih ?_⟩
    omega

theorem window_of_inside {f : File} {offset count : Nat} (h : count = 0 ∨ offset + count ≤ f.1.length) :
    window f.1 offset count = slice f.1 offset count := by
  rw [window_eq_fit]
  apply fit_of_length_eq
  rw [length_slice]
  omega

/-- The bytes that the images have for the blocks, one after the other. -/
theorem pieces_windows (img : String → File) (blockv : List Block) :
    pieces (blockv.flatMap fun b => window (img b.1).1 b.2.1 b.2.2) blockv =
      blockv.map fun b => window (img b.1).1 b.2.1 b.2.2 := by
  have hcut := cut_flatten (blockv.map fun b => window (img b.1).1 b.2.1 b.2.2) [] []
  rw [List.map_map, List.nil_append, List.append_nil, ← List.flatMap_def, List.length_nil] at hcut
  have hsizes : blockv.map (List.length ∘ fun b => window (img b.1).1 b.2.1 b.2.2) = blockv.map fun b => b.2.2 :=
    List.map_congr_left fun b _ => length_window _ _ _
  rwa [hsizes] at hcut

/-- A buffer whose pieces are whole is as long as the blocks. -/
theorem le_length_of_pieces {data : Bytes}
    (h : pieces data blockv = blockv.map fun b => window (img b.1).1 b.2.1 b.2.2) :
    (blockv.map fun b => b.2.2).sum ≤ data.length := by
  have hlength := congrArg (fun parts => parts.flatten.length) h
  simp only [pieces, flatten_cut, length_slice, List.length_flatten, List.map_map] at hlength
  have hsizes : blockv.map (List.length ∘ fun b => window (img b.1).1 b.2.1 b.2.2) = blockv.map fun b => b.2.2 :=
    List.map_congr_left fun b _ => length_window _ _ _
  rw [hsizes] at hlength
  omega

end Files

theorem Served.eq_windows {disks : Disks} {faults : Nat → Bool} {img : String → File} {blocks : List Block} {buf : Bytes}
    (h : Served disks faults blocks buf) (hopen : ∀ b ∈ blocks, disks.open_disk b.1 = .ok (img b.1))
    (hreads : ∀ b ∈ blocks, ∀ nreqs, ¬ Fails disks faults b nreqs) :
    buf = blocks.flatMap fun b => window (img b.1).1 b.2.1 b.2.2 := by
  induction blocks generalizing buf with
  | nil => exact h
  | cons b rest ih =>
    obtain ⟨hserved, hrest⟩ := h
    obtain ⟨hopenb, hopen⟩ := List.forall_mem_cons.mp hopen
    obtain ⟨hb, hreads⟩ := List.forall_mem_cons.mp hreads
    obtain ⟨f, hf, htake⟩ := hserved (hb _)
    cases hopenb.symm.trans hf
    rw [List.flatMap_cons, ← htake, ← ih hrest hopen hreads, List.take_append_drop]

theorem tolerated_of_reads {disks : Disks} {faults : Nat → Bool} {blocks : List Block} (hsend : ∀ b ∈ blocks, Sendable b)
    (hreads : ∀ b ∈ blocks, ∀ nreqs, ¬ Fails disks faults b nreqs) : Tolerated disks faults blocks := by
  induction blocks with
  | nil => trivial
  | cons b rest ih =>
    obtain ⟨hb, hsend⟩ := List.forall_mem_cons.mp hsend
    obtain ⟨hbreads, hreads⟩ := List.forall_mem_cons.mp hreads
    exact ⟨hb, fun _ => hbreads _, ih hsend hreads⟩

theorem Tolerated.sendable {disks : Disks} {faults : Nat → Bool} {blocks : List Block} (h : Tolerated disks faults blocks) :
    ∀ b ∈ blocks, Sendable b := by
  induction blocks with
  | nil => simp
  | cons b rest ih => exact List.forall_mem_cons.mpr ⟨h.1, ih h.2.2⟩

section InPlace

variable {self : FileProxy} {disks : Disks} {img : String → File} {blockv : List Block}

/-- A block of an image that can be opened does not fail. -/
theorem not_fails {b : Block} (hopen : disks.open_disk b.1 = .ok (img b.1)) (hoffset : b.2.1 < 2 ^ 63) (nreqs : Nat) :
    ¬ Fails disks (fun _ => false) b nreqs := by
  rintro (⟨e, he⟩ | ⟨-, hfault | hseek⟩)
  · rw [hopen] at he
    cases he
  · cases hfault
  · omega

/-- Over the network a read of blocks that can be requested comes back with the bytes of the
    images. -/
theorem leads_windows (hlength : blockv.length ≤ 255) (hchunk : ∀ b ∈ blockv, b.2.2 ≤ CHUNKSIZE)
    (hdisks : ∀ b ∈ blockv, disks.open_disk b.1 = .ok (img b.1))
    (hsend : ∀ b ∈ blockv, (encode_utf8 b.1).length < 2 ^ 8 ∧ b.2.1 < 2 ^ 63) :
    Leads (Step disks fun _ => false) OwnReply
      (fun s => s.reader = .returned (.ok (blockv.flatMap fun b => window (img b.1).1 b.2.1 b.2.2)))
      (first_session blockv) := by
  have hreads : ∀ b ∈ blockv, ∀ nreqs, ¬ Fails disks (fun _ => false) b nreqs := fun b hb =>
    not_fails (hdisks b hb) (hsend b hb).2
  have hsendable : ∀ b ∈ blockv, Sendable b := by
    intro b hb
    obtain ⟨hname, hoffset⟩ := hsend b hb
    exact ⟨Nat.lt_trans hoffset (by decide), hname⟩
  have htolerated := tolerated_of_reads hsendable hreads
  have hat := atBlocks_start hlength hchunk htolerated.sendable_head
  refine (leads_served hchunk htolerated [] hat).mono (fun s h => h) ?_
  rintro s ⟨tail, hreader, hserved⟩
  rw [hreader, List.nil_append, hserved.eq_windows hdisks hreads]

/-- The read over files is the read over the network exactly when every block that is not
    empty lies in its image, and all of them can be requested. -/
theorem readsInPlace_iff (hwhole : self.use_1tb = false)
    (hfiles : ∀ b ∈ blockv, self.open_part b.1 0 = .ok (img b.1).1)
    (hdisks : ∀ b ∈ blockv, disks.open_disk b.1 = .ok (img b.1)) (hchunk : ∀ b ∈ blockv, b.2.2 ≤ CHUNKSIZE) :
    ReadsInPlace self disks img blockv ↔ InImages img blockv := by
  constructor
  · rintro ⟨data, hread, hpieces, reader, sent, hstart, hleads⟩
    obtain ⟨hoffset, rfl⟩ := (readv_files_eq_ok_iff hwhole hfiles hchunk .nil).mp (hread [] .nil)
    have hinside := inside_of_length (le_length_of_pieces hpieces)
    have hlength : blockv.length ≤ 255 := by
      by_contra hlong
      simp only [readv_network] at hstart
      split at hstart
      · cases hstart
      · rw [if_pos (by omega)] at hstart
        cases hstart
    rw [readv_network_eq hlength hchunk] at hstart
    cases hstart
    have htolerated := tolerated_of_finished hlength hchunk (hleads.mono (fun s h => h) fun s h => ⟨_, h⟩)
    exact ⟨hlength, fun b hb => ⟨(htolerated.sendable b hb).2, hoffset b hb, hinside b hb⟩⟩
  · rintro ⟨hlength, hblocks⟩
    have havailable : available img blockv = blockv.flatMap fun b => window (img b.1).1 b.2.1 b.2.2 :=
      List.flatMap_congr fun b hb => (window_of_inside (hblocks b hb).2.2).symm
    have hleads := leads_windows hlength hchunk hdisks fun b hb => ⟨(hblocks b hb).1, (hblocks b hb).2.1⟩
    refine ⟨available img blockv, fun files hreached => ?_, ?_, _, _, readv_network_eq hlength hchunk, ?_⟩
    · exact (readv_files_eq_ok_iff hwhole hfiles hchunk hreached).mpr ⟨fun b hb => (hblocks b hb).2.1, rfl⟩
    · rw [havailable, pieces_windows]
    · rw [havailable]
      exact hleads

end InPlace

/-- A proxy over files with one image under every path. -/
def same_image (f : File) : FileProxy where
  trans_table := []
  open_path _ := .ok f.1

/-- Three bytes of an image. -/
def three_bytes : File := ⟨[1, 2, 3], by decide⟩

theorem readsInPlace_three_bytes :
    ReadsInPlace (same_image three_bytes) (one_file three_bytes) (fun _ => three_bytes) [("a", 0, 2), ("b", 1, 2)] := by
  refine (readsInPlace_iff rfl (fun b _ => rfl) (fun b _ => rfl) (by decide)).mpr ⟨by decide, ?_⟩
  simp only [List.forall_mem_cons, List.not_mem_nil, false_implies, implies_true, and_true]
  exact ⟨⟨by decide, by decide, .inr (by decide)⟩, by decide, by decide, .inr (by decide)⟩

/-- The first block is one byte short, and the bytes of the second one take its place. -/
theorem not_readsInPlace_short_image :
    ¬ ReadsInPlace (same_image three_bytes) (one_file three_bytes) (fun _ => three_bytes) [("a", 2, 2), ("b", 0, 2)] := by
  rintro ⟨data, hread, hpieces, -⟩
  have hfiles : (FileProxy.readv_files (same_image three_bytes) [] [("a", 2, 2), ("b", 0, 2)]).1 = .ok [3, 1, 2] := by
    decide
  cases hfiles.symm.trans (hread [] .nil)
  exact absurd hpieces (by decide)

end zfs_rescue.proxy.vector
