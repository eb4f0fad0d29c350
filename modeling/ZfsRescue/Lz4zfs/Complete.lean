import ZfsRescue.Lz4zfs.Step

open bytes

namespace zfs_rescue.lz4zfs

/-- A compressed block in its ZFS frame: the payload length in four big-endian
    bytes, the payload, and whatever the rest of the sector holds. -/
structure Frame where
  block : lz4.Block
  slack : Bytes
  fits : block.encode.length < 2 ^ 32

def Frame.encode (f : Frame) : Bytes := writeBE 4 f.block.encode.length ++ f.block.encode ++ f.slack

/-- A turn of the loop up to the end of the literals, for a sequence whose
    literal length is read in full. -/
theorem step_literals {src literals tail : Bytes} {ip low : Nat} (iend : Nat) (dst : Bytes)
    (hsrc : src.drop ip = lz4.token literals.length low :: (lz4.encodeLength literals.length ++ literals ++ tail))
    (hin : ip + 1 + (lz4.encodeLength literals.length).length ≤ iend) :
    step src iend ip dst =
      (unpackLE 2 (tail.take 2) >>= fun off =>
        rep_length src iend (ip + 1 + (lz4.encodeLength literals.length).length + literals.length + 2)
            (lz4.token literals.length low).toNat >>= fun rep =>
          .ok (rep.1, copy_match off (rep.2 + 4) (dst ++ literals))) := by
  have hbody : src.drop (ip + 1) = lz4.encodeLength literals.length ++ (literals ++ tail) :=
    drop_succ_of_drop (by simpa using hsrc)
  have hliterals := drop_add_of_drop hbody
  have htail : src.drop (ip + 1 + (lz4.encodeLength literals.length).length + literals.length) = tail :=
    drop_add_of_drop hliterals
  have hrun := run_length_encoded low hbody hin
  rw [step, index_of_drop hsrc, bind_ok, hrun, bind_ok]
  simp only [slice_of_drop hliterals]
  rw [slice, htail]

/-- A turn of the loop up to the match offset, for an encoded sequence: what
    is left is to read the match length where the sequence has it. -/
theorem step_offset {src rest : Bytes} {iend ip : Nat} {dst : Bytes} {s : lz4.Sequence}
    (hsrc : src.drop ip = s.encode ++ rest) (hvalid : s.ValidAt dst)
    (hin : ip + 1 + (lz4.encodeLength s.literals.length).length ≤ iend) :
    ∃ mp, mp + (lz4.encodeLength (s.matchLength - 4)).length = ip + s.encode.length ∧
      src.drop mp = lz4.encodeLength (s.matchLength - 4) ++ rest ∧
      step src iend ip dst =
        (rep_length src iend mp (lz4.token s.literals.length (s.matchLength - 4)).toNat >>= fun rep =>
          .ok (rep.1, lz4.copyMatch s.offset (rep.2 + 4) (dst ++ s.literals))) := by
  obtain ⟨_, hpos, hback, hsmall⟩ := hvalid
  have hshape : src.drop ip = lz4.token s.literals.length (s.matchLength - 4) ::
      (lz4.encodeLength s.literals.length ++ s.literals ++
        (writeLE 2 s.offset ++ (lz4.encodeLength (s.matchLength - 4) ++ rest))) := by
    simpa [lz4.Sequence.encode, List.append_assoc] using hsrc
  have hoff : unpackLE 2 ((writeLE 2 s.offset ++ (lz4.encodeLength (s.matchLength - 4) ++ rest)).take 2) =
      .ok s.offset := by
    rw [List.take_left' (length_writeLE 2 s.offset), unpackLE, if_pos (length_writeLE 2 s.offset),
      readLE_writeLE (by omega)]
  refine ⟨ip + 1 + (lz4.encodeLength s.literals.length).length + s.literals.length + 2, ?_, ?_, ?_⟩
  · simp only [lz4.Sequence.encode, List.length_cons, List.length_append, length_writeLE]
    omega
  · have hcut : src.drop ip = (lz4.token s.literals.length (s.matchLength - 4) ::
        (lz4.encodeLength s.literals.length ++ s.literals ++ writeLE 2 s.offset)) ++
          (lz4.encodeLength (s.matchLength - 4) ++ rest) := by
      simpa [List.append_assoc] using hshape
    have hdrop := drop_add_of_drop hcut
    simp only [List.length_cons, List.length_append, length_writeLE] at hdrop
    rw [← hdrop]
    congr 1
    omega
  · rw [step_literals iend dst hshape hin, hoff, bind_ok]
    simp only [copy_match_eq hpos _ _ hback]

/-- A sequence that ends at least four bytes before the payload does is
    decoded exactly. -/
theorem step_sequence {src rest : Bytes} {iend ip : Nat} {dst : Bytes} {s : lz4.Sequence}
    (hsrc : src.drop ip = s.encode ++ rest) (hvalid : s.ValidAt dst) (hin : ip + s.encode.length ≤ iend) :
    step src iend ip dst = .ok (ip + s.encode.length, s.apply dst) := by
  have hlen : s.encode.length = 1 + (lz4.encodeLength s.literals.length).length + s.literals.length + 2 +
      (lz4.encodeLength (s.matchLength - 4)).length := by
    simp only [lz4.Sequence.encode, List.length_cons, List.length_append, length_writeLE]
    omega
  obtain ⟨mp, hmp, hrest, hstep⟩ := step_offset hsrc hvalid (show ip + 1 + _ ≤ iend by omega)
  rw [hstep, rep_length_encoded hrest (by omega), bind_ok, hmp, Nat.sub_add_cancel hvalid.1, lz4.Sequence.apply]

/-- A sequence that ends nearer to the end of the payload is never decoded to
    more than it stands for, and stops the loop. -/
theorem step_sequence_cut {src rest : Bytes} {ip : Nat} {dst : Bytes} {s : lz4.Sequence} (iend : Nat)
    (hsrc : src.drop ip = s.encode ++ rest) (hvalid : s.ValidAt dst)
    (hin : ip + 1 + (lz4.encodeLength s.literals.length).length ≤ iend) (hend : iend ≤ ip + s.encode.length) :
    ∃ next, step src iend ip dst = .ok next ∧ iend ≤ next.1 ∧ next.2.length ≤ (s.apply dst).length := by
  obtain ⟨mp, hmp, hrest, hstep⟩ := step_offset hsrc hvalid hin
  obtain ⟨rep, hrep, hshort, hcursor⟩ := rep_length_cut iend s.literals.length hrest
  have hlong := hvalid.1
  refine ⟨(rep.1, lz4.copyMatch s.offset (rep.2 + 4) (dst ++ s.literals)), ?_, ?_, ?_⟩
  · rw [hstep, hrep, bind_ok]
  · simp only
    omega
  · simp only [lz4.Sequence.length_apply, lz4.length_copyMatch, List.length_append]
    omega

theorem decompress_loop_step {src : Bytes} {iend ip : Nat} {dst : Bytes} {next : Nat × Bytes}
    (hlive : ip < iend) (hstep : step src iend ip dst = .ok next) :
    decompress_loop src iend ip dst = decompress_loop src iend next.1 next.2 := by
  rw [decompress_loop, if_pos hlive]
  split
  · next e h => rw [hstep] at h; cases h
  · next n h => rw [hstep] at h; cases h; rfl

theorem decompress_loop_error {src : Bytes} {iend ip : Nat} {dst : Bytes} {e : PyErr}
    (hlive : ip < iend) (hstep : step src iend ip dst = .error e) :
    decompress_loop src iend ip dst = .error e := by
  rw [decompress_loop, if_pos hlive]
  split
  · next e' h => rw [hstep] at h; cases h; rfl
  · next n h => rw [hstep] at h; cases h

theorem decompress_loop_done {src : Bytes} {iend ip : Nat} {dst : Bytes} (hdone : iend ≤ ip) :
    decompress_loop src iend ip dst = .ok dst := by
  rw [decompress_loop, if_neg (by omega)]

/-- A run of sequences that ends at least four bytes before the payload does
    is decoded exactly, whatever follows it. -/
theorem decompress_loop_sequences {src rest : Bytes} {iend : Nat} (seqs : List lz4.Sequence) {ip : Nat} {dst : Bytes}
    (hsrc : src.drop ip = seqs.flatMap lz4.Sequence.encode ++ rest) (hvalid : lz4.ValidFrom dst seqs)
    (hin : ip + (seqs.flatMap lz4.Sequence.encode).length ≤ iend) :
    decompress_loop src iend ip dst =
      decompress_loop src iend (ip + (seqs.flatMap lz4.Sequence.encode).length) (lz4.expandFrom dst seqs) := by
  induction seqs generalizing ip dst with
  | nil => simp [lz4.expandFrom]
  | cons s seqs ih =>
    obtain ⟨hs, hrest⟩ := hvalid
    rw [List.flatMap_cons, List.append_assoc] at hsrc
    rw [List.flatMap_cons, List.length_append] at hin ⊢
    have hlong := s.three_le_length_encode
    rw [decompress_loop_step (by omega) (step_sequence hsrc hs (by omega)),
      ih (drop_add_of_drop hsrc) hrest (by omega), Nat.add_assoc]
    rfl

theorem rep_length_of_le {src : Bytes} {iend ip token : Nat} (h : iend ≤ ip) :
    rep_length src iend ip token = .ok (ip, token &&& ML_MASK) := by
  unfold rep_length
  split
  · rw [match_length, if_neg (by omega)]
  · rfl

/-- A last sequence of four or more literals is copied out in full, and then
    an offset is read from behind the payload: two bytes of slack let the
    loop end, fewer raise an exception. -/
theorem decompress_loop_last (f : Frame) {ip : Nat} (dst : Bytes)
    (hsrc : f.encode.drop ip = f.block.encodeLast ++ f.slack) (hlast : 4 ≤ f.block.last.length)
    (hip : ip + f.block.encodeLast.length = 4 + f.block.encode.length) :
    (2 ≤ f.slack.length → ∃ buf, decompress_loop f.encode f.block.encode.length ip dst = .ok buf ∧
      dst ++ f.block.last <+: buf) ∧
    (f.slack.length < 2 → ∃ e, decompress_loop f.encode f.block.encode.length ip dst = .error e) := by
  have hlen := f.block.length_encodeLast
  have hshape : f.encode.drop ip = lz4.token f.block.last.length f.block.nibble.val ::
      (lz4.encodeLength f.block.last.length ++ f.block.last ++ f.slack) := by
    simpa [lz4.Block.encodeLast] using hsrc
  have hstep := step_literals f.block.encode.length dst hshape (by omega)
  constructor
  · intro hslack
    rw [unpackLE, if_pos (by simpa using hslack), bind_ok, rep_length_of_le (by omega), bind_ok] at hstep
    exact ⟨_, (decompress_loop_step (by omega) hstep).trans (decompress_loop_done (by simp only; omega)),
      prefix_copy_match _ _ _⟩
  · intro hslack
    rw [unpackLE, if_neg (by simp; omega), bind_error] at hstep
    exact ⟨_, decompress_loop_error (by omega) hstep⟩

/-- With fewer than four literals in the last sequence the loop stops before
    it, and the output is too short. -/
theorem decompress_loop_short (f : Frame) (hsrc : f.encode.drop 4 = f.block.encode ++ f.slack)
    (hlast : f.block.last.length < 4) :
    ∃ buf, decompress_loop f.encode f.block.encode.length 4 [] = .ok buf ∧ buf.length < f.block.expand.length := by
  have hlastPos : 0 < f.block.last.length := List.length_pos_iff.mpr f.block.last_ne_nil
  have hshort : f.block.encodeLast.length ≤ 4 := by
    by_contra hnot
    have := f.block.five_le_length_encodeLast_iff.mp (by omega)
    omega
  have htwo : 2 ≤ f.block.encodeLast.length := by
    rw [f.block.length_encodeLast]
    omega
  have hexpand : f.block.expand.length = (lz4.expandFrom [] f.block.sequences).length + f.block.last.length := by
    simp [lz4.Block.expand]
  have hvalid := f.block.valid
  have hencode : f.block.encode = f.block.sequences.flatMap lz4.Sequence.encode ++ f.block.encodeLast := rfl
  rw [hencode] at hsrc ⊢
  rw [hexpand]
  generalize f.block.sequences = seqs at hsrc hvalid ⊢
  rcases List.eq_nil_or_concat seqs with rfl | ⟨init, s, rfl⟩
  · exact ⟨[], decompress_loop_done (by simpa using hshort), by simp only [lz4.expandFrom, List.length_nil]; omega⟩
  · rw [List.concat_eq_append] at hsrc hvalid ⊢
    obtain ⟨hinit, hs, _⟩ := lz4.validFrom_append hvalid
    have hlong := s.three_le_length_encode
    have hliterals : lz4.encodeLength s.literals.length = [] ∨ 15 ≤ s.literals.length := by
      unfold lz4.encodeLength
      split
      · exact .inl rfl
      · exact .inr (by omega)
    have hslen : s.encode.length = 1 + (lz4.encodeLength s.literals.length).length + s.literals.length + 2 +
        (lz4.encodeLength (s.matchLength - 4)).length := by
      simp only [lz4.Sequence.encode, List.length_cons, List.length_append, length_writeLE]
      omega
    simp only [List.flatMap_append, List.flatMap_cons, List.flatMap_nil, List.append_nil, List.append_assoc] at hsrc
    simp only [List.flatMap_append, List.flatMap_cons, List.flatMap_nil, List.append_nil, List.length_append]
    rw [decompress_loop_sequences init hsrc hinit (by omega)]
    obtain ⟨next, hstep, hdone, hle⟩ := step_sequence_cut
      ((init.flatMap lz4.Sequence.encode).length + s.encode.length + f.block.encodeLast.length)
      (drop_add_of_drop hsrc) hs
      (by rcases hliterals with h | h <;> [(rw [h, List.length_nil]; omega); omega]) (by omega)
    refine ⟨next.2, (decompress_loop_step (by omega) hstep).trans (decompress_loop_done hdone), ?_⟩
    rw [lz4.expandFrom_append]
    simp only [lz4.expandFrom]
    omega

/-- Decoding delivers what the stream stands for exactly when its last
    sequence has at least four literals and at least two bytes follow the
    payload. -/
theorem lz4zfs_decompress_frame_iff (f : Frame) :
    (∃ buf, lz4zfs_decompress f.encode f.block.expand.length = .ok (some buf) ∧
        buf.take f.block.expand.length = f.block.expand) ↔
      4 ≤ f.block.last.length ∧ 2 ≤ f.slack.length := by
  have hheader : unpackBE 4 (slice f.encode 0 4) = .ok f.block.encode.length := by
    have hslice : slice f.encode 0 4 = writeBE 4 f.block.encode.length := by
      rw [Frame.encode, List.append_assoc, slice, List.drop_zero, List.take_left' (length_writeBE _ _)]
    have hfits := f.fits
    rw [hslice, unpackBE, if_pos (length_writeBE _ _), readBE_writeBE (by omega)]
  have hsrc : f.encode.drop 4 = f.block.encode ++ f.slack := by
    rw [Frame.encode, List.append_assoc, List.drop_left' (length_writeBE _ _)]
  rw [lz4zfs_decompress, hheader, bind_ok]
  by_cases hlast : 4 ≤ f.block.last.length
  · have hlong := f.block.five_le_length_encodeLast_iff.mpr hlast
    have hencode : f.block.encode.length =
        (f.block.sequences.flatMap lz4.Sequence.encode).length + f.block.encodeLast.length := by
      simp [lz4.Block.encode]
    have hbody : f.encode.drop 4 =
        f.block.sequences.flatMap lz4.Sequence.encode ++ (f.block.encodeLast ++ f.slack) := by
      rw [hsrc, lz4.Block.encode, List.append_assoc]
    rw [decompress_loop_sequences _ hbody f.block.valid (by omega)]
    obtain ⟨hok, hraise⟩ := decompress_loop_last f (lz4.expandFrom [] f.block.sequences)
      (drop_add_of_drop hbody) hlast (by omega)
    by_cases hslack : 2 ≤ f.slack.length
    · obtain ⟨buf, hbuf, hprefix⟩ := hok hslack
      rw [hbuf]
      exact iff_of_true ⟨buf, rfl, (List.prefix_iff_eq_take.mp hprefix).symm⟩ ⟨hlast, hslack⟩
    · obtain ⟨e, he⟩ := hraise (by omega)
      rw [he]
      exact iff_of_false (by rintro ⟨buf, h, _⟩; cases h) (by omega)
  · obtain ⟨buf, hbuf, hlt⟩ := decompress_loop_short f hsrc (by omega)
    rw [hbuf]
    refine iff_of_false ?_ (by omega)
    rintro ⟨other, h, htake⟩
    cases h
    have := congrArg List.length htake
    simp only [List.length_take] at this
    omega

/-- A block that is one literal, with two bytes of slack. -/
def Frame.oneLiteral : Frame where
  block := { sequences := [], last := [0x61], nibble := 0, valid := trivial, last_ne_nil := by decide }
  slack := [0, 0]
  fits := by decide

/-- A block of four literals that fills its payload to the last byte. -/
def Frame.noSlack : Frame where
  block := { sequences := [], last := [0x61, 0x62, 0x63, 0x64], nibble := 0, valid := trivial, last_ne_nil := by decide }
  slack := []
  fits := by decide

/-- The single literal is never copied, and the block without slack is refused. -/
theorem lz4zfs_decompress_loses_last_literals :
    Frame.oneLiteral.encode = [0, 0, 0, 2, 0x10, 0x61, 0, 0] ∧ Frame.oneLiteral.block.expand = [0x61] ∧
      lz4zfs_decompress [0, 0, 0, 2, 0x10, 0x61, 0, 0] 1 = .ok (some []) ∧
      Frame.noSlack.encode = [0, 0, 0, 5, 0x40, 0x61, 0x62, 0x63, 0x64] ∧
      Frame.noSlack.block.expand = [0x61, 0x62, 0x63, 0x64] ∧
      lz4zfs_decompress [0, 0, 0, 5, 0x40, 0x61, 0x62, 0x63, 0x64] 4 = .ok none := by
  have hempty : decompress_loop [0, 0, 0, 2, 0x10, 0x61, 0, 0] 2 4 [] = .ok [] := decompress_loop_done (by decide)
  have hraise : decompress_loop [0, 0, 0, 5, 0x40, 0x61, 0x62, 0x63, 0x64] 5 4 [] = .error .StructError :=
    decompress_loop_error (by decide) (by rfl)
  refine ⟨by decide, by decide, ?_, by decide, by decide, ?_⟩
  · have hsize : unpackBE 4 (slice [0, 0, 0, 2, 0x10, 0x61, 0, 0] 0 4) = .ok 2 := by decide
    rw [lz4zfs_decompress, hsize, bind_ok, hempty]
  · have hsize : unpackBE 4 (slice [0, 0, 0, 5, 0x40, 0x61, 0x62, 0x63, 0x64] 0 4) = .ok 5 := by decide
    rw [lz4zfs_decompress, hsize, bind_ok, hraise]

end zfs_rescue.lz4zfs
