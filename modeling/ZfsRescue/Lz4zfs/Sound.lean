import ZfsRescue.De
import ZfsRescue.Lz4zfs.Complete

open bytes lz4

namespace zfs_rescue.lz4zfs

/-- A sequence that starts before `iend` has its match offset past the end of
    `src`, on the walk over the sequences from `ip` on. -/
inductive RunsOff (src : Bytes) (iend : Nat) : Nat → Prop
  | here {ip : Nat} : ip < iend → src.length < offsetAt (src.take iend) ip + 2 → RunsOff src iend ip
  | later {ip : Nat} : ip < iend → RunsOff src iend (nextAt (src.take iend) ip) → RunsOff src iend ip

section Inside

variable {src : Bytes} {iend : Nat}

theorem getD_take_of_lt {ip : Nat} (hlive : ip < iend) : (src.take iend).getD ip 0 = src.getD ip 0 := by
  rw [List.getD_eq_getElem?_getD, List.getElem?_take, if_pos hlive, List.getD_eq_getElem?_getD]

/-- A bound inside the stream leaves something to read before it. -/
theorem drop_take_of_lt {ip : Nat} (hend : iend ≤ src.length) (hlive : ip < iend) :
    ∃ b, index src ip = .ok b ∧ (src.take iend).drop ip = b :: (src.take iend).drop (ip + 1) := by
  have hlt : ip < (src.take iend).length := by
    rw [List.length_take]
    omega
  refine ⟨src.get ⟨ip, by omega⟩, index_of_lt (by omega), ?_⟩
  rw [List.drop_eq_getElem_cons hlt, List.getElem_take, List.get_eq_getElem]

theorem drop_take_of_le {ip : Nat} (h : iend ≤ ip) : (src.take iend).drop ip = [] := by
  rw [List.drop_eq_nil_iff, List.length_take]
  omega

/-- The loop over the continuation bytes of a literal length. -/
theorem literal_length_eq (hend : iend ≤ src.length) (ip acc : Nat) :
    literal_length src iend ip acc 255 =
      .ok (ip + (continuation ((src.take iend).drop ip)).2, acc + (continuation ((src.take iend).drop ip)).1) := by
  induction hleft : iend - ip generalizing ip acc with
  | zero =>
    rw [literal_length, if_neg (by omega), drop_take_of_le (by omega)]
    rfl
  | succ left ih =>
    obtain ⟨b, hindex, hdrop⟩ := drop_take_of_lt hend (show ip < iend by omega)
    rw [literal_length, if_pos ⟨by omega, rfl⟩, hindex, hdrop, continuation]
    dsimp only
    split
    · rename_i h255
      rw [h255, ih _ _ (by omega)]
      congr 2 <;> omega
    · rename_i h255
      rw [literal_length, if_neg (by omega)]

/-- The loop over those of a match length. -/
theorem match_length_eq (hend : iend ≤ src.length) (ip acc : Nat) :
    match_length src iend ip acc =
      .ok (ip + (continuation ((src.take iend).drop ip)).2, acc + (continuation ((src.take iend).drop ip)).1) := by
  induction hleft : iend - ip generalizing ip acc with
  | zero =>
    rw [match_length, if_neg (by omega), drop_take_of_le (by omega)]
    rfl
  | succ left ih =>
    obtain ⟨b, hindex, hdrop⟩ := drop_take_of_lt hend (show ip < iend by omega)
    rw [match_length, if_pos (by omega), hindex, hdrop, continuation]
    dsimp only
    split
    · rename_i h255
      rw [h255, ih _ _ (by omega)]
      congr 2 <;> omega
    · rfl

theorem run_length_eq (hend : iend ≤ src.length) (ip token : Nat) :
    run_length src iend ip token =
      .ok (ip + (lengthOf (token >>> 4) ((src.take iend).drop ip)).2,
        (lengthOf (token >>> 4) ((src.take iend).drop ip)).1) := by
  rw [run_length, lengthOf, show RUN_MASK = 15 from rfl]
  split
  · rename_i h
    rw [literal_length_eq hend, h]
  · rfl

theorem rep_length_eq (hend : iend ≤ src.length) (ip token : Nat) :
    rep_length src iend ip token =
      .ok (ip + (lengthOf (token &&& 15) ((src.take iend).drop ip)).2,
        (lengthOf (token &&& 15) ((src.take iend).drop ip)).1) := by
  rw [rep_length, lengthOf, show ML_MASK = 15 from rfl]
  split
  · rename_i h
    rw [match_length_eq hend, h]
  · rfl

/-- A turn of the loop reads the sequence at its cursor, and fails only where
    the match offset is not in the stream. -/
theorem step_eq (hend : iend ≤ src.length) {ip : Nat} (hlive : ip < iend) (dst : Bytes) :
    step src iend ip dst =
      if src.length < offsetAt (src.take iend) ip + 2 then .error .StructError
      else .ok (nextAt (src.take iend) ip,
        copy_match (readLE (slice src (offsetAt (src.take iend) ip) 2)) ((repAt (src.take iend) ip).1 + 4)
          (dst ++ slice src (literalsAt (src.take iend) ip) (runAt (src.take iend) ip).1)) := by
  have htoken : index src ip = .ok (src.getD ip 0) := by
    rw [index_of_lt (by omega), List.getD_eq_getElem?_getD, List.getElem?_eq_getElem (by omega), Option.getD_some]
  have hrun : run_length src iend (ip + 1) (src.getD ip 0).toNat =
      .ok (literalsAt (src.take iend) ip, (runAt (src.take iend) ip).1) := by
    rw [run_length_eq hend, literalsAt, runAt, getD_take_of_lt hlive]
  have hrep : rep_length src iend (offsetAt (src.take iend) ip + 2) (src.getD ip 0).toNat =
      .ok (nextAt (src.take iend) ip, (repAt (src.take iend) ip).1) := by
    rw [rep_length_eq hend, nextAt, repAt, getD_take_of_lt hlive]
  have hoffset : literalsAt (src.take iend) ip + (runAt (src.take iend) ip).1 = offsetAt (src.take iend) ip := rfl
  rw [step, htoken, bind_ok, hrun, bind_ok]
  dsimp only
  rw [hoffset, unpackLE, length_slice]
  split
  · rw [if_neg (by omega), bind_ok, hrep, bind_ok]
  · rw [if_pos (by omega), bind_error]

/-- With its bound inside the stream the loop fails when it runs off. -/
theorem decompress_loop_error_iff (hend : iend ≤ src.length) (ip : Nat) (dst : Bytes) :
    (∃ e, decompress_loop src iend ip dst = .error e) ↔ RunsOff src iend ip := by
  constructor
  · rintro ⟨e, h⟩
    induction ip, dst using decompress_loop.induct src iend with
    | case1 ip dst hlive e' hstep =>
      rw [step_eq hend hlive] at hstep
      split at hstep
      · exact .here hlive ‹_›
      · cases hstep
    | case2 ip dst hlive next hstep ih =>
      rw [decompress_loop_step hlive hstep] at h
      have hoff := ih h
      rw [step_eq hend hlive] at hstep
      split at hstep
      · cases hstep
      · cases hstep
        exact .later hlive hoff
    | case3 ip dst hdone =>
      rw [decompress_loop, if_neg hdone] at h
      cases h
  · intro h
    induction h generalizing dst with
    | here hlive hpast => exact ⟨_, decompress_loop_error hlive (by rw [step_eq hend hlive, if_pos hpast])⟩
    | later hlive _ ih =>
      have hstep := step_eq hend hlive dst
      split at hstep
      · exact ⟨_, decompress_loop_error hlive hstep⟩
      · rw [decompress_loop_step hlive hstep]
        exact ih _

end Inside

theorem match_length_le {src : Bytes} {iend ip length : Nat} {rep : Nat × Nat} (hip : ip ≤ src.length)
    (h : match_length src iend ip length = .ok rep) : rep.1 ≤ src.length := by
  induction ip, length using match_length.induct src iend with
  | case1 ip length hlive e hindex =>
    rw [match_length, if_pos hlive, hindex] at h
    cases h
  | case2 ip length hlive b hindex hmore ih =>
    rw [match_length, if_pos hlive, hindex] at h
    simp only [if_pos hmore] at h
    have hlt := (List.getElem?_eq_some_iff.mp (index_eq_ok_iff.mp hindex)).1
    exact ih hlt h
  | case3 ip length hlive b hindex hlast =>
    rw [match_length, if_pos hlive, hindex] at h
    simp only [if_neg hlast] at h
    cases h
    exact (List.getElem?_eq_some_iff.mp (index_eq_ok_iff.mp hindex)).1
  | case4 ip length hlive =>
    rw [match_length, if_neg hlive] at h
    cases h
    exact hip

/-- A turn of the loop leaves the cursor in the stream. -/
theorem step_le_length {src : Bytes} {iend ip : Nat} {dst : Bytes} {next : Nat × Bytes}
    (h : step src iend ip dst = .ok next) : next.1 ≤ src.length := by
  unfold step at h
  simp only [bind_eq_ok_iff] at h
  obtain ⟨token, _, run, _, off, hoff, rep, hrep, hnext⟩ := h
  cases hnext
  have hinside : run.1 + run.2 + 2 ≤ src.length := by
    unfold unpackLE at hoff
    split at hoff
    · rename_i hlen
      rw [length_slice] at hlen
      omega
    · cases hoff
  unfold rep_length at hrep
  split at hrep
  · exact match_length_le hinside hrep
  · cases hrep
    exact hinside

/-- A bound past the end of the stream is never reached. -/
theorem decompress_loop_past_end {src : Bytes} {iend ip : Nat} (hend : src.length < iend) (hip : ip ≤ src.length)
    (dst : Bytes) : ∃ e, decompress_loop src iend ip dst = .error e := by
  induction ip, dst using decompress_loop.induct src iend with
  | case1 ip dst hlive e hstep => exact ⟨e, decompress_loop_error hlive hstep⟩
  | case2 ip dst hlive next hstep ih =>
    rw [decompress_loop_step hlive hstep]
    exact ih (step_le_length hstep)
  | case3 ip dst hdone => omega

/-- Decoding always returns, and what it refuses is a header past the end of
    the stream and a match offset past it. -/
theorem lz4zfs_decompress_none_iff {src : Bytes} (dsize : Nat) (h : 4 ≤ src.length) :
    (∃ result, lz4zfs_decompress src dsize = .ok result) ∧
      (lz4zfs_decompress src dsize = .ok none ↔ src.length < header src ∨ RunsOff src (header src) 4) := by
  have hheader : unpackBE 4 (slice src 0 4) = .ok (header src) := by
    rw [unpackBE, if_pos (length_slice_of_le (by omega)), header]
  rw [lz4zfs_decompress, hheader, bind_ok]
  have hiff : (∃ e, decompress_loop src (header src) 4 [] = .error e) ↔
      src.length < header src ∨ RunsOff src (header src) 4 := by
    rcases Nat.lt_or_ge src.length (header src) with hpast | hend
    · exact iff_of_true (decompress_loop_past_end hpast h []) (.inl hpast)
    · rw [decompress_loop_error_iff hend]
      exact ⟨.inr, fun hor => hor.resolve_left (Nat.not_lt.mpr hend)⟩
  rw [← hiff]
  generalize decompress_loop src (header src) 4 [] = decoded
  cases decoded with
  | ok dst =>
    refine ⟨⟨_, rfl⟩, iff_of_false ?_ ?_⟩
    · intro heq
      cases heq
    · rintro ⟨_, heq⟩
      cases heq
  | error e => exact ⟨⟨_, rfl⟩, iff_of_true rfl ⟨e, rfl⟩⟩

/-- Decoding returns, and refuses the stream if it is malformed. -/
def Sound (src : Bytes) (dsize : Nat) : Prop :=
  (∃ result, lz4zfs_decompress src dsize = .ok result) ∧
    (MalformedFrame src dsize → lz4zfs_decompress src dsize = .ok none)

/-- Decoding is sound for a stream that is not malformed, for a header past the
    end of the stream with its own four bytes counted, and for a stream in
    which a match offset is looked for past the end. -/
theorem sound_iff {src : Bytes} (dsize : Nat) (h : 4 ≤ src.length) :
    Sound src dsize ↔
      ¬MalformedFrame src dsize ∨ src.length < header src ∨ RunsOff src (header src) 4 := by
  obtain ⟨hreturns, hnone⟩ := lz4zfs_decompress_none_iff dsize h
  rw [Sound, hnone]
  constructor
  · rintro ⟨_, himp⟩
    by_cases hmalformed : MalformedFrame src dsize
    · exact .inr (himp hmalformed)
    · exact .inl hmalformed
  · rintro (hgood | hoff)
    · exact ⟨hreturns, fun hmalformed => absurd hmalformed hgood⟩
    · exact ⟨hreturns, fun _ => hoff⟩

/-- A stream whose first match starts four bytes before the output does. -/
def before_start : Bytes := [0, 0, 0, 10, 0x10, 0x61, 5, 0, 0x50, 0x62, 0x63, 0x64, 0x65, 0x66, 0, 0]

/-- A header for one byte more than there is. -/
def past_end : Bytes := [0, 0, 0, 1]

/-- The reference decoder refuses both streams, and the code decodes them: the
    match of the first to nothing, the second to an empty buffer. -/
theorem lz4zfs_decompress_accepts_malformed :
    (MalformedFrame before_start 10 ∧ de.lz4_decompress_zfs before_start 10 = 1 ∧
        lz4zfs_decompress before_start 10 = .ok (some [0x61, 0x62, 0x63, 0x64, 0x65, 0x66]) ∧
        ¬Sound before_start 10) ∧
      (MalformedFrame past_end 1 ∧ de.lz4_decompress_zfs past_end 1 = 1 ∧
        lz4zfs_decompress past_end 1 = .ok (some []) ∧ ¬Sound past_end 1) := by
  have hbefore : MalformedFrame before_start 10 :=
    .inr (.offset_before_start (by decide) (by decide) (by decide))
  have hpast : MalformedFrame past_end 1 := .inl (by decide)
  have hloop : decompress_loop before_start 10 4 [] = .ok [0x61, 0x62, 0x63, 0x64, 0x65, 0x66] := by
    have hfirst : step before_start 10 4 [] = .ok (8, [0x61]) := by rfl
    have hsecond : step before_start 10 8 [0x61] = .ok (16, [0x61, 0x62, 0x63, 0x64, 0x65, 0x66]) := by rfl
    rw [decompress_loop_step (by decide) hfirst, decompress_loop_step (by decide) hsecond,
      decompress_loop_done (by decide)]
  have hdecoded : lz4zfs_decompress before_start 10 = .ok (some [0x61, 0x62, 0x63, 0x64, 0x65, 0x66]) := by
    have hheader : unpackBE 4 (slice before_start 0 4) = .ok 10 := by decide
    rw [lz4zfs_decompress, hheader, bind_ok, hloop]
  have hempty : lz4zfs_decompress past_end 1 = .ok (some []) := by
    have hheader : unpackBE 4 (slice past_end 0 4) = .ok 1 := by decide
    rw [lz4zfs_decompress, hheader, bind_ok, decompress_loop_done (by decide)]
  refine ⟨⟨hbefore, de.lz4_decompress_zfs_of_malformed hbefore, hdecoded, ?_⟩,
    hpast, de.lz4_decompress_zfs_of_malformed hpast, hempty, ?_⟩
  · rintro ⟨_, himp⟩
    have hnone := himp hbefore
    rw [hdecoded] at hnone
    cases hnone
  · rintro ⟨_, himp⟩
    have hnone := himp hpast
    rw [hempty] at hnone
    cases hnone

/-- A run of nine literals of which there are five. -/
def short_run : Bytes := [0, 0, 0, 6, 0x90, 0x61, 0x62, 0x63, 0x64, 0x65]

/-- The decoder refuses it when it looks for the offset behind them. -/
theorem sound_short_run : MalformedFrame short_run 10 ∧ Sound short_run 10 :=
  ⟨.inr (.literals_past_end (by decide) (by decide)),
    (sound_iff 10 (by decide)).mpr (.inr (.inr (.here (by decide) (by decide))))⟩

end zfs_rescue.lz4zfs
