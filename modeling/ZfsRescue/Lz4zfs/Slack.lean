import ZfsRescue.Bytes.Zero
import ZfsRescue.Lz4.Known
import ZfsRescue.Lz4zfs.Sound

open bytes lz4

namespace zfs_rescue.lz4zfs

theorem header_append {src : Bytes} (h : 4 ≤ src.length) (slack : Bytes) : header (src ++ slack) = header src := by
  rw [header, header, slice_append_of_le (by omega)]

/-- A walk that stays inside the stored bytes decodes to the same with more
    bytes behind them. -/
theorem decompress_loop_append {src : Bytes} {iend ip : Nat} (hend : iend ≤ src.length)
    (hinside : ¬RunsOff src iend ip) (slack dst : Bytes) :
    decompress_loop (src ++ slack) iend ip dst = decompress_loop src iend ip dst := by
  have htake : (src ++ slack).take iend = src.take iend := List.take_append_of_le_length hend
  have hend' : iend ≤ (src ++ slack).length := by
    rw [List.length_append]
    omega
  induction ip, dst using decompress_loop.induct src iend with
  | case1 ip dst hlive e hstep =>
    rw [step_eq hend hlive] at hstep
    split at hstep
    · exact absurd (.here hlive ‹_›) hinside
    · cases hstep
  | case2 ip dst hlive next hstep ih =>
    have hsource := hstep
    rw [step_eq hend hlive] at hstep
    split at hstep
    · cases hstep
    · rename_i hroom
      have hliterals : literalsAt (src.take iend) ip + (runAt (src.take iend) ip).1 + 2 ≤ src.length := by
        rw [offsetAt] at hroom
        omega
      have hlonger : step (src ++ slack) iend ip dst = .ok next := by
        rw [step_eq hend' hlive, htake, if_neg (by rw [List.length_append]; omega), slice_append_of_le (by omega),
          slice_append_of_le (by omega), hstep]
      rw [decompress_loop_step hlive hlonger, decompress_loop_step hlive hsource]
      cases hstep
      exact ih fun hoff => hinside (.later hlive hoff)
  | case3 ip dst hdone => rw [decompress_loop_done (by omega), decompress_loop_done (by omega)]

/-- A stream that stays inside the stored bytes is decoded alike with any bytes
    behind them. -/
theorem lz4zfs_decompress_append {src : Bytes} (dsize : Nat) (h : 4 ≤ src.length) (hheader : header src ≤ src.length)
    (hinside : ¬RunsOff src (header src) 4) (slack : Bytes) :
    lz4zfs_decompress (src ++ slack) dsize = lz4zfs_decompress src dsize := by
  have hread : unpackBE 4 (slice src 0 4) = .ok (header src) := by
    rw [unpackBE, if_pos (length_slice_of_le (by omega)), header]
  rw [lz4zfs_decompress, lz4zfs_decompress, slice_append_of_le (by omega), hread, bind_ok, bind_ok,
    decompress_loop_append hheader hinside]

/-- From the sequence at `ip` on some sequence has its two offset bytes behind the
    first `room` bytes, however long the lengths are that the stored bytes leave open:
    what is before it is fixed by the stored bytes, and its literals end too late even
    with zeros behind these. -/
inductive CutOff (stored : Bytes) (iend room : Nat) : Nat → Prop
  | here {ip : Nat} : ip < iend → room < offsetAt (fit iend stored) ip + 2 → CutOff stored iend room ip
  | later {ip : Nat} : ip < iend → Fixed (fit iend stored) stored.length ip →
      CutOff stored iend room (nextAt (fit iend stored) ip) → CutOff stored iend room ip

section Slack

variable {stored slack : Bytes} {iend k ip : Nat}

theorem length_fit_eq (hend : iend ≤ (stored ++ slack).length) :
    (fit iend stored).length = ((stored ++ slack).take iend).length := by
  rw [length_fit, List.length_take, Nat.min_eq_left hend]

theorem take_fit_eq : (fit iend stored).take stored.length = ((stored ++ slack).take iend).take stored.length := by
  rcases Nat.le_total iend stored.length with hle | hle
  · rw [fit, Nat.sub_eq_zero_of_le hle, List.replicate_zero, List.append_nil, List.take_append_of_le_length hle]
  · rw [take_fit hle, List.take_take, Nat.min_eq_left hle, List.take_left]

theorem fit_zeros : ∀ b ∈ (fit iend stored).drop stored.length, b = 0 := by
  intro b hb
  rw [fit, List.drop_append, List.drop_eq_nil_of_le (List.length_take_le' _ _), List.nil_append] at hb
  exact List.eq_of_mem_replicate (List.mem_of_mem_drop hb)

theorem CutOff.runsOff (h : CutOff stored iend (stored.length + k) ip) (hslack : slack.length ≤ k)
    (hend : iend ≤ (stored ++ slack).length) : RunsOff (stored ++ slack) iend ip := by
  induction h with
  | @here ip hlive hpast =>
    have hle := offsetAt_le (length_fit_eq hend) take_fit_eq fit_zeros ip
    refine .here hlive ?_
    rw [List.length_append]
    omega
  | later hlive hfixed _ ih =>
    refine .later hlive ?_
    rw [hfixed.nextAt_eq (length_fit_eq hend) take_fit_eq]
    exact ih

theorem not_runsOff_of_le {src : Bytes} (h : iend ≤ ip) : ¬RunsOff src iend ip := by
  rintro (⟨hlive, -⟩ | ⟨hlive, -⟩)
  · exact Nat.not_lt.mpr h hlive
  · exact Nat.not_lt.mpr h hlive

/-- A sequence that has its offset bytes does not run off when the walk ends with it. -/
theorem not_runsOff_of_next {src : Bytes} (hoffset : offsetAt (src.take iend) ip + 2 ≤ src.length)
    (hnext : ¬RunsOff src iend (nextAt (src.take iend) ip)) : ¬RunsOff src iend ip := by
  rintro (⟨-, hpast⟩ | ⟨-, hlater⟩)
  · exact absurd hoffset (Nat.not_le.mpr hpast)
  · exact hnext hlater

/-- Behind the stored bytes a sequence without literals, with a match that goes on to
    the end, keeps the walk inside. -/
theorem exists_slack_behind (hend : iend ≤ stored.length + k) (hip : stored.length ≤ ip)
    (hroom : ip + 3 ≤ stored.length + k) :
    ∃ slack : Bytes, slack.length = k ∧ ¬RunsOff (stored ++ slack) iend ip := by
  obtain ⟨n, rfl⟩ := Nat.exists_eq_add_of_le hip
  let slack : Bytes := List.replicate n 0 ++ 15 :: List.replicate (k - n - 1) 255
  have hslack : slack.length = k := by
    simp only [slack, List.length_append, List.length_cons, List.length_replicate]
    omega
  refine ⟨slack, hslack, ?_⟩
  have hlength : (stored ++ slack).length = stored.length + k := by rw [List.length_append, hslack]
  by_cases hlive : stored.length + n < iend
  · have htoken : ((stored ++ slack).take iend).getD (stored.length + n) 0 = 15 := by
      rw [getD_take_of_lt hlive, List.getD_append_right _ _ _ _ hip, Nat.add_sub_cancel_left,
        List.getD_append_right _ _ _ _ (by rw [List.length_replicate]), List.length_replicate, Nat.sub_self]
      rfl
    have hbehind : ∀ b ∈ ((stored ++ slack).take iend).drop (stored.length + n + 3), b = 255 := by
      intro b hb
      rw [List.drop_take] at hb
      have hdrop : (stored ++ slack).drop (stored.length + n + 3) = (List.replicate (k - n - 1) 255).drop 2 := by
        rw [Nat.add_assoc, ← List.drop_drop, List.drop_left, ← List.drop_drop,
          List.drop_left' List.length_replicate]
        rfl
      rw [hdrop] at hb
      exact List.eq_of_mem_replicate (List.mem_of_mem_drop (List.mem_of_mem_take hb))
    obtain ⟨hoffset, hnext⟩ := length_le_nextAt_of_token htoken hbehind
    refine not_runsOff_of_next (by omega) (not_runsOff_of_le ?_)
    rwa [List.length_take, Nat.min_eq_left (by omega)] at hnext
  · exact not_runsOff_of_le (Nat.not_lt.mp hlive)

/-- A sequence whose literals the stored bytes fix keeps inside if the walk does after it,
    or if they do not say how long its match is: this then goes on to the end. -/
theorem exists_slack_of_literals (hend : iend ≤ stored.length + k)
    (hliterals : literalsAt (fit iend stored) ip ≤ stored.length)
    (hroom : offsetAt (fit iend stored) ip + 2 ≤ stored.length + k)
    (hnext : Fixed (fit iend stored) stored.length ip →
      ∃ slack : Bytes, slack.length = k ∧ ¬RunsOff (stored ++ slack) iend (nextAt (fit iend stored) ip)) :
    ∃ slack : Bytes, slack.length = k ∧ ¬RunsOff (stored ++ slack) iend ip := by
  by_cases hfixed : Fixed (fit iend stored) stored.length ip
  · obtain ⟨slack, hslack, hinside⟩ := hnext hfixed
    have hlength : iend ≤ (stored ++ slack).length := by rw [List.length_append, hslack]; exact hend
    refine ⟨slack, hslack, not_runsOff_of_next ?_ ?_⟩
    · rw [offsetAt_eq (length_fit_eq hlength) take_fit_eq hliterals, List.length_append, hslack]
      exact hroom
    · rwa [hfixed.nextAt_eq (length_fit_eq hlength) take_fit_eq]
  · have hslack : (List.replicate k (255 : UInt8)).length = k := List.length_replicate
    have hlength : (stored ++ List.replicate k 255).length = stored.length + k := by rw [List.length_append, hslack]
    refine ⟨List.replicate k 255, hslack, not_runsOff_of_next ?_ (not_runsOff_of_le ?_)⟩
    · rw [offsetAt_eq (length_fit_eq (by omega)) take_fit_eq hliterals, hlength]
      exact hroom
    · have hbehind : ∀ b ∈ ((stored ++ List.replicate k 255).take iend).drop stored.length, b = 255 := by
        intro b hb
        rw [List.drop_take, List.drop_left] at hb
        exact List.eq_of_mem_replicate (List.mem_of_mem_take hb)
      have hend' := length_le_nextAt_of_not_fixed (length_fit_eq (by omega)) take_fit_eq hliterals hfixed hbehind
      rwa [List.length_take, hlength, Nat.min_eq_left hend] at hend'

theorem fit_of_lt (hlt : stored.length < iend) :
    fit iend stored = stored ++ 0 :: List.replicate (iend - stored.length - 1) 0 := by
  rw [fit_of_le (Nat.le_of_lt hlt), ← List.replicate_succ, Nat.sub_add_cancel (Nat.sub_pos_of_lt hlt)]

theorem fit_concat_of_lt (hlt : stored.length < iend) (c : UInt8) :
    fit iend (stored ++ [c]) = stored ++ c :: List.replicate (iend - stored.length - 1) 0 := by
  rw [fit_of_le (by rw [List.length_append]; exact hlt), List.length_append, List.append_assoc, List.length_singleton,
    ← Nat.sub_sub, List.singleton_append]

/-- A byte that brings an offset to the end of the room, or leaves it where it is with
    three more bytes behind it. -/
theorem exists_byte {offset room : Nat} (h : offset + 2 ≤ room) :
    ∃ c : UInt8, c ≠ 255 ∧ (offset + c.toNat + 2 = room ∨ c.toNat = 0 ∧ offset + 5 ≤ room) := by
  obtain ⟨d, rfl⟩ := Nat.exists_eq_add_of_le h
  rcases Nat.lt_or_ge d 255 with hsmall | hlarge
  · have hc : (UInt8.ofNat d).toNat = d := UInt8.toNat_ofNat_of_lt' (Nat.lt_succ_of_lt hsmall)
    refine ⟨UInt8.ofNat d, ?_, .inl (by omega)⟩
    rw [Ne, ← UInt8.toNat_inj, hc]
    exact Nat.ne_of_lt hsmall
  · exact ⟨0, by decide, .inr ⟨rfl, by omega⟩⟩

/-- A run whose length the stored bytes leave open gets one more byte, with which the
    offset ends where the reading does or, if that is too far, the run is as short as it
    can be. -/
theorem exists_slack_of_open (hend : iend ≤ stored.length + k) (hip : ip < stored.length)
    (hliterals : stored.length < literalsAt (fit iend stored) ip)
    (hroom : offsetAt (fit iend stored) ip + 2 ≤ stored.length + k) :
    ∃ slack : Bytes, slack.length = k ∧ ¬RunsOff (stored ++ slack) iend ip := by
  have hlt : stored.length < iend := by
    have hle := literalsAt_le (fit iend stored) ip
    rw [length_fit] at hle
    omega
  obtain ⟨k, rfl⟩ := Nat.exists_eq_add_one_of_ne_zero (show k ≠ 0 by omega)
  rw [fit_of_lt hlt] at hliterals hroom
  obtain ⟨hnibble, hall⟩ := open_of_lt_literalsAt hip hliterals
  rw [(offsetAt_of_open hip hnibble hall (by decide) _).2, UInt8.toNat_zero] at hroom
  have hlength : ∀ c : UInt8, (stored ++ [c]).length = stored.length + 1 := fun c => List.length_append
  obtain ⟨c, hc, hnext⟩ := exists_byte hroom
  obtain ⟨hliterals', hoffset⟩ := offsetAt_of_open hip hnibble hall hc (List.replicate (iend - stored.length - 1) 0)
  rw [← fit_concat_of_lt hlt] at hliterals' hoffset
  have hbehind : ∃ slack : Bytes, slack.length = k ∧ ¬RunsOff (stored ++ [c] ++ slack) iend ip := by
    refine exists_slack_of_literals (by rw [hlength]; omega) (by rw [hlength, hliterals'])
      (by rw [hlength, hoffset]; omega) fun hfixed => ?_
    rw [hfixed.nextAt_eq_offsetAt (by rw [hlength, hoffset]; omega), hoffset]
    rcases hnext with hlast | ⟨hzero, hfar⟩
    · exact ⟨List.replicate k 0, List.length_replicate, not_runsOff_of_le (by omega)⟩
    · exact exists_slack_behind (by rw [hlength]; omega) (by rw [hlength]; omega) (by rw [hlength]; omega)
  obtain ⟨slack, hslack, hinside⟩ := hbehind
  refine ⟨c :: slack, by rw [List.length_cons, hslack], ?_⟩
  rwa [List.append_assoc] at hinside

theorem exists_slack (hend : iend ≤ stored.length + k) (h : ¬CutOff stored iend (stored.length + k) ip) :
    ∃ slack : Bytes, slack.length = k ∧ ¬RunsOff (stored ++ slack) iend ip := by
  induction hn : iend - ip using Nat.strong_induction_on generalizing ip with
  | h n ih =>
    subst hn
    rcases Nat.lt_or_ge ip iend with hlive | hdone
    · have hroom : offsetAt (fit iend stored) ip + 2 ≤ stored.length + k := by
        by_contra hpast
        exact h (.here hlive (Nat.not_le.mp hpast))
      rcases Nat.lt_or_ge stored.length (literalsAt (fit iend stored) ip) with hopen | hliterals
      · rcases Nat.lt_or_ge ip stored.length with hip | hip
        · exact exists_slack_of_open hend hip hopen hroom
        · rw [offsetAt_of_zero (getD_of_zeros fit_zeros hip)] at hroom
          exact exists_slack_behind hend hip hroom
      · refine exists_slack_of_literals hend hliterals hroom fun hfixed => ?_
        have hlt := lt_nextAt (fit iend stored) ip
        exact ih _ (by omega) (fun hcut => h (.later hlive hfixed hcut)) rfl
    · exact ⟨List.replicate k 0, List.length_replicate, not_runsOff_of_le hdone⟩

/-- Exactly the streams that are cut off are so whatever is behind the stored bytes. -/
theorem runsOff_append_iff_cutOff :
    (∀ slack : Bytes, slack.length ≤ k → (stored ++ slack).length < iend ∨ RunsOff (stored ++ slack) iend ip) ↔
      stored.length + k < iend ∨ CutOff stored iend (stored.length + k) ip := by
  constructor
  · intro hall
    rw [or_iff_not_imp_left]
    intro hend
    by_contra hcut
    obtain ⟨slack, hslack, hinside⟩ := exists_slack (Nat.not_lt.mp hend) hcut
    rcases hall slack (Nat.le_of_eq hslack) with hpast | hoff
    · rw [List.length_append, hslack] at hpast
      exact hend hpast
    · exact hinside hoff
  · intro hcut slack hslack
    rcases Nat.lt_or_ge (stored ++ slack).length iend with hpast | hend
    · exact .inl hpast
    · rw [List.length_append] at hend
      exact .inr ((hcut.resolve_left (by omega)).runsOff hslack (by rw [List.length_append]; exact hend))

end Slack

end zfs_rescue.lz4zfs
