import ZfsRescue.Bytes.Zero
import ZfsRescue.Lzjb

open bytes

namespace zfs_rescue.lzjb

/-- The flag under the mask: the next item is a match. -/
def State.matches (s : State) : Prop := s.copymap &&& (1 <<< s.bit.val) ≠ 0

instance (s : State) : Decidable s.matches := inferInstanceAs (Decidable (_ ≠ _))

section Append

variable {src : Bytes} {dlen : Nat} {s : State}

theorem next_mask_append {t : State} (h : next_mask src s = .ok t) (slack : Bytes) :
    next_mask (src ++ slack) s = .ok t := by
  unfold next_mask at h ⊢
  split
  · rename_i hbit
    rw [if_pos hbit, bind_eq_ok_iff] at h
    obtain ⟨c, hc, ht⟩ := h
    rw [index_append hc, bind_ok, ht]
  · rename_i hbit
    rw [if_neg hbit] at h
    exact h

theorem read_match_append {pos : Nat} {m : Nat × Nat} (h : read_match src pos = .ok m) (slack : Bytes) :
    read_match (src ++ slack) pos = .ok m := by
  unfold read_match at h ⊢
  simp only [bind_eq_ok_iff] at h ⊢
  obtain ⟨c0, hc0, c1, hc1, hm⟩ := h
  exact ⟨c0, index_append hc0 slack, c1, index_append hc1 slack, hm⟩

/-- A turn of the loop that reads inside the stream does the same with more
    bytes behind it. -/
theorem step_append {next : Option State} (h : step src dlen s = .ok next) (slack : Bytes) :
    step (src ++ slack) dlen s = .ok next := by
  unfold step at h ⊢
  rw [bind_eq_ok_iff] at h ⊢
  obtain ⟨t, ht, h⟩ := h
  refine ⟨t, next_mask_append ht slack, ?_⟩
  split
  · rename_i hflag
    rw [if_pos hflag, bind_eq_ok_iff] at h
    obtain ⟨m, hm, h⟩ := h
    rw [read_match_append hm, bind_ok, h]
  · rename_i hflag
    rw [if_neg hflag] at h
    split
    · rename_i hroom
      rw [if_pos hroom, bind_eq_ok_iff] at h
      obtain ⟨c, hc, h⟩ := h
      rw [index_append hc, bind_ok, h]
    · rename_i hroom
      rw [if_neg hroom] at h
      exact h

/-- Inside the stream the mask can always be moved on. -/
theorem exists_next_mask (hpos : s.pos < src.length) :
    ∃ t, next_mask src s = .ok t ∧ s.pos ≤ t.pos ∧ t.pos ≤ s.pos + 1 ∧ t.dst = s.dst := by
  unfold next_mask
  split
  · rw [index_of_lt hpos, bind_ok]
    exact ⟨_, rfl, Nat.le_succ _, Nat.le_refl _, rfl⟩
  · exact ⟨_, rfl, Nat.le_refl _, Nat.le_succ _, rfl⟩

end Append

/-- The offset of a match: two bits of its first byte, and its second byte. -/
theorem match_offset (c0 c1 : UInt8) :
    ((c0.toNat <<< BYTE_BITS) ||| c1.toNat) &&& OFFSET_MASK = (c0.toNat % 4) * 256 + c1.toNat := by
  have h1 := c1.toNat_lt
  have hor : (c0.toNat <<< 8) ||| c1.toNat = c0.toNat * 256 + c1.toNat := by
    rw [← Nat.shiftLeft_add_eq_or_of_lt (by omega), Nat.shiftLeft_eq]
  rw [show BYTE_BITS = 8 from rfl, hor, show OFFSET_MASK = 2 ^ 10 - 1 by decide, Nat.and_two_pow_sub_one_eq_mod]
  omega

theorem read_match_eq {src : Bytes} {pos : Nat} {c0 c1 : UInt8} (h0 : index src pos = .ok c0)
    (h1 : index src (pos + 1) = .ok c1) :
    read_match src pos = .ok ((c0.toNat >>> (BYTE_BITS - MATCH_BITS)) + MATCH_MIN, (c0.toNat % 4) * 256 + c1.toNat) := by
  rw [read_match, h0, bind_ok, h1, bind_ok, match_offset]

/-- A match that starts inside the output is copied. -/
theorem copy_match_of_lt {dlen cpy : Nat} (mlen : Nat) {dst : Bytes} (h : cpy < dst.length) :
    ∃ out, copy_match dlen mlen cpy dst = .ok out ∧ dst <+: out := by
  induction mlen generalizing cpy dst with
  | zero => exact ⟨dst, rfl, List.prefix_refl dst⟩
  | succ mlen ih =>
    rw [copy_match]
    split
    · rw [index_of_lt h, bind_ok]
      obtain ⟨out, hout, hprefix⟩ := @ih (cpy + 1) (dst ++ [dst[cpy]]) (by simp; omega)
      exact ⟨out, hout, (List.prefix_append _ _).trans hprefix⟩
    · exact ⟨dst, rfl, List.prefix_refl dst⟩

/-- A match of length three or more that starts at the end of the output raises
    an exception, unless no more output is wanted. -/
theorem copy_match_at_end {dlen mlen : Nat} {dst : Bytes} (hmlen : 0 < mlen) :
    copy_match dlen mlen dst.length dst = if dst.length < dlen then .error .IndexError else .ok dst := by
  obtain ⟨mlen, rfl⟩ : ∃ n, mlen = n + 1 := ⟨mlen - 1, by omega⟩
  rw [copy_match, index_of_le (Nat.le_refl _), bind_error]

/-- What becomes of the output of a decompressor: filled up or cut to the size
    wanted, and nothing for a refusal or an exception. -/
def delivered (dlen : Nat) : Py (Option Bytes) → Option Bytes
  | .ok (some dst) => some (fit dlen dst)
  | _ => none

section Loop

variable {src : Bytes} {dlen : Nat} {s : State}

theorem decompress_loop_step {next : State} (hpos : s.pos < src.length) (h : step src dlen s = .ok (some next)) :
    decompress_loop src dlen s = decompress_loop src dlen next := by
  rw [decompress_loop, dif_pos hpos]
  split
  · rename_i heq
    rw [h] at heq
    cases heq
  · rename_i heq
    rw [h] at heq
    cases heq
  · rename_i heq
    rw [h] at heq
    cases heq
    rfl

theorem decompress_loop_done (hpos : src.length ≤ s.pos) : decompress_loop src dlen s = .ok (some s.dst) := by
  rw [decompress_loop, dif_neg (by omega)]

/-- A turn that does not go on ends the loop without output. -/
theorem delivered_of_stop (hpos : s.pos < src.length) (h : ∀ next, step src dlen s ≠ .ok (some next)) :
    delivered dlen (decompress_loop src dlen s) = none := by
  rw [decompress_loop, dif_pos hpos]
  split
  · rfl
  · rfl
  · exact absurd ‹_› (h _)

theorem delivered_of_error {e : PyErr} (hpos : s.pos < src.length) (h : step src dlen s = .error e) :
    delivered dlen (decompress_loop src dlen s) = none := by
  refine delivered_of_stop hpos fun next heq => ?_
  rw [h] at heq
  cases heq

end Loop

/-- The stored bytes already hold something that is refused whatever follows
    them: a match from before the start of the output, a match without an offset
    while output is wanted, or the first byte of a match, as the last of them,
    that is from before the start whatever its second byte is. -/
inductive Refused (src : Bytes) (dlen : Nat) : State → Prop
  | before_start {s t : State} {m : Nat × Nat} : s.pos < src.length → next_mask src s = .ok t → t.matches →
      read_match src t.pos = .ok m → t.dst.length < m.2 → Refused src dlen s
  | no_offset {s t : State} {m : Nat × Nat} : s.pos < src.length → next_mask src s = .ok t → t.matches →
      read_match src t.pos = .ok m → m.2 = 0 → t.dst.length < dlen → Refused src dlen s
  | last_byte {s t : State} {c : UInt8} : s.pos < src.length → next_mask src s = .ok t → t.matches →
      t.pos + 1 = src.length → index src t.pos = .ok c → t.dst.length < (c.toNat % 4) * 256 → Refused src dlen s
  | later {s s' : State} : s.pos < src.length → step src dlen s = .ok (some s') → Refused src dlen s' →
      Refused src dlen s

/-- A turn of the loop after its mask has moved on. -/
theorem step_of_mask {src : Bytes} {dlen : Nat} {s t : State} (hmask : next_mask src s = .ok t) :
    step src dlen s =
      if t.matches then
        (read_match src t.pos >>= fun m =>
          if t.dst.length < m.2 then .ok none
          else copy_match dlen m.1 (t.dst.length - m.2) t.dst >>= fun dst =>
            .ok (some { t with pos := t.pos + 2, dst := dst }))
      else if t.dst.length < dlen then
        (index src t.pos >>= fun c => .ok (some { t with pos := t.pos + 1, dst := t.dst ++ [c] }))
      else .ok (some t) := by
  rw [step, hmask, bind_ok]
  rfl

theorem step_before_start {src : Bytes} {dlen : Nat} {s t : State} {m : Nat × Nat} (hmask : next_mask src s = .ok t)
    (hflag : t.matches) (hm : read_match src t.pos = .ok m) (hoff : t.dst.length < m.2) :
    step src dlen s = .ok none := by
  rw [step_of_mask hmask, if_pos hflag, hm, bind_ok, if_pos hoff]

theorem step_match {src : Bytes} (dlen : Nat) {s t : State} {m : Nat × Nat} (hmask : next_mask src s = .ok t)
    (hflag : t.matches) (hm : read_match src t.pos = .ok m) (hoff : m.2 ≤ t.dst.length) :
    step src dlen s =
      (copy_match dlen m.1 (t.dst.length - m.2) t.dst >>= fun dst =>
        .ok (some { t with pos := t.pos + 2, dst := dst })) := by
  rw [step_of_mask hmask, if_pos hflag, hm, bind_ok, if_neg (by omega)]

theorem step_match_error {src : Bytes} {dlen : Nat} {s t : State} {e : PyErr} (hmask : next_mask src s = .ok t)
    (hflag : t.matches) (hm : read_match src t.pos = .error e) : step src dlen s = .error e := by
  rw [step_of_mask hmask, if_pos hflag, hm, bind_error]

theorem step_literal {src : Bytes} {dlen : Nat} {s t : State} (hmask : next_mask src s = .ok t) (hflag : ¬t.matches)
    (hroom : t.dst.length < dlen) :
    step src dlen s =
      (index src t.pos >>= fun c => .ok (some { t with pos := t.pos + 1, dst := t.dst ++ [c] })) := by
  rw [step_of_mask hmask, if_neg hflag, if_pos hroom]

theorem step_full {src : Bytes} {dlen : Nat} {s t : State} (hmask : next_mask src s = .ok t) (hflag : ¬t.matches)
    (hfull : ¬t.dst.length < dlen) : step src dlen s = .ok (some t) := by
  rw [step_of_mask hmask, if_neg hflag, if_neg hfull]

theorem read_match_pos {src : Bytes} {pos : Nat} {m : Nat × Nat} (h : read_match src pos = .ok m) :
    0 < m.1 ∧ pos + 2 ≤ src.length := by
  unfold read_match at h
  simp only [bind_eq_ok_iff] at h
  obtain ⟨c0, _, c1, hc1, hm⟩ := h
  cases hm
  have hlt := (List.getElem?_eq_some_iff.mp (index_eq_ok_iff.mp hc1)).1
  exact ⟨Nat.succ_pos _, hlt⟩

/-- What is refused stays so with any bytes behind it. -/
theorem delivered_of_refused {src : Bytes} {dlen : Nat} {s : State} (h : Refused src dlen s) (slack : Bytes) :
    delivered dlen (decompress_loop (src ++ slack) dlen s) = none := by
  induction h with
  | before_start hpos hmask hflag hm hoff =>
    refine delivered_of_stop (by rw [List.length_append]; omega) fun next heq => ?_
    rw [step_before_start (next_mask_append hmask slack) hflag (read_match_append hm slack) hoff] at heq
    cases heq
  | no_offset hpos hmask hflag hm hzero hroom =>
    refine delivered_of_stop (by rw [List.length_append]; omega) fun next heq => ?_
    rw [step_match _ (next_mask_append hmask slack) hflag (read_match_append hm slack) (by omega), hzero, Nat.sub_zero,
      copy_match_at_end (read_match_pos hm).1, if_pos hroom, bind_error] at heq
    cases heq
  | @last_byte s t c hpos hmask hflag hlast hc hoff =>
    refine delivered_of_stop (by rw [List.length_append]; omega) fun next heq => ?_
    cases hsecond : index (src ++ slack) (t.pos + 1) with
    | error e =>
      have hm : read_match (src ++ slack) t.pos = .error e := by
        rw [read_match, index_append hc, bind_ok, hsecond, bind_error]
      rw [step_match_error (next_mask_append hmask slack) hflag hm] at heq
      cases heq
    | ok c1 =>
      have hbefore : t.dst.length < (c.toNat % 4) * 256 + c1.toNat := Nat.lt_of_lt_of_le hoff (Nat.le_add_right _ _)
      rw [step_before_start (next_mask_append hmask slack) hflag (read_match_eq (index_append hc slack) hsecond)
        hbefore] at heq
      cases heq
  | later hpos hstep _ ih =>
    rw [decompress_loop_step (by rw [List.length_append]; omega) (step_append hstep slack)]
    exact ih

/-- A turn that lacks one or two bytes, with which it would go on to the end
    of the stream. -/
def Starved (src : Bytes) (dlen : Nat) (s : State) : Prop :=
  (∀ next, step src dlen s ≠ .ok (some next)) ∧ ∃ slack s', slack.length ≤ 2 ∧
    step (src ++ slack) dlen s = .ok (some s') ∧ (src ++ slack).length ≤ s'.pos

/-- A second byte that makes a match start inside the output. -/
theorem exists_second_byte {high n : Nat} (hn : 0 < n) (h : high * 256 ≤ n) :
    ∃ c1 : UInt8, 1 ≤ high * 256 + c1.toNat ∧ high * 256 + c1.toNat ≤ n := by
  rcases Nat.eq_zero_or_pos high with rfl | hhigh
  · refine ⟨1, ?_⟩
    rw [show (1 : UInt8).toNat = 1 from rfl]
    omega
  · refine ⟨0, ?_⟩
    rw [show (0 : UInt8).toNat = 0 from rfl]
    omega

section Outcome

variable {src : Bytes} {s t : State} (dlen : Nat)

/-- A match with both bytes stored is copied or refused. -/
theorem step_match_inside (hpos : s.pos < src.length) (hmask : next_mask src s = .ok t) (hdst : t.dst ≠ [])
    (hflag : t.matches) {m : Nat × Nat} (hm : read_match src t.pos = .ok m) :
    (∃ s', step src dlen s = .ok (some s') ∧ s'.pos ≤ src.length ∧ s'.dst ≠ []) ∨ Refused src dlen s := by
  obtain ⟨hmlen, hend⟩ := read_match_pos hm
  rcases Nat.lt_or_ge t.dst.length m.2 with hbefore | hinside
  · exact .inr (.before_start hpos hmask hflag hm hbefore)
  have hstep := step_match dlen hmask hflag hm hinside
  rcases Nat.eq_zero_or_pos m.2 with hzero | hoff
  · rw [hzero, Nat.sub_zero, copy_match_at_end hmlen] at hstep
    by_cases hroom : t.dst.length < dlen
    · exact .inr (.no_offset hpos hmask hflag hm hzero hroom)
    · rw [if_neg hroom, bind_ok] at hstep
      exact .inl ⟨_, hstep, hend, hdst⟩
  · obtain ⟨out, hout, hprefix⟩ := @copy_match_of_lt dlen (t.dst.length - m.2) m.1 t.dst (by omega)
    rw [hout, bind_ok] at hstep
    exact .inl ⟨_, hstep, hend, fun hnil => hdst (List.prefix_nil.mp (hnil ▸ hprefix))⟩

/-- The stream ends behind the first byte of a match. -/
theorem step_match_last (hpos : s.pos < src.length) (hmask : next_mask src s = .ok t) (hdst : t.dst ≠ [])
    (hflag : t.matches) (hlast : t.pos + 1 = src.length) {c : UInt8} (hc : index src t.pos = .ok c) :
    Refused src dlen s ∨ Starved src dlen s := by
  have hlen : 0 < t.dst.length := List.length_pos_iff.mpr hdst
  rcases Nat.lt_or_ge t.dst.length ((c.toNat % 4) * 256) with hbefore | hinside
  · exact .inl (.last_byte hpos hmask hflag hlast hc hbefore)
  right
  constructor
  · intro next heq
    have hm : read_match src t.pos = .error .IndexError := by
      rw [read_match, hc, bind_ok, index_of_le (by omega), bind_error]
    rw [step_match_error hmask hflag hm] at heq
    cases heq
  · obtain ⟨c1, hlow, hhigh⟩ := exists_second_byte hlen hinside
    have hc1 : index (src ++ [c1]) (t.pos + 1) = .ok c1 := by
      rw [hlast, index_eq_ok_iff, List.getElem?_concat_length]
    have hstep := step_match dlen (next_mask_append hmask [c1]) hflag (read_match_eq (index_append hc [c1]) hc1) hhigh
    dsimp only at hstep
    generalize hoff : c.toNat % 4 * 256 + c1.toNat = off at hlow hhigh hstep
    generalize (c.toNat >>> (BYTE_BITS - MATCH_BITS)) + MATCH_MIN = mlen at hstep
    obtain ⟨out, hout, _⟩ := @copy_match_of_lt dlen (t.dst.length - off) mlen t.dst (by omega)
    rw [hout, bind_ok] at hstep
    refine ⟨[c1], _, by simp, hstep, ?_⟩
    simp only [List.length_append, List.length_singleton]
    omega

/-- The stream ends before a match. -/
theorem step_match_missing (hmask : next_mask src s = .ok t) (hdst : t.dst ≠ []) (hflag : t.matches)
    (hend : t.pos = src.length) : Starved src dlen s := by
  have hlen : 0 < t.dst.length := List.length_pos_iff.mpr hdst
  constructor
  · intro next heq
    have hm : read_match src t.pos = .error .IndexError := by
      rw [read_match, index_of_le (by omega), bind_error]
    rw [step_match_error hmask hflag hm] at heq
    cases heq
  · have hc0 : index (src ++ [0, 1]) t.pos = .ok 0 := by
      rw [hend, index_eq_ok_iff]
      simp
    have hc1 : index (src ++ [0, 1]) (t.pos + 1) = .ok 1 := by
      rw [hend, index_eq_ok_iff]
      simp
    have hm : read_match (src ++ [0, 1]) t.pos = .ok (3, 1) := by
      rw [read_match_eq hc0 hc1]
      rfl
    have hstep := step_match dlen (next_mask_append hmask [0, 1]) hflag hm hlen
    obtain ⟨out, hout, _⟩ := @copy_match_of_lt dlen (t.dst.length - 1) 3 t.dst (by omega)
    rw [hout, bind_ok] at hstep
    refine ⟨[0, 1], _, by simp, hstep, ?_⟩
    simp only [List.length_append, List.length_cons, List.length_nil]
    omega

/-- A literal is stored, or the stream ends before it. -/
theorem step_literal_cases (hmask : next_mask src s = .ok t) (hle : t.pos ≤ src.length) (hflag : ¬t.matches)
    (hroom : t.dst.length < dlen) :
    (∃ s', step src dlen s = .ok (some s') ∧ s'.pos ≤ src.length ∧ s'.dst ≠ []) ∨ Starved src dlen s := by
  have hstep := step_literal hmask hflag hroom
  rcases Nat.lt_or_ge t.pos src.length with hin | hend
  · rw [index_of_lt hin, bind_ok] at hstep
    exact .inl ⟨_, hstep, hin, by simp⟩
  right
  constructor
  · intro next heq
    rw [hstep, index_of_le hend, bind_error] at heq
    cases heq
  · have hend : t.pos = src.length := by omega
    have hc : index (src ++ [0]) t.pos = .ok 0 := by
      rw [hend, index_eq_ok_iff, List.getElem?_concat_length]
    have hstep := step_literal (next_mask_append hmask [0]) hflag hroom
    rw [hc, bind_ok] at hstep
    refine ⟨[0], _, by simp, hstep, ?_⟩
    simp only [List.length_append, List.length_singleton]
    omega

/-- A turn inside the stream goes on, is refused, or is starved. -/
theorem step_outcome (hpos : s.pos < src.length) (hdst : s.dst ≠ []) :
    (∃ s', step src dlen s = .ok (some s') ∧ s'.pos ≤ src.length ∧ s'.dst ≠ []) ∨ Refused src dlen s ∨
      Starved src dlen s := by
  obtain ⟨t, hmask, hle, hnext, hsame⟩ := exists_next_mask hpos
  rw [← hsame] at hdst
  by_cases hflag : t.matches
  · rcases Nat.lt_or_ge t.pos src.length with hfirst | hend
    · have hc := index_of_lt hfirst
      rcases Nat.lt_or_ge (t.pos + 1) src.length with hsecond | hlast
      · have hm := read_match_eq hc (index_of_lt hsecond)
        rcases step_match_inside dlen hpos hmask hdst hflag hm with hgo | hrefused
        · exact .inl hgo
        · exact .inr (.inl hrefused)
      · exact .inr (step_match_last dlen hpos hmask hdst hflag (by omega) hc)
    · exact .inr (.inr (step_match_missing dlen hmask hdst hflag (by omega)))
  · by_cases hroom : t.dst.length < dlen
    · rcases step_literal_cases dlen hmask (by omega) hflag hroom with hgo | hstarved
      · exact .inl hgo
      · exact .inr (.inr hstarved)
    · exact .inl ⟨t, step_full hmask hflag hroom, by omega, hdst⟩

end Outcome

theorem fit_concat_ne {dlen : Nat} {dst : Bytes} (hroom : dst.length < dlen) : fit dlen (dst ++ [1]) ≠ fit dlen dst := by
  intro heq
  have hbyte := congrArg (fun xs : Bytes => xs.getD dst.length 0) heq
  simp only [getD_fit _ _ _ hroom] at hbyte
  simp [List.getD_eq_getElem?_getD] at hbyte

/-- At the end of the stream one more byte changes what is delivered. -/
theorem delivered_one_more {src : Bytes} {dlen : Nat} {s : State} (hpos : s.pos = src.length) :
    delivered dlen (decompress_loop (src ++ [1]) dlen s) ≠ some (fit dlen s.dst) := by
  have hone : index (src ++ [1]) src.length = .ok 1 := by
    rw [index_eq_ok_iff, List.getElem?_concat_length]
  have hend : index (src ++ [1]) (src.length + 1) = .error .IndexError := index_of_le (by simp)
  have hlive : s.pos < (src ++ [1]).length := by
    rw [List.length_append, List.length_singleton]
    omega
  -- the mask moves on until a new copy map is read
  induction hleft : 7 - s.bit.val generalizing s with
  | zero =>
    have hbit : s.bit = 7 := Fin.ext (by have := s.bit.isLt; change s.bit.val = 7; omega)
    have hmask : next_mask (src ++ [1]) s = .ok { s with pos := s.pos + 1, bit := 0, copymap := 1 } := by
      rw [next_mask, if_pos hbit, hpos, hone, bind_ok]
      rfl
    have hm : read_match (src ++ [1]) (s.pos + 1) = .error .IndexError := by
      rw [read_match, hpos, hend, bind_error]
    have hflag : ({ s with pos := s.pos + 1, bit := 0, copymap := 1 } : State).matches := by
      change 1 &&& (1 <<< 0) ≠ 0
      decide
    rw [delivered_of_error hlive (step_match_error hmask hflag hm)]
    exact fun h => by cases h
  | succ left ih =>
    have hbit : s.bit ≠ 7 := fun h => by rw [h] at hleft; cases hleft
    have hmask : next_mask (src ++ [1]) s = .ok { s with bit := s.bit + 1 } := by
      rw [next_mask, if_neg hbit]
    by_cases hflag : ({ s with bit := s.bit + 1 } : State).matches
    · have hm : read_match (src ++ [1]) s.pos = .error .IndexError := by
        rw [read_match, hpos, hone, bind_ok, hend, bind_error]
      rw [delivered_of_error hlive (step_match_error hmask hflag hm)]
      exact fun h => by cases h
    by_cases hroom : s.dst.length < dlen
    · have hstep := step_literal hmask hflag hroom
      rw [hpos, hone, bind_ok] at hstep
      rw [decompress_loop_step hlive hstep, decompress_loop_done (by simp), delivered]
      intro heq
      exact fit_concat_ne hroom (Option.some.inj heq)
    · have hnext : ({ s with bit := s.bit + 1 } : State).bit.val = s.bit.val + 1 := by
        have hlt := s.bit.isLt
        change (s.bit + 1).val = s.bit.val + 1
        rw [Fin.val_add]
        change (s.bit.val + 1) % 8 = s.bit.val + 1
        omega
      have hstep := step_full hmask hflag hroom
      rw [decompress_loop_step hlive hstep]
      exact @ih { s with bit := s.bit + 1 } hpos hlive (by rw [hnext]; omega)

/-- What is delivered depends on the bytes behind the stored ones, unless these
    are refused. -/
theorem delivered_varies {src : Bytes} {dlen : Nat} {s : State} (hdst : s.dst ≠ []) (hpos : s.pos ≤ src.length)
    (hgood : ¬Refused src dlen s) :
    ∃ slack, slack.length ≤ 2 ∧
      delivered dlen (decompress_loop (src ++ slack) dlen s) ≠ delivered dlen (decompress_loop src dlen s) := by
  induction hleft : s.flagsLeft src using Nat.strongRecOn generalizing s with
  | _ left ih =>
    rcases Nat.lt_or_ge s.pos src.length with hlive | hend
    · rcases step_outcome dlen hlive hdst with ⟨s', hstep, hpos', hdst'⟩ | hrefused | ⟨hstop, slack, s', hslack, hstep, hdone⟩
      · obtain ⟨slack, hslack, hne⟩ := ih _ (hleft ▸ step_flagsLeft hlive hstep) hdst' hpos'
          (fun h => hgood (.later hlive hstep h)) rfl
        refine ⟨slack, hslack, ?_⟩
        rw [decompress_loop_step (by rw [List.length_append]; omega) (step_append hstep slack),
          decompress_loop_step hlive hstep]
        exact hne
      · exact absurd hrefused hgood
      · refine ⟨slack, hslack, ?_⟩
        rw [delivered_of_stop hlive hstop, decompress_loop_step (by rw [List.length_append]; omega) hstep,
          decompress_loop_done hdone]
        exact fun h => by cases h
    · refine ⟨[1], by decide, ?_⟩
      rw [decompress_loop_done hend]
      exact delivered_one_more (by omega)

/-- LZJB output does not depend on what follows the stored bytes exactly when
    these are refused. -/
theorem lzjb_decompress_ignores_slack_iff {src : Bytes} {dlen k : Nat} (hsrc : 3 ≤ src.length) (hdlen : 0 < dlen)
    (hk : 2 ≤ k) :
    (∀ slack slack' : Bytes, slack.length ≤ k → slack'.length ≤ k →
        delivered dlen (lzjb_decompress (src ++ slack) dlen) = delivered dlen (lzjb_decompress (src ++ slack') dlen)) ↔
      Refused src dlen { pos := 0, bit := 7, copymap := 0, dst := [] } := by
  constructor
  · intro hsame
    by_contra hgood
    have hvaries : ∃ slack : Bytes, slack.length ≤ 2 ∧
        delivered dlen (lzjb_decompress (src ++ slack) dlen) ≠ delivered dlen (lzjb_decompress src dlen) := by
      have hlive : 0 < src.length := by omega
      have hmask : next_mask src { pos := 0, bit := 7, copymap := 0, dst := [] } =
          .ok { pos := 1, bit := 0, copymap := src[0].toNat, dst := [] } := by
        rw [next_mask, if_pos rfl, index_of_lt hlive, bind_ok]
      by_cases hflag : ({ pos := 1, bit := 0, copymap := src[0].toNat, dst := [] } : State).matches
      · have hm := read_match_eq (index_of_lt (show 1 < src.length by omega)) (index_of_lt (show 1 + 1 < src.length by omega))
        generalize ((src[1].toNat >>> (BYTE_BITS - MATCH_BITS)) + MATCH_MIN,
          (src[1].toNat % 4) * 256 + src[1 + 1].toNat) = m at hm
        rcases Nat.eq_zero_or_pos m.2 with hzero | hoff
        · exact absurd (.no_offset hlive hmask hflag hm hzero hdlen) hgood
        · exact absurd (.before_start hlive hmask hflag hm hoff) hgood
      · have hstep := step_literal hmask hflag hdlen
        rw [index_of_lt (show 1 < src.length by omega), bind_ok] at hstep
        obtain ⟨slack, hslack, hne⟩ := delivered_varies (by simp) (show 1 + 1 ≤ src.length by omega)
          (fun h => hgood (.later hlive hstep h))
        refine ⟨slack, hslack, ?_⟩
        rw [lzjb_decompress, lzjb_decompress, decompress_loop_step (by rw [List.length_append]; exact Nat.add_pos_left hlive _)
          (step_append hstep slack), decompress_loop_step hlive hstep]
        exact hne
    obtain ⟨slack, hslack, hne⟩ := hvaries
    have heq := hsame slack [] (by omega) (Nat.zero_le _)
    rw [List.append_nil] at heq
    exact hne heq
  · intro hrefused slack slack' _ _
    rw [lzjb_decompress, lzjb_decompress, delivered_of_refused hrefused, delivered_of_refused hrefused]

end zfs_rescue.lzjb
