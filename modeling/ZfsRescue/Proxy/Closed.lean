import ZfsRescue.Proxy.ReadNetwork

open bytes
open zfs_rescue.server runs

namespace zfs_rescue.proxy

/-- `_read_network_buf` up to its first answer. -/
def read_network_buf (buf : Bytes) (dev_path : String) (offset count : Nat) : Client :=
  match pack_request dev_path offset count with
  | .ok _ => .answer buf count []
  | .error e => .returned (.error e)

/-- The client is back, with whatever result. -/
def Back (s : Connection) : Prop := ∃ result, Returned result s

/-- `len(view[boff+(off-offset):])`, of a view of `len` bytes. -/
def view_room (boff offset len off : Nat) : Nat := len - sliceBound len (boff + (off - offset : Int))

/-- The offset and the length in the answer at the front of a stream. -/
def answer_off (stream : Bytes) : Nat := readLE (slice stream 1 8)

def answer_len (stream : Bytes) : Nat := readLE (slice stream 9 8)

/-- A stream that ends the read of `count` bytes: behind whole packets it has a whole
    answer that is not a packet, that comes when no more bytes are asked for, or that
    announces more bytes than there is room for. -/
inductive Ends (boff offset len : Nat) : Int → Bytes → Prop where
  | other {count : Int} {stream : Bytes} :
      17 ≤ stream.length → stream.getD 0 0 ≠ char_byte 'n' → Ends boff offset len count stream
  | enough {count : Int} {stream : Bytes} : 17 ≤ stream.length → count ≤ 0 → Ends boff offset len count stream
  | no_room {count : Int} {stream : Bytes} :
      17 ≤ stream.length → view_room boff offset len (answer_off stream) < answer_len stream →
      Ends boff offset len count stream
  | packet {count : Int} {stream : Bytes} :
      17 + answer_len stream ≤ stream.length →
      Ends boff offset len (count - answer_len stream) (stream.drop (17 + answer_len stream)) →
      Ends boff offset len count stream

/-- A stream that ends what the client still has to do. -/
def ClientEnds (boff offset : Nat) : Client → Bytes → Prop
  | .answer buf count got, down => Ends boff offset buf.length count (got ++ down)
  | .payload buf count _ l, down => l ≤ down.length ∧ Ends boff offset buf.length count (down.drop l)
  | .returned _, _ => True

/-- A client that waits for bytes has room for them. -/
def Client.Waits (boff offset : Nat) : Client → Prop
  | .answer _ _ got => got.length < 17
  | .payload buf _ off l => 0 < l ∧ l ≤ view_room boff offset buf.length off
  | .returned _ => True

section Client

variable {boff offset len : Nat} {buf got answer down data stream : Bytes} {count : Int} {off l : Nat}

theorem Ends.le_length (h : Ends boff offset len count stream) : 17 ≤ stream.length := by
  cases h with
  | other hlength | enough hlength | no_room hlength => exact hlength
  | packet hlength => omega

/-- A packet that is asked for and has room has to be there as a whole. -/
theorem ends_packet_iff (hlength : 17 ≤ stream.length) (hcode : stream.getD 0 0 = char_byte 'n') (hcount : 0 < count) :
    Ends boff offset len count stream ↔
      view_room boff offset len (answer_off stream) < answer_len stream ∨
        17 + answer_len stream ≤ stream.length ∧
          Ends boff offset len (count - answer_len stream) (stream.drop (17 + answer_len stream)) := by
  constructor
  · intro h
    cases h with
    | other _ hother => exact absurd hcode hother
    | enough _ henough => omega
    | no_room _ hroom => exact .inl hroom
    | packet hwhole hrest => exact .inr ⟨hwhole, hrest⟩
  · rintro (hroom | ⟨hwhole, hrest⟩)
    · exact .no_room hlength hroom
    · exact .packet hwhole hrest

/-- As bytes come in, there is room for the rest of them. -/
theorem view_room_add {n : Nat} (hroom : l ≤ view_room boff offset len off) (hn : n ≤ l) :
    l - n ≤ view_room boff offset len (off + n) := by
  unfold view_room sliceBound at *
  split at hroom <;> split <;> omega

theorem recv_payload_waits : (recv_payload boff offset buf count off l).Waits boff offset := by
  rw [recv_payload]
  split
  · exact Nat.zero_lt_succ 16
  · split
    · trivial
    · rename_i hroom
      exact ⟨by omega, Nat.not_lt.mp hroom⟩

theorem recv_payload_ends :
    ClientEnds boff offset (recv_payload boff offset buf count off l) down ↔
      view_room boff offset buf.length off < l ∨ l ≤ down.length ∧ Ends boff offset buf.length count (down.drop l) := by
  rw [recv_payload]
  split
  · rename_i hzero
    subst hzero
    simp [ClientEnds]
  · split
    · rename_i hroom
      exact iff_of_true trivial (.inl hroom)
    · rename_i hroom
      exact (or_iff_right hroom).symm

theorem handle_answer_waits : (handle_answer boff offset buf count answer).Waits boff offset := by
  rw [handle_answer]
  split
  · split
    · trivial
    · exact recv_payload_waits
  · trivial

/-- The answer says what the stream has to bring. -/
theorem handle_answer_ends (hlength : answer.length = 17) :
    ClientEnds boff offset (handle_answer boff offset buf count answer) down ↔
      Ends boff offset buf.length count (answer ++ down) := by
  have hwhole : 17 ≤ (answer ++ down).length := by
    rw [List.length_append]
    omega
  have hcode : (answer ++ down).getD 0 0 = answer.getD 0 0 := List.getD_append _ _ _ _ (by omega)
  have hoff : answer_off (answer ++ down) = readLE (slice answer 1 8) := by
    rw [answer_off, slice_append_of_le (by omega)]
  have hlen : answer_len (answer ++ down) = readLE (slice answer 9 8) := by
    rw [answer_len, slice_append_of_le (by omega)]
  have hrest : ∀ n, (answer ++ down).drop (17 + n) = down.drop n := by
    intro n
    rw [← hlength, ← List.drop_drop, List.drop_left]
  rw [handle_answer]
  split
  · rename_i hpacket
    split
    · rename_i hcount
      exact iff_of_true trivial (.enough hwhole hcount)
    · rename_i hcount
      rw [recv_payload_ends, ends_packet_iff hwhole (hcode.trans hpacket) (by omega), hoff, hlen, hrest,
        List.length_append, hlength, Nat.add_le_add_iff_left]
  · rename_i hother
    exact iff_of_true trivial (.other hwhole (hcode ▸ hother))

theorem recv_waits (b : UInt8) : (recv boff offset buf count got b).Waits boff offset := by
  rw [recv]
  split
  · rename_i hshort
    simpa [Client.Waits] using hshort
  · exact handle_answer_waits

theorem recv_ends (hgot : got.length < 17) (b : UInt8) :
    ClientEnds boff offset (recv boff offset buf count got b) down ↔
      Ends boff offset buf.length count (got ++ b :: down) := by
  have happend : got ++ b :: down = (got ++ [b]) ++ down := by simp
  rw [recv, happend]
  split
  · rfl
  · exact handle_answer_ends (by simp; omega)

/-- What is received lies in the view. -/
theorem length_recv_into (hroom : l ≤ view_room boff offset buf.length off) (hle : data.length ≤ l) (hne : data ≠ []) :
    (overwrite buf (view_start boff offset buf off) data).length = buf.length := by
  have hpos := List.length_pos_iff.mpr hne
  have hstart : buf.length - view_start boff offset buf off = view_room boff offset buf.length off := rfl
  exact length_overwrite (by omega)

theorem recv_into_ends (hroom : l ≤ view_room boff offset buf.length off) (hle : data.length ≤ l) (hne : data ≠ []) :
    ClientEnds boff offset (recv_into boff offset buf count off l data) down ↔
      l ≤ (data ++ down).length ∧ Ends boff offset buf.length count ((data ++ down).drop l) := by
  have hnext := view_room_add hroom hle
  have hdrop : (data ++ down).drop l = down.drop (l - data.length) := by
    rw [List.drop_append, List.drop_eq_nil_of_le hle, List.nil_append]
  rw [recv_into, recv_payload_ends, length_recv_into hroom hle hne, or_iff_right (by omega), hdrop, List.length_append]
  refine and_congr_left fun _ => ?_
  omega

end Client

/-- A closed connection, at which the client waits only for bytes it has room for. -/
def AtClosed (boff offset : Nat) (s : Connection) : Prop := s.server = .closed ∧ s.client.Waits boff offset

section Closed

variable {disks : Disks} {boff offset : Nat} {s t : Connection}

/-- A step at a closed connection takes some bytes, or there are none and the client
    asks again; what the rest of the stream ends stays what it is. -/
theorem AtClosed.step (h : AtClosed boff offset s) (hstep : Step disks boff offset s t) :
    AtClosed boff offset t ∧ (ClientEnds boff offset t.client t.down ↔ ClientEnds boff offset s.client s.down) ∧
      (t.down.length < s.down.length ∨ s.down = [] ∧ ¬ Back s) := by
  obtain ⟨hserver, hwaits⟩ := h
  cases hstep with
  | server_recv hreceives =>
    simp only at hserver
    subst hserver
    cases hreceives
  | server_turn hbusy =>
    simp only at hserver
    subst hserver
    cases hbusy
  | client_recv => exact ⟨⟨hserver, recv_waits _⟩, recv_ends hwaits _, .inl (Nat.lt_succ_self _)⟩
  | client_recv_into hne hle =>
    refine ⟨⟨hserver, recv_payload_waits⟩, recv_into_ends hwaits.2 hle hne, .inl ?_⟩
    have hpos := List.length_pos_iff.mpr hne
    simp only [List.length_append]
    omega
  | client_eof hnot => exact ⟨⟨hserver, hwaits⟩, Iff.rfl, .inr ⟨rfl, fun ⟨result, hback⟩ => hnot result hback⟩⟩

/-- A client that is not back has something to take when the stream ends its work. -/
theorem AtClosed.down_ne_nil (h : AtClosed boff offset s) (hends : ClientEnds boff offset s.client s.down)
    (hnot : ¬ Back s) : s.down ≠ [] := by
  obtain ⟨client, up, server, down⟩ := s
  obtain ⟨-, hwaits⟩ := h
  rintro hnil
  simp only at hends hnil hwaits
  subst hnil
  cases client with
  | answer buf count got =>
    have hlength := Ends.le_length hends
    rw [List.append_nil] at hlength
    exact absurd hwaits (Nat.not_lt.mpr hlength)
  | payload buf count off l =>
    have hpos : 0 < l := hwaits.1
    have hzero : l ≤ 0 := hends.1
    omega
  | returned result => exact hnot ⟨result, rfl⟩

/-- Every run from a closed connection ends exactly when the stream ends it. -/
theorem AtClosed.inevitable_iff (h : AtClosed boff offset s) :
    Inevitable (Step disks boff offset) Back s ↔ ClientEnds boff offset s.client s.down := by
  constructor
  · intro hinevitable
    by_contra hopen
    refine Inevitable.not_of_invariant (fun s => AtClosed boff offset s ∧ ¬ ClientEnds boff offset s.client s.down)
      ?_ ?_ ⟨h, hopen⟩ hinevitable
    · rintro s ⟨-, hopen⟩ ⟨result, hback⟩
      rw [Returned] at hback
      rw [hback] at hopen
      exact hopen trivial
    · rintro s t ⟨hclosed, hopen⟩ hstep
      obtain ⟨hnext, hiff, -⟩ := hclosed.step hstep
      exact ⟨hnext, hiff.not.mpr hopen⟩
  · intro hends
    refine inevitable_of_invariant (fun s => AtClosed boff offset s ∧ ClientEnds boff offset s.client s.down)
      (fun s => s.down.length) ?_ ?_ ⟨h, hends⟩
    · rintro ⟨client, up, server, down⟩ ⟨hclosed, hends⟩ hnot
      obtain ⟨b, down, rfl⟩ := List.exists_cons_of_ne_nil (hclosed.down_ne_nil hends hnot)
      cases client with
      | answer buf count got => exact ⟨_, .client_recv⟩
      | payload buf count off l =>
        have hpos : 0 < l := hclosed.2.1
        exact ⟨_, .client_recv_into (List.cons_ne_nil b []) hpos⟩
      | returned result => exact absurd ⟨result, rfl⟩ hnot
    · rintro s t ⟨hclosed, hends⟩ hnot hstep
      obtain ⟨hnext, hiff, hless | ⟨hnil, -⟩⟩ := hclosed.step hstep
      · exact ⟨⟨hnext, hiff.mpr hends⟩, hless⟩
      · exact absurd hnil (hclosed.down_ne_nil hends hnot)

end Closed

/-- The client comes back from a connection that the server closes exactly when it
    cannot ask, or when the stream ends its read. -/
theorem stops_iff (disks : Disks) (buf : Bytes) (boff : Nat) (dev_path : String) (offset count : Nat) (up stream : Bytes) :
    Inevitable (Step disks boff offset) Back ⟨read_network_buf buf dev_path offset count, up, .closed, stream⟩ ↔
      ¬(offset < 2 ^ 64 ∧ count < 2 ^ 64 ∧ (encode_utf8 dev_path).length < 2 ^ 8) ∨
        Ends boff offset buf.length count stream := by
  have hstart : ∀ client, client.Waits boff offset → AtClosed boff offset ⟨client, up, .closed, stream⟩ :=
    fun _ hwaits => ⟨rfl, hwaits⟩
  by_cases hpacks : offset < 2 ^ 64 ∧ count < 2 ^ 64 ∧ (encode_utf8 dev_path).length < 2 ^ 8
  · have hclient : read_network_buf buf dev_path offset count = .answer buf count [] := by
      rw [read_network_buf, pack_request, if_pos hpacks]
    rw [hclient, (hstart (.answer buf count []) (Nat.zero_lt_succ 16)).inevitable_iff, or_iff_right (not_not.mpr hpacks)]
    rfl
  · have hclient : read_network_buf buf dev_path offset count = .returned (.error .StructError) := by
      rw [read_network_buf, pack_request, if_neg hpacks]
    rw [hclient]
    exact iff_of_true (.now ⟨_, rfl⟩) (.inl hpacks)

/-- A connection of a client that asks for three bytes, closed behind a stream. -/
def cut_connection (stream : Bytes) : Connection := ⟨read_network_buf [0, 0, 0] "disk0" 0 3, [], .closed, stream⟩

theorem ends_of_cut_connection {disks : Disks} {stream : Bytes}
    (h : Inevitable (Step disks 0 0) Back (cut_connection stream)) : Ends 0 0 3 3 stream := by
  have hclosed : AtClosed 0 0 (cut_connection stream) := ⟨rfl, Nat.zero_lt_succ 16⟩
  exact hclosed.inevitable_iff.mp h

/-- A server that closes at once, one that does within an answer, and one that does
    within a payload keep the client asking for ever. -/
theorem not_stops_cut :
    (¬ Inevitable (Step (one_file ⟨[1, 2, 3], by decide⟩) 0 0) Back (cut_connection [])) ∧
      (¬ Inevitable (Step (one_file ⟨[1, 2, 3], by decide⟩) 0 0) Back (cut_connection [110, 0, 0, 0, 0])) ∧
      ¬ Inevitable (Step (one_file ⟨[1, 2, 3], by decide⟩) 0 0) Back
        (cut_connection [110, 0, 0, 0, 0, 0, 0, 0, 0, 3, 0, 0, 0, 0, 0, 0, 0, 7]) := by
  refine ⟨fun h => ?_, fun h => ?_, fun h => ?_⟩
  · exact absurd (ends_of_cut_connection h).le_length (by decide)
  · exact absurd (ends_of_cut_connection h).le_length (by decide)
  · obtain hroom | ⟨hwhole, -⟩ := (ends_packet_iff (by decide) (by decide) (by decide)).mp (ends_of_cut_connection h)
    · exact absurd hroom (by decide)
    · exact absurd hwhole (by decide)

end zfs_rescue.proxy
