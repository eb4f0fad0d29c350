import ZfsRescue.Proxy.Connection
import ZfsRescue.Runs

open bytes
open zfs_rescue.server runs

namespace zfs_rescue.proxy

section Serving

variable {disks : Disks} {F : File} {offset count : Nat}

/-- The byte that ends up in place `i` of the buffer. The server moves on in the
    file twice for every chunk. -/
def served (F : File) (offset i : Nat) : UInt8 := F.1.getD (offset + i + CHUNKSIZE * (i / CHUNKSIZE)) 0

/-- The buffer once the first `i` places are filled. -/
def filled (F : File) (offset count i : Nat) : Bytes :=
  (List.range count).map fun j => if j < i then served F offset j else 0

@[simp] theorem length_filled (i : Nat) : (filled F offset count i).length = count := by
  simp [filled]

theorem getD_filled {i j : Nat} (hj : j < count) :
    (filled F offset count i).getD j 0 = if j < i then served F offset j else 0 := by
  simp [filled, List.getD_eq_getElem?_getD, hj]

/-- Nothing is left to fill in where the file has ended. -/
theorem filled_of_zero {i : Nat} (hzero : ∀ j, i ≤ j → j < count → served F offset j = 0) :
    filled F offset count i = filled F offset count count := by
  apply ext_getD (by simp)
  intro j hj
  rw [length_filled] at hj
  rw [getD_filled hj, getD_filled hj, if_pos hj]
  split
  · rfl
  · exact (hzero j (by omega) hj).symm

theorem served_in_chunk {q j : Nat} (hle : CHUNKSIZE * q ≤ j) (hlt : j < CHUNKSIZE * (q + 1)) :
    served F offset j = F.1.getD (offset + j + CHUNKSIZE * q) 0 := by
  have hdiv : j / CHUNKSIZE = q := by
    rw [Nat.div_eq_iff (by decide)]
    simp only [CHUNKSIZE] at *
    omega
  rw [served, hdiv]

/-- The data of a chunk fills the places of that chunk. -/
theorem overwrite_filled {q l : Nat} {data : Bytes} (hl : l ≤ CHUNKSIZE) (hroom : CHUNKSIZE * q + l ≤ count)
    (hdata : data = slice F.1 (offset + CHUNKSIZE * q + CHUNKSIZE * q) l) :
    overwrite (filled F offset count (CHUNKSIZE * q)) (CHUNKSIZE * q) data =
      filled F offset count (CHUNKSIZE * q + l) := by
  have hlength : data.length ≤ l := hdata ▸ length_slice_le _ _ _
  have hfits : CHUNKSIZE * q + data.length ≤ (filled F offset count (CHUNKSIZE * q)).length := by
    rw [length_filled]
    omega
  apply ext_getD
  · rw [length_overwrite hfits, length_filled, length_filled]
  · intro j hj
    rw [length_overwrite hfits, length_filled] at hj
    rw [getD_overwrite hfits, getD_filled hj, getD_filled hj]
    by_cases hbefore : j < CHUNKSIZE * q
    · rw [if_neg (by omega), if_pos hbefore, if_pos (by omega)]
    · by_cases hafter : j < CHUNKSIZE * q + l
      · have hserved : served F offset j = F.1.getD (offset + CHUNKSIZE * q + CHUNKSIZE * q + (j - CHUNKSIZE * q)) 0 := by
          rw [served_in_chunk (show CHUNKSIZE * q ≤ j by omega) (by rw [Nat.mul_succ]; omega)]
          congr 1
          omega
        rw [if_pos hafter, hserved, if_neg hbefore]
        split
        · rw [hdata, getD_slice _ _ _ _ _ (by omega)]
        · rename_i houtside
          rw [hdata, length_slice] at houtside
          rw [List.getD_eq_default _ _ (by omega)]
      · rw [if_neg (by omega), if_neg hbefore, if_neg hafter]

/-- Behind the last packet the client is back. -/
private theorem sends_last (disks : Disks) (offset : Nat) {off : Nat} (hoff : off < 2 ^ 64) (hcount : count < 2 ^ 63) :
    ∃ rest, Sends disks (.last 0 off count) rest ∧
      ∀ buf left, feed 0 offset (.answer buf left []) rest = some (.returned (.ok buf)) := by
  obtain ⟨packet, hpack⟩ : ∃ packet, pack_BQQ 'l' off count = .ok packet := ⟨_, pack_BQQ_of_lt hoff (by omega)⟩
  have hturn : Server.turn disks (.last 0 off count) = (.closed, packet) := by
    rw [Server.turn, hpack]
    rfl
  refine ⟨_, .of_turn trivial hturn .closed, fun buf left => ?_⟩
  rw [feed_packet hpack, if_neg (by decide)]
  rfl

/-- Behind an error the client is back as well. -/
private theorem sends_report (disks : Disks) (offset : Nat) {off : Nat} (hoff : off < 2 ^ 64) (hcount : count < 2 ^ 63) :
    ∃ rest, Sends disks (report_error 0 off count).1 rest ∧
      ∀ buf left, feed 0 offset (.answer buf left []) ((report_error 0 off count).2 ++ rest) =
        some (.returned (.ok buf)) := by
  obtain ⟨packet, hpack⟩ : ∃ packet, pack_BQQ 'e' off 0 = .ok packet := ⟨_, pack_BQQ_of_lt hoff (by omega)⟩
  obtain ⟨rest, hrest, -⟩ := sends_last disks offset hoff hcount
  rw [report_error, hpack]
  refine ⟨rest, hrest, fun buf left => ?_⟩
  rw [feed_packet hpack, if_neg (by decide), feed_returned]

/-- The packets of a chunk bring the client from one full buffer to the next. -/
private theorem feed_chunk {q l : Nat} {left : Int} {packet data : Bytes} (hl : l ≤ CHUNKSIZE)
    (hroom : CHUNKSIZE * q + l ≤ count) (hpos : 0 < left)
    (hdata : data = slice F.1 (offset + CHUNKSIZE * q + CHUNKSIZE * q) l)
    (hpack : pack_BQQ 'n' (offset + CHUNKSIZE * q) data.length = .ok packet) (rest : Bytes) :
    feed 0 offset (.answer (filled F offset count (CHUNKSIZE * q)) left []) (packet ++ data ++ rest) =
      feed 0 offset (.answer (filled F offset count (CHUNKSIZE * q + l)) (left - data.length) []) rest := by
  have hlength : data.length ≤ l := hdata ▸ length_slice_le _ _ _
  have hover := overwrite_filled hl hroom hdata
  rw [List.append_assoc, feed_packet hpack, if_pos rfl, if_neg (by omega), recv_payload]
  by_cases hempty : data = []
  · rw [hempty, overwrite_nil] at hover
    rw [if_pos (by rw [hempty, List.length_nil]), hover, hempty, List.nil_append]
  · have hne : 0 < data.length := List.length_pos_iff.mpr hempty
    have hview : InView 0 offset (filled F offset count (CHUNKSIZE * q)) (offset + CHUNKSIZE * q) data.length := by
      refine ⟨by omega, ?_, hne⟩
      rw [length_filled]
      omega
    have hstart : view_start 0 offset (filled F offset count (CHUNKSIZE * q)) (offset + CHUNKSIZE * q) =
        CHUNKSIZE * q := by
      rw [view_start_of_inView hview]
      omega
    rw [if_neg (by omega), if_neg (by rw [hstart, length_filled]; omega),
      feed_recv_into hview hempty (Nat.le_refl _), recv_into, hstart, hover, Nat.sub_self, recv_payload, if_pos rfl]

/-- Behind what a file position can hold the client only has zeros. -/
private theorem served_far (F : File) {q j : Nat} (hfar : 2 ^ 63 ≤ offset + CHUNKSIZE * q + CHUNKSIZE * q)
    (hj : CHUNKSIZE * q ≤ j) : served F offset j = 0 := by
  have hdiv : CHUNKSIZE * q ≤ CHUNKSIZE * (j / CHUNKSIZE) :=
    Nat.mul_le_mul_left _ ((Nat.le_div_iff_mul_le (by decide)).mpr (by rw [Nat.mul_comm]; exact hj))
  have hlength := F.2
  exact List.getD_eq_default _ _ (by omega)

/-- The rest of the loop on the server brings the client back with the buffer
    filled. The induction is on what is left to send. -/
private theorem sends_sending (disks : Disks) (F : File) (hcount : count < 2 ^ 63) {i : Nat} {left : Int} (hi : i ≤ count)
    (hchunk : i < count → ∃ q, i = CHUNKSIZE * q) (hoff : offset + i < 2 ^ 64) (hleft : (count : Int) - i ≤ left) :
    ∃ rest, Sends disks (.sending 0 F (offset + i) count i) rest ∧
      feed 0 offset (.answer (filled F offset count i) left []) rest =
        some (.returned (.ok (filled F offset count count))) := by
  induction hm : count - i using Nat.strong_induction_on generalizing i left with
  | _ m ih =>
    by_cases hlt : i < count
    · obtain ⟨q, rfl⟩ := hchunk hlt
      by_cases hseek : 2 ^ 63 ≤ offset + CHUNKSIZE * q + CHUNKSIZE * q
      · have hturn : Server.turn disks (.sending 0 F (offset + CHUNKSIZE * q) count (CHUNKSIZE * q)) =
            report_error 0 (offset + CHUNKSIZE * q) count := turn_sending_far hlt hseek
        obtain ⟨rest, hrest, hfeed⟩ := sends_report disks offset hoff hcount
        refine ⟨(report_error 0 (offset + CHUNKSIZE * q) count).2 ++ rest, .of_turn trivial hturn hrest, ?_⟩
        rw [hfeed, filled_of_zero fun j hj _ => served_far F hseek hj]
      · obtain ⟨l, hl⟩ : ∃ l, l = min (count - CHUNKSIZE * q) CHUNKSIZE := ⟨_, rfl⟩
        have hpos : 0 < CHUNKSIZE := by decide
        have hsize : CHUNKSIZE < 2 ^ 63 := by decide
        obtain ⟨data, hdata⟩ : ∃ data, data = slice F.1 (offset + CHUNKSIZE * q + CHUNKSIZE * q) l := ⟨_, rfl⟩
        have hlength : data.length ≤ l := hdata ▸ length_slice_le _ _ _
        obtain ⟨packet, hpack⟩ : ∃ packet, pack_BQQ 'n' (offset + CHUNKSIZE * q) data.length = .ok packet :=
          ⟨_, pack_BQQ_of_lt hoff (by omega)⟩
        have hturn : Server.turn disks (.sending 0 F (offset + CHUNKSIZE * q) count (CHUNKSIZE * q)) =
            (.sending 0 F (offset + (CHUNKSIZE * q + l)) count (CHUNKSIZE * q + l), packet ++ data) := by
          rw [← Nat.add_assoc]
          exact turn_sending_chunk hlt (by omega) hl hdata hpack
        have hless : count - (CHUNKSIZE * q + l) < m := by omega
        have hleft' : (count : Int) - (CHUNKSIZE * q + l : Nat) ≤ left - data.length := by omega
        have hnext : CHUNKSIZE * q + l < count → ∃ q', CHUNKSIZE * q + l = CHUNKSIZE * q' := by
          intro hmore
          refine ⟨q + 1, ?_⟩
          rw [Nat.mul_succ]
          omega
        obtain ⟨rest, hrest, hfeed⟩ := ih _ hless (by omega) hnext (by omega) hleft' rfl
        refine ⟨_, .of_turn trivial hturn hrest, ?_⟩
        rw [feed_chunk (by omega) (by omega) (by omega) hdata hpack, hfeed]
    · obtain rfl : i = count := by omega
      obtain ⟨rest, hrest, hfeed⟩ := sends_last disks offset hoff hcount
      refine ⟨_, .of_turn trivial (turn_sending_end (Nat.le_refl i)) hrest, ?_⟩
      rw [List.nil_append, hfeed]

/-- Opening the disk and sending it fills the whole buffer. -/
private theorem sends_opening {dev_path : String} (hopen : disks.open_disk dev_path = .ok F) (hoffset : offset < 2 ^ 64)
    (hcount : count < 2 ^ 63) :
    ∃ rest, Sends disks (.opening 0 dev_path offset count) rest ∧
      feed 0 offset (.answer (List.replicate count 0) count []) rest =
        some (.returned (.ok (filled F offset count count))) := by
  have hempty : List.replicate count 0 = filled F offset count 0 := by
    apply ext_getD (by simp)
    intro j hj
    rw [List.length_replicate] at hj
    rw [getD_filled hj, if_neg (Nat.not_lt_zero j)]
    simp [List.getD_eq_getElem?_getD, hj]
  have hturn : Server.turn disks (.opening 0 dev_path offset count) = (.sending 0 F offset count 0, []) := by
    rw [Server.turn, hopen]
  obtain ⟨rest, hrest, hfeed⟩ := sends_sending disks F hcount (Nat.zero_le count)
    (fun _ => ⟨0, rfl⟩) hoffset (Int.le_refl _)
  refine ⟨_, .of_turn trivial hturn hrest, ?_⟩
  rw [hempty, List.nil_append]
  simpa using hfeed

end Serving

section Requests

variable {dev_path : String} {offset count : Nat}

theorem length_request_bytes :
    (request_bytes dev_path offset count).length = 17 + (encode_utf8 dev_path).length := by
  simp only [request_bytes, List.length_append, List.length_cons, length_writeLE]
  omega

theorem getD_request_bytes : (request_bytes dev_path offset count).getD 16 0 =
    UInt8.ofNat (encode_utf8 dev_path).length := by
  rw [request_bytes, List.getD_append_right _ _ _ _ (by simp)]
  simp

/-- In front of the end of a request the server waits for more of it. -/
theorem recv_request_part (nreqs : Nat) (hname : (encode_utf8 dev_path).length < 2 ^ 8) {got up : Bytes}
    (hsplit : got ++ up = request_bytes dev_path offset count) (hup : up ≠ []) :
    got.foldl Server.recv (.request nreqs []) = .request nreqs got := by
  induction got using List.reverseRecOn generalizing up with
  | nil => rfl
  | append_singleton got b ih =>
    have hshort : (got ++ [b]).length < 17 + (encode_utf8 dev_path).length := by
      have hlength := congrArg List.length hsplit
      have hpos := List.length_pos_iff.mpr hup
      rw [List.length_append, length_request_bytes] at hlength
      omega
    rw [List.foldl_append, ih (show got ++ b :: up = _ by simpa using hsplit) (by simp), List.foldl_cons, List.foldl_nil,
      Server.recv, receive_request]
    by_cases hhead : (got ++ [b]).length < 17
    · rw [if_pos hhead]
    · have hpathlen : (got ++ [b]).getD 16 0 = UInt8.ofNat (encode_utf8 dev_path).length := by
        have hwhole : ((got ++ [b]) ++ up).getD 16 0 = (got ++ [b]).getD 16 0 :=
          List.getD_append _ _ _ _ (Nat.lt_of_not_le fun hle => hhead (Nat.lt_succ_of_le hle))
        rw [← hwhole, hsplit, getD_request_bytes]
      rw [if_neg hhead, hpathlen, UInt8.toNat_ofNat', Nat.mod_eq_of_lt hname, if_pos hshort]

/-- A complete request is taken for what it asks. -/
theorem recv_request (nreqs : Nat) (hoffset : offset < 2 ^ 64) (hcount : count < 2 ^ 64)
    (hname : (encode_utf8 dev_path).length < 2 ^ 8) :
    (request_bytes dev_path offset count).foldl Server.recv (.request nreqs []) =
      .opening nreqs dev_path offset count := by
  have hne : request_bytes dev_path offset count ≠ [] := by
    apply List.ne_nil_of_length_pos
    rw [length_request_bytes]
    omega
  have hsplit := List.dropLast_append_getLast hne
  have hpathlen : ((request_bytes dev_path offset count).getD 16 0).toNat = (encode_utf8 dev_path).length := by
    rw [getD_request_bytes, UInt8.toNat_ofNat', Nat.mod_eq_of_lt hname]
  have hoff : slice (request_bytes dev_path offset count) 0 8 = writeLE 8 offset := by
    have hslice := slice_middle [] (writeLE 8 offset) (writeLE 8 count ++
      UInt8.ofNat (encode_utf8 dev_path).length :: encode_utf8 dev_path)
    simpa [request_bytes] using hslice
  have hcnt : slice (request_bytes dev_path offset count) 8 8 = writeLE 8 count := by
    have hslice := slice_middle (writeLE 8 offset) (writeLE 8 count)
      (UInt8.ofNat (encode_utf8 dev_path).length :: encode_utf8 dev_path)
    simpa [request_bytes] using hslice
  have hpath : slice (request_bytes dev_path offset count) 17 (encode_utf8 dev_path).length = encode_utf8 dev_path := by
    have hslice := slice_middle (writeLE 8 offset ++ writeLE 8 count ++ [UInt8.ofNat (encode_utf8 dev_path).length])
      (encode_utf8 dev_path) []
    simpa [request_bytes] using hslice
  rw [← hsplit, List.foldl_append, recv_request_part nreqs hname hsplit (by simp), List.foldl_cons, List.foldl_nil,
    Server.recv, hsplit, receive_request, hpathlen, if_neg (by rw [length_request_bytes]; omega),
    if_neg (by rw [length_request_bytes]; omega), hpath, decode_encode_utf8, hoff, hcnt, readLE_writeLE (by omega),
    readLE_writeLE (by omega)]

end Requests

/-- The server has part of the request, and the client waits for an answer. -/
def Asking (dev_path : String) (offset count : Nat) (s : Connection) : Prop :=
  ∃ got, got ++ s.up = [char_byte 'r', 1] ++ request_bytes dev_path offset count ∧ s.up ≠ [] ∧
    s.server = got.foldl Server.recv (.command []) ∧ s.down = [] ∧
    s.client = .answer (List.replicate count 0) count []

section Reading

variable {disks : Disks} {F : File} {dev_path : String} {offset count : Nat}

private theorem recv_command (bytes : Bytes) :
    (char_byte 'r' :: 1 :: bytes).foldl Server.recv (.command []) = bytes.foldl Server.recv (.request 0 []) := by
  have hfirst : Server.recv (.command []) (char_byte 'r') = .command [char_byte 'r'] := by
    rw [Server.recv, if_pos (.inl rfl)]
  have hsecond : Server.recv (.command [char_byte 'r']) 1 = .request 0 [] := by
    rw [Server.recv, if_pos rfl]
  rw [List.foldl_cons, List.foldl_cons, hfirst, hsecond]

private theorem receives_command_part (hname : (encode_utf8 dev_path).length < 2 ^ 8) {got up : Bytes}
    (hsplit : got ++ up = [char_byte 'r', 1] ++ request_bytes dev_path offset count) (hup : up ≠ []) :
    (got.foldl Server.recv (.command [])).Receives := by
  rcases got with _ | ⟨a, _ | ⟨b, got⟩⟩
  · trivial
  · simp only [List.cons_append, List.cons.injEq] at hsplit
    rw [hsplit.1]
    trivial
  · simp only [List.cons_append, List.nil_append, List.cons.injEq] at hsplit
    obtain ⟨rfl, rfl, hsplit⟩ := hsplit
    rw [recv_command, recv_request_part 0 hname hsplit hup]
    trivial

/-- The next byte of the request leaves the rest of it to ask for, or begins the
    reply. -/
private theorem Asking.step (hopen : disks.open_disk dev_path = .ok F) (hoffset : offset < 2 ^ 64)
    (hcount : count < 2 ^ 63) (hname : (encode_utf8 dev_path).length < 2 ^ 8) {s t : Connection}
    (h : Asking dev_path offset count s) (hstep : Step disks 0 offset s t) :
    (Asking dev_path offset count t ∨ Replying disks 0 offset (filled F offset count count) t) ∧
      WellFoundedRelation.rel (weight t) (weight s) := by
  obtain ⟨got, hsplit, hup, hserver, hdown, hclient⟩ := h
  have hreceives := receives_command_part hname hsplit hup
  rw [← hserver] at hreceives
  cases hstep with
  | @server_recv client up server down b _ =>
    refine ⟨?_, Prod.Lex.left _ _ (Nat.lt_succ_self _)⟩
    simp only at hsplit hserver hdown hclient
    by_cases hend : up = []
    · right
      subst hend
      obtain ⟨rest, hrest, hfeed⟩ := sends_opening hopen hoffset hcount
      have hopening : server.recv b = .opening 0 dev_path offset count := by
        have hall : (got ++ [b]).foldl Server.recv (.command []) = .opening 0 dev_path offset count := by
          rw [hsplit, List.cons_append, List.cons_append, List.nil_append, recv_command,
            recv_request 0 hoffset (by omega) hname]
        rwa [List.foldl_append, ← hserver] at hall
      refine ⟨rest, hopening ▸ hrest, ?_⟩
      simp only [hclient, hdown, List.nil_append]
      exact hfeed
    · left
      refine ⟨got ++ [b], by simpa using hsplit, hend, ?_, hdown, hclient⟩
      rw [List.foldl_append, ← hserver]
      rfl
  | server_turn hbusy =>
    rename_i server _
    cases server with
    | command | request => cases hbusy
    | opening | sending | last | closed => cases hreceives
  | client_recv => cases hdown
  | client_recv_into hne _ => exact absurd (List.append_eq_nil_iff.mp hdown).1 hne
  | client_eof _ => cases hreceives

/-- A read that can be sent comes back, however the streams are cut. -/
theorem read_network_returns (hopen : disks.open_disk dev_path = .ok F) (hoffset : offset < 2 ^ 64)
    (hcount : count < 2 ^ 63) (hname : (encode_utf8 dev_path).length < 2 ^ 8) :
    ∃ client request, read_network dev_path offset count = .ok (client, request) ∧
      Inevitable (Step disks 0 offset) (Returned (.ok (filled F offset count count)))
        ⟨client, request, .command [], []⟩ := by
  have hrequest : read_network dev_path offset count =
      .ok (.answer (List.replicate count 0) count [], [char_byte 'r', 1] ++ request_bytes dev_path offset count) := by
    rw [read_network, if_neg (by omega), pack_request, if_pos ⟨hoffset, by omega, hname⟩, bind_ok]
  refine ⟨_, _, hrequest, inevitable_of_invariant (fun s => Asking dev_path offset count s ∨
    Replying disks 0 offset (filled F offset count count) s) weight ?_ ?_ ?_⟩
  · rintro s (⟨got, hsplit, hup, hserver, -, -⟩ | hreplying) hnot
    · have hreceives := receives_command_part hname hsplit hup
      rw [← hserver] at hreceives
      obtain ⟨client, up, server, down⟩ := s
      obtain ⟨b, up, rfl⟩ := List.exists_cons_of_ne_nil hup
      exact ⟨_, .server_recv hreceives⟩
    · exact hreplying.progress hnot
  · rintro s t (hasking | hreplying) hnot hstep
    · exact hasking.step hopen hoffset hcount hname hstep
    · obtain ⟨hnext, hless⟩ := hreplying.step hnot hstep
      exact ⟨.inr hnext, hless⟩
  · exact .inl ⟨[], rfl, by simp, rfl, rfl, rfl⟩

/-- A read comes back with the bytes of the file, and zeros behind its end. -/
def Faithful (disks : Disks) (F : File) (dev_path : String) (offset count : Nat) : Prop :=
  ∃ client request, read_network dev_path offset count = .ok (client, request) ∧
    Inevitable (Step disks 0 offset) (Returned (.ok (window F.1 offset count))) ⟨client, request, .command [], []⟩

theorem filled_eq_window_iff : filled F offset count count = window F.1 offset count ↔
    ∀ i, CHUNKSIZE ≤ i → i < count →
      F.1.getD (offset + i + CHUNKSIZE * (i / CHUNKSIZE)) 0 = F.1.getD (offset + i) 0 := by
  constructor
  · intro heq i _ hi
    have hbyte := congrArg (·.getD i 0) heq
    simpa only [getD_filled hi, if_pos hi, served, getD_window _ _ _ _ hi] using hbyte
  · intro hall
    apply ext_getD (by simp)
    intro i hi
    rw [length_filled] at hi
    rw [getD_filled hi, if_pos hi, getD_window _ _ _ _ hi, served]
    rcases Nat.lt_or_ge i CHUNKSIZE with hfirst | hlater
    · rw [Nat.div_eq_of_lt hfirst, Nat.mul_zero, Nat.add_zero]
    · exact hall i hlater hi

/-- A faithful read can be sent, and its bytes are the ones that are served. -/
theorem Faithful.served_eq (hopen : disks.open_disk dev_path = .ok F) (h : Faithful disks F dev_path offset count) :
    offset < 2 ^ 64 ∧ count < 2 ^ 63 ∧ (encode_utf8 dev_path).length < 2 ^ 8 ∧
      filled F offset count count = window F.1 offset count := by
  obtain ⟨client, request, hrequest, hwindow⟩ := h
  obtain ⟨hcount, hoffset, hname⟩ : count < 2 ^ 63 ∧ offset < 2 ^ 64 ∧ (encode_utf8 dev_path).length < 2 ^ 8 := by
    rw [read_network, pack_request] at hrequest
    split at hrequest
    · cases hrequest
    · split at hrequest
      · exact ⟨by omega, by omega, by omega⟩
      · cases hrequest
  obtain ⟨client', request', hrequest', hfilled⟩ := read_network_returns hopen hoffset hcount hname
  rw [hrequest] at hrequest'
  cases hrequest'
  obtain ⟨s, hs, hs'⟩ := hfilled.meets hwindow returned_stable returned_stable
  have heq := hs.symm.trans hs'
  simp only [Client.returned.injEq, Except.ok.injEq] at heq
  exact ⟨hoffset, hcount, hname, heq⟩

/-- A read is faithful when it can be sent, and the file says the same in the
    places that the server moves on to as in those that were asked for. -/
theorem read_network_faithful_iff (hopen : disks.open_disk dev_path = .ok F) :
    Faithful disks F dev_path offset count ↔
      offset < 2 ^ 64 ∧ count < 2 ^ 63 ∧ (encode_utf8 dev_path).length < 2 ^ 8 ∧
        ∀ i, CHUNKSIZE ≤ i → i < count →
          F.1.getD (offset + i + CHUNKSIZE * (i / CHUNKSIZE)) 0 = F.1.getD (offset + i) 0 := by
  rw [← filled_eq_window_iff]
  constructor
  · exact fun h => h.served_eq hopen
  · rintro ⟨hoffset, hcount, hname, heq⟩
    rw [Faithful, ← heq]
    exact read_network_returns hopen hoffset hcount hname

end Reading

/-- A server with one file under every path. -/
def one_file (F : File) : Disks where
  trans_table := []
  open_path _ := .ok F

/-- A file of three chunks and more, all of one byte. -/
def sevens : File where
  val := List.replicate 800000 7
  property := by
    rw [List.length_replicate]
    decide

/-- What the server skips after the first chunk is like what was asked for. -/
theorem read_network_faithful_sevens : Faithful (one_file sevens) sevens "disk0" 1 300000 := by
  refine (read_network_faithful_iff rfl).mpr ⟨by decide, by decide, by decide, fun i hchunk hi => ?_⟩
  have hdiv : CHUNKSIZE * (i / CHUNKSIZE) ≤ i := Nat.mul_div_le i CHUNKSIZE
  rw [sevens, List.getD_replicate _ (by omega), List.getD_replicate _ (by omega)]

/-- A chunk of zeros and a one behind it. -/
def chunk_and_one : File where
  val := List.replicate CHUNKSIZE 0 ++ [1]
  property := by
    rw [List.length_append, List.length_replicate, List.length_singleton]
    decide

/-- The byte behind the first chunk is read as a zero. -/
theorem not_faithful_second_chunk :
    ¬ Faithful (one_file chunk_and_one) chunk_and_one "disk0" 0 (CHUNKSIZE + 1) := by
  intro h
  obtain ⟨-, -, -, heq⟩ := h.served_eq rfl
  have hbyte := filled_eq_window_iff.mp heq CHUNKSIZE (Nat.le_refl _) (Nat.lt_succ_self _)
  have hlength : chunk_and_one.1.length = CHUNKSIZE + 1 := by
    rw [chunk_and_one, List.length_append, List.length_replicate, List.length_singleton]
  have hpos : 0 < CHUNKSIZE := by decide
  have hafter : chunk_and_one.1.getD (0 + CHUNKSIZE + CHUNKSIZE * (CHUNKSIZE / CHUNKSIZE)) 0 = 0 := by
    rw [Nat.div_self hpos]
    exact List.getD_eq_default _ _ (by omega)
  have hone : chunk_and_one.1.getD (0 + CHUNKSIZE) 0 = 1 := by
    rw [chunk_and_one, List.getD_append_right _ _ _ _ (by rw [List.length_replicate]; omega), List.length_replicate,
      Nat.zero_add, Nat.sub_self]
    rfl
  rw [hafter, hone] at hbyte
  exact absurd hbyte (by decide)

end zfs_rescue.proxy
