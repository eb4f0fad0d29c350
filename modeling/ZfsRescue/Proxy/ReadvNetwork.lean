import ZfsRescue.Proxy.Vector

open bytes
open zfs_rescue.server runs

namespace zfs_rescue.proxy.vector

/-- The server cannot open the file of a block, or cannot read it there. -/
def Fails (disks : Disks) (faults : Nat → Bool) (b : Block) (nreqs : Nat) : Prop :=
  (∃ e, disks.open_disk b.1 = .error e) ∨ 0 < b.2.2 ∧ (faults nreqs = true ∨ 2 ^ 63 ≤ b.2.1)

/-- The buffer is cut into the blocks, and the slices of those that the server can read hold
    the bytes of its files, with zeros past their ends. -/
def Served (disks : Disks) (faults : Nat → Bool) : List Block → Bytes → Prop
  | [], buf => buf = []
  | b :: rest, buf =>
    (¬ Fails disks faults b rest.length →
      ∃ f, disks.open_disk b.1 = .ok f ∧ buf.take b.2.2 = window f.1 b.2.1 b.2.2) ∧
      Served disks faults rest (buf.drop b.2.2)

/-- The read comes back, the blocks that can be read are served, and no byte of a reply is
    taken for another block. -/
def StaysLocal (disks : Disks) (faults : Nat → Bool) (blockv : List Block) : Prop :=
  ∃ reader sent, readv_network blockv = .ok (reader, sent) ∧
    Leads (Step disks faults) OwnReply
      (fun s => ∃ buf, s.reader = .returned (.ok buf) ∧ Served disks faults blockv buf)
      ⟨reader, sent, .command [], 0, []⟩

/-- A request has room for the offset and the path. -/
def Sendable (b : Block) : Prop := b.2.1 < 2 ^ 64 ∧ (encode_utf8 b.1).length < 2 ^ 8

/-- No block but the last one fails. -/
def Tolerated (disks : Disks) (faults : Nat → Bool) : List Block → Prop
  | [] => True
  | b :: rest =>
    Sendable b ∧ (rest ≠ [] → ¬ Fails disks faults b rest.length) ∧ Tolerated disks faults rest

section Replies

variable {disks : Disks} {faults : Nat → Bool}

theorem Sent.of_turn {next server server' : Server} {sent rest whole : Bytes}
    (hturn : vector.turn disks faults server = (server', sent)) (hbusy : server.Busy)
    (hrest : Sent disks faults next server' rest) (hwhole : sent ++ rest = whole) (hne : whole ≠ []) :
    Sent disks faults next server whole := by
  subst hwhole
  have hsent : Sent disks faults next server ((vector.turn disks faults server).2 ++ rest) := by
    refine .turn hbusy ?_ ?_
    · rwa [hturn]
    · rwa [hturn]
  rwa [hturn] at hsent

/-- A server that has sent all it was to send is where it was to come. -/
theorem Sent.eq_of_nil {next server : Server} (h : Sent disks faults next server []) : server = next := by
  generalize hempty : ([] : Bytes) = sent at h
  cases h with
  | done => rfl
  | turn _ _ hne => exact absurd hempty.symm hne

theorem next_request_not_busy (nreqs : Nat) : ¬ (next_request nreqs).Busy := by
  cases nreqs <;> exact id

theorem pack_ne_nil {op : Char} {off l : Nat} {packet : Bytes} (hpack : pack_BQQ op off l = .ok packet) : packet ≠ [] := by
  rw [pack_BQQ] at hpack
  split at hpack
  · cases hpack
    exact List.cons_ne_nil _ _
  · cases hpack

theorem sent_last {nreqs off count : Nat} {packet : Bytes} (hpack : pack_BQQ 'l' off count = .ok packet) :
    Sent disks faults (next_request nreqs) (.last nreqs off count) packet := by
  have hturn : turn disks faults (.last nreqs off count) = (next_request nreqs, packet) := by
    simp only [turn, Server.turn, hpack]
  exact .of_turn hturn trivial .done (List.append_nil packet) (pack_ne_nil hpack)

/-- The reply to a block that fails: an error, which the reader takes, and the last packet,
    which it does not. -/
theorem reply_of_fails {b : Block} {nreqs : Nat} (hsend : Sendable b) (hchunk : b.2.2 ≤ CHUNKSIZE)
    (hfails : Fails disks faults b nreqs) :
    ∃ next used extra, ¬ next.Busy ∧ Sent disks faults next (.opening nreqs b.1 b.2.1 b.2.2) (used ++ extra) ∧ used ≠ [] ∧
      extra ≠ [] ∧ ∀ boff buf, Takes boff b.2.1 (.answer buf b.2.2 []) used buf := by
  have hcount : b.2.2 < 2 ^ 64 := Nat.lt_of_le_of_lt hchunk (by decide)
  obtain ⟨packetE, hpackE⟩ : ∃ packet, pack_BQQ 'e' b.2.1 0 = .ok packet :=
    ⟨_, pack_BQQ_of_lt hsend.1 (by decide)⟩
  obtain ⟨packetL, hpackL⟩ : ∃ packet, pack_BQQ 'l' b.2.1 b.2.2 = .ok packet := ⟨_, pack_BQQ_of_lt hsend.1 hcount⟩
  have hne := pack_ne_nil hpackE
  have hboth : packetE ++ packetL ≠ [] := fun h => hne (List.append_eq_nil_iff.mp h).1
  have hreport : ∀ nreqs, report_error nreqs b.2.1 b.2.2 = (.last nreqs b.2.1 b.2.2, packetE) := by
    intro nreqs
    rw [report_error, hpackE]
  have htakes : ∀ boff buf, Takes boff b.2.1 (.answer buf b.2.2 []) packetE buf := fun boff buf =>
    .of_packet hpackE (by decide)
  cases hopen : disks.open_disk b.1 with
  | error e =>
    have hturn : turn disks faults (.opening nreqs b.1 b.2.1 b.2.2) = (.last 0 b.2.1 b.2.2, packetE) := by
      simp only [turn, Server.turn, hopen, hreport]
    exact ⟨_, packetE, packetL, next_request_not_busy 0, .of_turn hturn trivial (sent_last hpackL) rfl hboth, hne,
      pack_ne_nil hpackL, htakes⟩
  | ok f =>
    obtain ⟨e, he⟩ | ⟨hpos, hfault⟩ := hfails
    · rw [hopen] at he
      cases he
    have hturn : turn disks faults (.opening nreqs b.1 b.2.1 b.2.2) = (.sending nreqs f b.2.1 b.2.2 0, []) := by
      simp only [turn, Server.turn, hopen]
    have hsending : turn disks faults (.sending nreqs f b.2.1 b.2.2 0) = (.last nreqs b.2.1 b.2.2, packetE) := by
      rw [turn]
      by_cases hread : faults nreqs = true
      · rw [if_pos ⟨hpos, hread⟩, hreport]
      · rw [if_neg fun h => hread h.2, turn_sending_far hpos (hfault.resolve_left hread), hreport]
    have hsent := Sent.of_turn hsending trivial (sent_last hpackL) rfl hboth
    exact ⟨_, packetE, packetL, next_request_not_busy nreqs, .of_turn hturn trivial hsent rfl hboth, hne,
      pack_ne_nil hpackL, htakes⟩

/-- The bytes of a block in place of the zeros that were there. -/
theorem overwrite_zeros {done more data : Bytes} {count : Nat} (h : data.length ≤ count) :
    overwrite (done ++ (List.replicate count 0 ++ more)) done.length data = done ++ (fit count data ++ more) := by
  rw [overwrite, List.take_left, List.drop_append, Nat.add_sub_cancel_left, List.drop_eq_nil_of_le (by omega),
    List.nil_append, List.drop_append, List.drop_replicate, List.length_replicate, Nat.sub_eq_zero_of_le h,
    List.drop_zero, fit_of_le h]
  simp only [List.append_assoc]

/-- The packet of a block that is read puts its bytes into the buffer. -/
theorem feed_data {f : File} {offset count : Nat} {data packet : Bytes} (hdata : data = slice f.1 offset count)
    (hpack : pack_BQQ 'n' offset data.length = .ok packet) (hpos : 0 < count) (done more : Bytes) :
    feed done.length offset (.answer (done ++ (List.replicate count 0 ++ more)) count []) (packet ++ data) =
      some (.answer (done ++ (window f.1 offset count ++ more)) (count - data.length) []) := by
  have hlength : data.length ≤ count := hdata ▸ length_slice_le _ _ _
  have hwindow : overwrite (done ++ (List.replicate count 0 ++ more)) done.length data =
      done ++ (window f.1 offset count ++ more) := by
    rw [overwrite_zeros hlength, hdata, ← window_eq_fit]
  rw [feed_packet hpack, if_pos rfl, if_neg (by omega), recv_payload]
  by_cases hempty : data = []
  · rw [hempty, overwrite_nil] at hwindow
    rw [hempty, List.length_nil, if_pos rfl, hwindow]
    rfl
  · have hne : 0 < data.length := List.length_pos_iff.mpr hempty
    have hview : InView done.length offset (done ++ (List.replicate count 0 ++ more)) offset data.length := by
      refine ⟨Nat.le_refl _, ?_, hne⟩
      simp only [List.length_append, List.length_replicate]
      omega
    have hstart : view_start done.length offset (done ++ (List.replicate count 0 ++ more)) offset = done.length := by
      rw [view_start_of_inView hview, Nat.sub_self, Nat.add_zero]
    have hroom : ¬ (done ++ (List.replicate count 0 ++ more)).length - done.length < data.length := by
      simp only [List.length_append, List.length_replicate]
      omega
    have hfeed : feed done.length offset
        (.payload (done ++ (List.replicate count 0 ++ more)) (count - data.length) offset data.length) (data ++ []) =
        some (recv_into done.length offset (done ++ (List.replicate count 0 ++ more)) (count - data.length) offset
          data.length data) :=
      feed_recv_into hview hempty (Nat.le_refl _) []
    rw [List.append_nil] at hfeed
    rw [if_neg (by omega), hstart, if_neg hroom, hfeed, recv_into, hstart, hwindow, Nat.sub_self, recv_payload, if_pos rfl]

/-- An empty block is replied to with the last packet alone. -/
theorem reply_of_empty {b : Block} {nreqs : Nat} {f : File} (hopen : disks.open_disk b.1 = .ok f) (hsend : Sendable b)
    (hzero : b.2.2 = 0) :
    ∃ used, Sent disks faults (next_request nreqs) (.opening nreqs b.1 b.2.1 b.2.2) used ∧ used ≠ [] ∧
      ∀ boff buf, Takes boff b.2.1 (.answer buf b.2.2 []) used buf := by
  obtain ⟨packetL, hpackL⟩ : ∃ packet, pack_BQQ 'l' b.2.1 b.2.2 = .ok packet :=
    ⟨_, pack_BQQ_of_lt hsend.1 (by omega)⟩
  have hne := pack_ne_nil hpackL
  have hturn : turn disks faults (.opening nreqs b.1 b.2.1 b.2.2) = (.sending nreqs f b.2.1 b.2.2 0, []) := by
    simp only [turn, Server.turn, hopen]
  have hend : turn disks faults (.sending nreqs f b.2.1 b.2.2 0) = (.last nreqs b.2.1 b.2.2, []) := by
    rw [turn, if_neg (by omega), turn_sending_end (by omega)]
  refine ⟨packetL, ?_, hne, fun boff buf => .of_packet hpackL (by decide)⟩
  exact .of_turn hturn trivial (.of_turn hend trivial (sent_last hpackL) rfl hne) rfl hne

/-- Another one is replied to with a packet of its bytes and the last packet. -/
theorem reply_of_chunk {b : Block} {nreqs : Nat} {f : File} (hopen : disks.open_disk b.1 = .ok f)
    (hchunk : b.2.2 ≤ CHUNKSIZE) (hpos : 0 < b.2.2) (hread : faults nreqs ≠ true) (hseek : b.2.1 < 2 ^ 63) :
    ∃ used, Sent disks faults (next_request nreqs) (.opening nreqs b.1 b.2.1 b.2.2) used ∧ used ≠ [] ∧
      ∀ done more, Takes done.length b.2.1 (.answer (done ++ (List.replicate b.2.2 0 ++ more)) b.2.2 []) used
        (done ++ (window f.1 b.2.1 b.2.2 ++ more)) := by
  have hsmall : CHUNKSIZE < 2 ^ 62 := by decide
  obtain ⟨data, hdata⟩ : ∃ data, data = slice f.1 b.2.1 b.2.2 := ⟨_, rfl⟩
  have hlength : data.length ≤ b.2.2 := hdata ▸ length_slice_le _ _ _
  obtain ⟨packetN, hpackN⟩ : ∃ packet, pack_BQQ 'n' b.2.1 data.length = .ok packet :=
    ⟨_, pack_BQQ_of_lt (by omega) (by omega)⟩
  obtain ⟨packetL, hpackL⟩ : ∃ packet, pack_BQQ 'l' (b.2.1 + b.2.2) b.2.2 = .ok packet :=
    ⟨_, pack_BQQ_of_lt (by omega) (by omega)⟩
  have hlast := pack_ne_nil hpackL
  have hne : packetN ++ data ++ packetL ≠ [] := List.append_ne_nil_of_right_ne_nil _ hlast
  have hturn : turn disks faults (.opening nreqs b.1 b.2.1 b.2.2) = (.sending nreqs f b.2.1 b.2.2 0, []) := by
    simp only [turn, Server.turn, hopen]
  have hsending : turn disks faults (.sending nreqs f b.2.1 b.2.2 0) =
      (.sending nreqs f (b.2.1 + b.2.2) b.2.2 b.2.2, packetN ++ data) := by
    rw [turn, if_neg fun h => hread h.2, turn_sending_chunk hpos hseek (by omega) hdata hpackN, Nat.zero_add]
  have hend : turn disks faults (.sending nreqs f (b.2.1 + b.2.2) b.2.2 b.2.2) =
      (.last nreqs (b.2.1 + b.2.2) b.2.2, []) := by
    rw [turn, if_neg fun h => hread h.2, turn_sending_end (Nat.le_refl _)]
  refine ⟨packetN ++ data ++ packetL, ?_, hne, fun done more => ?_⟩
  · have hrest := Sent.of_turn hend trivial (sent_last hpackL) rfl hlast
    exact .of_turn hturn trivial (.of_turn hsending trivial hrest rfl hne) rfl hne
  · exact .of_feed (feed_data hdata hpackN hpos done more) (by simp) (.of_packet hpackL (by decide))

/-- The reply to a block that can be read, which the reader takes whole. -/
theorem reply_of_reads {b : Block} {nreqs : Nat} (hsend : Sendable b) (hchunk : b.2.2 ≤ CHUNKSIZE)
    (hreads : ¬ Fails disks faults b nreqs) :
    ∃ f used, disks.open_disk b.1 = .ok f ∧
      Sent disks faults (next_request nreqs) (.opening nreqs b.1 b.2.1 b.2.2) used ∧ used ≠ [] ∧
      ∀ done more, Takes done.length b.2.1 (.answer (done ++ (List.replicate b.2.2 0 ++ more)) b.2.2 []) used
        (done ++ (window f.1 b.2.1 b.2.2 ++ more)) := by
  cases hopen : disks.open_disk b.1 with
  | error e => exact absurd (.inl ⟨e, hopen⟩) hreads
  | ok f =>
    by_cases hpos : 0 < b.2.2
    · have hread : faults nreqs ≠ true := fun hfault => hreads (.inr ⟨hpos, .inl hfault⟩)
      have hseek : b.2.1 < 2 ^ 63 := Nat.lt_of_not_le fun hfar => hreads (.inr ⟨hpos, .inr hfar⟩)
      obtain ⟨used, hreply⟩ := reply_of_chunk hopen hchunk hpos hread hseek
      exact ⟨f, used, rfl, hreply⟩
    · have hzero : b.2.2 = 0 := by omega
      have hwindow : window f.1 b.2.1 b.2.2 = List.replicate b.2.2 0 := by
        rw [hzero]
        rfl
      obtain ⟨used, hsent, hne, htakes⟩ := reply_of_empty hopen hsend hzero
      refine ⟨f, used, rfl, hsent, hne, fun done more => ?_⟩
      rw [hwindow]
      exact htakes done.length _

end Replies

/-- The bytes of the buffer for some blocks, before they are read. -/
def zeros (blocks : List Block) : Bytes := List.replicate (blocks.map fun b => b.2.2).sum 0

theorem zeros_cons (b : Block) (rest : List Block) : zeros (b :: rest) = List.replicate b.2.2 0 ++ zeros rest := by
  rw [zeros, zeros, List.map_cons, List.sum_cons, List.replicate_append_replicate]

/-- The reader is in front of some blocks, and the first of them is asked for. -/
def AtBlocks (blocks : List Block) (boff : Nat) (buf : Bytes) (s : Session) : Prop :=
  match blocks with
  | [] => s.reader = .returned (.ok buf)
  | b :: rest => ∃ start whole, Asks start whole b rest.length ∧ Asking start whole b rest boff buf s

theorem asks_request {b : Block} (nreqs : Nat) (hsend : Sendable b) (hchunk : b.2.2 ≤ CHUNKSIZE) :
    Asks (.request nreqs []) (request_bytes b.1 b.2.1 b.2.2) b nreqs := by
  have hcount : b.2.2 < 2 ^ 64 := Nat.lt_of_le_of_lt hchunk (by decide)
  constructor
  · intro got up hsplit hup
    rw [recv_request_part nreqs hsend.2 hsplit hup]
    trivial
  · exact recv_request nreqs hsend.1 hcount hsend.2

theorem start_blocks_cons {b : Block} (rest : List Block) (boff : Nat) (buf : Bytes) (hsend : Sendable b)
    (hchunk : b.2.2 ≤ CHUNKSIZE) :
    start_blocks (b :: rest) boff buf =
      (.reading b rest boff (.answer buf b.2.2 []), request_bytes b.1 b.2.1 b.2.2) := by
  have hcount : b.2.2 < 2 ^ 64 := Nat.lt_of_le_of_lt hchunk (by decide)
  have hpack : pack_request b.1 b.2.1 b.2.2 = .ok (request_bytes b.1 b.2.1 b.2.2) :=
    if_pos ⟨hsend.1, hcount, hsend.2⟩
  simp only [start_blocks, hpack]

/-- A block whose request cannot be packed ends the read. -/
theorem start_blocks_error {b : Block} (rest : List Block) (boff : Nat) (buf : Bytes) (hsend : ¬ Sendable b) :
    start_blocks (b :: rest) boff buf = (.returned (.error .StructError), []) := by
  have hpack : pack_request b.1 b.2.1 b.2.2 = .error .StructError := if_neg fun h => hsend ⟨h.1, h.2.2⟩
  simp only [start_blocks, hpack]

theorem request_bytes_ne_nil (dev_path : String) (offset count : Nat) : request_bytes dev_path offset count ≠ [] := by
  apply List.ne_nil_of_length_pos
  rw [length_request_bytes]
  omega

theorem Tolerated.sendable_head {disks : Disks} {faults : Nat → Bool} {blockv : List Block}
    (h : Tolerated disks faults blockv) : ∀ b ∈ blockv.head?, Sendable b := by
  intro b hb
  obtain _ | ⟨b', rest⟩ := blockv
  · cases hb
  · cases hb
    exact h.1

section Runs

variable {disks : Disks} {faults : Nat → Bool}

/-- A reply that is taken whole leaves the reader in front of the next blocks. -/
theorem Left.atBlocks {rest : List Block} {boff : Nat} {buf : Bytes} {s : Session}
    (h : Left disks faults (next_request rest.length) [] rest boff buf s)
    (hsend : ∀ b ∈ rest.head?, Sendable b ∧ b.2.2 ≤ CHUNKSIZE) : AtBlocks rest boff buf s := by
  obtain ⟨hreader, -, -, more, hsent, hbytes⟩ := h
  obtain ⟨hdown, rfl⟩ := List.append_eq_nil_iff.mp hbytes
  cases rest with
  | nil => exact congrArg Prod.fst hreader
  | cons b rest =>
    obtain ⟨hb, hchunk⟩ := hsend b rfl
    rw [start_blocks_cons rest boff buf hb hchunk] at hreader
    obtain ⟨hreader, hup⟩ := Prod.mk.inj hreader
    refine ⟨_, _, asks_request rest.length hb hchunk, [], hup, ?_, ?_, List.map_eq_nil_iff.mp hdown, hreader⟩
    · rw [hup]
      exact request_bytes_ne_nil _ _ _
    · exact hsent.eq_of_nil

/-- The read is back with some buffer. -/
def Finished (s : Session) : Prop := ∃ buf, s.reader = .returned (.ok buf)

theorem Reading.not_finished {s : Session} (h : Reading s) : ¬ Finished s := by
  rintro ⟨buf, hbuf⟩
  exact h _ hbuf

/-- A block that can be read is read, and the reader is in front of the next one. -/
theorem leads_next {b : Block} {rest : List Block} (hsend : Sendable b) (hchunk : b.2.2 ≤ CHUNKSIZE)
    (hreads : ¬ Fails disks faults b rest.length) (done : Bytes) {s : Session}
    (h : AtBlocks (b :: rest) done.length (done ++ zeros (b :: rest)) s) :
    ∃ f, disks.open_disk b.1 = .ok f ∧ Leads (Step disks faults) (fun s => OwnReply s ∧ Reading s)
      (Left disks faults (next_request rest.length) [] rest (done ++ window f.1 b.2.1 b.2.2).length
        (done ++ window f.1 b.2.1 b.2.2 ++ zeros rest)) s := by
  obtain ⟨start, whole, hasks, hasking⟩ := h
  rw [zeros_cons] at hasking
  obtain ⟨f, used, hopen, hsent, hne, htakes⟩ := reply_of_reads hsend hchunk hreads
  rw [← List.append_nil used] at hsent
  have hleads := leads_left hasks (next_request_not_busy rest.length) hsent hne (htakes done (zeros rest)) hasking
  have hboff : done.length + b.2.2 = (done ++ window f.1 b.2.1 b.2.2).length := by
    rw [List.length_append, length_window]
  rw [hboff, ← List.append_assoc] at hleads
  exact ⟨f, hopen, hleads⟩

/-- A block that fails leaves some bytes of its reply behind. -/
theorem leads_extra {b : Block} {rest : List Block} (hsend : Sendable b) (hchunk : b.2.2 ≤ CHUNKSIZE)
    (hfails : Fails disks faults b rest.length) {boff : Nat} {buf : Bytes} {s : Session}
    (h : AtBlocks (b :: rest) boff buf s) :
    ∃ next extra, extra ≠ [] ∧ Leads (Step disks faults) (fun s => OwnReply s ∧ Reading s)
      (Left disks faults next extra rest (boff + b.2.2) buf) s := by
  obtain ⟨start, whole, hasks, hasking⟩ := h
  obtain ⟨next, used, extra, hnext, hsent, hne, hextra, htakes⟩ := reply_of_fails hsend hchunk hfails
  exact ⟨next, extra, hextra, leads_left hasks hnext hsent hne (htakes boff buf) hasking⟩

/-- The blocks come back served when none but the last of them fails. The induction is on
    the blocks, with the buffer cut in front of the first one. -/
theorem leads_served {blocks : List Block} (hchunk : ∀ b ∈ blocks, b.2.2 ≤ CHUNKSIZE)
    (htolerated : Tolerated disks faults blocks) (done : Bytes) {s : Session}
    (h : AtBlocks blocks done.length (done ++ zeros blocks) s) :
    Leads (Step disks faults) OwnReply
      (fun s => ∃ tail, s.reader = .returned (.ok (done ++ tail)) ∧ Served disks faults blocks tail) s := by
  induction blocks generalizing done s with
  | nil => exact .now ⟨zeros [], h, rfl⟩
  | cons b rest ih =>
    obtain ⟨hsend, hfails, hrest⟩ := htolerated
    obtain ⟨hb, hchunk⟩ := List.forall_mem_cons.mp hchunk
    by_cases hfail : Fails disks faults b rest.length
    · have hlast : rest = [] := by
        by_contra hne
        exact hfails hne hfail
      subst hlast
      obtain ⟨next, extra, -, hleads⟩ := leads_extra hsend hb hfail h
      refine hleads.mono (fun s h => h.1) fun s hleft => ?_
      refine ⟨_, congrArg Prod.fst hleft.1, fun hreads => absurd hfail hreads, ?_⟩
      rw [zeros_cons]
      exact List.drop_left' List.length_replicate
    · obtain ⟨f, hopen, hleads⟩ := leads_next hsend hb hfail done h
      refine (hleads.mono (fun s h => h.1) fun s h => h).trans fun t hleft => ?_
      have hhead : ∀ b' ∈ rest.head?, Sendable b' ∧ b'.2.2 ≤ CHUNKSIZE := fun b' hb' =>
        ⟨hrest.sendable_head b' hb', hchunk b' (List.mem_of_mem_head? hb')⟩
      refine (ih hchunk hrest _ (hleft.atBlocks hhead)).mono (fun s h => h) ?_
      rintro s ⟨tail, hreader, hserved⟩
      have hlength := length_window f.1 b.2.1 b.2.2
      refine ⟨window f.1 b.2.1 b.2.2 ++ tail, by rw [hreader, List.append_assoc], fun _ => ⟨f, hopen, ?_⟩, ?_⟩
      · rw [List.take_left' hlength]
      · rwa [List.drop_left' hlength]

/-- An error that the reader met keeps it from finishing. -/
theorem not_leads_of_error {safe : Session → Prop} {e : PyErr} {s : Session} (h : s.reader = .returned (.error e)) :
    ¬ Leads (Step disks faults) safe Finished s := by
  refine Leads.not_of_invariant (fun s => s.reader = .returned (.error e)) ?_ ?_ h
  · rintro s hreader ⟨buf, hbuf⟩
    rw [hreader] at hbuf
    cases hbuf
  · intro s t hreader hstep
    cases hstep with
    | server_recv _ | server_turn _ => exact hreader
    | reader_recv | reader_recv_into _ _ => cases hreader
    | reader_eof hnot => exact absurd hreader (hnot _)

theorem not_finished_reading {b : Block} {rest : List Block} {boff : Nat} {client : Client} {up : Bytes} {server : Server}
    {serving : Nat} {down : List (Nat × UInt8)} :
    ¬ Finished ⟨.reading b rest boff client, up, server, serving, down⟩ := by
  rintro ⟨_, hbuf⟩
  cases hbuf

/-- A byte that replies to another block is not taken. -/
theorem not_leads_of_other {b : Block} {rest : List Block} {boff : Nat} {client : Client} {up : Bytes} {server : Server}
    {serving : Nat} {x : Nat × UInt8} {down : List (Nat × UInt8)} (hx : x.1 ≠ rest.length) :
    ¬ Leads (Step disks faults) OwnReply Finished ⟨.reading b rest boff client, up, server, serving, x :: down⟩ := by
  intro h
  exact hx ((h.next not_finished_reading).1 x rfl rest.length rfl)

/-- What is left of a reply is taken for the next block. -/
theorem not_leads_of_left {next : Server} {extra : Bytes} (hextra : extra ≠ []) {b : Block} {rest : List Block}
    (hchunk : b.2.2 ≤ CHUNKSIZE) {boff : Nat} {result : Bytes} {s : Session}
    (h : Left disks faults next extra (b :: rest) boff result s) :
    ¬ Leads (Step disks faults) OwnReply Finished s := by
  by_cases hsend : Sendable b
  · obtain ⟨reader, up, server, serving, down⟩ := s
    obtain ⟨hreader, hserving, hdown, more, hsent, hbytes⟩ := h
    rw [start_blocks_cons rest boff result hsend hchunk] at hreader
    simp only at hserving hdown hsent hbytes hreader
    cases hreader
    have hother : (b :: rest).length ≠ rest.length := Nat.succ_ne_self rest.length
    obtain _ | ⟨x, down⟩ := down
    · rw [List.map_nil, List.nil_append] at hbytes
      subst hbytes
      -- the turns up to the first that sends something
      induction hsent with
      | done => exact absurd rfl hextra
      | @turn server more hbusy _ _ ih =>
        intro h
        have hturn := (h.next not_finished_reading).2.2 _ (.server_turn hbusy)
        cases hbytes : (turn disks faults server).2 with
        | nil =>
          rw [hbytes] at hturn hextra
          exact ih hextra hturn
        | cons x xs =>
          rw [hbytes, hserving] at hturn
          exact not_leads_of_other hother hturn
    · refine not_leads_of_other ?_
      rw [hdown x List.mem_cons_self]
      exact hother
  · have hreader := congrArg Prod.fst h.1
    rw [start_blocks_error rest boff result hsend] at hreader
    exact not_leads_of_error hreader

/-- A read that finishes with its replies in order has no failing block but the last. -/
theorem tolerated_of_leads {blocks : List Block} (hchunk : ∀ b ∈ blocks, b.2.2 ≤ CHUNKSIZE)
    (hsend : ∀ b ∈ blocks.head?, Sendable b) (done : Bytes) {s : Session}
    (h : AtBlocks blocks done.length (done ++ zeros blocks) s)
    (hleads : Leads (Step disks faults) OwnReply Finished s) : Tolerated disks faults blocks := by
  induction blocks generalizing done s with
  | nil => trivial
  | cons b rest ih =>
    have hb := hsend b rfl
    obtain ⟨hbchunk, hchunk⟩ := List.forall_mem_cons.mp hchunk
    have hmeets : ∀ {mid : Session → Prop}, Leads (Step disks faults) (fun s => OwnReply s ∧ Reading s) mid s →
        ∃ t, mid t ∧ Leads (Step disks faults) OwnReply Finished t := by
      intro mid hmid
      exact hleads.meets (fun s h => h.2.not_finished) hmid
    obtain _ | ⟨b', rest⟩ := rest
    · exact ⟨hb, fun hne => absurd rfl hne, trivial⟩
    have hb'chunk := hchunk b' List.mem_cons_self
    by_cases hfail : Fails disks faults b (b' :: rest).length
    · obtain ⟨next, extra, hextra, hleft⟩ := leads_extra hb hbchunk hfail h
      obtain ⟨t, hleft, ht⟩ := hmeets hleft
      exact absurd ht (not_leads_of_left hextra hb'chunk hleft)
    · obtain ⟨f, -, hleft⟩ := leads_next hb hbchunk hfail done h
      obtain ⟨t, hleft, ht⟩ := hmeets hleft
      have hb' : Sendable b' := by
        by_contra hnot
        have hreader := congrArg Prod.fst hleft.1
        rw [start_blocks_error rest _ _ hnot] at hreader
        exact not_leads_of_error hreader ht
      have hhead : ∀ c ∈ (b' :: rest).head?, Sendable c ∧ c.2.2 ≤ CHUNKSIZE := by
        intro c hc
        cases hc
        exact ⟨hb', hb'chunk⟩
      exact ⟨hb, fun _ => hfail, ih hchunk (fun c hc => (hhead c hc).1) _ (hleft.atBlocks hhead) ht⟩

end Runs

/-- The command comes before the first request. -/
theorem asks_command {b : Block} {nreqs : Nat} (hnreqs : nreqs < 255) (hsend : Sendable b) (hchunk : b.2.2 ≤ CHUNKSIZE) :
    Asks (.command []) (char_byte 'v' :: UInt8.ofNat (nreqs + 1) :: request_bytes b.1 b.2.1 b.2.2) b nreqs := by
  have hrequest := asks_request nreqs hsend hchunk
  have hcount : (UInt8.ofNat (nreqs + 1)).toNat = nreqs + 1 := by
    rw [UInt8.toNat_ofNat']
    exact Nat.mod_eq_of_lt (by omega)
  have hcommand : ∀ bytes, (char_byte 'v' :: UInt8.ofNat (nreqs + 1) :: bytes).foldl Server.recv (.command []) =
      bytes.foldl Server.recv (.request nreqs []) := by
    intro bytes
    have hfirst : Server.recv (.command []) (char_byte 'v') = .command [char_byte 'v'] := by
      rw [Server.recv, if_pos (.inr rfl)]
    have hsecond : Server.recv (.command [char_byte 'v']) (UInt8.ofNat (nreqs + 1)) = .request nreqs [] := by
      rw [Server.recv, if_neg (by decide), hcount]
      rfl
    rw [List.foldl_cons, List.foldl_cons, hfirst, hsecond]
  constructor
  · intro got up hsplit hup
    obtain _ | ⟨x, _ | ⟨y, got⟩⟩ := got
    · trivial
    · simp only [List.cons_append, List.cons.injEq] at hsplit
      rw [hsplit.1]
      trivial
    · simp only [List.cons_append, List.cons.injEq] at hsplit
      obtain ⟨rfl, rfl, hsplit⟩ := hsplit
      rw [hcommand]
      exact hrequest.receives got up hsplit hup
  · rw [hcommand]
    exact hrequest.opens

theorem sum_counts_lt {blockv : List Block} (hlength : blockv.length ≤ 255) (hchunk : ∀ b ∈ blockv, b.2.2 ≤ CHUNKSIZE) :
    (blockv.map fun b => b.2.2).sum < 2 ^ 63 := by
  have hsum : (blockv.map fun b => b.2.2).sum ≤ (blockv.map fun b => b.2.2).length * CHUNKSIZE := by
    refine List.sum_le_card_nsmul _ _ fun n hn => ?_
    obtain ⟨b, hb, rfl⟩ := List.mem_map.mp hn
    exact hchunk b hb
  have hmul := Nat.mul_le_mul_right CHUNKSIZE hlength
  have hsmall : 255 * CHUNKSIZE < 2 ^ 63 := by decide
  rw [List.length_map] at hsum
  omega

/-- The session of a vector read when the reader is in front of its first answer. -/
def first_session (blockv : List Block) : Session where
  reader := (start_blocks blockv 0 (zeros blockv)).1
  up := char_byte 'v' :: UInt8.ofNat blockv.length :: (start_blocks blockv 0 (zeros blockv)).2
  server := .command []
  serving := 0
  down := []

theorem readv_network_eq {blockv : List Block} (hlength : blockv.length ≤ 255) (hchunk : ∀ b ∈ blockv, b.2.2 ≤ CHUNKSIZE) :
    readv_network blockv = .ok ((first_session blockv).reader, (first_session blockv).up) := by
  have hsum := sum_counts_lt hlength hchunk
  simp only [readv_network]
  rw [if_neg (by omega), if_neg (by omega)]
  rfl

/-- A vector read begins in front of its blocks. -/
theorem atBlocks_start {blockv : List Block} (hlength : blockv.length ≤ 255) (hchunk : ∀ b ∈ blockv, b.2.2 ≤ CHUNKSIZE)
    (hsend : ∀ b ∈ blockv.head?, Sendable b) :
    AtBlocks blockv 0 (zeros blockv) (first_session blockv) := by
  obtain _ | ⟨b, rest⟩ := blockv
  · rfl
  · have hb := hsend b rfl
    have hbchunk := hchunk b List.mem_cons_self
    rw [List.length_cons] at hlength
    have hstart := start_blocks_cons rest 0 (zeros (b :: rest)) hb hbchunk
    refine ⟨_, _, asks_command (by omega) hb hbchunk, [], ?_, List.cons_ne_nil _ _, rfl, rfl, ?_⟩
    · simp only [first_session, hstart]
      rfl
    · simp only [first_session, hstart]

theorem tolerated_of_finished {disks : Disks} {faults : Nat → Bool} {blockv : List Block} (hlength : blockv.length ≤ 255)
    (hchunk : ∀ b ∈ blockv, b.2.2 ≤ CHUNKSIZE)
    (hleads : Leads (Step disks faults) OwnReply Finished (first_session blockv)) : Tolerated disks faults blockv := by
  have hsend : ∀ b ∈ blockv.head?, Sendable b := by
    intro b hb
    obtain _ | ⟨b', rest⟩ := blockv
    · cases hb
    · cases hb
      by_contra hnot
      refine not_leads_of_error (e := .StructError) ?_ hleads
      simp only [first_session, start_blocks_error rest 0 _ hnot]
  exact tolerated_of_leads hchunk hsend [] (atBlocks_start hlength hchunk hsend) hleads

/-- A read that stays local has no failing block but the last. -/
theorem StaysLocal.tolerated {disks : Disks} {faults : Nat → Bool} {blockv : List Block} (hlength : blockv.length ≤ 255)
    (hchunk : ∀ b ∈ blockv, b.2.2 ≤ CHUNKSIZE) (h : StaysLocal disks faults blockv) : Tolerated disks faults blockv := by
  obtain ⟨reader, sent, hstart, hleads⟩ := h
  rw [readv_network_eq hlength hchunk] at hstart
  cases hstart
  refine tolerated_of_finished hlength hchunk (hleads.mono (fun s h => h) ?_)
  rintro s ⟨buf, hbuf, -⟩
  exact ⟨buf, hbuf⟩

/-- A vector read of blocks that fit in a chunk each comes back with what can be read, and
    with its replies in order, exactly when no block but the last one fails. -/
theorem staysLocal_iff (disks : Disks) (faults : Nat → Bool) {blockv : List Block} (hlength : blockv.length ≤ 255)
    (hchunk : ∀ b ∈ blockv, b.2.2 ≤ CHUNKSIZE) :
    StaysLocal disks faults blockv ↔ Tolerated disks faults blockv := by
  constructor
  · exact fun h => h.tolerated hlength hchunk
  · intro h
    refine ⟨_, _, readv_network_eq hlength hchunk, ?_⟩
    exact leads_served hchunk h [] (atBlocks_start hlength hchunk h.sendable_head)

/-- A server with one file under one path. -/
def one_path (path : String) (F : File) : Disks where
  trans_table := []
  open_path name := if name = path then .ok F else .error .OSError

theorem staysLocal_lost_last :
    StaysLocal (one_path "disk0" ⟨[1, 2, 3], by decide⟩) (fun _ => false) [("disk0", 0, 2), ("disk1", 0, 2)] := by
  refine (staysLocal_iff _ _ (by decide) (by decide)).mpr ?_
  refine ⟨⟨by decide, by decide⟩, fun _ => ?_, ⟨by decide, by decide⟩, fun hne => absurd rfl hne, trivial⟩
  rintro (⟨e, hopen⟩ | ⟨-, hfault | hseek⟩)
  · cases hopen
  · cases hfault
  · exact absurd hseek (by decide)

/-- With the first of two disks lost, the last packet of its reply is taken for the second
    one. -/
theorem not_staysLocal_lost_first :
    ¬ StaysLocal (one_path "disk0" ⟨[1, 2, 3], by decide⟩) (fun _ => false) [("disk1", 0, 2), ("disk0", 0, 2)] := by
  intro h
  obtain ⟨-, hreads, -⟩ := h.tolerated (by decide) (by decide)
  exact hreads (List.cons_ne_nil _ _) (.inl ⟨.OSError, rfl⟩)

end zfs_rescue.proxy.vector
