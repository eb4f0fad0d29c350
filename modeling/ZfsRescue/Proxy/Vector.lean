import ZfsRescue.Proxy.ReadNetwork

open bytes
open zfs_rescue.server runs

namespace zfs_rescue.proxy.vector

/-- A block of a vector read: the path of its device, its offset and its count. -/
abbrev Block := String × Nat × Nat

/-- Where `_readv_network` is: in the read of a block, with the blocks behind it, or back
    with a result. -/
inductive Reader where
  | reading (b : Block) (rest : List Block) (boff : Nat) (client : Client)
  | returned (result : Py Bytes)

/-- The loop over the blocks: the reader in front of the next answer and what it has sent. -/
def start_blocks : List Block → Nat → Bytes → Reader × Bytes
  | [], _, buf => (.returned (.ok buf), [])
  | b :: rest, boff, buf =>
    match pack_request b.1 b.2.1 b.2.2 with
    | .ok request => (.reading b rest boff (.answer buf b.2.2 []), request)
    | .error e => (.returned (.error e), [])

/-- What the reader does once the read of a block is back. -/
def settle (b : Block) (rest : List Block) (boff : Nat) (client : Client) : Reader × Bytes :=
  match client with
  | .returned (.ok buf) => start_blocks rest (boff + b.2.2) buf
  | .returned (.error e) => (.returned (.error e), [])
  | .answer _ _ _ | .payload _ _ _ _ => (.reading b rest boff client, [])

/-- `_readv_network` up to its first answer. -/
def readv_network (blockv : List Block) : Py (Reader × Bytes) :=
  let count := (blockv.map fun b => b.2.2).sum
  if 2 ^ 63 ≤ count then .error .OverflowError
  else if 2 ^ 8 ≤ blockv.length then .error .StructError
  else
    let start := start_blocks blockv 0 (List.replicate count 0)
    .ok (start.1, char_byte 'v' :: UInt8.ofNat blockv.length :: start.2)

/-- A turn of a server that cannot read the file of some requests, by how many follow
    them. -/
def turn (disks : Disks) (faults : Nat → Bool) (server : Server) : Server × Bytes :=
  match server with
  | .sending nreqs f offset count i =>
    if i < count ∧ faults nreqs = true then report_error nreqs offset count
    else Server.turn disks (.sending nreqs f offset count i)
  | _ => Server.turn disks server

/-- How many requests follow the one the server is at, once it has one. -/
def serving_after (server : Server) (serving : Nat) : Nat :=
  match server with
  | .opening nreqs _ _ _ => nreqs
  | _ => serving

/-- A reader and a server, the bytes on the way from one to the other, and the request
    that each byte of the server replies to. -/
structure Session where
  reader : Reader
  up : Bytes
  server : Server
  serving : Nat
  down : List (Nat × UInt8)

/-- The steps of a session, which are those of a connection. -/
inductive Step (disks : Disks) (faults : Nat → Bool) : Session → Session → Prop where
  | server_recv {reader : Reader} {x : UInt8} {up : Bytes} {server : Server} {serving : Nat}
      {down : List (Nat × UInt8)} :
      server.Receives →
      Step disks faults ⟨reader, x :: up, server, serving, down⟩
        ⟨reader, up, server.recv x, serving_after (server.recv x) serving, down⟩
  | server_turn {reader : Reader} {up : Bytes} {server : Server} {serving : Nat} {down : List (Nat × UInt8)} :
      server.Busy →
      Step disks faults ⟨reader, up, server, serving, down⟩
        ⟨reader, up, (turn disks faults server).1, serving,
          down ++ (turn disks faults server).2.map fun x => (serving, x)⟩
  | reader_recv {b : Block} {rest : List Block} {boff : Nat} {buf : Bytes} {count : Int} {got up : Bytes}
      {server : Server} {serving : Nat} {x : Nat × UInt8} {down : List (Nat × UInt8)} :
      Step disks faults ⟨.reading b rest boff (.answer buf count got), up, server, serving, x :: down⟩
        ⟨(settle b rest boff (recv boff b.2.1 buf count got x.2)).1,
          up ++ (settle b rest boff (recv boff b.2.1 buf count got x.2)).2, server, serving, down⟩
  | reader_recv_into {b : Block} {rest : List Block} {boff : Nat} {buf : Bytes} {count : Int} {off l : Nat} {up : Bytes}
      {server : Server} {serving : Nat} {data down : List (Nat × UInt8)} :
      data ≠ [] → data.length ≤ l →
      Step disks faults ⟨.reading b rest boff (.payload buf count off l), up, server, serving, data ++ down⟩
        ⟨(settle b rest boff (recv_into boff b.2.1 buf count off l (data.map Prod.snd))).1,
          up ++ (settle b rest boff (recv_into boff b.2.1 buf count off l (data.map Prod.snd))).2, server, serving,
          down⟩
  | reader_eof {reader : Reader} {up : Bytes} {serving : Nat} :
      (∀ result, reader ≠ .returned result) →
      Step disks faults ⟨reader, up, .closed, serving, []⟩ ⟨reader, up, .closed, serving, []⟩

/-- How many blocks follow the one that is read. -/
def Reader.left : Reader → Option Nat
  | .reading _ rest _ _ => some rest.length
  | .returned _ => none

/-- The next byte that the reader takes replies to its own request. -/
def OwnReply (s : Session) : Prop := ∀ x, s.down.head? = some x → ∀ n, s.reader.left = some n → x.1 = n

theorem turn_busy_lt (disks : Disks) (faults : Nat → Bool) {server : Server} (hbusy : server.Busy) :
    (turn disks faults server).1.turns < server.turns := by
  cases server with
  | sending nreqs f offset count i =>
    rw [turn]
    by_cases hfault : i < count ∧ faults nreqs = true
    · rw [if_pos hfault, report_error]
      split
      · simp [Server.turns]
      · simp only [Server.turns]
        omega
    · rw [if_neg hfault]
      exact turns_turn_lt disks hbusy
  | _ => exact turns_turn_lt disks hbusy

/-- What a server sends by itself on its way to another state, up to the last turn that
    sends something. -/
inductive Sent (disks : Disks) (faults : Nat → Bool) (next : Server) : Server → Bytes → Prop where
  | done : Sent disks faults next next []
  | turn {server : Server} {rest : Bytes} : server.Busy → Sent disks faults next (turn disks faults server).1 rest →
      (turn disks faults server).2 ++ rest ≠ [] →
      Sent disks faults next server ((turn disks faults server).2 ++ rest)

/-- A client that takes these bytes, and comes back with the buffer at the last of them. -/
inductive Takes (boff offset : Nat) : Client → Bytes → Bytes → Prop where
  | nil {buf : Bytes} : Takes boff offset (.returned (.ok buf)) [] buf
  | cons {client next : Client} {x : UInt8} {bytes buf : Bytes} : (∀ result, client ≠ .returned result) →
      feed_byte boff offset client x = some next → Takes boff offset next bytes buf →
      Takes boff offset client (x :: bytes) buf

section Takes

variable {boff offset : Nat} {client next : Client} {xs ys result : Bytes}

/-- A client that is not back behind some bytes was not back before. -/
theorem Takes.of_feed (hfeed : feed boff offset client xs = some next) (hnot : ∀ result, next ≠ .returned result)
    (h : Takes boff offset next ys result) : Takes boff offset client (xs ++ ys) result := by
  induction xs generalizing client with
  | nil =>
    cases hfeed
    exact h
  | cons x xs ih =>
    rw [feed_cons] at hfeed
    obtain ⟨client', hbyte, hrest⟩ := Option.bind_eq_some_iff.mp hfeed
    refine .cons ?_ hbyte (ih hrest)
    rintro other rfl
    cases hbyte
    rw [feed_returned] at hrest
    exact hnot other (Option.some.inj hrest).symm

theorem Takes.drop (h : Takes boff offset client (xs ++ ys) result) (hfeed : feed boff offset client xs = some next) :
    Takes boff offset next ys result := by
  induction xs generalizing client with
  | nil =>
    cases hfeed
    exact h
  | cons x xs ih =>
    rw [feed_cons] at hfeed
    obtain ⟨client', hbyte, hrest⟩ := Option.bind_eq_some_iff.mp hfeed
    cases h with
    | cons _ hbyte' h =>
      cases hbyte.symm.trans hbyte'
      exact ih h hrest

/-- A payload is taken whole. -/
theorem Takes.le_length {buf : Bytes} {count : Int} {off l : Nat}
    (h : Takes boff offset (.payload buf count off l) xs result) : l ≤ xs.length := by
  induction l generalizing xs buf off with
  | zero => exact Nat.zero_le _
  | succ l ih =>
    cases h with
    | @cons _ client x xs _ _ hbyte h =>
      rw [feed_byte] at hbyte
      split at hbyte
      · cases hbyte
        rw [recv_into, recv_payload] at h
        split at h
        · rename_i hzero
          rw [List.length_singleton] at hzero
          simp only [List.length_cons]
          omega
        · split at h
          · rename_i hroom
            cases h with
            | cons hnot _ _ => exact absurd rfl (hnot _)
          · rw [List.length_cons]
            exact Nat.succ_le_succ (ih h)
      · cases hbyte

theorem Takes.inView {buf : Bytes} {count : Int} {off l : Nat}
    (h : Takes boff offset (.payload buf count off l) xs result) : InView boff offset buf off l := by
  cases h with
  | cons _ hbyte _ =>
    by_contra hout
    rw [feed_byte, if_neg hout] at hbyte
    cases hbyte

/-- A client that has something to take is not back. -/
theorem Takes.not_returned (h : Takes boff offset client xs result) (hne : xs ≠ []) (other : Py Bytes) :
    client ≠ .returned other := by
  cases h with
  | nil => exact absurd rfl hne
  | cons hnot _ _ => exact hnot other

/-- In front of the end of an answer the client waits for more of it. -/
theorem feed_answer_part {buf : Bytes} {count : Int} {got : Bytes} (hlength : got.length + xs.length < 17) :
    feed boff offset (.answer buf count got) xs = some (.answer buf count (got ++ xs)) := by
  induction xs generalizing got with
  | nil => simp [feed]
  | cons x xs ih =>
    rw [List.length_cons] at hlength
    rw [feed_cons, feed_byte, Option.bind_some, recv, if_pos (by omega), ih (by simp; omega), List.append_assoc,
      List.singleton_append]

theorem feed_append (client : Client) (xs ys : Bytes) :
    feed boff offset client (xs ++ ys) = (feed boff offset client xs).bind fun next => feed boff offset next ys :=
  List.foldlM_append

/-- An answer that ends the read of a block. -/
theorem Takes.of_packet {buf : Bytes} {count : Int} {op : Char} {off l : Nat} {packet : Bytes}
    (hpack : pack_BQQ op off l = .ok packet) (hop : char_byte op ≠ char_byte 'n') :
    Takes boff offset (.answer buf count []) packet buf := by
  have hlength : packet.length = 17 := by
    rw [pack_BQQ] at hpack
    split at hpack
    · cases hpack
      simp
    · cases hpack
  obtain rfl | ⟨got, x, rfl⟩ := List.eq_nil_or_concat' packet
  · cases hlength
  have hpart : feed boff offset (.answer buf count []) got = some (.answer buf count got) := by
    rw [feed_answer_part, List.nil_append]
    simp only [List.length_append, List.length_nil, List.length_singleton] at hlength ⊢
    omega
  have hwhole : feed boff offset (.answer buf count []) (got ++ [x]) = some (.returned (.ok buf)) := by
    rw [← List.append_nil (got ++ [x]), feed_packet hpack, if_neg hop]
    rfl
  rw [feed_append, hpart, Option.bind_some, feed_cons] at hwhole
  obtain ⟨next, hbyte, hnext⟩ := Option.bind_eq_some_iff.mp hwhole
  cases hnext
  exact .of_feed hpart (by simp) (.cons (by simp) hbyte .nil)

end Takes

/-- The bytes that bring a server to the request of a block with so many behind it. -/
structure Asks (start : Server) (whole : Bytes) (b : Block) (nreqs : Nat) : Prop where
  receives : ∀ got up, got ++ up = whole → up ≠ [] → (got.foldl Server.recv start).Receives
  opens : whole.foldl Server.recv start = .opening nreqs b.1 b.2.1 b.2.2

/-- The server has part of what asks for a block, and nothing is on the way back. -/
def Asking (start : Server) (whole : Bytes) (b : Block) (rest : List Block) (boff : Nat) (buf : Bytes) (s : Session) :
    Prop :=
  ∃ got, got ++ s.up = whole ∧ s.up ≠ [] ∧ s.server = got.foldl Server.recv start ∧ s.down = [] ∧
    s.reader = .reading b rest boff (.answer buf b.2.2 [])

/-- What is on the way and what the server will still send brings the reader of a block
    back, and leaves some bytes. -/
def Replying (disks : Disks) (faults : Nat → Bool) (next : Server) (extra : Bytes) (b : Block) (rest : List Block)
    (boff : Nat) (result : Bytes) (s : Session) : Prop :=
  s.up = [] ∧ s.serving = rest.length ∧ (∀ x ∈ s.down, x.1 = rest.length) ∧
    ∃ client used more, s.reader = .reading b rest boff client ∧ Sent disks faults next s.server more ∧
      s.down.map Prod.snd ++ more = used ++ extra ∧ used ≠ [] ∧ Takes boff b.2.1 client used result

/-- The reader is in front of the blocks behind the one that was replied to, and has not
    taken these bytes of the reply. -/
def Left (disks : Disks) (faults : Nat → Bool) (next : Server) (extra : Bytes) (rest : List Block) (boff : Nat)
    (result : Bytes) (s : Session) : Prop :=
  (s.reader, s.up) = start_blocks rest boff result ∧ s.serving = rest.length ∧ (∀ x ∈ s.down, x.1 = rest.length) ∧
    ∃ more, Sent disks faults next s.server more ∧ s.down.map Prod.snd ++ more = extra

/-- What is left to do for a block: bytes of the request, turns of the server, and bytes of
    the reply, the first of them counting most. -/
def weight (s : Session) : Nat × Nat × Nat := (s.up.length, s.server.turns, s.down.length)

/-- The reader is in a block. -/
def Reading (s : Session) : Prop := ∀ result, s.reader ≠ .returned result

section Block

variable {disks : Disks} {faults : Nat → Bool} {start next : Server} {whole extra used result buf : Bytes} {b : Block}
  {rest : List Block} {boff : Nat}

/-- The reader goes on when the bytes it was to take are all taken, and stays otherwise. -/
theorem settle_of_takes {client : Client} {server : Server} {serving : Nat} {down : List (Nat × UInt8)} {more : Bytes}
    (htakes : Takes boff b.2.1 client used result) (hserving : serving = rest.length)
    (hdown : ∀ x ∈ down, x.1 = rest.length) (hsent : Sent disks faults next server more)
    (hbytes : down.map Prod.snd ++ more = used ++ extra) :
    Left disks faults next extra rest (boff + b.2.2) result
        ⟨(settle b rest boff client).1, [] ++ (settle b rest boff client).2, server, serving, down⟩ ∨
      Replying disks faults next extra b rest boff result
        ⟨(settle b rest boff client).1, [] ++ (settle b rest boff client).2, server, serving, down⟩ := by
  cases htakes with
  | nil => exact .inl ⟨rfl, hserving, hdown, more, hsent, hbytes⟩
  | @cons _ _ x bytes _ hnot hbyte htail =>
    have hsettle : settle b rest boff client = (.reading b rest boff client, []) := by
      cases client with
      | returned other => exact absurd rfl (hnot other)
      | answer | payload => rfl
    rw [hsettle]
    exact .inr ⟨rfl, hserving, hdown, client, x :: bytes, more, rfl, hsent, hbytes, List.cons_ne_nil x bytes,
      .cons hnot hbyte htail⟩

theorem Replying.ownReply {s : Session} (h : Replying disks faults next extra b rest boff result s) :
    OwnReply s ∧ Reading s := by
  obtain ⟨-, -, hdown, client, -, -, hreader, -⟩ := h
  constructor
  · intro x hx n hn
    rw [hreader] at hn
    cases hn
    exact hdown x (List.mem_of_mem_head? hx)
  · intro other heq
    rw [hreader] at heq
    cases heq

theorem Asking.ownReply {s : Session} (h : Asking start whole b rest boff buf s) : OwnReply s ∧ Reading s := by
  obtain ⟨-, -, -, -, hdown, hreader⟩ := h
  constructor
  · intro x hx
    rw [hdown] at hx
    cases hx
  · intro other heq
    rw [hreader] at heq
    cases heq

/-- A turn of the server puts bytes on the way that were to be sent. -/
theorem Replying.turn {reader : Reader} {up : Bytes} {server : Server} {serving : Nat} {down : List (Nat × UInt8)}
    (hnext : ¬ next.Busy) (hbusy : server.Busy)
    (h : Replying disks faults next extra b rest boff result ⟨reader, up, server, serving, down⟩) :
    Replying disks faults next extra b rest boff result ⟨reader, up, (vector.turn disks faults server).1, serving,
      down ++ (vector.turn disks faults server).2.map fun x => (serving, x)⟩ := by
  obtain ⟨hup, hserving, hdown, client, used, more, hreader, hsent, hbytes, hne, htakes⟩ := h
  simp only at hserving hdown hreader hsent hbytes hup
  cases hsent with
  | done => exact absurd hbusy hnext
  | @turn _ later _ hlater _ =>
    refine ⟨hup, hserving, ?_, client, used, later, hreader, hlater, ?_, hne, htakes⟩
    · intro x hx
      obtain hx | hx := List.mem_append.mp hx
      · exact hdown x hx
      · obtain ⟨_, -, rfl⟩ := List.mem_map.mp hx
        exact hserving
    · rw [← hbytes, List.map_append, List.map_map, List.append_assoc]
      simp

/-- A byte of an answer is one that was to be taken. -/
theorem Replying.recv {b' : Block} {rest' : List Block} {boff' : Nat} {buf : Bytes} {count : Int} {got up : Bytes}
    {server : Server} {serving : Nat} {x : Nat × UInt8} {down : List (Nat × UInt8)}
    (h : Replying disks faults next extra b rest boff result
      ⟨.reading b' rest' boff' (.answer buf count got), up, server, serving, x :: down⟩) :
    Left disks faults next extra rest (boff + b.2.2) result
        ⟨(settle b' rest' boff' (proxy.recv boff' b'.2.1 buf count got x.2)).1,
          up ++ (settle b' rest' boff' (proxy.recv boff' b'.2.1 buf count got x.2)).2, server, serving, down⟩ ∨
      Replying disks faults next extra b rest boff result
        ⟨(settle b' rest' boff' (proxy.recv boff' b'.2.1 buf count got x.2)).1,
          up ++ (settle b' rest' boff' (proxy.recv boff' b'.2.1 buf count got x.2)).2, server, serving, down⟩ := by
  obtain ⟨hup, hserving, hdown, client, used, more, hreader, hsent, hbytes, hne, htakes⟩ := h
  simp only at hserving hdown hreader hsent hbytes hup
  cases hreader
  subst hup
  obtain ⟨y, used, rfl⟩ := List.exists_cons_of_ne_nil hne
  simp only [List.map_cons, List.cons_append, List.cons.injEq] at hbytes
  obtain ⟨rfl, hbytes⟩ := hbytes
  cases htakes with
  | cons _ hbyte htakes =>
    cases hbyte
    exact settle_of_takes htakes hserving (fun z hz => hdown z (List.mem_cons_of_mem x hz)) hsent hbytes

/-- A piece of a payload is one that was to be taken. -/
theorem Replying.recv_into {b' : Block} {rest' : List Block} {boff' : Nat} {buf : Bytes} {count : Int} {off l : Nat}
    {up : Bytes} {server : Server} {serving : Nat} {data down : List (Nat × UInt8)} (hdata : data ≠ [])
    (hle : data.length ≤ l)
    (h : Replying disks faults next extra b rest boff result
      ⟨.reading b' rest' boff' (.payload buf count off l), up, server, serving, data ++ down⟩) :
    Left disks faults next extra rest (boff + b.2.2) result
        ⟨(settle b' rest' boff' (proxy.recv_into boff' b'.2.1 buf count off l (data.map Prod.snd))).1,
          up ++ (settle b' rest' boff' (proxy.recv_into boff' b'.2.1 buf count off l (data.map Prod.snd))).2, server,
          serving, down⟩ ∨
      Replying disks faults next extra b rest boff result
        ⟨(settle b' rest' boff' (proxy.recv_into boff' b'.2.1 buf count off l (data.map Prod.snd))).1,
          up ++ (settle b' rest' boff' (proxy.recv_into boff' b'.2.1 buf count off l (data.map Prod.snd))).2, server,
          serving, down⟩ := by
  obtain ⟨hup, hserving, hdown, client, used, more, hreader, hsent, hbytes, hne, htakes⟩ := h
  simp only at hserving hdown hreader hsent hbytes hup
  cases hreader
  subst hup
  have hview := htakes.inView
  have hused := htakes.le_length
  rw [List.map_append, List.append_assoc] at hbytes
  obtain ⟨used, rfl⟩ : ∃ tail, used = data.map Prod.snd ++ tail := by
    have htake := congrArg (List.take data.length) hbytes
    rw [List.take_append_of_le_length (by simp), List.take_append_of_le_length (by omega),
      List.take_of_length_le (by simp)] at htake
    exact ⟨used.drop data.length, by rw [htake, List.take_append_drop]⟩
  rw [List.append_assoc, List.append_cancel_left_eq] at hbytes
  have hmap : data.map Prod.snd ≠ [] := by simpa using hdata
  have hfeed : feed boff b.2.1 (.payload buf count off l) (data.map Prod.snd ++ []) =
      some (proxy.recv_into boff b.2.1 buf count off l (data.map Prod.snd)) :=
    feed_recv_into hview hmap (by simpa using hle) []
  rw [List.append_nil] at hfeed
  exact settle_of_takes (htakes.drop hfeed) hserving (fun z hz => hdown z (List.mem_append_right data hz)) hsent hbytes

/-- A step keeps the reply what it is and leaves less to do, or takes the last of its bytes. -/
theorem Replying.step (hnext : ¬ next.Busy) {s t : Session} (h : Replying disks faults next extra b rest boff result s)
    (hstep : Step disks faults s t) :
    Left disks faults next extra rest (boff + b.2.2) result t ∨
      Replying disks faults next extra b rest boff result t ∧ WellFoundedRelation.rel (weight t) (weight s) := by
  cases hstep with
  | server_recv _ => cases h.1
  | server_turn hbusy =>
    refine .inr ⟨h.turn hnext hbusy, ?_⟩
    exact Prod.Lex.right _ (Prod.Lex.left _ _ (turn_busy_lt disks faults hbusy))
  | @reader_recv _ _ _ _ _ _ up _ _ _ down =>
    have hup : up = [] := h.1
    refine h.recv.imp_right fun hreplying => ⟨hreplying, ?_⟩
    unfold weight
    rw [hreplying.1, hup]
    exact Prod.Lex.right _ (Prod.Lex.right _ (Nat.lt_succ_self _))
  | @reader_recv_into _ _ _ _ _ _ _ up _ _ data down hdata hle =>
    have hup : up = [] := h.1
    refine (h.recv_into hdata hle).imp_right fun hreplying => ⟨hreplying, ?_⟩
    have hpos := List.length_pos_iff.mpr hdata
    unfold weight
    rw [hreplying.1, hup]
    refine Prod.Lex.right _ (Prod.Lex.right _ ?_)
    change down.length < (data ++ down).length
    rw [List.length_append]
    omega
  | reader_eof _ =>
    obtain ⟨-, -, -, _, _, _, -, hsent, hbytes, hne, -⟩ := h
    simp only at hsent hbytes
    cases hsent with
    | done => exact absurd (List.append_eq_nil_iff.mp hbytes.symm).1 hne
    | turn hbusy _ _ => cases hbusy

/-- As long as the reader is not back there is a step to take. -/
theorem Replying.progress {s : Session} (h : Replying disks faults next extra b rest boff result s) :
    ∃ t, Step disks faults s t := by
  obtain ⟨reader, up, server, serving, down⟩ := s
  obtain ⟨-, -, -, client, used, more, hreader, hsent, hbytes, hne, htakes⟩ := h
  simp only at hreader hsent hbytes
  subst hreader
  cases down with
  | nil =>
    cases hsent with
    | done => exact absurd (List.append_eq_nil_iff.mp hbytes.symm).1 hne
    | turn hbusy _ _ => exact ⟨_, .server_turn hbusy⟩
  | cons x down =>
    cases client with
    | answer buf count got => exact ⟨_, .reader_recv⟩
    | payload buf count off l => exact ⟨_, .reader_recv_into (List.cons_ne_nil x []) htakes.inView.2.2⟩
    | returned other => exact absurd rfl (htakes.not_returned hne other)

/-- The next byte of a request leaves the rest of it to ask for, or begins the reply. -/
theorem Asking.step (hasks : Asks start whole b rest.length) {s t : Session}
    (hsent : Sent disks faults next (.opening rest.length b.1 b.2.1 b.2.2) (used ++ extra)) (hne : used ≠ [])
    (htakes : Takes boff b.2.1 (.answer buf b.2.2 []) used result) (h : Asking start whole b rest boff buf s)
    (hstep : Step disks faults s t) :
    (Asking start whole b rest boff buf t ∨ Replying disks faults next extra b rest boff result t) ∧
      WellFoundedRelation.rel (weight t) (weight s) := by
  obtain ⟨got, hsplit, hup, hserver, hdown, hreader⟩ := h
  have hreceives := hasks.receives got s.up hsplit hup
  rw [← hserver] at hreceives
  cases hstep with
  | @server_recv reader x up server serving down _ =>
    refine ⟨?_, Prod.Lex.left _ _ (Nat.lt_succ_self _)⟩
    simp only at hsplit hserver hdown hreader
    have hfold : server.recv x = (got ++ [x]).foldl Server.recv start := by
      rw [List.foldl_append, ← hserver]
      rfl
    by_cases hend : up = []
    · right
      subst hend
      rw [hsplit, hasks.opens] at hfold
      rw [hfold]
      refine ⟨rfl, rfl, ?_, _, used, used ++ extra, hreader, hsent, ?_, hne, htakes⟩
      · simp [hdown]
      · simp [hdown]
    · left
      exact ⟨got ++ [x], by simpa using hsplit, hend, hfold, hdown, hreader⟩
  | @server_turn reader up server serving down hbusy =>
    cases server with
    | command | request => cases hbusy
    | opening | sending | last | closed => cases hreceives
  | reader_recv => cases hdown
  | reader_recv_into hdata _ => exact absurd (List.append_eq_nil_iff.mp hdown).1 hdata
  | reader_eof _ => cases hreceives

/-- A block that is asked for is read, and what its read does not take of the reply is
    left. -/
theorem leads_left (hasks : Asks start whole b rest.length) (hnext : ¬ next.Busy)
    (hsent : Sent disks faults next (.opening rest.length b.1 b.2.1 b.2.2) (used ++ extra)) (hne : used ≠ [])
    (htakes : Takes boff b.2.1 (.answer buf b.2.2 []) used result) {s : Session}
    (h : Asking start whole b rest boff buf s) :
    Leads (Step disks faults) (fun s => OwnReply s ∧ Reading s)
      (Left disks faults next extra rest (boff + b.2.2) result) s := by
  refine leads_of_invariant (fun s => Asking start whole b rest boff buf s ∨
    Replying disks faults next extra b rest boff result s) weight ?_ ?_ ?_ (.inl h)
  · rintro s (hasking | hreplying)
    · exact hasking.ownReply
    · exact hreplying.ownReply
  · rintro s (⟨got, hsplit, hup, hserver, -, -⟩ | hreplying)
    · have hreceives := hasks.receives got s.up hsplit hup
      rw [← hserver] at hreceives
      obtain ⟨reader, up, server, serving, down⟩ := s
      obtain ⟨x, up, rfl⟩ := List.exists_cons_of_ne_nil hup
      exact ⟨_, .server_recv hreceives⟩
    · exact hreplying.progress
  · rintro s t (hasking | hreplying) hstep
    · exact .inr (hasking.step hasks hsent hne htakes hstep)
    · obtain hleft | ⟨hreplying, hless⟩ := hreplying.step hnext hstep
      · exact .inl hleft
      · exact .inr ⟨.inr hreplying, hless⟩

end Block

end zfs_rescue.proxy.vector
