import ZfsRescue.Proxy.Network

open bytes
open zfs_rescue.server

namespace zfs_rescue.proxy

/-- A client and a server, and the bytes on the way from one to the other. -/
structure Connection where
  client : Client
  up : Bytes
  server : Server
  down : Bytes

/-- The steps of a connection. Each party takes bytes off the front of its stream
    as they come, a payload in pieces of any length. At the end of a closed stream
    the client goes on asking. -/
inductive Step (disks : Disks) (boff offset : Nat) : Connection → Connection → Prop where
  | server_recv {client : Client} {up : Bytes} {server : Server} {down : Bytes} {b : UInt8} :
      server.Receives →
      Step disks boff offset ⟨client, b :: up, server, down⟩ ⟨client, up, server.recv b, down⟩
  | server_turn {client : Client} {up : Bytes} {server : Server} {down : Bytes} :
      server.Busy →
      Step disks boff offset ⟨client, up, server, down⟩
        ⟨client, up, (server.turn disks).1, down ++ (server.turn disks).2⟩
  | client_recv {buf : Bytes} {count : Int} {got : Bytes} {up : Bytes} {server : Server} {down : Bytes} {b : UInt8} :
      Step disks boff offset ⟨.answer buf count got, up, server, b :: down⟩
        ⟨recv boff offset buf count got b, up, server, down⟩
  | client_recv_into {buf : Bytes} {count : Int} {off l : Nat} {up : Bytes} {server : Server} {data down : Bytes} :
      data ≠ [] → data.length ≤ l →
      Step disks boff offset ⟨.payload buf count off l, up, server, data ++ down⟩
        ⟨recv_into boff offset buf count off l data, up, server, down⟩
  | client_eof {client : Client} {up : Bytes} :
      (∀ result, client ≠ .returned result) →
      Step disks boff offset ⟨client, up, .closed, []⟩ ⟨client, up, .closed, []⟩

/-- The client is back with a result. -/
def Returned (result : Py Bytes) (s : Connection) : Prop := s.client = .returned result

theorem returned_stable {disks : Disks} {boff offset : Nat} {result : Py Bytes} (s t : Connection)
    (h : Returned result s) (hstep : Step disks boff offset s t) : Returned result t := by
  cases hstep with
  | server_recv _ | server_turn _ | client_eof _ => exact h
  | client_recv | client_recv_into _ _ => cases h

/-- What is on the way and what the server will still send brings the client
    back with a result. -/
def Replying (disks : Disks) (boff offset : Nat) (result : Bytes) (s : Connection) : Prop :=
  ∃ rest, Sends disks s.server rest ∧ feed boff offset s.client (s.down ++ rest) = some (.returned (.ok result))

/-- What is left of a connection: bytes of the request, turns of the server, and
    bytes of the answer, the first of them counting most. -/
def weight (s : Connection) : Nat × Nat × Nat := (s.up.length, s.server.turns, s.down.length)

section Replies

variable {disks : Disks} {boff offset : Nat} {result : Bytes} {s t : Connection}

/-- A step keeps the reply what it is, and leaves less to do. -/
theorem Replying.step (h : Replying disks boff offset result s) (hnot : ¬ Returned (.ok result) s)
    (hstep : Step disks boff offset s t) :
    Replying disks boff offset result t ∧ WellFoundedRelation.rel (weight t) (weight s) := by
  obtain ⟨rest, hsends, hfeed⟩ := h
  cases hstep with
  | server_recv hreceives => exact absurd hreceives hsends.not_receives
  | server_turn hbusy =>
    obtain ⟨later, rfl, hlater⟩ := hsends.of_busy hbusy
    refine ⟨⟨later, hlater, by rw [List.append_assoc]; exact hfeed⟩, ?_⟩
    exact Prod.Lex.right _ (Prod.Lex.left _ _ (turns_turn_lt disks hbusy))
  | client_recv =>
    refine ⟨⟨rest, hsends, ?_⟩, Prod.Lex.right _ (Prod.Lex.right _ (Nat.lt_succ_self _))⟩
    rwa [List.cons_append, feed_cons, feed_byte, Option.bind_some] at hfeed
  | @client_recv_into buf count off l up server data down hne hle =>
    have hview : InView boff offset buf off l := by
      obtain ⟨b, bytes, rfl⟩ := List.exists_cons_of_ne_nil hne
      rw [List.cons_append, List.cons_append, feed_cons, feed_byte] at hfeed
      by_contra hout
      rw [if_neg hout] at hfeed
      cases hfeed
    refine ⟨⟨rest, hsends, ?_⟩, ?_⟩
    · rwa [List.append_assoc, feed_recv_into hview hne hle] at hfeed
    · refine Prod.Lex.right _ (Prod.Lex.right _ ?_)
      have hpos := List.length_pos_iff.mpr hne
      show down.length < (data ++ down).length
      rw [List.length_append]
      omega
  | client_eof _ =>
    cases hsends with
    | closed => exact absurd (Option.some.inj hfeed) hnot
    | turn hbusy _ => cases hbusy

/-- As long as the client is not back there is a step to take. -/
theorem Replying.progress (h : Replying disks boff offset result s) (hnot : ¬ Returned (.ok result) s) :
    ∃ t, Step disks boff offset s t := by
  obtain ⟨client, up, server, down⟩ := s
  obtain ⟨rest, hsends, hfeed⟩ := h
  cases down with
  | nil =>
    cases hsends with
    | closed => exact absurd (Option.some.inj hfeed) hnot
    | turn hbusy _ => exact ⟨_, .server_turn hbusy⟩
  | cons b down =>
    cases client with
    | answer buf count got => exact ⟨_, .client_recv⟩
    | payload buf count off l =>
      have hpos : 0 < l := by
        simp only [List.cons_append] at hfeed
        rw [feed_cons, feed_byte] at hfeed
        by_contra hzero
        rw [if_neg fun hview => hzero hview.2.2] at hfeed
        cases hfeed
      exact ⟨_, .client_recv_into (List.cons_ne_nil b []) hpos⟩
    | returned other =>
      rw [feed_returned] at hfeed
      exact absurd (Option.some.inj hfeed) hnot

end Replies

end zfs_rescue.proxy
