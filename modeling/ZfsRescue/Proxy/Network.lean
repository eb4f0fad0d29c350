import ZfsRescue.Bytes.Zero
import ZfsRescue.Server

open bytes
open zfs_rescue.server

namespace zfs_rescue.proxy

/-- Where `_read_network_buf` is: in front of an answer with the bytes received
    of it, in front of the payload of a packet, or back with a result. -/
inductive Client where
  | answer (buf : Bytes) (count : Int) (got : Bytes)
  | payload (buf : Bytes) (count : Int) (off l : Nat)
  | returned (result : Py Bytes)

/-- The bytes that ask for a range of a device, whose path is of this length. -/
def request_bytes (dev_path : String) (offset count : Nat) : Bytes :=
  writeLE 8 offset ++ writeLE 8 count ++ UInt8.ofNat (encode_utf8 dev_path).length :: encode_utf8 dev_path

/-- `struct.pack('=QQB', offset, count, len(enc_name)) + enc_name`. -/
def pack_request (dev_path : String) (offset count : Nat) : Py Bytes :=
  if offset < 2 ^ 64 ∧ count < 2 ^ 64 ∧ (encode_utf8 dev_path).length < 2 ^ 8 then
    .ok (request_bytes dev_path offset count)
  else .error .StructError

/-- `_read_network` up to its first answer: the client and what it has sent. -/
def read_network (dev_path : String) (offset count : Nat) : Py (Client × Bytes) :=
  if 2 ^ 63 ≤ count then .error .OverflowError
  else do
    let request ← pack_request dev_path offset count
    .ok (.answer (List.replicate count 0) count [], [char_byte 'r', 1] ++ request)

section Client

variable (boff offset : Nat)

/-- Where `view[boff+(off-offset):]` starts. -/
def view_start (buf : Bytes) (off : Nat) : Nat := sliceBound buf.length (boff + (off - offset : Int))

/-- The loop over the payload, with `l` bytes still to come. Asking for more bytes
    than the view has room for is refused, as is a number that no buffer can have. -/
def recv_payload (buf : Bytes) (count : Int) (off l : Nat) : Client :=
  if l = 0 then .answer buf count []
  else if buf.length - view_start boff offset buf off < l then
    .returned (.error (if 2 ^ 63 ≤ l then .OverflowError else .ValueError))
  else .payload buf count off l

/-- What a complete answer leads to. -/
def handle_answer (buf : Bytes) (count : Int) (answer : Bytes) : Client :=
  if answer.getD 0 0 = char_byte 'n' then
    if count ≤ 0 then .returned (.ok buf)
    else
      recv_payload boff offset buf (count - readLE (slice answer 9 8)) (readLE (slice answer 1 8))
        (readLE (slice answer 9 8))
  else .returned (.ok buf)

/-- `sock.recv(1)`. -/
def recv (buf : Bytes) (count : Int) (got : Bytes) (b : UInt8) : Client :=
  if got.length + 1 < 17 then .answer buf count (got ++ [b]) else handle_answer boff offset buf count (got ++ [b])

/-- `sock.recv_into(view[boff+(off-offset):], l)`, when it delivers some bytes. -/
def recv_into (buf : Bytes) (count : Int) (off l : Nat) (data : Bytes) : Client :=
  recv_payload boff offset (overwrite buf (view_start boff offset buf off) data) count (off + data.length)
    (l - data.length)

/-- The payload to come lies in the buffer, where the offsets say. -/
def InView (buf : Bytes) (off l : Nat) : Prop :=
  offset ≤ off ∧ boff + (off - offset) + l ≤ buf.length ∧ 0 < l

instance (buf : Bytes) (off l : Nat) : Decidable (InView boff offset buf off l) :=
  inferInstanceAs (Decidable (_ ∧ _ ∧ _))

/-- A client that gets bytes one at a time, as long as they lie in the buffer. -/
def feed_byte : Client → UInt8 → Option Client
  | .answer buf count got, b => some (recv boff offset buf count got b)
  | .payload buf count off l, b =>
    if InView boff offset buf off l then some (recv_into boff offset buf count off l [b]) else none
  | .returned result, _ => some (.returned result)

def feed (client : Client) (bytes : Bytes) : Option Client := bytes.foldlM (feed_byte boff offset) client

end Client

section Feed

variable {boff offset : Nat}

theorem feed_cons (client : Client) (b : UInt8) (bytes : Bytes) :
    feed boff offset client (b :: bytes) = (feed_byte boff offset client b).bind fun next => feed boff offset next bytes :=
  rfl

theorem feed_returned (result : Py Bytes) (bytes : Bytes) :
    feed boff offset (.returned result) bytes = some (.returned result) := by
  induction bytes with
  | nil => rfl
  | cons b bytes ih => rw [feed_cons, feed_byte, Option.bind_some, ih]

theorem view_start_of_inView {buf : Bytes} {off l : Nat} (h : InView boff offset buf off l) :
    view_start boff offset buf off = boff + (off - offset) := by
  obtain ⟨hoff, hroom, -⟩ := h
  have hcast : (boff : Int) + ((off : Int) - (offset : Int)) = (boff + (off - offset) : Nat) := by omega
  rw [view_start, hcast, sliceBound, if_neg (by omega), Int.toNat_natCast]
  omega

/-- A payload that comes in pieces is a payload that comes byte by byte. -/
theorem feed_recv_into {buf : Bytes} {count : Int} {off l : Nat} {data : Bytes} (hview : InView boff offset buf off l)
    (hne : data ≠ []) (hle : data.length ≤ l) (rest : Bytes) :
    feed boff offset (.payload buf count off l) (data ++ rest) =
      feed boff offset (recv_into boff offset buf count off l data) rest := by
  induction data generalizing buf off l with
  | nil => exact absurd rfl hne
  | cons b data ih =>
    rw [List.cons_append, feed_cons, feed_byte, if_pos hview, Option.bind_some]
    cases data with
    | nil => rfl
    | cons b' data =>
      obtain ⟨hoff, hroom, hpos⟩ := id hview
      simp only [List.length_cons] at hle
      have hstart := view_start_of_inView hview
      have hlength : (overwrite buf (boff + (off - offset)) [b]).length = buf.length :=
        length_overwrite (by simp; omega)
      have hnext : InView boff offset (overwrite buf (boff + (off - offset)) [b]) (off + 1) (l - 1) := by
        refine ⟨by omega, ?_, by omega⟩
        rw [hlength]
        omega
      have hstart' := view_start_of_inView hnext
      have hone : recv_into boff offset buf count off l [b] =
          .payload (overwrite buf (boff + (off - offset)) [b]) count (off + 1) (l - 1) := by
        rw [recv_into, hstart, List.length_singleton, recv_payload, if_neg (by omega), if_neg]
        rw [hstart', hlength]
        omega
      rw [hone, ih hnext (by simp) (by simp only [List.length_cons]; omega)]
      congr 1
      rw [recv_into, recv_into, hstart, hstart', show boff + (off + 1 - offset) = boff + (off - offset) + 1 by omega,
        overwrite_overwrite (by simp only [List.length_cons]; omega)]
      congr 1
      · simp only [List.length_cons]
        omega
      · simp only [List.length_cons]
        omega

/-- A complete answer is handled. -/
theorem feed_answer {buf : Bytes} {count : Int} {got bytes : Bytes} (hlength : got.length + bytes.length = 17)
    (hne : bytes ≠ []) (rest : Bytes) :
    feed boff offset (.answer buf count got) (bytes ++ rest) =
      feed boff offset (handle_answer boff offset buf count (got ++ bytes)) rest := by
  induction bytes generalizing got with
  | nil => exact absurd rfl hne
  | cons b bytes ih =>
    simp only [List.length_cons] at hlength
    rw [List.cons_append, feed_cons, feed_byte, Option.bind_some, recv]
    cases bytes with
    | nil =>
      simp only [List.length_nil] at hlength
      rw [if_neg (by omega)]
      rfl
    | cons b' bytes =>
      simp only [List.length_cons] at hlength
      have happend : got ++ b :: b' :: bytes = (got ++ [b]) ++ b' :: bytes := by simp
      rw [if_pos (by omega), ih (by simp; omega) (by simp), happend]

/-- The packets of the server, as the client takes them. -/
theorem feed_packet {buf : Bytes} {count : Int} {op : Char} {off l : Nat} {packet : Bytes}
    (hpack : pack_BQQ op off l = .ok packet) (rest : Bytes) :
    feed boff offset (.answer buf count []) (packet ++ rest) =
      feed boff offset
        (if char_byte op = char_byte 'n' then
          if count ≤ 0 then .returned (.ok buf) else recv_payload boff offset buf (count - l) off l
        else .returned (.ok buf)) rest := by
  rw [pack_BQQ] at hpack
  split at hpack
  · rename_i hlt
    cases hpack
    have hoff : slice (char_byte op :: (writeLE 8 off ++ writeLE 8 l)) 1 8 = writeLE 8 off := by
      have hslice := slice_middle [char_byte op] (writeLE 8 off) (writeLE 8 l)
      simpa using hslice
    have hl : slice (char_byte op :: (writeLE 8 off ++ writeLE 8 l)) 9 8 = writeLE 8 l := by
      have hslice := slice_middle (char_byte op :: writeLE 8 off) (writeLE 8 l) []
      simpa using hslice
    rw [feed_answer (by simp) (by simp), List.nil_append, handle_answer, hoff, hl, readLE_writeLE (by omega),
      readLE_writeLE (by omega)]
    rfl
  · cases hpack

end Feed

end zfs_rescue.proxy
