import ZfsRescue.Python

open bytes

namespace zfs_rescue.server

def CHUNKSIZE : Nat := 4096 * 64

/-- A file that can be opened. It is no longer than a file offset can tell. -/
abbrev File := { f : Bytes // f.length < 2 ^ 63 }

/-- The disks of a server: its translation table, and what `open` makes of a
    path. The files do not change while they are read. -/
structure Disks where
  trans_table : List (String × String)
  open_path : String → Py File

def Disks.open_disk (self : Disks) (path : String) : Py File :=
  self.open_path ((self.trans_table.lookup path).getD path)

def char_byte (c : Char) : UInt8 := UInt8.ofNat c.toNat

/-- `struct.pack('=BQQ', ord(op), offset, count)`. -/
def pack_BQQ (op : Char) (offset count : Nat) : Py Bytes :=
  if offset < 2 ^ 64 ∧ count < 2 ^ 64 then .ok (char_byte op :: (writeLE 8 offset ++ writeLE 8 count))
  else .error .StructError

/-- Where the handler of a connection is: before the command and its number of
    requests, in front of a request with so many to follow, before opening the
    path of a request, in the loop that sends it, or before its last packet. -/
inductive Server where
  | command (got : Bytes)
  | request (nreqs : Nat) (got : Bytes)
  | opening (nreqs : Nat) (path : String) (offset count : Nat)
  | sending (nreqs : Nat) (f : File) (offset count i : Nat)
  | last (nreqs offset count : Nat)
  | closed

/-- The handler waits for a byte. -/
def Server.Receives : Server → Prop
  | .command _ | .request _ _ => True
  | _ => False

/-- The handler goes on by itself. -/
def Server.Busy : Server → Prop
  | .opening _ _ _ _ | .sending _ _ _ _ _ | .last _ _ _ => True
  | _ => False

/-- The handler with so many requests left. -/
def next_request : Nat → Server
  | 0 => .closed
  | nreqs + 1 => .request nreqs []

/-- A request, once it is complete. A path that is not UTF-8 ends the handler. -/
def receive_request (nreqs : Nat) (got : Bytes) : Server :=
  if got.length < 17 then .request nreqs got
  else if got.length < 17 + (got.getD 16 0).toNat then .request nreqs got
  else
    match decode_utf8 (slice got 17 (got.getD 16 0).toNat) with
    | .ok path => .opening nreqs path (readLE (slice got 0 8)) (readLE (slice got 8 8))
    | .error _ => .closed

/-- One byte through `read_len`. The byte behind an `r` is padding, the one
    behind a `v` the number of requests. -/
def Server.recv (self : Server) (b : UInt8) : Server :=
  match self with
  | .command [] => if b = char_byte 'r' ∨ b = char_byte 'v' then .command [b] else .closed
  | .command (op :: _) => if op = char_byte 'r' then .request 0 [] else next_request b.toNat
  | .request nreqs got => receive_request nreqs (got ++ [b])
  | _ => self

/-- The packets of one chunk. -/
def read_chunk (f : File) (offset i l : Nat) : Py Bytes := do
  let data ← seek_read f.1 (offset + i) l
  let packet ← pack_BQQ 'n' offset data.length
  .ok (packet ++ data)

/-- The `except` clause. -/
def report_error (nreqs offset count : Nat) : Server × Bytes :=
  match pack_BQQ 'e' offset 0 with
  | .ok packet => (.last nreqs offset count, packet)
  | .error _ => (.closed, [])

/-- One turn of `_do_read`, and the bytes it sends. When the path cannot be
    opened, the message after the last packet names a variable that is not bound,
    which ends the handler. -/
def Server.turn (disks : Disks) (self : Server) : Server × Bytes :=
  match self with
  | .opening nreqs path offset count =>
    match disks.open_disk path with
    | .ok f => (.sending nreqs f offset count 0, [])
    | .error _ => report_error 0 offset count
  | .sending nreqs f offset count i =>
    if i < count then
      match read_chunk f offset i (min (count - i) CHUNKSIZE) with
      | .ok packets =>
        (.sending nreqs f (offset + min (count - i) CHUNKSIZE) count (i + min (count - i) CHUNKSIZE), packets)
      | .error _ => report_error nreqs offset count
    else (.last nreqs offset count, [])
  | .last nreqs offset count =>
    match pack_BQQ 'l' offset count with
    | .ok packet => (next_request nreqs, packet)
    | .error _ => (.closed, [])
  | _ => (self, [])

section Sending

variable {disks : Disks} {nreqs : Nat} {f : File} {offset count i : Nat}

/-- A chunk behind what a file position can hold cannot be read. -/
theorem turn_sending_far (hlt : i < count) (hfar : 2 ^ 63 ≤ offset + i) :
    Server.turn disks (.sending nreqs f offset count i) = report_error nreqs offset count := by
  rw [Server.turn, if_pos hlt, read_chunk, seek_read, if_pos hfar]
  rfl

/-- Another chunk goes out behind a packet with the length of what the file has there. -/
theorem turn_sending_chunk {l : Nat} {data packet : Bytes} (hlt : i < count) (hnear : offset + i < 2 ^ 63)
    (hl : l = min (count - i) CHUNKSIZE) (hdata : data = slice f.1 (offset + i) l)
    (hpack : pack_BQQ 'n' offset data.length = .ok packet) :
    Server.turn disks (.sending nreqs f offset count i) =
      (.sending nreqs f (offset + l) count (i + l), packet ++ data) := by
  have hsize : CHUNKSIZE < 2 ^ 63 := by decide
  rw [Server.turn, if_pos hlt, ← hl, read_chunk, seek_read_of_lt _ hnear (by omega), bind_ok, ← hdata, hpack]
  rfl

theorem turn_sending_end (hend : count ≤ i) :
    Server.turn disks (.sending nreqs f offset count i) = (.last nreqs offset count, []) := by
  rw [Server.turn, if_neg (by omega)]

end Sending

/-- What a handler sends by itself before it closes the connection. -/
inductive Sends (disks : Disks) : Server → Bytes → Prop where
  | closed : Sends disks .closed []
  | turn {self : Server} {rest : Bytes} : self.Busy → Sends disks (self.turn disks).1 rest →
      Sends disks self ((self.turn disks).2 ++ rest)

theorem Sends.of_turn {disks : Disks} {self next : Server} {sent rest : Bytes} (hbusy : self.Busy)
    (hturn : self.turn disks = (next, sent)) (hrest : Sends disks next rest) : Sends disks self (sent ++ rest) := by
  have hsends : Sends disks self ((self.turn disks).2 ++ rest) := .turn hbusy (by rw [hturn]; exact hrest)
  rwa [hturn] at hsends

theorem Sends.not_receives {disks : Disks} {self : Server} {rest : Bytes} (h : Sends disks self rest) :
    ¬ self.Receives := by
  cases h with
  | closed => exact id
  | turn hbusy _ =>
    cases self with
    | command | request => cases hbusy
    | opening | sending | last | closed => exact id

theorem Sends.of_busy {disks : Disks} {self : Server} {rest : Bytes} (h : Sends disks self rest) (hbusy : self.Busy) :
    ∃ later, rest = (self.turn disks).2 ++ later ∧ Sends disks (self.turn disks).1 later := by
  cases h with
  | closed => cases hbusy
  | turn _ hlater => exact ⟨_, rfl, hlater⟩

/-- How many turns the handler can still take by itself at the most. -/
def Server.turns : Server → Nat
  | .opening _ _ _ count => count + 3
  | .sending _ _ _ count i => count - i + 2
  | .last _ _ _ => 1
  | _ => 0

theorem turns_turn_lt (disks : Disks) {self : Server} (hbusy : self.Busy) :
    (self.turn disks).1.turns < self.turns := by
  have hreport : ∀ nreqs offset count, (report_error nreqs offset count).1.turns ≤ 1 := by
    intro nreqs offset count
    rw [report_error]
    split <;> simp [Server.turns]
  cases self with
  | command | request | closed => cases hbusy
  | opening nreqs path offset count =>
    rw [Server.turn]
    split
    · simp [Server.turns]
    · exact Nat.lt_of_le_of_lt (hreport 0 offset count) (by simp [Server.turns])
  | sending nreqs f offset count i =>
    rw [Server.turn]
    split
    · split
      · simp only [Server.turns, CHUNKSIZE]
        omega
      · exact Nat.lt_of_le_of_lt (hreport nreqs offset count) (by simp [Server.turns])
    · simp [Server.turns]
  | last nreqs offset count =>
    rw [Server.turn]
    split
    · cases nreqs <;> simp [next_request, Server.turns]
    · simp [Server.turns]

theorem pack_BQQ_of_lt {op : Char} {offset count : Nat} (hoffset : offset < 2 ^ 64) (hcount : count < 2 ^ 64) :
    pack_BQQ op offset count = .ok (char_byte op :: (writeLE 8 offset ++ writeLE 8 count)) := by
  rw [pack_BQQ, if_pos ⟨hoffset, hcount⟩]

end zfs_rescue.server
