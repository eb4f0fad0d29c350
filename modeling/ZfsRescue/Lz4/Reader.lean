import ZfsRescue.Bytes.Words

open bytes

namespace lz4

/-- The continuation bytes of a length: their sum and their number, up to and
    with the first that is not 255, or up to the end. -/
def continuation : Bytes → Nat × Nat
  | [] => (0, 0)
  | b :: xs => if b.toNat = 255 then ((continuation xs).1 + 255, (continuation xs).2 + 1) else (b.toNat, 1)

/-- The length that a nibble of a token gives with the bytes `xs` after it, and
    how many of them belong to it. -/
def lengthOf (nibble : Nat) (xs : Bytes) : Nat × Nat :=
  if nibble = 15 then (15 + (continuation xs).1, (continuation xs).2) else (nibble, 0)

section Sequence

variable (xs : Bytes) (ip : Nat)

/-- The literal length of the sequence at `ip`, and its continuation bytes. -/
def runAt : Nat × Nat := lengthOf ((xs.getD ip 0).toNat >>> 4) (xs.drop (ip + 1))

/-- Where the literals of the sequence at `ip` start. -/
def literalsAt : Nat := ip + 1 + (runAt xs ip).2

/-- Where they end and the match offset starts. -/
def offsetAt : Nat := literalsAt xs ip + (runAt xs ip).1

/-- The length of its match, still without the minimum of four, and its
    continuation bytes. -/
def repAt : Nat × Nat := lengthOf ((xs.getD ip 0).toNat &&& 15) (xs.drop (offsetAt xs ip + 2))

/-- Where the next sequence starts. -/
def nextAt : Nat := offsetAt xs ip + 2 + (repAt xs ip).2

end Sequence

/-- What is wrong with a payload `xs` for an output of at most `dsize` bytes,
    from the sequence at `ip` on and with `op` bytes already put out. -/
inductive Malformed (xs : Bytes) (dsize : Nat) : Nat → Nat → Prop
  | literals_past_end {ip op : Nat} : ip < xs.length → xs.length < offsetAt xs ip → Malformed xs dsize ip op
  | literals_past_output {ip op : Nat} : ip < xs.length → dsize < op + (runAt xs ip).1 → Malformed xs dsize ip op
  | offset_before_start {ip op : Nat} : ip < xs.length → offsetAt xs ip + 2 ≤ xs.length →
      op + (runAt xs ip).1 < readLE (slice xs (offsetAt xs ip) 2) → Malformed xs dsize ip op
  | match_past_output {ip op : Nat} : ip < xs.length → offsetAt xs ip + 2 ≤ xs.length →
      dsize < op + (runAt xs ip).1 + (repAt xs ip).1 + 4 → Malformed xs dsize ip op
  | later {ip op : Nat} : ip < xs.length → offsetAt xs ip + 2 ≤ xs.length →
      Malformed xs dsize (nextAt xs ip) (op + (runAt xs ip).1 + (repAt xs ip).1 + 4) → Malformed xs dsize ip op

theorem lt_offsetAt (xs : Bytes) (ip : Nat) : ip < offsetAt xs ip := by
  rw [offsetAt, literalsAt]
  omega

theorem lt_nextAt (xs : Bytes) (ip : Nat) : ip < nextAt xs ip := by
  have hlt := lt_offsetAt xs ip
  rw [nextAt]
  omega

/-- The payload of a framed stream: as many bytes after the header as it says. -/
def header (src : Bytes) : Nat := readBE (slice src 0 4)

def payload (src : Bytes) : Bytes := slice src 4 (header src)

/-- A framed stream with a header that exceeds what is there, or a malformed
    payload. -/
def MalformedFrame (src : Bytes) (dsize : Nat) : Prop :=
  src.length < 4 + header src ∨ Malformed (payload src) dsize 0 0

end lz4
