import ZfsRescue.Bytes.Words

open bytes

namespace lz4

/-- One sequence of a compressed block: literals, then a match that copies
    `matchLength` bytes from `offset` bytes back in the output. -/
structure Sequence where
  literals : Bytes
  offset : Nat
  matchLength : Nat
  deriving DecidableEq, Repr

/-- The output after a match. The copy may read bytes it has just written. -/
def copyMatch (offset : Nat) : Nat → Bytes → Bytes
  | 0, out => out
  | n + 1, out => copyMatch offset n (out ++ [out.getD (out.length - offset) 0])

@[simp] theorem length_copyMatch (offset n : Nat) (out : Bytes) :
    (copyMatch offset n out).length = out.length + n := by
  induction n generalizing out with
  | zero => rfl
  | succ n ih =>
    rw [copyMatch, ih, List.length_append, List.length_singleton]
    omega

/-- The output after a sequence. -/
def Sequence.apply (s : Sequence) (out : Bytes) : Bytes := copyMatch s.offset s.matchLength (out ++ s.literals)

theorem Sequence.length_apply (s : Sequence) (out : Bytes) :
    (s.apply out).length = out.length + s.literals.length + s.matchLength := by
  simp [Sequence.apply]

/-- A match is at least four bytes long and starts inside the output so far. -/
def Sequence.ValidAt (s : Sequence) (out : Bytes) : Prop :=
  4 ≤ s.matchLength ∧ 1 ≤ s.offset ∧ s.offset ≤ (out ++ s.literals).length ∧ s.offset < 65536

/-- Every sequence is valid at the output of those before it. -/
def ValidFrom : Bytes → List Sequence → Prop
  | _, [] => True
  | out, s :: rest => s.ValidAt out ∧ ValidFrom (s.apply out) rest

/-- The output of a run of sequences. -/
def expandFrom : Bytes → List Sequence → Bytes
  | out, [] => out
  | out, s :: rest => expandFrom (s.apply out) rest

/-- The continuation bytes of a length: 255 as often as it fits, then the rest. -/
def extension (n : Nat) : Bytes := List.replicate (n / 255) 255 ++ [UInt8.ofNat (n % 255)]

/-- What follows the token for a length: nothing while it fits the nibble. -/
def encodeLength (n : Nat) : Bytes := if n < 15 then [] else extension (n - 15)

/-- The token: the literal length in the high nibble, the other one in the low. -/
def token (literals low : Nat) : UInt8 := UInt8.ofNat (min literals 15 * 16 + min low 15)

def Sequence.encode (s : Sequence) : Bytes :=
  token s.literals.length (s.matchLength - 4) :: (encodeLength s.literals.length ++ s.literals ++
    writeLE 2 s.offset ++ encodeLength (s.matchLength - 4))

/-- A compressed block: sequences, and a last one of at least one literal and
    no match, whose token may carry anything in its low nibble. -/
structure Block where
  sequences : List Sequence
  last : Bytes
  nibble : Fin 16
  valid : ValidFrom [] sequences
  last_ne_nil : last ≠ []

/-- The last sequence as bytes. -/
def Block.encodeLast (b : Block) : Bytes :=
  token b.last.length b.nibble.val :: (encodeLength b.last.length ++ b.last)

def Block.encode (b : Block) : Bytes := b.sequences.flatMap Sequence.encode ++ b.encodeLast

def Block.expand (b : Block) : Bytes := expandFrom [] b.sequences ++ b.last

theorem length_extension (n : Nat) : (extension n).length = n / 255 + 1 := by
  simp [extension]

theorem token_high (literals low : Nat) : (token literals low).toNat >>> 4 = min literals 15 := by
  rw [token, UInt8.toNat_ofNat', Nat.shiftRight_eq_div_pow]
  omega

theorem token_low (literals low : Nat) : (token literals low).toNat &&& 15 = min low 15 := by
  rw [token, UInt8.toNat_ofNat', Nat.and_two_pow_sub_one_eq_mod _ 4]
  omega

theorem Sequence.three_le_length_encode (s : Sequence) : 3 ≤ s.encode.length := by
  simp only [Sequence.encode, List.length_cons, List.length_append, length_writeLE]
  omega

theorem Block.length_encodeLast (b : Block) :
    b.encodeLast.length = 1 + (encodeLength b.last.length).length + b.last.length := by
  simp only [Block.encodeLast, List.length_cons, List.length_append]
  omega

/-- The last sequence is longer than four bytes from four literals on. -/
theorem Block.five_le_length_encodeLast_iff (b : Block) : 5 ≤ b.encodeLast.length ↔ 4 ≤ b.last.length := by
  rw [Block.length_encodeLast, encodeLength]
  split
  · simp only [List.length_nil]
    omega
  · omega

theorem expandFrom_append (out : Bytes) (xs ys : List Sequence) :
    expandFrom out (xs ++ ys) = expandFrom (expandFrom out xs) ys := by
  induction xs generalizing out with
  | nil => rfl
  | cons s xs ih => exact ih _

theorem validFrom_append {out : Bytes} {xs ys : List Sequence} (h : ValidFrom out (xs ++ ys)) :
    ValidFrom out xs ∧ ValidFrom (expandFrom out xs) ys := by
  induction xs generalizing out with
  | nil => exact ⟨trivial, h⟩
  | cons s xs ih =>
    obtain ⟨hs, hrest⟩ := h
    obtain ⟨hxs, hys⟩ := ih hrest
    exact ⟨⟨hs, hxs⟩, hys⟩

end lz4
