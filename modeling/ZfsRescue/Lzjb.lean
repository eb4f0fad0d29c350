import ZfsRescue.Python

open bytes

namespace zfs_rescue.lzjb

def BYTE_BITS : Nat := 8
def MATCH_BITS : Nat := 6
def MATCH_MIN : Nat := 3
def OFFSET_MASK : Nat := (1 <<< (16 - MATCH_BITS)) - 1

/-- The local variables of `lzjb_decompress`. The mask `copymask` is `1 << bit`
    and `dpos` is the length of `dst`. -/
structure State where
  pos : Nat
  bit : Fin 8
  copymap : Nat
  dst : Bytes
  deriving DecidableEq, Repr

/-- The copying of one match: byte by byte, so that it may read what it has
    just written, and never past `dlen` bytes of output. -/
def copy_match (dlen : Nat) : Nat → Nat → Bytes → Py Bytes
  | 0, _, dst => .ok dst
  | mlen + 1, cpy, dst =>
    if dst.length < dlen then do
      let b ← index dst cpy
      copy_match dlen mlen (cpy + 1) (dst ++ [b])
    else .ok dst

/-- The match length and offset packed into the two bytes at `pos`. -/
def read_match (src : Bytes) (pos : Nat) : Py (Nat × Nat) := do
  let c0 ← index src pos
  let c1 ← index src (pos + 1)
  .ok ((c0.toNat >>> (BYTE_BITS - MATCH_BITS)) + MATCH_MIN, ((c0.toNat <<< BYTE_BITS) ||| c1.toNat) &&& OFFSET_MASK)

/-- The mask moves on; after the eighth flag the next byte is a new copy map. -/
def next_mask (src : Bytes) (s : State) : Py State :=
  if s.bit = 7 then do
    let c ← index src s.pos
    .ok { s with pos := s.pos + 1, bit := 0, copymap := c.toNat }
  else .ok { s with bit := s.bit + 1 }

/-- One turn of the decoding loop; `none` is the source's `return None`. -/
def step (src : Bytes) (dlen : Nat) (s : State) : Py (Option State) := do
  let s ← next_mask src s
  if s.copymap &&& (1 <<< s.bit.val) ≠ 0 then do
    let m ← read_match src s.pos
    if s.dst.length < m.2 then .ok none
    else do
      let dst ← copy_match dlen m.1 (s.dst.length - m.2) s.dst
      .ok (some { s with pos := s.pos + 2, dst := dst })
  else if s.dst.length < dlen then do
    let c ← index src s.pos
    .ok (some { s with pos := s.pos + 1, dst := s.dst ++ [c] })
  else .ok (some s)

/-- Flags left before the input is used up: every turn of the loop spends one. -/
def State.flagsLeft (src : Bytes) (s : State) : Nat := (src.length - s.pos) * 8 + (7 - s.bit.val)

private theorem next_mask_flagsLeft {src : Bytes} {s s' : State} (hpos : s.pos < src.length)
    (h : next_mask src s = .ok s') : s'.flagsLeft src < s.flagsLeft src := by
  unfold next_mask at h
  split at h
  · next hbit =>
    rw [bind_eq_ok_iff] at h
    obtain ⟨c, _, h⟩ := h
    cases h
    simp only [State.flagsLeft, hbit]
    change (src.length - (s.pos + 1)) * 8 + 7 < (src.length - s.pos) * 8 + 0
    omega
  · next hbit =>
    cases h
    have hval : s.bit.val ≠ 7 := fun heq => hbit (Fin.ext heq)
    have hnext : (s.bit + 1).val = s.bit.val + 1 := by
      have hlt := s.bit.isLt
      rw [Fin.val_add]
      change (s.bit.val + 1) % 8 = s.bit.val + 1
      omega
    simp only [State.flagsLeft, hnext]
    omega

theorem step_flagsLeft {src : Bytes} {dlen : Nat} {s s' : State} (hpos : s.pos < src.length)
    (h : step src dlen s = .ok (some s')) : s'.flagsLeft src < s.flagsLeft src := by
  unfold step at h
  rw [bind_eq_ok_iff] at h
  obtain ⟨t, hmask, h⟩ := h
  have hdecrease := next_mask_flagsLeft hpos hmask
  simp only [State.flagsLeft] at hdecrease ⊢
  split at h
  · rw [bind_eq_ok_iff] at h
    obtain ⟨m, _, h⟩ := h
    split at h
    · cases h
    · rw [bind_eq_ok_iff] at h
      obtain ⟨dst, _, h⟩ := h
      cases h
      simp only
      omega
  · split at h
    · rw [bind_eq_ok_iff] at h
      obtain ⟨c, _, h⟩ := h
      cases h
      simp only
      omega
    · cases h
      omega

/-- The decoding loop. -/
def decompress_loop (src : Bytes) (dlen : Nat) (s : State) : Py (Option Bytes) :=
  if _hpos : s.pos < src.length then
    match _h : step src dlen s with
    | .error e => .error e
    | .ok none => .ok none
    | .ok (some s') => decompress_loop src dlen s'
  else .ok (some s.dst)
termination_by s.flagsLeft src
decreasing_by exact step_flagsLeft _hpos _h

def lzjb_decompress (src : Bytes) (dlen : Nat) : Py (Option Bytes) :=
  decompress_loop src dlen { pos := 0, bit := 7, copymap := 0, dst := [] }

end zfs_rescue.lzjb
