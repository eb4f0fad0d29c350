import ZfsRescue.Python

open bytes

namespace zfs_rescue.lz4zfs

def RUN_MASK : Nat := 0xf
def ML_MASK : Nat := 0xf

/-- The continuation bytes of a literal length: read while they are 255 and
    the cursor is before `iend`. Returns the cursor and the length. -/
def literal_length (src : Bytes) (iend ip length s : Nat) : Py (Nat × Nat) :=
  if ip < iend ∧ s = 255 then
    match index src ip with
    | .error e => .error e
    | .ok b => literal_length src iend (ip + 1) (length + b.toNat) b.toNat
  else .ok (ip, length)
termination_by iend - ip

/-- The continuation bytes of a match length. -/
def match_length (src : Bytes) (iend ip length : Nat) : Py (Nat × Nat) :=
  if ip < iend then
    match index src ip with
    | .error e => .error e
    | .ok b =>
      if b.toNat = 255 then match_length src iend (ip + 1) (length + b.toNat)
      else .ok (ip + 1, length + b.toNat)
  else .ok (ip, length)
termination_by iend - ip

/-- `length` turns of `dst += dst[len(dst)-off:len(dst)-off+1]`. -/
def copy_match (off : Nat) : Nat → Bytes → Bytes
  | 0, dst => dst
  | length + 1, dst =>
    copy_match off length (dst ++ pySlice dst ((dst.length : Int) - off) ((dst.length : Int) - off + 1))

/-- The literal run that a token starts: the cursor after its length, and the length. -/
def run_length (src : Bytes) (iend ip token : Nat) : Py (Nat × Nat) :=
  if token >>> 4 = RUN_MASK then literal_length src iend ip (token >>> 4) 255 else .ok (ip, token >>> 4)

/-- The match length of a token, still without the minimum of four. -/
def rep_length (src : Bytes) (iend ip token : Nat) : Py (Nat × Nat) :=
  if token &&& ML_MASK = ML_MASK then match_length src iend ip (token &&& ML_MASK) else .ok (ip, token &&& ML_MASK)

/-- One turn of the decoding loop: from the cursor and the output so far to
    the next ones. -/
def step (src : Bytes) (iend ip : Nat) (dst : Bytes) : Py (Nat × Bytes) := do
  let token ← index src ip
  let run ← run_length src iend (ip + 1) token.toNat
  let off ← unpackLE 2 (slice src (run.1 + run.2) 2)
  let rep ← rep_length src iend (run.1 + run.2 + 2) token.toNat
  .ok (rep.1, copy_match off (rep.2 + 4) (dst ++ slice src run.1 run.2))

theorem literal_length_advances {src : Bytes} {iend ip length s : Nat} {run : Nat × Nat}
    (h : literal_length src iend ip length s = .ok run) : ip ≤ run.1 := by
  induction ip, length, s using literal_length.induct src iend with
  | case1 ip length s hlive e hindex =>
    rw [literal_length, if_pos hlive, hindex] at h
    cases h
  | case2 ip length s hlive b hindex ih =>
    rw [literal_length, if_pos hlive, hindex] at h
    have := ih h
    omega
  | case3 ip length s hlive =>
    rw [literal_length, if_neg hlive] at h
    cases h
    exact Nat.le_refl _

theorem match_length_advances {src : Bytes} {iend ip length : Nat} {rep : Nat × Nat}
    (h : match_length src iend ip length = .ok rep) : ip ≤ rep.1 := by
  induction ip, length using match_length.induct src iend with
  | case1 ip length hlive e hindex =>
    rw [match_length, if_pos hlive, hindex] at h
    cases h
  | case2 ip length hlive b hindex hmore ih =>
    rw [match_length, if_pos hlive, hindex] at h
    simp only [if_pos hmore] at h
    have := ih h
    omega
  | case3 ip length hlive b hindex hlast =>
    rw [match_length, if_pos hlive, hindex] at h
    simp only [if_neg hlast] at h
    cases h
    exact Nat.le_succ _
  | case4 ip length hlive =>
    rw [match_length, if_neg hlive] at h
    cases h
    exact Nat.le_refl _

theorem run_length_advances {src : Bytes} {iend ip token : Nat} {run : Nat × Nat}
    (h : run_length src iend ip token = .ok run) : ip ≤ run.1 := by
  unfold run_length at h
  split at h
  · exact literal_length_advances h
  · cases h
    exact Nat.le_refl _

theorem rep_length_advances {src : Bytes} {iend ip token : Nat} {rep : Nat × Nat}
    (h : rep_length src iend ip token = .ok rep) : ip ≤ rep.1 := by
  unfold rep_length at h
  split at h
  · exact match_length_advances h
  · cases h
    exact Nat.le_refl _

/-- Every turn of the loop consumes at least the token and the offset. -/
theorem step_advances {src : Bytes} {iend ip : Nat} {dst : Bytes} {next : Nat × Bytes}
    (h : step src iend ip dst = .ok next) : ip + 3 ≤ next.1 := by
  unfold step at h
  simp only [bind_eq_ok_iff] at h
  obtain ⟨token, _, run, hrun, off, _, rep, hrep, hnext⟩ := h
  cases hnext
  have hrunle := run_length_advances hrun
  have hreple := rep_length_advances hrep
  change ip + 3 ≤ rep.1
  omega

/-- The decoding loop from a cursor and the output so far. -/
def decompress_loop (src : Bytes) (iend ip : Nat) (dst : Bytes) : Py Bytes :=
  if ip < iend then
    match _h : step src iend ip dst with
    | .error e => .error e
    | .ok next => decompress_loop src iend next.1 next.2
  else .ok dst
termination_by iend - ip
decreasing_by
  have := step_advances _h
  omega

/-- `lz4zfs_decompress(src, dsize)`: the header is read outside the `try`, and
    every exception inside it becomes `None`. The size asked for is not used. -/
def lz4zfs_decompress (src : Bytes) (_dsize : Nat) : Py (Option Bytes) := do
  let iend ← unpackBE 4 (slice src 0 4)
  match decompress_loop src iend 4 [] with
  | .ok dst => .ok (some dst)
  | .error _ => .ok none

end zfs_rescue.lz4zfs
