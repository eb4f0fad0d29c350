import ZfsRescue.Lz4.Reader

open bytes lz4

namespace zfs_rescue.de

def COPYLENGTH : Nat := 8

/-- The main loop of `LZ4_uncompress_unknownOutputSize`, with `ip` and `op`
    counted from `source` and from `dest`. What it returns does not depend on
    the bytes it writes, which are left out. -/
def uncompress_loop (source : Bytes) (oend ip op : Nat) : Int :=
  if ip < source.length then
    let cpy := op + (runAt source ip).1
    if oend < cpy + COPYLENGTH ∨ source.length < offsetAt source ip + COPYLENGTH then
      if oend < cpy then -(literalsAt source ip : Int)
      else if offsetAt source ip ≠ source.length then -(literalsAt source ip : Int)
      else cpy
    else if cpy < readLE (slice source (offsetAt source ip) 2) then -(offsetAt source ip + 2 : Int)
    else
      -- the copy steps move `op` and `ref`, and `cpy` is the end of the match
      let cpy' := cpy + (repAt source ip).1 + 4
      if oend < cpy' + COPYLENGTH ∧ (oend < cpy' ∨ cpy' = oend) then -(nextAt source ip : Int)
      else uncompress_loop source oend (nextAt source ip) cpy'
  else op
termination_by source.length - ip
decreasing_by
  have := lt_nextAt source ip
  omega

/-- `LZ4_uncompress_unknownOutputSize(source, dest, isize, maxOutputSize)`, for
    sizes that fit an `int`. -/
def LZ4_uncompress_unknownOutputSize (source : Bytes) (maxOutputSize : Nat) : Int :=
  uncompress_loop source maxOutputSize 0 0

/-- `lz4_decompress_zfs(s_start, d_start, s_len, d_len, n)`: 0 on success. -/
def lz4_decompress_zfs (src : Bytes) (d_len : Nat) : Int :=
  if header src + 4 > src.length then 1
  else if LZ4_uncompress_unknownOutputSize (payload src) d_len < 0 then 1
  else 0

section Rejects

variable {source : Bytes} {oend ip op : Nat}

/-- The first check of a turn fails, whichever way. -/
private theorem uncompress_loop_literals (hlive : ip < source.length)
    (h : oend < op + (runAt source ip).1 ∨ source.length < offsetAt source ip) :
    uncompress_loop source oend ip op < 0 := by
  have hpos : 0 < literalsAt source ip := by
    rw [literalsAt]
    omega
  rw [uncompress_loop, if_pos hlive]
  dsimp only
  rw [if_pos (by simp only [COPYLENGTH]; omega)]
  split
  · omega
  · rw [if_pos (by omega)]
    omega

/-- A turn that has room for an offset fails or goes on with the offset. -/
private theorem uncompress_loop_offset (hlive : ip < source.length) (hroom : offsetAt source ip + 2 ≤ source.length) :
    uncompress_loop source oend ip op < 0 ∨
      (readLE (slice source (offsetAt source ip) 2) ≤ op + (runAt source ip).1 ∧
        op + (runAt source ip).1 + (repAt source ip).1 + 4 ≤ oend ∧
        uncompress_loop source oend ip op =
          uncompress_loop source oend (nextAt source ip) (op + (runAt source ip).1 + (repAt source ip).1 + 4)) := by
  have hpos : 0 < literalsAt source ip := by
    rw [literalsAt]
    omega
  have hnext := lt_nextAt source ip
  generalize hres : uncompress_loop source oend ip op = res
  rw [uncompress_loop, if_pos hlive] at hres
  dsimp only at hres
  split at hres
  · left
    split at hres
    · omega
    · rw [if_pos (by omega)] at hres
      omega
  · split at hres
    · left
      omega
    · split at hres
      · left
        omega
      · right
        simp only [COPYLENGTH] at *
        exact ⟨by omega, by omega, hres.symm⟩

/-- What is malformed is refused. -/
theorem uncompress_loop_of_malformed (h : Malformed source oend ip op) : uncompress_loop source oend ip op < 0 := by
  induction h with
  | literals_past_end hlive hpast => exact uncompress_loop_literals hlive (.inr hpast)
  | literals_past_output hlive hpast => exact uncompress_loop_literals hlive (.inl hpast)
  | offset_before_start hlive hroom hbefore =>
    rcases uncompress_loop_offset hlive hroom with hneg | ⟨hoff, _, _⟩
    · exact hneg
    · exact absurd hoff (Nat.not_le.mpr hbefore)
  | match_past_output hlive hroom hpast =>
    rcases uncompress_loop_offset hlive hroom with hneg | ⟨_, hout, _⟩
    · exact hneg
    · exact absurd hout (Nat.not_le.mpr hpast)
  | later hlive hroom _ ih =>
    rcases uncompress_loop_offset hlive hroom with hneg | ⟨_, _, hloop⟩
    · exact hneg
    · rw [hloop]
      exact ih

end Rejects

/-- The reference decoder refuses every malformed stream. -/
theorem lz4_decompress_zfs_of_malformed {src : Bytes} {d_len : Nat} (h : MalformedFrame src d_len) :
    lz4_decompress_zfs src d_len = 1 := by
  rw [lz4_decompress_zfs]
  rcases h with hheader | hpayload
  · rw [if_pos (by omega)]
  · have hneg : LZ4_uncompress_unknownOutputSize (payload src) d_len < 0 := uncompress_loop_of_malformed hpayload
    rw [if_pos hneg]
    split <;> rfl

end zfs_rescue.de
