import ZfsRescue.Lz4.Format
import ZfsRescue.Lz4zfs

open bytes

namespace zfs_rescue.lz4zfs

/-- Inside the output the source's one-byte slice is the byte it names. -/
theorem pySlice_back {dst : Bytes} {off : Nat} (hpos : 1 ≤ off) (hle : off ≤ dst.length) :
    pySlice dst ((dst.length : Int) - off) ((dst.length : Int) - off + 1) = [dst.getD (dst.length - off) 0] := by
  have hstart : sliceBound dst.length ((dst.length : Int) - off) = dst.length - off := by
    unfold sliceBound
    rw [if_neg (by omega)]
    omega
  have hstop : sliceBound dst.length ((dst.length : Int) - off + 1) = dst.length - off + 1 := by
    unfold sliceBound
    rw [if_neg (by omega)]
    omega
  have hlt : dst.length - off < dst.length := by omega
  rw [pySlice, hstart, hstop, Nat.add_sub_cancel_left, slice, List.drop_eq_getElem_cons hlt,
    List.take_succ_cons, List.take_zero, List.getD_eq_getElem?_getD, List.getElem?_eq_getElem hlt, Option.getD_some]

theorem copy_match_eq {off : Nat} (hpos : 1 ≤ off) (length : Nat) (dst : Bytes) (hle : off ≤ dst.length) :
    copy_match off length dst = lz4.copyMatch off length dst := by
  induction length generalizing dst with
  | zero => rfl
  | succ length ih =>
    rw [copy_match, lz4.copyMatch, pySlice_back hpos hle]
    exact ih _ (by simp only [List.length_append]; omega)

/-- A match only ever adds to the output, whatever its offset. -/
theorem prefix_copy_match (off length : Nat) (dst : Bytes) : dst <+: copy_match off length dst := by
  induction length generalizing dst with
  | zero => exact List.prefix_refl dst
  | succ length ih => exact (List.prefix_append dst _).trans (ih _)

private theorem literal_length_run {src rest : Bytes} {iend ip acc k : Nat} {r : UInt8}
    (hsrc : src.drop ip = List.replicate k 255 ++ r :: rest) (hr : r.toNat < 255) (hin : ip + k < iend) :
    literal_length src iend ip acc 255 = .ok (ip + k + 1, acc + 255 * k + r.toNat) := by
  induction k generalizing ip acc with
  | zero =>
    rw [literal_length, if_pos ⟨hin, rfl⟩, index_of_drop hsrc]
    simp only
    rw [literal_length, if_neg (by omega)]
    simp
  | succ k ih =>
    have hhead : src.drop ip = 255 :: (List.replicate k 255 ++ r :: rest) := by simpa [List.replicate_succ] using hsrc
    rw [literal_length, if_pos ⟨by omega, rfl⟩, index_of_drop hhead]
    have hnext := @ih (ip + 1) (acc + 255) (drop_succ_of_drop hhead) (by omega)
    simp only [show (255 : UInt8).toNat = 255 from rfl, hnext]
    congr 2 <;> omega

private theorem match_length_run {src rest : Bytes} {iend ip acc k : Nat} {r : UInt8}
    (hsrc : src.drop ip = List.replicate k 255 ++ r :: rest) (hr : r.toNat < 255) (hin : ip + k < iend) :
    match_length src iend ip acc = .ok (ip + k + 1, acc + 255 * k + r.toNat) := by
  induction k generalizing ip acc with
  | zero =>
    rw [match_length, if_pos (by omega), index_of_drop hsrc]
    simp only
    rw [if_neg (by omega)]
    simp
  | succ k ih =>
    have hhead : src.drop ip = 255 :: (List.replicate k 255 ++ r :: rest) := by simpa [List.replicate_succ] using hsrc
    rw [match_length, if_pos (by omega), index_of_drop hhead]
    have hnext := @ih (ip + 1) (acc + 255) (drop_succ_of_drop hhead) (by omega)
    simp only [show (255 : UInt8).toNat = 255 from rfl, ↓reduceIte, hnext]
    congr 2 <;> omega

/-- Near the end of the payload the continuation may be cut off: the length is
    then too small and the cursor has reached the bound. -/
private theorem match_length_cut {src rest : Bytes} {ip k : Nat} {r : UInt8} (iend acc : Nat)
    (hsrc : src.drop ip = List.replicate k 255 ++ r :: rest) (hr : r.toNat < 255) :
    ∃ rep, match_length src iend ip acc = .ok rep ∧ rep.2 ≤ acc + 255 * k + r.toNat ∧
      (iend ≤ rep.1 ∨ rep.1 = ip + k + 1) := by
  by_cases hin : ip + k < iend
  · exact ⟨_, match_length_run hsrc hr hin, Nat.le_refl _, .inr rfl⟩
  induction k generalizing ip acc with
  | zero =>
    refine ⟨(ip, acc), ?_, by simp, .inl (by simp only; omega)⟩
    rw [match_length, if_neg (by omega)]
  | succ k ih =>
    by_cases hlive : ip < iend
    · have hhead : src.drop ip = 255 :: (List.replicate k 255 ++ r :: rest) := by
        simpa [List.replicate_succ] using hsrc
      obtain ⟨rep, hrep, hlen, hcursor⟩ := @ih (ip + 1) (acc + 255) (drop_succ_of_drop hhead) (by omega)
      refine ⟨rep, ?_, by omega, by omega⟩
      rw [match_length, if_pos hlive, index_of_drop hhead]
      simp only [show (255 : UInt8).toNat = 255 from rfl, ↓reduceIte, hrep]
    · refine ⟨(ip, acc), ?_, by simp only; omega, .inl (by simp only; omega)⟩
      rw [match_length, if_neg hlive]

private theorem extension_last (n : Nat) : (UInt8.ofNat (n % 255)).toNat = n % 255 := by
  rw [UInt8.toNat_ofNat']
  omega

theorem run_length_encoded {src rest : Bytes} {iend ip n : Nat} (low : Nat)
    (hsrc : src.drop ip = lz4.encodeLength n ++ rest) (hin : ip + (lz4.encodeLength n).length ≤ iend) :
    run_length src iend ip (lz4.token n low).toNat = .ok (ip + (lz4.encodeLength n).length, n) := by
  unfold run_length
  rw [lz4.token_high]
  unfold lz4.encodeLength at hsrc hin ⊢
  by_cases hn : n < 15
  · rw [if_pos hn, if_neg (by simp only [RUN_MASK]; omega), Nat.min_eq_left (by omega)]
    rfl
  · rw [if_neg hn] at hsrc hin ⊢
    rw [if_pos (by simp only [RUN_MASK]; omega), Nat.min_eq_right (by omega)]
    have hsplit : src.drop ip = List.replicate ((n - 15) / 255) 255 ++ UInt8.ofNat ((n - 15) % 255) :: rest := by
      simpa [lz4.extension] using hsrc
    rw [lz4.length_extension] at hin ⊢
    rw [literal_length_run hsplit (by rw [extension_last]; omega) (by omega), extension_last]
    congr 2
    omega

theorem rep_length_encoded {src rest : Bytes} {iend ip literals n : Nat}
    (hsrc : src.drop ip = lz4.encodeLength n ++ rest) (hin : ip + (lz4.encodeLength n).length ≤ iend) :
    rep_length src iend ip (lz4.token literals n).toNat = .ok (ip + (lz4.encodeLength n).length, n) := by
  unfold rep_length
  rw [show ML_MASK = 15 from rfl, lz4.token_low]
  unfold lz4.encodeLength at hsrc hin ⊢
  by_cases hn : n < 15
  · rw [if_pos hn, if_neg (by omega), Nat.min_eq_left (by omega)]
    rfl
  · rw [if_neg hn] at hsrc hin ⊢
    rw [if_pos (by omega), Nat.min_eq_right (by omega)]
    have hsplit : src.drop ip = List.replicate ((n - 15) / 255) 255 ++ UInt8.ofNat ((n - 15) % 255) :: rest := by
      simpa [lz4.extension] using hsrc
    rw [lz4.length_extension] at hin ⊢
    rw [match_length_run hsplit (by rw [extension_last]; omega) (by omega), extension_last]
    congr 2
    omega

theorem rep_length_cut {src rest : Bytes} {ip n : Nat} (iend literals : Nat)
    (hsrc : src.drop ip = lz4.encodeLength n ++ rest) :
    ∃ rep, rep_length src iend ip (lz4.token literals n).toNat = .ok rep ∧ rep.2 ≤ n ∧
      (iend ≤ rep.1 ∨ rep.1 = ip + (lz4.encodeLength n).length) := by
  unfold rep_length
  rw [show ML_MASK = 15 from rfl, lz4.token_low]
  unfold lz4.encodeLength at hsrc ⊢
  by_cases hn : n < 15
  · rw [if_pos hn, if_neg (by omega), Nat.min_eq_left (by omega)]
    exact ⟨(ip, n), rfl, Nat.le_refl _, .inr rfl⟩
  · rw [if_neg hn] at hsrc ⊢
    rw [if_pos (by omega), Nat.min_eq_right (by omega)]
    have hsplit : src.drop ip = List.replicate ((n - 15) / 255) 255 ++ UInt8.ofNat ((n - 15) % 255) :: rest := by
      simpa [lz4.extension] using hsrc
    obtain ⟨rep, hrep, hlen, hcursor⟩ := match_length_cut iend 15 hsplit
      (by rw [extension_last]; omega)
    rw [extension_last] at hlen
    rw [lz4.length_extension]
    exact ⟨rep, hrep, by omega, by omega⟩

end zfs_rescue.lz4zfs
