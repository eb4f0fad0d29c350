import ZfsRescue.Blockptr

open bytes

namespace zfs_rescue.blockptr

/-- Four running sums of the format, each an unsigned 64-bit integer. -/
abbrev Accumulators := UInt64 × UInt64 × UInt64 × UInt64

/-- The sums after one more word; every addition wraps. -/
def wrapping_step (sums : Accumulators) (w : UInt64) : Accumulators :=
  let a := sums.1 + w
  let b := sums.2.1 + a
  let c := sums.2.2.1 + b
  let d := sums.2.2.2 + c
  (a, b, c, d)

/-- The data with zeros after it, up to a whole number of words. -/
def padded (data : Bytes) : Bytes := data ++ List.replicate ((4 - data.length % 4) % 4) 0

/-- The checksum of the format. -/
def format_checksum (data : Bytes) : Accumulators :=
  ((words32 (padded data)).map UInt64.ofNat).foldl wrapping_step (0, 0, 0, 0)

def Accumulators.toNat (sums : Accumulators) : Nat × Nat × Nat × Nat :=
  (sums.1.toNat, sums.2.1.toNat, sums.2.2.1.toNat, sums.2.2.2.toNat)

/-- Unbounded sums, each modulo `2 ^ 64`. -/
def wrap (sums : Nat × Nat × Nat × Nat) : Accumulators :=
  (UInt64.ofNat sums.1, UInt64.ofNat sums.2.1, UInt64.ofNat sums.2.2.1, UInt64.ofNat sums.2.2.2)

theorem toNat_wrap (sums : Nat × Nat × Nat × Nat) :
    Accumulators.toNat (wrap sums) =
      (sums.1 &&& 0xffffffffffffffff, sums.2.1 &&& 0xffffffffffffffff,
        sums.2.2.1 &&& 0xffffffffffffffff, sums.2.2.2 &&& 0xffffffffffffffff) := by
  have hmask : ∀ n : Nat, (UInt64.ofNat n).toNat = n &&& 0xffffffffffffffff := by
    intro n
    rw [UInt64.toNat_ofNat']
    exact (Nat.and_two_pow_sub_one_eq_mod n 64).symm
  simp only [Accumulators.toNat, wrap, hmask]

/-- One word added without a bound and then wrapped is the word added to the
    wrapped sums. -/
theorem wrap_step (sums : Nat × Nat × Nat × Nat) (v : Nat) :
    wrap (fletcher4_step sums v) = wrapping_step (wrap sums) (UInt64.ofNat v) := by
  simp only [wrap, fletcher4_step, wrapping_step, UInt64.ofNat_add]

/-- All four sums stay congruent, however many words are added. -/
theorem wrap_foldl (words : List Nat) (sums : Nat × Nat × Nat × Nat) :
    wrap (words.foldl fletcher4_step sums) = (words.map UInt64.ofNat).foldl wrapping_step (wrap sums) := by
  induction words generalizing sums with
  | nil => rfl
  | cons v words ih => rw [List.foldl_cons, List.map_cons, List.foldl_cons, ih, wrap_step]

theorem padded_of_dvd {data : Bytes} (h : 4 ∣ data.length) : padded data = data := by
  have hnone : (4 - data.length % 4) % 4 = 0 := by omega
  rw [padded, hnone, List.replicate_zero, List.append_nil]

theorem dvd_length_padded (data : Bytes) : 4 ∣ (padded data).length := by
  rw [padded, List.length_append, List.length_replicate]
  omega

/-- With the data padded beforehand, masking once at the end gives the checksum
    of the format. -/
theorem fletcher4_padded (data : Bytes) :
    fletcher4 (padded data) = .ok (Accumulators.toNat (format_checksum data)) := by
  have hzero : wrap (0, 0, 0, 0) = (0, 0, 0, 0) := rfl
  rw [fletcher4_of_dvd (dvd_length_padded data), format_checksum, ← hzero, ← wrap_foldl, toNat_wrap, fletcher4_sums]

theorem fletcher4_of_not_dvd {data : Bytes} (h : ¬4 ∣ data.length) : fletcher4 data = .error .TypeError := by
  have hmod : (4 - data.length % 4) % 4 > 0 := by omega
  simp [fletcher4, hmod]

/-- The code computes the checksum of the format for data of whole words, and
    for no other. -/
theorem fletcher4_eq_format_iff (data : Bytes) :
    fletcher4 data = .ok (Accumulators.toNat (format_checksum data)) ↔ 4 ∣ data.length := by
  constructor
  · intro heq
    by_contra hdvd
    rw [fletcher4_of_not_dvd hdvd] at heq
    cases heq
  · intro hdvd
    rw [← fletcher4_padded, padded_of_dvd hdvd]

/-- A single byte has a checksum, and hashing it raises an exception. -/
theorem fletcher4_refuses_byte :
    Accumulators.toNat (format_checksum [1]) = (1, 1, 1, 1) ∧ fletcher4 [1] = .error .TypeError ∧
      fletcher4 [1] ≠ .ok (Accumulators.toNat (format_checksum [1])) := by
  decide

end zfs_rescue.blockptr
