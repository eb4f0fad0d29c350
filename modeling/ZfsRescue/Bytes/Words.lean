import ZfsRescue.Bytes.Slice

namespace bytes

/-- The number whose little-endian digits in base 256 are the given bytes. -/
def readLE : Bytes → Nat
  | [] => 0
  | b :: bs => b.toNat + 256 * readLE bs

/-- The `k` low base-256 digits of a number, least significant first. -/
def writeLE : Nat → Nat → Bytes
  | 0, _ => []
  | k + 1, n => UInt8.ofNat n :: writeLE k (n / 256)

/-- The number whose big-endian digits in base 256 are the given bytes. -/
def readBE (xs : Bytes) : Nat := readLE xs.reverse

/-- The `k` low base-256 digits of a number, most significant first. -/
def writeBE (k n : Nat) : Bytes := (writeLE k n).reverse

@[simp] theorem length_writeLE (k n : Nat) : (writeLE k n).length = k := by
  induction k generalizing n with
  | zero => rfl
  | succ k ih => simp [writeLE, ih]

@[simp] theorem length_writeBE (k n : Nat) : (writeBE k n).length = k := by
  simp [writeBE]

theorem readLE_lt (xs : Bytes) : readLE xs < 256 ^ xs.length := by
  induction xs with
  | nil => simp [readLE]
  | cons b bs ih =>
    have hb : b.toNat < 256 := b.toNat_lt
    simp only [readLE, List.length_cons, Nat.pow_succ]
    omega

theorem readLE_writeLE {k n : Nat} (h : n < 256 ^ k) : readLE (writeLE k n) = n := by
  induction k generalizing n with
  | zero =>
    have hn : n = 0 := by simpa using h
    simp [hn, writeLE, readLE]
  | succ k ih =>
    have hdiv : n / 256 < 256 ^ k := by
      rw [Nat.div_lt_iff_lt_mul (by decide)]
      simpa [Nat.pow_succ] using h
    simp only [writeLE, readLE, ih hdiv, UInt8.toNat_ofNat']
    omega

theorem readBE_writeBE {k n : Nat} (h : n < 256 ^ k) : readBE (writeBE k n) = n := by
  rw [readBE, writeBE, List.reverse_reverse, readLE_writeLE h]

end bytes
