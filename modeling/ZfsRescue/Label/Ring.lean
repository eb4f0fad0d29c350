import ZfsRescue.Label

open bytes
open zfs_rescue.blockptr zfs_rescue.nvpair zfs_rescue.uberblock

namespace zfs_rescue.extractor.vdev_impl

def UBERBLOCK_SHIFT : Nat := 10

/-- The largest uberblock is 8 KiB. -/
def MAX_UBERBLOCK_SHIFT : Nat := 13

def VDEV_UBERBLOCK_RING : Nat := 128 <<< 10

def VDEV_UBERBLOCK_SHIFT (vdev_ashift : Nat) : Nat := min (max vdev_ashift UBERBLOCK_SHIFT) MAX_UBERBLOCK_SHIFT

def VDEV_UBERBLOCK_COUNT (vdev_ashift : Nat) : Nat := VDEV_UBERBLOCK_RING >>> VDEV_UBERBLOCK_SHIFT vdev_ashift

def VDEV_UBERBLOCK_SIZE (vdev_ashift : Nat) : Nat := 1 <<< VDEV_UBERBLOCK_SHIFT vdev_ashift

/-- The bytes of slot `n`, by its offset in the ring. -/
def vl_uberblock (vdev_ashift : Nat) (ring : Bytes) (n : Nat) : Bytes :=
  slice ring (n <<< VDEV_UBERBLOCK_SHIFT vdev_ashift) (VDEV_UBERBLOCK_SIZE vdev_ashift)

end zfs_rescue.extractor.vdev_impl

namespace zfs_rescue.label

open zfs_rescue.extractor.vdev_impl

/-- The uberblock in slot `n`, which is valid or whatever other bytes make of one. -/
def slot (ashift : Nat) (ring : Bytes) (n : Nat) : Uberblock := Uberblock.of_bytes (vl_uberblock ashift ring n)

/-- A label finds the newest uberblock of its ring, and every transaction group
    that a slot holds. -/
def FindsNewest (ashift txg : Nat) (ring : Bytes) : Prop :=
  ∃ ubarray, UBArray.parse ring ashift = .ok ubarray ∧
    ∀ label : Label, label.ubarray = ubarray → label.nvlist.lookup "txg" = some (.uint txg) →
      (∃ found, label.find_active_ub = .ok found ∧
        (found = none ↔ ∀ n < VDEV_UBERBLOCK_COUNT ashift, ¬ Candidate txg (slot ashift ring n)) ∧
        ∀ ub, found = some ub →
          (∃ n < VDEV_UBERBLOCK_COUNT ashift, ub = slot ashift ring n) ∧ Candidate txg ub ∧
            ∀ n < VDEV_UBERBLOCK_COUNT ashift, Candidate txg (slot ashift ring n) → (slot ashift ring n).txg ≤ ub.txg) ∧
      ∀ n < VDEV_UBERBLOCK_COUNT ashift, (slot ashift ring n).valid = true →
        ∃ ub, label.find_ub_txg (slot ashift ring n).txg = some ub ∧ ub.valid = true ∧
          ub.txg = (slot ashift ring n).txg

/-- Every transaction group in the ring is also in one of the slots that the
    label looks at when its sectors are larger than a slot. -/
def Sliced (ashift : Nat) (ring : Bytes) : Prop :=
  ∀ n < VDEV_UBERBLOCK_COUNT ashift, (slot ashift ring n).valid = true →
    ∃ i, i * 2 ^ (ashift - MAX_UBERBLOCK_SHIFT) < VDEV_UBERBLOCK_COUNT ashift ∧
      (slot ashift ring (i * 2 ^ (ashift - MAX_UBERBLOCK_SHIFT))).valid = true ∧
      (slot ashift ring (i * 2 ^ (ashift - MAX_UBERBLOCK_SHIFT))).txg = (slot ashift ring n).txg

section Ring

variable {ashift : Nat} {ring : Bytes}

theorem ublock_shift_eq (ashift : Nat) :
    ublock_shift ashift = ashift - MAX_UBERBLOCK_SHIFT + VDEV_UBERBLOCK_SHIFT ashift := by
  rw [ublock_shift, VDEV_UBERBLOCK_SHIFT, UBERBLOCK_SHIFT, MAX_UBERBLOCK_SHIFT]
  omega

/-- A block of the array is the slot where it starts. -/
theorem block_eq_slot (ashift : Nat) (ring : Bytes) (i : Nat) :
    Uberblock.of_bytes (slice ring (i * (1 <<< ublock_shift ashift)) (1 <<< ublock_shift ashift)) =
      slot ashift ring (i * 2 ^ (ashift - MAX_UBERBLOCK_SHIFT)) := by
  have hstart : i * (1 <<< ublock_shift ashift) =
      (i * 2 ^ (ashift - MAX_UBERBLOCK_SHIFT)) <<< VDEV_UBERBLOCK_SHIFT ashift := by
    rw [ublock_shift_eq, Nat.one_shiftLeft, Nat.shiftLeft_eq, Nat.pow_add, Nat.mul_assoc]
  have hblock : 2 ^ 10 ≤ 1 <<< ublock_shift ashift := by
    rw [Nat.one_shiftLeft]
    exact Nat.pow_le_pow_right (by omega) (Nat.le_max_right _ _)
  have hsize : 2 ^ 10 ≤ VDEV_UBERBLOCK_SIZE ashift := by
    rw [VDEV_UBERBLOCK_SIZE, Nat.one_shiftLeft]
    refine Nat.pow_le_pow_right (by omega) ?_
    rw [VDEV_UBERBLOCK_SHIFT, UBERBLOCK_SHIFT, MAX_UBERBLOCK_SHIFT]
    omega
  rw [hstart, slot, vl_uberblock]
  exact Uberblock.of_bytes_slice ring (by omega) (by omega)

theorem lt_count_iff (hashift : ashift ≤ 16) (i : Nat) :
    i < VDEV_UBERBLOCK_RING >>> ublock_shift ashift ↔
      i * 2 ^ (ashift - MAX_UBERBLOCK_SHIFT) < VDEV_UBERBLOCK_COUNT ashift := by
  have hle : ublock_shift ashift ≤ 17 := by
    rw [ublock_shift]
    omega
  have hring : VDEV_UBERBLOCK_RING = 2 ^ 17 := rfl
  have hsplit := ublock_shift_eq ashift
  have hcount : VDEV_UBERBLOCK_COUNT ashift = 2 ^ (17 - ublock_shift ashift) * 2 ^ (ashift - MAX_UBERBLOCK_SHIFT) := by
    rw [VDEV_UBERBLOCK_COUNT, hring, Nat.shiftRight_eq_div_pow, Nat.pow_div (by omega) (by omega), ← Nat.pow_add]
    congr 1
    omega
  rw [hcount, hring, Nat.shiftRight_eq_div_pow, Nat.pow_div hle (by omega)]
  exact (Nat.mul_lt_mul_right (Nat.two_pow_pos _)).symm

/-- The blocks of the array are the slots at every multiple of the stride. -/
theorem exists_ubarray (hring : ring.length = VDEV_UBERBLOCK_RING) (hashift : ashift ≤ 16) :
    ∃ ubarray, UBArray.parse ring ashift = .ok ubarray ∧
      ∀ ub, ub ∈ ubarray ↔ ∃ i, i * 2 ^ (ashift - MAX_UBERBLOCK_SHIFT) < VDEV_UBERBLOCK_COUNT ashift ∧
        ub = slot ashift ring (i * 2 ^ (ashift - MAX_UBERBLOCK_SHIFT)) := by
  refine ⟨_, UBArray.parse_eq ring ashift, fun ub => ?_⟩
  simp only [List.mem_map, List.mem_range, hring, lt_count_iff hashift, block_eq_slot]
  exact exists_congr fun i => and_congr_right fun _ => eq_comm

theorem findsNewest_of_sliced {txg : Nat} (hring : ring.length = VDEV_UBERBLOCK_RING) (hashift : ashift ≤ 16)
    (hsliced : Sliced ashift ring) : FindsNewest ashift txg ring := by
  obtain ⟨ubarray, hparse, hmem⟩ := exists_ubarray hring hashift
  refine ⟨ubarray, hparse, fun label hubarray htxg => ?_⟩
  have hslot : ∀ n < VDEV_UBERBLOCK_COUNT ashift, (slot ashift ring n).valid = true →
      ∃ ub ∈ ubarray, ub.valid = true ∧ ub.txg = (slot ashift ring n).txg := by
    intro n hn hvalid
    obtain ⟨i, hi, hvalid', heq⟩ := hsliced n hn hvalid
    exact ⟨_, (hmem _).mpr ⟨i, hi, rfl⟩, hvalid', heq⟩
  obtain ⟨hnone, hsome⟩ := active_ub_spec ubarray txg
  constructor
  · refine ⟨active_ub ubarray txg, by rw [Label.find_active_ub, htxg, hubarray], ?_, ?_⟩
    · rw [hnone]
      constructor
      · intro h n hn hcandidate
        obtain ⟨ub, hub, hvalid, heq⟩ := hslot n hn hcandidate.1
        exact h ub hub ⟨hvalid, heq ▸ hcandidate.2⟩
      · intro h ub hub
        obtain ⟨i, hi, rfl⟩ := (hmem ub).mp hub
        exact h _ hi
    · intro ub hfound
      obtain ⟨hub, hcandidate, hmax⟩ := hsome ub hfound
      obtain ⟨i, hi, heq⟩ := (hmem ub).mp hub
      refine ⟨⟨_, hi, heq⟩, hcandidate, fun n hn hn' => ?_⟩
      obtain ⟨other, hother, hvalid, htxg'⟩ := hslot n hn hn'.1
      exact htxg' ▸ hmax other hother hvalid
  · intro n hn hvalid
    obtain ⟨ub, hub, hvalid', heq⟩ := hslot n hn hvalid
    obtain ⟨found, hfound⟩ := UBArray.exists_find_block_by_txg hub hvalid'
    rw [heq] at hfound
    obtain ⟨-, hfound'⟩ := UBArray.find_block_by_txg_eq_some hfound
    exact ⟨found, by rw [Label.find_ub_txg, hubarray, hfound], hfound'⟩

theorem sliced_of_findsNewest {txg : Nat} (hring : ring.length = VDEV_UBERBLOCK_RING) (hashift : ashift ≤ 16)
    (h : FindsNewest ashift txg ring) : Sliced ashift ring := by
  obtain ⟨ubarray, hparse, hmem⟩ := exists_ubarray hring hashift
  obtain ⟨ubarray', hparse', hlabel⟩ := h
  rw [hparse] at hparse'
  cases hparse'
  intro n hn hvalid
  have hlookup : List.lookup "txg" [("txg", Value.uint txg)] = some (.uint txg) := rfl
  obtain ⟨ub, hfound, -, -⟩ := (hlabel ⟨[("txg", .uint txg)], ashift, ubarray⟩ rfl hlookup).2 n hn hvalid
  obtain ⟨hub, hvalid', heq⟩ := UBArray.find_block_by_txg_eq_some hfound
  obtain ⟨i, hi, rfl⟩ := (hmem ub).mp hub
  exact ⟨i, hi, hvalid', heq⟩

/-- The newest uberblock is found whenever the slots are as large as the code
    takes them, and for larger sectors when the slots it passes over hold no
    transaction group that the others do not. -/
theorem findsNewest_iff (txg : Nat) (hring : ring.length = VDEV_UBERBLOCK_RING) (hashift : ashift ≤ 16) :
    FindsNewest ashift txg ring ↔ ashift ≤ MAX_UBERBLOCK_SHIFT ∨ Sliced ashift ring := by
  constructor
  · exact fun h => .inr (sliced_of_findsNewest hring hashift h)
  · rintro (hle | hsliced)
    · refine findsNewest_of_sliced hring hashift fun n hn hvalid => ⟨n, ?_⟩
      rw [Nat.sub_eq_zero_of_le hle, Nat.pow_zero, Nat.mul_one]
      exact ⟨hn, hvalid, rfl⟩
    · exact findsNewest_of_sliced hring hashift hsliced

end Ring

/-- A ring with one uberblock, of transaction group 7, in its second slot. -/
def second_slot_ring : Bytes :=
  List.replicate 8192 0 ++ (encode_words [UBLOCK_MAGIC, 5000, 7, 0, 0] ++ List.replicate 122840 0)

theorem length_second_slot_ring : second_slot_ring.length = VDEV_UBERBLOCK_RING := by
  simp only [second_slot_ring, List.length_append, List.length_replicate, length_encode_words]
  rfl

/-- With sectors of 8 KiB that uberblock is found. -/
theorem findsNewest_second_slot : FindsNewest 13 5 second_slot_ring :=
  (findsNewest_iff 5 length_second_slot_ring (by decide)).mpr (.inl (by decide))

private theorem slice_zeros {n off len : Nat} (h : off + len ≤ n) :
    slice (List.replicate n (0 : UInt8)) off len = List.replicate len 0 := by
  rw [slice, List.drop_replicate, List.take_replicate, Nat.min_eq_left (by omega)]

/-- With sectors of 16 KiB it is passed over. -/
theorem not_findsNewest_second_slot : ¬ FindsNewest 14 5 second_slot_ring := by
  intro h
  have hsize : VDEV_UBERBLOCK_SIZE 14 = 8192 := rfl
  have hword : ∀ i, i < 5 → qword (vl_uberblock 14 second_slot_ring 1) i =
      readLE (slice (encode_words [UBLOCK_MAGIC, 5000, 7, 0, 0]) (8 * i) 8) := by
    intro i hi
    have hroom : 8 * i + 8 ≤ (encode_words [UBLOCK_MAGIC, 5000, 7, 0, 0]).length := by
      simp only [length_encode_words, List.length_cons, List.length_nil]
      omega
    have hright := slice_append_right (List.replicate 8192 (0 : UInt8))
      (encode_words [UBLOCK_MAGIC, 5000, 7, 0, 0] ++ List.replicate 122840 0) (8 * i) 8
    rw [List.length_replicate] at hright
    have hstart : 1 <<< VDEV_UBERBLOCK_SHIFT 14 = 8192 := rfl
    rw [vl_uberblock, hsize, qword_slice _ (by omega), hstart, second_slot_ring, hright, slice_append_of_le hroom]
  have hvalid : (slot 14 second_slot_ring 1).valid = true := by
    simp only [slot, Uberblock.of_bytes, hword 0 (by omega)]
    decide
  obtain ⟨i, hi, hvalid', -⟩ := sliced_of_findsNewest length_second_slot_ring (by decide) h 1 (by decide) hvalid
  have hi' : i * 2 < 16 := hi
  have hzero : slice second_slot_ring (i * 2 * 8192) 8 = List.replicate 8 0 := by
    by_cases hfirst : i = 0
    · subst hfirst
      rw [second_slot_ring, slice_append_of_le (by rw [List.length_replicate]; omega)]
      exact slice_zeros (by omega)
    · have hoff : i * 2 * 8192 = 8192 + (40 + (i * 2 * 8192 - 8232)) := by omega
      have hright := slice_append_right (List.replicate 8192 (0 : UInt8))
        (encode_words [UBLOCK_MAGIC, 5000, 7, 0, 0] ++ List.replicate 122840 0) (40 + (i * 2 * 8192 - 8232)) 8
      rw [List.length_replicate] at hright
      have hbehind := slice_append_right (encode_words [UBLOCK_MAGIC, 5000, 7, 0, 0]) (List.replicate 122840 (0 : UInt8))
        (i * 2 * 8192 - 8232) 8
      rw [length_encode_words] at hbehind
      rw [hoff, second_slot_ring, hright]
      exact hbehind.trans (slice_zeros (by omega))
  have hmagic : qword (vl_uberblock 14 second_slot_ring (i * 2)) 0 = 0 := by
    have hstart : (i * 2) <<< VDEV_UBERBLOCK_SHIFT 14 = i * 2 * 8192 := Nat.shiftLeft_eq _ _
    rw [vl_uberblock, hsize, qword_slice _ (by omega), hstart, Nat.mul_zero, Nat.add_zero, hzero]
    rfl
  have hinvalid : (slot 14 second_slot_ring (i * 2)).valid = false := by
    simp only [slot, Uberblock.of_bytes, hmagic]
    rfl
  exact absurd (hinvalid.symm.trans hvalid') (by decide)

end zfs_rescue.label
