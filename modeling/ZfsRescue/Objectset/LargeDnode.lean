import ZfsRescue.Dnode.Parse
import ZfsRescue.Objectset

open bytes
open zfs_rescue.blockptr zfs_rescue.zio zfs_rescue.dnode zfs_rescue.blocktree

namespace zfs_rescue.objectset

/-- The 512 bytes of a slot. -/
def slot_data (block : Bytes) (slot : Nat) : Bytes := slice block (slot * 512) 512

/-- The fixed fields of the dnode in a slot. -/
def header_at (block : Bytes) (slot : Nat) : DNode := DNode.parse_header (slot_data block slot)

/-- The whole bonus of the dnode in a slot, behind its block pointers. -/
def bonus_bytes (block : Bytes) (slot : Nat) : Bytes :=
  slice block (slot * 512 + (BLKPTR_OFFSET + (header_at block slot).nblkptr * 128)) (header_at block slot).bonuslen

/-- A block with an allocated dnode in a slot, which takes some more slots behind
    it for its bonus. -/
structure AllocatedAt (block : Bytes) (slot : Nat) : Prop where
  slots_lt : (slot + (header_at block slot).extra_slots + 1) * 512 ≤ block.length
  type_ne : (header_at block slot).type ≠ some 0
  nblkptr_pos : 1 ≤ (header_at block slot).nblkptr
  nblkptr_le : (header_at block slot).nblkptr ≤ 3
  bonuslen_le : BLKPTR_OFFSET + (header_at block slot).nblkptr * 128 + (header_at block slot).bonuslen ≤
    ((header_at block slot).extra_slots + 1) * 512

/-- The dnode is looked up with its whole bonus, and none of the slots behind
    it as a dnode of its own. -/
structure Honoured (os : ObjectSet) (sa : Option SaLayouts) (caches : Caches) (block : Bytes) (first slot : Nat) : Prop where
  bonus : ∃ dn bonus, (os.get_dnode sa caches ((first + slot : Nat) : Int)).1 = .ok (some dn) ∧
    dn.bonus_data = bonus_bytes block slot ∧ dn.bonus = some bonus ∧ dn.parse_bonus sa (bonus_bytes block slot) = .ok bonus
  interior : ∀ i, 1 ≤ i → i ≤ (header_at block slot).extra_slots →
    ∀ dn, (os.get_dnode sa caches ((first + slot + i : Nat) : Int)).1 = .ok (some dn) → ¬ dn.Valid

section Lookup

variable {os : ObjectSet} {block : Bytes} {blockid slot : Nat}

/-- A lookup in a block that was fetched parses one slot of it. -/
theorem get_dnode_of_block (hfetch : os.fetch_block blockid = .ok (some block)) (hslot : slot < os.dnodes_per_block)
    (sa : Option SaLayouts) (items : List Int) :
    (os.get_dnode sa (os.after sa items) ((blockid * os.dnodes_per_block + slot : Nat) : Int)).1 =
      (DNode.parse sa (slot_data block slot) >>= fun dn => .ok (some dn)) := by
  have hdiv : ((blockid * os.dnodes_per_block + slot : Nat) : Int) / (os.dnodes_per_block : Int) = (blockid : Int) := by
    rw [← Int.natCast_ediv, Nat.mul_comm, Nat.mul_add_div (by omega), Nat.div_eq_of_lt hslot, Nat.add_zero]
  have hmod : (((blockid * os.dnodes_per_block + slot : Nat) : Int) % (os.dnodes_per_block : Int)).toNat = slot := by
    rw [← Int.natCast_emod, Nat.mul_comm, Nat.mul_add_mod, Nat.mod_eq_of_lt hslot, Int.toNat_natCast]
  rw [os.get_dnode_after, ObjectSet.lookup, if_neg (by omega), hdiv, hmod, hfetch, bind_ok]
  rfl

theorem AllocatedAt.length_slot_data (hallocated : AllocatedAt block slot) {i : Nat}
    (hi : i ≤ (header_at block slot).extra_slots) :
    (slot_data block (slot + i)).length = 512 := by
  have hslots := hallocated.slots_lt
  exact length_slice_of_le (by omega)

theorem AllocatedAt.get_dnode_eq (hallocated : AllocatedAt block slot)
    (hfetch : os.fetch_block blockid = .ok (some block)) (hlength : block.length = os.dnodes_per_block * 512)
    (sa : Option SaLayouts) (items : List Int) {i : Nat} (hi : i ≤ (header_at block slot).extra_slots) :
    (os.get_dnode sa (os.after sa items) ((blockid * os.dnodes_per_block + slot + i : Nat) : Int)).1 =
      (DNode.parse sa (slot_data block (slot + i)) >>= fun dn => .ok (some dn)) := by
  have hslots := hallocated.slots_lt
  rw [Nat.add_assoc]
  exact get_dnode_of_block hfetch (by omega) sa items

theorem AllocatedAt.length_bonus_bytes (hallocated : AllocatedAt block slot) :
    (bonus_bytes block slot).length = (header_at block slot).bonuslen := by
  have hslots := hallocated.slots_lt
  have hbonuslen := hallocated.bonuslen_le
  exact length_slice_of_le (by omega)

/-- A dnode with its whole bonus is of a known type, and ends within its slot. -/
theorem Honoured.fits (hfetch : os.fetch_block blockid = .ok (some block))
    (hlength : block.length = os.dnodes_per_block * 512) (hallocated : AllocatedAt block slot)
    {sa : Option SaLayouts} {items : List Int}
    (h : Honoured os sa (os.after sa items) block (blockid * os.dnodes_per_block) slot) :
    KnownType (byteAt (slot_data block slot) 0) ∧
      BLKPTR_OFFSET + (header_at block slot).nblkptr * 128 + (header_at block slot).bonuslen ≤ 512 ∧
      (header_at block slot).Buildable (header_at block slot).bonuslen := by
  obtain ⟨dn, bonus, hdn, hdata, hbonus, -⟩ := h.bonus
  have hget := hallocated.get_dnode_eq hfetch hlength sa items (Nat.zero_le _)
  rw [Nat.add_zero, Nat.add_zero, hdn] at hget
  obtain ⟨parsed, hparse, heq⟩ := bind_eq_ok_iff.mp hget.symm
  cases heq
  rcases parse_inv hparse with ⟨⟨-, hknown, hptrs, hbuildable⟩, hsame⟩ | ⟨hnone, -⟩
  · have hlen : (header_at block slot).bonus_data.length = (header_at block slot).bonuslen := by
      rw [← hallocated.length_bonus_bytes, ← hdata, hsame]
      rfl
    refine ⟨hknown, ?_, hlen ▸ hbuildable⟩
    have hslot := hallocated.length_slot_data (Nat.zero_le _)
    have hptrs' : (header_at block slot).nblkptr ≤ 3 := hptrs
    rw [DNode.bonus_data, show (header_at block slot).data = slot_data block (slot + 0) from rfl, length_slice,
      hslot] at hlen
    rw [BLKPTR_OFFSET] at hlen ⊢
    omega
  · rw [hnone] at hbonus
    cases hbonus

/-- A large dnode is honoured when its type is a known one, its bonus ends within
    its first slot and is long enough for its type, and none of the slots behind
    it looks like a dnode. -/
theorem honoured_iff (hfetch : os.fetch_block blockid = .ok (some block))
    (hlength : block.length = os.dnodes_per_block * 512) (hallocated : AllocatedAt block slot)
    (sa : Option SaLayouts) (items : List Int) :
    Honoured os sa (os.after sa items) block (blockid * os.dnodes_per_block) slot ↔
      KnownType (byteAt (slot_data block slot) 0) ∧
        BLKPTR_OFFSET + (header_at block slot).nblkptr * 128 + (header_at block slot).bonuslen ≤ 512 ∧
        (header_at block slot).Buildable (header_at block slot).bonuslen ∧
        ∀ i, 1 ≤ i → i ≤ (header_at block slot).extra_slots → ¬ LooksAllocated (slot_data block (slot + i)) := by
  constructor
  · intro h
    obtain ⟨hknown, hfits, hbuildable⟩ := Honoured.fits hfetch hlength hallocated h
    refine ⟨hknown, hfits, hbuildable, fun i hpos hi hlooks => ?_⟩
    obtain ⟨dn, bonus, hparse, hvalid, -⟩ := parse_of_looksAllocated sa (hallocated.length_slot_data hi).ge hlooks
    refine h.interior i hpos hi dn ?_ hvalid
    rw [hallocated.get_dnode_eq hfetch hlength sa items hi, hparse, bind_ok]
  · rintro ⟨hknown, hfits, hbuildable, hinterior⟩
    have hcut : (header_at block slot).bonus_data = bonus_bytes block slot := slice_slice block hfits
    refine ⟨?_, ?_⟩
    · have hlooks : LooksAllocated (slot_data block (slot + 0)) := by
        refine ⟨fun hzero => hallocated.type_ne (congrArg some hzero), hknown, hallocated.nblkptr_le, ?_⟩
        rwa [show DNode.parse_header (slot_data block (slot + 0)) = header_at block slot from rfl, hcut,
          hallocated.length_bonus_bytes]
      obtain ⟨dn, bonus, hparse, -, hdata, hbonus, hbuilt⟩ :=
        parse_of_looksAllocated sa (hallocated.length_slot_data (Nat.zero_le _)).ge hlooks
      have hdata' : dn.bonus_data = bonus_bytes block slot := hdata.trans hcut
      have hget := hallocated.get_dnode_eq hfetch hlength sa items (Nat.zero_le _)
      rw [hparse, bind_ok] at hget
      exact ⟨dn, bonus, hget, hdata', hbonus, hdata' ▸ hbuilt⟩
    · intro i hpos hi dn hdn hvalid
      rw [hallocated.get_dnode_eq hfetch hlength sa items hi] at hdn
      obtain ⟨parsed, hparse, heq⟩ := bind_eq_ok_iff.mp hdn
      cases heq
      rcases parse_inv hparse with ⟨hlooks, -⟩ | ⟨-, hnot⟩
      · exact hinterior i hpos hi hlooks
      · exact hnot hvalid

end Lookup

/-- An object set of one block of two dnodes. -/
def one_block (block : Bytes) : ObjectSet where
  vdev := { ashift := 9, read_physical := fun _ _ => .ok (some block), zlib_decompress := .ok }
  dnode := DNode.parse_header []
  dnodes_per_block := 2
  blocktree :=
    { levels := 1
      vdev := { ashift := 9, read_physical := fun _ _ => .ok (some block), zlib_decompress := .ok }
      root := .pointer (BlockPtr.of_bytes
        (encode_words [2, 8, 0, 0, 0, 0, 1 + 2 ^ 16 + 2 * 2 ^ 32 + 2 * 2 ^ 40, 0, 0, 0, 5, 1, 0, 0, 0, 0])) }

/-- A block with one dnode of two slots and a bonus of so many bytes. -/
def large_dnode_block (bonuslen : Nat) : Bytes :=
  [19, 17, 1, 1, 0x2c, 0, 0, 0, 1, 0] ++ writeLE 2 bonuslen ++ [1] ++ List.replicate 1011 0

private theorem allocatedAt_large_dnode_block {bonuslen : Nat} (h : bonuslen = 300 ∨ bonuslen = 400) :
    AllocatedAt (large_dnode_block bonuslen) 0 := by
  rcases h with rfl | rfl
  · exact ⟨by decide +kernel, by decide +kernel, by decide +kernel, by decide +kernel, by decide +kernel⟩
  · exact ⟨by decide +kernel, by decide +kernel, by decide +kernel, by decide +kernel, by decide +kernel⟩

/-- A bonus of 300 bytes still ends within the first slot. -/
theorem honoured_bonus_300 :
    Honoured (one_block (large_dnode_block 300)) none ((one_block (large_dnode_block 300)).after none [])
      (large_dnode_block 300) (0 * 2) 0 := by
  refine (honoured_iff (by decide +kernel) (by decide +kernel) (allocatedAt_large_dnode_block (.inl rfl)) none []).mpr
    ⟨.inl (by decide +kernel), by decide +kernel, .inr (by decide +kernel), fun i hpos hi hlooks => ?_⟩
  have hslots : (header_at (large_dnode_block 300) 0).extra_slots = 1 := by decide +kernel
  obtain rfl : i = 1 := by omega
  exact absurd hlooks.1 (by decide +kernel)

/-- A bonus of 400 bytes is cut at the end of the first slot. -/
theorem not_honoured_bonus_400 :
    ¬ Honoured (one_block (large_dnode_block 400)) none ((one_block (large_dnode_block 400)).after none [])
      (large_dnode_block 400) (0 * 2) 0 := by
  intro h
  have hfetch : (one_block (large_dnode_block 400)).fetch_block (0 : Nat) = .ok (some (large_dnode_block 400)) := by
    decide +kernel
  have hfits := Honoured.fits hfetch (by decide +kernel) (allocatedAt_large_dnode_block (.inr rfl)) h
  exact absurd hfits.2.1 (by decide +kernel)

end zfs_rescue.objectset
