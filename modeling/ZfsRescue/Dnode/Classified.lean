import ZfsRescue.Dnode.Parse

open bytes
open zfs_rescue.blockptr

namespace zfs_rescue.dnode

/-- A dnode is unallocated, invalid, or allocated with a bonus. -/
def DNode.Classified (self : DNode) : Prop :=
  self.type = some 0 ∨ self.type = none ∨ self.Valid ∧ ∃ bonus, self.bonus = some bonus

/-- The bytes of a dnode that its bonus can be taken from. -/
def bonus_room (data : Bytes) : Nat :=
  min (readLE (slice data 10 2)) (data.length - (BLKPTR_OFFSET + byteAt data 3 * 128))

/-- Whatever is parsed is classified. -/
theorem classified_of_parse {sa : Option SaLayouts} {data : Bytes} {dn : DNode} (hlength : 512 ≤ data.length)
    (hparse : DNode.parse sa data = .ok dn) : dn.Classified := by
  obtain ⟨hlooks, -⟩ | ⟨-, hinvalid⟩ := parse_inv hparse
  · obtain ⟨dn', bonus, hparse', hvalid, -, hbonus, -⟩ := parse_of_looksAllocated sa hlength hlooks
    rw [hparse] at hparse'
    cases hparse'
    exact .inr (.inr ⟨hvalid, bonus, hbonus⟩)
  · rw [DNode.Valid, not_and_or, not_not, not_not] at hinvalid
    rw [DNode.Classified]
    tauto

/-- A dnode is parsed when it is found free or rejected, and else when there are
    bytes enough for the bonus of its type, or it has none. -/
theorem parse_ok_iff {data : Bytes} (hlength : 512 ≤ data.length) (sa : Option SaLayouts) :
    (∃ dn, DNode.parse sa data = .ok dn) ↔
      byteAt data 0 = 0 ∨ ¬KnownType (byteAt data 0) ∨ 3 < byteAt data 3 ∨ LooksAllocated data := by
  constructor
  · rintro ⟨dn, hparse⟩
    by_contra hnot
    simp only [not_or, not_not] at hnot
    obtain ⟨hfree, hknown, hptrs, hlooks⟩ := hnot
    obtain ⟨h, -⟩ | ⟨-, hinvalid⟩ := parse_inv hparse
    · exact hlooks h
    · have htype : (DNode.parse_header data).type ≠ some 0 := fun h => hfree (Option.some.inj h)
      rw [DNode.parse, if_neg (by omega), if_neg htype,
        if_neg (by rcases hknown with hknown | hknown <;> omega),
        if_neg (show ¬(DNode.parse_header data).nblkptr > 3 from hptrs)] at hparse
      obtain ⟨blkptr, -, hparse⟩ := bind_eq_ok_iff.mp hparse
      obtain ⟨bonus, -, hparse⟩ := bind_eq_ok_iff.mp hparse
      cases hparse
      exact hinvalid ⟨Option.some_ne_none _, htype⟩
  · rintro (hfree | hunknown | hptrs | hlooks)
    · have htype : (DNode.parse_header data).type = some 0 := congrArg some hfree
      rw [DNode.parse, if_neg (by omega), if_pos htype]
      exact ⟨_, rfl⟩
    · rw [KnownType] at hunknown
      rw [DNode.parse, if_neg (by omega)]
      split
      · exact ⟨_, rfl⟩
      · rw [if_pos (by omega)]
        exact ⟨_, rfl⟩
    · rw [DNode.parse, if_neg (by omega)]
      split
      · exact ⟨_, rfl⟩
      · split
        · exact ⟨_, rfl⟩
        · rw [if_pos (show (DNode.parse_header data).nblkptr > 3 from hptrs)]
          exact ⟨_, rfl⟩
    · obtain ⟨dn, _, hparse, _⟩ := parse_of_looksAllocated sa hlength hlooks
      exact ⟨dn, hparse⟩

/-- `parse` classifies what it is given unless an allocated dnode promises a bonus
    that its bytes are too few for. -/
theorem classified_iff {data : Bytes} (hlength : 512 ≤ data.length) (sa : Option SaLayouts) :
    (∃ dn, DNode.parse sa data = .ok dn ∧ dn.Classified) ↔
      byteAt data 0 = 0 ∨ ¬KnownType (byteAt data 0) ∨ 3 < byteAt data 3 ∨ readLE (slice data 10 2) = 0 ∨
        bonus_need (byteAt data 4) ≤ bonus_room data := by
  have hbuildable : (DNode.parse_header data).Buildable (DNode.parse_header data).bonus_data.length ↔
      readLE (slice data 10 2) = 0 ∨ bonus_need (byteAt data 4) ≤ bonus_room data := by
    rw [DNode.Buildable, DNode.bonus_data, length_slice]
    rfl
  have hparsed : (∃ dn, DNode.parse sa data = .ok dn ∧ dn.Classified) ↔ ∃ dn, DNode.parse sa data = .ok dn :=
    exists_congr fun dn => and_iff_left_of_imp (classified_of_parse hlength)
  rw [hparsed, parse_ok_iff hlength, ← hbuildable, LooksAllocated]
  constructor
  · rintro (h | h | h | ⟨_, _, _, h⟩)
    · exact .inl h
    · exact .inr (.inl h)
    · exact .inr (.inr (.inl h))
    · exact .inr (.inr (.inr h))
  · rintro (h | h | h | h)
    · exact .inl h
    · exact .inr (.inl h)
    · exact .inr (.inr (.inl h))
    · by_cases hfree : byteAt data 0 = 0
      · exact .inl hfree
      · by_cases hknown : KnownType (byteAt data 0)
        · by_cases hptrs : byteAt data 3 ≤ 3
          · exact .inr (.inr (.inr ⟨hfree, hknown, hptrs, h⟩))
          · exact .inr (.inr (.inl (Nat.lt_of_not_le hptrs)))
        · exact .inr (.inl hknown)

/-- A dnode of one pointer with a bonus of some type and length, all zeros. -/
def bonus_dnode (type bonustype bonuslen : Nat) : Bytes :=
  fit 512 ([UInt8.ofNat type, 17, 1, 1, UInt8.ofNat bonustype, 0, 0, 0, 1, 0] ++ writeLE 2 bonuslen)

/-- Bonus lengths one byte too short for the three structures of a fixed size. -/
theorem not_classified_short_bonus :
    (512 ≤ (bonus_dnode 12 12 87).length ∧ DNode.parse none (bonus_dnode 12 12 87) = .error .StructError) ∧
      (512 ≤ (bonus_dnode 16 16 255).length ∧ DNode.parse none (bonus_dnode 16 16 255) = .error .StructError) ∧
      (512 ≤ (bonus_dnode 19 17 143).length ∧ DNode.parse none (bonus_dnode 19 17 143) = .error .StructError) ∧
      ¬∃ dn, DNode.parse none (bonus_dnode 19 17 143) = .ok dn ∧ dn.Classified := by
  have hruns : (512 ≤ (bonus_dnode 12 12 87).length ∧ DNode.parse none (bonus_dnode 12 12 87) = .error .StructError) ∧
      (512 ≤ (bonus_dnode 16 16 255).length ∧ DNode.parse none (bonus_dnode 16 16 255) = .error .StructError) ∧
      (512 ≤ (bonus_dnode 19 17 143).length ∧ DNode.parse none (bonus_dnode 19 17 143) = .error .StructError) := by
    decide +kernel
  refine ⟨hruns.1, hruns.2.1, hruns.2.2, ?_⟩
  rintro ⟨dn, hparse, -⟩
  rw [hruns.2.2.2] at hparse
  cases hparse

/-- A plain file with the bonus of an old-style node. -/
theorem classified_znode : ∃ dn, DNode.parse none (bonus_dnode 19 17 144) = .ok dn ∧ dn.Classified :=
  (classified_iff (by decide +kernel) none).mpr (.inr (.inr (.inr (.inr (by decide +kernel)))))

end zfs_rescue.dnode
