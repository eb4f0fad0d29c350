import ZfsRescue.Dnode

open bytes
open zfs_rescue.blockptr zfs_rescue.zio

namespace zfs_rescue.dnode

/-- The bytes that the bonus of a parsed dnode is built from. -/
def DNode.bonus_data (self : DNode) : Bytes := slice self.data (BLKPTR_OFFSET + self.nblkptr * 128) self.bonuslen

/-- A dnode that was neither found free nor rejected. -/
def DNode.Valid (self : DNode) : Prop := self.type ≠ none ∧ self.type ≠ some 0

/-- The types that `parse` goes on with. -/
def KnownType (type : Nat) : Prop := type ≤ 100 ∨ type = 196

/-- How many bytes the bonus of a type takes at least. -/
def bonus_need (bonustype : Nat) : Nat :=
  if bonustype = 12 then 88 else if bonustype = 16 then 256 else if bonustype = 17 then 144 else 0

/-- The bonus can be built from so many bytes. -/
def DNode.Buildable (self : DNode) (len : Nat) : Prop := self.bonuslen = 0 ∨ bonus_need self.bonustype ≤ len

/-- The bytes of a slot read as an allocated dnode. -/
def LooksAllocated (data : Bytes) : Prop :=
  byteAt data 0 ≠ 0 ∧ KnownType (byteAt data 0) ∧ byteAt data 3 ≤ 3 ∧
    (DNode.parse_header data).Buildable (DNode.parse_header data).bonus_data.length

theorem unpack_words_ok_iff {n : Nat} {data : Bytes} :
    (∃ words, unpack_words n data = .ok words) ↔ data.length = 8 * n := by
  rw [unpack_words]
  split
  · exact ⟨fun _ => ‹_›, fun _ => ⟨_, rfl⟩⟩
  · constructor
    · rintro ⟨words, h⟩
      cases h
    · exact fun h => absurd h ‹_›

/-- A computation goes through when its first step does and the rest always would. -/
theorem bind_ok_iff {α β : Type} {x : Py α} {f : α → β} : (∃ y, (x >>= fun a => .ok (f a)) = .ok y) ↔ ∃ a, x = .ok a := by
  cases x with
  | error e => simp
  | ok a => simp

theorem BonusDirectory.init_ok_iff {data : Bytes} : (∃ bonus, BonusDirectory.init data = .ok bonus) ↔ 88 ≤ data.length := by
  rw [BonusDirectory.init, bind_ok_iff, unpack_words_ok_iff, List.length_take]
  omega

theorem BonusZnode.init_ok_iff {data : Bytes} : (∃ bonus, BonusZnode.init data = .ok bonus) ↔ 144 ≤ data.length := by
  rw [BonusZnode.init, bind_ok_iff, unpack_words_ok_iff, List.length_take]
  omega

theorem BonusDataset.init_ok_iff {data : Bytes} : (∃ bonus, BonusDataset.init data = .ok bonus) ↔ 256 ≤ data.length := by
  have hbptr : (∃ bptr, BlockPtr.parse (slice data (16 * 8) 128) = .ok bptr) ↔ 256 ≤ data.length := by
    simp only [BlockPtr.parse_eq_ok_iff, length_slice]
    constructor
    · rintro ⟨bptr, hlength, -⟩
      omega
    · exact fun h => ⟨_, by omega, rfl⟩
  rw [BonusDataset.init, ← hbptr]
  constructor
  · rintro ⟨bonus, h⟩
    obtain ⟨words, -, h⟩ := bind_eq_ok_iff.mp h
    obtain ⟨bptr, hparse, -⟩ := bind_eq_ok_iff.mp h
    exact ⟨bptr, hparse⟩
  · rintro ⟨bptr, hparse⟩
    have hlength := hbptr.mp ⟨bptr, hparse⟩
    obtain ⟨words, hwords⟩ := unpack_words_ok_iff.mpr (show (data.take (16 * 8)).length = 8 * 16 by
      rw [List.length_take]
      omega)
    exact ⟨_, by rw [hwords, bind_ok, hparse, bind_ok]⟩

/-- A bonus is built whenever there are bytes enough for its type. -/
theorem parse_bonus_ok_iff (self : DNode) (sa : Option SaLayouts) (bonus_data : Bytes) :
    (∃ bonus, self.parse_bonus sa bonus_data = .ok bonus) ↔ self.Buildable bonus_data.length := by
  rw [DNode.Buildable, bonus_need, DNode.parse_bonus]
  by_cases hzero : self.bonuslen = 0
  · simp [hzero]
  · by_cases hdirectory : self.bonustype = 12
    · rw [if_pos ⟨hzero, hdirectory⟩, if_pos hdirectory, bind_ok_iff, BonusDirectory.init_ok_iff]
      simp [hzero]
    · by_cases hdataset : self.bonustype = 16
      · rw [if_neg (fun h => hdirectory h.2), if_pos ⟨hzero, hdataset⟩, if_neg hdirectory, if_pos hdataset, bind_ok_iff,
          BonusDataset.init_ok_iff]
        simp [hzero]
      · by_cases hznode : self.bonustype = 17
        · rw [if_neg (fun h => hdirectory h.2), if_neg (fun h => hdataset h.2), if_pos ⟨hzero, hznode⟩, if_neg hdirectory,
            if_neg hdataset, if_pos hznode, bind_ok_iff, BonusZnode.init_ok_iff]
          simp [hzero]
        · rw [if_neg (fun h => hdirectory h.2), if_neg (fun h => hdataset h.2), if_neg (fun h => hznode h.2),
            if_neg hdirectory, if_neg hdataset, if_neg hznode]
          split <;> simp

/-- The pointers of a dnode with at most three of them lie within its first slot. -/
theorem mapM_blkptr {data : Bytes} (hlength : 512 ≤ data.length) {n : Nat} (hn : n ≤ 3) :
    ∃ blkptr, (List.range n).mapM (fun bn => BlockPtr.parse (slice data (BLKPTR_OFFSET + bn * 128) 128)) =
      (.ok blkptr : Py (List BlockPtr)) := by
  have hparse : ∀ bn ∈ List.range n, ∃ p, BlockPtr.parse (slice data (BLKPTR_OFFSET + bn * 128) 128) = .ok p := by
    intro bn hbn
    have hlt := List.mem_range.mp hbn
    refine ⟨BlockPtr.of_bytes (slice data (BLKPTR_OFFSET + bn * 128) 128), ?_⟩
    rw [BlockPtr.parse, if_pos]
    rw [length_slice, BLKPTR_OFFSET]
    omega
  obtain ⟨blkptr, hblkptr⟩ := exists_forall₂_iff.mpr hparse
  exact ⟨blkptr, mapM_eq_ok_iff.mpr hblkptr⟩

/-- Data that looks allocated parses to a dnode with a bonus from its bytes. -/
theorem parse_of_looksAllocated (sa : Option SaLayouts) {data : Bytes} (hlength : 512 ≤ data.length)
    (h : LooksAllocated data) :
    ∃ dn bonus, DNode.parse sa data = .ok dn ∧ dn.Valid ∧
      dn.bonus_data = (DNode.parse_header data).bonus_data ∧ dn.bonus = some bonus ∧
      dn.parse_bonus sa dn.bonus_data = .ok bonus := by
  obtain ⟨hfree, hknown, hptrs, hbuildable⟩ := h
  obtain ⟨blkptr, hblkptr⟩ := mapM_blkptr hlength (n := byteAt data 3) hptrs
  obtain ⟨bonus, hbonus⟩ := (parse_bonus_ok_iff (DNode.parse_header data) sa _).mpr hbuildable
  have hrejected : ¬ (byteAt data 0 > 100 ∧ byteAt data 0 ≠ 196) := by
    rcases hknown with hknown | hknown <;> omega
  have hptrs' : ¬ (DNode.parse_header data).nblkptr > 3 := Nat.not_lt.mpr hptrs
  have htype : (DNode.parse_header data).type ≠ some 0 := fun htype => hfree (Option.some.inj htype)
  have hparse : DNode.parse sa data = .ok
      { DNode.parse_header data with
        used := if (DNode.parse_header data).flags &&& DNODE_FLAG_USED_BYTES = 0 then (DNode.parse_header data).used <<< 9
          else (DNode.parse_header data).used
        blkptr := some blkptr
        datablksize := some ((DNode.parse_header data).datablkszsec <<< 9)
        bonus := some bonus } := by
    rw [DNode.parse, if_neg (by omega), if_neg htype, if_neg hrejected,
      if_neg hptrs', show (DNode.parse_header data).nblkptr = byteAt data 3 from rfl, hblkptr, bind_ok]
    change ((DNode.parse_header data).parse_bonus sa (DNode.parse_header data).bonus_data >>= _) = _
    rw [hbonus, bind_ok]
    rfl
  exact ⟨_, bonus, hparse, ⟨Option.some_ne_none _, htype⟩, rfl, rfl, hbonus⟩

/-- Only such a slot parses to a dnode that has a bonus or counts as allocated. -/
theorem parse_inv {sa : Option SaLayouts} {data : Bytes} {dn : DNode} (hparse : DNode.parse sa data = .ok dn) :
    (LooksAllocated data ∧ dn.bonus_data = (DNode.parse_header data).bonus_data) ∨ (dn.bonus = none ∧ ¬ dn.Valid) := by
  rw [DNode.parse] at hparse
  split at hparse
  · cases hparse
  split at hparse
  · cases hparse
    exact .inr ⟨rfl, fun hvalid => hvalid.2 ‹_›⟩
  rename_i hfree
  split at hparse
  · cases hparse
    exact .inr ⟨rfl, fun hvalid => hvalid.1 rfl⟩
  rename_i hknown
  split at hparse
  · cases hparse
    exact .inr ⟨rfl, fun hvalid => hvalid.1 rfl⟩
  rename_i hptrs
  obtain ⟨blkptr, -, hparse⟩ := bind_eq_ok_iff.mp hparse
  obtain ⟨bonus, hbonus, hparse⟩ := bind_eq_ok_iff.mp hparse
  cases hparse
  refine .inl ⟨⟨fun hzero => hfree (congrArg some hzero), ?_, Nat.not_lt.mp hptrs,
    (parse_bonus_ok_iff (DNode.parse_header data) sa _).mp ⟨bonus, hbonus⟩⟩, rfl⟩
  rw [KnownType]
  omega

end zfs_rescue.dnode
