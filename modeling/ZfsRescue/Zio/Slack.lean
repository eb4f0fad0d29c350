import ZfsRescue.Lz4zfs.Slack
import ZfsRescue.Lzjb.Slack
import ZfsRescue.Zio.Unreadable

open bytes
open zfs_rescue.blockptr zfs_rescue.lz4zfs zfs_rescue.lzjb

namespace zfs_rescue.zio

/-- The block that the bytes read are expanded to: as they are, by LZ4 or by
    LZJB, and then filled up or cut to the logical size. -/
def decoded (bptr : BlockPtr) (src : Bytes) : Option Bytes :=
  if bptr.comp = 2 then some (fit bptr.lsize src)
  else if bptr.comp = COMP_TYPE_LZ4 then delivered bptr.lsize (lz4zfs_decompress src bptr.lsize)
  else delivered bptr.lsize (lzjb_decompress src bptr.lsize)

/-- Compression off, LZJB or LZ4. -/
def Supported (bptr : BlockPtr) : Prop :=
  bptr.comp = 2 ∨ bptr.comp = COMP_TYPE_ON ∨ bptr.comp = COMP_TYPE_LZJB ∨ bptr.comp = COMP_TYPE_LZ4

/-- Any two media that hold the same stored bytes of a block, with whatever
    behind them up to the end of what is read, give the same outcome. -/
def SlackIgnored (ashift : Nat) (bptr : BlockPtr) (dva : Nat) (stored : Bytes) : Prop :=
  ∀ (self self' : GenericDevice) (slack slack' : Bytes), self.ashift = ashift → self'.ashift = ashift →
    (stored ++ slack).length ≤ self.rsize bptr.psize → (stored ++ slack').length ≤ self'.rsize bptr.psize →
    self.read_physical (bptr.get_dva dva).offset (self.rsize bptr.psize) = .ok (some (stored ++ slack)) →
    self'.read_physical (bptr.get_dva dva).offset (self'.rsize bptr.psize) = .ok (some (stored ++ slack')) →
    self.read_block bptr dva = self'.read_block bptr dva

/-- Compressed blocks among them are decompressed, though not by gzip. -/
theorem Supported.decompressed {bptr : BlockPtr} (hcomp : Supported bptr) (hoff : bptr.comp ≠ 2) :
    bptr.comp ∈ CompType ∧
      ¬(bptr.comp = COMP_TYPE_GZIP_1 ∨ bptr.comp = COMP_TYPE_GZIP_5 ∨ bptr.comp = COMP_TYPE_GZIP_9) := by
  rcases hcomp with h | h | h | h
  · exact absurd h hoff
  all_goals
    rw [h]
    decide

theorem Supported.lzjb {bptr : BlockPtr} (hcomp : Supported bptr) (hoff : bptr.comp ≠ 2)
    (hlz4 : bptr.comp ≠ COMP_TYPE_LZ4) : bptr.comp = COMP_TYPE_ON ∨ bptr.comp = COMP_TYPE_LZJB := by
  rcases hcomp with h | h | h | h
  · exact absurd h hoff
  · exact .inl h
  · exact .inr h
  · exact absurd h hlz4

section Expand

variable {self : GenericDevice} {bptr : BlockPtr} {dva : Nat} {stored : Bytes}

theorem GenericDevice.expand_supported (hcomp : Supported bptr) (hembeded : bptr.embeded = false) (src : Bytes)
    (cksum : Bool) : self.expand bptr (some src) cksum = .ok (decoded bptr src, cksum) := by
  have hsize : logical_size bptr = bptr.lsize := by rw [logical_size, if_neg (by simp [hembeded])]
  rw [GenericDevice.expand, hsize, decoded, BlockPtr.compressed]
  by_cases hoff : bptr.comp = 2
  · simp [hoff]
  obtain ⟨hmem, hgzip⟩ := hcomp.decompressed hoff
  rw [if_pos (by simpa using hoff), if_pos hmem, if_neg hoff, GenericDevice.decompress]
  by_cases hlz4 : bptr.comp = COMP_TYPE_LZ4
  · rw [if_pos hlz4, if_pos hlz4]
    rcases lz4zfs_decompress src bptr.lsize with e | dst
    · rfl
    · cases dst <;> rfl
  · rw [if_neg hlz4, if_neg hlz4, if_neg hgzip]
    rcases lzjb_decompress src bptr.lsize with e | dst
    · rfl
    · cases dst <;> rfl

/-- The checksum is taken over the stored bytes alone. -/
theorem GenericDevice.read_block_of_slack (hcomp : Supported bptr) (hempty : bptr.empty = false)
    (hembeded : bptr.embeded = false) (hgang : (bptr.get_dva dva).gang = false) (hpsize : 512 ≤ bptr.psize ∧ 4 ∣ bptr.psize)
    (hstored : stored.length = bptr.psize) (slack : Bytes)
    (hread : self.read_physical (bptr.get_dva dva).offset (self.rsize bptr.psize) = .ok (some (stored ++ slack))) :
    self.read_block bptr dva =
      .ok (decoded bptr (stored ++ slack), if bptr.cksum = 7 then fletcher4_sums stored == bptr.checksum else true) := by
  have htake : (stored ++ slack).take bptr.psize = stored := by rw [← hstored, List.take_left]
  have hdvd : 4 ∣ stored.length := hstored ▸ hpsize.2
  have hread_stored : self.read_stored bptr dva =
      .ok (some (stored ++ slack), if bptr.cksum = 7 then fletcher4_sums stored == bptr.checksum else true) := by
    rw [GenericDevice.read_stored, if_neg (by simp [hembeded]), hread, bind_ok]
    split
    · dsimp only
      rw [htake, fletcher4_of_dvd hdvd, bind_ok]
    · rfl
  rw [GenericDevice.read_block_of_stored hempty hgang (by omega) hread_stored,
    GenericDevice.expand_supported hcomp hembeded]

/-- What the medium has behind the stored bytes is ignored when what they
    expand to does not depend on it. -/
theorem slackIgnored_iff_decoded {ashift : Nat} (hcomp : Supported bptr) (hempty : bptr.empty = false)
    (hembeded : bptr.embeded = false) (hgang : (bptr.get_dva dva).gang = false) (hpsize : 512 ≤ bptr.psize ∧ 4 ∣ bptr.psize)
    (hstored : stored.length = bptr.psize) (hsmall : bptr.psize < 1 <<< ashift) :
    SlackIgnored ashift bptr dva stored ↔
      ∀ slack slack' : Bytes, slack.length ≤ 1 <<< ashift - bptr.psize → slack'.length ≤ 1 <<< ashift - bptr.psize →
        decoded bptr (stored ++ slack) = decoded bptr (stored ++ slack') := by
  have hrsize : ∀ dev : GenericDevice, dev.ashift = ashift → dev.rsize bptr.psize = 1 <<< ashift := by
    intro dev hdev
    rw [GenericDevice.rsize, hdev, if_pos hsmall]
  constructor
  · intro hignored slack slack' hslack hslack'
    let medium : Bytes → GenericDevice := fun behind =>
      { ashift := ashift, read_physical := fun _ _ => .ok (some (stored ++ behind)), zlib_decompress := .ok }
    have heq := hignored (medium slack) (medium slack') slack slack' rfl rfl
      (by rw [hrsize _ rfl, List.length_append]; omega) (by rw [hrsize _ rfl, List.length_append]; omega) rfl rfl
    rw [GenericDevice.read_block_of_slack hcomp hempty hembeded hgang hpsize hstored slack rfl,
      GenericDevice.read_block_of_slack hcomp hempty hembeded hgang hpsize hstored slack' rfl] at heq
    exact (Prod.mk.inj (Except.ok.inj heq)).1
  · intro hsame self self' slack slack' hself hself' hlen hlen' hread hread'
    rw [hrsize _ hself, List.length_append] at hlen
    rw [hrsize _ hself', List.length_append] at hlen'
    rw [GenericDevice.read_block_of_slack hcomp hempty hembeded hgang hpsize hstored slack hread,
      GenericDevice.read_block_of_slack hcomp hempty hembeded hgang hpsize hstored slack' hread',
      hsame slack slack' (by omega) (by omega)]

end Expand

/-- Stored bytes as they are: those behind them count as soon as the block is
    longer. -/
theorem fit_ignores_slack_iff {stored : Bytes} {lsize k : Nat} (hk : 1 ≤ k) :
    (∀ slack slack' : Bytes, slack.length ≤ k → slack'.length ≤ k →
        fit lsize (stored ++ slack) = fit lsize (stored ++ slack')) ↔ lsize ≤ stored.length := by
  constructor
  · intro hsame
    by_contra hlong
    have heq := hsame [1] [] (by simpa using hk) (Nat.zero_le _)
    rw [List.append_nil] at heq
    exact fit_concat_ne (by omega) heq
  · intro hle slack slack' _ _
    have hcut : ∀ behind : Bytes, fit lsize (stored ++ behind) = stored.take lsize := by
      intro behind
      rw [fit, List.take_append_of_le_length hle, Nat.sub_eq_zero_of_le (by rw [List.length_append]; omega),
        List.replicate_zero, List.append_nil]
    rw [hcut, hcut]

/-- An LZ4 stream, with `k` more bytes read behind it: it stays inside the stored
    bytes, or it is cut off by the end of what is read. -/
def SettledLz4 (stored : Bytes) (k : Nat) : Prop :=
  (lz4.header stored ≤ stored.length ∧ ¬RunsOff stored (lz4.header stored) 4) ∨
    stored.length + k < lz4.header stored ∨ CutOff stored (lz4.header stored) (stored.length + k) 4

theorem lz4_ignores_slack_iff {stored : Bytes} {lsize k : Nat} (hlen : 4 ≤ stored.length) :
    (∀ slack slack' : Bytes, slack.length ≤ k → slack'.length ≤ k →
        delivered lsize (lz4zfs_decompress (stored ++ slack) lsize) =
          delivered lsize (lz4zfs_decompress (stored ++ slack') lsize)) ↔ SettledLz4 stored k := by
  have hcut : ∀ slack : Bytes, delivered lsize (lz4zfs_decompress (stored ++ slack) lsize) = none ↔
      (stored ++ slack).length < lz4.header stored ∨ RunsOff (stored ++ slack) (lz4.header stored) 4 := by
    intro slack
    obtain ⟨⟨result, hresult⟩, hnone⟩ :=
      lz4zfs_decompress_none_iff lsize (show 4 ≤ (stored ++ slack).length by rw [List.length_append]; omega)
    rw [header_append hlen] at hnone
    rw [← hnone, hresult]
    cases result <;> simp [delivered]
  constructor
  · intro hsame
    by_cases hinside : lz4.header stored ≤ stored.length ∧ ¬RunsOff stored (lz4.header stored) 4
    · exact .inl hinside
    · refine .inr (runsOff_append_iff_cutOff.mp ?_)
      intro slack hslack
      have hbare : delivered lsize (lz4zfs_decompress (stored ++ []) lsize) = none := by
        rw [hcut, List.append_nil]
        by_contra hnot
        rw [not_or] at hnot
        exact hinside ⟨Nat.not_lt.mp hnot.1, hnot.2⟩
      rw [← hcut, hsame slack [] hslack (Nat.zero_le _), hbare]
  · rintro (⟨hheader, hinside⟩ | hcutoff) slack slack' hslack hslack'
    · rw [lz4zfs_decompress_append lsize hlen hheader hinside, lz4zfs_decompress_append lsize hlen hheader hinside]
    · have hnone := runsOff_append_iff_cutOff.mpr hcutoff
      rw [(hcut slack).mpr (hnone slack hslack), (hcut slack').mpr (hnone slack' hslack')]

/-- What stored bytes are expanded to, by the compression of their pointer. -/
theorem decoded_ignores_slack_iff {bptr : BlockPtr} {stored : Bytes} {k : Nat} (hcomp : Supported bptr)
    (hlen : 512 ≤ stored.length) (hk : 512 ≤ k) (hlsize : 0 < bptr.lsize) :
    (∀ slack slack' : Bytes, slack.length ≤ k → slack'.length ≤ k →
        decoded bptr (stored ++ slack) = decoded bptr (stored ++ slack')) ↔
      (bptr.comp = 2 ∧ bptr.lsize ≤ stored.length) ∨ (bptr.comp = COMP_TYPE_LZ4 ∧ SettledLz4 stored k) ∨
        ((bptr.comp = COMP_TYPE_ON ∨ bptr.comp = COMP_TYPE_LZJB) ∧
          Refused stored bptr.lsize { pos := 0, bit := 7, copymap := 0, dst := [] }) := by
  by_cases hoff : bptr.comp = 2
  · have hnot : bptr.comp ≠ COMP_TYPE_LZ4 ∧ bptr.comp ≠ COMP_TYPE_ON ∧ bptr.comp ≠ COMP_TYPE_LZJB := by
      rw [hoff]
      decide
    simp only [decoded, if_pos hoff, Option.some.injEq]
    rw [fit_ignores_slack_iff (by omega)]
    refine ⟨fun h => .inl ⟨hoff, h⟩, ?_⟩
    rintro (⟨_, h⟩ | ⟨h, _⟩ | ⟨h | h, _⟩)
    · exact h
    · exact absurd h hnot.1
    · exact absurd h hnot.2.1
    · exact absurd h hnot.2.2
  by_cases hlz4 : bptr.comp = COMP_TYPE_LZ4
  · have hnot : bptr.comp ≠ COMP_TYPE_ON ∧ bptr.comp ≠ COMP_TYPE_LZJB := by
      rw [hlz4]
      decide
    simp only [decoded, if_neg hoff, if_pos hlz4]
    rw [lz4_ignores_slack_iff (by omega)]
    refine ⟨fun h => .inr (.inl ⟨hlz4, h⟩), ?_⟩
    rintro (⟨h, _⟩ | ⟨_, h⟩ | ⟨h | h, _⟩)
    · exact absurd h hoff
    · exact h
    · exact absurd h hnot.1
    · exact absurd h hnot.2
  · simp only [decoded, if_neg hoff, if_neg hlz4]
    rw [lzjb_decompress_ignores_slack_iff (by omega) (by omega) (by omega)]
    refine ⟨fun h => .inr (.inr ⟨hcomp.lzjb hoff hlz4, h⟩), ?_⟩
    rintro (⟨h, _⟩ | ⟨h, _⟩ | ⟨_, h⟩)
    · exact absurd h hoff
    · exact absurd h hlz4
    · exact h

/-- A sector that is larger than the stored bytes has room for whole 512 more. -/
theorem slack_room {raw : Bytes} {bptr : BlockPtr} {ashift : Nat} (hparse : BlockPtr.parse raw = .ok bptr)
    (hembeded : bptr.embeded = false) (hsmall : bptr.psize < 1 <<< ashift) : bptr.psize + 512 ≤ 1 <<< ashift := by
  obtain ⟨⟨hpsize, hwhole⟩, -, -⟩ := sectors_of_parse hparse hembeded
  rw [Nat.one_shiftLeft] at hsmall ⊢
  have hashift : 9 ≤ ashift := by
    by_contra hnot
    have hpow := Nat.pow_le_pow_right (show 0 < 2 by omega) (show ashift ≤ 9 by omega)
    omega
  have hsector : 512 ∣ 2 ^ ashift := pow_dvd_pow 2 hashift
  omega

/-- The slack of a sector is ignored for a block that fills its sectors, for one
    stored as it is that is no longer than its stored bytes, for an LZ4 stream
    that needs none of it, and for streams that are refused anyway. -/
theorem slackIgnored_iff {raw : Bytes} {bptr : BlockPtr} {dva ashift : Nat} {stored : Bytes}
    (hparse : BlockPtr.parse raw = .ok bptr) (hembeded : bptr.embeded = false) (hcomp : Supported bptr)
    (hstored : stored.length = bptr.psize) :
    SlackIgnored ashift bptr dva stored ↔
      bptr.empty = true ∨ (bptr.get_dva dva).gang = true ∨ 1 <<< ashift ≤ bptr.psize ∨
        (bptr.comp = 2 ∧ bptr.lsize ≤ bptr.psize) ∨
        (bptr.comp = COMP_TYPE_LZ4 ∧ SettledLz4 stored (1 <<< ashift - bptr.psize)) ∨
        ((bptr.comp = COMP_TYPE_ON ∨ bptr.comp = COMP_TYPE_LZJB) ∧
          Refused stored bptr.lsize { pos := 0, bit := 7, copymap := 0, dst := [] }) := by
  by_cases hempty : bptr.empty = true
  · refine iff_of_true ?_ (.inl hempty)
    intro self self' _ _ _ _ _ _ _ _
    rw [GenericDevice.read_block_of_empty self dva hempty, GenericDevice.read_block_of_empty self' dva hempty]
  by_cases hgang : (bptr.get_dva dva).gang = true
  · refine iff_of_true ?_ (.inr (.inl hgang))
    intro self self' _ _ _ _ _ _ _ _
    rw [GenericDevice.read_block_of_gang self (by simpa using hempty) hgang,
      GenericDevice.read_block_of_gang self' (by simpa using hempty) hgang]
  rw [Bool.not_eq_true] at hempty hgang
  obtain ⟨⟨hpos, hsectors⟩, hlsize, -⟩ := sectors_of_parse hparse hembeded
  have hpsize : 512 ≤ bptr.psize ∧ 4 ∣ bptr.psize := ⟨hpos, by omega⟩
  by_cases hwhole : 1 <<< ashift ≤ bptr.psize
  · refine iff_of_true ?_ (.inr (.inr (.inl hwhole)))
    intro self self' slack slack' hself hself' hlen hlen' hread hread'
    rw [GenericDevice.rsize, hself, if_neg (by omega), List.length_append] at hlen
    rw [GenericDevice.rsize, hself', if_neg (by omega), List.length_append] at hlen'
    have hnil : slack = [] := List.length_eq_zero_iff.mp (by omega)
    have hnil' : slack' = [] := List.length_eq_zero_iff.mp (by omega)
    rw [GenericDevice.read_block_of_slack hcomp hempty hembeded hgang hpsize hstored slack hread,
      GenericDevice.read_block_of_slack hcomp hempty hembeded hgang hpsize hstored slack' hread', hnil, hnil']
  have hroom := slack_room hparse hembeded (show bptr.psize < 1 <<< ashift by omega)
  rw [slackIgnored_iff_decoded hcomp hempty hembeded hgang hpsize hstored (by omega),
    decoded_ignores_slack_iff hcomp (by omega) (by omega) (by omega), hstored]
  simp only [hempty, hgang, hwhole, Bool.false_eq_true, false_or]

/-- A stream of one run of 505 literals that ends with the stored bytes. -/
def full_stream : Bytes := [0, 0, 1, 252, 0xf0, 255, 235] ++ List.replicate 505 0x61

theorem full_stream_offset :
    lz4.header full_stream = 508 ∧ full_stream.length = 512 ∧ lz4.offsetAt (full_stream.take 508) 4 = 512 ∧
      lz4.offsetAt (fit 508 full_stream) 4 = 512 ∧ lz4.nextAt (fit 508 full_stream) 4 = 514 := by
  decide +kernel

/-- The decoder looks for a match offset behind the run: the stream is cut off
    without slack, but not with two bytes of it. -/
theorem not_settledLz4_full_stream : ¬SettledLz4 full_stream 3584 := by
  obtain ⟨hheader, hlen, hoffset, hoffset', hnext⟩ := full_stream_offset
  rintro (⟨_, hinside⟩ | hpast | hcut)
  · exact hinside (hheader ▸ .here (by decide) (by rw [hoffset, hlen]; decide))
  · rw [hheader, hlen] at hpast
    exact absurd hpast (by decide)
  · rw [hheader, hlen] at hcut
    cases hcut with
    | here _ hpast =>
      rw [hoffset'] at hpast
      exact absurd hpast (by decide)
    | later _ _ hlater =>
      rw [hnext] at hlater
      cases hlater with
      | here hlive _ => exact absurd hlive (by decide)
      | later hlive _ _ => exact absurd hlive (by decide)

theorem sector_bytes_lz4 :
    BlockPtr.parse (sector_bytes 1 15 7) = .ok (BlockPtr.of_bytes (sector_bytes 1 15 7)) ∧
      (BlockPtr.of_bytes (sector_bytes 1 15 7)).empty = false ∧ (BlockPtr.of_bytes (sector_bytes 1 15 7)).embeded = false ∧
      ((BlockPtr.of_bytes (sector_bytes 1 15 7)).get_dva 0).gang = false ∧
      (BlockPtr.of_bytes (sector_bytes 1 15 7)).psize = 512 ∧
      (BlockPtr.of_bytes (sector_bytes 1 15 7)).comp = COMP_TYPE_LZ4 := by
  decide +kernel

/-- With sectors of 4096 bytes the slack decides whether the stream is decoded. -/
theorem not_slackIgnored_full_stream :
    ¬SlackIgnored 12 (BlockPtr.of_bytes (sector_bytes 1 15 7)) 0 full_stream := by
  obtain ⟨hparse, hempty, hembeded, hgang, hpsize, hcomp⟩ := sector_bytes_lz4
  have hlen : full_stream.length = 512 := full_stream_offset.2.1
  intro hignored
  rw [slackIgnored_iff_decoded (.inr (.inr (.inr hcomp))) hempty hembeded hgang (by rw [hpsize]; decide)
    (by rw [hlen, hpsize]) (by rw [hpsize]; decide), hpsize] at hignored
  simp only [decoded, hcomp, show COMP_TYPE_LZ4 ≠ 2 by decide, if_false, if_true] at hignored
  exact not_settledLz4_full_stream ((lz4_ignores_slack_iff (by rw [hlen]; decide)).mp hignored)

/-- One literal and a match of four, with zeros up to the end of the stored bytes. -/
def short_stream : Bytes := [0, 0, 0, 8, 0x10, 0x61, 1, 0] ++ List.replicate 504 0

theorem short_stream_offset :
    lz4.header short_stream = 8 ∧ short_stream.length = 512 ∧ lz4.offsetAt (short_stream.take 8) 4 = 6 ∧
      lz4.nextAt (short_stream.take 8) 4 = 8 := by
  decide +kernel

theorem settledLz4_short_stream (k : Nat) : SettledLz4 short_stream k := by
  obtain ⟨hheader, hlen, hoffset, hnext⟩ := short_stream_offset
  rw [SettledLz4, hheader, hlen]
  exact .inl ⟨by decide, not_runsOff_of_next (by rw [hoffset, hlen]; decide) (not_runsOff_of_le (Nat.le_of_eq hnext.symm))⟩

/-- In the same sectors this one is read alike with any 3584 bytes behind it. -/
theorem slackIgnored_short_stream : SlackIgnored 12 (BlockPtr.of_bytes (sector_bytes 1 15 7)) 0 short_stream := by
  obtain ⟨hparse, hempty, hembeded, hgang, hpsize, hcomp⟩ := sector_bytes_lz4
  have hlen : short_stream.length = 512 := short_stream_offset.2.1
  exact (slackIgnored_iff hparse hembeded (.inr (.inr (.inr hcomp))) (by rw [hlen, hpsize])).mpr
    (.inr (.inr (.inr (.inr (.inl ⟨hcomp, settledLz4_short_stream _⟩)))))

end zfs_rescue.zio
