import ZfsRescue.Lz4zfs.Complete
import ZfsRescue.Zio.GenericDevice

open bytes
open zfs_rescue.blockptr zfs_rescue.lz4zfs

namespace zfs_rescue.zio

/-- A logical block and the payload that stores it inside a block pointer,
    with the bits of word 6 above the embedded fields and the birth word left
    free. -/
structure EmbeddedBlock where
  content : Bytes
  payload : Bytes
  comp : Nat
  high : Nat
  birth : Nat
  stores : (comp = 2 ∧ payload = content) ∨
    (comp = COMP_TYPE_LZ4 ∧ ∃ f : Frame, payload = f.encode ∧ content = f.block.expand)
  content_pos : 1 ≤ content.length
  content_le : content.length ≤ 2 ^ 25
  payload_pos : 1 ≤ payload.length
  payload_le : payload.length ≤ 112
  high_lt : high < 2 ^ 24
  birth_lt : birth < 2 ^ 64

/-- Word 6: the biased sizes, the compression and the embedded bit. -/
def EmbeddedBlock.prop (e : EmbeddedBlock) : Nat :=
  (e.content.length - 1) + (e.payload.length - 1) * 2 ^ 25 + e.comp * 2 ^ 32 + 2 ^ 39 + e.high * 2 ^ 40

/-- The 128 bytes: the payload in every word but 6 and 10. -/
def EmbeddedBlock.encode (e : EmbeddedBlock) : Bytes :=
  slice (fit 112 e.payload) 0 48 ++ writeLE 8 e.prop ++ slice (fit 112 e.payload) 48 24 ++ writeLE 8 e.birth ++
    slice (fit 112 e.payload) 72 40

theorem EmbeddedBlock.length_encode (e : EmbeddedBlock) : e.encode.length = 128 := by
  simp [EmbeddedBlock.encode]

theorem EmbeddedBlock.comp_lt (e : EmbeddedBlock) : e.comp < 2 ^ 7 := by
  rcases e.stores with ⟨h, _⟩ | ⟨h, _⟩
  · omega
  · rw [h]
    decide

theorem EmbeddedBlock.qword_prop (e : EmbeddedBlock) : qword e.encode 6 = e.prop := by
  have hslice : slice e.encode (8 * 6) 8 = writeLE 8 e.prop := by
    have h := slice_middle (slice (fit 112 e.payload) 0 48) (writeLE 8 e.prop)
      (slice (fit 112 e.payload) 48 24 ++ writeLE 8 e.birth ++ slice (fit 112 e.payload) 72 40)
    simpa [EmbeddedBlock.encode, List.append_assoc] using h
  have hbound : e.prop < 256 ^ 8 := by
    have h1 := e.content_le
    have h2 := e.payload_le
    have h3 := e.comp_lt
    have h4 := e.high_lt
    simp only [EmbeddedBlock.prop]
    omega
  rw [qword, hslice, readLE_writeLE hbound]

theorem EmbeddedBlock.embeded_bit (e : EmbeddedBlock) : (BlockPtr.parse_plain e.encode).embeded = true := by
  have h1 := e.content_le
  have h2 := e.payload_le
  have h3 := e.comp_lt
  have hbit : (e.prop >>> 39) &&& 0x1 = 1 := by
    rw [Nat.and_two_pow_sub_one_eq_mod _ 1, Nat.shiftRight_eq_div_pow, EmbeddedBlock.prop]
    omega
  simp [BlockPtr.parse_plain, e.qword_prop, hbit]

theorem EmbeddedBlock.of_bytes_encode (e : EmbeddedBlock) :
    BlockPtr.of_bytes e.encode = (BlockPtr.parse_plain e.encode).parse_embeded e.encode := by
  rw [BlockPtr.of_bytes, if_pos e.embeded_bit]

theorem EmbeddedBlock.embeded_of_bytes (e : EmbeddedBlock) : (BlockPtr.of_bytes e.encode).embeded = true := by
  rw [e.of_bytes_encode]
  exact e.embeded_bit

/-- The logical size is taken as it is stored, one less than the content's. -/
theorem EmbeddedBlock.logical_size_of_bytes (e : EmbeddedBlock) :
    logical_size (BlockPtr.of_bytes e.encode) = e.content.length - 1 := by
  have h1 := e.content_le
  have h2 := e.payload_le
  have h3 := e.comp_lt
  have hsize : e.prop &&& 0x1ffffff = e.content.length - 1 := by
    rw [Nat.and_two_pow_sub_one_eq_mod _ 25, EmbeddedBlock.prop]
    omega
  rw [logical_size, if_pos e.embeded_of_bytes, e.of_bytes_encode]
  simp only [BlockPtr.parse_embeded, e.qword_prop, hsize]

/-- The payload is gathered from around the two words that are not part of it. -/
theorem EmbeddedBlock.embeded_data (e : EmbeddedBlock) :
    (BlockPtr.of_bytes e.encode).embeded_data = fit 112 e.payload := by
  have hfront : slice e.encode 0 48 = slice (fit 112 e.payload) 0 48 := by
    have h := slice_middle [] (slice (fit 112 e.payload) 0 48)
      (writeLE 8 e.prop ++ slice (fit 112 e.payload) 48 24 ++ writeLE 8 e.birth ++ slice (fit 112 e.payload) 72 40)
    simpa [EmbeddedBlock.encode, List.append_assoc] using h
  have hmiddle : slice e.encode 56 24 = slice (fit 112 e.payload) 48 24 := by
    have h := slice_middle (slice (fit 112 e.payload) 0 48 ++ writeLE 8 e.prop) (slice (fit 112 e.payload) 48 24)
      (writeLE 8 e.birth ++ slice (fit 112 e.payload) 72 40)
    simpa [EmbeddedBlock.encode, List.append_assoc] using h
  have hback : slice e.encode 88 40 = slice (fit 112 e.payload) 72 40 := by
    have h := slice_middle (slice (fit 112 e.payload) 0 48 ++ writeLE 8 e.prop ++ slice (fit 112 e.payload) 48 24 ++
      writeLE 8 e.birth) (slice (fit 112 e.payload) 72 40) []
    simpa [EmbeddedBlock.encode, List.append_assoc] using h
  rw [e.of_bytes_encode]
  simp only [BlockPtr.parse_embeded]
  rw [hfront, hmiddle, hback]
  have hwhole := slice_self (fit 112 e.payload)
  rw [length_fit, show 112 = 48 + 24 + 40 from rfl, slice_add, slice_add] at hwhole
  exact hwhole

/-- An uncompressed embedded block of two or more bytes reads back without its
    last byte, and the read is reported as good. -/
theorem GenericDevice.read_block_embedded_plain (self : GenericDevice) (e : EmbeddedBlock) (dva : Nat)
    (hplain : e.comp = 2) (htwo : 2 ≤ e.content.length) :
    self.read_block (BlockPtr.of_bytes e.encode) dva = .ok (some e.content.dropLast, true) := by
  have hpayload : e.payload = e.content := by
    rcases e.stores with ⟨_, h⟩ | ⟨h, _⟩
    · exact h
    · rw [hplain] at h
      cases h
  have hle := e.payload_le
  have hlen : e.payload.length = e.content.length := by rw [hpayload]
  have h1 := e.content_le
  have hcomp : (BlockPtr.of_bytes e.encode).comp = 2 := by
    have hquotient : e.prop / 2 ^ 32 = 2 + 2 ^ 7 * (1 + 2 * e.high) := by
      rw [EmbeddedBlock.prop, hplain]
      omega
    rw [e.of_bytes_encode]
    change (qword e.encode 6 >>> 32) &&& 0x7f = 2
    rw [e.qword_prop, Nat.and_two_pow_sub_one_eq_mod _ 7, Nat.shiftRight_eq_div_pow, hquotient]
    omega
  have hpsize : (BlockPtr.of_bytes e.encode).psize = e.payload.length - 1 := by
    have hquotient : e.prop / 2 ^ 25 = (e.payload.length - 1) + 2 ^ 7 * (2 + 2 ^ 7 + 2 ^ 8 * e.high) := by
      rw [EmbeddedBlock.prop, hplain]
      omega
    rw [e.of_bytes_encode]
    change (qword e.encode 6 >>> 25) &&& 0x7f = _
    rw [e.qword_prop, Nat.and_two_pow_sub_one_eq_mod _ 7, Nat.shiftRight_eq_div_pow, hquotient]
    omega
  have hempty : (BlockPtr.of_bytes e.encode).empty = false := by
    simp [BlockPtr.empty, e.embeded_of_bytes]
  have hgang : ((BlockPtr.of_bytes e.encode).get_dva dva).gang = false := by
    rw [e.of_bytes_encode]
    unfold BlockPtr.get_dva
    split <;> rfl
  have hcut : fit (e.content.length - 1) (fit 112 e.content) = e.content.dropLast := by
    apply ext_getD (by simp)
    intro i hi
    rw [length_fit] at hi
    rw [getD_fit _ _ _ hi, getD_fit _ _ _ (by omega)]
    simp only [List.getD_eq_getElem?_getD, List.getElem?_dropLast, if_pos hi]
  have hstored : self.read_stored (BlockPtr.of_bytes e.encode) dva =
      .ok (some (BlockPtr.of_bytes e.encode).embeded_data, true) := by
    rw [GenericDevice.read_stored, if_pos e.embeded_of_bytes]
  rw [GenericDevice.read_block_of_stored hempty hgang (by omega) hstored, GenericDevice.expand,
    if_neg (by simp [BlockPtr.compressed, hcomp]), e.embeded_data, e.logical_size_of_bytes, hpayload, hcut]

/-- Reading an embedded block never gives its content: what comes back is one
    byte short of it, when anything does. -/
theorem GenericDevice.read_block_embedded_ne (self : GenericDevice) (e : EmbeddedBlock) (dva : Nat) :
    BlockPtr.parse e.encode = .ok (BlockPtr.of_bytes e.encode) ∧
      ¬ ∃ c, self.read_block (BlockPtr.of_bytes e.encode) dva = .ok (some e.content, c) := by
  refine ⟨by rw [BlockPtr.parse, if_pos e.length_encode], ?_⟩
  rintro ⟨c, h⟩
  have hlen := GenericDevice.length_of_read_block h
  rw [e.logical_size_of_bytes] at hlen
  have hpos := e.content_pos
  omega

/-- Three bytes stored uncompressed in a block pointer. -/
def EmbeddedBlock.threeBytes : EmbeddedBlock where
  content := [0x61, 0x62, 0x63]
  payload := [0x61, 0x62, 0x63]
  comp := 2
  high := 0
  birth := 0
  stores := .inl ⟨rfl, rfl⟩
  content_pos := by decide
  content_le := by decide
  payload_pos := by decide
  payload_le := by decide
  high_lt := by decide
  birth_lt := by decide

theorem GenericDevice.read_block_embedded_three_bytes :
    let device : GenericDevice := ⟨9, fun _ _ => .ok none, fun _ => .error .ZlibError⟩
    device.read_block (BlockPtr.of_bytes EmbeddedBlock.threeBytes.encode) 0 = .ok (some [0x61, 0x62], true) ∧
      EmbeddedBlock.threeBytes.content = [0x61, 0x62, 0x63] :=
  ⟨GenericDevice.read_block_embedded_plain _ EmbeddedBlock.threeBytes 0 rfl (by decide), rfl⟩

end zfs_rescue.zio
