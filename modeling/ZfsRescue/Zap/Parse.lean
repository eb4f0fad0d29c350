import ZfsRescue.Dict
import ZfsRescue.Zap

open bytes dict
open zfs_rescue.blockptr zfs_rescue.zio zfs_rescue.dnode

namespace zfs_rescue.zap

def ZBT_MICRO : Nat := (1 <<< 63) + 3
def ZBT_HEADER : Nat := (1 <<< 63) + 1

def ZAP_LEAF_ARRAY : Nat := 251
def ZAP_LEAF_ENTRY : Nat := 252

def ZAP_CHNK_ARR_BEGIN : Nat := 0x430
def ZAP_CHNK_SIZE : Nat := 24

/-- The code points of the bytes from 0x80 on. The zero stands for the one byte
    that has none. -/
def cp1251_upper : List Nat :=
  [0x402, 0x403, 0x201a, 0x453, 0x201e, 0x2026, 0x2020, 0x2021, 0x20ac, 0x2030, 0x409, 0x2039, 0x40a, 0x40c, 0x40b,
    0x40f, 0x452, 0x2018, 0x2019, 0x201c, 0x201d, 0x2022, 0x2013, 0x2014, 0, 0x2122, 0x459, 0x203a, 0x45a, 0x45c,
    0x45b, 0x45f, 0xa0, 0x40e, 0x45e, 0x408, 0xa4, 0x490, 0xa6, 0xa7, 0x401, 0xa9, 0x404, 0xab, 0xac, 0xad, 0xae,
    0x407, 0xb0, 0xb1, 0x406, 0x456, 0x491, 0xb5, 0xb6, 0xb7, 0x451, 0x2116, 0x454, 0xbb, 0x458, 0x405, 0x455,
    0x457] ++ (List.range 64).map (0x410 + ·)

/-- `xs.decode('cp1251')`. -/
def decode_cp1251 (xs : Bytes) : Py String :=
  if 0x98 ∈ xs then .error .UnicodeDecodeError
  else .ok (String.ofList (xs.map fun b => Char.ofNat (if b < 0x80 then b.toNat else cp1251_upper.getD (b.toNat - 0x80) 0)))

/-- `xs.decode('latin1')`. -/
def decode_latin1 (xs : Bytes) : String := String.ofList (xs.map fun b => Char.ofNat b.toNat)

def safe_decode_string (val : Bytes) : String :=
  match decode_utf8 val with
  | .ok s => s
  | .error _ =>
    match decode_cp1251 val with
    | .ok s => s
    | .error _ => decode_latin1 val

/-- A value of a ZAP: a number, or bytes that were not taken for one. -/
inductive ZapValue where
  | int (v : Nat)
  | data (xs : Bytes)
  deriving DecidableEq, Repr

/-- The names and values of a ZAP, as both of its kinds keep them. -/
abbrev Entries := Dict String ZapValue

/-- `xs.rstrip(b'\0')`. -/
def rstrip_nul (xs : Bytes) : Bytes := (xs.reverse.dropWhile (· = 0)).reverse

def MicroZap.parse_entry (data : Bytes) : Py (String × Nat × Nat) :=
  if (data.take 64).length = 64 then
    .ok (safe_decode_string (rstrip_nul (slice data 14 50)), readLE (slice data 0 8), readLE (slice data 8 4))
  else .error .StructError

/-- One round of the loop over the entries, from `ptr` on. -/
def MicroZap.set_entry (data : Bytes) (entries : Entries) (ptr : Nat) : Py Entries := do
  let e ← MicroZap.parse_entry (slice data ptr 64)
  .ok (if e.1 ≠ "" then set entries e.1 (.int e.2.1) else entries)

def MicroZap.parse (data : Bytes) : Py Entries :=
  if data.length < 128 then .ok []
  else if readLE (data.take 8) ≠ ZBT_MICRO then .ok []
  else ((List.range ((data.length - 64) / 64)).map fun n => 64 + 64 * n).foldlM (MicroZap.set_entry data) []

/-- `xs + ys`, where `ys` can be `None`. -/
def concat (xs : Bytes) : Option Bytes → Py (Option Bytes)
  | none => .error .TypeError
  | some ys => .ok (some (xs ++ ys))

/-- `xs[:j]`, where `xs` can be `None`. -/
def upto (xs : Option Bytes) (j : Int) : Py Bytes :=
  match xs with
  | none => .error .TypeError
  | some xs => .ok (pySlice xs 0 j)

/-- The chunks of a list put together. `frames` is how many calls the stack of
    the interpreter has room for. -/
def FatZap.follow_chunk_list (chunk_arr : Bytes) : Nat → Nat → Py (Option Bytes)
  | 0, _ => .error .RuntimeError
  | frames + 1, idx => do
    let chunk := slice chunk_arr (idx * ZAP_CHNK_SIZE) ZAP_CHNK_SIZE
    let chunk_type ← index chunk 0
    if chunk_type.toNat ≠ ZAP_LEAF_ARRAY then .ok none
    else do
      let chunk_data := slice chunk 1 21
      let next_chunk ← unpackLE 2 (chunk.drop (chunk.length - 2))
      if next_chunk = 0xffff then .ok (some chunk_data)
      else do
        let rest ← follow_chunk_list chunk_arr frames next_chunk
        concat chunk_data rest

/-- The fields of an entry chunk behind its type. -/
structure ChunkEntry where
  int_size : Nat
  next_chunk : Nat
  name_chunk : Nat
  name_length : Nat
  value_chunk : Nat
  value_length : Nat
  cd : Nat
  hash : Nat
  deriving DecidableEq, Repr

/-- `struct.unpack("=B6H2xQ", xs)`. -/
def ChunkEntry.unpack (xs : Bytes) : Py ChunkEntry :=
  if xs.length = 23 then
    .ok
      { int_size := readLE (slice xs 0 1)
        next_chunk := readLE (slice xs 1 2)
        name_chunk := readLE (slice xs 3 2)
        name_length := readLE (slice xs 5 2)
        value_chunk := readLE (slice xs 7 2)
        value_length := readLE (slice xs 9 2)
        cd := readLE (slice xs 11 2)
        hash := readLE (slice xs 15 8) }
  else .error .StructError

/-- A value of eight bytes is taken for a number. -/
def zap_value (value_data : Bytes) : ZapValue :=
  if value_data.length = 8 then .int (readBE value_data) else .data value_data

/-- The name and the value that an entry chunk points to. -/
def FatZap.read_entry (chunk_arr : Bytes) (frames : Nat) (e : ChunkEntry) : Py (String × ZapValue) := do
  let name_list ← FatZap.follow_chunk_list chunk_arr frames e.name_chunk
  let name_data ← upto name_list (e.name_length - 1)
  let value_list ← FatZap.follow_chunk_list chunk_arr frames e.value_chunk
  let value_data ← upto value_list (e.value_length * e.int_size)
  .ok (safe_decode_string name_data, zap_value value_data)

def FatZap.follow_collision_chain (chunk_arr : Bytes) : Nat → Nat → Entries → Py Entries
  | 0, _, _ => .error .RuntimeError
  | frames + 1, idx, entries => do
    let chunk_begin := idx * ZAP_CHNK_SIZE
    let chunk_type ← index chunk_arr chunk_begin
    if chunk_type.toNat ≠ ZAP_LEAF_ENTRY then .ok entries
    else do
      let e ← ChunkEntry.unpack (slice chunk_arr (chunk_begin + 1) (ZAP_CHNK_SIZE - 1))
      let item ← FatZap.read_entry chunk_arr frames e
      let entries := set entries item.1 item.2
      if e.next_chunk ≠ 0xffff then follow_collision_chain chunk_arr frames e.next_chunk entries else .ok entries

/-- `struct.unpack("=512H", xs)`. -/
def unpack_chunk_table (xs : Bytes) : Py (List Nat) :=
  if xs.length = 1024 then .ok ((List.range 512).map fun i => readLE (slice xs (2 * i) 2)) else .error .StructError

/-- One round of the loop over the hash table. -/
def FatZap.follow_bucket (chunk_arr : Bytes) (frames : Nat) (entries : Entries) (c : Nat) : Py Entries :=
  if c = 0xffff then .ok entries else FatZap.follow_collision_chain chunk_arr frames c entries

/-- The header of the block is only shown, but it must be there. -/
def FatZap.parse_zap_block (frames : Nat) (data : Bytes) (entries : Entries) : Py Entries :=
  if (data.take 0x30).length ≠ 0x30 then .error .StructError
  else do
    let chunk_table ← unpack_chunk_table (slice data 0x30 (ZAP_CHNK_ARR_BEGIN - 0x30))
    chunk_table.foldlM (FatZap.follow_bucket (data.drop ZAP_CHNK_ARR_BEGIN) frames) entries

/-- The eleven words of the ZAP's header are only shown, but they must be
    there. -/
def FatZap.parse (dbsize frames : Nat) (data : Bytes) : Py Entries :=
  if (data.take (11 * 8)).length ≠ 11 * 8 then .error .StructError
  else if dbsize = 0 then .error .ZeroDivisionError
  else ((List.range ((data.length - dbsize) / dbsize)).map fun n => slice data ((n + 1) * dbsize) dbsize).foldlM
    (fun entries block => FatZap.parse_zap_block frames block entries) []

def choose_zap_factory (frames dbsize : Nat) (data : Bytes) : Py (Option Entries) :=
  if data.length < 8 then .ok (some [])
  else if readLE (data.take 8) = ZBT_MICRO then do
    let entries ← MicroZap.parse data
    .ok (some entries)
  else if readLE (data.take 8) = ZBT_HEADER then do
    let entries ← FatZap.parse dbsize frames data
    .ok (some entries)
  else .ok none

def blockptrar_zap_factory (frames : Nat) (vdev : GenericDevice) (bpa : List BlockPtr) (dbsize nblocks : Nat) :
    Py (Option Entries) := do
  let data ← blockptrar_data vdev bpa nblocks
  choose_zap_factory frames dbsize data

/-- The ZAP in the data that was collected, if any was. -/
def zap_of_data (frames dbsize : Nat) : Option Bytes → Py (Option Entries)
  | none => .ok none
  | some data => choose_zap_factory frames dbsize data

/-- A dnode whose block size is not known has no block pointers either. -/
def zap_factory (frames : Nat) (vdev : GenericDevice) (dnode : DNode) : Py (Option Entries) := do
  let data ← zap_data vdev dnode
  zap_of_data frames (dnode.datablksize.getD 0) data

/-- Names in UTF-8 come back as they are. -/
theorem safe_decode_encode_utf8 (s : String) : safe_decode_string (encode_utf8 s) = s := by
  rw [safe_decode_string, decode_encode_utf8]

end zfs_rescue.zap
