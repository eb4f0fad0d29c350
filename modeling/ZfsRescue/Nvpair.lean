import ZfsRescue.Dict
import ZfsRescue.Python

open bytes dict

namespace zfs_rescue.nvpair

def DATA_TYPE_UINT32 : Nat := 6
def DATA_TYPE_UINT64 : Nat := 8
def DATA_TYPE_STRING : Nat := 9
def DATA_TYPE_NVLIST : Nat := 19
def DATA_TYPE_NVLIST_ARRAY : Nat := 20

/-- A value of a name/value list as the parser returns it. -/
inductive Value where
  | uint (n : Nat)
  | str (s : String)
  | data (xs : Bytes)
  | nvlist (items : List (String × Value))
  | list (vs : List Value)

abbrev NVList := Dict String Value

/-- `stream.read(size)`, and what is left in the stream. A negative size reads to
    the end. -/
def read (size : Int) (stream : Bytes) : Bytes × Bytes :=
  if size < 0 then (stream, []) else (stream.take size.toNat, stream.drop size.toNat)

def read_uint32 (stream : Bytes) : Py (Nat × Bytes) := do
  let data := read 4 stream
  let v ← unpackBE 4 data.1
  .ok (v, data.2)

def read_uint64 (stream : Bytes) : Py (Nat × Bytes) := do
  let data := read 8 stream
  let v ← unpackBE 8 data.1
  .ok (v, data.2)

/-- `(size + 3) & ~3`. -/
def align4 (size : Nat) : Nat := (size + 3) / 4 * 4

/-- The text of a string and the bytes that it takes in the stream. -/
def read_string (stream : Bytes) : Py ((String × Nat) × Bytes) := do
  let str_len ← read_uint32 stream
  let data_size := align4 str_len.1
  let data := read data_size str_len.2
  let s ← decode_ascii (data.1.take str_len.1)
  .ok ((s, data_size + 4), data.2)

/-- One value of a pair. `parse` reads a nested list, and `size` is what the pair
    leaves for its value. -/
def NVPairParser.read_value (parse : Bytes → Py (NVList × Bytes)) (data_type : Nat) (size : Int) (stream : Bytes) :
    Py (Value × Bytes) :=
  if data_type = DATA_TYPE_UINT32 then do
    let v ← read_uint32 stream
    .ok (.uint v.1, v.2)
  else if data_type = DATA_TYPE_UINT64 then do
    let v ← read_uint64 stream
    .ok (.uint v.1, v.2)
  else if data_type = DATA_TYPE_STRING then do
    let v ← read_string stream
    .ok (.str v.1.1, v.2)
  else if data_type = DATA_TYPE_NVLIST then do
    let v ← parse stream
    .ok (.nvlist v.1, v.2)
  else if data_type = DATA_TYPE_NVLIST_ARRAY then do
    let v ← parse stream
    .ok (.nvlist v.1, v.2)
  else
    let v := read size stream
    .ok (.data v.1, v.2)

/-- The loop over the values of a pair. -/
def NVPairParser.read_values (parse : Bytes → Py (NVList × Bytes)) (data_type : Nat) (size : Int) :
    Nat → Bytes → Py (List Value × Bytes)
  | 0, stream => .ok ([], stream)
  | item_count + 1, stream => do
    let v ← NVPairParser.read_value parse data_type size stream
    let value ← read_values parse data_type size item_count v.2
    .ok (v.1 :: value.1, value.2)

/-- A single value stands without its list. -/
def NVPairParser.unwrap (item_count : Nat) (value : List Value) : Py Value :=
  if item_count = 1 then index value 0 else .ok (.list value)

/-- One round of the loop over the pairs: the name and the value of the next pair,
    or nothing at the end of the list. -/
def NVPairParser.read_pair (parse : Bytes → Py (NVList × Bytes)) (stream : Bytes) :
    Py (Option (String × Value) × Bytes) := do
  let size ← read_uint32 stream
  let unpacked ← read_uint32 size.2
  if size.1 = 0 then .ok (none, unpacked.2)
  else do
    let name ← read_string unpacked.2
    let data_type ← read_uint32 name.2
    let item_count ← read_uint32 data_type.2
    let value ← NVPairParser.read_values parse data_type.1 ((size.1 : Int) - (16 + name.1.2)) item_count.1 item_count.2
    let v ← NVPairParser.unwrap item_count.1 value.1
    .ok (some (name.1.1, v), value.2)

/-- What a round leaves to do: to return the list, or to set a pair and go on. -/
def NVPairParser.after_pair (next : Bytes → NVList → Py (NVList × Bytes)) (nvlist : NVList) :
    Option (String × Value) × Bytes → Py (NVList × Bytes)
  | (none, stream) => .ok (nvlist, stream)
  | (some (name, value), stream) => next stream (set nvlist name value)

/-- The loop over the pairs. A round takes at least eight bytes, so that a loop with
    one round for each byte of the stream and one more does not run out of them. -/
def NVPairParser.read_pairs (parse : Bytes → Py (NVList × Bytes)) : Nat → Bytes → NVList → Py (NVList × Bytes)
  | 0, _, _ => .error .RuntimeError
  | rounds + 1, stream, nvlist => do
    let pair ← NVPairParser.read_pair parse stream
    NVPairParser.after_pair (read_pairs parse rounds) nvlist pair

/-- A short header is let through when its last byte is 1. -/
def NVPairParser.check_header (header : Bytes) : Py Unit :=
  if header.length ≠ 8 then do
    let last ← index header (header.length - 1)
    if last ≠ 1 then .error .Exception else .ok ()
  else .ok ()

/-- `_parse`. `frames` is how many of its calls the stack of the interpreter has room
    for. -/
def NVPairParser.parse_stream : Nat → Bytes → Py (NVList × Bytes)
  | 0, _ => .error .RuntimeError
  | frames + 1, data_stream => do
    let header := read 8 data_stream
    NVPairParser.check_header header.1
    NVPairParser.read_pairs (parse_stream frames) (header.2.length + 1) header.2 []

def NVPairParser.parse (frames : Nat) (data : Bytes) : Py NVList := do
  let nvlist ← NVPairParser.parse_stream frames data
  .ok nvlist.1

/-- A reader that gives back no more than it was given. -/
def Shrinks {α : Type} (f : Bytes → Py (α × Bytes)) : Prop :=
  ∀ stream r rest, f stream = .ok (r, rest) → rest.length ≤ stream.length

theorem length_read_le (size : Int) (stream : Bytes) : (read size stream).2.length ≤ stream.length := by
  unfold read
  split
  · exact Nat.zero_le _
  · rw [List.length_drop]
    exact Nat.sub_le _ _

theorem length_read_uint32 {stream rest : Bytes} {v : Nat} (h : read_uint32 stream = .ok (v, rest)) :
    rest.length + 4 = stream.length := by
  rw [read_uint32] at h
  obtain ⟨_, hunpack, heq⟩ := bind_eq_ok_iff.mp h
  cases heq
  rw [unpackBE] at hunpack
  split at hunpack
  · rename_i hlength
    have htake : (stream.take 4).length = 4 := hlength
    change (stream.drop 4).length + 4 = stream.length
    rw [List.length_take] at htake
    rw [List.length_drop]
    omega
  · cases hunpack

theorem read_uint32_shrinks : Shrinks read_uint32 := by
  intro stream v rest h
  have hlength := length_read_uint32 h
  omega

theorem read_uint64_shrinks : Shrinks read_uint64 := by
  intro stream v rest h
  obtain ⟨_, -, heq⟩ := bind_eq_ok_iff.mp h
  cases heq
  exact length_read_le 8 stream

theorem read_string_shrinks : Shrinks read_string := by
  intro stream v rest h
  rw [read_string] at h
  simp only [bind_eq_ok_iff] at h
  obtain ⟨⟨str_len, stream'⟩, hlen, s, -, heq⟩ := h
  cases heq
  exact (length_read_le _ _).trans (read_uint32_shrinks stream str_len stream' hlen)

theorem Shrinks.map {α β : Type} {f : Bytes → Py (α × Bytes)} (hf : Shrinks f) (g : α → β) :
    Shrinks fun stream => f stream >>= fun v => .ok (g v.1, v.2) := by
  intro stream r rest h
  obtain ⟨⟨v, stream'⟩, hv, heq⟩ := bind_eq_ok_iff.mp h
  cases heq
  exact hf stream v stream' hv

variable {parse : Bytes → Py (NVList × Bytes)}

theorem read_value_shrinks (hparse : Shrinks parse) (data_type : Nat) (size : Int) :
    Shrinks (NVPairParser.read_value parse data_type size) := by
  intro stream v rest h
  unfold NVPairParser.read_value at h
  split at h
  · exact read_uint32_shrinks.map Value.uint stream v rest h
  split at h
  · exact read_uint64_shrinks.map Value.uint stream v rest h
  split at h
  · exact read_string_shrinks.map (fun s => Value.str s.1) stream v rest h
  split at h
  · exact hparse.map Value.nvlist stream v rest h
  split at h
  · exact hparse.map Value.nvlist stream v rest h
  · cases h
    exact length_read_le size stream

theorem read_values_shrinks (hparse : Shrinks parse) (data_type : Nat) (size : Int) (item_count : Nat) :
    Shrinks (NVPairParser.read_values parse data_type size item_count) := by
  induction item_count with
  | zero =>
    intro stream v rest h
    cases h
    exact Nat.le_refl _
  | succ item_count ih =>
    intro stream v rest h
    rw [NVPairParser.read_values] at h
    simp only [bind_eq_ok_iff] at h
    obtain ⟨⟨v, stream'⟩, hv, ⟨values, stream''⟩, hvalues, heq⟩ := h
    cases heq
    exact (ih stream' values stream'' hvalues).trans (read_value_shrinks hparse data_type size stream v stream' hv)

/-- A round takes at least the two sizes. -/
theorem length_read_pair (hparse : Shrinks parse) {stream rest : Bytes} {pair : Option (String × Value)}
    (h : NVPairParser.read_pair parse stream = .ok (pair, rest)) : rest.length + 8 ≤ stream.length := by
  rw [NVPairParser.read_pair] at h
  simp only [bind_eq_ok_iff] at h
  obtain ⟨⟨size, stream₁⟩, hsize, ⟨unpacked, stream₂⟩, hunpacked, h⟩ := h
  dsimp only at hunpacked h
  have hlength₁ := length_read_uint32 hsize
  have hlength₂ := length_read_uint32 hunpacked
  split at h
  · cases h
    omega
  · simp only [bind_eq_ok_iff] at h
    obtain ⟨⟨name, stream₃⟩, hname, ⟨data_type, stream₄⟩, htype, ⟨item_count, stream₅⟩, hcount, ⟨values, stream₆⟩,
      hvalues, v, -, heq⟩ := h
    cases heq
    dsimp only at htype hcount hvalues ⊢
    have hlength₃ := read_string_shrinks _ _ _ hname
    have hlength₄ := read_uint32_shrinks _ _ _ htype
    have hlength₅ := read_uint32_shrinks _ _ _ hcount
    have hlength₆ := read_values_shrinks hparse _ _ _ _ _ _ hvalues
    omega

theorem read_pairs_shrinks (hparse : Shrinks parse) {rounds : Nat} {stream rest : Bytes} {nvlist d : NVList}
    (h : NVPairParser.read_pairs parse rounds stream nvlist = .ok (d, rest)) : rest.length ≤ stream.length := by
  induction rounds generalizing stream nvlist with
  | zero => cases h
  | succ rounds ih =>
    obtain ⟨⟨pair, stream'⟩, hpair, hnext⟩ := bind_eq_ok_iff.mp h
    have hlength := length_read_pair hparse hpair
    cases pair with
    | none =>
      cases hnext
      omega
    | some item =>
      have hle := ih hnext
      omega

theorem parse_stream_shrinks (frames : Nat) : Shrinks (NVPairParser.parse_stream frames) := by
  induction frames with
  | zero =>
    intro stream d rest h
    cases h
  | succ frames ih =>
    intro stream d rest h
    obtain ⟨_, -, hpairs⟩ := bind_eq_ok_iff.mp h
    exact (read_pairs_shrinks ih hpairs).trans (length_read_le 8 stream)

/-- The loop does not run out of rounds: it would do the same with one more. -/
theorem read_pairs_succ (hparse : Shrinks parse) {rounds : Nat} {stream : Bytes} (hrounds : stream.length < rounds)
    (nvlist : NVList) :
    NVPairParser.read_pairs parse (rounds + 1) stream nvlist = NVPairParser.read_pairs parse rounds stream nvlist := by
  induction rounds generalizing stream nvlist with
  | zero => cases hrounds
  | succ rounds ih =>
    rw [NVPairParser.read_pairs, NVPairParser.read_pairs]
    cases hpair : NVPairParser.read_pair parse stream with
    | error e => rfl
    | ok pair =>
      obtain ⟨pair, stream'⟩ := pair
      have hlength := length_read_pair hparse hpair
      cases pair with
      | none => rfl
      | some item => exact ih (by omega) _

/-- So it takes as many rounds as it needs. -/
theorem read_pairs_rounds (frames : Nat) (stream : Bytes) (more : Nat) (nvlist : NVList) :
    NVPairParser.read_pairs (NVPairParser.parse_stream frames) (stream.length + 1 + more) stream nvlist =
      NVPairParser.read_pairs (NVPairParser.parse_stream frames) (stream.length + 1) stream nvlist := by
  induction more with
  | zero => rfl
  | succ more ih => rw [← Nat.add_assoc, read_pairs_succ (parse_stream_shrinks frames) (by omega), ih]

end zfs_rescue.nvpair
