import Mathlib.Data.List.Forall2
import ZfsRescue.Bytes.Words

open bytes

namespace zfs_rescue

/-- The exceptions the Python code raises, by class. -/
inductive PyErr where
  | AttributeError
  | Exception
  | IndexError
  | KeyError
  | MemoryError
  | NotImplementedError
  | OSError
  | OverflowError
  | RuntimeError
  | StructError
  | TypeError
  | UnicodeDecodeError
  | ValueError
  | ZeroDivisionError
  | ZlibError
  deriving DecidableEq, Repr

/-- The outcome of a Python call: a value, or the exception it raised. -/
abbrev Py := Except PyErr

instance {α : Type} [DecidableEq α] : DecidableEq (Py α) := inferInstanceAs (DecidableEq (Except PyErr α))

/-- `xs[i]` for an index that is not negative. -/
def index {α : Type} (xs : List α) (i : Nat) : Py α :=
  match xs[i]? with
  | some x => .ok x
  | none => .error .IndexError

theorem index_of_lt {α : Type} {xs : List α} {i : Nat} (h : i < xs.length) : index xs i = .ok xs[i] := by
  simp [index, h]

theorem index_of_le {α : Type} {xs : List α} {i : Nat} (h : xs.length ≤ i) : index xs i = .error .IndexError := by
  simp [index, List.getElem?_eq_none h]

theorem index_eq_ok_iff {α : Type} {xs : List α} {i : Nat} {x : α} : index xs i = .ok x ↔ xs[i]? = some x := by
  unfold index
  split <;> simp_all

theorem index_of_drop {α : Type} {xs rest : List α} {x : α} {i : Nat} (h : xs.drop i = x :: rest) :
    index xs i = .ok x := by
  have hget : xs[i]? = some x := by
    rw [← List.head?_drop, h, List.head?_cons]
  rw [index_eq_ok_iff, hget]

/-- More at the end does not change what is there. -/
theorem index_append {α : Type} {xs : List α} {i : Nat} {x : α} (h : index xs i = .ok x) (ys : List α) :
    index (xs ++ ys) i = .ok x := by
  rw [index_eq_ok_iff] at h ⊢
  rw [List.getElem?_append_left (List.getElem?_eq_some_iff.mp h).1, h]

/-- A slice bound: negative ones count from the end, and both are clipped. -/
def sliceBound (len : Nat) (i : Int) : Nat :=
  if i < 0 then (i + len).toNat else min i.toNat len

/-- `xs[i:j]` with Python's treatment of negative and overlong bounds. -/
def pySlice {α : Type} (xs : List α) (i j : Int) : List α :=
  slice xs (sliceBound xs.length i) (sliceBound xs.length j - sliceBound xs.length i)

/-- `struct.unpack` of one unsigned integer of `k` bytes in little-endian order,
    which is what the native orders `=` and `<` mean on the machines used. -/
def unpackLE (k : Nat) (xs : Bytes) : Py Nat :=
  if xs.length = k then .ok (readLE xs) else .error .StructError

/-- `struct.unpack` of one unsigned integer of `k` bytes in network order. -/
def unpackBE (k : Nat) (xs : Bytes) : Py Nat :=
  if xs.length = k then .ok (readBE xs) else .error .StructError

/-- `f.seek(offset)` and `f.read(count)`: both take signed 64-bit numbers. That the file
    system may allow less, and that there may be no memory for the bytes, is left out. -/
def seek_read (f : Bytes) (offset count : Nat) : Py Bytes :=
  if 2 ^ 63 ≤ offset then .error .ValueError
  else if 2 ^ 63 ≤ count then .error .OverflowError
  else .ok (slice f offset count)

theorem seek_read_of_lt (f : Bytes) {offset count : Nat} (hoffset : offset < 2 ^ 63) (hcount : count < 2 ^ 63) :
    seek_read f offset count = .ok (slice f offset count) := by
  rw [seek_read, if_neg (by omega), if_neg (by omega)]

/-- `s.encode('utf8')`. -/
def encode_utf8 (s : String) : Bytes := s.toByteArray.data.toList

/-- `xs.decode('utf8')`. -/
def decode_utf8 (xs : Bytes) : Py String :=
  match String.fromUTF8? ⟨xs.toArray⟩ with
  | some s => .ok s
  | none => .error .UnicodeDecodeError

theorem decode_encode_utf8 (s : String) : decode_utf8 (encode_utf8 s) = .ok s := by
  have hbytes : (⟨(encode_utf8 s).toArray⟩ : ByteArray) = s.toByteArray := by
    rw [encode_utf8, Array.toArray_toList]
  rw [decode_utf8, hbytes, String.fromUTF8?, dif_pos s.isValidUTF8]
  rfl

/-- `xs.decode('ascii')`. -/
def decode_ascii (xs : Bytes) : Py String :=
  if xs.all fun b => b.toNat < 128 then .ok (String.ofList (xs.map fun b => Char.ofNat b.toNat))
  else .error .UnicodeDecodeError

theorem decode_ascii_eq_ok_iff {xs : Bytes} {s : String} :
    decode_ascii xs = .ok s ↔ (∀ b ∈ xs, b.toNat < 128) ∧ s = String.ofList (xs.map fun b => Char.ofNat b.toNat) := by
  have hall : (xs.all fun b => b.toNat < 128) = true ↔ ∀ b ∈ xs, b.toNat < 128 := by
    simp only [List.all_eq_true, decide_eq_true_eq]
  unfold decode_ascii
  split
  · rename_i h
    rw [Except.ok.injEq]
    exact ⟨fun heq => ⟨hall.mp h, heq.symm⟩, fun heq => heq.2.symm⟩
  · rename_i h
    simp [hall.not.mp h]

/-- Two texts in ASCII with the same characters are the same bytes. -/
theorem decode_ascii_injective {xs ys : Bytes} {s : String} (hx : decode_ascii xs = .ok s)
    (hy : decode_ascii ys = .ok s) : xs = ys := by
  obtain ⟨hxs, rfl⟩ := decode_ascii_eq_ok_iff.mp hx
  obtain ⟨hys, heq⟩ := decode_ascii_eq_ok_iff.mp hy
  have hchars := String.ofList_injective heq
  have hnat : ∀ b : UInt8, b.toNat < 128 → (Char.ofNat b.toNat).toNat = b.toNat := by
    intro b hb
    have hvalid : b.toNat.isValidChar := .inl (by omega)
    rw [Char.ofNat, dif_pos hvalid]
    rfl
  have hcongr := congrArg (List.map Char.toNat) hchars
  rw [List.map_map, List.map_map] at hcongr
  have hxmap : xs.map (Char.toNat ∘ fun b => Char.ofNat b.toNat) = xs.map UInt8.toNat :=
    List.map_congr_left fun b hb => hnat b (hxs b hb)
  have hymap : ys.map (Char.toNat ∘ fun b => Char.ofNat b.toNat) = ys.map UInt8.toNat :=
    List.map_congr_left fun b hb => hnat b (hys b hb)
  rw [hxmap, hymap] at hcongr
  exact List.map_injective_iff.mpr (fun _ _ => UInt8.toNat_inj.mp) hcongr

/-- The characters with every occurrence of `old` replaced, from the left and
    without overlaps. The first argument counts the characters of an occurrence
    that are still to be passed over. -/
def replaceChars (old new : List Char) : Nat → List Char → List Char
  | _, [] => []
  | skip + 1, _ :: cs => replaceChars old new skip cs
  | 0, c :: cs =>
    if old.isPrefixOf (c :: cs) then new ++ replaceChars old new (old.length - 1) cs
    else c :: replaceChars old new 0 cs

/-- `s.replace(old, new)`, for an `old` that is not empty. -/
def replace (s old new : String) : String := String.ofList (replaceChars old.toList new.toList 0 s.toList)

example : replace "zpl_size" "zpl_" "zp_" = "zp_size" := by decide

theorem bind_eq_ok_iff {α β : Type} {x : Py α} {f : α → Py β} {y : β} :
    (x >>= f) = .ok y ↔ ∃ a, x = .ok a ∧ f a = .ok y := by
  cases x <;> simp [Bind.bind, Except.bind]

theorem map_eq_ok_iff {α β : Type} {x : Py α} {f : α → β} {y : β} : x.map f = .ok y ↔ ∃ a, x = .ok a ∧ f a = y := by
  cases x <;> simp [Except.map]

@[simp] theorem bind_ok {α β : Type} (a : α) (f : α → Py β) : ((Except.ok a : Py α) >>= f) = f a := rfl

@[simp] theorem bind_error {α β : Type} (e : PyErr) (f : α → Py β) :
    ((Except.error e : Py α) >>= f) = .error e := rfl

theorem exists_forall₂_iff {α β : Type} {R : α → β → Prop} {xs : List α} :
    (∃ ys, List.Forall₂ R xs ys) ↔ ∀ x ∈ xs, ∃ y, R x y := by
  induction xs with
  | nil => simp
  | cons x xs ih =>
    rw [List.forall_mem_cons, ← ih]
    constructor
    · rintro ⟨ys, hys⟩
      obtain ⟨y, rest, hy, hrest, rfl⟩ := List.forall₂_cons_left_iff.mp hys
      exact ⟨⟨y, hy⟩, rest, hrest⟩
    · rintro ⟨⟨y, hy⟩, rest, hrest⟩
      exact ⟨y :: rest, .cons hy hrest⟩

theorem exists_mem_of_forall₂ {α β : Type} {R : α → β → Prop} {xs : List α} {ys : List β} (h : List.Forall₂ R xs ys)
    {x : α} (hx : x ∈ xs) : ∃ y ∈ ys, R x y := by
  induction h with
  | nil => cases hx
  | cons hhead _ ih =>
    rcases List.mem_cons.mp hx with rfl | hx
    · exact ⟨_, List.mem_cons_self, hhead⟩
    · obtain ⟨y, hy, hR⟩ := ih hx
      exact ⟨y, List.mem_cons_of_mem _ hy, hR⟩

/-- A list comprehension gives a value when each of its rounds does. -/
theorem mapM_eq_ok_iff {α β : Type} {f : α → Py β} {xs : List α} {ys : List β} :
    xs.mapM f = .ok ys ↔ List.Forall₂ (fun x y => f x = .ok y) xs ys := by
  induction xs generalizing ys with
  | nil =>
    rw [List.forall₂_nil_left_iff]
    change Except.ok [] = Except.ok ys ↔ _
    rw [Except.ok.injEq]
    exact eq_comm
  | cons x xs ih =>
    simp only [List.mapM_cons, bind_eq_ok_iff, ih, List.forall₂_cons_left_iff]
    constructor
    · rintro ⟨y, hy, ys, hys, heq⟩
      cases heq
      exact ⟨y, ys, hy, hys, rfl⟩
    · rintro ⟨y, ys, hy, hys, rfl⟩
      exact ⟨y, hy, ys, hys, rfl⟩

/-- A loop ends without an exception when each of its rounds does. -/
theorem forM_eq_ok_iff {α : Type} {f : α → Py Unit} {xs : List α} : xs.forM f = .ok () ↔ ∀ x ∈ xs, f x = .ok () := by
  induction xs with
  | nil => exact ⟨fun _ _ h => absurd h List.not_mem_nil, fun _ => rfl⟩
  | cons x xs ih =>
    change (f x >>= fun _ => xs.forM f) = .ok () ↔ _
    rw [bind_eq_ok_iff, List.forall_mem_cons, ← ih]
    constructor
    · rintro ⟨_, hx, hxs⟩
      exact ⟨hx, hxs⟩
    · rintro ⟨hx, hxs⟩
      exact ⟨(), hx, hxs⟩

end zfs_rescue
