import Mathlib.Data.List.Nodup
import ZfsRescue.Bytes.Words

open bytes

namespace xdr

/-- The length of a string with the bytes that pad it to whole words. -/
def padded (n : Nat) : Nat := (n + 3) / 4 * 4

theorem le_padded (n : Nat) : n ≤ padded n := by
  unfold padded
  omega

/-- A string with its length before it and the padding behind it. -/
def string (s : Bytes) : Bytes :=
  writeBE 4 s.length ++ (s ++ List.replicate (padded s.length - s.length) 0)

theorem length_string (s : Bytes) : (string s).length = padded s.length + 4 := by
  have hle := le_padded s.length
  simp only [string, List.length_append, length_writeBE, List.length_replicate]
  omega

mutual

/-- A list of pairs behind a header. -/
inductive NVList where
  | mk (header : Bytes) (pairs : List NVPair)

/-- A name with its data, and the size it has outside of the stream. -/
inductive NVPair where
  | mk (unpacked : Nat) (name : Bytes) (data : NVData)

/-- What a pair has for a value: numbers, strings, nested lists, or the bytes that
    some other type has for its elements. -/
inductive NVData where
  | uint32 (vs : List Nat)
  | uint64 (vs : List Nat)
  | string (vs : List Bytes)
  | nvlist (vs : List NVList)
  | nvlist_array (vs : List NVList)
  | other (type count : Nat) (value : Bytes)

end

def NVList.header : NVList → Bytes
  | .mk header _ => header

def NVList.pairs : NVList → List NVPair
  | .mk _ pairs => pairs

def NVPair.unpacked : NVPair → Nat
  | .mk unpacked _ _ => unpacked

def NVPair.name : NVPair → Bytes
  | .mk _ name _ => name

def NVPair.data : NVPair → NVData
  | .mk _ _ data => data

def NVData.type : NVData → Nat
  | .uint32 _ => 6
  | .uint64 _ => 8
  | .string _ => 9
  | .nvlist _ => 19
  | .nvlist_array _ => 20
  | .other type _ _ => type

def NVData.count : NVData → Nat
  | .uint32 vs => vs.length
  | .uint64 vs => vs.length
  | .string vs => vs.length
  | .nvlist vs => vs.length
  | .nvlist_array vs => vs.length
  | .other _ count _ => count

/-- The nested lists of a value. -/
def NVData.lists : NVData → List NVList
  | .nvlist vs => vs
  | .nvlist_array vs => vs
  | _ => []

/-- A pair in the stream: its size there, its size outside, its name, and its type,
    count and value. -/
def pair (unpacked : Nat) (name : Bytes) (type count : Nat) (value : Bytes) : Bytes :=
  writeBE 4 (16 + (padded name.length + 4) + value.length) ++ (writeBE 4 unpacked ++ (string name ++
    (writeBE 4 type ++ (writeBE 4 count ++ value))))

mutual

def NVList.encode : NVList → Bytes
  | .mk header pairs => header ++ (encodePairs pairs ++ List.replicate 8 0)

def encodePairs : List NVPair → Bytes
  | [] => []
  | p :: ps => p.encode ++ encodePairs ps

def NVPair.encode : NVPair → Bytes
  | .mk unpacked name data => pair unpacked name data.type data.count data.encode

def NVData.encode : NVData → Bytes
  | .uint32 vs => vs.flatMap (writeBE 4)
  | .uint64 vs => vs.flatMap (writeBE 8)
  | .string vs => vs.flatMap string
  | .nvlist vs => encodeLists vs
  | .nvlist_array vs => encodeLists vs
  | .other _ _ value => value

def encodeLists : List NVList → Bytes
  | [] => []
  | l :: ls => l.encode ++ encodeLists ls

end

theorem NVList.encode_eq (l : NVList) : l.encode = l.header ++ (l.pairs.flatMap NVPair.encode ++ List.replicate 8 0) := by
  have hpairs : ∀ ps : List NVPair, encodePairs ps = ps.flatMap NVPair.encode := by
    intro ps
    induction ps with
    | nil => simp [encodePairs]
    | cons p ps ih => simp [encodePairs, ih]
  obtain ⟨header, pairs⟩ := l
  rw [NVList.encode, hpairs]
  rfl

theorem NVPair.encode_eq (p : NVPair) : p.encode = pair p.unpacked p.name p.data.type p.data.count p.data.encode := by
  obtain ⟨unpacked, name, data⟩ := p
  rw [NVPair.encode]
  rfl

theorem encodeLists_eq (ls : List NVList) : encodeLists ls = ls.flatMap NVList.encode := by
  induction ls with
  | nil => simp [encodeLists]
  | cons l ls ih => simp [encodeLists, ih]

/-- The size that stands in front of a pair. -/
def NVPair.size (p : NVPair) : Nat := 16 + (padded p.name.length + 4) + p.data.encode.length

theorem NVPair.length_encode (p : NVPair) : p.encode.length = p.size := by
  rw [p.encode_eq]
  simp only [pair, List.length_append, length_writeBE, length_string, NVPair.size]
  omega

/-- The elements of a value fit in their words, and a type that is not read by its
    elements is one of the 27. -/
def NVData.Fits : NVData → Prop
  | .uint32 vs => ∀ v ∈ vs, v < 2 ^ 32
  | .uint64 vs => ∀ v ∈ vs, v < 2 ^ 64
  | .string vs => ∀ v ∈ vs, v.length < 2 ^ 32
  | .other type _ _ => 1 ≤ type ∧ type ≤ 27 ∧ type ∉ [6, 8, 9, 19, 20]
  | _ => True

structure NVPair.Fits (p : NVPair) : Prop where
  size_lt : p.size < 2 ^ 32
  unpacked_lt : p.unpacked < 2 ^ 32
  count_lt : p.data.count < 2 ^ 32
  data_fits : p.data.Fits

/-- A list that the format allows: a header of eight bytes, pairs with different
    names that fit in their words, and nested lists of the same kind. -/
inductive NVList.WellFormed : NVList → Prop where
  | mk {header : Bytes} {pairs : List NVPair} : header.length = 8 → (pairs.map NVPair.name).Nodup →
      (∀ p ∈ pairs, p.Fits) → (∀ p ∈ pairs, ∀ l ∈ p.data.lists, l.WellFormed) → (NVList.mk header pairs).WellFormed

end xdr
