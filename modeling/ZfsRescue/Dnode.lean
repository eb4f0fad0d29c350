import ZfsRescue.Fallback
import ZfsRescue.Zio.GenericDevice

open bytes
open zfs_rescue.blockptr zfs_rescue.zio

namespace zfs_rescue.dnode

def BLKPTR_OFFSET : Nat := 64
def DNODE_FLAG_USED_BYTES : Nat := 1 <<< 0

/-- `struct.unpack("=<n>Q", data)`. -/
def unpack_words (n : Nat) (data : Bytes) : Py (List Nat) :=
  if data.length = 8 * n then .ok ((List.range n).map (qword data)) else .error .StructError

/-- The bonus of a DSL directory, by its words: creation time, head dataset,
    parent, clone parent, child directory ZAP, and the rest in order. -/
structure BonusDirectory where
  words : List Nat
  deriving DecidableEq, Repr

def BonusDirectory.init (data : Bytes) : Py BonusDirectory := do
  let words ← unpack_words 11 (data.take (11 * 8))
  .ok { words := words }

/-- The bonus of a DSL dataset: sixteen words, the first the directory object,
    and the block pointer of its object set. -/
structure BonusDataset where
  words : List Nat
  bptr : BlockPtr
  deriving DecidableEq, Repr

def BonusDataset.init (data : Bytes) : Py BonusDataset := do
  let words ← unpack_words 16 (data.take (16 * 8))
  let bptr ← BlockPtr.parse (slice data (16 * 8) 128)
  .ok { words := words, bptr := bptr }

/-- The bonus of an old-style node: eighteen words, of which the eleventh is
    the size, and the inline content behind them. -/
structure BonusZnode where
  words : List Nat
  zp_inline_content : Bytes
  deriving DecidableEq, Repr

def BonusZnode.init (data : Bytes) : Py BonusZnode := do
  let words ← unpack_words 18 (data.take (18 * 8))
  .ok { words := words, zp_inline_content := data.drop 264 }

def BonusZnode.zp_size (self : BonusZnode) : Nat := self.words.getD 10 0

/-- One attribute of a layout: its name, and its length or zero. -/
structure SaField where
  name : String
  len : Nat
  deriving DecidableEq, Repr

/-- The layouts of a dataset, by their number in decimal. -/
abbrev SaLayouts := String → Option (List SaField)

/-- What an attribute can be set to. -/
inductive SaValue where
  | none
  | int (v : Nat)
  | pair (v0 v1 : Nat)
  | bytes (v : Bytes)
  deriving DecidableEq, Repr

/-- The attributes set on the object, the latest first, and the inline content
    if decoding came to its end. -/
structure BonusSysAttr where
  attrs : List (String × SaValue) := []
  zp_inline_content : Option Bytes := Option.none
  deriving DecidableEq, Repr

/-- `getattr(self, name)`, which the inline content is set under last. -/
def BonusSysAttr.getattr (self : BonusSysAttr) (name : String) : Option SaValue :=
  match self.zp_inline_content with
  | some content => if name = "zp_inline_content" then some (.bytes content) else self.attrs.lookup name
  | none => self.attrs.lookup name

/-- The value and length of one attribute, and how many lengths were used up. -/
def sysattr_value (data : Bytes) (ptr lenidx : Nat) (f : SaField) : Py (SaValue × Nat × Nat) :=
  if f.len = 16 then do
    let v0 ← unpackLE 8 (slice (slice data ptr 16) 0 8)
    let v1 ← unpackLE 8 (slice (slice data ptr 16) 8 8)
    .ok (.pair v0 v1, 16, lenidx)
  else if f.len = 8 then do
    let v ← unpackLE 8 (slice data ptr 8)
    .ok (.int v, 8, lenidx)
  else if f.len = 4 then do
    let v ← unpackLE 4 (slice data ptr 4)
    .ok (.int v, 4, lenidx)
  else if f.len = 0 then do
    let l ← unpackLE 2 (slice data (6 + lenidx * 2) 2)
    .ok (if f.name = "zpl_symlink" then .bytes (slice data ptr l) else .none, l, lenidx + 1)
  else .ok (.none, f.len, lenidx)

/-- The attribute loop. An exception ends it quietly, with what is set so far. -/
def sysattr_fields (data : Bytes) (ptr lenidx : Nat) (attrs : List (String × SaValue)) : List SaField → BonusSysAttr
  | [] => { attrs := attrs, zp_inline_content := some (data.drop ptr) }
  | f :: fields =>
    match sysattr_value data ptr lenidx f with
    | .error _ => { attrs := attrs }
    | .ok (v, l, lenidx) =>
      sysattr_fields data (ptr + l) lenidx ((replace f.name "zpl_" "zp_", v) :: (f.name, v) :: attrs) fields

def BonusSysAttr.init (sa : Option SaLayouts) (data : Bytes) : BonusSysAttr :=
  match sa with
  | none => {}
  | some lay =>
    match unpackLE 8 (data.take 8) with
    | .error _ => {}
    | .ok _ =>
      match lay (toString (data.getD 4 0).toNat) with
      | none => {}
      | some fields => sysattr_fields data (max ((data.getD 5 0).toNat * 2) 8) 0 [] fields

inductive Bonus where
  | directory (bonus : BonusDirectory)
  | dataset (bonus : BonusDataset)
  | znode (bonus : BonusZnode)
  | sysattr (bonus : BonusSysAttr)
  | raw (data : Bytes)
  deriving DecidableEq, Repr

/-- `bonus.size()` where it is used as a number. -/
def Bonus.size : Bonus → Py Nat
  | .znode bonus => .ok bonus.zp_size
  | .sysattr bonus =>
    match bonus.attrs.lookup "zpl_size" with
    | some (.int v) => .ok v
    | some _ => .error .TypeError
    | none => .error .AttributeError
  | _ => .error .AttributeError

/-- `bonus.zp_size`. -/
def Bonus.zp_size : Bonus → Py SaValue
  | .znode bonus => .ok (.int bonus.zp_size)
  | .sysattr bonus =>
    match bonus.getattr "zp_size" with
    | some v => .ok v
    | none => .error .AttributeError
  | _ => .error .AttributeError

/-- `bonus.zp_mode`. -/
def Bonus.zp_mode : Bonus → Py SaValue
  | .znode bonus => .ok (.int (bonus.words.getD 9 0))
  | .sysattr bonus =>
    match bonus.getattr "zp_mode" with
    | some v => .ok v
    | none => .error .AttributeError
  | _ => .error .AttributeError

/-- `bonus.size()` where it is only shown. -/
def Bonus.size_value : Bonus → Py SaValue
  | .znode bonus => .ok (.int bonus.zp_size)
  | .sysattr bonus =>
    match bonus.getattr "zpl_size" with
    | some v => .ok v
    | none => .error .AttributeError
  | _ => .error .AttributeError

/-- `bonus.zp_inline_content`. -/
def Bonus.zp_inline_content : Bonus → Py Bytes
  | .znode bonus => .ok bonus.zp_inline_content
  | .sysattr bonus =>
    match bonus.zp_inline_content with
    | some content => .ok content
    | none => .error .AttributeError
  | _ => .error .AttributeError

/-- `bonus.zp_symlink`. -/
def Bonus.zp_symlink : Bonus → Py SaValue
  | .sysattr bonus =>
    match bonus.getattr "zp_symlink" with
    | some v => .ok v
    | none => .error .AttributeError
  | _ => .error .AttributeError

/-- A dnode. Its type is `none` when the data did not look like a dnode, and the
    last four fields are set only for the types that are parsed on. -/
structure DNode where
  data : Bytes
  type : Option Nat
  indblkshift : Nat
  nlevels : Nat
  nblkptr : Nat
  bonustype : Nat
  flags : Nat
  datablkszsec : Nat
  bonuslen : Nat
  extra_slots : Nat
  maxblkid : Nat
  used : Nat
  blkptr : Option (List BlockPtr) := none
  datablksize : Option Nat := none
  bonus : Option Bonus := none
  deriving DecidableEq, Repr

def byteAt (data : Bytes) (i : Nat) : Nat := (data.getD i 0).toNat

/-- The fixed fields of a dnode, before its type is looked at. -/
def DNode.parse_header (data : Bytes) : DNode where
  data := data
  type := some (byteAt data 0)
  indblkshift := byteAt data 1
  nlevels := byteAt data 2
  nblkptr := byteAt data 3
  bonustype := byteAt data 4
  flags := byteAt data 7
  datablkszsec := readLE (slice data 8 2)
  bonuslen := readLE (slice data 10 2)
  extra_slots := byteAt data 12
  maxblkid := readLE (slice data 16 8)
  used := readLE (slice data 24 8)

def DNode.parse_bonus (self : DNode) (sa : Option SaLayouts) (bonus_data : Bytes) : Py Bonus :=
  if self.bonuslen ≠ 0 ∧ self.bonustype = 12 then do
    let bonus ← BonusDirectory.init bonus_data
    .ok (.directory bonus)
  else if self.bonuslen ≠ 0 ∧ self.bonustype = 16 then do
    let bonus ← BonusDataset.init bonus_data
    .ok (.dataset bonus)
  else if self.bonuslen ≠ 0 ∧ self.bonustype = 17 then do
    let bonus ← BonusZnode.init bonus_data
    .ok (.znode bonus)
  else if self.bonuslen ≠ 0 ∧ self.bonustype = 0x2c then .ok (.sysattr (BonusSysAttr.init sa bonus_data))
  else .ok (.raw bonus_data)

/-- `DNode.parse`, in an object set with the given attribute layouts. -/
def DNode.parse (sa : Option SaLayouts) (data : Bytes) : Py DNode :=
  let dn := DNode.parse_header data
  if data.length < 512 then .error .ValueError
  else if dn.type = some 0 then .ok dn
  else if byteAt data 0 > 100 ∧ byteAt data 0 ≠ 196 then .ok { dn with type := none }
  else if dn.nblkptr > 3 then .ok { dn with type := none, blkptr := some [] }
  else do
    let blkptr ← (List.range dn.nblkptr).mapM fun bn => BlockPtr.parse (slice data (BLKPTR_OFFSET + bn * 128) 128)
    let bonus ← dn.parse_bonus sa (slice data (BLKPTR_OFFSET + dn.nblkptr * 128) dn.bonuslen)
    .ok
      { dn with
        used := if dn.flags &&& DNODE_FLAG_USED_BYTES = 0 then dn.used <<< 9 else dn.used
        blkptr := some blkptr
        datablksize := some (dn.datablkszsec <<< 9)
        bonus := some bonus }

/-- `blkptrs[i]`, which an unallocated or invalid dnode does not have. -/
def DNode.blkptrs (self : DNode) (i : Nat) : Py BlockPtr :=
  match self.blkptr with
  | none => .error .TypeError
  | some blkptr => index blkptr i

theorem DNode.blkptrs_eq {self : DNode} {blkptr : List BlockPtr} (h : self.blkptr = some blkptr) (i : Nat) :
    self.blkptrs i = index blkptr i := by
  rw [DNode.blkptrs, h]

/-- Whether data read from a copy counts as true: it is there and not empty. -/
def truthy : Option Bytes → Bool
  | some (_ :: _) => true
  | _ => false

/-- The stop test `data and c` of the copy loops. -/
def data_and_c (r : Option Bytes × Bool) : Bool := truthy r.1 && r.2

/-- The loop over the copies of a block: the copy it ends on, and what reading
    that copy gave. -/
def read_copies (vdev : GenericDevice) (stop : Option Bytes × Bool → Bool) (bptr : BlockPtr) (dvas : List Nat) :
    Py (Option (Nat × Option Bytes × Bool)) :=
  fallback.search (vdev.read_block bptr) stop dvas

/-- The data the loop leaves behind. -/
def copies_data (found : Option (Nat × Option Bytes × Bool)) : Option Bytes := found.bind fun f => f.2.1

/-- The dnode in the data that was loaded, if any was. -/
def DNode.from_data (sa : Option SaLayouts) : Option Bytes → Py (Option DNode)
  | none => .ok none
  | some data => do
    let dn ← DNode.parse sa data
    .ok (some dn)

def DNode.from_bptr (vdev : GenericDevice) (bptr : BlockPtr) (dvas : List Nat) (sa : Option SaLayouts) :
    Py (Option DNode) := do
  let found ← read_copies vdev data_and_c bptr dvas
  DNode.from_data sa (copies_data found)

/-- A loop that is content with its first copy ends there. -/
theorem read_copies_first {vdev : GenericDevice} {bptr : BlockPtr} {dva : Nat} {dvas : List Nat}
    {stop : Option Bytes × Bool → Bool} {r : Option Bytes × Bool} (hread : vdev.read_block bptr dva = .ok r)
    (hstop : stop r = true) : read_copies vdev stop bptr (dva :: dvas) = .ok (some (dva, r)) :=
  fallback.search_eq_ok_some_iff.mpr ⟨[], dvas, rfl, by simp, hread, .inl hstop⟩

theorem truthy_iff {data : Option Bytes} : truthy data = true ↔ ∃ block, data = some block ∧ block ≠ [] := by
  cases data with
  | none => simp [truthy]
  | some block => cases block <;> simp [truthy]

theorem data_and_c_false (data : Option Bytes) : data_and_c (data, false) = false := Bool.and_false _

theorem data_and_c_iff {r : Option Bytes × Bool} :
    data_and_c r = true ↔ ∃ block, r = (some block, true) ∧ block ≠ [] := by
  obtain ⟨data, c⟩ := r
  rw [data_and_c, Bool.and_eq_true, truthy_iff]
  constructor
  · rintro ⟨⟨block, rfl, hne⟩, rfl⟩
    exact ⟨block, rfl, hne⟩
  · rintro ⟨block, heq, hne⟩
    cases heq
    exact ⟨⟨block, rfl, hne⟩, rfl⟩

end zfs_rescue.dnode
