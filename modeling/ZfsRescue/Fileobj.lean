import ZfsRescue.Dataset.ExtractFile

open bytes
open zfs_rescue.blockptr zfs_rescue.zio zfs_rescue.dnode zfs_rescue.blocktree zfs_rescue.dataset

namespace zfs_rescue.fileobj

/-- A file that is read in steps. -/
structure FileObj where
  bt : BlockTree
  cache : Cache := []
  next_blkid : Nat := 0
  max_blkid : Nat
  datablksize : Option Nat
  size : SaValue
  filepos : Nat := 0
  blkpos : Nat := 0
  buf : Option Bytes := some []
  corrupted : Bool := false
  bad_as_zeros : Bool := false

/-- `dnode.bonus.zp_size`. A dnode without a bonus has `None` there. -/
def zp_size (dnode : DNode) : Py SaValue :=
  match dnode.bonus with
  | none => .error .AttributeError
  | some bonus => bonus.zp_size

def FileObj.init (vdev : GenericDevice) (dnode : DNode) (bad_as_zeros : Bool) : Py FileObj := do
  let bt ← block_tree vdev dnode
  let size ← zp_size dnode
  .ok { bt := bt, max_blkid := dnode.maxblkid, datablksize := dnode.datablksize, size := size,
        bad_as_zeros := bad_as_zeros }

/-- One turn of the loop as far as it reads a block, and whether that is bad. -/
def FileObj.fetch (self : FileObj) : Py (FileObj × Bool) :=
  if self.next_blkid > self.max_blkid then .ok (self, true)
  else
    match self.bt.getitem self.cache self.next_blkid with
    | (.error e, _) => .error e
    | (.ok none, cache) => .ok ({ self with cache := cache, next_blkid := self.next_blkid + 1 }, true)
    | (.ok (some bptr), cache) => do
      let r ← self.bt.vdev.read_block bptr 0
      .ok ({ self with cache := cache, next_blkid := self.next_blkid + 1, buf := r.1 }, r.1.isNone)

/-- The treatment of a bad block: zeros take its place, or the loop ends, which
    is the outcome `none`. -/
def FileObj.bad_block (self : FileObj) : Py (Option Bytes) :=
  if self.bad_as_zeros then
    match self.datablksize with
    | none => .error .TypeError
    | some datablksize => .ok (some (List.replicate datablksize 0))
  else .ok none

/-- The rest of the turn: the block is in the buffer, and the data takes what it
    needs of it. -/
def FileObj.take_block (self : FileObj) (n : Nat) (data buf : Bytes) : FileObj × Bytes :=
  let nn := min (n - data.length) buf.length
  ({ self with buf := some buf, blkpos := nn }, data ++ buf.take nn)

/-- The loop of `read`, while the data is shorter than `n`. It is left with
    `none` when the fuel does not last. -/
def FileObj.read_blocks (n : Nat) : Nat → FileObj → Bytes → Option (Py (Bytes × FileObj))
  | 0, self, data => if n ≤ data.length then some (.ok (data, self)) else none
  | fuel + 1, self, data =>
    if n ≤ data.length then some (.ok (data, self))
    else
      match self.fetch with
      | .error e => some (.error e)
      | .ok (self, false) =>
        match self.buf with
        | none => some (.error .TypeError)
        | some buf => FileObj.read_blocks n fuel (self.take_block n data buf).1 (self.take_block n data buf).2
      | .ok (self, true) =>
        match self.bad_block with
        | .error e => some (.error e)
        | .ok none => some (.ok (data, { self with corrupted := true }))
        | .ok (some buf) =>
          let turn := { self with corrupted := true }.take_block n data buf
          FileObj.read_blocks n fuel turn.1 turn.2

/-- `read(n)`: first the rest of the buffer, which must not be `None`. -/
def FileObj.read (fuel : Nat) (self : FileObj) (n : Nat) : Option (Py (Bytes × FileObj)) :=
  match self.buf with
  | none => some (.error .TypeError)
  | some buf =>
    let nn := min n (buf.length - self.blkpos)
    match FileObj.read_blocks n fuel { self with blkpos := self.blkpos + nn } (slice buf self.blkpos nn) with
    | some (.ok (data, self)) => some (.ok (data, { self with filepos := self.filepos + data.length }))
    | other => other

def FileObj.tell (self : FileObj) : Nat := self.filepos

/-- One read after the other, each with what `tell` gives after it. -/
def FileObj.reads (fuel : Nat) : FileObj → List Nat → Option (Py (List (Bytes × Nat)))
  | _, [] => some (.ok [])
  | self, n :: sizes =>
    match self.read fuel n with
    | none => none
    | some (.error e) => some (.error e)
    | some (.ok (data, self)) =>
      match FileObj.reads fuel self sizes with
      | some (.ok rest) => some (.ok ((data, self.tell) :: rest))
      | other => other

end zfs_rescue.fileobj
