import ZfsRescue.Fileobj
import ZfsRescue.Sorted
import ZfsRescue.Walk
import ZfsRescue.Zap.Parse

open bytes sorted walk
open zfs_rescue.zio zfs_rescue.dnode zfs_rescue.objectset zfs_rescue.zap zfs_rescue.fileobj

namespace zfs_rescue.dataset

def TYPECODES : String := "-pc-d-b-f-l-soe-"

/-- The order of two texts in Python, by their code points. -/
def str_le (a b : String) : Bool := lex_le (a.toList.map Char.toNat) (b.toList.map Char.toNat)

/-- The entries of a directory in the order of `sorted(zap.keys())`. -/
def sorted_entries (entries : Entries) : Entries := entries.insertionSort fun a b => str_le a.1 b.1 = true

/-- What the traversals use of a data set: `self[v]`, a lookup on the medium
    since the caches are transparent, and `zap_factory` on its device. -/
structure Dataset where
  vdev : GenericDevice
  getitem : Nat → Py (Option DNode)
  zap_factory : DNode → Py (Option Entries)

/-- The data set of an object set, with room for `frames` calls on the stack. -/
def Dataset.of (os : ObjectSet) (sa : Option SaLayouts) (frames : Nat) : Dataset where
  vdev := os.vdev
  getitem v := os.lookup sa (v : Int)
  zap_factory dnode := zap.zap_factory frames os.vdev dnode

/-- A directory entry: its name, the object it refers to and the code of its
    type. -/
structure DirEntry where
  name : String
  v : Nat
  k : Char
  deriving DecidableEq, Repr

/-- The type is in the top four of 64 bits: a larger number has no code. -/
def dir_entry (e : String × ZapValue) : Py DirEntry :=
  match e.2 with
  | .data _ => .error .TypeError
  | .int value => do
    let k ← index TYPECODES.toList (value >>> 60)
    .ok { name := e.1, v := value % 2 ^ 60, k := k }

/-- A node of the mounted file system. The mode of the root is -1, which is
    `none` here. -/
structure zfsnode where
  dnode : Option DNode
  stattype : Char
  mode : Option SaValue
  datasetid : Nat
  size : SaValue
  name : String
  inoderoot : Nat
  inode : Nat
  abspath : String
  deriving DecidableEq, Repr

/-- The size and the mode of a node, as far as they can be had. -/
def size_and_mode (entry_dnode : DNode) : SaValue × SaValue :=
  match entry_dnode.bonus with
  | none => (.int 0, .int 0)
  | some bonus =>
    match bonus.zp_size, bonus.zp_mode with
    | .ok size, .ok mode => (size, mode)
    | .ok size, .error _ => (size, .int 0)
    | .error _, _ => (.int 0, .int 0)

/-- One entry of `readdir`: the text shown for it needs a dnode. -/
def readdir_entry (self : Dataset) (inoderoot : Nat) (relpath : String) (e : String × ZapValue) : Py zfsnode := do
  let e ← dir_entry e
  let entry_dnode ← self.getitem e.v
  match entry_dnode with
  | none => .error .AttributeError
  | some dn =>
    .ok
      { dnode := some dn, stattype := e.k, mode := some (size_and_mode dn).2, datasetid := e.v,
        size := (size_and_mode dn).1, name := e.name, inoderoot := inoderoot, inode := inoderoot + e.v,
        abspath := relpath ++ "/" ++ e.name }

def Dataset.readdir (self : Dataset) (dir_dnode_id inoderoot : Nat) (relpath : String) : Py (Option (List zfsnode)) := do
  let dir_dnode ← self.getitem dir_dnode_id
  match dir_dnode with
  | none => .ok none
  | some dir_dnode =>
    match self.zap_factory dir_dnode with
    | .error _ => .ok (some [])
    | .ok none => .ok (some [])
    | .ok (some entries) => do
      let r ← (sorted_entries entries).mapM (readdir_entry self inoderoot relpath)
      .ok (some r)

/-- A directory on the way, with the path it was reached by. -/
abbrev Place := Nat × String

/-- The part that `_export_dir` and `_archive` begin with: the entries of a
    directory, or what an unreachable one gives. -/
def Dataset.entries {α : Type} (self : Dataset) (missing : Place → List α) (dir : Place) :
    Py (List α × List (String × ZapValue)) := do
  let dir_dnode ← self.getitem dir.1
  match dir_dnode with
  | none => .ok (missing dir, [])
  | some dir_dnode => do
    let zap ← self.zap_factory dir_dnode
    .ok ([], sorted_entries (zap.getD []))

/-- A row of the file list. A size of -1 is `none`. -/
structure Row where
  v : Nat
  size : Option SaValue
  full_name : String
  deriving DecidableEq, Repr

/-- `bonus.zp_size` of an entry, -1 without a dnode. -/
def entry_size : Option DNode → Py (Option SaValue)
  | none => .ok none
  | some entry_dnode => do
    let size ← zp_size entry_dnode
    .ok (some size)

/-- One entry of `_export_dir`: its row, and the directory to go on with. -/
def export_entry (self : Dataset) (dir : Place) (e : String × ZapValue) : Py (List Row × Option Place) := do
  let e ← dir_entry e
  let entry_dnode ← self.getitem e.v
  let size ← entry_size entry_dnode
  let full_name := dir.2 ++ e.name
  if e.k = 'f' then .ok ([{ v := e.v, size := size, full_name := full_name }], none)
  else if e.k = 'l' then .ok ([{ v := e.v, size := size, full_name := full_name ++ " -> ..." }], none)
  else if e.k = 'd' then
    .ok ([{ v := e.v, size := some (.int 0), full_name := full_name ++ "/" }], some (e.v, full_name ++ "/"))
  else .ok ([], none)

def export_walk (self : Dataset) : Walk Place (String × ZapValue) Row PyErr where
  visit := self.entries fun dir => [{ v := dir.1, size := none, full_name := dir.2 }]
  step := export_entry self
  full := .RuntimeError

/-- The rows of `_export_dir`, with room for `frames` calls of it; `dir_name` is its
    `dir_prefix`. -/
def Dataset.export_dir (self : Dataset) (frames dir_node_id : Nat) (dir_name : String) : Py (List Row) :=
  (export_walk self).run frames (dir_node_id, dir_name)

inductive MemberType where
  | file (content : Bytes)
  | directory
  | symlink (linkname : String)
  deriving DecidableEq, Repr

/-- A member of the archive. -/
structure Member where
  name : String
  type : MemberType
  deriving DecidableEq, Repr

/-- The name `gettarinfo` makes of its `arcname`. -/
def arcname (name : String) : String := String.ofList (name.toList.dropWhile (· = '/'))

/-- `linkf.read(n)` for a file without zeros in place of bad blocks, which has
    no more turns than blocks left. -/
def read_link (linkf : FileObj) (n : Nat) : Py Bytes :=
  match linkf.read (linkf.max_blkid + 2) n with
  | some (.ok (data, _)) => .ok data
  | some (.error e) => .error e
  | none => .error .RuntimeError

/-- The target of a symbolic link as `_archive` finds it: behind the attributes
    if these have enough bytes behind them, else in the data blocks, which may
    not be enough. -/
def link_target (vdev : GenericDevice) (entry_dnode : DNode) (file_info : Bonus) : Py (Option String) := do
  let zp_size ← file_info.zp_size
  let zp_inline_content ← file_info.zp_inline_content
  match zp_size with
  | .int size =>
    if size > zp_inline_content.length then do
      let linkf ← FileObj.init vdev entry_dnode false
      let target ← read_link linkf size
      .ok (if target.length < size then none else some (safe_decode_string target))
    else .ok (some (safe_decode_string (zp_inline_content.take size)))
  | _ => .error .TypeError

/-- One entry of `_archive` with a dnode, of a type that is archived. -/
def archive_object (self : Dataset) (dir : Place) (e : DirEntry) (entry_dnode : DNode) :
    Py (List Member × Option Place) :=
  match entry_dnode.bonus with
  | none => .error .AttributeError
  | some file_info => do
    let _ ← file_info.size_value
    let full_name := dir.2 ++ e.name
    if e.k = 'f' then do
      let extracted ← extract_file self.vdev (some entry_dnode)
      let full_name := if extracted.2 then full_name else full_name ++ "._corrupted"
      .ok ([{ name := arcname full_name, type := .file extracted.1 }], none)
    else if e.k = 'd' then .ok ([{ name := full_name, type := .directory }], some (e.v, full_name ++ "/"))
    else do
      let target ← link_target self.vdev entry_dnode file_info
      match target with
      | none => .ok ([], none)
      | some linkname => .ok ([{ name := full_name, type := .symlink linkname }], none)

/-- One entry of `_archive`. -/
def archive_entry (self : Dataset) (skip_objs : List Nat) (dir : Place) (e : String × ZapValue) :
    Py (List Member × Option Place) := do
  let e ← dir_entry e
  if e.v ∈ skip_objs then .ok ([], none)
  else if e.k = 'd' ∨ e.k = 'f' ∨ e.k = 'l' then do
    let entry_dnode ← self.getitem e.v
    match entry_dnode with
    | none => .ok ([], none)
    | some entry_dnode => archive_object self dir e entry_dnode
  else .ok ([], none)

def archive_walk (self : Dataset) (skip_objs : List Nat) : Walk Place (String × ZapValue) Member PyErr where
  visit := self.entries fun _ => []
  step := archive_entry self skip_objs
  full := .RuntimeError

/-- The members that `_archive` adds, with room for `frames` calls of it; `dir_name` is
    its `dir_prefix`. -/
def Dataset.archive (self : Dataset) (frames : Nat) (skip_objs : List Nat) (dir_node_id : Nat) (dir_name : String) :
    Py (List Member) :=
  (archive_walk self skip_objs).run frames (dir_node_id, dir_name)

end zfs_rescue.dataset
