import ZfsRescue.Dataset.Directories
import ZfsRescue.Fileobj.Agrees

open bytes dict
open zfs_rescue.zio zfs_rescue.dnode zfs_rescue.dataset zfs_rescue.fileobj

namespace zfs_rescue.fuse

/-- `llfuse.ROOT_INODE`. -/
def ROOT_INODE : Nat := 1

/-- What a request raises: the error for a missing entry, or whatever came up. -/
inductive FuseErr where
  | ENOENT
  | raised (e : PyErr)
  deriving DecidableEq, Repr

abbrev Reply := Except FuseErr

instance {α : Type} [DecidableEq α] : DecidableEq (Reply α) := inferInstanceAs (DecidableEq (Except FuseErr α))

def map_st_mode : List (Char × Nat) :=
  [('s', 0o140000), ('l', 0o120000), ('f', 0o100000), ('b', 0o060000), ('d', 0o040000), ('c', 0o020000),
    ('p', 0o010000)]

/-- The attributes of an entry that do not depend on the time or the user. -/
structure EntryAttributes where
  st_mode : Nat
  st_size : SaValue
  st_ino : Nat
  deriving DecidableEq, Repr

/-- `size()` of a node. -/
def node_size (e : zfsnode) : SaValue := if e.stattype = 'd' then .int 0 else e.size

/-- `_getattr`. A type without a mode has the permissions alone. -/
def entry_getattr (e : zfsnode) : EntryAttributes where
  st_mode := 0o777 ||| (map_st_mode.lookup e.stattype).getD 0
  st_size := node_size e
  st_ino := e.inode

/-- A `zfsnode` as an object: its node, and the two fields that change, the name of
    its temporary file and the objects of its directory. -/
structure NodeObject where
  node : zfsnode
  cache_file : Option Nat := none
  directory : Option (List Nat) := none
  deriving DecidableEq, Repr

/-- The mounted file system: the node objects made so far, which object is
    registered for an inode, the temporary files, and how many names for these
    were drawn. A name is its number, so that a new one is fresh. -/
structure zfsfuse where
  objects : List NodeObject
  inode_map : Dict Nat Nat
  files : Dict Nat Bytes
  names : Nat
  deriving DecidableEq, Repr

/-- `Dataset.rootdir`. -/
def rootdir (dataset : Dataset) (rootdir_id inoderoot : Nat) : Py zfsnode := do
  let r ← dataset.getitem rootdir_id
  .ok
    { dnode := r, stattype := 'd', mode := none, datasetid := rootdir_id, size := .int 0, name := "/",
      inoderoot := inoderoot, inode := inoderoot, abspath := "" }

def zfsfuse.init (dataset : Dataset) (rootdir_id : Nat) : Py zfsfuse := do
  let root ← rootdir dataset rootdir_id ROOT_INODE
  .ok { objects := [{ node := root }], inode_map := [(root.inode, 0)], files := [], names := 0 }

def zfsfuse.findinode (self : zfsfuse) (i : Nat) : Reply Nat :=
  match self.inode_map.lookup i with
  | some k => .ok k
  | none => .error .ENOENT

def zfsfuse.registerinode (self : zfsfuse) (i k : Nat) : zfsfuse :=
  { self with inode_map := set self.inode_map i k }

/-- The object registered for an inode. -/
def zfsfuse.object (self : zfsfuse) (i : Nat) : Option (Nat × NodeObject) :=
  match self.inode_map.lookup i with
  | some k => (self.objects[k]?).map fun o => (k, o)
  | none => none

/-- `readdir` of a node object. Its directory is read once, and then kept. -/
def zfsfuse.node_readdir (dataset : Dataset) (self : zfsfuse) (k : Nat) : Reply (Option (List Nat)) × zfsfuse :=
  match self.objects[k]? with
  | none => (.ok none, self)
  | some o =>
    match o.directory with
    | some directory => (.ok (some directory), self)
    | none =>
      match dataset.readdir o.node.datasetid o.node.inoderoot o.node.abspath with
      | .error e => (.error (.raised e), self)
      | .ok none => (.ok none, self)
      | .ok (some nodes) =>
        let directory := (List.range nodes.length).map fun j => self.objects.length + j
        (.ok (some directory),
          { self with
            objects := self.objects.set k { o with directory := some directory } ++ nodes.map fun e => { node := e } })

/-- The objects of a directory. -/
def zfsfuse.members (self : zfsfuse) (directory : List Nat) : List (Nat × NodeObject) :=
  directory.filterMap fun j => (self.objects[j]?).map fun o => (j, o)

/-- `r[name]`, where the last object with the name is the one that stays. -/
def zfsfuse.named (self : zfsfuse) (directory : List Nat) (name : String) : Option (Nat × NodeObject) :=
  (self.members directory).reverse.find? fun m => m.2.node.name = name

def zfsfuse.lookup (dataset : Dataset) (self : zfsfuse) (parent_inode : Nat) (name : String) :
    Reply EntryAttributes × zfsfuse :=
  match self.findinode parent_inode with
  | .error e => (.error e, self)
  | .ok k =>
    match self.node_readdir dataset k with
    | (.error e, self) => (.error e, self)
    | (.ok none, self) => (.error .ENOENT, self)
    | (.ok (some directory), self) =>
      match self.named directory name with
      | none => (.error .ENOENT, self)
      | some (j, o) => (.ok (entry_getattr o.node), self.registerinode (entry_getattr o.node).st_ino j)

/-- An entry of a listing. Its name is encoded on the way out. -/
structure Dirent where
  ino : Nat
  name : String
  attr : EntryAttributes
  deriving DecidableEq, Repr

def dirent (e : zfsnode) : Dirent where
  ino := (entry_getattr e).st_ino
  name := e.name
  attr := entry_getattr e

/-- The order of the tuples: by inode, then by name. Names in a directory differ,
    so that it never comes to the attributes. -/
def dirent_le (a b : Dirent) : Bool := decide (a.ino < b.ino) || (a.ino == b.ino && str_le a.name b.name)

/-- What `readdir` yields from an offset on. -/
def entries_from (nodes : List zfsnode) (off : Nat) : List Dirent :=
  ((nodes.map dirent).insertionSort fun a b => dirent_le a b = true).filter fun e => off < e.ino

/-- `readdir`, taken to its end. A directory that is `None` cannot be gone
    through. -/
def zfsfuse.readdir (dataset : Dataset) (self : zfsfuse) (fh off : Nat) : Reply (List Dirent) × zfsfuse :=
  match self.findinode fh with
  | .error e => (.error e, self)
  | .ok k =>
    match self.node_readdir dataset k with
    | (.error e, self) => (.error e, self)
    | (.ok none, self) => (.error (.raised .TypeError), self)
    | (.ok (some directory), self) =>
      (.ok (entries_from ((self.members directory).map fun m => m.2.node) off), self)

/-- The file that `Dataset.extract_file` leaves under the name it is given, if it
    comes to open it, also when it raises. -/
def left_behind (dataset : Dataset) (v : Nat) : Option Bytes :=
  match dataset.getitem v with
  | .error _ => none
  | .ok none => some []
  | .ok (some dn) =>
    match extract_file dataset.vdev (some dn), cannot_extract dn with
    | .ok r, _ => some r.1
    | .error _, .ok _ => some (written dataset.vdev dn)
    | .error _, .error _ => some []

/-- `extract_file` of a node object, which catches what the extraction raises. -/
def zfsfuse.extract_file (dataset : Dataset) (self : zfsfuse) (k : Nat) : zfsfuse :=
  match self.objects[k]? with
  | none => self
  | some o =>
    if o.node.stattype = 'f' then
      { self with
        objects := self.objects.set k { o with cache_file := some self.names }
        names := self.names + 1
        files :=
          match left_behind dataset o.node.datasetid with
          | none => self.files
          | some content => set self.files self.names content }
    else self

/-- `open`: the text that is logged at the end takes a number for the size. -/
def zfsfuse.open_file (dataset : Dataset) (self : zfsfuse) (inode : Nat) : Reply Nat × zfsfuse :=
  match self.object inode with
  | none => (.error .ENOENT, self)
  | some (k, o) =>
    match node_size o.node with
    | .int _ => (.ok inode, self.extract_file dataset k)
    | _ => (.error (.raised .TypeError), self.extract_file dataset k)

/-- `read`: the temporary file is opened each time. -/
def zfsfuse.read (self : zfsfuse) (fh off size : Nat) : Reply Bytes :=
  match self.object fh with
  | none => .error .ENOENT
  | some (_, o) =>
    match o.cache_file with
    | none => .error (.raised .TypeError)
    | some name =>
      match self.files.lookup name with
      | none => .error (.raised .OSError)
      | some content =>
        match seek_read content off size with
        | .ok data => .ok data
        | .error e => .error (.raised e)

/-- `release`: the name of the temporary file stays set. -/
def zfsfuse.release (self : zfsfuse) (fd : Nat) : Reply Unit × zfsfuse :=
  match self.object fd with
  | none => (.error .ENOENT, self)
  | some (_, o) =>
    match o.cache_file with
    | none => (.ok (), self)
    | some name =>
      match self.files.lookup name with
      | none => (.error (.raised .OSError), self)
      | some _ => (.ok (), { self with files := self.files.filter fun file => file.1 ≠ name })

end zfs_rescue.fuse
