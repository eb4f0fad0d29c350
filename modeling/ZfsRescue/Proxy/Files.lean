import ZfsRescue.Proxy.Serves

open bytes

namespace zfs_rescue.proxy

/-- A value of the translation table: a file, or the one-tebibyte parts of one. -/
inductive Translation where
  | file (path : String)
  | parts (paths : List String)
  deriving DecidableEq, Repr

def Translation.is_parts : Translation → Bool
  | .file _ => false
  | .parts _ => true

/-- The proxy over local files: its translation table, and what `open` makes of
    a path. The files do not change while they are read. -/
structure FileProxy where
  trans_table : List (String × Translation)
  open_path : String → Py Bytes

/-- The handles kept open, by device name. A handle is the contents behind it. -/
abbrev DeviceFiles := List (String × Bytes)

/-- One device in parts switches the whole proxy to parts. -/
def FileProxy.use_1tb (self : FileProxy) : Bool := self.trans_table.any fun kv => kv.2.is_parts

/-- The path opened for part `idx` of a device. A file of a table that also has
    parts is indexed like a list of paths, which picks one of its characters. -/
def FileProxy.trans_path (self : FileProxy) (dev_path : String) (idx : Nat) : Py String :=
  match self.trans_table.lookup dev_path with
  | none => .ok dev_path
  | some (.file path) =>
    if self.use_1tb then do
      let c ← index path.toList idx
      .ok (String.singleton c)
    else .ok path
  | some (.parts paths) => if self.use_1tb then index paths idx else .error .TypeError

def FileProxy.open_part (self : FileProxy) (dev_path : String) (idx : Nat) : Py Bytes := do
  let path ← self.trans_path dev_path idx
  self.open_path path

/-- `_read_files`, with the open handles before and after. -/
def FileProxy.read_files (self : FileProxy) (files : DeviceFiles) (dev_path : String) (offset count : Nat) :
    Py Bytes × DeviceFiles :=
  let idx := offset / (1024 * 1024 * 1024 * 1024)
  let dev_path_r := if self.use_1tb then dev_path ++ "." ++ toString idx else dev_path
  let offset := if self.use_1tb then offset % (1024 * 1024 * 1024 * 1024) else offset
  match files.lookup dev_path_r with
  | some f => (seek_read f offset count, files)
  | none =>
    match self.open_part dev_path idx with
    | .ok f => (seek_read f offset count, (dev_path_r, f) :: files)
    | .error e => (.error e, files)

def FileProxy.readv_files (self : FileProxy) (files : DeviceFiles) :
    List (String × Nat × Nat) → Py Bytes × DeviceFiles
  | [] => (.ok [], files)
  | b :: blockv =>
    match self.read_files files b.1 b.2.1 b.2.2 with
    | (.error e, files) => (.error e, files)
    | (.ok data, files) =>
      match self.readv_files files blockv with
      | (.error e, files) => (.error e, files)
      | (.ok rest, files) => (.ok (data ++ rest), files)

/-- The proxy as a device uses it, before any handle is open. -/
def FileProxy.to_proxy (self : FileProxy) : BlockProxy where
  read dev_path offset count := (self.read_files [] dev_path offset count).1
  readv blockv := (self.readv_files [] blockv).1

section Whole

variable {self : FileProxy} {files : DeviceFiles}

/-- Without parts, every open handle is what opening its device would give. -/
def FileProxy.Opened (self : FileProxy) (files : DeviceFiles) : Prop :=
  ∀ dev_path f, files.lookup dev_path = some f → ∀ idx, self.open_part dev_path idx = .ok f

theorem FileProxy.opened_nil (self : FileProxy) : self.Opened [] := by
  intro dev_path f h
  cases h

theorem FileProxy.open_part_whole (hwhole : self.use_1tb = false) (dev_path : String) (idx idx' : Nat) :
    self.open_part dev_path idx = self.open_part dev_path idx' := by
  simp [FileProxy.open_part, FileProxy.trans_path, hwhole]

/-- A read keeps the open handles right, and its result does not depend on them. -/
theorem FileProxy.read_files_spec (hwhole : self.use_1tb = false) (hopened : self.Opened files)
    (dev_path : String) (offset count : Nat) :
    (self.read_files files dev_path offset count).1 =
        (self.open_part dev_path 0 >>= fun f => seek_read f offset count) ∧
      self.Opened (self.read_files files dev_path offset count).2 := by
  simp only [FileProxy.read_files, hwhole, Bool.false_eq_true, if_false]
  cases hlookup : files.lookup dev_path with
  | some f => exact ⟨by rw [hopened dev_path f hlookup 0, bind_ok], hopened⟩
  | none =>
    simp only
    rw [FileProxy.open_part_whole hwhole dev_path _ 0]
    cases hopen : self.open_part dev_path 0 with
    | error e => exact ⟨rfl, hopened⟩
    | ok f =>
      refine ⟨rfl, ?_⟩
      intro name g hname idx
      rw [List.lookup_cons] at hname
      split at hname
      · rename_i heq
        rw [beq_iff_eq] at heq
        cases hname
        rw [heq, FileProxy.open_part_whole hwhole dev_path idx 0, hopen]
      · exact hopened name g hname idx

/-- Reading whole ranges of files that can all be opened gives them one after
    the other, whichever handles are already open. -/
theorem FileProxy.readv_files_eq (hwhole : self.use_1tb = false) {devs : List String} {img : Nat → Bytes}
    (hopen : ∀ i, i < devs.length → self.open_part (devs.getD i "") 0 = .ok (img i))
    (hlength : ∀ i, i < devs.length → (img i).length < 2 ^ 63) {blocks : List (Nat × Nat × Nat)}
    (hin : ∀ b ∈ blocks, b.1 < devs.length ∧ b.2.1 + b.2.2 ≤ (img b.1).length) (hopened : self.Opened files) :
    (self.readv_files files (blocks.map fun b => (devs.getD b.1 "", b.2.1, b.2.2))).1 =
      .ok (blocks.flatMap fun b => slice (img b.1) b.2.1 b.2.2) := by
  induction blocks generalizing files with
  | nil => rfl
  | cons b blocks ih =>
    obtain ⟨hdev, hrange⟩ := hin b (by simp)
    have hlt := hlength b.1 hdev
    obtain ⟨hread, hopened'⟩ :=
      FileProxy.read_files_spec hwhole hopened (devs.getD b.1 "") b.2.1 b.2.2
    rw [hopen b.1 hdev, bind_ok, seek_read_of_lt _ (by omega) (by omega)] at hread
    have hrest := ih (fun c hc => hin c (by simp [hc])) hopened'
    rw [List.map_cons, FileProxy.readv_files]
    simp only
    generalize self.read_files files (devs.getD b.1 "") b.2.1 b.2.2 = result at hread hrest ⊢
    obtain ⟨data, files'⟩ := result
    simp only at hread hrest
    subst hread
    simp only
    generalize self.readv_files files' _ = more at hrest ⊢
    obtain ⟨rest, files''⟩ := more
    simp only at hrest
    subst hrest
    simp

/-- A proxy over whole files serves the devices it can open. -/
theorem FileProxy.serves (hwhole : self.use_1tb = false) {devs : List String} {img : Nat → Bytes}
    (hopen : ∀ i, i < devs.length → self.open_part (devs.getD i "") 0 = .ok (img i))
    (hlength : ∀ i, i < devs.length → (img i).length < 2 ^ 63) : self.to_proxy.Serves devs img := by
  intro blocks hin
  exact FileProxy.readv_files_eq hwhole hopen hlength hin self.opened_nil

end Whole

end zfs_rescue.proxy
