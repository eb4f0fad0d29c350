import ZfsRescue.Dict
import ZfsRescue.Proxy.Files

open bytes

namespace zfs_rescue.proxy

/-- `1024*1024*1024*1024`. -/
def TB : Nat := 1024 * 1024 * 1024 * 1024

/-- `os.path.getsize`. -/
def getsize (open_path : String → Py Bytes) (path : String) : Py Nat := do
  let f ← open_path path
  .ok f.length

def check_full (open_path : String → Py Bytes) (path : String) : Py Unit := do
  let b ← getsize open_path path
  if b = TB then .ok () else .error .Exception

def check_last (open_path : String → Py Bytes) (path : String) : Py Unit := do
  let b ← getsize open_path path
  if b ≤ TB then .ok () else .error .Exception

/-- The sizes of the parts of one device: `v[:-1]`, then `v[-1]`. -/
def check_parts (open_path : String → Py Bytes) (v : List String) : Py Unit := do
  v.dropLast.forM (check_full open_path)
  let last ← index v (v.length - 1)
  check_last open_path last

def check_translation (open_path : String → Py Bytes) : Translation → Py Unit
  | .file _ => .ok ()
  | .parts v => check_parts open_path v

/-- `_init_files`, from the table on that the file of the translations holds. -/
def init_files (trans_table : List (String × Translation)) (open_path : String → Py Bytes) : Py FileProxy := do
  trans_table.forM fun kv => check_translation open_path kv.2
  .ok { trans_table, open_path }

/-- The files a device is made of. -/
def FileProxy.paths (self : FileProxy) (dev_path : String) : List String :=
  match self.trans_table.lookup dev_path with
  | none => [dev_path]
  | some (.file path) => [path]
  | some (.parts paths) => paths

/-- The files of a device one after the other. -/
def FileProxy.IsImage (self : FileProxy) (dev_path : String) (image : Bytes) : Prop :=
  ∃ fs, List.Forall₂ (fun path f => self.open_path path = .ok f) (self.paths dev_path) fs ∧ image = fs.flatten

/-- The handles that reads can leave open. -/
inductive FileProxy.Reached (self : FileProxy) : DeviceFiles → Prop where
  | nil : self.Reached []
  | read {files : DeviceFiles} (dev_path : String) (offset count : Nat) :
      self.Reached files → self.Reached (self.read_files files dev_path offset count).2

/-- Whatever is in the files and was read before, a read of the device gives the range of
    its image. -/
def ReadsImage (trans_table : List (String × Translation)) (dev_path : String) (offset count : Nat) : Prop :=
  ∀ open_path self, init_files trans_table open_path = .ok self → ∀ image, self.IsImage dev_path image →
    ∀ files, self.Reached files → (self.read_files files dev_path offset count).1 = .ok (slice image offset count)

theorem getsize_eq_ok_iff {open_path : String → Py Bytes} {path : String} {n : Nat} :
    getsize open_path path = .ok n ↔ ∃ f, open_path path = .ok f ∧ f.length = n := by
  simp only [getsize, bind_eq_ok_iff, Except.ok.injEq]

theorem check_full_eq_ok_iff {open_path : String → Py Bytes} {path : String} :
    check_full open_path path = .ok () ↔ ∃ f, open_path path = .ok f ∧ f.length = TB := by
  rw [check_full, bind_eq_ok_iff]
  constructor
  · rintro ⟨b, hb, hcheck⟩
    split at hcheck
    · rename_i heq
      exact heq ▸ getsize_eq_ok_iff.mp hb
    · cases hcheck
  · intro h
    exact ⟨TB, getsize_eq_ok_iff.mpr h, if_pos rfl⟩

theorem check_last_eq_ok_iff {open_path : String → Py Bytes} {path : String} :
    check_last open_path path = .ok () ↔ ∃ f, open_path path = .ok f ∧ f.length ≤ TB := by
  rw [check_last, bind_eq_ok_iff]
  constructor
  · rintro ⟨b, hb, hcheck⟩
    split at hcheck
    · rename_i hle
      obtain ⟨f, hf, rfl⟩ := getsize_eq_ok_iff.mp hb
      exact ⟨f, hf, hle⟩
    · cases hcheck
  · rintro ⟨f, hf, hle⟩
    exact ⟨f.length, getsize_eq_ok_iff.mpr ⟨f, hf, rfl⟩, if_pos hle⟩

/-- What the checks say of the parts: all but the last have a tebibyte. -/
theorem check_parts_eq_ok_iff {open_path : String → Py Bytes} {v : List String} :
    check_parts open_path v = .ok () ↔ (∀ path ∈ v.dropLast, ∃ f, open_path path = .ok f ∧ f.length = TB) ∧
      ∃ last, v.getLast? = some last ∧ ∃ f, open_path last = .ok f ∧ f.length ≤ TB := by
  have hlast : ∀ last, index v (v.length - 1) = .ok last ↔ v.getLast? = some last := by
    intro last
    rw [index_eq_ok_iff, List.getLast?_eq_getElem?]
  simp only [check_parts, bind_eq_ok_iff, hlast, check_last_eq_ok_iff]
  constructor
  · rintro ⟨_, hfull, hrest⟩
    exact ⟨fun path hpath => check_full_eq_ok_iff.mp (forM_eq_ok_iff.mp hfull path hpath), hrest⟩
  · rintro ⟨hfull, hrest⟩
    exact ⟨(), forM_eq_ok_iff.mpr fun path hpath => check_full_eq_ok_iff.mpr (hfull path hpath), hrest⟩

theorem init_files_eq_ok_iff {trans_table : List (String × Translation)} {open_path : String → Py Bytes}
    {self : FileProxy} : init_files trans_table open_path = .ok self ↔
      (∀ kv ∈ trans_table, check_translation open_path kv.2 = .ok ()) ∧ self = { trans_table, open_path } := by
  rw [init_files, bind_eq_ok_iff]
  constructor
  · rintro ⟨_, hcheck, heq⟩
    cases heq
    exact ⟨forM_eq_ok_iff.mp hcheck, rfl⟩
  · rintro ⟨hcheck, rfl⟩
    exact ⟨(), forM_eq_ok_iff.mpr hcheck, rfl⟩

/-- The name under which the handle of part `idx` is kept. -/
def FileProxy.handle (self : FileProxy) (dev_path : String) (idx : Nat) : String :=
  if self.use_1tb then dev_path ++ "." ++ toString idx else dev_path

theorem takeWhile_digits (idx : Nat) (rest : List Char) :
    ((Nat.toDigits 10 idx).reverse ++ '.' :: rest).takeWhile Char.isDigit = (Nat.toDigits 10 idx).reverse := by
  have hdigits : ∀ c ∈ (Nat.toDigits 10 idx).reverse, c.isDigit = true := by
    intro c hc
    exact Nat.isDigit_of_mem_toDigits (by decide) (by decide) (List.mem_reverse.mp hc)
  rw [List.takeWhile_append_of_pos hdigits, List.takeWhile_cons_of_neg (by decide), List.append_nil]

/-- The number behind the last point and what is before it can be read off a handle. -/
theorem handle_inj {dev_path dev_path' : String} {idx idx' : Nat}
    (h : dev_path ++ "." ++ toString idx = dev_path' ++ "." ++ toString idx') : dev_path = dev_path' ∧ idx = idx' := by
  have hchars : ∀ (name : String) (n : Nat), (name ++ "." ++ toString n).toList.reverse =
      (Nat.toDigits 10 n).reverse ++ '.' :: name.toList.reverse := by
    intro name n
    rw [String.toList_append, String.toList_append, show toString n = n.repr from rfl, Nat.toList_repr]
    simp
  have hreverse : (Nat.toDigits 10 idx).reverse ++ '.' :: dev_path.toList.reverse =
      (Nat.toDigits 10 idx').reverse ++ '.' :: dev_path'.toList.reverse := by
    rw [← hchars, ← hchars, h]
  have hdigits := congrArg (List.takeWhile Char.isDigit) hreverse
  rw [takeWhile_digits, takeWhile_digits] at hdigits
  rw [hdigits, List.append_cancel_left_eq, List.cons.injEq, List.reverse_inj] at hreverse
  have hnumber := congrArg (fun ds => Nat.ofDigitChars 10 ds 0) (List.reverse_injective hdigits)
  simp only [Nat.ofDigitChars_toDigits (b := 10) (by decide) (by decide)] at hnumber
  exact ⟨String.toList_injective hreverse.2, hnumber⟩

/-- A handle is kept for one part only. -/
theorem FileProxy.open_part_of_handle {self : FileProxy} {dev_path dev_path' : String} {idx idx' : Nat}
    (h : self.handle dev_path idx = self.handle dev_path' idx') :
    self.open_part dev_path idx = self.open_part dev_path' idx' := by
  unfold FileProxy.handle at h
  cases hparts : self.use_1tb with
  | false =>
    rw [hparts] at h
    cases h
    exact FileProxy.open_part_whole hparts dev_path idx idx'
  | true =>
    rw [hparts] at h
    obtain ⟨rfl, rfl⟩ := handle_inj h
    rfl

/-- Where a range begins in the file that is opened for it. -/
def FileProxy.part_offset (self : FileProxy) (offset : Nat) : Nat := if self.use_1tb then offset % TB else offset

theorem FileProxy.read_files_open {self : FileProxy} {files : DeviceFiles} {dev_path : String} {offset : Nat} {f : Bytes}
    (h : files.lookup (self.handle dev_path (offset / TB)) = some f) (count : Nat) :
    self.read_files files dev_path offset count = (seek_read f (self.part_offset offset) count, files) := by
  unfold FileProxy.handle TB at h
  unfold FileProxy.read_files FileProxy.part_offset TB
  simp only [h]

theorem FileProxy.read_files_closed {self : FileProxy} {files : DeviceFiles} {dev_path : String} {offset : Nat}
    (h : files.lookup (self.handle dev_path (offset / TB)) = none) {f : Bytes}
    (hopen : self.open_part dev_path (offset / TB) = .ok f) (count : Nat) :
    self.read_files files dev_path offset count =
      (seek_read f (self.part_offset offset) count, (self.handle dev_path (offset / TB), f) :: files) := by
  unfold FileProxy.handle TB at h ⊢
  unfold TB at hopen
  unfold FileProxy.read_files FileProxy.part_offset TB
  simp only [h, hopen]

theorem FileProxy.read_files_error {self : FileProxy} {files : DeviceFiles} {dev_path : String} {offset : Nat}
    (h : files.lookup (self.handle dev_path (offset / TB)) = none) {e : PyErr}
    (hopen : self.open_part dev_path (offset / TB) = .error e) (count : Nat) :
    self.read_files files dev_path offset count = (.error e, files) := by
  unfold FileProxy.handle TB at h
  unfold TB at hopen
  unfold FileProxy.read_files
  simp only [h, hopen]

/-- Every open handle is what opening its part would give. -/
def FileProxy.Kept (self : FileProxy) (files : DeviceFiles) : Prop :=
  ∀ dev_path idx f, files.lookup (self.handle dev_path idx) = some f → self.open_part dev_path idx = .ok f

theorem FileProxy.Kept.read {self : FileProxy} {files : DeviceFiles} (h : self.Kept files) (dev_path : String)
    (offset count : Nat) : self.Kept (self.read_files files dev_path offset count).2 := by
  cases hlookup : files.lookup (self.handle dev_path (offset / TB)) with
  | some f => rwa [FileProxy.read_files_open hlookup]
  | none =>
    cases hopen : self.open_part dev_path (offset / TB) with
    | error e => rwa [FileProxy.read_files_error hlookup hopen]
    | ok f =>
      rw [FileProxy.read_files_closed hlookup hopen]
      intro name idx g hg
      rw [List.lookup_cons] at hg
      split at hg
      · rename_i heq
        cases hg
        rw [FileProxy.open_part_of_handle (beq_iff_eq.mp heq), hopen]
      · exact h name idx g hg

theorem FileProxy.Reached.kept {self : FileProxy} {files : DeviceFiles} (h : self.Reached files) : self.Kept files := by
  induction h with
  | nil =>
    intro dev_path idx f h
    cases h
  | read dev_path offset count _ ih => exact ih.read dev_path offset count

/-- A read opens its part, or finds it open, and reads there. -/
theorem FileProxy.Reached.read_files {self : FileProxy} {files : DeviceFiles} (h : self.Reached files)
    (dev_path : String) (offset count : Nat) :
    (self.read_files files dev_path offset count).1 =
      (self.open_part dev_path (offset / TB) >>= fun f => seek_read f (self.part_offset offset) count) := by
  cases hlookup : files.lookup (self.handle dev_path (offset / TB)) with
  | some f => rw [FileProxy.read_files_open hlookup, h.kept dev_path _ f hlookup, bind_ok]
  | none =>
    cases hopen : self.open_part dev_path (offset / TB) with
    | error e => rw [FileProxy.read_files_error hlookup hopen, bind_error]
    | ok f => rw [FileProxy.read_files_closed hlookup hopen, bind_ok]

/-- So what it gives does not depend on what was read before. -/
theorem readsImage_iff {trans_table : List (String × Translation)} {dev_path : String} {offset count : Nat} :
    ReadsImage trans_table dev_path offset count ↔
      ∀ open_path self, init_files trans_table open_path = .ok self → ∀ image, self.IsImage dev_path image →
        (self.open_part dev_path (offset / TB) >>= fun f => seek_read f (self.part_offset offset) count) =
          .ok (slice image offset count) := by
  constructor
  · intro h open_path self hinit image himage
    rw [← h open_path self hinit image himage [] .nil, FileProxy.Reached.read_files .nil]
  · intro h open_path self hinit image himage files hfiles
    rw [hfiles.read_files, h open_path self hinit image himage]

theorem seek_read_eq_ok_iff {f xs : Bytes} {offset count : Nat} :
    seek_read f offset count = .ok xs ↔ offset < 2 ^ 63 ∧ count < 2 ^ 63 ∧ xs = slice f offset count := by
  by_cases hoffset : offset < 2 ^ 63
  · by_cases hcount : count < 2 ^ 63
    · rw [seek_read_of_lt f hoffset hcount, Except.ok.injEq, and_iff_right hoffset, and_iff_right hcount, eq_comm]
    · rw [seek_read, if_neg (by omega), if_pos (by omega)]
      refine iff_of_false (fun h => ?_) fun h => hcount h.2.1
      cases h
  · rw [seek_read, if_pos (by omega)]
    refine iff_of_false (fun h => ?_) fun h => hoffset h.1
    cases h

/-- A read that finds its part open gives the range of the image exactly when the part
    has it. -/
theorem open_part_eq_ok_iff {self : FileProxy} {dev_path : String} {idx offset count : Nat} {xs : Bytes} :
    (self.open_part dev_path idx >>= fun f => seek_read f offset count) = .ok xs ↔
      offset < 2 ^ 63 ∧ count < 2 ^ 63 ∧ ∃ f, self.open_part dev_path idx = .ok f ∧ xs = slice f offset count := by
  simp only [bind_eq_ok_iff, seek_read_eq_ok_iff]
  constructor
  · rintro ⟨f, hf, hoffset, hcount, heq⟩
    exact ⟨hoffset, hcount, f, hf, heq⟩
  · rintro ⟨hoffset, hcount, f, hf, heq⟩
    exact ⟨f, hf, hoffset, hcount, heq⟩

theorem FileProxy.isImage_single {self : FileProxy} {dev_path path : String} (h : self.paths dev_path = [path])
    {image : Bytes} : self.IsImage dev_path image ↔ self.open_path path = .ok image := by
  simp only [FileProxy.IsImage, h, List.forall₂_cons_left_iff, List.forall₂_nil_left_iff]
  constructor
  · rintro ⟨_, ⟨f, _, hf, rfl, rfl⟩, rfl⟩
    simpa using hf
  · intro hopen
    exact ⟨[image], ⟨image, [], hopen, rfl, rfl⟩, by simp⟩

theorem length_flatten_of_length {parts : List Bytes} {k : Nat} (h : ∀ part ∈ parts, part.length = k) :
    parts.flatten.length = parts.length * k := by
  rw [← List.flatMap_id]
  exact length_flatMap_of_length h

/-- A range that begins in a part behind whole ones. -/
theorem slice_flatten {before : List Bytes} {k : Nat} (hbefore : ∀ part ∈ before, part.length = k) (f : Bytes)
    (after : List Bytes) (offset count : Nat) :
    slice (before ++ f :: after).flatten (before.length * k + offset) count = slice (f ++ after.flatten) offset count := by
  rw [List.flatten_append, ← length_flatten_of_length hbefore, slice_append_right, List.flatten_cons]

/-- What the checks promise of the parts of a device. -/
theorem length_of_checked {open_path : String → Py Bytes} {paths : List String} {fs : List Bytes}
    (hcheck : check_parts open_path paths = .ok ()) (hopen : List.Forall₂ (fun path f => open_path path = .ok f) paths fs)
    {i : Nat} {f : Bytes} (hf : fs[i]? = some f) (hi : i + 1 < fs.length) : f.length = TB := by
  obtain ⟨hfull, -⟩ := check_parts_eq_ok_iff.mp hcheck
  have hlength := hopen.length_eq
  have hlt : i < paths.dropLast.length := by
    rw [List.length_dropLast]
    omega
  obtain ⟨g, hg, hgsize⟩ := hfull _ (List.getElem_mem hlt)
  rw [List.getElem_dropLast] at hg
  obtain ⟨hi', hget⟩ := List.getElem?_eq_some_iff.mp hf
  have hpath := hopen.get (by omega) hi'
  rw [List.get_eq_getElem, List.get_eq_getElem, hget, hg] at hpath
  cases hpath
  exact hgsize

/-- A range of a device in parts is a range of one part when it does not go on behind
    it, or nothing is behind it. -/
theorem slice_parts {open_path : String → Py Bytes} {paths : List String} {fs : List Bytes}
    (hcheck : check_parts open_path paths = .ok ()) (hopen : List.Forall₂ (fun path f => open_path path = .ok f) paths fs)
    {idx : Nat} {f : Bytes} (hf : fs[idx]? = some f) {offset count : Nat}
    (hrange : offset + count ≤ TB ∨ idx + 1 = fs.length) :
    slice fs.flatten (idx * TB + offset) count = slice f offset count := by
  obtain ⟨hidx, hget⟩ := List.getElem?_eq_some_iff.mp hf
  have hsplit : fs = fs.take idx ++ f :: fs.drop (idx + 1) := by
    rw [← hget, ← List.drop_eq_getElem_cons, List.take_append_drop]
  have hbefore : ∀ part ∈ fs.take idx, part.length = TB := by
    intro part hpart
    obtain ⟨i, hi, rfl⟩ := List.mem_take_iff_getElem.mp hpart
    exact length_of_checked hcheck hopen (List.getElem?_eq_getElem (by omega)) (by omega)
  have htake : (fs.take idx).length = idx := by
    rw [List.length_take]
    omega
  have hslice := slice_flatten hbefore f (fs.drop (idx + 1)) offset count
  rw [htake, ← hsplit] at hslice
  rw [hslice]
  obtain hin | hlast := hrange
  · by_cases hlast : idx + 1 = fs.length
    · rw [hlast, List.drop_length, List.flatten_nil, List.append_nil]
    · have hsize := length_of_checked hcheck hopen hf (by omega)
      exact slice_append_of_le (by omega)
  · rw [hlast, List.drop_length, List.flatten_nil, List.append_nil]

end zfs_rescue.proxy
