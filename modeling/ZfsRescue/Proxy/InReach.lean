import ZfsRescue.Dict
import ZfsRescue.Proxy.Parts

open bytes

namespace zfs_rescue.proxy

def has_parts (trans_table : List (String × Translation)) : Bool := trans_table.any fun kv => kv.2.is_parts

/-- A path that the table has for a part. -/
def IsPart (trans_table : List (String × Translation)) (path : String) : Prop :=
  ∃ kv ∈ trans_table, ∃ paths, kv.2 = .parts paths ∧ path ∈ paths

/-- The ranges that a table without parts reads right, and those that one with parts
    does: in a list of parts, what lies in one part, or begins in the last one; in a
    device that is not in the table, what begins in its first tebibyte; and in a single
    file, what the file named by a character of its path has. -/
def InReach (trans_table : List (String × Translation)) (dev_path : String) (offset count : Nat) : Prop :=
  count < 2 ^ 63 ∧
    match has_parts trans_table, trans_table.lookup dev_path with
    | false, _ => offset < 2 ^ 63
    | true, none => offset < TB ∨ count = 0
    | true, some (.file path) =>
      ∃ c, path.toList[offset / TB]? = some c ∧
        (path = String.singleton c ∨ count = 0 ∧ IsPart trans_table (String.singleton c))
    | true, some (.parts paths) =>
      offset / TB < paths.length ∧ (offset % TB + count ≤ TB ∨ offset / TB + 1 = paths.length)

theorem has_parts_of_mem {trans_table : List (String × Translation)} {dev_path : String} {paths : List String}
    (h : (dev_path, Translation.parts paths) ∈ trans_table) : has_parts trans_table = true :=
  List.any_eq_true.mpr ⟨_, h, rfl⟩

section Range

variable {self : FileProxy} {dev_path : String} {image : Bytes} {offset count : Nat}

/-- What a read of a device gives is the range of its image. -/
def FileProxy.Gives (self : FileProxy) (dev_path : String) (offset count : Nat) (image : Bytes) : Prop :=
  (self.open_part dev_path (offset / TB) >>= fun f => seek_read f (self.part_offset offset) count) =
    .ok (slice image offset count)

theorem paths_of_lookup_parts {paths : List String} (h : self.trans_table.lookup dev_path = some (.parts paths)) :
    self.paths dev_path = paths := by
  simp only [FileProxy.paths, h]

theorem open_part_none (h : self.trans_table.lookup dev_path = none) (idx : Nat) :
    self.open_part dev_path idx = self.open_path dev_path := by
  simp only [FileProxy.open_part, FileProxy.trans_path, h, bind_ok]

theorem open_part_file {path : String} (h : self.trans_table.lookup dev_path = some (.file path))
    (hparts : self.use_1tb = true) {idx : Nat} {f : Bytes} :
    self.open_part dev_path idx = .ok f ↔
      ∃ c, path.toList[idx]? = some c ∧ self.open_path (String.singleton c) = .ok f := by
  simp only [FileProxy.open_part, FileProxy.trans_path, h, hparts, if_true, bind_eq_ok_iff, index_eq_ok_iff,
    Except.ok.injEq]
  constructor
  · rintro ⟨_, ⟨c, hc, rfl⟩, hf⟩
    exact ⟨c, hc, hf⟩
  · rintro ⟨c, hc, hf⟩
    exact ⟨_, ⟨c, hc, rfl⟩, hf⟩

theorem open_part_parts {paths : List String} (h : self.trans_table.lookup dev_path = some (.parts paths))
    (hparts : self.use_1tb = true) {idx : Nat} {f : Bytes} :
    self.open_part dev_path idx = .ok f ↔ ∃ path, paths[idx]? = some path ∧ self.open_path path = .ok f := by
  simp only [FileProxy.open_part, FileProxy.trans_path, h, hparts, if_true, bind_eq_ok_iff, index_eq_ok_iff]

theorem part_offset_lt (hparts : self.use_1tb = true) (offset : Nat) : self.part_offset offset < 2 ^ 63 := by
  have hmod : offset % TB < TB := Nat.mod_lt _ (by decide)
  rw [FileProxy.part_offset, hparts, if_pos rfl]
  unfold TB at hmod ⊢
  omega

/-- Without parts a device is one file, which is read where the range begins. -/
theorem gives_whole (hwhole : self.use_1tb = false) (himage : self.IsImage dev_path image) :
    self.Gives dev_path offset count image ↔ offset < 2 ^ 63 ∧ count < 2 ^ 63 := by
  have hopen : self.open_part dev_path (offset / TB) = .ok image := by
    cases hlookup : self.trans_table.lookup dev_path with
    | none =>
      rw [open_part_none hlookup]
      refine (FileProxy.isImage_single ?_).mp himage
      simp only [FileProxy.paths, hlookup]
    | some t =>
      cases t with
      | file path =>
        have hpath : self.open_path path = .ok image := by
          refine (FileProxy.isImage_single ?_).mp himage
          simp only [FileProxy.paths, hlookup]
        simp only [FileProxy.open_part, FileProxy.trans_path, hlookup, hwhole, Bool.false_eq_true, if_false, bind_ok,
          hpath]
      | parts paths =>
        have hparts := has_parts_of_mem (dict.mem_of_lookup hlookup)
        exact absurd (hparts.symm.trans hwhole) (by decide)
  rw [FileProxy.Gives, open_part_eq_ok_iff, hopen, FileProxy.part_offset, hwhole, if_neg Bool.false_ne_true]
  constructor
  · rintro ⟨hoffset, hcount, -⟩
    exact ⟨hoffset, hcount⟩
  · rintro ⟨hoffset, hcount⟩
    exact ⟨hoffset, hcount, image, rfl, rfl⟩

/-- Beside parts, a device that is not in the table is read where the range begins in its
    tebibyte. -/
theorem gives_none (hparts : self.use_1tb = true) (hlookup : self.trans_table.lookup dev_path = none)
    (himage : self.IsImage dev_path image) :
    self.Gives dev_path offset count image ↔
      count < 2 ^ 63 ∧ slice image offset count = slice image (offset % TB) count := by
  have hopen : self.open_path dev_path = .ok image := by
    refine (FileProxy.isImage_single ?_).mp himage
    simp only [FileProxy.paths, hlookup]
  rw [FileProxy.Gives, open_part_eq_ok_iff, open_part_none hlookup, hopen]
  have hoffset := part_offset_lt hparts offset
  rw [FileProxy.part_offset, hparts, if_pos rfl] at hoffset ⊢
  constructor
  · rintro ⟨-, hcount, f, hf, heq⟩
    cases hf
    exact ⟨hcount, heq⟩
  · rintro ⟨hcount, heq⟩
    exact ⟨hoffset, hcount, image, rfl, heq⟩

theorem gives_file {path : String} (hparts : self.use_1tb = true)
    (hlookup : self.trans_table.lookup dev_path = some (.file path)) :
    self.Gives dev_path offset count image ↔
      count < 2 ^ 63 ∧ ∃ c f, path.toList[offset / TB]? = some c ∧ self.open_path (String.singleton c) = .ok f ∧
        slice image offset count = slice f (offset % TB) count := by
  rw [FileProxy.Gives, open_part_eq_ok_iff]
  have hoffset := part_offset_lt hparts offset
  rw [FileProxy.part_offset, hparts, if_pos rfl] at hoffset ⊢
  simp only [open_part_file hlookup hparts]
  constructor
  · rintro ⟨-, hcount, f, ⟨c, hc, hf⟩, heq⟩
    exact ⟨hcount, c, f, hc, hf, heq⟩
  · rintro ⟨hcount, c, f, hc, hf, heq⟩
    exact ⟨hoffset, hcount, f, ⟨c, hc, hf⟩, heq⟩

theorem gives_parts {paths : List String} (hparts : self.use_1tb = true)
    (hlookup : self.trans_table.lookup dev_path = some (.parts paths)) :
    self.Gives dev_path offset count image ↔
      count < 2 ^ 63 ∧ ∃ path f, paths[offset / TB]? = some path ∧ self.open_path path = .ok f ∧
        slice image offset count = slice f (offset % TB) count := by
  rw [FileProxy.Gives, open_part_eq_ok_iff]
  have hoffset := part_offset_lt hparts offset
  rw [FileProxy.part_offset, hparts, if_pos rfl] at hoffset ⊢
  simp only [open_part_parts hlookup hparts]
  constructor
  · rintro ⟨-, hcount, f, ⟨path, hpath, hf⟩, heq⟩
    exact ⟨hcount, path, f, hpath, hf, heq⟩
  · rintro ⟨hcount, path, f, hpath, hf, heq⟩
    exact ⟨hoffset, hcount, f, ⟨path, hpath, hf⟩, heq⟩

end Range

/-- A part that was checked can be opened. -/
theorem open_of_checked {open_path : String → Py Bytes} {paths : List String}
    (hcheck : check_parts open_path paths = .ok ()) {path : String} (hpath : path ∈ paths) :
    ∃ f, open_path path = .ok f := by
  obtain ⟨hfull, last, hlast, f, hf, -⟩ := check_parts_eq_ok_iff.mp hcheck
  rw [← List.dropLast_append_getLast? last hlast] at hpath
  obtain hpath | hpath := List.mem_append.mp hpath
  · obtain ⟨g, hg, -⟩ := hfull path hpath
    exact ⟨g, hg⟩
  · cases List.mem_singleton.mp hpath
    exact ⟨f, hf⟩

/-- A character of its path opens the file that it is the path of, or a part that nothing is
    asked of. -/
theorem gives_of_char {trans_table : List (String × Translation)} {dev_path path : String} {offset count : Nat}
    {open_path : String → Py Bytes} {image : Bytes} {c : Char}
    (hchecks : ∀ kv ∈ trans_table, check_translation open_path kv.2 = .ok ())
    (huse : FileProxy.use_1tb { trans_table, open_path } = true)
    (hlookup : trans_table.lookup dev_path = some (.file path)) (hopen : open_path path = .ok image)
    (hcount : count < 2 ^ 63) (hc : path.toList[offset / TB]? = some c)
    (hread : path = String.singleton c ∨ count = 0 ∧ IsPart trans_table (String.singleton c)) :
    FileProxy.Gives { trans_table, open_path } dev_path offset count image := by
  refine (gives_file huse hlookup).mpr ⟨hcount, c, ?_⟩
  obtain rfl | ⟨rfl, kv, hkv, paths, hpaths, hmem⟩ := hread
  · have hidx : offset / TB < 1 := by
      obtain ⟨hlt, -⟩ := List.getElem?_eq_some_iff.mp hc
      simpa using hlt
    have hlt : offset < TB := by
      rwa [Nat.div_lt_iff_lt_mul (by decide), Nat.one_mul] at hidx
    exact ⟨image, hc, hopen, by rw [Nat.mod_eq_of_lt hlt]⟩
  · have hcheck := hchecks kv hkv
    rw [hpaths] at hcheck
    obtain ⟨f, hf⟩ := open_of_checked hcheck hmem
    exact ⟨f, hc, hf, by simp⟩

/-- A range that does not go on behind its part is read from it. -/
theorem gives_of_part {trans_table : List (String × Translation)} {dev_path : String} {paths : List String}
    {offset count : Nat} {open_path : String → Py Bytes} {fs : List Bytes}
    (hcheck : check_parts open_path paths = .ok ())
    (huse : FileProxy.use_1tb { trans_table, open_path } = true)
    (hlookup : trans_table.lookup dev_path = some (.parts paths))
    (hopen : List.Forall₂ (fun path f => open_path path = .ok f) paths fs) (hcount : count < 2 ^ 63)
    (hidx : offset / TB < paths.length) (hrange : offset % TB + count ≤ TB ∨ offset / TB + 1 = paths.length) :
    FileProxy.Gives { trans_table, open_path } dev_path offset count fs.flatten := by
  have hlength := hopen.length_eq
  have hslice := slice_parts hcheck hopen (List.getElem?_eq_getElem (hlength ▸ hidx)) (hlength ▸ hrange)
  rw [Nat.div_add_mod'] at hslice
  refine (gives_parts huse hlookup).mpr ⟨hcount, _, _, List.getElem?_eq_getElem hidx, ?_, hslice⟩
  exact hopen.get hidx (hlength ▸ hidx)

/-- The ranges in reach are read right. -/
theorem gives_of_inReach {trans_table : List (String × Translation)} {dev_path : String} {offset count : Nat}
    (h : InReach trans_table dev_path offset count) {open_path : String → Py Bytes} {self : FileProxy}
    (hinit : init_files trans_table open_path = .ok self) {image : Bytes} (himage : self.IsImage dev_path image) :
    self.Gives dev_path offset count image := by
  obtain ⟨hchecks, rfl⟩ := init_files_eq_ok_iff.mp hinit
  obtain ⟨hcount, h⟩ := h
  cases hparts : has_parts trans_table with
  | false =>
    have hwhole : FileProxy.use_1tb { trans_table, open_path } = false := hparts
    rw [hparts] at h
    exact (gives_whole hwhole himage).mpr ⟨h, hcount⟩
  | true =>
    have huse : FileProxy.use_1tb { trans_table, open_path } = true := hparts
    rw [hparts] at h
    cases hlookup : trans_table.lookup dev_path with
    | none =>
      rw [hlookup] at h
      refine (gives_none huse hlookup himage).mpr ⟨hcount, ?_⟩
      obtain hlt | rfl := h
      · rw [Nat.mod_eq_of_lt hlt]
      · simp
    | some t =>
      rw [hlookup] at h
      cases t with
      | file path =>
        obtain ⟨c, hc, hread⟩ := h
        have hopen : open_path path = .ok image := by
          refine (FileProxy.isImage_single ?_).mp himage
          simp only [FileProxy.paths, hlookup]
        exact gives_of_char hchecks huse hlookup hopen hcount hc hread
      | parts paths =>
        obtain ⟨hidx, hrange⟩ := h
        obtain ⟨fs, hopen, rfl⟩ := himage
        rw [paths_of_lookup_parts hlookup] at hopen
        exact gives_of_part (hchecks _ (dict.mem_of_lookup hlookup)) huse hlookup hopen hcount hidx hrange

/-- A file of one tebibyte of the same byte. -/
def full_part (b : UInt8) : Bytes := List.replicate TB b

/-- Files of zeros, but for one. -/
def with_file (name : String) (f : Py Bytes) (path : String) : Py Bytes :=
  if path = name then f else .ok (full_part 0)

theorem slice_full_part (b : UInt8) (offset count : Nat) :
    slice (full_part b) offset count = List.replicate (min count (TB - offset)) b := by
  rw [slice, full_part, List.drop_replicate, List.take_replicate]

theorem check_full_parts {open_path : String → Py Bytes} {paths : List String} (hne : paths ≠ [])
    (h : ∀ path ∈ paths, ∃ b, open_path path = .ok (full_part b)) : check_parts open_path paths = .ok () := by
  refine check_parts_eq_ok_iff.mpr ⟨fun path hpath => ?_, ?_⟩
  · obtain ⟨b, hb⟩ := h path (List.mem_of_mem_dropLast hpath)
    exact ⟨_, hb, List.length_replicate⟩
  · obtain ⟨b, hb⟩ := h _ (List.getLast_mem hne)
    exact ⟨_, List.getLast?_eq_some_getLast hne, _, hb, Nat.le_of_eq List.length_replicate⟩

/-- Files of a tebibyte each pass the checks, and a file that is no part may be missing. -/
theorem init_with_file {trans_table : List (String × Translation)} (hne : ∀ kv ∈ trans_table, kv.2 ≠ .parts [])
    {name : String} {f : Py Bytes} (hf : IsPart trans_table name → ∃ b, f = .ok (full_part b)) :
    init_files trans_table (with_file name f) = .ok { trans_table, open_path := with_file name f } := by
  refine init_files_eq_ok_iff.mpr ⟨fun kv hkv => ?_, rfl⟩
  obtain ⟨dev_path, t⟩ := kv
  cases t with
  | file path => rfl
  | parts paths =>
    refine check_full_parts (fun hnil => hne _ hkv (congrArg Translation.parts hnil)) fun path hpath => ?_
    unfold with_file
    split
    · rename_i heq
      exact hf ⟨_, hkv, paths, rfl, heq ▸ hpath⟩
    · exact ⟨0, rfl⟩

theorem ReadsImage.gives {trans_table : List (String × Translation)} {dev_path : String} {offset count : Nat}
    (h : ReadsImage trans_table dev_path offset count) {open_path : String → Py Bytes} {self : FileProxy}
    (hinit : init_files trans_table open_path = .ok self) {image : Bytes} (himage : self.IsImage dev_path image) :
    self.Gives dev_path offset count image :=
  readsImage_iff.mp h open_path self hinit image himage

section Zeros

variable {trans_table : List (String × Translation)} {dev_path : String} {offset count : Nat}

/-- The proxy over files that are all of zeros. -/
def zeros (trans_table : List (String × Translation)) : FileProxy where
  trans_table := trans_table
  open_path := with_file "" (.ok (full_part 0))

theorem open_zeros (trans_table : List (String × Translation)) (path : String) :
    (zeros trans_table).open_path path = .ok (full_part 0) := ite_self _

theorem init_zeros (hne : ∀ kv ∈ trans_table, kv.2 ≠ .parts []) :
    init_files trans_table (with_file "" (.ok (full_part 0))) = .ok (zeros trans_table) :=
  init_with_file hne fun _ => ⟨0, rfl⟩

theorem image_zeros (trans_table : List (String × Translation)) (dev_path : String) :
    (zeros trans_table).IsImage dev_path (((zeros trans_table).paths dev_path).map fun _ => full_part 0).flatten := by
  refine ⟨_, ?_, rfl⟩
  rw [List.forall₂_map_right_iff, List.forall₂_same]
  exact fun path _ => open_zeros trans_table path

theorem length_image_zeros (trans_table : List (String × Translation)) (dev_path : String) :
    (((zeros trans_table).paths dev_path).map fun _ => full_part 0).flatten.length =
      ((zeros trans_table).paths dev_path).length * TB := by
  rw [length_flatten_of_length, List.length_map]
  intro part hpart
  obtain ⟨_, -, rfl⟩ := List.mem_map.mp hpart
  exact List.length_replicate

theorem image_zeros_single {path : String} (h : (zeros trans_table).paths dev_path = [path]) :
    (zeros trans_table).IsImage dev_path (full_part 0) :=
  (FileProxy.isImage_single h).mpr (open_zeros trans_table path)

/-- A device that is not in the table has nothing behind the first tebibyte of zeros,
    but is read there. -/
theorem lt_of_gives_none (hne : ∀ kv ∈ trans_table, kv.2 ≠ .parts []) (hparts : has_parts trans_table = true)
    (hlookup : trans_table.lookup dev_path = none) (h : ReadsImage trans_table dev_path offset count) :
    count < 2 ^ 63 ∧ (offset < TB ∨ count = 0) := by
  have huse : (zeros trans_table).use_1tb = true := hparts
  have hpaths : (zeros trans_table).paths dev_path = [dev_path] := by
    simp only [FileProxy.paths, zeros, hlookup]
  have himage := image_zeros_single hpaths
  obtain ⟨hcount, heq⟩ := (gives_none huse hlookup himage).mp (h.gives (init_zeros hne) himage)
  have hlength := congrArg List.length heq
  have hmod : offset % TB < TB := Nat.mod_lt _ (by decide)
  rw [slice_full_part, slice_full_part, List.length_replicate, List.length_replicate] at hlength
  omega

/-- In a list of parts of zeros, what goes on behind a part is cut off there. -/
theorem range_of_gives_parts {paths : List String} (hne : ∀ kv ∈ trans_table, kv.2 ≠ .parts [])
    (hparts : has_parts trans_table = true) (hlookup : trans_table.lookup dev_path = some (.parts paths))
    (h : ReadsImage trans_table dev_path offset count) :
    count < 2 ^ 63 ∧ offset / TB < paths.length ∧ (offset % TB + count ≤ TB ∨ offset / TB + 1 = paths.length) := by
  have huse : (zeros trans_table).use_1tb = true := hparts
  have hpaths : (zeros trans_table).paths dev_path = paths := paths_of_lookup_parts hlookup
  have himage := image_zeros trans_table dev_path
  have hsize := length_image_zeros trans_table dev_path
  obtain ⟨hcount, path, f, hget, hf, heq⟩ := (gives_parts huse hlookup).mp (h.gives (init_zeros hne) himage)
  obtain ⟨hidx, -⟩ := List.getElem?_eq_some_iff.mp hget
  cases (open_zeros trans_table path).symm.trans hf
  have hlength := congrArg List.length heq
  rw [length_slice, hsize, hpaths, slice_full_part, List.length_replicate] at hlength
  refine ⟨hcount, hidx, ?_⟩
  by_cases hlast : offset / TB + 1 = paths.length
  · exact .inr hlast
  · have hdiv := Nat.div_add_mod' offset TB
    have hmod : offset % TB < TB := Nat.mod_lt _ (by decide)
    have hmore : (offset / TB + 2) * TB ≤ paths.length * TB := Nat.mul_le_mul_right TB (by omega)
    rw [Nat.add_mul] at hmore
    omega

/-- A character that does not name the file itself can name anything that is no part, and
    a part has bytes of its own. -/
theorem char_of_gives_file {path : String} (hne : ∀ kv ∈ trans_table, kv.2 ≠ .parts [])
    (hparts : has_parts trans_table = true) (hlookup : trans_table.lookup dev_path = some (.file path))
    (h : ReadsImage trans_table dev_path offset count) :
    count < 2 ^ 63 ∧ ∃ c, path.toList[offset / TB]? = some c ∧
      (path = String.singleton c ∨ count = 0 ∧ IsPart trans_table (String.singleton c)) := by
  have hgives : ∀ {open_path : String → Py Bytes}, init_files trans_table open_path = .ok { trans_table, open_path } →
      open_path path = .ok (full_part 0) → count < 2 ^ 63 ∧ ∃ c f, path.toList[offset / TB]? = some c ∧
        open_path (String.singleton c) = .ok f ∧ slice (full_part 0) offset count = slice f (offset % TB) count := by
    intro open_path hinit hopen
    have huse : FileProxy.use_1tb { trans_table, open_path } = true := hparts
    refine (gives_file huse hlookup).mp (h.gives hinit ?_)
    refine (FileProxy.isImage_single ?_).mpr hopen
    simp only [FileProxy.paths, hlookup]
  obtain ⟨hcount, c, -, hc, -⟩ := hgives (init_zeros hne) (open_zeros trans_table path)
  refine ⟨hcount, c, hc, ?_⟩
  by_cases hpath : path = String.singleton c
  · exact .inl hpath
  have hopen : ∀ f, with_file (String.singleton c) f path = .ok (full_part 0) := fun f => if_neg hpath
  by_cases hpart : IsPart trans_table (String.singleton c)
  · refine .inr ⟨?_, hpart⟩
    obtain ⟨-, c', f, hc', hf, heq⟩ := hgives (init_with_file hne fun _ => ⟨1, rfl⟩) (hopen _)
    cases hc.symm.trans hc'
    rw [with_file, if_pos rfl] at hf
    cases hf
    rw [slice_full_part, slice_full_part, List.replicate_inj] at heq
    have hmod : offset % TB < TB := Nat.mod_lt _ (by decide)
    obtain ⟨hlength, hzero | hbyte⟩ := heq
    · omega
    · exact absurd hbyte (by decide)
  · obtain ⟨-, c', f, hc', hf, -⟩ :=
      hgives (init_with_file (f := .error .OSError) hne fun hmem => absurd hmem hpart) (hopen _)
    cases hc.symm.trans hc'
    rw [with_file, if_pos rfl] at hf
    cases hf

end Zeros

/-- A range is read right, whatever the files hold, exactly when it is in reach. -/
theorem readsImage_iff_inReach (trans_table : List (String × Translation)) (dev_path : String) (offset count : Nat)
    (hne : ∀ kv ∈ trans_table, kv.2 ≠ .parts []) :
    ReadsImage trans_table dev_path offset count ↔ InReach trans_table dev_path offset count := by
  constructor
  · intro h
    unfold InReach
    cases hparts : has_parts trans_table with
    | false =>
      have hwhole : (zeros trans_table).use_1tb = false := hparts
      have himage := image_zeros trans_table dev_path
      obtain ⟨hoffset, hcount⟩ := (gives_whole hwhole himage).mp (h.gives (init_zeros hne) himage)
      exact ⟨hcount, hoffset⟩
    | true =>
      cases hlookup : trans_table.lookup dev_path with
      | none => exact lt_of_gives_none hne hparts hlookup h
      | some t =>
        cases t with
        | file path => exact char_of_gives_file hne hparts hlookup h
        | parts paths => exact range_of_gives_parts hne hparts hlookup h
  · intro h
    rw [readsImage_iff]
    intro open_path self hinit image himage
    exact gives_of_inReach h hinit himage

/-- A disk in two parts beside one in a single file. -/
def two_disks : List (String × Translation) :=
  [("sda", .parts ["sda.0", "sda.1"]), ("sdb", .file "sdb.img")]

theorem two_disks_parts : ∀ kv ∈ two_disks, kv.2 ≠ .parts [] := by
  simp [two_disks]

theorem readsImage_second_part : ReadsImage two_disks "sda" (TB + 512) 16 := by
  refine (readsImage_iff_inReach two_disks "sda" (TB + 512) 16 two_disks_parts).mpr ⟨by decide, ?_, .inr ?_⟩
  · simp [TB]
  · simp [TB]

/-- A range over the end of the first part is cut off, and the single file is looked for
    under the first character of its path. -/
theorem not_readsImage_two_disks : ¬ ReadsImage two_disks "sda" (TB - 8) 16 ∧ ¬ ReadsImage two_disks "sdb" 0 512 := by
  constructor
  · intro h
    obtain ⟨-, -, hrange⟩ := range_of_gives_parts two_disks_parts rfl rfl h
    simp [TB] at hrange
  · intro h
    obtain ⟨-, c, hc, hname⟩ := char_of_gives_file two_disks_parts rfl rfl h
    simp [TB] at hc
    subst hc
    obtain hname | ⟨hcount, -⟩ := hname
    · exact absurd hname (by decide)
    · cases hcount

end zfs_rescue.proxy
