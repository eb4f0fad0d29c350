import ZfsRescue.Dataset.Directories
import ZfsRescue.Fileobj.Stored

open bytes
open zfs_rescue.blockptr zfs_rescue.zio zfs_rescue.dnode zfs_rescue.blocktree zfs_rescue.zap zfs_rescue.fileobj

namespace zfs_rescue.dataset

section Link

variable {vdev : GenericDevice} {dn : DNode} {linkf : FileObj}

theorem init_inv (h : FileObj.init vdev dn false = .ok linkf) :
    ∃ bt size, block_tree vdev dn = .ok bt ∧ fileobj.zp_size dn = .ok size ∧
      linkf = { bt := bt, max_blkid := dn.maxblkid, datablksize := dn.datablksize, size := size } := by
  obtain ⟨bt, hbt, h⟩ := bind_eq_ok_iff.mp h
  obtain ⟨size, hsize, h⟩ := bind_eq_ok_iff.mp h
  cases h
  exact ⟨bt, size, hbt, hsize, rfl⟩

/-- The fuel of a link is enough. -/
theorem read_link_ends (h : FileObj.init vdev dn false = .ok linkf) (n : Nat) :
    linkf.read (linkf.max_blkid + 2) n ≠ none := by
  obtain ⟨bt, size, -, -, rfl⟩ := init_inv h
  rw [FileObj.read]
  simp only
  split
  · simp
  · rename_i hends
    exact read_blocks_ends rfl (Nat.zero_le _) (Nat.le_add_right _ _)

/-- A link is read by the loop alone: nothing is in the buffer before. -/
theorem read_link_eq_ok_iff (h : FileObj.init vdev dn false = .ok linkf) {n : Nat} {target : Bytes} :
    read_link linkf n = .ok target ↔
      ∃ turn, linkf.read_blocks n (linkf.max_blkid + 2) [] = some (.ok (target, turn)) := by
  have hends := read_link_ends h n
  obtain ⟨bt, size, -, -, rfl⟩ := init_inv h
  rw [read_link]
  rw [FileObj.read] at hends ⊢
  simp only [List.length_nil, Nat.zero_sub, Nat.min_zero, Nat.add_zero, slice_zero_len] at hends ⊢
  cases hread : FileObj.read_blocks n (dn.maxblkid + 2)
      { bt := bt, max_blkid := dn.maxblkid, datablksize := dn.datablksize, size := size } [] with
  | none =>
    rw [hread] at hends
    exact absurd rfl hends
  | some r =>
    cases r with
    | error e => simp
    | ok r => simp [Prod.ext_iff]

/-- A target in the data blocks is read back. -/
theorem read_link_of_storedIn (h : FileObj.init vdev dn false = .ok linkf) {target : Bytes}
    (hstored : StoredIn vdev dn target) : read_link linkf target.length = .ok target := by
  rw [read_link_eq_ok_iff h]
  obtain ⟨bt, size, hbt, -, rfl⟩ := init_inv h
  obtain ⟨bt', blocks, hbt', hblocks, hcount, hstart⟩ := hstored
  rw [hbt] at hbt'
  cases hbt'
  have htake : target = blocks.flatten.take target.length := List.prefix_iff_eq_take.mp hstart
  obtain ⟨turn, hturn⟩ := @read_blocks_of_readable
    { bt := bt, max_blkid := dn.maxblkid, datablksize := dn.datablksize, size := size } target.length
    (dn.maxblkid + 2) [] blocks bt.cached_nil hblocks (by simpa using hcount) (Nat.zero_le _)
    (by simpa using hstart.length_le) (by omega)
  refine ⟨turn, ?_⟩
  rw [hturn, List.length_nil, Nat.sub_zero, ← htake, List.nil_append]

/-- A target that was read in full is in the data blocks. -/
theorem storedIn_of_read_link (h : FileObj.init vdev dn false = .ok linkf) {n : Nat} {target : Bytes}
    (hread : read_link linkf n = .ok target) (hfull : n ≤ target.length) :
    target.length = n ∧ StoredIn vdev dn target := by
  rw [read_link_eq_ok_iff h] at hread
  obtain ⟨bt, size, hbt, -, rfl⟩ := init_inv h
  obtain ⟨turn, hturn⟩ := hread
  obtain ⟨blocks, hblocks, hcount, hlength, rfl⟩ := read_blocks_inv bt.cached_nil rfl hturn hfull
  rw [List.length_nil, Nat.sub_zero, List.nil_append] at *
  rw [Nat.zero_add] at hlength
  exact ⟨by rw [List.length_take, Nat.min_eq_left hlength], bt, blocks, hbt, hblocks, hcount, List.take_prefix _ _⟩

end Link

/-- `readlink` of a node: whatever goes wrong in it becomes `None`. -/
def zfsnode.readlink (self : zfsnode) : Option String :=
  match self.dnode with
  | none => none
  | some dn =>
    match dn.bonus with
    | none => none
    | some bonus =>
      match bonus.zp_symlink with
      | .ok (.bytes target) => some (safe_decode_string target)
      | _ => none

/-- The target of a symbolic link, where the format keeps it: behind the attributes
    of an old-style node or in the data blocks of the object, or in a system
    attribute. -/
inductive HasTarget (vdev : GenericDevice) (dn : DNode) (target : Bytes) : Prop where
  | content (bonus : BonusZnode) (hbonus : dn.bonus = some (.znode bonus)) (hsize : bonus.zp_size = target.length)
      (hstart : target <+: bonus.zp_inline_content)
  | blocks (bonus : BonusZnode) (hbonus : dn.bonus = some (.znode bonus)) (hsize : bonus.zp_size = target.length)
      (hshort : bonus.zp_inline_content.length < target.length) (hstored : StoredIn vdev dn target)
  | attr (bonus : BonusSysAttr) (hbonus : dn.bonus = some (.sysattr bonus))
      (hshown : bonus.getattr "zpl_size" = some (.int target.length))
      (hsize : bonus.getattr "zp_size" = some (.int target.length))
      (hsymlink : bonus.getattr "zp_symlink" = some (.bytes target))

/-- Where `_archive` looks for a target of some length it finds `found`: at the
    beginning of the inline content if that is long enough, else of the data
    blocks. -/
def Finds (vdev : GenericDevice) (dn : DNode) (content : Bytes) (found : Bytes) : Prop :=
  if found.length ≤ content.length then found <+: content else StoredIn vdev dn found

theorem link_target_eq_ok_iff {vdev : GenericDevice} {dn : DNode} {bonus : Bonus} {size : Nat} {content : Bytes}
    (hbonus : dn.bonus = some bonus) (hsize : bonus.zp_size = .ok (.int size))
    (hcontent : bonus.zp_inline_content = .ok content) {linkname : String} :
    link_target vdev dn bonus = .ok (some linkname) ↔
      ∃ found, found.length = size ∧ Finds vdev dn content found ∧ safe_decode_string found = linkname := by
  rw [link_target, hsize, bind_ok, hcontent, bind_ok]
  simp only [Finds]
  by_cases hshort : size > content.length
  · rw [if_pos hshort, bind_eq_ok_iff]
    constructor
    · rintro ⟨linkf, hinit, hread⟩
      obtain ⟨found, hfound, htarget⟩ := bind_eq_ok_iff.mp hread
      split at htarget
      · cases htarget
      · cases htarget
        obtain ⟨hlength, hstored⟩ := storedIn_of_read_link hinit hfound (by omega)
        exact ⟨found, hlength, by rwa [if_neg (by omega)], rfl⟩
    · rintro ⟨found, rfl, hfinds, rfl⟩
      rw [if_neg (by omega)] at hfinds
      obtain ⟨bt, blocks, hbt, hrest⟩ := hfinds
      have hzp : fileobj.zp_size dn = .ok (.int found.length) := by
        rw [fileobj.zp_size, hbonus]
        exact hsize
      have hinit : FileObj.init vdev dn false =
          .ok { bt := bt, max_blkid := dn.maxblkid, datablksize := dn.datablksize, size := .int found.length } := by
        rw [FileObj.init, hbt, bind_ok, hzp, bind_ok]
      refine ⟨_, hinit, bind_eq_ok_iff.mpr ⟨found, ?_, ?_⟩⟩
      · exact read_link_of_storedIn hinit ⟨bt, blocks, hbt, hrest⟩
      · rw [if_neg (by omega)]
  · rw [if_neg hshort]
    constructor
    · intro h
      cases h
      refine ⟨content.take size, by rw [List.length_take]; omega, ?_, rfl⟩
      rw [if_pos (by rw [List.length_take]; omega)]
      exact List.take_prefix _ _
    · rintro ⟨found, rfl, hfinds, rfl⟩
      rw [if_pos (by omega)] at hfinds
      rw [← List.prefix_iff_eq_take.mp hfinds]

section Archived

variable {self : Dataset} {skip_objs : List Nat} {dir : Place} {item : String × ZapValue} {e : DirEntry} {dn : DNode}

/-- What `_archive` adds for a symbolic link. -/
theorem archive_entry_symlink {bonus : Bonus} (he : dir_entry item = .ok e) (hk : e.k = 'l') (hskip : e.v ∉ skip_objs)
    (hdn : self.getitem e.v = .ok (some dn)) (hbonus : dn.bonus = some bonus) (linkname : String) :
    archive_entry self skip_objs dir item = .ok ([{ name := dir.2 ++ e.name, type := .symlink linkname }], none) ↔
      (∃ size, bonus.size_value = .ok size) ∧ link_target self.vdev dn bonus = .ok (some linkname) := by
  rw [archive_entry, he, bind_ok, if_neg hskip, if_pos (by simp [hk]), hdn, bind_ok]
  simp only [archive_object, hbonus]
  cases hsize : bonus.size_value with
  | error _ => simp [Bind.bind, Except.bind]
  | ok size =>
    rw [bind_ok, if_neg (by rw [hk]; decide), if_neg (by rw [hk]; decide), bind_eq_ok_iff]
    constructor
    · rintro ⟨target, htarget, h⟩
      cases target with
      | none => cases h
      | some target =>
        cases h
        exact ⟨⟨size, rfl⟩, htarget⟩
    · rintro ⟨-, htarget⟩
      exact ⟨some linkname, htarget, rfl⟩

end Archived

/-- Both ways to a symbolic link give its target, decoded. -/
def Dataset.Recovers (self : Dataset) (skip_objs : List Nat) (dir : Place) (item : String × ZapValue) (e : DirEntry)
    (node : zfsnode) (target : Bytes) : Prop :=
  archive_entry self skip_objs dir item =
      .ok ([{ name := dir.2 ++ e.name, type := .symlink (safe_decode_string target) }], none) ∧
    node.readlink = some (safe_decode_string target)

/-- The object has system attributes, and what `_archive` finds where it looks for
    the target is the same text. -/
def FoundAlike (vdev : GenericDevice) (dn : DNode) (target : Bytes) : Prop :=
  ∃ bonus content found, dn.bonus = some (.sysattr bonus) ∧ bonus.zp_inline_content = some content ∧
    found.length = target.length ∧ Finds vdev dn content found ∧ safe_decode_string found = safe_decode_string target

section Recovers

variable {self : Dataset} {skip_objs : List Nat} {dir : Place} {item : String × ZapValue} {e : DirEntry} {dn : DNode}
  {inoderoot : Nat} {relpath : String} {node : zfsnode} {target : Bytes}

theorem dnode_of_readdir_entry (he : dir_entry item = .ok e) (hdn : self.getitem e.v = .ok (some dn))
    (hnode : readdir_entry self inoderoot relpath item = .ok node) : node.dnode = some dn := by
  obtain ⟨e', dn', he', hdn', rfl⟩ := readdir_entry_inv hnode
  rw [he] at he'
  cases he'
  rw [hdn] at hdn'
  cases hdn'
  rfl

/-- `readlink` gives the target in a system attribute, and no other. -/
theorem readlink_eq (hnode : node.dnode = some dn) (htarget : HasTarget self.vdev dn target) :
    node.readlink = some (safe_decode_string target) ↔ ∃ bonus, dn.bonus = some (.sysattr bonus) := by
  rw [zfsnode.readlink, hnode]
  cases htarget with
  | content bonus hbonus => simp [hbonus, Bonus.zp_symlink]
  | blocks bonus hbonus => simp [hbonus, Bonus.zp_symlink]
  | attr bonus hbonus _ _ hsymlink => simp [hbonus, Bonus.zp_symlink, hsymlink]

/-- `_archive` recovers every symbolic link that has an old-style node. -/
theorem archive_entry_znode {bonus : BonusZnode} (he : dir_entry item = .ok e) (hk : e.k = 'l')
    (hskip : e.v ∉ skip_objs) (hdn : self.getitem e.v = .ok (some dn)) (hbonus : dn.bonus = some (.znode bonus))
    (htarget : HasTarget self.vdev dn target) :
    archive_entry self skip_objs dir item =
      .ok ([{ name := dir.2 ++ e.name, type := .symlink (safe_decode_string target) }], none) := by
  rw [archive_entry_symlink he hk hskip hdn hbonus]
  refine ⟨⟨_, rfl⟩, (link_target_eq_ok_iff hbonus rfl rfl).mpr ⟨target, ?_⟩⟩
  cases htarget with
  | content bonus' hbonus' hsize hstart =>
    rw [hbonus] at hbonus'
    cases hbonus'
    exact ⟨hsize.symm, by rwa [Finds, if_pos hstart.length_le], rfl⟩
  | blocks bonus' hbonus' hsize hshort hstored =>
    rw [hbonus] at hbonus'
    cases hbonus'
    exact ⟨hsize.symm, by rwa [Finds, if_neg (by omega)], rfl⟩
  | attr bonus' hbonus' =>
    rw [hbonus] at hbonus'
    cases hbonus'

theorem zp_inline_content_sysattr {bonus : BonusSysAttr} {content : Bytes} :
    (Bonus.sysattr bonus).zp_inline_content = .ok content ↔ bonus.zp_inline_content = some content := by
  rw [Bonus.zp_inline_content]
  cases bonus.zp_inline_content <;> simp

theorem sizes_of_sysattr {bonus : BonusSysAttr} {vdev : GenericDevice} (hbonus : dn.bonus = some (.sysattr bonus))
    (htarget : HasTarget vdev dn target) :
    (Bonus.sysattr bonus).size_value = .ok (.int target.length) ∧
      (Bonus.sysattr bonus).zp_size = .ok (.int target.length) := by
  cases htarget with
  | content bonus' hbonus' =>
    rw [hbonus] at hbonus'
    cases hbonus'
  | blocks bonus' hbonus' =>
    rw [hbonus] at hbonus'
    cases hbonus'
  | attr bonus' hbonus' hshown hsize =>
    rw [hbonus] at hbonus'
    cases hbonus'
    exact ⟨by rw [Bonus.size_value, hshown], by rw [Bonus.zp_size, hsize]⟩

theorem content_of_link_target {bonus : BonusSysAttr} {vdev : GenericDevice} {size : SaValue} {linkname : Option String}
    (hsize : (Bonus.sysattr bonus).zp_size = .ok size) (h : link_target vdev dn (.sysattr bonus) = .ok linkname) :
    ∃ content, bonus.zp_inline_content = some content := by
  rw [link_target, hsize, bind_ok] at h
  obtain ⟨content, hcontent, -⟩ := bind_eq_ok_iff.mp h
  exact ⟨content, zp_inline_content_sysattr.mp hcontent⟩

/-- A symbolic link is recovered on both ways exactly when it has system attributes
    and `_archive`, which does not look for the target in these, finds the same
    text where it does look. -/
theorem recovers_iff (he : dir_entry item = .ok e) (hk : e.k = 'l') (hskip : e.v ∉ skip_objs)
    (hdn : self.getitem e.v = .ok (some dn)) (hnode : readdir_entry self inoderoot relpath item = .ok node)
    (htarget : HasTarget self.vdev dn target) :
    self.Recovers skip_objs dir item e node target ↔ FoundAlike self.vdev dn target := by
  rw [Dataset.Recovers, readlink_eq (dnode_of_readdir_entry he hdn hnode) htarget]
  constructor
  · rintro ⟨harchive, bonus, hbonus⟩
    obtain ⟨-, hlink⟩ := (archive_entry_symlink he hk hskip hdn hbonus _).mp harchive
    obtain ⟨-, hsize⟩ := sizes_of_sysattr hbonus htarget
    obtain ⟨content, hcontent⟩ := content_of_link_target hsize hlink
    obtain ⟨found, hlength, hfinds, hsame⟩ :=
      (link_target_eq_ok_iff hbonus hsize (zp_inline_content_sysattr.mpr hcontent)).mp hlink
    exact ⟨bonus, content, found, hbonus, hcontent, hlength, hfinds, hsame⟩
  · rintro ⟨bonus, content, found, hbonus, hcontent, hlength, hfinds, hsame⟩
    obtain ⟨hshown, hsize⟩ := sizes_of_sysattr hbonus htarget
    refine ⟨(archive_entry_symlink he hk hskip hdn hbonus _).mpr ⟨⟨_, hshown⟩, ?_⟩, bonus, hbonus⟩
    exact (link_target_eq_ok_iff hbonus hsize (zp_inline_content_sysattr.mpr hcontent)).mpr
      ⟨found, hlength, hfinds, hsame⟩

end Recovers

/-- A symbolic link with system attributes, its size and its target, and more bytes
    behind these. -/
def attr_link_slot (target behind : Bytes) : Bytes :=
  let bonus := [0x5a, 0x50, 0x2f, 0, 2, 4] ++ writeLE 2 target.length ++ writeLE 8 target.length ++ target ++ behind
  fit 512 ([19, 17, 1, 1, 0x2c, 0, 0, 0, 1, 0] ++ writeLE 2 bonus.length ++ List.replicate 180 0 ++ bonus)

def link_layouts : SaLayouts := fun number =>
  if number = "2" then some [{ name := "zpl_size", len := 8 }, { name := "zpl_symlink", len := 0 }] else none

/-- A data set whose object 2 is a symbolic link. -/
def link_in (slot : Bytes) : Dataset :=
  Dataset.of (four_dnodes (List.replicate 1024 0 ++ slot)) (some link_layouts) 10

/-- The entry `l` of a directory, for object 2. -/
def link_item : String × ZapValue := ("l", .int (10 * 2 ^ 60 + 2))

def link_entry : DirEntry := { name := "l", v := 2, k := 'l' }

/-- The dnode of the symbolic link. -/
def link_dnode (slot : Bytes) : DNode :=
  match (link_in slot).getitem 2 with
  | .ok (some dn) => dn
  | _ => DNode.parse_header []

/-- What decoding makes of the attributes of a link. -/
def link_bonus (target behind : Bytes) : BonusSysAttr where
  attrs :=
    [("zp_symlink", .bytes target), ("zpl_symlink", .bytes target), ("zp_size", .int target.length),
      ("zpl_size", .int target.length)]
  zp_inline_content := some behind

private theorem hasTarget_attr {vdev : GenericDevice} {dn : DNode} {target behind : Bytes}
    (h : dn.bonus = some (.sysattr (link_bonus target behind))) : HasTarget vdev dn target :=
  .attr (link_bonus target behind) h rfl rfl rfl

/-- A target that is there twice, in a system attribute and behind the attributes, is
    found by both. -/
theorem recovers_repeated_target :
    ∃ node, readdir_entry (link_in (attr_link_slot [116] [116])) 1 "" link_item = .ok node ∧
      (link_in (attr_link_slot [116] [116])).Recovers [] (1, "") link_item link_entry node [116] := by
  generalize hslot : attr_link_slot [116] [116] = slot
  have hdn : (link_in slot).getitem link_entry.v = .ok (some (link_dnode slot)) := by
    rw [← hslot]
    decide +kernel
  have hbonus : (link_dnode slot).bonus = some (.sysattr (link_bonus [116] [116])) := by
    rw [← hslot]
    decide +kernel
  have he : dir_entry link_item = .ok link_entry := by decide +kernel
  obtain ⟨node, hnode⟩ := readdir_entry_of he hdn 1 ""
  refine ⟨node, hnode, (recovers_iff he rfl List.not_mem_nil hdn hnode (hasTarget_attr hbonus)).mpr ?_⟩
  exact ⟨_, [116], [116], hbonus, rfl, rfl, List.prefix_refl _, rfl⟩

/-- The target `t` behind the attributes of an old-style node is lost to `readlink`,
    and the target `t` in a system attribute to `_archive`. -/
theorem not_recovers :
    (∃ node, readdir_entry (link_in (dnode_slot 19 (List.replicate 128 0) 1 [116])) 1 "" link_item = .ok node ∧
      HasTarget (link_in (dnode_slot 19 (List.replicate 128 0) 1 [116])).vdev
        (link_dnode (dnode_slot 19 (List.replicate 128 0) 1 [116])) [116] ∧
      ¬ (link_in (dnode_slot 19 (List.replicate 128 0) 1 [116])).Recovers [] (1, "") link_item link_entry node [116]) ∧
    ∃ node, readdir_entry (link_in (attr_link_slot [116] [])) 1 "" link_item = .ok node ∧
      HasTarget (link_in (attr_link_slot [116] [])).vdev (link_dnode (attr_link_slot [116] [])) [116] ∧
      ¬ (link_in (attr_link_slot [116] [])).Recovers [] (1, "") link_item link_entry node [116] := by
  have he : dir_entry link_item = .ok link_entry := by decide +kernel
  constructor
  · generalize hslot : dnode_slot 19 (List.replicate 128 0) 1 [116] = slot
    have hdn : (link_in slot).getitem link_entry.v = .ok (some (link_dnode slot)) := by
      rw [← hslot]
      decide +kernel
    have hbonus : (link_dnode slot).bonus =
        some (.znode { words := (List.range 18).map fun i => if i = 10 then 1 else 0, zp_inline_content := [116] }) := by
      rw [← hslot]
      decide +kernel
    have htarget : HasTarget (link_in slot).vdev (link_dnode slot) [116] :=
      .content _ hbonus (by decide) (List.prefix_refl _)
    obtain ⟨node, hnode⟩ := readdir_entry_of he hdn 1 ""
    refine ⟨node, hnode, htarget, fun h => ?_⟩
    obtain ⟨bonus, hsysattr⟩ := (readlink_eq (dnode_of_readdir_entry he hdn hnode) htarget).mp h.2
    rw [hbonus] at hsysattr
    cases hsysattr
  · generalize hslot : attr_link_slot [116] [] = slot
    have hdn : (link_in slot).getitem link_entry.v = .ok (some (link_dnode slot)) := by
      rw [← hslot]
      decide +kernel
    have hbonus : (link_dnode slot).bonus = some (.sysattr (link_bonus [116] [])) := by
      rw [← hslot]
      decide +kernel
    have harchive : archive_entry (link_in slot) [] (1, "") link_item = .ok ([], none) := by
      rw [← hslot]
      decide +kernel
    obtain ⟨node, hnode⟩ := readdir_entry_of he hdn 1 ""
    refine ⟨node, hnode, hasTarget_attr hbonus, fun h => ?_⟩
    rw [Dataset.Recovers, harchive] at h
    cases h.1

end zfs_rescue.dataset
