import Mathlib.Data.List.Infix
import ZfsRescue.Dict
import ZfsRescue.Fileobj
import ZfsRescue.Zio.Unreadable

open bytes
open zfs_rescue.blockptr zfs_rescue.zio zfs_rescue.dnode zfs_rescue.blocktree zfs_rescue.dataset

namespace zfs_rescue.dnode

/-- A text without `new` in it comes out of a replacement only unchanged. -/
theorem replaceChars_eq_self {old new target : List Char} (hnew : ∀ rest, rest <:+ target → ¬ new <+: rest)
    {cs : List Char} (h : replaceChars old new 0 cs = target) : cs = target := by
  induction cs generalizing target with
  | nil => exact h
  | cons c cs ih =>
    rw [replaceChars] at h
    split at h
    · exact absurd ⟨_, h⟩ (hnew target (List.suffix_refl target))
    · cases target with
      | nil => cases h
      | cons d target =>
        obtain ⟨rfl, hrest⟩ := List.cons.inj h
        rw [ih (fun rest hsuffix => hnew rest (hsuffix.trans (List.suffix_cons c target))) hrest]

theorem replace_ne_zpl_size (s : String) : replace s "zpl_" "zp_" ≠ "zpl_size" := by
  intro h
  have hchars : replaceChars "zpl_".toList "zp_".toList 0 s.toList = "zpl_size".toList := by
    rw [← h]
    exact String.toList_ofList.symm
  have hnew : ∀ rest, rest <:+ "zpl_size".toList → ¬ "zp_".toList <+: rest := by
    intro rest hrest
    have hmem := (List.mem_tails _ _).mpr hrest
    have hall : ∀ rest ∈ "zpl_size".toList.tails, ¬ "zp_".toList <+: rest := by decide
    exact hall rest hmem
  have hs := replaceChars_eq_self hnew hchars
  rw [String.toList_inj.mp hs] at h
  exact absurd h (by decide)

/-- The loop sets `zp_size` whenever it sets `zpl_size`. -/
theorem sysattr_fields_zp_size {data : Bytes} {fields : List SaField} {ptr lenidx : Nat}
    {attrs : List (String × SaValue)} (hset : ∀ v, ("zpl_size", v) ∈ attrs → ∃ w, ("zp_size", w) ∈ attrs) :
    ∀ v, ("zpl_size", v) ∈ (sysattr_fields data ptr lenidx attrs fields).attrs →
      ∃ w, ("zp_size", w) ∈ (sysattr_fields data ptr lenidx attrs fields).attrs := by
  induction fields generalizing ptr lenidx attrs with
  | nil => exact hset
  | cons f fields ih =>
    rw [sysattr_fields]
    split
    · exact hset
    · rename_i found v l lenidx' hvalue
      apply ih
      intro v' hmem
      rcases List.mem_cons.mp hmem with heq | hmem
      · exact absurd (congrArg Prod.fst heq).symm (replace_ne_zpl_size f.name)
      rcases List.mem_cons.mp hmem with heq | hmem
      · have hname : "zpl_size" = f.name := congrArg Prod.fst heq
        have hreplace : replace f.name "zpl_" "zp_" = "zp_size" := by
          rw [← hname]
          decide
        exact ⟨v, by rw [hreplace]; exact List.mem_cons_self⟩
      · obtain ⟨w, hw⟩ := hset v' hmem
        exact ⟨w, List.mem_cons_of_mem _ (List.mem_cons_of_mem _ hw)⟩

theorem BonusSysAttr.init_zp_size {sa : Option SaLayouts} {data : Bytes} {v : SaValue}
    (h : (BonusSysAttr.init sa data).attrs.lookup "zpl_size" = some v) :
    ∃ w, (BonusSysAttr.init sa data).getattr "zp_size" = some w := by
  have hpair : ∃ w, ("zp_size", w) ∈ (BonusSysAttr.init sa data).attrs := by
    have hmem := dict.mem_of_lookup h
    generalize hinit : BonusSysAttr.init sa data = bonus at hmem ⊢
    unfold BonusSysAttr.init at hinit
    split at hinit
    · subst hinit
      exact absurd hmem List.not_mem_nil
    split at hinit
    · subst hinit
      exact absurd hmem List.not_mem_nil
    split at hinit
    · subst hinit
      exact absurd hmem List.not_mem_nil
    · subst hinit
      exact sysattr_fields_zp_size (fun _ hnil => absurd hnil List.not_mem_nil) v hmem
  obtain ⟨w, hw⟩ := hpair
  obtain ⟨w', hlookup⟩ := dict.exists_lookup_of_mem hw
  refine ⟨w', ?_⟩
  rw [BonusSysAttr.getattr]
  split
  · rw [if_neg (by decide), hlookup]
  · exact hlookup

/-- The bonus of a parsed dnode is one that was read from its data. -/
theorem DNode.parse_bonus_eq {sa : Option SaLayouts} {data : Bytes} {dn : DNode} {bonus : Bonus}
    (h : DNode.parse sa data = .ok dn) (hbonus : dn.bonus = some bonus) :
    ∃ bonus_data, (DNode.parse_header data).parse_bonus sa bonus_data = .ok bonus := by
  rw [DNode.parse] at h
  split at h
  · cases h
  split at h
  · cases h
    cases hbonus
  split at h
  · cases h
    cases hbonus
  split at h
  · cases h
    cases hbonus
  · obtain ⟨_, _, h⟩ := bind_eq_ok_iff.mp h
    obtain ⟨_, hparse, h⟩ := bind_eq_ok_iff.mp h
    cases h
    cases hbonus
    exact ⟨_, hparse⟩

end zfs_rescue.dnode

namespace zfs_rescue.fileobj

/-- A file of a known size has both names for it. -/
theorem zp_size_of_file_size {sa : Option SaLayouts} {data : Bytes} {dn : DNode} {size : Nat}
    (hparse : DNode.parse sa data = .ok dn) (hsize : file_size dn = .ok size) : ∃ v, zp_size dn = .ok v := by
  rw [file_size] at hsize
  rw [zp_size]
  cases hbonus : dn.bonus with
  | none =>
    rw [hbonus] at hsize
    cases hsize
  | some bonus =>
    rw [hbonus] at hsize
    cases bonus with
    | directory | dataset | raw => cases hsize
    | znode bonus => exact ⟨_, rfl⟩
    | sysattr bonus =>
      obtain ⟨bonus_data, hread⟩ := DNode.parse_bonus_eq hparse hbonus
      have hinit : bonus = BonusSysAttr.init sa bonus_data := by
        rw [DNode.parse_bonus] at hread
        split at hread
        · obtain ⟨_, _, h⟩ := bind_eq_ok_iff.mp hread
          cases h
        split at hread
        · obtain ⟨_, _, h⟩ := bind_eq_ok_iff.mp hread
          cases h
        split at hread
        · obtain ⟨_, _, h⟩ := bind_eq_ok_iff.mp hread
          cases h
        split at hread
        · cases hread
          rfl
        · cases hread
      simp only [Bonus.size] at hsize
      cases hlookup : bonus.attrs.lookup "zpl_size" with
      | none =>
        rw [hlookup] at hsize
        cases hsize
      | some v =>
        rw [hinit] at hlookup
        obtain ⟨w, hw⟩ := BonusSysAttr.init_zp_size hlookup
        rw [← hinit] at hw
        exact ⟨w, by simp only [Bonus.zp_size, hw]⟩

/-- What the loop of `extract_file` has written when it ends or raises. -/
def written_blocks (file_dnode : DNode) (bt : BlockTree) : Cache → Output → List Nat → Bytes
  | _, out, [] => out.written
  | cache, out, n :: rest =>
    match bt.getitem cache n with
    | (.error _, _) => out.written
    | (.ok bp, cache) =>
      match read_bp bt.vdev bp >>= fun r => out.write_block file_dnode r.1 with
      | .error _ => out.written
      | .ok out => written_blocks file_dnode bt cache out rest

/-- What `extract_file` writes behind its early return, before it truncates the
    file. -/
def written (vdev : GenericDevice) (file_dnode : DNode) : Bytes :=
  match block_tree vdev file_dnode, file_size file_dnode with
  | .ok bt, .ok size =>
    if 0 < size then written_blocks file_dnode bt [] {} (List.range (file_dnode.maxblkid + 1)) else []
  | _, _ => []

/-- A loop that ends has written what it leaves behind. -/
theorem written_blocks_of_ok {file_dnode : DNode} {bt : BlockTree} {cache : Cache} {out out' : Output} {blocks : List Nat}
    (h : write_blocks file_dnode bt cache out blocks = .ok out') :
    written_blocks file_dnode bt cache out blocks = out'.written := by
  induction blocks generalizing cache out with
  | nil =>
    cases h
    rfl
  | cons n rest ih =>
    rw [write_blocks] at h
    rw [written_blocks]
    generalize bt.getitem cache n = found at h ⊢
    obtain ⟨bp, cache'⟩ := found
    cases bp with
    | error e => cases h
    | ok bp =>
      obtain ⟨r, hr, h⟩ := bind_eq_ok_iff.mp h
      obtain ⟨next, hnext, h⟩ := bind_eq_ok_iff.mp h
      simp only [hr, bind_ok, hnext]
      exact ih h

/-- The first `k` blocks as the loop writes them. -/
def content (file_dnode : DNode) (bt : BlockTree) (k : Nat) : Bytes := (List.range k).flatMap (piece file_dnode bt)

theorem content_succ (file_dnode : DNode) (bt : BlockTree) (k : Nat) :
    content file_dnode bt (k + 1) = content file_dnode bt k ++ piece file_dnode bt k := by
  rw [content, List.range_succ, List.flatMap_append, List.flatMap_singleton]
  rfl

/-- The loop writes the blocks up to the first that stops it. -/
theorem written_blocks_eq (file_dnode : DNode) {bt : BlockTree} {cache : Cache} (out : Output)
    (hcached : bt.Cached cache) (blocks : List Nat) :
    ∃ k, k ≤ blocks.length ∧ (∀ n ∈ blocks.take k, Passable file_dnode bt n) ∧
      written_blocks file_dnode bt cache out blocks =
        out.written ++ (blocks.take k).flatMap (piece file_dnode bt) := by
  induction blocks generalizing cache out with
  | nil => exact ⟨0, Nat.le_refl _, by simp, by simp [written_blocks]⟩
  | cons n rest ih =>
    obtain ⟨hlookup, hcached'⟩ := BlockTree.getitem_spec hcached (n : Int)
    cases hturn : file_block bt n >>= fun r => out.write_block file_dnode r.1 with
    | error e =>
      refine ⟨0, Nat.zero_le _, by simp, ?_⟩
      rw [file_block, ← hlookup] at hturn
      rw [written_blocks, List.take_zero, List.flatMap_nil, List.append_nil]
      generalize bt.getitem cache n = found at hturn
      obtain ⟨bp, cache'⟩ := found
      cases bp with
      | error e => rfl
      | ok bp =>
        rw [bind_ok] at hturn
        simp only [hturn]
    | ok out' =>
      obtain ⟨hpass, hout⟩ := write_block_eq_ok_iff.mp hturn
      obtain ⟨k, hk, hall, hwritten⟩ := ih out' hcached'
      refine ⟨k + 1, Nat.succ_le_succ hk, ?_, ?_⟩
      · rw [List.take_succ_cons, List.forall_mem_cons]
        exact ⟨hpass, hall⟩
      · rw [List.take_succ_cons, List.flatMap_cons, ← List.append_assoc]
        rw [hout] at hwritten
        simp only at hwritten
        rw [← hwritten, ← hout, written_blocks]
        rw [file_block, ← hlookup] at hturn
        generalize bt.getitem cache n = found at hturn
        obtain ⟨bp, cache'⟩ := found
        cases bp with
        | error e => cases hturn
        | ok bp =>
          rw [bind_ok] at hturn
          simp only [hturn]

/-- The reader goes over the blocks of a file in a tree, with zeros in place of
    the bad ones. -/
structure Source (file_dnode : DNode) (bt : BlockTree) (f : FileObj) : Prop where
  bt_eq : f.bt = bt
  max_blkid_eq : f.max_blkid = file_dnode.maxblkid
  datablksize_eq : f.datablksize = file_dnode.datablksize
  bad_as_zeros : f.bad_as_zeros = true
  cached : bt.Cached f.cache

/-- The reader has given `front` so far, and the rest of the blocks it has
    fetched is in its buffer. -/
structure Given (file_dnode : DNode) (bt : BlockTree) (f : FileObj) (front : Bytes) : Prop where
  source : Source file_dnode bt f
  buffer : ∃ buf, f.buf = some buf ∧ f.blkpos ≤ buf.length ∧
    content file_dnode bt f.next_blkid = front ++ buf.drop f.blkpos

section Reader

variable {file_dnode : DNode} {bt : BlockTree} {self : FileObj}

theorem bad_block_zeros (f : FileObj) (hzeros : f.bad_as_zeros = true) {datablksize : Nat}
    (hdatablksize : f.datablksize = some datablksize) :
    f.bad_block = .ok (some (List.replicate datablksize 0)) := by
  rw [FileObj.bad_block, if_pos hzeros, hdatablksize]

/-- A turn of the loop on a block that `extract_file` gets past puts the same
    bytes into the buffer as that writes. -/
theorem read_blocks_succ {n : Nat} {data : Bytes} (fuel : Nat) (hsource : Source file_dnode bt self) (hlt : data.length < n)
    (hle : self.next_blkid ≤ file_dnode.maxblkid) (hpass : Passable file_dnode bt self.next_blkid) :
    ∃ turn : FileObj, Source file_dnode bt turn ∧ turn.next_blkid = self.next_blkid + 1 ∧
      turn.buf = some (piece file_dnode bt self.next_blkid) ∧
      turn.blkpos = min (n - data.length) (piece file_dnode bt self.next_blkid).length ∧
      turn.filepos = self.filepos ∧
      self.read_blocks n (fuel + 1) data =
        turn.read_blocks n fuel (data ++ (piece file_dnode bt self.next_blkid).take turn.blkpos) := by
  obtain ⟨rfl, hmax, hdatablksize, hzeros, hcached⟩ := hsource
  obtain ⟨hlookup, hcached'⟩ := BlockTree.getitem_spec hcached (self.next_blkid : Int)
  obtain ⟨r, hr, hsize⟩ := hpass
  rw [FileObj.read_blocks, if_neg (by omega), FileObj.fetch, if_neg (by omega), piece, hr]
  rw [file_block, ← hlookup] at hr
  generalize self.bt.getitem self.cache self.next_blkid = found at hr hcached' ⊢
  obtain ⟨bp, cache'⟩ := found
  cases bp with
  | error e => cases hr
  | ok bp =>
    rw [bind_ok] at hr
    cases bp with
    | none =>
      cases hr
      obtain ⟨datablksize, hdata⟩ := hsize rfl
      rw [hdata, Option.getD_some]
      simp only
      let f : FileObj := { self with cache := cache', next_blkid := self.next_blkid + 1 }
      rw [bad_block_zeros f hzeros (hdatablksize.trans hdata)]
      exact ⟨({ f with corrupted := true }.take_block n data (List.replicate datablksize 0)).1,
        ⟨rfl, hmax, hdatablksize, hzeros, hcached'⟩, rfl, rfl, rfl, rfl, rfl⟩
    | some bptr =>
      rw [read_bp] at hr
      simp only [hr, bind_ok]
      obtain ⟨block_data, c⟩ := r
      let f : FileObj := { self with cache := cache', next_blkid := self.next_blkid + 1, buf := block_data }
      cases block_data with
      | none =>
        obtain ⟨datablksize, hdata⟩ := hsize rfl
        rw [hdata, Option.getD_some]
        simp only [Option.isNone_none]
        rw [bad_block_zeros f hzeros (hdatablksize.trans hdata)]
        exact ⟨({ f with corrupted := true }.take_block n data (List.replicate datablksize 0)).1,
          ⟨rfl, hmax, hdatablksize, hzeros, hcached'⟩, rfl, rfl, rfl, rfl, rfl⟩
      | some block_data =>
        exact ⟨(f.take_block n data block_data).1, ⟨rfl, hmax, hdatablksize, hzeros, hcached'⟩, rfl, rfl, rfl, rfl, rfl⟩

/-- The loop of `read`, as long as `extract_file` gets past enough blocks. The
    data so far is what the blocks fetched hold behind `front`, but for the rest
    of the buffer, and there is no such rest while more is needed. -/
theorem read_blocks_spec {n k : Nat} {front data : Bytes} (fuel : Nat) (hpass : ∀ m, m < k → Passable file_dnode bt m)
    (hk : k ≤ file_dnode.maxblkid + 1) (hgiven : Given file_dnode bt self (front ++ data)) (hle : data.length ≤ n)
    (hfull : data.length < n → ∀ buf, self.buf = some buf → self.blkpos = buf.length)
    (hroom : front.length + n ≤ (content file_dnode bt k).length) (hnext : self.next_blkid ≤ k)
    (hfuel : k - self.next_blkid ≤ fuel) :
    ∃ (data' : Bytes) (turn : FileObj), self.read_blocks n fuel data = some (.ok (data', turn)) ∧ data'.length = n ∧
      Given file_dnode bt turn (front ++ data') ∧ turn.next_blkid ≤ k ∧ turn.filepos = self.filepos := by
  induction fuel generalizing self data with
  | zero =>
    have hlength : data.length = n := by
      by_contra hne
      obtain ⟨buf, hbuf, -, hcontent⟩ := hgiven.buffer
      rw [hfull (by omega) buf hbuf, List.drop_length, List.append_nil, show self.next_blkid = k by omega] at hcontent
      rw [hcontent, List.length_append] at hroom
      omega
    exact ⟨data, self, by rw [FileObj.read_blocks, if_pos (by omega)], hlength, hgiven, hnext, rfl⟩
  | succ fuel ih =>
    by_cases hlt : data.length < n
    · obtain ⟨buf, hbuf, -, hcontent⟩ := hgiven.buffer
      rw [hfull hlt buf hbuf, List.drop_length, List.append_nil] at hcontent
      have hblock : self.next_blkid < k := by
        by_contra hge
        rw [show self.next_blkid = k by omega] at hcontent
        rw [hcontent, List.length_append] at hroom
        omega
      obtain ⟨turn, hsource, hturn, hbuf', hblkpos, hfilepos, hread⟩ :=
        read_blocks_succ fuel hgiven.source hlt (by omega) (hpass _ hblock)
      have hsucc := content_succ file_dnode bt self.next_blkid
      generalize piece file_dnode bt self.next_blkid = block at hbuf' hblkpos hread hsucc
      have htaken : (data ++ block.take turn.blkpos).length = data.length + turn.blkpos := by
        rw [List.length_append, List.length_take]
        omega
      have hgiven' : Given file_dnode bt turn (front ++ (data ++ block.take turn.blkpos)) := by
        refine ⟨hsource, block, hbuf', by omega, ?_⟩
        rw [hturn, hsucc, hcontent]
        simp only [List.append_assoc, List.take_append_drop]
      obtain ⟨data', turn', hrun, hlength, hgiven'', hnext', hfilepos'⟩ := ih hgiven' (by omega)
        (fun _ buf hbuf => by
          rw [hbuf', Option.some.injEq] at hbuf
          rw [← hbuf]
          omega) (by omega) (by omega)
      exact ⟨data', turn', by rw [hread, hrun], hlength, hgiven'', hnext', by omega⟩
    · exact ⟨data, self, by rw [FileObj.read_blocks, if_pos (by omega)], by omega, hgiven, hnext, rfl⟩

/-- A call of `read` that stays within what `extract_file` writes gives the next
    bytes of it, and exactly as many as are asked for. -/
theorem read_spec {n fuel k : Nat} {front : Bytes} (hpass : ∀ m, m < k → Passable file_dnode bt m)
    (hk : k ≤ file_dnode.maxblkid + 1) (hgiven : Given file_dnode bt self front)
    (hroom : front.length + n ≤ (content file_dnode bt k).length) (hnext : self.next_blkid ≤ k)
    (hfuel : k ≤ fuel) :
    ∃ (data : Bytes) (after : FileObj), self.read fuel n = some (.ok (data, after)) ∧ data.length = n ∧
      Given file_dnode bt after (front ++ data) ∧ after.next_blkid ≤ k ∧ after.tell = self.tell + n := by
  obtain ⟨hsource, buf, hbuf, hblkpos, hcontent⟩ := hgiven
  have hrest : (slice buf self.blkpos (min n (buf.length - self.blkpos))).length = min n (buf.length - self.blkpos) :=
    length_slice_of_le (by omega)
  have hgiven' : Given file_dnode bt { self with blkpos := self.blkpos + min n (buf.length - self.blkpos) }
      (front ++ slice buf self.blkpos (min n (buf.length - self.blkpos))) := by
    refine ⟨⟨hsource.bt_eq, hsource.max_blkid_eq, hsource.datablksize_eq, hsource.bad_as_zeros, hsource.cached⟩, buf,
      hbuf, by simp only; omega, ?_⟩
    simp only
    rw [hcontent, List.append_assoc, slice, ← List.drop_drop, List.take_append_drop]
  obtain ⟨data, turn, hrun, hlength, hgiven'', hnext', hfilepos⟩ := read_blocks_spec fuel hpass hk hgiven'
    (n := n) (by omega)
    (fun hlt other hother => by
      simp only at hother ⊢
      rw [hbuf, Option.some.injEq] at hother
      rw [← hother]
      omega) hroom hnext (by simp only; omega)
  refine ⟨data, { turn with filepos := turn.filepos + data.length }, ?_, hlength, ?_, hnext', ?_⟩
  · rw [hbuf] at hrun
    rw [FileObj.read, hbuf]
    simp only
    rw [hrun]
  · obtain ⟨hsource', hbuffer⟩ := hgiven''
    exact ⟨⟨hsource'.bt_eq, hsource'.max_blkid_eq, hsource'.datablksize_eq, hsource'.bad_as_zeros, hsource'.cached⟩,
      hbuffer⟩
  · rw [FileObj.tell, hfilepos, hlength]
    rfl

theorem Given.prefix_content {k : Nat} {front : Bytes} (h : Given file_dnode bt self front) (hnext : self.next_blkid ≤ k) :
    front <+: content file_dnode bt k := by
  obtain ⟨buf, -, -, hcontent⟩ := h.buffer
  obtain ⟨more, rfl⟩ := Nat.exists_eq_add_of_le hnext
  refine ⟨buf.drop self.blkpos ++ (List.range more).flatMap fun m => piece file_dnode bt (self.next_blkid + m), ?_⟩
  rw [← List.append_assoc, ← hcontent, content, content, List.range_add, List.flatMap_append, List.flatMap_map]

/-- The positions after each of some reads. -/
def positions : Nat → List Nat → List Nat
  | _, [] => []
  | pos, n :: sizes => (pos + n) :: positions (pos + n) sizes

/-- The calls one after the other. -/
theorem reads_spec {fuel k : Nat} {front : Bytes} (sizes : List Nat) (hpass : ∀ m, m < k → Passable file_dnode bt m)
    (hk : k ≤ file_dnode.maxblkid + 1) (hgiven : Given file_dnode bt self front)
    (hroom : front.length + sizes.sum ≤ (content file_dnode bt k).length) (hnext : self.next_blkid ≤ k) (hfuel : k ≤ fuel) :
    ∃ parts, self.reads fuel sizes = some (.ok parts) ∧ parts.map (fun part => part.1.length) = sizes ∧
      front ++ (parts.map Prod.fst).flatten <+: content file_dnode bt k ∧
      parts.map Prod.snd = positions self.tell sizes := by
  induction sizes generalizing self front with
  | nil =>
    refine ⟨[], rfl, rfl, ?_, rfl⟩
    rw [List.map_nil, List.flatten_nil, List.append_nil]
    exact hgiven.prefix_content hnext
  | cons n sizes ih =>
    rw [List.sum_cons] at hroom
    obtain ⟨data, after, hread, hlength, hgiven', hnext', htell⟩ := read_spec hpass hk hgiven (n := n) (by omega) hnext hfuel
    obtain ⟨parts, hreads, hlengths, hprefix, hpositions⟩ := ih hgiven' (by rw [List.length_append]; omega) hnext'
    refine ⟨(data, after.tell) :: parts, ?_, ?_, ?_, ?_⟩
    · simp only [FileObj.reads, hread, hreads]
    · rw [List.map_cons, hlengths, hlength]
    · rwa [List.map_cons, List.flatten_cons, ← List.append_assoc]
    · rw [List.map_cons, hpositions, htell, positions]

end Reader

/-- Reading a file in steps, with zeros for the bad blocks, agrees with
    extracting it: either both fail on the block tree before the first byte, or
    any reads within what the extraction writes give just that, each as much as
    it was asked for. An extraction that ends leaves it cut to the size. -/
theorem reads_agree {sa : Option SaLayouts} {data : Bytes} {vdev : GenericDevice} {file_dnode : DNode} {size : Nat}
    (hparse : DNode.parse sa data = .ok file_dnode) (hskip : cannot_extract file_dnode = .ok false)
    (hsize : file_size file_dnode = .ok size) (hpos : 0 < size) :
    (∃ e, FileObj.init vdev file_dnode true = .error e ∧ extract_file vdev (some file_dnode) = .error e ∧
      written vdev file_dnode = []) ∨
    ∃ bt f, block_tree vdev file_dnode = .ok bt ∧ FileObj.init vdev file_dnode true = .ok f ∧
      (∀ file success, extract_file vdev (some file_dnode) = .ok (file, success) →
        ∃ out, write_file file_dnode bt size = .ok out ∧ out.written = written vdev file_dnode ∧
          file = out.written.take (min out.written.length size)) ∧
      ∀ sizes : List Nat, sizes.sum ≤ (written vdev file_dnode).length →
        ∃ fuel parts, f.reads fuel sizes = some (.ok parts) ∧ parts.map (fun part => part.1.length) = sizes ∧
          (parts.map Prod.fst).flatten = (written vdev file_dnode).take sizes.sum ∧
          parts.map Prod.snd = positions 0 sizes := by
  cases hbt : block_tree vdev file_dnode with
  | error e =>
    refine .inl ⟨e, ?_, ?_, ?_⟩
    · rw [FileObj.init, hbt, bind_error]
    · rw [extract_file, hskip, bind_ok, if_neg (by simp), extract_blocks, hbt, bind_error]
    · rw [written, hbt]
  | ok bt =>
    right
    obtain ⟨v, hv⟩ := zp_size_of_file_size hparse hsize
    have hinit : FileObj.init vdev file_dnode true =
        .ok { bt := bt, max_blkid := file_dnode.maxblkid, datablksize := file_dnode.datablksize, size := v,
              bad_as_zeros := true } := by
      rw [FileObj.init, hbt, bind_ok, hv, bind_ok]
    have hwrites : written vdev file_dnode =
        written_blocks file_dnode bt [] {} (List.range (file_dnode.maxblkid + 1)) := by
      rw [written, hbt, hsize]
      simp only [if_pos hpos]
    refine ⟨bt, _, rfl, hinit, ?_, fun sizes hsum => ?_⟩
    · intro file success hrun
      rw [extract_file, hskip, bind_ok, if_neg (by simp), extract_blocks_eq_ok_iff] at hrun
      obtain ⟨bt', size', out, hbt', hsize', hout, hfile, -⟩ := hrun
      rw [hbt] at hbt'
      rw [hsize] at hsize'
      cases hbt'
      cases hsize'
      refine ⟨out, hout, ?_, hfile⟩
      rw [write_file, if_pos hpos] at hout
      rw [hwrites, written_blocks_of_ok hout]
    · obtain ⟨k, hk, hpass, hwritten⟩ := written_blocks_eq file_dnode {} bt.cached_nil
        (List.range (file_dnode.maxblkid + 1))
      rw [List.length_range] at hk
      rw [List.take_range, Nat.min_eq_left hk] at hpass hwritten
      rw [hwrites, hwritten, List.nil_append] at hsum ⊢
      have hgiven : Given file_dnode bt
          { bt := bt, max_blkid := file_dnode.maxblkid, datablksize := file_dnode.datablksize, size := v,
            bad_as_zeros := true } [] :=
        ⟨⟨rfl, rfl, rfl, rfl, bt.cached_nil⟩, [], rfl, Nat.le_refl _, rfl⟩
      obtain ⟨parts, hreads, hlengths, hprefix, hpositions⟩ := reads_spec sizes
        (fun m hm => hpass m (List.mem_range.mpr hm)) hk hgiven (by rw [List.length_nil, Nat.zero_add]; exact hsum)
        (Nat.zero_le k) (Nat.le_refl k)
      refine ⟨k, parts, hreads, hlengths, ?_, hpositions⟩
      have hlength : (parts.map Prod.fst).flatten.length = sizes.sum := by
        rw [List.length_flatten, List.map_map, ← hlengths]
        rfl
      rw [List.nil_append] at hprefix
      rw [← hlength]
      exact List.prefix_iff_eq_take.mp hprefix

/-- The bytes of a dnode of a file of 1000 bytes in two blocks, behind an indirect one in
    the second sector. -/
def two_block_file : Bytes :=
  fit 512
    (encode_words [19 + 17 * 2 ^ 8 + 2 * 2 ^ 16 + 2 ^ 24 + 17 * 2 ^ 32, 1 + 264 * 2 ^ 16, 1, 0, 0, 0, 0, 0] ++
      sector_bytes 1 2 2 ++ encode_words (List.replicate 10 0 ++ [1000]))

/-- A device on which the first block is in the third sector, and the second, under LZJB,
    cannot be read. -/
def bad_block_device : GenericDevice where
  ashift := 9
  read_physical offset size :=
    .ok
      (if offset = 512 then some (fit size (sector_bytes 2 2 2 ++ sector_bytes 3 3 2))
      else if offset = 1024 then some (List.replicate size 7)
      else none)
  zlib_decompress := .ok

/-- Two reads across the blocks give the bytes of the first and zeros for the second. -/
theorem reads_agree_bad_block :
    ∃ dn f fuel parts, DNode.parse none two_block_file = .ok dn ∧ FileObj.init bad_block_device dn true = .ok f ∧
      extract_file bad_block_device (some dn) = .ok (List.replicate 512 7 ++ List.replicate 488 0, false) ∧
      f.reads fuel [100, 500] = some (.ok parts) ∧ parts.map (fun part => part.1.length) = [100, 500] ∧
      (parts.map Prod.fst).flatten = List.replicate 512 7 ++ List.replicate 88 0 ∧
      parts.map Prod.snd = [100, 600] := by
  have hfacts : (DNode.parse none two_block_file).map (fun dn => decide (
      cannot_extract dn = .ok false ∧ file_size dn = .ok 1000 ∧
      extract_file bad_block_device (some dn) = .ok (List.replicate 512 7 ++ List.replicate 488 0, false) ∧
      written bad_block_device dn = List.replicate 512 7 ++ List.replicate 512 0)) = .ok true := by
    decide +kernel
  obtain ⟨dn, hparse, hdn⟩ := map_eq_ok_iff.mp hfacts
  obtain ⟨hskip, hsize, hrun, hwritten⟩ := of_decide_eq_true hdn
  have hsum : [100, 500].sum ≤ (written bad_block_device dn).length := by
    rw [hwritten, List.length_append, List.length_replicate, List.length_replicate]
    decide
  obtain ⟨e, -, hraises, -⟩ | ⟨bt, f, -, hinit, -, hreads⟩ :=
    @reads_agree none _ bad_block_device dn 1000 hparse hskip hsize (by decide)
  · rw [hrun] at hraises
    cases hraises
  · obtain ⟨fuel, parts, hparts, hlengths, hflatten, hpositions⟩ := hreads [100, 500] hsum
    refine ⟨dn, f, fuel, parts, hparse, hinit, hrun, hparts, hlengths, ?_, hpositions⟩
    rw [hflatten, hwritten]
    decide +kernel

end zfs_rescue.fileobj
