import ZfsRescue.Fileobj.Stored

open bytes
open zfs_rescue.blocktree zfs_rescue.dataset

namespace zfs_rescue.fileobj

/-- The object behind the part of a turn that reads a block, whatever came of it. -/
def FileObj.fetched (self : FileObj) : FileObj :=
  if self.next_blkid > self.max_blkid then self
  else
    match self.bt.getitem self.cache self.next_blkid with
    | (.error _, cache) => { self with cache := cache }
    | (.ok none, cache) => { self with cache := cache, next_blkid := self.next_blkid + 1 }
    | (.ok (some bptr), cache) =>
      match self.bt.vdev.read_block bptr 0 with
      | .error _ => { self with cache := cache, next_blkid := self.next_blkid + 1 }
      | .ok r => { self with cache := cache, next_blkid := self.next_blkid + 1, buf := r.1 }

/-- The object behind a loop that an exception ends. -/
def FileObj.raised_blocks (n : Nat) : Nat → FileObj → Bytes → FileObj
  | 0, self, _ => self
  | fuel + 1, self, data =>
    if n ≤ data.length then self
    else
      match self.fetch with
      | .error _ => self.fetched
      | .ok (self, false) =>
        match self.buf with
        | none => self
        | some buf => FileObj.raised_blocks n fuel (self.take_block n data buf).1 (self.take_block n data buf).2
      | .ok (self, true) =>
        match self.bad_block with
        | .ok (some buf) =>
          let turn := { self with corrupted := true }.take_block n data buf
          FileObj.raised_blocks n fuel turn.1 turn.2
        | _ => { self with corrupted := true }

/-- `read(n)`, with fuel for all blocks. -/
def FileObj.call (self : FileObj) (n : Nat) : Option (Py (Bytes × FileObj)) := self.read (self.max_blkid + 2) n

/-- The object behind a call, whatever came of it. The position is not moved by a
    call that raises an exception. -/
def FileObj.after (self : FileObj) (n : Nat) : FileObj :=
  match self.call n with
  | some (.ok (_, f)) => f
  | _ =>
    match self.buf with
    | none => self
    | some buf =>
      let nn := min n (buf.length - self.blkpos)
      FileObj.raised_blocks n (self.max_blkid + 2) { self with blkpos := self.blkpos + nn } (slice buf self.blkpos nn)

/-- What the next call takes first: the rest of the buffer, if there is one. -/
def FileObj.rest (self : FileObj) : Option Bytes := self.buf.map fun buf => buf.drop self.blkpos

/-- A reader of the blocks of a tree that ends a call at a bad one. -/
structure FileObj.Reads (f : FileObj) (bt : BlockTree) (max_blkid : Nat) : Prop where
  bt_eq : f.bt = bt
  max_blkid_eq : f.max_blkid = max_blkid
  bad_as_zeros : f.bad_as_zeros = false
  cached : bt.Cached f.cache
  next_le : f.next_blkid ≤ max_blkid + 1

/-- A block of the file that cannot be read, or none of it. -/
def Bad (bt : BlockTree) (max_blkid k : Nat) : Prop := k ≤ max_blkid → ¬∃ block, Readable bt k block

/-- The object behind a call that ended at block `k`: a bad one is passed over, and
    may leave no buffer behind. -/
def FileObj.StoppedAt (self : FileObj) (bt : BlockTree) (max_blkid k : Nat) : Prop :=
  (k = max_blkid + 1 ∧ self.next_blkid = k ∧ self.rest = some []) ∨
    (k ≤ max_blkid ∧ Bad bt max_blkid k ∧ self.next_blkid = k + 1 ∧ (self.rest = none ∨ self.rest = some []))

section Loop

variable {bt : BlockTree} {max_blkid : Nat} {self f : FileObj}

theorem readable_iff {k : Nat} {block : Bytes} : Readable bt k block ↔ ∃ c, file_block bt k = .ok (some block, c) := by
  rw [Readable, file_block]
  constructor
  · rintro ⟨bp, c, hlookup, hread⟩
    exact ⟨c, by rw [hlookup, bind_ok, read_bp, hread]⟩
  · rintro ⟨c, h⟩
    obtain ⟨bp, hlookup, hread⟩ := bind_eq_ok_iff.mp h
    cases bp with
    | none => cases hread
    | some bp => exact ⟨bp, c, hlookup, hread⟩

theorem Readable.eq {k : Nat} {block block' : Bytes} (h : Readable bt k block) (h' : Readable bt k block') :
    block = block' := by
  obtain ⟨c, h⟩ := readable_iff.mp h
  obtain ⟨c', h'⟩ := readable_iff.mp h'
  rw [h] at h'
  cases h'
  rfl

/-- What a turn's read of a block can come to: the block, the end of the call, or an
    exception that the block raises by itself. -/
theorem FileObj.Reads.fetch_cases (hreads : self.Reads bt max_blkid) :
    (self.next_blkid ≤ max_blkid ∧ ∃ block cache, Readable bt self.next_blkid block ∧ bt.Cached cache ∧
        self.fetch = .ok ({ self with cache := cache, next_blkid := self.next_blkid + 1, buf := some block }, false)) ∨
      (self.next_blkid = max_blkid + 1 ∧ self.fetch = .ok (self, true)) ∨
      (self.next_blkid ≤ max_blkid ∧ (¬∃ block, Readable bt self.next_blkid block) ∧
        ∃ cache buf, bt.Cached cache ∧ (buf = none ∨ buf = self.buf) ∧
          self.fetch = .ok ({ self with cache := cache, next_blkid := self.next_blkid + 1, buf := buf }, true)) ∨
      (self.next_blkid ≤ max_blkid ∧ ∃ e, file_block bt self.next_blkid = .error e ∧ self.fetch = .error e ∧
        self.fetched.Reads bt max_blkid ∧ self.fetched.buf = self.buf ∧ self.fetched.blkpos = self.blkpos) := by
  obtain ⟨rfl, rfl, hzeros, hcached, hnext⟩ := hreads
  by_cases hpast : self.next_blkid > self.max_blkid
  · exact .inr (.inl ⟨by omega, by rw [FileObj.fetch, if_pos hpast]⟩)
  obtain ⟨hitem, hcached'⟩ := BlockTree.getitem_spec hcached (self.next_blkid : Int)
  rw [FileObj.fetch, FileObj.fetched, if_neg hpast]
  rw [if_neg hpast]
  simp only [readable_iff, file_block, ← hitem]
  generalize self.bt.getitem self.cache self.next_blkid = found at hcached'
  obtain ⟨bp, cache⟩ := found
  have hle : self.next_blkid ≤ self.max_blkid := by omega
  cases bp with
  | error e =>
    exact .inr (.inr (.inr ⟨hle, e, rfl, rfl, ⟨rfl, rfl, hzeros, hcached', hnext⟩, rfl, rfl⟩))
  | ok bp =>
    cases bp with
    | none =>
      refine .inr (.inr (.inl ⟨hle, ?_, cache, self.buf, hcached', .inr rfl, rfl⟩))
      rintro ⟨block, c, h⟩
      cases h
    | some bptr =>
      cases hread : self.bt.vdev.read_block bptr 0 with
      | error e =>
        have hraise : read_bp self.bt.vdev (some bptr) = .error e := hread
        simp only [hread, bind_error]
        exact .inr (.inr (.inr ⟨hle, e, by rw [bind_ok, hraise], rfl,
          ⟨rfl, rfl, hzeros, hcached', Nat.succ_le_succ hle⟩, trivial, trivial⟩))
      | ok r =>
        obtain ⟨data, c⟩ := r
        have hdata : read_bp self.bt.vdev (some bptr) = .ok (data, c) := hread
        cases data with
        | some block =>
          refine .inl ⟨hle, block, cache, ⟨c, by rw [bind_ok, hdata]⟩, hcached', ?_⟩
          simp only [hread, bind_ok]
          rfl
        | none =>
          refine .inr (.inr (.inl ⟨hle, ?_, cache, none, hcached', .inl rfl, ?_⟩))
          · rintro ⟨block, c', h⟩
            rw [bind_ok, hdata] at h
            cases h
          · simp only [hread, bind_ok]
            rfl

/-- The state of a turn behind a block that was read. -/
theorem rest_take_block (f : FileObj) (n : Nat) (data buf : Bytes) :
    (f.take_block n data buf).1.rest = some (buf.drop (min (n - data.length) buf.length)) :=
  rfl

/-- What the loop comes to over the blocks it takes: it has enough, or it ends behind
    them, at a block that is bad or none or by the exception that a block raises. -/
def FileObj.LoopTakes (self : FileObj) (bt : BlockTree) (max_blkid n fuel : Nat) (data rest : Bytes)
    (blocks : List Bytes) : Prop :=
  (n ≤ (data ++ blocks.flatten).length ∧
      ∃ f, self.read_blocks n fuel data = some (.ok ((data ++ blocks.flatten).take n, f)) ∧ f.Reads bt max_blkid ∧
        f.next_blkid = self.next_blkid + blocks.length ∧ f.filepos = self.filepos ∧
        f.rest = some (rest ++ blocks.flatten.drop (n - data.length))) ∨
    (data ++ blocks.flatten).length < n ∧
      ((∃ f, self.read_blocks n fuel data = some (.ok (data ++ blocks.flatten, f)) ∧ f.Reads bt max_blkid ∧
          f.filepos = self.filepos ∧ f.StoppedAt bt max_blkid (self.next_blkid + blocks.length)) ∨
        self.next_blkid + blocks.length ≤ max_blkid ∧
          ∃ e, file_block bt (self.next_blkid + blocks.length) = .error e ∧
            self.read_blocks n fuel data = some (.error e) ∧
            (self.raised_blocks n fuel data).Reads bt max_blkid ∧ (self.raised_blocks n fuel data).rest = some [])

/-- A turn that reads a block takes it before those of the turns behind it. -/
theorem FileObj.LoopTakes.cons {n fuel : Nat} {data block : Bytes} {blocks : List Bytes} (hmore : data.length < n)
    (hbuf : f.buf = some block) (hnext : f.next_blkid = self.next_blkid + 1) (hfilepos : f.filepos = self.filepos)
    (hfetch : self.fetch = .ok (f, false))
    (h : (f.take_block n data block).1.LoopTakes bt max_blkid n fuel (f.take_block n data block).2
      (block.drop (min (n - data.length) block.length)) blocks) :
    self.LoopTakes bt max_blkid n (fuel + 1) data [] (block :: blocks) := by
  have hread : self.read_blocks n (fuel + 1) data =
      (f.take_block n data block).1.read_blocks n fuel (f.take_block n data block).2 := by
    rw [FileObj.read_blocks, if_neg (by omega), hfetch]
    simp only [hbuf]
  have hraised : self.raised_blocks n (fuel + 1) data =
      (f.take_block n data block).1.raised_blocks n fuel (f.take_block n data block).2 := by
    rw [FileObj.raised_blocks, if_neg (by omega), hfetch]
    simp only [hbuf]
  obtain ⟨nn, hnn⟩ : ∃ nn, nn = min (n - data.length) block.length := ⟨_, rfl⟩
  have hturn : (f.take_block n data block).2 = data ++ block.take nn := by
    rw [hnn]
    rfl
  have hcount : (f.take_block n data block).1.next_blkid + blocks.length = self.next_blkid + (block :: blocks).length := by
    show f.next_blkid + blocks.length = _
    rw [hnext, List.length_cons]
    omega
  have hpos : (f.take_block n data block).1.filepos = self.filepos := hfilepos
  have hlength : (data ++ block.take nn).length = data.length + nn := by
    rw [List.length_append, List.length_take]
    omega
  have hflatten : (block :: blocks).flatten = block ++ blocks.flatten := rfl
  rw [FileObj.LoopTakes, hcount, hpos, hturn, ← hnn] at h
  rw [FileObj.LoopTakes, hread, hraised, hturn]
  obtain ⟨henough, g, hg, hg_reads, hg_next, hg_filepos, hg_rest⟩ | ⟨hshort, hends⟩ := h
  · refine .inl ⟨?_, g, ?_, hg_reads, hg_next, hg_filepos, ?_⟩
    · rw [List.length_append, hlength] at henough
      rw [hflatten, List.length_append, List.length_append]
      omega
    · rw [hg, hflatten, take_append_of_le (show (data ++ block.take nn).length ≤ n by omega), hlength,
        take_append_of_le (show data.length ≤ n by omega), List.append_assoc, ← Nat.sub_sub, hnn, take_take_append]
    · rw [hg_rest, hlength, hflatten, List.nil_append, ← Nat.sub_sub, hnn, drop_drop_append]
  · have hwhole : data ++ block.take nn ++ blocks.flatten = data ++ (block :: blocks).flatten := by
      rw [List.length_append, hlength] at hshort
      rw [List.take_of_length_le (by omega), hflatten, List.append_assoc]
    rw [hwhole] at hshort hends
    exact .inr ⟨hshort, hends⟩

/-- The loop takes blocks as long as it needs more. -/
theorem FileObj.Reads.read_blocks_cases {n fuel : Nat} {data rest : Bytes} (hreads : self.Reads bt max_blkid)
    (hrest : self.rest = some rest) (hle : data.length ≤ n) (hfull : data.length < n → rest = [])
    (hfuel : max_blkid + 2 ≤ fuel + self.next_blkid) :
    ∃ blocks, ReadableFrom bt self.next_blkid blocks ∧ self.next_blkid + blocks.length ≤ max_blkid + 1 ∧
      self.LoopTakes bt max_blkid n fuel data rest blocks := by
  induction fuel generalizing self data rest with
  | zero =>
    have hnext := hreads.next_le
    omega
  | succ fuel ih =>
    by_cases hdone : n ≤ data.length
    · refine ⟨[], trivial, hreads.next_le, .inl ⟨by simpa using hdone, self, ?_, hreads, rfl, rfl, ?_⟩⟩
      · rw [FileObj.read_blocks, if_pos hdone, List.flatten_nil, List.append_nil, List.take_of_length_le hle]
      · rw [List.flatten_nil, List.drop_nil, List.append_nil, hrest]
    · obtain rfl := hfull (by omega)
      have hshort : (data ++ ([] : List Bytes).flatten).length < n := by simpa using hdone
      obtain ⟨hmax, block, cache, hblock, hcached, hfetch⟩ | ⟨hpast, hfetch⟩ | ⟨hmax, hbad, cache, buf, hcached, hbuf, hfetch⟩ |
        ⟨hmax, e, hraise, hfetch, hreads', hbuf, hblkpos⟩ := hreads.fetch_cases
      · -- a block is read: the rest of the loop runs behind it
        let f : FileObj := { self with cache := cache, next_blkid := self.next_blkid + 1, buf := some block }
        have hturn_reads : (f.take_block n data block).1.Reads bt max_blkid :=
          ⟨hreads.bt_eq, hreads.max_blkid_eq, hreads.bad_as_zeros, hcached, Nat.succ_le_succ hmax⟩
        have hlength : (f.take_block n data block).2.length = data.length + min (n - data.length) block.length := by
          show (data ++ block.take _).length = _
          rw [List.length_append, List.length_take]
          omega
        obtain ⟨blocks, hblocks, hcount, htakes⟩ := @ih _ (f.take_block n data block).2 _ hturn_reads
          (rest_take_block f n data block) (by omega) (fun h => List.drop_eq_nil_of_le (by omega))
          (by show max_blkid + 2 ≤ fuel + (self.next_blkid + 1); omega)
        have hcount' : self.next_blkid + 1 + blocks.length ≤ max_blkid + 1 := hcount
        refine ⟨block :: blocks, ⟨hblock, hblocks⟩, ?_, ?_⟩
        · rw [List.length_cons]
          omega
        · exact @FileObj.LoopTakes.cons bt max_blkid self f _ _ _ _ _ (by omega) rfl rfl rfl hfetch htakes
      · refine ⟨[], trivial, hreads.next_le, .inr ⟨hshort, .inl ⟨{ self with corrupted := true }, ?_, ?_, rfl, ?_⟩⟩⟩
        · rw [read_blocks_of_bad fuel (by omega) hreads.bad_as_zeros hfetch, List.flatten_nil, List.append_nil]
        · exact ⟨hreads.bt_eq, hreads.max_blkid_eq, hreads.bad_as_zeros, hreads.cached, hreads.next_le⟩
        · exact .inl ⟨hpast, rfl, hrest⟩
      · let f : FileObj := { self with cache := cache, next_blkid := self.next_blkid + 1, buf := buf }
        refine ⟨[], trivial, hreads.next_le, .inr ⟨hshort, .inl ⟨{ f with corrupted := true }, ?_, ?_, rfl, ?_⟩⟩⟩
        · rw [read_blocks_of_bad fuel (by omega) hreads.bad_as_zeros hfetch, List.flatten_nil, List.append_nil]
        · exact ⟨hreads.bt_eq, hreads.max_blkid_eq, hreads.bad_as_zeros, hcached, Nat.succ_le_succ hmax⟩
        · refine .inr ⟨hmax, fun _ => hbad, rfl, ?_⟩
          rcases hbuf with rfl | rfl
          · exact .inl rfl
          · exact .inr hrest
      · refine ⟨[], trivial, hreads.next_le, .inr ⟨hshort, .inr ⟨hmax, e, hraise, ?_, ?_⟩⟩⟩
        · rw [FileObj.read_blocks, if_neg hdone, hfetch]
        · have hstate : self.raised_blocks n (fuel + 1) data = self.fetched := by
            rw [FileObj.raised_blocks, if_neg hdone, hfetch]
          rw [hstate]
          refine ⟨hreads', ?_⟩
          rw [FileObj.rest, hbuf, hblkpos]
          exact hrest

/-- What a call makes of the outcome of its loop: the position moves over the data. -/
theorem FileObj.call_of_read_blocks {n nn : Nat} {buf : Bytes} {r : Py (Bytes × FileObj)} (hbuf : self.buf = some buf)
    (hnn : nn = min n (buf.length - self.blkpos))
    (hread : FileObj.read_blocks n (self.max_blkid + 2) { self with blkpos := self.blkpos + nn }
      (slice buf self.blkpos nn) = some r) :
    self.call n = some (r.map fun out => (out.1, { out.2 with filepos := out.2.filepos + out.1.length })) := by
  rw [hnn, hbuf] at hread
  simp only [FileObj.call, FileObj.read, hbuf, hread]
  cases r with
  | error e => rfl
  | ok out => rfl

/-- A call takes the rest of the buffer and then blocks: as many bytes as it needs, or
    all there are before a block that is bad or none, or that raises an exception. -/
theorem FileObj.Reads.call_cases {rest : Bytes} (hreads : self.Reads bt max_blkid) (hrest : self.rest = some rest)
    (n : Nat) :
    ∃ blocks, ReadableFrom bt self.next_blkid blocks ∧ self.next_blkid + blocks.length ≤ max_blkid + 1 ∧
      ((n ≤ (rest ++ blocks.flatten).length ∧
          ∃ f, self.call n = some (.ok ((rest ++ blocks.flatten).take n, f)) ∧ f.Reads bt max_blkid ∧
            f.next_blkid = self.next_blkid + blocks.length ∧ f.tell = self.tell + n ∧
            f.rest = some ((rest ++ blocks.flatten).drop n)) ∨
        (rest ++ blocks.flatten).length < n ∧
          ((∃ f, self.call n = some (.ok (rest ++ blocks.flatten, f)) ∧ f.Reads bt max_blkid ∧
              f.tell = self.tell + (rest ++ blocks.flatten).length ∧
              f.StoppedAt bt max_blkid (self.next_blkid + blocks.length)) ∨
            self.next_blkid + blocks.length ≤ max_blkid ∧
              ∃ e, file_block bt (self.next_blkid + blocks.length) = .error e ∧ self.call n = some (.error e) ∧
                (self.after n).Reads bt max_blkid ∧ (self.after n).rest = some [])) := by
  obtain ⟨buf, hbuf, rfl⟩ := Option.map_eq_some_iff.mp hrest
  obtain ⟨nn, hnn⟩ : ∃ nn, nn = min n (buf.length - self.blkpos) := ⟨_, rfl⟩
  have hrestlength : (buf.drop self.blkpos).length = buf.length - self.blkpos := List.length_drop
  have hdata : slice buf self.blkpos nn = (buf.drop self.blkpos).take nn := rfl
  have hlength : (slice buf self.blkpos nn).length = nn := by
    rw [length_slice]
    omega
  obtain rfl := hreads.max_blkid_eq
  have hstart : FileObj.Reads { self with blkpos := self.blkpos + nn } bt self.max_blkid :=
    ⟨hreads.bt_eq, rfl, hreads.bad_as_zeros, hreads.cached, hreads.next_le⟩
  have hleft : FileObj.rest { self with blkpos := self.blkpos + nn } = some ((buf.drop self.blkpos).drop nn) := by
    rw [FileObj.rest, hbuf, List.drop_drop]
    rfl
  obtain ⟨blocks, hblocks, hcount, hcases⟩ := @FileObj.Reads.read_blocks_cases bt self.max_blkid _ n (self.max_blkid + 2)
    (slice buf self.blkpos nn) _ hstart hleft (by omega) (fun h => List.drop_eq_nil_of_le (by omega)) (by simp only; omega)
  refine ⟨blocks, hblocks, hcount, ?_⟩
  obtain ⟨henough, f, hread, hf, hnext, hfilepos, hrest'⟩ | ⟨hshort, hends⟩ := hcases
  · have htaken : (slice buf self.blkpos nn ++ blocks.flatten).take n = (buf.drop self.blkpos ++ blocks.flatten).take n := by
      rw [take_append_of_le (by omega), hlength, hdata, hnn, ← hrestlength, take_take_append]
    have hn : n ≤ (buf.drop self.blkpos ++ blocks.flatten).length := by
      rw [List.length_append] at henough ⊢
      omega
    rw [htaken] at hread
    refine .inl ⟨hn, _, FileObj.call_of_read_blocks hbuf hnn hread, ?_, hnext, ?_, ?_⟩
    · exact ⟨hf.bt_eq, hf.max_blkid_eq, hf.bad_as_zeros, hf.cached, hf.next_le⟩
    · rw [FileObj.tell, List.length_take_of_le hn, hfilepos]
      rfl
    · rw [← drop_drop_append n, hrestlength, ← hnn, ← hlength]
      rw [hlength] at hrest' ⊢
      exact hrest'
  · have hwhole : slice buf self.blkpos nn = buf.drop self.blkpos := by
      rw [List.length_append, hlength] at hshort
      rw [hdata, List.take_of_length_le (by omega)]
    rw [hwhole] at hshort hends
    refine .inr ⟨hshort, ?_⟩
    obtain ⟨f, hread, hf, hfilepos, hstopped⟩ | ⟨hmax, e, hraise, hread, hf, hrest'⟩ := hends
    · rw [← hwhole] at hread
      have hcalled := FileObj.call_of_read_blocks hbuf hnn hread
      rw [hwhole] at hcalled
      refine .inl ⟨_, hcalled, ?_, ?_, hstopped⟩
      · exact ⟨hf.bt_eq, hf.max_blkid_eq, hf.bad_as_zeros, hf.cached, hf.next_le⟩
      · rw [FileObj.tell, hfilepos]
        rfl
    · rw [← hwhole] at hread
      have hcalled : self.call n = some (.error e) := FileObj.call_of_read_blocks hbuf hnn hread
      have hafter : self.after n =
          FileObj.raised_blocks n (self.max_blkid + 2) { self with blkpos := self.blkpos + nn } (buf.drop self.blkpos) := by
        rw [FileObj.after, hcalled, hbuf, ← hwhole, hnn]
      exact .inr ⟨hmax, e, hraise, hcalled, hafter ▸ hf, hafter ▸ hrest'⟩

/-- Without a buffer every call raises an exception, and leaves the object as it is. -/
theorem FileObj.call_of_rest_none (hrest : self.rest = none) (n : Nat) :
    self.call n = some (.error .TypeError) ∧ self.after n = self := by
  have hbuf : self.buf = none := Option.map_eq_none_iff.mp hrest
  have hcall : self.call n = some (.error .TypeError) := by rw [FileObj.call, FileObj.read, hbuf]
  exact ⟨hcall, by rw [FileObj.after, hcall, hbuf]⟩

theorem FileObj.after_of_ok {n : Nat} {data : Bytes} (hcall : self.call n = some (.ok (data, f))) : self.after n = f := by
  rw [FileObj.after, hcall]

end Loop

end zfs_rescue.fileobj
