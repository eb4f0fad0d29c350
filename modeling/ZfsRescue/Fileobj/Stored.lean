import ZfsRescue.Fileobj

open bytes
open zfs_rescue.blockptr zfs_rescue.zio zfs_rescue.dnode zfs_rescue.blocktree zfs_rescue.dataset

namespace zfs_rescue.fileobj

/-- The block `k` of a tree can be read, and is `block`. -/
def Readable (bt : BlockTree) (k : Nat) (block : Bytes) : Prop :=
  ∃ bp c, bt.lookup k = .ok (some bp) ∧ bt.vdev.read_block bp 0 = .ok (some block, c)

/-- The blocks from `k` on begin with these. -/
def ReadableFrom (bt : BlockTree) : Nat → List Bytes → Prop
  | _, [] => True
  | k, block :: blocks => Readable bt k block ∧ ReadableFrom bt (k + 1) blocks

/-- The data blocks of an object begin with `target`. -/
def StoredIn (vdev : GenericDevice) (dn : DNode) (target : Bytes) : Prop :=
  ∃ bt blocks, block_tree vdev dn = .ok bt ∧ ReadableFrom bt 0 blocks ∧ blocks.length ≤ dn.maxblkid + 1 ∧
    target <+: blocks.flatten

/-- What a turn takes of a block, and what is left to take of the rest. -/
theorem take_turn (n : Nat) (data block rest : Bytes) :
    data ++ block.take (min (n - data.length) block.length) ++
        rest.take (n - (data ++ block.take (min (n - data.length) block.length)).length) =
      data ++ (block ++ rest).take (n - data.length) := by
  have htaken : block.take (min (n - data.length) block.length) = block.take (n - data.length) := by
    rw [List.take_eq_take_iff]
    omega
  rw [List.take_append, List.append_assoc, List.length_append, htaken, List.length_take]
  congr 3
  omega

section Read

variable {self : FileObj}

theorem fetch_of_readable (hcached : self.bt.Cached self.cache) (hmax : self.next_blkid ≤ self.max_blkid) {block : Bytes}
    (hblock : Readable self.bt self.next_blkid block) :
    ∃ cache, self.bt.Cached cache ∧
      self.fetch = .ok ({ self with cache := cache, next_blkid := self.next_blkid + 1, buf := some block }, false) := by
  obtain ⟨bp, c, hlookup, hread⟩ := hblock
  obtain ⟨hitem, hcached'⟩ := BlockTree.getitem_spec hcached self.next_blkid
  rw [FileObj.fetch, if_neg (by omega)]
  generalize self.bt.getitem self.cache self.next_blkid = found at hitem hcached'
  obtain ⟨r, cache⟩ := found
  simp only at hitem hcached'
  rw [hlookup] at hitem
  subst hitem
  refine ⟨cache, hcached', ?_⟩
  simp only [hread, bind_ok]
  rfl

theorem fetch_inv (hcached : self.bt.Cached self.cache) {f : FileObj} (h : self.fetch = .ok (f, false)) :
    self.next_blkid ≤ self.max_blkid ∧ ∃ block cache, Readable self.bt self.next_blkid block ∧ self.bt.Cached cache ∧
      f = { self with cache := cache, next_blkid := self.next_blkid + 1, buf := some block } := by
  obtain ⟨hitem, hcached'⟩ := BlockTree.getitem_spec hcached self.next_blkid
  rw [FileObj.fetch] at h
  split at h
  · cases h
  · refine ⟨by omega, ?_⟩
    generalize self.bt.getitem self.cache self.next_blkid = found at h hitem hcached'
    obtain ⟨r, cache⟩ := found
    simp only at hitem hcached'
    cases r with
    | error e => cases h
    | ok bp =>
      cases bp with
      | none => cases h
      | some bp =>
        obtain ⟨⟨block, c⟩, hread, hf⟩ := bind_eq_ok_iff.mp h
        cases block with
        | none => cases hf
        | some block =>
          cases hf
          exact ⟨block, cache, ⟨bp, c, hitem.symm, hread⟩, hcached', rfl⟩

/-- A turn leaves the fixed fields as they are, and the position does not go back. -/
theorem fetch_keeps {f : FileObj} {bad : Bool} (h : self.fetch = .ok (f, bad)) :
    f.bad_as_zeros = self.bad_as_zeros ∧ f.max_blkid = self.max_blkid ∧
      (self.next_blkid ≤ self.max_blkid → f.next_blkid = self.next_blkid + 1) ∧
      (self.max_blkid < self.next_blkid → bad = true) := by
  rw [FileObj.fetch] at h
  split at h
  · cases h
    exact ⟨rfl, rfl, fun _ => by omega, fun _ => rfl⟩
  · split at h
    · cases h
    · cases h
      exact ⟨rfl, rfl, fun _ => rfl, fun _ => by omega⟩
    · obtain ⟨r, -, hf⟩ := bind_eq_ok_iff.mp h
      cases hf
      exact ⟨rfl, rfl, fun _ => rfl, fun _ => by omega⟩

/-- The loop ends at a bad block that is not read as zeros. -/
theorem read_blocks_of_bad {n : Nat} {data : Bytes} {f : FileObj} (fuel : Nat) (hlt : data.length < n)
    (hzeros : self.bad_as_zeros = false) (hfetch : self.fetch = .ok (f, true)) :
    self.read_blocks n (fuel + 1) data = some (.ok (data, { f with corrupted := true })) := by
  have hbad : f.bad_block = .ok none := by
    rw [FileObj.bad_block, (fetch_keeps hfetch).1, hzeros, if_neg (by decide)]
  rw [FileObj.read_blocks, if_neg (by omega), hfetch]
  simp only [hbad]

/-- The loop takes what it needs of the blocks that can be read. -/
theorem read_blocks_of_readable {n fuel : Nat} {data : Bytes} {blocks : List Bytes}
    (hcached : self.bt.Cached self.cache) (hblocks : ReadableFrom self.bt self.next_blkid blocks)
    (hmax : self.next_blkid + blocks.length ≤ self.max_blkid + 1) (hle : data.length ≤ n)
    (hlength : n ≤ data.length + blocks.flatten.length) (hfuel : blocks.length ≤ fuel) :
    ∃ turn, self.read_blocks n fuel data = some (.ok (data ++ blocks.flatten.take (n - data.length), turn)) := by
  induction blocks generalizing self fuel data with
  | nil =>
    have hdone : n ≤ data.length := by simpa using hlength
    refine ⟨self, ?_⟩
    rw [List.flatten_nil, List.take_nil, List.append_nil]
    cases fuel <;> rw [FileObj.read_blocks, if_pos hdone]
  | cons block blocks ih =>
    obtain ⟨fuel, rfl⟩ : ∃ k, fuel = k + 1 := ⟨fuel - 1, by simp at hfuel; omega⟩
    by_cases hdone : n ≤ data.length
    · refine ⟨self, ?_⟩
      rw [FileObj.read_blocks, if_pos hdone, show n - data.length = 0 by omega, List.take_zero, List.append_nil]
    · rw [List.length_cons] at hmax hfuel
      rw [List.flatten_cons, List.length_append] at hlength
      obtain ⟨cache, hcached', hfetch⟩ := fetch_of_readable hcached (by omega) hblocks.1
      let f : FileObj := { self with cache := cache, next_blkid := self.next_blkid + 1, buf := some block }
      obtain ⟨turn, hturn⟩ := @ih (f.take_block n data block).1 fuel (f.take_block n data block).2 hcached' hblocks.2
        (by show self.next_blkid + 1 + blocks.length ≤ self.max_blkid + 1; omega)
        (by simp only [FileObj.take_block, List.length_append, List.length_take]; omega)
        (by simp only [FileObj.take_block, List.length_append, List.length_take]; omega) (by omega)
      refine ⟨turn, ?_⟩
      rw [FileObj.read_blocks, if_neg hdone, hfetch]
      simp only
      rw [hturn, List.flatten_cons, ← take_turn]
      rfl

/-- What the loop has taken when it is done comes from blocks that can be read. -/
theorem read_blocks_inv {n fuel : Nat} {data out : Bytes} {turn : FileObj} (hcached : self.bt.Cached self.cache)
    (hzeros : self.bad_as_zeros = false) (h : self.read_blocks n fuel data = some (.ok (out, turn)))
    (hfull : n ≤ out.length) :
    ∃ blocks, ReadableFrom self.bt self.next_blkid blocks ∧ blocks.length ≤ self.max_blkid + 1 - self.next_blkid ∧
      n ≤ data.length + blocks.flatten.length ∧ out = data ++ blocks.flatten.take (n - data.length) := by
  induction fuel generalizing self data with
  | zero =>
    rw [FileObj.read_blocks] at h
    split at h
    · cases h
      exact ⟨[], trivial, Nat.zero_le _, by simpa using hfull, by simp⟩
    · cases h
  | succ fuel ih =>
    by_cases hdone : n ≤ data.length
    · rw [FileObj.read_blocks, if_pos hdone] at h
      cases h
      exact ⟨[], trivial, Nat.zero_le _, by simpa using hfull, by simp⟩
    · cases hfetch : self.fetch with
      | error e =>
        rw [FileObj.read_blocks, if_neg hdone, hfetch] at h
        cases h
      | ok found =>
        obtain ⟨f, bad⟩ := found
        cases bad with
        | true =>
          rw [read_blocks_of_bad fuel (by omega) hzeros hfetch] at h
          cases h
          omega
        | false =>
          obtain ⟨hmax, block, cache, hblock, hcached', rfl⟩ := fetch_inv hcached hfetch
          rw [FileObj.read_blocks, if_neg hdone, hfetch] at h
          simp only at h
          obtain ⟨blocks, hblocks, hcount, hlength, rfl⟩ :=
            @ih ({ self with cache := cache, next_blkid := self.next_blkid + 1, buf := some block }.take_block n data
              block).1 _ hcached' hzeros h
          refine ⟨block :: blocks, ⟨hblock, hblocks⟩, ?_, ?_, ?_⟩
          · have hcount' : blocks.length ≤ self.max_blkid + 1 - (self.next_blkid + 1) := hcount
            rw [List.length_cons]
            omega
          · simp only [FileObj.take_block, List.length_append, List.length_take] at hlength
            rw [List.flatten_cons, List.length_append]
            omega
          · rw [List.flatten_cons, ← take_turn]
            rfl

/-- The loop has no more turns than blocks left. -/
theorem read_blocks_ends {n fuel : Nat} {data : Bytes} (hzeros : self.bad_as_zeros = false)
    (hnext : self.next_blkid ≤ self.max_blkid + 1) (hfuel : self.max_blkid + 2 ≤ fuel + self.next_blkid) :
    self.read_blocks n fuel data ≠ none := by
  induction fuel generalizing self data with
  | zero => omega
  | succ fuel ih =>
    by_cases hdone : n ≤ data.length
    · rw [FileObj.read_blocks, if_pos hdone]
      simp
    · cases hfetch : self.fetch with
      | error e =>
        rw [FileObj.read_blocks, if_neg hdone, hfetch]
        simp
      | ok found =>
        obtain ⟨f, bad⟩ := found
        obtain ⟨hzeros', hmax', hturn, hpast⟩ := fetch_keeps hfetch
        cases bad with
        | true =>
          rw [read_blocks_of_bad fuel (by omega) hzeros hfetch]
          simp
        | false =>
          have hmax : self.next_blkid ≤ self.max_blkid := by
            by_contra hlt
            exact absurd (hpast (by omega)) (by decide)
          rw [FileObj.read_blocks, if_neg hdone, hfetch]
          simp only
          split
          · simp
          · rename_i buf hbuf
            have hnext' : f.next_blkid = self.next_blkid + 1 := hturn hmax
            exact @ih (f.take_block n data buf).1 _ (hzeros'.trans hzeros)
              (by show f.next_blkid ≤ f.max_blkid + 1; omega) (by show f.max_blkid + 2 ≤ fuel + f.next_blkid; omega)

end Read

end zfs_rescue.fileobj
