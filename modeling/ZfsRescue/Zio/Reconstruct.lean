import ZfsRescue.Zio.Layout

open bytes
open zfs_rescue.proxy

namespace zfs_rescue.zio

/-- The children hold a block under a single-parity map: its data columns one
    after the other are the block, and column 0 is their exclusive or. -/
structure RaidzMap.Stores (m : RaidzMap) (img : Nat → Bytes) (data : Bytes) : Prop where
  inside : Inside img m.rm_cols
  data_columns : ((columns img m.rm_cols).drop 1).flatten = data
  parity : ∀ parity cols, columns img m.rm_cols = parity :: cols → IsParity parity cols

/-- Two sets of children that differ in the contents of one child only. -/
structure SameBut (d : Nat) (img img' : Nat → Bytes) : Prop where
  same : ∀ c, c ≠ d → img' c = img c
  length : (img' d).length = (img d).length

theorem SameBut.length_eq {d : Nat} {img img' : Nat → Bytes} (h : SameBut d img img') (c : Nat) :
    (img' c).length = (img c).length := by
  by_cases hc : c = d
  · rw [hc, h.length]
  · rw [h.same c hc]

theorem SameBut.inside {d : Nat} {img img' : Nat → Bytes} (h : SameBut d img img') {cols : List RaidzCol}
    (hinside : Inside img cols) : Inside img' cols := by
  intro col hcol
  rw [h.length_eq]
  exact hinside col hcol

/-- Columns that avoid the changed child are unchanged. -/
theorem SameBut.columns_eq {d : Nat} {img img' : Nat → Bytes} (h : SameBut d img img') {cols : List RaidzCol}
    (havoid : ∀ col ∈ cols, col.rc_devidx ≠ d) : columns img' cols = columns img cols := by
  apply List.map_congr_left
  intro col hcol
  rw [column, column, h.same _ (havoid col hcol)]

/-- The repair replaces the column of the lost child by the exclusive or of
    the others, cut to its size. -/
theorem RaidzDevice.repair_columns_lost (self : RaidzDevice) {d : Nat} {parity lost : RaidzCol}
    {before after : List RaidzCol} {p l : Bytes} {xs ys : List Bytes} (hrepair : self.repair = true)
    (hbad : self.bad = some [d]) (hparity : parity.rc_devidx ≠ d) (hlost : lost.rc_devidx = d)
    (hbefore : d ∉ before.map RaidzCol.rc_devidx) (hlen : before.length = xs.length)
    (hle : ∀ col ∈ xs ++ ys, col.length ≤ p.length) :
    self.repair_columns (parity :: (before ++ lost :: after)) (p :: (xs ++ l :: ys)) =
      .ok ((xs ++ ys).foldl xorInto p :: (xs ++ ((xs ++ ys).foldl xorInto p).take lost.rc_size :: ys)) := by
  have hidx : ((parity :: (before ++ lost :: after)).map RaidzCol.rc_devidx).idxOf d = before.length + 1 := by
    rw [List.map_cons, List.idxOf_cons_ne _ hparity, List.map_append, List.idxOf_append_of_notMem hbefore,
      List.map_cons, hlost, List.idxOf_cons_self, List.length_map]
  have hzero : index (p :: (xs ++ l :: ys)) 0 = .ok p := rfl
  have hcol : index (parity :: (before ++ lost :: after)) (before.length + 1) = .ok lost := by
    rw [index_eq_ok_iff, List.getElem?_cons_succ, List.getElem?_append_right (Nat.le_refl _), Nat.sub_self]
    rfl
  rw [RaidzDevice.repair_columns, if_pos hrepair, hbad]
  simp only
  rw [if_pos (by simp [hlost]), hidx, hzero, bind_ok, hcol, bind_ok, hlen, survivors_eq,
    RaidzDevice.xor_all_of_le hle, bind_ok, List.set_cons_zero, List.set_cons_succ,
    List.set_append_right _ _ (Nat.le_refl _), Nat.sub_self, List.set_cons_zero]

/-- The columns after the repair of a lost child hold the block: either no data
    column is on it, or the one that is comes back out of the parity. -/
theorem RaidzDevice.repair_columns_spec (self : RaidzDevice) {m : RaidzMap} {dcols size d : Nat}
    (hcovers : m.Covers dcols size) (hrepair : self.repair = true) (hbad : self.bad = some [d])
    {img img' : Nat → Bytes} (hsame : SameBut d img img') {data : Bytes} (hstores : m.Stores img data) :
    ∃ col_data, self.repair_columns m.rm_cols (columns img' m.rm_cols) = .ok col_data ∧
      (col_data.drop 1).flatten = data := by
  have hnodup := hcovers.devidx_nodup
  have hinside := hstores.inside
  have hdata := hstores.data_columns
  obtain ⟨parity, rest, hcols⟩ := hcovers.exists_cons
  rw [hcols, List.map_cons, List.nodup_cons] at hnodup
  obtain ⟨hfirst, hrestNodup⟩ := hnodup
  rw [hcols, columns_cons, List.drop_succ_cons, List.drop_zero] at hdata
  by_cases hlost : d ∈ rest.map RaidzCol.rc_devidx
  · obtain ⟨lost, hmem, hlostDev⟩ := List.mem_map.mp hlost
    obtain ⟨before, after, rfl⟩ := List.append_of_mem hmem
    -- the other columns avoid the lost child
    rw [List.map_append, List.map_cons, hlostDev, List.nodup_middle, List.nodup_cons, List.mem_append, not_or]
      at hrestNodup
    obtain ⟨⟨hbeforeDev, hafterDev⟩, _⟩ := hrestNodup
    have hparityDev : parity.rc_devidx ≠ d := fun heq => hfirst (heq ▸ hlost)
    have havoid : ∀ cols : List RaidzCol, d ∉ cols.map RaidzCol.rc_devidx → columns img' cols = columns img cols :=
      fun cols hd => hsame.columns_eq fun col hcol heq => hd (heq ▸ List.mem_map_of_mem hcol)
    have hlostMem : lost ∈ m.rm_cols := by rw [hcols]; simp
    have hle := hcovers.length_le hcols hinside
    have hcolumns : columns img m.rm_cols =
        column img parity :: (columns img before ++ column img lost :: columns img after) := by
      rw [hcols, columns_cons, columns_append, columns_cons]
    rw [columns_append, columns_cons] at hle hdata
    have hrecover := (hstores.parity _ _ hcolumns).recover hle
    rw [length_column hinside hlostMem] at hrecover
    rw [hcols, columns_cons, columns_append, columns_cons, havoid before hbeforeDev, havoid after hafterDev,
      ← show column img parity = column img' parity by rw [column, column, hsame.same _ hparityDev],
      self.repair_columns_lost hrepair hbad hparityDev hlostDev hbeforeDev (by simp)
        (fun col hcol => hle col (by
          rw [List.mem_append] at hcol
          rw [List.mem_append, List.mem_cons]
          tauto))]
    refine ⟨_, rfl, ?_⟩
    rw [List.drop_succ_cons, List.drop_zero, hrecover]
    exact hdata
  · refine ⟨columns img' (parity :: rest), ?_, ?_⟩
    · rw [hcols, RaidzDevice.repair_columns, if_pos hrepair, hbad]
      simp only
      rw [if_neg (by simpa using hlost)]
    · rw [columns_cons, List.drop_succ_cons, List.drop_zero,
        hsame.columns_eq fun col hcol heq => hlost (heq ▸ List.mem_map_of_mem hcol)]
      exact hdata

/-- With one child set bad and the repair turned on, a single-parity device
    reads a block it stores back whole, whatever is on the bad child. `hmap` and
    `hstores` make the block one of `n` sectors, n * 2^ashift bytes. The proxy is taken
    to serve the images: `local_files_serves` is that for files, while the network
    transport does so for columns of one chunk of 256 KiB only. -/
theorem RaidzDevice.read_physical_repair (self : RaidzDevice) {offset n d : Nat} {m : RaidzMap}
    {img img' : Nat → Bytes} {data : Bytes} (hnparity : self.nparity = 1) (hdevs : 2 ≤ self.devs.length)
    (hrepair : self.repair = true) (hbad : self.bad = some [d]) (hoffset : offset ≤ 8 * 1024 * 1024 * 1024 * 1024)
    (hn : 1 ≤ n)
    (hmap : RaidzDevice.map_alloc self.devs.length 1 offset (n * 2 ^ self.ashift) self.ashift = .ok m)
    (hstores : m.Stores img data) (hsame : SameBut d img img') (hserves : self.bp.Serves self.devs img') :
    self.read_physical offset (n * 2 ^ self.ashift) = .ok (some data) := by
  have hsectors : (n * 2 ^ self.ashift) >>> self.ashift = n := by
    rw [Nat.shiftRight_eq_div_pow, Nat.mul_div_cancel _ (by positivity)]
  obtain ⟨m', hmap', hcovers⟩ := RaidzDevice.map_alloc_covers offset hdevs (hsectors.symm ▸ hn)
  obtain rfl : m = m' := Except.ok.inj (hmap.symm.trans hmap')
  have hinside' := hsame.inside hstores.inside
  obtain ⟨blockv, read, hblockv, hread, hcut⟩ := self.read_columns hserves hcovers.devidx_lt hinside'
  obtain ⟨col_data, hrepaired, hdata⟩ := self.repair_columns_spec hcovers hrepair hbad hsame hstores
  have hcheck := hcovers.parity_check hinside'
  rw [RaidzDevice.read_physical, if_neg (by omega), hnparity, hmap, bind_ok, hblockv, bind_ok, hread, bind_ok,
    hcut]
  simp only
  rw [hcheck, bind_ok, hrepaired, bind_ok, hcovers.firstdatacol, hdata]

/-- Three children with a row of two sectors on the first two and of one on the last,
    the parity on the first. -/
def row_columns : List RaidzCol := [⟨0, 0, 1024⟩, ⟨1, 0, 1024⟩, ⟨2, 0, 512⟩]

def stored_row (first second : Bytes) : Nat → Bytes := lay row_columns [xorInto first second, first, second]

/-- The same with other bytes on the second child. -/
def damaged_row (first second : Bytes) (dev : Nat) : Bytes :=
  if dev = 1 then List.replicate 0x400000 9 ++ first.map (· + 1) else stored_row first second dev

section Row

variable {first second : Bytes}

theorem row_sizes (hfirst : first.length = 1024) (hsecond : second.length = 512) :
    [xorInto first second, first, second].map List.length = row_columns.map RaidzCol.rc_size := by
  simp [row_columns, hfirst, hsecond]

theorem stored_row_stores (hfirst : first.length = 1024) (hsecond : second.length = 512) :
    RaidzMap.Stores ⟨row_columns, 1, 2⟩ (stored_row first second) (first ++ second) := by
  obtain ⟨hcolumns, hinside⟩ := columns_lay (by decide) (row_sizes hfirst hsecond)
  refine ⟨hinside, ?_, ?_⟩
  · simp [stored_row, hcolumns]
  · intro parity cols heq
    simp only [stored_row, hcolumns, List.cons.injEq] at heq
    obtain ⟨rfl, rfl⟩ := heq
    intro i _
    rw [getD_xorInto (by omega), parityAt_cons, parityAt_cons, parityAt_nil, UInt8.xor_zero]

theorem damaged_row_sameBut : SameBut 1 (stored_row first second) (damaged_row first second) := by
  refine ⟨fun c hc => by rw [damaged_row, if_neg hc], ?_⟩
  rw [damaged_row, if_pos rfl, stored_row, row_columns, lay_of_ne (by decide), lay, if_pos rfl]
  simp only [List.length_append, List.length_replicate, List.length_map, Nat.zero_add]

theorem length_damaged_row (hfirst : first.length = 1024) (hsecond : second.length = 512) (dev : Nat) :
    (damaged_row first second dev).length < 2 ^ 63 := by
  rw [damaged_row_sameBut.length_eq]
  exact length_lay_lt (by omega) (row_sizes hfirst hsecond) (by decide) dev

end Row

/-- Both sectors of the lost column come back, with the parity of the shorter one. -/
theorem RaidzDevice.read_physical_repair_damaged_row :
    RaidzDevice.read_physical
        { devs := child_names 3, nparity := 1,
          bp := (local_files (damaged_row (List.replicate 512 5 ++ List.replicate 512 6) (List.replicate 512 7))).to_proxy,
          bad := some [1], repair := true } 0 (3 * 2 ^ 9) =
      .ok (some (List.replicate 512 5 ++ List.replicate 512 6 ++ List.replicate 512 7)) := by
  have hfirst : (List.replicate 512 (5 : UInt8) ++ List.replicate 512 6).length = 1024 := by
    rw [List.length_append, List.length_replicate, List.length_replicate]
  exact RaidzDevice.read_physical_repair _ rfl (by decide) rfl rfl (by decide) (by decide) (by decide)
    (stored_row_stores hfirst List.length_replicate) damaged_row_sameBut
    (local_files_serves (length_damaged_row hfirst List.length_replicate))

end zfs_rescue.zio
