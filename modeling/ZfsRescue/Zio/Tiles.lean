import ZfsRescue.Zio.MapAlloc

namespace zfs_rescue.zio

/-- A sector of one child: its child and its number there. -/
abbrev Cell := Nat × Nat

/-- Sector `n` of a device whose sectors go around its `dcols` children. -/
def cell (dcols n : Nat) : Cell := (n % dcols, n / dcols)

theorem cell_add_mul {dcols c : Nat} (k : Nat) (hc : c < dcols) : cell dcols (c + dcols * k) = (c, k) := by
  rw [cell, Nat.add_mul_mod_self_left, Nat.mod_eq_of_lt hc, Nat.add_mul_div_left _ _ (by omega), Nat.div_eq_of_lt hc,
    Nat.zero_add]

/-- The sectors that a column covers. -/
def RaidzCol.cells (unit_shift : Nat) (col : RaidzCol) : List Cell :=
  (List.range (col.rc_size >>> unit_shift)).map fun k => (col.rc_devidx, (col.rc_offset >>> unit_shift) + k)

/-- The sectors that a map covers, column after column. -/
def RaidzMap.cells (m : RaidzMap) (unit_shift : Nat) : List Cell := m.rm_cols.flatMap (RaidzCol.cells unit_shift)

/-- The number of data and parity sectors of an I/O. -/
def RaidzDevice.tot (dcols nparity io_size unit_shift : Nat) : Nat :=
  let s := io_size >>> unit_shift
  let q := s / (dcols - nparity)
  let r := s - q * (dcols - nparity)
  s + nparity * (q + if r ≠ 0 then 1 else 0)

/-- A map whose columns tile the `tot` sectors from sector `b` on. -/
structure RaidzMap.Tiles (m : RaidzMap) (dcols unit_shift b tot : Nat) : Prop where
  devidx_lt : ∀ col ∈ m.rm_cols, col.rc_devidx < dcols
  devidx_nodup : (m.rm_cols.map RaidzCol.rc_devidx).Nodup
  size_pos : ∀ col ∈ m.rm_cols, 0 < col.rc_size
  size_whole : ∀ col ∈ m.rm_cols, 2 ^ unit_shift ∣ col.rc_size
  offset_whole : ∀ col ∈ m.rm_cols, 2 ^ unit_shift ∣ col.rc_offset
  cells_nodup : (m.cells unit_shift).Nodup
  mem_cells : ∀ x, x ∈ m.cells unit_shift ↔ ∃ n, b ≤ n ∧ n < b + tot ∧ x = (n % dcols, n / dcols)

theorem RaidzCol.devidx_of_mem_cells {unit_shift : Nat} {col : RaidzCol} {x : Cell} (h : x ∈ col.cells unit_shift) :
    x.1 = col.rc_devidx := by
  obtain ⟨_, _, rfl⟩ := List.mem_map.mp h
  rfl

/-- Columns on children of their own share no sector. -/
theorem RaidzMap.cells_nodup_of_devidx {m : RaidzMap} (unit_shift : Nat)
    (h : (m.rm_cols.map RaidzCol.rc_devidx).Nodup) : (m.cells unit_shift).Nodup := by
  rw [RaidzMap.cells, List.nodup_flatMap]
  constructor
  · intro col _
    apply List.Nodup.map _ List.nodup_range
    intro k k' heq
    exact Nat.add_left_cancel (Prod.mk.inj heq).2
  · have hpair := List.pairwise_map.mp h
    refine hpair.imp ?_
    intro col col' hne x hx hx'
    exact hne ((RaidzCol.devidx_of_mem_cells hx).symm.trans (RaidzCol.devidx_of_mem_cells hx'))

/-- A map tiles the same sectors with its columns in another order. -/
theorem RaidzMap.Tiles.of_perm {m m' : RaidzMap} {dcols unit_shift b tot : Nat} (h : m.Tiles dcols unit_shift b tot)
    (hperm : m'.rm_cols.Perm m.rm_cols) : m'.Tiles dcols unit_shift b tot where
  devidx_lt col hcol := h.devidx_lt col (hperm.mem_iff.mp hcol)
  devidx_nodup := (hperm.map _).nodup_iff.mpr h.devidx_nodup
  size_pos col hcol := h.size_pos col (hperm.mem_iff.mp hcol)
  size_whole col hcol := h.size_whole col (hperm.mem_iff.mp hcol)
  offset_whole col hcol := h.offset_whole col (hperm.mem_iff.mp hcol)
  cells_nodup := (hperm.flatMap_right _).nodup_iff.mpr h.cells_nodup
  mem_cells x := ((hperm.flatMap_right _).mem_iff (a := x)).trans (h.mem_cells x)

/-- Columns of one size exchange their places only. -/
theorem swap_parity_of_size_eq {c0 c1 : RaidzCol} (rest : List RaidzCol) (h : c0.rc_size = c1.rc_size) :
    swap_parity (c0 :: c1 :: rest) = .ok (c1 :: c0 :: rest) := by
  rw [swap_parity, h]
  obtain ⟨_, _, _⟩ := c0
  obtain ⟨_, _, _⟩ := c1
  cases h
  rfl

section Single

variable {dcols io_size unit_shift : Nat} (io_offset : Nat)

/-- The accessed columns hold the data and the parity sectors. -/
theorem RaidzDevice.stripe_tot (hdcols : 2 ≤ dcols) :
    let st := RaidzDevice.stripe dcols 1 io_offset io_size unit_shift
    dcols * st.q + st.bc = RaidzDevice.tot dcols 1 io_size unit_shift := by
  simp only [RaidzDevice.stripe, RaidzDevice.tot]
  generalize io_size >>> unit_shift = s
  obtain ⟨n, rfl⟩ : ∃ n, dcols = n + 1 := ⟨dcols - 1, by omega⟩
  rw [Nat.add_sub_cancel, Nat.succ_mul]
  have hle : s / n * n ≤ s := Nat.div_mul_le_self s n
  have hcomm : n * (s / n) = s / n * n := Nat.mul_comm _ _
  split <;> omega

/-- Column `c` covers every `dcols`-th sector from the `c`-th on. -/
theorem RaidzDevice.stripe_col_cells {c : Nat} (hdcols : 2 ≤ dcols)
    (hc : c < (RaidzDevice.stripe dcols 1 io_offset io_size unit_shift).acols) (hcd : c < dcols) :
    let st := RaidzDevice.stripe dcols 1 io_offset io_size unit_shift
    (st.col dcols unit_shift c).cells unit_shift =
      (List.range (st.q + if c < st.bc then 1 else 0)).map fun k =>
        cell dcols ((io_offset >>> unit_shift) + (c + dcols * k)) := by
  dsimp only
  have hsize := Stripe.size_of_lt unit_shift hc
  have hf : (RaidzDevice.stripe dcols 1 io_offset io_size unit_shift).f = (io_offset >>> unit_shift) % dcols := rfl
  have ho : (RaidzDevice.stripe dcols 1 io_offset io_size unit_shift).o =
      ((io_offset >>> unit_shift) / dcols) * 2 ^ unit_shift := Nat.shiftLeft_eq _ _
  have hpow : 0 < 2 ^ unit_shift := Nat.two_pow_pos _
  generalize RaidzDevice.stripe dcols 1 io_offset io_size unit_shift = st at hsize hf ho ⊢
  generalize io_offset >>> unit_shift = b at hf ho ⊢
  have hrc : (st.col dcols unit_shift c).rc_size >>> unit_shift = st.q + if c < st.bc then 1 else 0 := by
    simp only [Stripe.col, hsize]
    rw [Nat.shiftRight_eq_div_pow, Nat.mul_div_cancel _ hpow]
  have hb := Nat.div_add_mod b dcols
  have hlt : b % dcols < dcols := Nat.mod_lt _ (by omega)
  rw [RaidzCol.cells, hrc]
  apply List.map_congr_left
  intro k _
  -- the sector behind the last child is the first of the next row
  by_cases hwrap : st.f + c ≥ dcols
  · have hchild : st.f + c - dcols < dcols := by omega
    have hsector : b + (c + dcols * k) = (st.f + c - dcols) + dcols * (b / dcols + 1 + k) := by
      rw [Nat.mul_add, Nat.mul_add, Nat.mul_one]
      omega
    have hrow : (st.o + 1 <<< unit_shift) >>> unit_shift = b / dcols + 1 := by
      rw [ho, Nat.one_shiftLeft, ← Nat.succ_mul, Nat.shiftRight_eq_div_pow, Nat.mul_div_cancel _ hpow]
    rw [hsector, cell_add_mul _ hchild]
    simp only [Stripe.col, if_pos hwrap, hrow]
  · have hchild : st.f + c < dcols := by omega
    have hsector : b + (c + dcols * k) = (st.f + c) + dcols * (b / dcols + k) := by
      rw [Nat.mul_add]
      omega
    have hrow : st.o >>> unit_shift = b / dcols := by
      rw [ho, Nat.shiftRight_eq_div_pow, Nat.mul_div_cancel _ hpow]
    rw [hsector, cell_add_mul _ hchild]
    simp only [Stripe.col, if_neg hwrap, hrow]

end Single

/-- A number below `dcols * q + bc` is one of column `c` and row `k`, with row
    `q` only in the first `bc` columns. -/
theorem lt_mul_add_iff {dcols q bc c k : Nat} (hc : c < dcols) (hbc : bc ≤ dcols) :
    c + dcols * k < dcols * q + bc ↔ k < q + if c < bc then 1 else 0 := by
  rcases Nat.lt_trichotomy k q with hlt | heq | hgt
  · have hmul := Nat.mul_le_mul_left dcols (Nat.succ_le_of_lt hlt)
    rw [Nat.mul_succ] at hmul
    split <;> omega
  · subst heq
    split <;> omega
  · have hmul := Nat.mul_le_mul_left dcols (Nat.succ_le_of_lt hgt)
    rw [Nat.mul_succ] at hmul
    split <;> omega

section Tiling

variable {dcols io_size unit_shift : Nat} (io_offset : Nat)

/-- The sectors of the accessed columns, before the exchange. -/
theorem RaidzDevice.mem_stripe_cells (hdcols : 2 ≤ dcols) (hs : 1 ≤ io_size >>> unit_shift) (skip : Nat) (x : Cell) :
    x ∈ RaidzMap.cells
        { rm_cols := (RaidzDevice.stripe dcols 1 io_offset io_size unit_shift).cols dcols unit_shift
          rm_firstdatacol := 1, rm_skipstart := skip } unit_shift ↔
      ∃ n, io_offset >>> unit_shift ≤ n ∧ n < io_offset >>> unit_shift + RaidzDevice.tot dcols 1 io_size unit_shift ∧
        x = (n % dcols, n / dcols) := by
  have hcols := RaidzDevice.stripe_cols io_offset hdcols hs
  have htot := @RaidzDevice.stripe_tot dcols io_size unit_shift io_offset hdcols
  have hcells := @RaidzDevice.stripe_col_cells dcols io_size unit_shift io_offset
  obtain ⟨_, hacols, hscols, hle, _, hbc, hq0, _⟩ := RaidzDevice.stripe_spec io_offset hdcols hs
  simp only [RaidzMap.cells, hcols, List.mem_flatMap, List.mem_map, List.mem_range, exists_exists_and_eq_and]
  dsimp only at htot hcells
  rw [← htot]
  constructor
  · rintro ⟨c, hc, hx⟩
    rw [hcells hdcols hc (by omega), List.mem_map] at hx
    obtain ⟨k, hk, rfl⟩ := hx
    have hlt := (lt_mul_add_iff (show c < dcols by omega) (by omega)).mpr (List.mem_range.mp hk)
    exact ⟨_, by omega, by omega, rfl⟩
  · rintro ⟨n, hbn, hn, rfl⟩
    obtain ⟨i, rfl⟩ := Nat.exists_eq_add_of_le hbn
    have hi := Nat.mod_add_div i dcols
    have hmod : i % dcols < dcols := Nat.mod_lt _ (by omega)
    have hlt : i % dcols + dcols * (i / dcols) <
        dcols * (RaidzDevice.stripe dcols 1 io_offset io_size unit_shift).q +
          (RaidzDevice.stripe dcols 1 io_offset io_size unit_shift).bc := by omega
    rw [lt_mul_add_iff hmod (by omega)] at hlt
    have hc : i % dcols < (RaidzDevice.stripe dcols 1 io_offset io_size unit_shift).acols := by
      by_cases hq : (RaidzDevice.stripe dcols 1 io_offset io_size unit_shift).q = 0
      · rw [hq0 hq]
        rw [hq, Nat.zero_add] at hlt
        split at hlt
        · assumption
        · exact absurd hlt (Nat.not_lt_zero _)
      · have hall : (RaidzDevice.stripe dcols 1 io_offset io_size unit_shift).acols = dcols := if_neg hq
        omega
    refine ⟨i % dcols, hc, ?_⟩
    rw [hcells hdcols hc hmod, List.mem_map]
    exact ⟨i / dcols, List.mem_range.mpr hlt, by rw [hi]; rfl⟩

/-- The columns before the exchange tile the sectors of the I/O. -/
theorem RaidzDevice.stripe_tiles (hdcols : 2 ≤ dcols) (hs : 1 ≤ io_size >>> unit_shift) (skip : Nat) :
    RaidzMap.Tiles
      { rm_cols := (RaidzDevice.stripe dcols 1 io_offset io_size unit_shift).cols dcols unit_shift
        rm_firstdatacol := 1, rm_skipstart := skip } dcols unit_shift (io_offset >>> unit_shift)
      (RaidzDevice.tot dcols 1 io_size unit_shift) := by
  have hcovers := RaidzDevice.stripe_covers io_offset hdcols hs skip
  have hcols := RaidzDevice.stripe_cols io_offset hdcols hs
  refine ⟨hcovers.devidx_lt, hcovers.devidx_nodup, ?_, ?_, ?_,
    RaidzMap.cells_nodup_of_devidx unit_shift hcovers.devidx_nodup, RaidzDevice.mem_stripe_cells io_offset hdcols hs skip⟩
  · intro col hcol
    simpa using (List.mem_filter.mp hcol).2
  · intro col hcol
    rw [hcols] at hcol
    obtain ⟨c, hc, rfl⟩ := List.mem_map.mp hcol
    exact Dvd.intro_left _ (Stripe.size_of_lt unit_shift (List.mem_range.mp hc)).symm
  · intro col hcol
    rw [hcols] at hcol
    obtain ⟨c, _, rfl⟩ := List.mem_map.mp hcol
    have ho : 2 ^ unit_shift ∣ (RaidzDevice.stripe dcols 1 io_offset io_size unit_shift).o :=
      Dvd.intro_left _ (Nat.shiftLeft_eq _ _).symm
    simp only [Stripe.col]
    split
    · exact Nat.dvd_add ho (by rw [Nat.one_shiftLeft])
    · exact ho

/-- The first two columns have one size. -/
theorem RaidzDevice.stripe_first_two (hdcols : 2 ≤ dcols) (hs : 1 ≤ io_size >>> unit_shift) :
    ∃ c0 c1 rest, (RaidzDevice.stripe dcols 1 io_offset io_size unit_shift).cols dcols unit_shift = c0 :: c1 :: rest ∧
      c0.rc_size = c1.rc_size := by
  have hcols := RaidzDevice.stripe_cols io_offset hdcols hs
  obtain ⟨_, hacols, _, _, hbc1, _, _, _⟩ := RaidzDevice.stripe_spec io_offset hdcols hs
  rw [hcols]
  generalize RaidzDevice.stripe dcols 1 io_offset io_size unit_shift = st at hacols hbc1
  obtain ⟨n, hn⟩ : ∃ n, st.acols = n + 2 := ⟨st.acols - 2, by omega⟩
  refine ⟨st.col dcols unit_shift 0, st.col dcols unit_shift 1, ?_, ?_, ?_⟩
  · exact (List.range n).map fun c => st.col dcols unit_shift (c + 1 + 1)
  · rw [hn, List.range_succ_eq_map, List.range_succ_eq_map]
    simp [List.map_map, Function.comp_def]
  · simp only [Stripe.col]
    rw [Stripe.size_of_lt unit_shift (by omega), Stripe.size_of_lt unit_shift (by omega)]
    have hiff : 0 < st.bc ↔ 1 < st.bc := by omega
    simp only [hiff]

/-- A map has the columns of the stripe, with its first two in either order. -/
theorem RaidzDevice.map_alloc_cons (hdcols : 2 ≤ dcols) (hs : 1 ≤ io_size >>> unit_shift) :
    ∃ m c0 c1 rest, RaidzDevice.map_alloc dcols 1 io_offset io_size unit_shift = .ok m ∧
      m.rm_cols = c0 :: c1 :: rest ∧ c0.rc_size = c1.rc_size ∧
      ((RaidzDevice.stripe dcols 1 io_offset io_size unit_shift).cols dcols unit_shift = c0 :: c1 :: rest ∨
        (RaidzDevice.stripe dcols 1 io_offset io_size unit_shift).cols dcols unit_shift = c1 :: c0 :: rest) := by
  obtain ⟨c0, c1, rest, hcols, hsize⟩ := RaidzDevice.stripe_first_two io_offset hdcols hs
  rw [RaidzDevice.map_alloc, if_neg (by omega)]
  dsimp only
  rw [hcols, swap_parity_of_size_eq rest hsize]
  split
  · exact ⟨_, c1, c0, rest, rfl, rfl, hsize.symm, .inr rfl⟩
  · exact ⟨_, c0, c1, rest, rfl, rfl, hsize, .inl rfl⟩

theorem RaidzDevice.map_alloc_perm (hdcols : 2 ≤ dcols) (hs : 1 ≤ io_size >>> unit_shift) :
    ∃ m, RaidzDevice.map_alloc dcols 1 io_offset io_size unit_shift = .ok m ∧
      m.rm_cols.Perm ((RaidzDevice.stripe dcols 1 io_offset io_size unit_shift).cols dcols unit_shift) := by
  obtain ⟨m, c0, c1, rest, hm, hcols, -, hstripe⟩ := RaidzDevice.map_alloc_cons io_offset hdcols hs
  refine ⟨m, hm, ?_⟩
  rcases hstripe with hstripe | hstripe
  · rw [hcols, hstripe]
  · rw [hcols, hstripe]
    exact List.Perm.swap c1 c0 rest

/-- No column starts before the row of the first sector, and one starts there. -/
theorem RaidzDevice.map_alloc_row (hdcols : 2 ≤ dcols) (hs : 1 ≤ io_size >>> unit_shift) :
    ∃ m, RaidzDevice.map_alloc dcols 1 io_offset io_size unit_shift = .ok m ∧
      (∀ col ∈ m.rm_cols, col.rc_devidx < dcols ∧ (io_offset >>> unit_shift / dcols) <<< unit_shift ≤ col.rc_offset) ∧
      ∃ col ∈ m.rm_cols, col.rc_offset = (io_offset >>> unit_shift / dcols) <<< unit_shift := by
  obtain ⟨m, hm, hperm⟩ := RaidzDevice.map_alloc_perm io_offset hdcols hs
  obtain ⟨hf, hacols, hscols, hle, _, _, _, _⟩ := RaidzDevice.stripe_spec io_offset hdcols hs
  have ho : (RaidzDevice.stripe dcols 1 io_offset io_size unit_shift).o =
      (io_offset >>> unit_shift / dcols) <<< unit_shift := rfl
  rw [RaidzDevice.stripe_cols io_offset hdcols hs] at hperm
  generalize RaidzDevice.stripe dcols 1 io_offset io_size unit_shift = st at hperm hf hacols hscols hle ho
  refine ⟨m, hm, fun col hcol => ?_, st.col dcols unit_shift 0, hperm.mem_iff.mpr ?_, ?_⟩
  · obtain ⟨c, hc, rfl⟩ := List.mem_map.mp (hperm.mem_iff.mp hcol)
    have hlt := List.mem_range.mp hc
    rw [← ho]
    simp only [Stripe.col]
    split
    · exact ⟨by omega, Nat.le_add_right _ _⟩
    · exact ⟨by omega, Nat.le_refl _⟩
  · exact List.mem_map_of_mem (List.mem_range.mpr (by omega))
  · simp only [Stripe.col, Nat.add_zero, if_neg (show ¬st.f ≥ dcols by omega)]
    exact ho

end Tiling

/-- A single-parity map tiles its allocation, with or without the exchange of
    the first two columns. -/
theorem RaidzDevice.map_alloc_tiles {dcols io_size unit_shift : Nat} (io_offset : Nat) (hdcols : 2 ≤ dcols)
    (hs : 1 ≤ io_size >>> unit_shift) :
    ∃ m c0 c1 rest, RaidzDevice.map_alloc dcols 1 io_offset io_size unit_shift = .ok m ∧
      m.rm_cols = c0 :: c1 :: rest ∧ c0.rc_size = c1.rc_size ∧ (∀ col ∈ m.rm_cols, col.rc_size ≤ c0.rc_size) ∧
      ((m.rm_cols.map RaidzCol.rc_size).drop 1).sum = (io_size >>> unit_shift) * 2 ^ unit_shift ∧
      m.Tiles dcols unit_shift (io_offset >>> unit_shift) (RaidzDevice.tot dcols 1 io_size unit_shift) := by
  obtain ⟨m, c0, c1, rest, hm, hcols, hsize, hstripe⟩ := RaidzDevice.map_alloc_cons io_offset hdcols hs
  have hcovers := RaidzDevice.stripe_covers io_offset hdcols hs 0
  have htiles := RaidzDevice.stripe_tiles io_offset hdcols hs 0
  refine ⟨m, c0, c1, rest, hm, hcols, hsize, ?_⟩
  rw [hcols]
  rcases hstripe with hstripe | hstripe
  · rw [hstripe] at hcovers htiles
    exact ⟨fun col hcol => hcovers.size_le col hcol c0 rfl, hcovers.data_size, htiles.of_perm (hcols ▸ List.Perm.refl _)⟩
  · rw [hstripe] at hcovers htiles
    have hperm : (c0 :: c1 :: rest).Perm (c1 :: c0 :: rest) := List.Perm.swap c1 c0 rest
    have hdata := hcovers.data_size
    refine ⟨fun col hcol => ?_, ?_, htiles.of_perm (hcols ▸ hperm)⟩
    · rw [hsize]
      exact hcovers.size_le col (hperm.mem_iff.mp hcol) c1 rfl
    · rw [← hdata]
      simp [hsize]

/-- Three sectors on three children from the last sector of a row on, with the
    first two columns exchanged. -/
theorem RaidzDevice.map_alloc_tiles_wrapped :
    (2 ≤ 3 ∧ 1 ≤ 1536 >>> 9) ∧
    ∃ m c0 c1 rest, RaidzDevice.map_alloc 3 1 0x100000 1536 9 = .ok m ∧
      m.rm_cols = c0 :: c1 :: rest ∧ c0.rc_size = c1.rc_size ∧ (∀ col ∈ m.rm_cols, col.rc_size ≤ c0.rc_size) ∧
      ((m.rm_cols.map RaidzCol.rc_size).drop 1).sum = (1536 >>> 9) * 2 ^ 9 ∧
      m.Tiles 3 9 (0x100000 >>> 9) (RaidzDevice.tot 3 1 1536 9) :=
  ⟨⟨by decide, by decide⟩, RaidzDevice.map_alloc_tiles 0x100000 (by decide) (by decide)⟩

end zfs_rescue.zio
