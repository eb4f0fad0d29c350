import ZfsRescue.Extractor.Zio

open zfs_rescue.zio

namespace zfs_rescue.extractor.zio

/-- The total number of sectors, without wrapping. -/
def unbounded_tot (io_offset io_size ashift dcols nparity : Nat) : Nat :=
  let st := RaidzDevice.stripe dcols nparity io_offset io_size ashift
  let s := io_size >>> ashift
  let r := s - st.q * (dcols - nparity)
  s + nparity * (st.q + if r = 0 then 0 else 1)

/-- The sizes of all columns, the skipped ones included, without wrapping. -/
def unbounded_sizes (io_offset io_size ashift dcols nparity : Nat) : List Nat :=
  let st := RaidzDevice.stripe dcols nparity io_offset io_size ashift
  (List.range st.scols).map (st.size ashift)

/-- What `vdev_raidz_map_alloc` computes on the way, without wrapping: its
    parameters, the locals before the loop, the sums and the rounding behind it,
    and in the loop the column numbers, offsets and sizes. -/
def intermediates (io_offset io_size ashift dcols nparity : Nat) : List Nat :=
  let st := RaidzDevice.stripe dcols nparity io_offset io_size ashift
  let s := io_size >>> ashift
  let r := s - st.q * (dcols - nparity)
  let tot := unbounded_tot io_offset io_size ashift dcols nparity
  let sizes := unbounded_sizes io_offset io_size ashift dcols nparity
  [io_offset, io_size, dcols, st.o, st.q * (dcols - nparity), r + nparity, st.q + 1, tot, st.bc + nparity, st.scols,
    tot <<< ashift, (nparity + 1) <<< ashift, sizes.sum, sizes.sum + ((nparity + 1) <<< ashift - 1),
    zfs_rescue.zio.roundup sizes.sum ((nparity + 1) <<< ashift), tot + nparity,
    zfs_rescue.zio.roundup tot (nparity + 1), (zfs_rescue.zio.roundup tot (nparity + 1) - tot) <<< ashift] ++
  (List.range st.scols).map (fun c => st.f + c) ++
  (List.range st.scols).map (fun c => (st.col dcols ashift c).rc_offset) ++ sizes

/-- No intermediate value overflows. -/
def NoOverflow (io_offset io_size ashift dcols nparity : Nat) : Prop :=
  ∀ v ∈ intermediates io_offset io_size ashift dcols nparity, v < 2 ^ 64

/-- The assertions of `vdev_raidz_map_alloc`, in order. -/
def Asserts (io_offset io_size ashift dcols nparity : Nat) : Prop :=
  let st := vdev_raidz_stripe io_offset io_size ashift dcols nparity
  let tot := vdev_raidz_tot io_size ashift dcols nparity
  let asize := (rc_sizes st ashift).foldl (fun asize size => u64 (asize + size)) 0
  let rm := vdev_raidz_map_alloc io_offset io_size ashift dcols nparity
  st.acols ≤ st.scols ∧
    asize = u64 (tot <<< ashift) ∧
    u64_sub rm.rm_asize asize = u64 (rm.rm_nskip <<< ashift) ∧
    rm.rm_nskip ≤ nparity ∧
    2 ≤ rm.rm_cols ∧
    rc_size st ashift 0 = rc_size st ashift 1

/-- A column without its buffer. -/
def RaidzColT.column (col : RaidzColT) : RaidzCol where
  rc_devidx := col.rc_devidx
  rc_offset := col.rc_offset
  rc_size := col.rc_size

theorem map_column_with_abd {cols : List RaidzCol} {abds : List Abd} (h : cols.length ≤ abds.length) :
    (List.zipWith with_abd cols abds).map RaidzColT.column = cols := by
  rw [List.map_zipWith]
  induction cols generalizing abds with
  | nil => rfl
  | cons col cols ih =>
    cases abds with
    | nil => cases h
    | cons abd abds => rw [List.zipWith_cons_cons, ih (Nat.le_of_succ_le_succ h), RaidzColT.column, with_abd]

theorem roundup_lt (x : Nat) {y : Nat} (hy : 0 < y) : zfs_rescue.zio.roundup x y < x + y := by
  have hle := Nat.div_mul_le_self (x + y - 1) y
  rw [zfs_rescue.zio.roundup]
  omega

/-- Rounding sectors up and then taking their bytes is rounding up bytes. -/
theorem roundup_mul (x y : Nat) {m : Nat} (hy : 0 < y) (hm : 0 < m) :
    zfs_rescue.zio.roundup (x * m) (y * m) = zfs_rescue.zio.roundup x y * m := by
  have hpos : 0 < y * m := Nat.mul_pos hy hm
  have hquot : (x * m + y * m - 1) / (y * m) = (x + y - 1) / y := by
    have hsplit : x * m + y * m - 1 = (x + y - 1) * m + (m - 1) := by
      obtain ⟨z, hz⟩ : ∃ z, x + y = z + 1 := ⟨x + y - 1, by omega⟩
      rw [← Nat.add_mul, hz, Nat.succ_mul, Nat.add_sub_cancel]
      omega
    rw [hsplit, Nat.mul_comm y m, ← Nat.div_div_eq_div_mul, Nat.mul_comm _ m, Nat.mul_add_div hm,
      Nat.div_eq_of_lt (by omega : m - 1 < m), Nat.add_zero]
  rw [zfs_rescue.zio.roundup, zfs_rescue.zio.roundup, hquot, Nat.mul_assoc]

theorem foldl_u64_add {sizes : List Nat} {asize : Nat} (h : asize + sizes.sum < 2 ^ 64) :
    sizes.foldl (fun asize size => u64 (asize + size)) asize = asize + sizes.sum := by
  induction sizes generalizing asize with
  | nil => rfl
  | cons size sizes ih =>
    rw [List.sum_cons] at h ⊢
    rw [List.foldl_cons, u64_of_lt (by omega), ih (by omega), Nat.add_assoc]

section Single

variable {dcols io_offset io_size ashift : Nat}

theorem unbounded_tot_eq (hdcols : 2 ≤ dcols) (hs : 1 ≤ io_size >>> ashift) :
    unbounded_tot io_offset io_size ashift dcols 1 = tot (RaidzDevice.stripe dcols 1 io_offset io_size ashift) := by
  obtain ⟨_, hacols, _, _, _, _, _, htotal⟩ := RaidzDevice.stripe_spec io_offset hdcols hs
  have hbc : (RaidzDevice.stripe dcols 1 io_offset io_size ashift).bc =
      if io_size >>> ashift - (RaidzDevice.stripe dcols 1 io_offset io_size ashift).q * (dcols - 1) = 0 then 0
      else io_size >>> ashift - (RaidzDevice.stripe dcols 1 io_offset io_size ashift).q * (dcols - 1) + 1 := by
    simp only [RaidzDevice.stripe]
    by_cases hr : io_size >>> ashift - io_size >>> ashift / (dcols - 1) * (dcols - 1) = 0 <;> simp [hr]
  rw [unbounded_tot, tot]
  generalize RaidzDevice.stripe dcols 1 io_offset io_size ashift = st at hacols htotal hbc ⊢
  obtain ⟨n, hn⟩ : ∃ n, st.acols = n + 1 := ⟨st.acols - 1, by omega⟩
  rw [hn, Nat.add_sub_cancel] at htotal
  rw [hn, Nat.succ_mul n, Nat.one_mul]
  by_cases hr : io_size >>> ashift - st.q * (dcols - 1) = 0
  · rw [if_pos hr] at hbc
    simp only [if_pos hr]
    omega
  · rw [if_neg hr] at hbc
    simp only [if_neg hr]
    omega

/-- The columns behind the accessed ones are empty. -/
theorem sum_unbounded_sizes (io_offset : Nat) (hdcols : 2 ≤ dcols) (hs : 1 ≤ io_size >>> ashift) :
    (unbounded_sizes io_offset io_size ashift dcols 1).sum =
      tot (RaidzDevice.stripe dcols 1 io_offset io_size ashift) * 2 ^ ashift := by
  obtain ⟨_, _, hscols, _, _, hbc, _, _⟩ := RaidzDevice.stripe_spec io_offset hdcols hs
  simp only [unbounded_sizes]
  generalize RaidzDevice.stripe dcols 1 io_offset io_size ashift = st at hscols hbc ⊢
  obtain ⟨skipped, hskipped⟩ := Nat.exists_eq_add_of_le hscols
  have hzero : ((List.range skipped).map (st.size ashift ∘ fun x => st.acols + x)).sum = 0 := by
    rw [List.sum_eq_zero_iff]
    intro size hsize
    obtain ⟨c, -, rfl⟩ := List.mem_map.mp hsize
    simp [Stripe.size]
  rw [hskipped, List.range_add, List.map_append, List.sum_append, List.map_map, hzero, Nat.add_zero,
    Stripe.sum_size ashift hbc, tot]

theorem NoOverflow.fits (h : NoOverflow io_offset io_size ashift dcols 1) (hdcols : 2 ≤ dcols)
    (hs : 1 ≤ io_size >>> ashift) : Fits (RaidzDevice.stripe dcols 1 io_offset io_size ashift) dcols ashift := by
  obtain ⟨_, hacols, hscols, _, _, _, _, _⟩ := RaidzDevice.stripe_spec io_offset hdcols hs
  have hsum := sum_unbounded_sizes io_offset hdcols hs
  have hround := h ((unbounded_sizes io_offset io_size ashift dcols 1).sum + ((1 + 1) <<< ashift - 1))
    (by simp [intermediates])
  have hpos : 0 < 2 ^ ashift := by positivity
  refine ⟨h dcols (by simp [intermediates]), ?_, ?_, ?_⟩
  · have hcol := h ((RaidzDevice.stripe dcols 1 io_offset io_size ashift).f +
      ((RaidzDevice.stripe dcols 1 io_offset io_size ashift).scols - 1)) (by
        simp only [intermediates, List.mem_append, List.mem_map, List.mem_range]
        exact .inl (.inl (.inr ⟨_, by omega, rfl⟩)))
    omega
  · intro hwrap
    have hoff := h ((RaidzDevice.stripe dcols 1 io_offset io_size ashift).col dcols ashift
      ((RaidzDevice.stripe dcols 1 io_offset io_size ashift).scols - 1)).rc_offset (by
        simp only [intermediates, List.mem_append, List.mem_map, List.mem_range]
        exact .inl (.inr ⟨_, by omega, rfl⟩))
    rw [Stripe.col] at hoff
    simp only at hoff
    rw [if_pos (by omega), Nat.one_shiftLeft] at hoff
    exact hoff
  · rw [hsum, Nat.shiftLeft_eq] at hround
    rw [Nat.add_mul]
    omega

theorem vdev_raidz_tot_eq (h : NoOverflow io_offset io_size ashift dcols 1) (hdcols : 2 ≤ dcols)
    (hs : 1 ≤ io_size >>> ashift) :
    vdev_raidz_tot io_size ashift dcols 1 = tot (RaidzDevice.stripe dcols 1 io_offset io_size ashift) := by
  have hlt := h dcols (by simp [intermediates])
  have hsize := h io_size (by simp [intermediates])
  have htot := h (unbounded_tot io_offset io_size ashift dcols 1) (by simp [intermediates])
  have hshift : io_size >>> ashift ≤ io_size := Nat.shiftRight_le _ _
  have hq : io_size >>> ashift / (dcols - 1) * (dcols - 1) ≤ io_size >>> ashift := Nat.div_mul_le_self _ _
  rw [← unbounded_tot_eq hdcols hs]
  rw [unbounded_tot, RaidzDevice.stripe] at htot
  rw [unbounded_tot, RaidzDevice.stripe, vdev_raidz_tot, u64_sub_of_le hlt (by omega)]
  simp only [Nat.one_mul] at htot ⊢
  rw [u64_of_lt (by omega : _ * (dcols - 1) < 2 ^ 64), u64_sub_of_le (by omega) hq]
  by_cases hr : io_size >>> ashift - io_size >>> ashift / (dcols - 1) * (dcols - 1) = 0
  · simp only [if_pos hr, Nat.add_zero] at htot ⊢
    have hq1 : io_size >>> ashift / (dcols - 1) < 2 ^ 64 := by omega
    rw [u64_of_lt hq1, u64_of_lt hq1, u64_of_lt htot]
  · simp only [if_neg hr] at htot ⊢
    have hq1 : io_size >>> ashift / (dcols - 1) + 1 < 2 ^ 64 := by omega
    rw [u64_of_lt hq1, u64_of_lt hq1, u64_of_lt htot]

/-- A stripe takes at most twice its data and a sector. -/
theorem tot_bytes_le (hdcols : 2 ≤ dcols) (hs : 1 ≤ io_size >>> ashift) :
    tot (RaidzDevice.stripe dcols 1 io_offset io_size ashift) * 2 ^ ashift ≤ 2 * io_size + 2 ^ ashift := by
  have hsectors : io_size >>> ashift * 2 ^ ashift ≤ io_size := by
    rw [Nat.shiftRight_eq_div_pow]
    exact Nat.div_mul_le_self _ _
  calc tot (RaidzDevice.stripe dcols 1 io_offset io_size ashift) * 2 ^ ashift
      ≤ (2 * io_size >>> ashift + 1) * 2 ^ ashift :=
        Nat.mul_le_mul_right _ (RaidzDevice.stripe_tot_le io_offset hdcols hs)
    _ = 2 * (io_size >>> ashift * 2 ^ ashift) + 2 ^ ashift := by ring
    _ ≤ 2 * io_size + 2 ^ ashift := by omega

/-- A column starts in the row of the first sector or in the next one. -/
theorem col_offset_le (c : Nat) :
    ((RaidzDevice.stripe dcols 1 io_offset io_size ashift).col dcols ashift c).rc_offset ≤
      (io_offset >>> ashift / dcols) <<< ashift + 2 ^ ashift := by
  have ho : (RaidzDevice.stripe dcols 1 io_offset io_size ashift).o = (io_offset >>> ashift / dcols) <<< ashift := rfl
  have hpos : 0 < 2 ^ ashift := by positivity
  simp only [Stripe.col, Nat.one_shiftLeft]
  split <;> omega

/-- The words of a block pointer leave the map inside 64 bits. -/
theorem noOverflow_of_le (hdcols : 2 ≤ dcols) (hlt : dcols ≤ 2 ^ 32) (hs : 1 ≤ io_size >>> ashift)
    (hoffset : io_offset < 2 ^ 63) (hsize : io_size ≤ 2 ^ 40) (hashift : ashift ≤ 16) :
    NoOverflow io_offset io_size ashift dcols 1 := by
  have hpos : 0 < 2 ^ ashift := by positivity
  have hpow : 2 ^ ashift ≤ 2 ^ 16 := Nat.pow_le_pow_right (by omega) hashift
  have hsectors : io_size >>> ashift ≤ io_size := Nat.shiftRight_le _ _
  have hrow := row_offset_le dcols io_offset ashift
  have hbytes := @tot_bytes_le dcols io_offset io_size ashift hdcols hs
  have htot : tot (RaidzDevice.stripe dcols 1 io_offset io_size ashift) ≤ 2 * io_size >>> ashift + 1 :=
    RaidzDevice.stripe_tot_le io_offset hdcols hs
  have hsum := sum_unbounded_sizes io_offset hdcols hs
  have htotal := @unbounded_tot_eq dcols io_offset io_size ashift hdcols hs
  obtain ⟨hf, hacols, hscols, hle, _, hbc, _, hdata⟩ := RaidzDevice.stripe_spec io_offset hdcols hs
  have hq : (RaidzDevice.stripe dcols 1 io_offset io_size ashift).q * (dcols - 1) ≤ io_size >>> ashift :=
    Nat.div_mul_le_self _ _
  have hqle : (RaidzDevice.stripe dcols 1 io_offset io_size ashift).q ≤ io_size >>> ashift := Nat.div_le_self _ _
  have ho : (RaidzDevice.stripe dcols 1 io_offset io_size ashift).o =
      (io_offset >>> ashift / dcols) <<< ashift := rfl
  have hmember : ∀ size ∈ unbounded_sizes io_offset io_size ashift dcols 1,
      size ≤ (unbounded_sizes io_offset io_size ashift dcols 1).sum := fun size hsize => List.le_sum_of_mem hsize
  have htwo : (1 + 1) <<< ashift = 2 * 2 ^ ashift := by rw [Nat.shiftLeft_eq]
  have hround := roundup_lt (tot (RaidzDevice.stripe dcols 1 io_offset io_size ashift) * 2 ^ ashift)
    (show 0 < (1 + 1) <<< ashift by omega)
  have hpad := roundup_lt (tot (RaidzDevice.stripe dcols 1 io_offset io_size ashift)) (show 0 < 1 + 1 by omega)
  have hpads : (zfs_rescue.zio.roundup (tot (RaidzDevice.stripe dcols 1 io_offset io_size ashift)) (1 + 1) -
      tot (RaidzDevice.stripe dcols 1 io_offset io_size ashift)) * 2 ^ ashift ≤ 1 * 2 ^ ashift :=
    Nat.mul_le_mul_right _ (by omega)
  rw [hsum] at hmember
  intro v hv
  simp only [intermediates, htotal, hsum, List.mem_append, List.mem_cons, List.not_mem_nil, or_false, List.mem_map,
    List.mem_range] at hv
  -- a local variable of the map, a child, an offset or a size of a column
  obtain ((hlocal | ⟨c, hc, rfl⟩) | ⟨c, hc, rfl⟩) | hcolsize := hv
  · rw [Nat.shiftLeft_eq, Nat.shiftLeft_eq (_ - _)] at hlocal
    omega
  · omega
  · have hcol := @col_offset_le dcols io_offset io_size ashift c
    omega
  · have hcol := hmember v hcolsize
    omega

/-- Every assertion holds. -/
theorem asserts (h : NoOverflow io_offset io_size ashift dcols 1) (hdcols : 2 ≤ dcols)
    (hs : 1 ≤ io_size >>> ashift) : Asserts io_offset io_size ashift dcols 1 := by
  obtain ⟨_, hacols, hscols, _, hbc1, _, _, _⟩ := RaidzDevice.stripe_spec io_offset hdcols hs
  have hfits := h.fits hdcols hs
  have hoffset := h io_offset (by simp [intermediates])
  have hsize := h io_size (by simp [intermediates])
  have hshift := h ((1 + 1) <<< ashift) (by simp [intermediates])
  have htot := h (unbounded_tot io_offset io_size ashift dcols 1 <<< ashift) (by simp [intermediates])
  have hup := h (unbounded_tot io_offset io_size ashift dcols 1 + 1) (by simp [intermediates])
  have hasize_up := h ((unbounded_sizes io_offset io_size ashift dcols 1).sum + ((1 + 1) <<< ashift - 1))
    (by simp [intermediates])
  have hround := h (zfs_rescue.zio.roundup (unbounded_sizes io_offset io_size ashift dcols 1).sum ((1 + 1) <<< ashift))
    (by simp [intermediates])
  have hsum := sum_unbounded_sizes io_offset hdcols hs
  rw [unbounded_tot_eq hdcols hs] at htot hup
  rw [hsum] at hasize_up hround
  have hsizes : rc_sizes (RaidzDevice.stripe dcols 1 io_offset io_size ashift) ashift =
      unbounded_sizes io_offset io_size ashift dcols 1 := List.map_congr_left fun c _ => rc_size_eq hfits c
  have hpos : 0 < 2 ^ ashift := by positivity
  have htwo : (1 + 1) <<< ashift = 2 * 2 ^ ashift := by rw [Nat.shiftLeft_eq]
  rw [htwo] at hshift hasize_up hround
  rw [Nat.shiftLeft_eq] at htot
  simp only [Asserts, vdev_raidz_map_alloc]
  rw [vdev_raidz_stripe_eq hdcols hfits.dcols_lt hoffset hsize, vdev_raidz_tot_eq h hdcols hs, hsizes,
    foldl_u64_add (by omega), Nat.zero_add, hsum, u64_of_lt (by omega : 1 + 1 < 2 ^ 64), htwo, u64_of_lt hshift]
  rw [rc_size_eq hfits, rc_size_eq hfits, Stripe.size_of_lt ashift (by omega), Stripe.size_of_lt ashift (by omega)]
  generalize RaidzDevice.stripe dcols 1 io_offset io_size ashift = st at hacols hscols hbc1 htot hup hasize_up hround ⊢
  have hpad : zfs_rescue.zio.roundup (tot st) 2 = tot st ∨ zfs_rescue.zio.roundup (tot st) 2 = tot st + 1 := by
    rw [zfs_rescue.zio.roundup]
    omega
  have hbytes := roundup_mul (tot st) 2 (by omega) hpos
  rw [roundup_of_le (by omega) hshift (by omega), hbytes, roundup_of_le (by omega) (by omega) (by omega)]
  rw [hbytes] at hround
  refine ⟨hscols, ?_, ?_, ?_, hacols, ?_⟩
  · rw [Nat.shiftLeft_eq, u64_of_lt htot]
  · rcases hpad with hpad | hpad
    · rw [hpad] at hround ⊢
      rw [u64_sub_of_le hround (by omega), u64_sub_of_le (by omega) (by omega)]
      simp [u64]
    · rw [hpad] at hround ⊢
      rw [Nat.succ_mul] at hround ⊢
      rw [u64_sub_of_le hround (by omega), u64_sub_of_le (by omega) (by omega), Nat.add_sub_cancel_left,
        Nat.add_sub_cancel_left, Nat.one_shiftLeft, u64_of_lt (by omega)]
  · rcases hpad with hpad | hpad
    · rw [hpad, u64_sub_of_le (by omega) (by omega)]
      omega
    · rw [hpad, u64_sub_of_le (by omega) (by omega)]
      omega
  · have hbig : (0 < st.bc) = (1 < st.bc) := propext ⟨fun _ => by omega, fun _ => by omega⟩
    simp only [hbig]

/-- The two maps agree. -/
theorem map_alloc_agree (h : NoOverflow io_offset io_size ashift dcols 1) (hdcols : 2 ≤ dcols)
    (hs : 1 ≤ io_size >>> ashift) :
    ∃ m, RaidzDevice.map_alloc dcols 1 io_offset io_size ashift = .ok m ∧
      ((vdev_raidz_map_alloc io_offset io_size ashift dcols 1).rm_col.take
        (vdev_raidz_map_alloc io_offset io_size ashift dcols 1).rm_cols).map RaidzColT.column = m.rm_cols ∧
      (vdev_raidz_map_alloc io_offset io_size ashift dcols 1).rm_firstdatacol = m.rm_firstdatacol ∧
      (vdev_raidz_map_alloc io_offset io_size ashift dcols 1).rm_skipstart = m.rm_skipstart ∧
      Asserts io_offset io_size ashift dcols 1 := by
  have hoffset := h io_offset (by simp [intermediates])
  have hsize := h io_size (by simp [intermediates])
  obtain ⟨m, size, hm, hcols, hfirst, hskip⟩ :=
    vdev_raidz_map_alloc_eq hdcols hs hoffset hsize (h.fits hdcols hs)
  refine ⟨m, hm, ?_, hfirst, hskip, asserts h hdcols hs⟩
  rw [hcols]
  apply map_column_with_abd
  rw [List.length_cons, length_parts, List.length_drop, List.length_map]
  omega

end Single

/-- Two mebibyte-aligned sectors on three children, where the parity moves. -/
theorem map_alloc_agree_swapped :
    NoOverflow 0x100000 8192 12 3 1 ∧ ∃ m, RaidzDevice.map_alloc 3 1 0x100000 8192 12 = .ok m ∧
      ((vdev_raidz_map_alloc 0x100000 8192 12 3 1).rm_col.take
        (vdev_raidz_map_alloc 0x100000 8192 12 3 1).rm_cols).map RaidzColT.column = m.rm_cols ∧
      (vdev_raidz_map_alloc 0x100000 8192 12 3 1).rm_firstdatacol = m.rm_firstdatacol ∧
      (vdev_raidz_map_alloc 0x100000 8192 12 3 1).rm_skipstart = m.rm_skipstart ∧
      Asserts 0x100000 8192 12 3 1 := by
  have h : NoOverflow 0x100000 8192 12 3 1 := by
    unfold NoOverflow
    decide
  exact ⟨h, map_alloc_agree h (by decide) (by decide)⟩

end zfs_rescue.extractor.zio
