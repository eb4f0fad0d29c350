import ZfsRescue.Extractor.ZapLeaf
import ZfsRescue.Zap.Parse

open bytes dict linked
open zfs_rescue.extractor.zap_leaf

namespace zfs_rescue.zap

/-- An entry chunk of any block, read through arrays that are whole. -/
def HoldsEntry (block : Bytes) (idx : Nat) (item : String × ZapValue) : Prop :=
  ∃ name value, HoldsArray block (le_name_chunk block idx) name ∧ HoldsArray block (le_value_chunk block idx) value ∧
    item = (safe_decode_string (pySlice name 0 (le_name_numints block idx - 1)),
      zap_value (value.take (le_value_numints block idx * le_value_intlen block idx)))

/-- A hash chain of any block: it ends, also where a chunk is no entry, it stays
    in the block, and its entries can be read. -/
def HoldsChain (block : Bytes) (first : Nat) (items : List (String × ZapValue)) : Prop :=
  ∃ path, Path (entry_next block) first path ∧ (∀ idx ∈ path, idx < ZAP_LEAF_NUMCHUNKS) ∧
    List.Forall₂ (HoldsEntry block) (path.filter fun idx => le_type block idx = ZAP_CHUNK_ENTRY) items

def HoldsBucket (block : Bytes) (first : Nat) (items : List (String × ZapValue)) : Prop :=
  if first = CHAIN_END then items = [] else HoldsChain block first items

/-- A block that is well linked when it is read as a leaf, with its entries in
    the order of the buckets. -/
def HoldsBlock (block : Bytes) (items : List (String × ZapValue)) : Prop :=
  ∃ buckets, List.Forall₂ (HoldsBucket block) (l_hash block) buckets ∧ items = buckets.flatten

section Chunks

variable {block : Bytes}

theorem slice_chunk_arr (block : Bytes) (idx : Nat) :
    slice (block.drop ZAP_CHNK_ARR_BEGIN) (idx * ZAP_CHNK_SIZE) ZAP_CHNK_SIZE = ZAP_LEAF_CHUNK block idx := by
  rw [slice, List.drop_drop]
  rfl

theorem length_chunk (hlength : block.length = 1 <<< FZAP_BLOCK_SHIFT) {idx : Nat} (hidx : idx < ZAP_LEAF_NUMCHUNKS) :
    (ZAP_LEAF_CHUNK block idx).length = 24 := by
  have hinside : idx < 638 := hidx
  have hblock : block.length = 16384 := hlength
  apply length_slice_of_le
  change 48 + 1024 + idx * 24 + 24 ≤ block.length
  omega

theorem chunk_outside (hlength : block.length = 1 <<< FZAP_BLOCK_SHIFT) {idx : Nat} (hidx : ¬idx < ZAP_LEAF_NUMCHUNKS) :
    ZAP_LEAF_CHUNK block idx = [] := by
  have houtside : ¬idx < 638 := hidx
  have hblock : block.length = 16384 := hlength
  rw [← List.length_eq_zero_iff, ZAP_LEAF_CHUNK, length_slice]
  change min 24 (block.length - (48 + 1024 + idx * 24)) = 0
  omega

theorem index_chunk (hlength : block.length = 1 <<< FZAP_BLOCK_SHIFT) {idx : Nat} (hidx : idx < ZAP_LEAF_NUMCHUNKS) :
    index (ZAP_LEAF_CHUNK block idx) 0 = .ok ((ZAP_LEAF_CHUNK block idx).getD 0 0) := by
  have hchunk := length_chunk hlength hidx
  rw [index_of_lt (by omega), List.getD_eq_getElem]

/-- The last two bytes of a chunk, which the code counts from the end. -/
theorem unpack_la_next (hlength : block.length = 1 <<< FZAP_BLOCK_SHIFT) {idx : Nat} (hidx : idx < ZAP_LEAF_NUMCHUNKS) :
    unpackLE 2 ((ZAP_LEAF_CHUNK block idx).drop ((ZAP_LEAF_CHUNK block idx).length - 2)) = .ok (la_next block idx) := by
  have hchunk := length_chunk hlength hidx
  have hlast : (ZAP_LEAF_CHUNK block idx).drop (24 - 2) = slice (ZAP_LEAF_CHUNK block idx) 22 2 := by
    rw [slice, List.take_of_length_le (by rw [List.length_drop]; omega)]
  rw [hchunk, hlast, unpackLE, if_pos (length_slice_of_le (by omega))]
  rfl

theorem follow_chunk_list_outside (hlength : block.length = 1 <<< FZAP_BLOCK_SHIFT) {idx : Nat}
    (hidx : ¬idx < ZAP_LEAF_NUMCHUNKS) (frames : Nat) :
    FatZap.follow_chunk_list (block.drop ZAP_CHNK_ARR_BEGIN) (frames + 1) idx = .error .IndexError := by
  rw [FatZap.follow_chunk_list, slice_chunk_arr, chunk_outside hlength hidx]
  rfl

/-- One call of the list walk that comes back with data. -/
theorem follow_chunk_list_step (hlength : block.length = 1 <<< FZAP_BLOCK_SHIFT) (frames idx : Nat) (content : Bytes) :
    FatZap.follow_chunk_list (block.drop ZAP_CHNK_ARR_BEGIN) (frames + 1) idx = .ok (some content) ↔
      idx < ZAP_LEAF_NUMCHUNKS ∧ la_type block idx = ZAP_CHUNK_ARRAY ∧
        (array_next block idx = none ∧ content = la_array block idx ∨
          ∃ next rest, array_next block idx = some next ∧
            FatZap.follow_chunk_list (block.drop ZAP_CHNK_ARR_BEGIN) frames next = .ok (some rest) ∧
            content = la_array block idx ++ rest) := by
  by_cases hidx : idx < ZAP_LEAF_NUMCHUNKS
  · rw [FatZap.follow_chunk_list, slice_chunk_arr, index_chunk hlength hidx]
    simp only [bind_ok, unpack_la_next hlength hidx]
    change (if la_type block idx ≠ ZAP_CHUNK_ARRAY then _ else if la_next block idx = CHAIN_END then _ else _) = _ ↔ _
    by_cases htype : la_type block idx = ZAP_CHUNK_ARRAY
    · rw [if_neg (not_not_intro htype)]
      by_cases hend : la_next block idx = CHAIN_END
      · rw [if_pos hend, array_next, if_pos hend]
        simp only [Except.ok.injEq, Option.some.injEq, hidx, htype, true_and, reduceCtorEq, false_and, exists_const,
          or_false]
        exact eq_comm
      · rw [if_neg hend, array_next, if_neg hend]
        simp only [hidx, htype, true_and, reduceCtorEq, false_and, false_or, Option.some.injEq, bind_eq_ok_iff]
        constructor
        · rintro ⟨rest, hrest, hconcat⟩
          cases rest with
          | none => cases hconcat
          | some rest =>
            cases hconcat
            exact ⟨_, rest, rfl, hrest, rfl⟩
        · rintro ⟨next, rest, rfl, hrest, rfl⟩
          exact ⟨some rest, hrest, rfl⟩
    · rw [if_pos htype]
      simp [htype]
  · rw [follow_chunk_list_outside hlength hidx]
    simp [hidx]

/-- The list walk comes back with data exactly where there is an array that
    fits in the stack. -/
theorem follow_chunk_list_iff (hlength : block.length = 1 <<< FZAP_BLOCK_SHIFT) (frames idx : Nat) (content : Bytes) :
    FatZap.follow_chunk_list (block.drop ZAP_CHNK_ARR_BEGIN) frames idx = .ok (some content) ↔
      ∃ chunks, ArrayChain block idx chunks ∧ chunks.length ≤ frames ∧ content = chunks.flatMap (la_array block) := by
  induction frames generalizing idx content with
  | zero =>
    constructor
    · intro h
      cases h
    · rintro ⟨chunks, hchain, hroom, _⟩
      have hhead := List.length_pos_of_mem hchain.path.head_mem
      omega
  | succ frames ih =>
    rw [follow_chunk_list_step hlength]
    constructor
    · rintro ⟨hidx, htype, ⟨hlast, rfl⟩ | ⟨next, rest, hlink, hrest, rfl⟩⟩
      · exact ⟨[idx], ⟨.last hlast, by simpa using hidx, by simpa using htype⟩, by simp, by simp⟩
      · obtain ⟨chunks, hchain, hroom, rfl⟩ := (ih next rest).mp hrest
        refine ⟨idx :: chunks, ⟨.link hlink hchain.path, ?_, ?_⟩, Nat.succ_le_succ hroom, by simp⟩
        · simpa using ⟨hidx, hchain.inside⟩
        · simpa using ⟨htype, hchain.array⟩
    · rintro ⟨chunks, ⟨hpath, hinside, harray⟩, hroom, rfl⟩
      cases hpath with
      | last hlast => exact ⟨hinside idx (by simp), harray idx (by simp), .inl ⟨hlast, by simp⟩⟩
      | @link _ next chunks hlink hrest =>
        refine ⟨hinside idx (by simp), harray idx (by simp), .inr ⟨next, _, hlink, (ih next _).mpr ?_, rfl⟩⟩
        exact ⟨chunks, ⟨hrest, fun i hi => hinside i (by simp [hi]), fun i hi => harray i (by simp [hi])⟩,
          Nat.le_of_succ_le_succ hroom, rfl⟩

end Chunks

section Entries

variable {block : Bytes}

/-- The fields of an entry chunk, as the code names them. -/
def entry_at (block : Bytes) (idx : Nat) : ChunkEntry where
  int_size := le_value_intlen block idx
  next_chunk := le_next block idx
  name_chunk := le_name_chunk block idx
  name_length := le_name_numints block idx
  value_chunk := le_value_chunk block idx
  value_length := le_value_numints block idx
  cd := readLE (slice (ZAP_LEAF_CHUNK block idx) 12 2)
  hash := readLE (slice (ZAP_LEAF_CHUNK block idx) 16 8)

theorem unpack_entry_at (hlength : block.length = 1 <<< FZAP_BLOCK_SHIFT) {idx : Nat} (hidx : idx < ZAP_LEAF_NUMCHUNKS) :
    ChunkEntry.unpack (slice (block.drop ZAP_CHNK_ARR_BEGIN) (idx * ZAP_CHNK_SIZE + 1) (ZAP_CHNK_SIZE - 1)) =
      .ok (entry_at block idx) := by
  have hchunk := length_chunk hlength hidx
  have hslice : slice (block.drop ZAP_CHNK_ARR_BEGIN) (idx * ZAP_CHNK_SIZE + 1) (ZAP_CHNK_SIZE - 1) =
      slice (ZAP_LEAF_CHUNK block idx) 1 23 := by
    rw [← slice_chunk_arr, slice_slice _ (by decide)]
    rfl
  rw [hslice, ChunkEntry.unpack, if_pos (length_slice_of_le (by omega))]
  simp only [slice_slice, Nat.reduceLeDiff, Nat.reduceAdd]
  rfl

theorem upto_eq_ok_iff {xs : Option Bytes} {j : Int} {ys : Bytes} :
    upto xs j = .ok ys ↔ ∃ content, xs = some content ∧ ys = pySlice content 0 j := by
  cases xs <;> simp [upto, eq_comm]

theorem pySlice_zero_natCast (xs : Bytes) (n : Nat) : pySlice xs 0 n = xs.take n := by
  have hfirst : sliceBound xs.length 0 = 0 := by simp [sliceBound]
  have hlast : sliceBound xs.length n = min n xs.length := by simp [sliceBound]
  rw [pySlice, hfirst, hlast, Nat.sub_zero, slice, List.drop_zero, ← List.take_eq_take_min]

theorem read_entry_iff (hlength : block.length = 1 <<< FZAP_BLOCK_SHIFT) (frames idx : Nat) (item : String × ZapValue) :
    FatZap.read_entry (block.drop ZAP_CHNK_ARR_BEGIN) frames (entry_at block idx) = .ok item ↔
      ∃ names values, ArrayChain block (le_name_chunk block idx) names ∧ names.length ≤ frames ∧
        ArrayChain block (le_value_chunk block idx) values ∧ values.length ≤ frames ∧
        item = (safe_decode_string (pySlice (names.flatMap (la_array block)) 0 (le_name_numints block idx - 1)),
          zap_value ((values.flatMap (la_array block)).take (le_value_numints block idx * le_value_intlen block idx))) := by
  simp only [FatZap.read_entry, bind_eq_ok_iff, upto_eq_ok_iff, Except.ok.injEq]
  constructor
  · rintro ⟨_, hname, _, ⟨name, rfl, rfl⟩, _, hvalue, _, ⟨value, rfl, rfl⟩, rfl⟩
    obtain ⟨names, hnames, hroom, rfl⟩ := (follow_chunk_list_iff hlength frames _ name).mp hname
    obtain ⟨values, hvalues, hroom', rfl⟩ := (follow_chunk_list_iff hlength frames _ value).mp hvalue
    refine ⟨names, values, hnames, hroom, hvalues, hroom', ?_⟩
    rw [← pySlice_zero_natCast, Nat.cast_mul]
    rfl
  · rintro ⟨names, values, hnames, hroom, hvalues, hroom', rfl⟩
    refine ⟨_, (follow_chunk_list_iff hlength frames _ _).mpr ⟨names, hnames, hroom, rfl⟩, _, ⟨_, rfl, rfl⟩,
      _, (follow_chunk_list_iff hlength frames _ _).mpr ⟨values, hvalues, hroom', rfl⟩, _, ⟨_, rfl, rfl⟩, ?_⟩
    rw [← pySlice_zero_natCast, Nat.cast_mul]
    rfl

theorem follow_collision_chain_outside (hlength : block.length = 1 <<< FZAP_BLOCK_SHIFT) {idx : Nat}
    (hidx : ¬idx < ZAP_LEAF_NUMCHUNKS) (frames : Nat) (entries : Entries) :
    FatZap.follow_collision_chain (block.drop ZAP_CHNK_ARR_BEGIN) (frames + 1) idx entries = .error .IndexError := by
  have houtside : ¬idx < 638 := hidx
  have hblock : block.length = 16384 := hlength
  rw [FatZap.follow_collision_chain, index_of_le, bind_error]
  rw [List.length_drop]
  change block.length - 1072 ≤ idx * 24
  omega

theorem index_chunk_arr (hlength : block.length = 1 <<< FZAP_BLOCK_SHIFT) {idx : Nat} (hidx : idx < ZAP_LEAF_NUMCHUNKS) :
    index (block.drop ZAP_CHNK_ARR_BEGIN) (idx * ZAP_CHNK_SIZE) = .ok ((ZAP_LEAF_CHUNK block idx).getD 0 0) := by
  rw [index_eq_ok_iff, ← index_eq_ok_iff.mp (index_chunk hlength hidx), ← slice_chunk_arr, getElem?_slice]
  rfl

/-- One call of the chain walk that comes back. -/
theorem follow_collision_chain_step (hlength : block.length = 1 <<< FZAP_BLOCK_SHIFT) (frames idx : Nat)
    (entries entries' : Entries) :
    FatZap.follow_collision_chain (block.drop ZAP_CHNK_ARR_BEGIN) (frames + 1) idx entries = .ok entries' ↔
      idx < ZAP_LEAF_NUMCHUNKS ∧
        (le_type block idx ≠ ZAP_CHUNK_ENTRY ∧ entries' = entries ∨
          le_type block idx = ZAP_CHUNK_ENTRY ∧
            ∃ item, FatZap.read_entry (block.drop ZAP_CHNK_ARR_BEGIN) frames (entry_at block idx) = .ok item ∧
              (entry_next block idx = none ∧ entries' = set entries item.1 item.2 ∨
                ∃ next, entry_next block idx = some next ∧
                  FatZap.follow_collision_chain (block.drop ZAP_CHNK_ARR_BEGIN) frames next
                    (set entries item.1 item.2) = .ok entries')) := by
  by_cases hidx : idx < ZAP_LEAF_NUMCHUNKS
  · rw [FatZap.follow_collision_chain]
    simp only [index_chunk_arr hlength hidx, bind_ok, unpack_entry_at hlength hidx, hidx, true_and]
    change (if le_type block idx ≠ ZAP_CHUNK_ENTRY then _ else _) = _ ↔ _
    by_cases htype : le_type block idx = ZAP_CHUNK_ENTRY
    · rw [if_neg (not_not_intro htype), bind_eq_ok_iff]
      simp only [htype, ne_eq, not_true_eq_false, false_and, true_and, false_or, entry_next]
      by_cases hend : le_next block idx = CHAIN_END
      · simp only [hend, not_true_eq_false, if_false, true_and, reduceCtorEq, false_and, exists_const, or_false]
        have hstop : (entry_at block idx).next_chunk = 0xffff := hend
        simp [hstop, eq_comm]
      · simp only [hend, not_false_eq_true, if_true, reduceCtorEq, false_and, false_or, Option.some.injEq,
          exists_eq_left']
        have hgo : (entry_at block idx).next_chunk ≠ 0xffff := hend
        simp only [hgo, not_false_eq_true, if_true]
        rfl
    · rw [if_pos htype]
      simp [htype, eq_comm]
  · rw [follow_collision_chain_outside hlength hidx]
    simp [hidx]

theorem follow_collision_chain_sound (hlength : block.length = 1 <<< FZAP_BLOCK_SHIFT) {frames idx : Nat}
    {entries entries' : Entries}
    (h : FatZap.follow_collision_chain (block.drop ZAP_CHNK_ARR_BEGIN) frames idx entries = .ok entries') :
    ∃ items, HoldsChain block idx items ∧ entries' = update entries items := by
  induction frames generalizing idx entries with
  | zero => cases h
  | succ frames ih =>
    obtain ⟨hidx, ⟨htype, rfl⟩ | ⟨htype, item, hitem, hnext⟩⟩ :=
      (follow_collision_chain_step hlength frames idx entries entries').mp h
    · have hstop : entry_next block idx = none := if_neg fun hentry => htype hentry.1
      exact ⟨[], ⟨[idx], .last hstop, by simpa using hidx, by simp [htype]⟩, rfl⟩
    · obtain ⟨names, values, hnames, _, hvalues, _, hvalue⟩ := (read_entry_iff hlength frames idx item).mp hitem
      have hholds : HoldsEntry block idx item := ⟨_, _, ⟨names, hnames, rfl⟩, ⟨values, hvalues, rfl⟩, hvalue⟩
      obtain ⟨hlast, rfl⟩ | ⟨next, hlink, hrest⟩ := hnext
      · exact ⟨[item], ⟨[idx], .last hlast, by simpa using hidx, by simpa [htype] using hholds⟩, rfl⟩
      · obtain ⟨items, ⟨path, hpath, hinside, hitems⟩, rfl⟩ := ih hrest
        refine ⟨item :: items, ⟨idx :: path, .link hlink hpath, ?_, ?_⟩, rfl⟩
        · simpa using ⟨hidx, hinside⟩
        · rw [List.filter_cons_of_pos (by simpa using htype)]
          exact .cons hholds hitems

/-- A chain is read to its end when the stack has room for all its calls, and
    below those of its entries for any array. -/
theorem follow_collision_chain_complete (hlength : block.length = 1 <<< FZAP_BLOCK_SHIFT) {room idx : Nat}
    (harrays : ∀ first chunks, ArrayChain block first chunks → chunks.length ≤ room)
    {path : List Nat} (hpath : Path (entry_next block) idx path) (hinside : ∀ idx ∈ path, idx < ZAP_LEAF_NUMCHUNKS)
    {items : List (String × ZapValue)}
    (hitems : List.Forall₂ (HoldsEntry block) (path.filter fun idx => le_type block idx = ZAP_CHUNK_ENTRY) items)
    {frames : Nat} (hroom : path.length ≤ frames)
    (hbelow : (path.filter fun idx => le_type block idx = ZAP_CHUNK_ENTRY).length + room ≤ frames) (entries : Entries) :
    FatZap.follow_collision_chain (block.drop ZAP_CHNK_ARR_BEGIN) frames idx entries = .ok (update entries items) := by
  have hread : ∀ i item frames, HoldsEntry block i item → room ≤ frames →
      FatZap.read_entry (block.drop ZAP_CHNK_ARR_BEGIN) frames (entry_at block i) = .ok item := by
    rintro i item frames ⟨_, _, ⟨names, hnames, rfl⟩, ⟨values, hvalues, rfl⟩, rfl⟩ hframes
    exact (read_entry_iff hlength frames i _).mpr ⟨names, values, hnames, (harrays _ _ hnames).trans hframes, hvalues,
      (harrays _ _ hvalues).trans hframes, rfl⟩
  induction hpath generalizing items frames entries with
  | @last i hlast =>
    obtain ⟨frames, rfl⟩ : ∃ n, frames = n + 1 := Nat.exists_eq_add_of_le' hroom
    by_cases htype : le_type block i = ZAP_CHUNK_ENTRY
    · simp only [List.filter_cons, List.filter_nil, htype, decide_true, if_true, List.length_singleton] at hitems hbelow
      obtain ⟨item, _, hitem, hnil, rfl⟩ := List.forall₂_cons_left_iff.mp hitems
      cases hnil
      exact (follow_collision_chain_step hlength frames i _ _).mpr
        ⟨hinside i (by simp), .inr ⟨htype, item, hread i item frames hitem (by omega), .inl ⟨hlast, rfl⟩⟩⟩
    · rw [List.filter_cons_of_neg (by simpa using htype), List.filter_nil] at hitems
      cases hitems
      exact (follow_collision_chain_step hlength frames i _ _).mpr ⟨hinside i (by simp), .inl ⟨htype, rfl⟩⟩
  | @link i next path hlink hrest ih =>
    obtain ⟨frames, rfl⟩ : ∃ n, frames = n + 1 := Nat.exists_eq_add_of_le' (Nat.succ_le_of_lt (by
      rw [List.length_cons] at hroom
      omega))
    have htype : le_type block i = ZAP_CHUNK_ENTRY := by
      rw [entry_next] at hlink
      split at hlink
      · rename_i hentry
        exact hentry.1
      · cases hlink
    rw [List.filter_cons_of_pos (by simpa using htype)] at hitems hbelow
    rw [List.length_cons] at hroom hbelow
    obtain ⟨item, others, hitem, hothers, rfl⟩ := List.forall₂_cons_left_iff.mp hitems
    have hgoes := ih (fun j hj => hinside j (by simp [hj])) hothers (Nat.le_of_succ_le_succ hroom) (by omega)
      (set entries item.1 item.2)
    exact (follow_collision_chain_step hlength frames i _ _).mpr
      ⟨hinside i (by simp), .inr ⟨htype, item, hread i item frames hitem (by omega), .inr ⟨next, hlink, hgoes⟩⟩⟩

/-- A stack with room for as many calls as the block has chunks never runs
    out on a chain that ends. -/
theorem follow_collision_chain_iff (hlength : block.length = 1 <<< FZAP_BLOCK_SHIFT) {frames : Nat}
    (hframes : ZAP_LEAF_NUMCHUNKS ≤ frames) (idx : Nat) (entries entries' : Entries) :
    FatZap.follow_collision_chain (block.drop ZAP_CHNK_ARR_BEGIN) frames idx entries = .ok entries' ↔
      ∃ items, HoldsChain block idx items ∧ entries' = update entries items := by
  constructor
  · exact follow_collision_chain_sound hlength
  · rintro ⟨items, ⟨path, hpath, hinside, hitems⟩, rfl⟩
    have hentries := hpath.nodup.filter fun idx => decide (le_type block idx = ZAP_CHUNK_ENTRY)
    have hcount : ∀ first chunks, ArrayChain block first chunks →
        (path.filter fun idx => le_type block idx = ZAP_CHUNK_ENTRY).length + chunks.length ≤ ZAP_LEAF_NUMCHUNKS :=
      fun first chunks hchain => hchain.length_add_le hentries
        (fun i hi => hinside i (List.mem_of_mem_filter hi)) (fun i hi => by simpa using List.of_mem_filter hi)
    have hle : (path.filter fun idx => le_type block idx = ZAP_CHUNK_ENTRY).length ≤ ZAP_LEAF_NUMCHUNKS :=
      length_le_of_nodup hentries fun i hi => hinside i (List.mem_of_mem_filter hi)
    apply follow_collision_chain_complete hlength (fun first chunks hchain => Nat.le_sub_of_add_le' (hcount first chunks hchain))
      hpath hinside hitems ((length_le_of_nodup hpath.nodup hinside).trans hframes)
    omega

theorem follow_bucket_iff (hlength : block.length = 1 <<< FZAP_BLOCK_SHIFT) {frames : Nat}
    (hframes : ZAP_LEAF_NUMCHUNKS ≤ frames) (entries : Entries) (c : Nat) (entries' : Entries) :
    FatZap.follow_bucket (block.drop ZAP_CHNK_ARR_BEGIN) frames entries c = .ok entries' ↔
      ∃ items, HoldsBucket block c items ∧ entries' = update entries items := by
  rw [FatZap.follow_bucket]
  change (if c = CHAIN_END then _ else _) = _ ↔ _
  by_cases hend : c = CHAIN_END
  · simp only [HoldsBucket, hend, if_true, exists_eq_left, Except.ok.injEq]
    exact eq_comm
  · simp only [HoldsBucket, hend, if_false]
    exact follow_collision_chain_iff hlength hframes c entries entries'

/-- A loop whose rounds each add what they find adds all of it in order. -/
theorem foldlM_update_iff {α κ ν : Type} [DecidableEq κ] {f : Dict κ ν → α → Py (Dict κ ν)}
    {Holds : α → List (κ × ν) → Prop} {xs : List α}
    (hf : ∀ x ∈ xs, ∀ entries entries',
      f entries x = .ok entries' ↔ ∃ items, Holds x items ∧ entries' = update entries items) (entries entries' : Dict κ ν) :
    xs.foldlM f entries = .ok entries' ↔
      ∃ held, List.Forall₂ Holds xs held ∧ entries' = update entries held.flatten := by
  induction xs generalizing entries with
  | nil =>
    simp only [List.foldlM_nil, List.forall₂_nil_left_iff, exists_eq_left, List.flatten_nil]
    change Except.ok entries = Except.ok entries' ↔ entries' = entries
    rw [Except.ok.injEq]
    exact eq_comm
  | cons x xs ih =>
    simp only [List.foldlM_cons, bind_eq_ok_iff, hf x (by simp), ih fun y hy => hf y (by simp [hy])]
    constructor
    · rintro ⟨_, ⟨items, hitems, rfl⟩, held, hheld, rfl⟩
      exact ⟨items :: held, .cons hitems hheld, by rw [List.flatten_cons, update_append]⟩
    · rintro ⟨held, hheld, rfl⟩
      obtain ⟨items, held, hitems, hrest, rfl⟩ := List.forall₂_cons_left_iff.mp hheld
      exact ⟨_, ⟨items, hitems, rfl⟩, held, hrest, by rw [List.flatten_cons, update_append]⟩

/-- A loop whose rounds each set one item sets all of them in order. -/
theorem foldlM_set_iff {α κ ν : Type} [DecidableEq κ] {g : α → Py (κ × ν)} (xs : List α) (entries entries' : Dict κ ν) :
    (xs.foldlM (fun entries x => do
      let item ← g x
      .ok (set entries item.1 item.2)) entries) = .ok entries' ↔
      ∃ items, List.Forall₂ (fun x item => g x = .ok item) xs items ∧ entries' = update entries items := by
  induction xs generalizing entries with
  | nil =>
    simp only [List.foldlM_nil, List.forall₂_nil_left_iff, exists_eq_left]
    change Except.ok entries = Except.ok entries' ↔ entries' = entries
    rw [Except.ok.injEq]
    exact eq_comm
  | cons x xs ih =>
    simp only [List.foldlM_cons, bind_eq_ok_iff, ih, Except.ok.injEq, List.forall₂_cons_left_iff]
    constructor
    · rintro ⟨_, ⟨item, hitem, rfl⟩, items, hitems, rfl⟩
      exact ⟨item :: items, ⟨item, items, hitem, hitems, rfl⟩, rfl⟩
    · rintro ⟨_, ⟨item, items, hitem, hitems, rfl⟩, rfl⟩
      exact ⟨_, ⟨item, hitem, rfl⟩, items, hitems, rfl⟩

/-- A block is parsed without an exception exactly when it is well linked. -/
theorem parse_zap_block_iff (hlength : block.length = 1 <<< FZAP_BLOCK_SHIFT) {frames : Nat}
    (hframes : ZAP_LEAF_NUMCHUNKS ≤ frames) (entries entries' : Entries) :
    FatZap.parse_zap_block frames block entries = .ok entries' ↔
      ∃ items, HoldsBlock block items ∧ entries' = update entries items := by
  have hblock : block.length = 16384 := hlength
  have htable : unpack_chunk_table (slice block 0x30 (ZAP_CHNK_ARR_BEGIN - 0x30)) = .ok (l_hash block) := by
    have hsize : (slice block 0x30 (ZAP_CHNK_ARR_BEGIN - 0x30)).length = 1024 :=
      length_slice_of_le (by rw [hblock]; decide)
    have hhash : ∀ i ∈ List.range 512, readLE (slice (slice block 0x30 (ZAP_CHNK_ARR_BEGIN - 0x30)) (2 * i) 2) =
        readLE (slice block (2 * ZAP_LEAF_CHUNKSIZE + 2 * i) 2) := by
      intro i hi
      have hi : i < 512 := List.mem_range.mp hi
      rw [slice_slice _ (by change 2 * i + 2 ≤ 1024; omega)]
      rfl
    rw [unpack_chunk_table, if_pos hsize, List.map_congr_left hhash]
    rfl
  have hheader : (block.take 0x30).length = 0x30 := by
    rw [List.length_take]
    omega
  rw [FatZap.parse_zap_block, if_neg (not_not_intro hheader), htable, bind_ok,
    foldlM_update_iff fun c _ => fun entries => follow_bucket_iff hlength hframes entries c]
  constructor
  · rintro ⟨held, hheld, rfl⟩
    exact ⟨_, ⟨held, hheld, rfl⟩, rfl⟩
  · rintro ⟨_, ⟨held, hheld, rfl⟩, rfl⟩
    exact ⟨held, hheld, rfl⟩

end Entries

/-- The blocks behind the header, taken out of the data of the whole ZAP. -/
theorem blocks_of_data {header : Bytes} (hheader : header.length = 1 <<< FZAP_BLOCK_SHIFT) {blocks : List Bytes}
    (hblocks : ∀ block ∈ blocks, block.length = 1 <<< FZAP_BLOCK_SHIFT) :
    ((List.range (((header ++ blocks.flatten).length - 1 <<< FZAP_BLOCK_SHIFT) / 1 <<< FZAP_BLOCK_SHIFT)).map fun n =>
      slice (header ++ blocks.flatten) ((n + 1) * 1 <<< FZAP_BLOCK_SHIFT) (1 <<< FZAP_BLOCK_SHIFT)) = blocks := by
  have hflat : header ++ blocks.flatten = (header :: blocks).flatMap id := by
    rw [List.flatMap_id, List.flatten_cons]
  have hall : ∀ block ∈ header :: blocks, (id block).length = 1 <<< FZAP_BLOCK_SHIFT := by
    simpa using ⟨hheader, hblocks⟩
  have hcount : ((header ++ blocks.flatten).length - 1 <<< FZAP_BLOCK_SHIFT) / 1 <<< FZAP_BLOCK_SHIFT = blocks.length := by
    rw [hflat, length_flatMap_of_length hall, List.length_cons, Nat.succ_mul, Nat.add_sub_cancel]
    exact Nat.mul_div_cancel _ (by decide)
  rw [hcount]
  apply List.ext_getElem
  · rw [List.length_map, List.length_range]
  · intro i _ hi
    have hinside : i + 1 < (header :: blocks).length := by simpa using hi
    simp only [List.getElem_map, List.getElem_range]
    rw [hflat, slice_flatMap hall hinside]
    rfl

/-- A ZAP is parsed without an exception exactly when all blocks behind the
    header are well linked, whatever they are. -/
theorem parse_iff {frames : Nat} (hframes : ZAP_LEAF_NUMCHUNKS ≤ frames) {header : Bytes}
    (hheader : header.length = 1 <<< FZAP_BLOCK_SHIFT) {blocks : List Bytes}
    (hblocks : ∀ block ∈ blocks, block.length = 1 <<< FZAP_BLOCK_SHIFT) (entries : Entries) :
    FatZap.parse (1 <<< FZAP_BLOCK_SHIFT) frames (header ++ blocks.flatten) = .ok entries ↔
      ∃ held, List.Forall₂ HoldsBlock blocks held ∧ entries = update [] held.flatten := by
  have hlength : ((header ++ blocks.flatten).take (11 * 8)).length = 11 * 8 := by
    have hblock : header.length = 16384 := hheader
    rw [List.length_take, List.length_append]
    omega
  rw [FatZap.parse, if_neg (not_not_intro hlength), if_neg (by decide), blocks_of_data hheader hblocks]
  exact foldlM_update_iff (fun block hblock entries => parse_zap_block_iff (hblocks block hblock) hframes entries) [] _

end zfs_rescue.zap
