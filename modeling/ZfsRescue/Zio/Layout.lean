import ZfsRescue.Proxy.Files
import ZfsRescue.Zio.Raidz

open bytes
open zfs_rescue.proxy

namespace zfs_rescue.zio

/-- The contents of a child on which the parts were written through the columns
    of a map, everything in front of a column being zero. -/
def lay : List RaidzCol → List Bytes → Nat → Bytes
  | col :: cols, part :: parts, dev =>
    if col.rc_devidx = dev then List.replicate (col.rc_offset + 0x400000) 0 ++ part else lay cols parts dev
  | _, _, _ => []

theorem lay_of_ne {col : RaidzCol} {cols : List RaidzCol} {part : Bytes} {parts : List Bytes} {dev : Nat}
    (h : col.rc_devidx ≠ dev) : lay (col :: cols) (part :: parts) dev = lay cols parts dev := by
  rw [lay, if_neg h]

private theorem lay_self (col : RaidzCol) (cols : List RaidzCol) (part : Bytes) (parts : List Bytes) :
    lay (col :: cols) (part :: parts) col.rc_devidx = List.replicate (col.rc_offset + 0x400000) 0 ++ part := by
  rw [lay, if_pos rfl]

/-- Parts written through columns on distinct children are the columns. -/
theorem columns_lay {cols : List RaidzCol} {parts : List Bytes} (hnodup : (cols.map RaidzCol.rc_devidx).Nodup)
    (hsizes : parts.map List.length = cols.map RaidzCol.rc_size) :
    columns (lay cols parts) cols = parts ∧ Inside (lay cols parts) cols := by
  induction cols generalizing parts with
  | nil =>
    have hnil : parts = [] := by simpa using hsizes
    rw [hnil]
    exact ⟨rfl, fun col hcol => absurd hcol (List.not_mem_nil)⟩
  | cons col cols ih =>
    cases parts with
    | nil => simp at hsizes
    | cons part parts =>
      rw [List.map_cons, List.nodup_cons] at hnodup
      simp only [List.map_cons, List.cons.injEq] at hsizes
      obtain ⟨hcolumns, hinside⟩ := ih hnodup.2 hsizes.2
      have hskip : ∀ c ∈ cols, lay (col :: cols) (part :: parts) c.rc_devidx = lay cols parts c.rc_devidx :=
        fun c hc => lay_of_ne fun heq => hnodup.1 (heq ▸ List.mem_map_of_mem hc)
      refine ⟨?_, ?_⟩
      · rw [columns_cons]
        congr 1
        · rw [column, lay_self, ← hsizes.1]
          have hmiddle := slice_middle (List.replicate (col.rc_offset + 0x400000) (0 : UInt8)) part []
          rwa [List.append_nil, List.length_replicate] at hmiddle
        · have htail : columns (lay (col :: cols) (part :: parts)) cols = columns (lay cols parts) cols := by
            apply List.map_congr_left
            intro c hc
            rw [column, column, hskip c hc]
          rw [htail, hcolumns]
      · intro c hc
        rcases List.mem_cons.mp hc with rfl | hc
        · rw [lay_self, List.length_append, List.length_replicate, hsizes.1]
        · rw [hskip c hc]
          exact hinside c hc

/-- What is written on a child ends where the last column on it ends. -/
theorem length_lay_lt {cols : List RaidzCol} {parts : List Bytes} {bound : Nat} (hbound : 0 < bound)
    (hsizes : parts.map List.length = cols.map RaidzCol.rc_size)
    (hcols : ∀ col ∈ cols, col.rc_offset + 0x400000 + col.rc_size < bound) (dev : Nat) :
    (lay cols parts dev).length < bound := by
  induction cols generalizing parts with
  | nil => simpa [lay] using hbound
  | cons col cols ih =>
    cases parts with
    | nil => simp at hsizes
    | cons part parts =>
      simp only [List.map_cons, List.cons.injEq] at hsizes
      by_cases hdev : col.rc_devidx = dev
      · rw [lay, if_pos hdev, List.length_append, List.length_replicate, hsizes.1]
        exact hcols col (by simp)
      · rw [lay_of_ne hdev]
        exact ih hsizes.2 fun c hc => hcols c (by simp [hc])

/-- Names for the children: child `i` is called by `i` letters. -/
def child_name (i : Nat) : String := String.ofList (List.replicate i 'd')

def child_names (dcols : Nat) : List String := (List.range dcols).map child_name

/-- Local files, one for each child name, without a translation table. -/
def local_files (img : Nat → Bytes) : FileProxy where
  trans_table := []
  open_path path := .ok (img path.length)

@[simp] theorem length_child_names (dcols : Nat) : (child_names dcols).length = dcols := by
  simp [child_names]

theorem length_child_name_getD {dcols i : Nat} (hi : i < (child_names dcols).length) :
    ((child_names dcols).getD i "").length = i := by
  rw [length_child_names] at hi
  simp [child_names, child_name, hi]

theorem in_memory_serves (dcols : Nat) (img : Nat → Bytes) :
    (BlockProxy.in_memory fun name => img name.length).Serves (child_names dcols) img :=
  BlockProxy.in_memory_serves fun i hi => by rw [length_child_name_getD hi]

/-- A device over local files serves what is in them. -/
theorem local_files_serves {dcols : Nat} {img : Nat → Bytes} (hlength : ∀ i, (img i).length < 2 ^ 63) :
    (local_files img).to_proxy.Serves (child_names dcols) img := by
  apply FileProxy.serves rfl
  · intro i hi
    have hname := length_child_name_getD hi
    simp only [FileProxy.open_part, FileProxy.trans_path, local_files, List.lookup_nil, bind_ok, hname]
  · intro i _
    exact hlength i

end zfs_rescue.zio
