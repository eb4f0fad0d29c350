import ZfsRescue.Python

open bytes

namespace zfs_rescue.proxy

/-- The two ways a device reads its children: one range, or a vector of
    (device, offset, count) ranges in one buffer. -/
structure BlockProxy where
  read : String → Nat → Nat → Py Bytes
  readv : List (String × Nat × Nat) → Py Bytes

/-- The proxy delivers the bytes stored on the children: a vector of ranges
    that lie inside their images reads as those ranges one after the other. -/
def BlockProxy.Serves (bp : BlockProxy) (devs : List String) (img : Nat → Bytes) : Prop :=
  ∀ blocks : List (Nat × Nat × Nat),
    (∀ b ∈ blocks, b.1 < devs.length ∧ b.2.1 + b.2.2 ≤ (img b.1).length) →
    bp.readv (blocks.map fun b => (devs.getD b.1 "", b.2.1, b.2.2)) =
      .ok (blocks.flatMap fun b => slice (img b.1) b.2.1 b.2.2)

/-- A proxy over images held in memory. -/
def BlockProxy.in_memory (image : String → Bytes) : BlockProxy where
  read dev_path offset count := .ok (slice (image dev_path) offset count)
  readv blockv := .ok (blockv.flatMap fun b => slice (image b.1) b.2.1 b.2.2)

theorem BlockProxy.in_memory_serves {image : String → Bytes} {devs : List String} {img : Nat → Bytes}
    (h : ∀ i, i < devs.length → image (devs.getD i "") = img i) :
    (BlockProxy.in_memory image).Serves devs img := by
  intro blocks hin
  simp only [BlockProxy.in_memory, List.flatMap_map]
  congr 1
  apply List.flatMap_congr
  intro b hb
  rw [h b.1 (hin b hb).1]

end zfs_rescue.proxy
