import ZfsRescue.Dnode

open bytes
open zfs_rescue.blockptr zfs_rescue.zio zfs_rescue.dnode

namespace zfs_rescue.zap

/-- What one block adds to the data of a ZAP: nothing when it is missing or its
    checksum is wrong. -/
def zap_block (vdev : GenericDevice) (bptr : BlockPtr) : Py Bytes := do
  let r ← vdev.read_block bptr 0
  .ok (if r.2 then r.1.getD [] else [])

/-- The data that `_blockptrar_zap_factory` parses. -/
def blockptrar_data (vdev : GenericDevice) (bpa : List BlockPtr) (nblocks : Nat) : Py Bytes := do
  let blocks ← (List.range nblocks).mapM fun i => do
    let bptr ← index bpa i
    zap_block vdev bptr
  .ok blocks.flatten

/-- The data behind an indirect block, if that was loaded. -/
def indirect_blocks (vdev : GenericDevice) (nblocks : Nat) : Option Bytes → Py (Option Bytes)
  | none => .ok none
  | some data => do
    let blocks ← blockptrar_data vdev (BlockPtrArray data) nblocks
    .ok (some blocks)

/-- The data that `_indirect_zap_factory` goes on with. -/
def indirect_data (vdev : GenericDevice) (bptr : BlockPtr) (nblocks : Nat) : Py (Option Bytes) := do
  let r ← vdev.read_block bptr 0
  indirect_blocks vdev nblocks r.1

/-- The data of a ZAP, which `zap_factory` collects before it is parsed. -/
def zap_data (vdev : GenericDevice) (dnode : DNode) : Py (Option Bytes) := do
  let bptr ← dnode.blkptrs 0
  if dnode.nlevels = 1 then do
    let blocks ← blockptrar_data vdev (BlockPtrArray (slice dnode.data BLKPTR_OFFSET (dnode.nblkptr * 128)))
      dnode.nblkptr
    .ok (some blocks)
  else if dnode.nlevels = 2 then indirect_data vdev bptr (dnode.maxblkid + 1)
  else .error .NotImplementedError

end zfs_rescue.zap
