import ZfsRescue.Bytes.Zero
import ZfsRescue.Bytes.Words
import ZfsRescue.Bytes.Xor
import ZfsRescue.Lz4.Format
import ZfsRescue.Blockptr
import ZfsRescue.Lzjb
import ZfsRescue.Lz4zfs
import ZfsRescue.Zio.Embedded
import ZfsRescue.Zio.ReadBack
import ZfsRescue.Blocktree.Addressing
import ZfsRescue.Copies
import ZfsRescue.Dataset.Healthy
import ZfsRescue.Proxy.ReadNetwork
import ZfsRescue.Zio.Reconstruct
import ZfsRescue.Lz4zfs.Complete
import ZfsRescue.Blockptr.Accessors
import ZfsRescue.Objectset.LargeDnode
import ZfsRescue.Zap.Names
import ZfsRescue.Sa.Tables
import ZfsRescue.Nvpair.Decodes
import ZfsRescue.Proxy.InReach
import ZfsRescue.Proxy.ReadvFiles
import ZfsRescue.Proxy.Closed
import ZfsRescue.Objectset.Lookups
import ZfsRescue.Label.Ring
import ZfsRescue.Extractor.RaidzMap
import ZfsRescue.Dnode.SysAttr
import ZfsRescue.Dnode.Classified
import ZfsRescue.Fileobj.Agrees
import ZfsRescue.Fileobj.Stored
import ZfsRescue.Fileobj.Position
import ZfsRescue.Walk.Acyclic
import ZfsRescue.Walk.Without
import ZfsRescue.Dataset.Traversal
import ZfsRescue.Dataset.Cycles
import ZfsRescue.Dataset.Damage
import ZfsRescue.Dataset.Symlink
import ZfsRescue.Fuse.Paging
import ZfsRescue.Fuse.Handles
import ZfsRescue.Zio.Tiles
import ZfsRescue.Zio.Slack
import ZfsRescue.Blockptr.Fletcher
import ZfsRescue.Objectset.Broken
import ZfsRescue.Extractor.Raidz1Device
