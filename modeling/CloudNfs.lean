import CloudNfs.Run
import CloudNfs.RwLock
import CloudNfs.ByteRange
import CloudNfs.NlmList
import CloudNfs.NlmExclusion
import CloudNfs.NlmServer
import CloudNfs.NlmRefCount
import CloudNfs.NlmGrant
import CloudNfs.Nfs4State
import CloudNfs.Nfs4Open
import CloudNfs.ShareReservation
import CloudNfs.ShareRecord
import CloudNfs.Nfs4Lock
import CloudNfs.LockExclusion
import CloudNfs.LockBytes
import CloudNfs.LockHeld
import CloudNfs.RedBlack
import CloudNfs.Rbt
import CloudNfs.RbtLinks
import CloudNfs.RbtWalk
import CloudNfs.RbtInsert
import CloudNfs.RbtUnlink
import CloudNfs.HashTable
import CloudNfs.HashBucket
import CloudNfs.HashRefines
import CloudNfs.HashCount
import CloudNfs.StateAtomic
import CloudNfs.StateidUnique
import CloudNfs.DoublyLinked
import CloudNfs.Prealloc
import CloudNfs.StateList
import CloudNfs.Nfs41Session
import CloudNfs.Dupreq
import CloudNfs.RpcExecute
import CloudNfs.ClientId
import CloudNfs.SetClientid
import CloudNfs.ClientTables
import CloudNfs.CreateSession
import CloudNfs.BuddyBlocks
import CloudNfs.BuddyMalloc
import CloudNfs.BuddyDeferred
import CloudNfs.BuddyDestroy
import CloudNfs.BuddyRoom
import CloudNfs.BuddyStats
import CloudNfs.BuddyTally
import CloudNfs.BuddyHeap
import CloudNfs.BuddySafe
import CloudNfs.BuddySize
import CloudNfs.BuddyOwned
import CloudNfs.BuddyUse
import CloudNfs.Bytes
import CloudNfs.FileHandle
import CloudNfs.ByteFile
import CloudNfs.UnstableWrite
import CloudNfs.FdCache
import CloudNfs.FirstMatch
import CloudNfs.ExportAccess
import CloudNfs.DirChain
import CloudNfs.DirEnumerate
import CloudNfs.BackLinks
import CloudNfs.DirSlots
import CloudNfs.Listed
import CloudNfs.DirNames
import CloudNfs.InodeCache
import CloudNfs.InodeEntries
import CloudNfs.InodeLinks
import CloudNfs.DirComplete
import CloudNfs.Namespace
import CloudNfs.NamespacePath
import CloudNfs.Semaphore
import CloudNfs.IdMapper
import CloudNfs.ReadBack
import CloudNfs.DataCache
import CloudNfs.SyncOk
import CloudNfs.HexText
import CloudNfs.EmergencyFlush
import CloudNfs.HandleMap
import CloudNfs.DecimalText
import CloudNfs.Intervals
import CloudNfs.NodeList
import CloudNfs.NodeTokens
import CloudNfs.NodeGroups
import CloudNfs.NodeNames
import CloudNfs.CacheGc
import CloudNfs.NlmUnlock
import CloudNfs.NlmRequester
import CloudNfs.ExportReload
import CloudNfs.Lru
import CloudNfs.Places
import CloudNfs.RequestRecords
import CloudNfs.MfslAsync
import CloudNfs.AsyncOrder
import CloudNfs.CloseFile
import CloudNfs.Compound
import CloudNfs.CompoundDispatch
import CloudNfs.CompoundExport
import CloudNfs.CompoundReply
import CloudNfs.Nfs4Io
import CloudNfs.Nfs23Modify
import CloudNfs.Nfs4Modify
import CloudNfs.ReadOnly
import CloudNfs.RootedTree
import CloudNfs.GhostDir
import CloudNfs.GhostFs
import CloudNfs.DotTree
import CloudNfs.GhostTree
import CloudNfs.EarlyReturn
import CloudNfs.OpenFile
import CloudNfs.OpenParts
import CloudNfs.OpenSafe
import CloudNfs.OpenUndo
import CloudNfs.OpenExclusive
import CloudNfs.RbtEnds
import CloudNfs.RbtRun
import CloudNfs.CurrentXid
import CloudNfs.WaterMarks
import CloudNfs.LruPointers
import CloudNfs.RenameAnswer
import CloudNfs.InodeSlots
import CloudNfs.AttrBitmap
import CloudNfs.NamespaceRename
import CloudNfs.PseudoFs
import CloudNfs.PseudoOps
import CloudNfs.PseudoReaddir
import CloudNfs.Lockt
import CloudNfs.FattrDecode
import CloudNfs.DirRead
import CloudNfs.ReaddirPlus
import CloudNfs.ReaddirCalls
import CloudNfs.ReaddirRun
import CloudNfs.FattrEncode
import CloudNfs.FattrCmp
import CloudNfs.AsyncWindow
import CloudNfs.SnoopLog
import CloudNfs.RpcAnswer
import CloudNfs.RpcGetreq
import CloudNfs.FsalContext
import CloudNfs.ContentEntry
import CloudNfs.RangeList
import CloudNfs.CacheDirIter
import CloudNfs.ExportClients
import CloudNfs.IoLimits
import CloudNfs.ReadNumber
import CloudNfs.HexDump
import CloudNfs.AppendString
import CloudNfs.IpStats
import CloudNfs.CircularList
import CloudNfs.NlmAsync
import CloudNfs.GhostRename
import CloudNfs.AccessRights
