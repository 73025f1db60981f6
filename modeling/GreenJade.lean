import GreenJade.Base
import GreenJade.Lib.LinkedChain
import GreenJade.Lib.ParentWalk
import GreenJade.Lib.TableCount
import GreenJade.Lib.Interleave
import GreenJade.Lib.ByteCopy
import GreenJade.Lib.RangeTable
import GreenJade.Lib.StepRuns
import GreenJade.Lib.References
import GreenJade.Lib.RingBuffer
import GreenJade.Cap.Types
import GreenJade.Cap.Quota
import GreenJade.Cap.QuotaHierarchy
import GreenJade.Cap.Cdt
import GreenJade.Cap.State
import GreenJade.Cap.Cnode
import GreenJade.Cap.Derive
import GreenJade.Cap.Revoke
import GreenJade.Cap.Calls
import GreenJade.Cap.SelfTest
import GreenJade.Cap.Effect
import GreenJade.Cap.Decompose
import GreenJade.Cap.Separation
import GreenJade.Cap.Run
import GreenJade.Cap.Accounting
import GreenJade.Cap.EdgePool
import GreenJade.Cap.QuotaOccupancy
import GreenJade.Cap.Derivation
import GreenJade.Cap.RevokeQueue
import GreenJade.Cap.StaleHandle
import GreenJade.Cap.Steps
import GreenJade.Cap.FailClosed
import GreenJade.Cap.SlotWrites
import GreenJade.Cap.AllOrNothing
import GreenJade.Mm.UserCopy
import GreenJade.Mm.UserCopyExact
import GreenJade.Proc.ElfLoad
import GreenJade.Proc.ElfConfined
import GreenJade.Proc.Spawn
import GreenJade.Proc.TaskHandle
import GreenJade.Proc.Reap
import GreenJade.Proc.ProcessCapBooks
import GreenJade.Fs.FileLock
import GreenJade.Fs.LockTable
import GreenJade.Fs.LockBytes
import GreenJade.Fs.LockCalls
import GreenJade.Fs.LockRuns
import GreenJade.Fs.LockWake
import GreenJade.Fs.LockWaiters
import GreenJade.Fs.RamVfs
import GreenJade.Fs.RamPaths
import GreenJade.Fs.RamObjects
import GreenJade.Fs.RamNames
import GreenJade.Fs.RamIo
import GreenJade.Fs.ObjectLife
import GreenJade.Fs.RamRuns
import GreenJade.Fs.DescriptorIo
import GreenJade.Fs.FileBytes
import GreenJade.Fs.HeldFiles
import GreenJade.Fs.PipeStreams
import GreenJade.Fs.PathForms
import GreenJade.Fs.OneName
import GreenJade.Fs.Subtrees
import GreenJade.Sync.Futex
import GreenJade.Sync.FutexSlots
import GreenJade.Sync.FutexCancel
import GreenJade.Sync.FutexRuns
import GreenJade.Mm.PageTables
import GreenJade.Mm.AddressSpaces
import GreenJade.Mm.TableLayout
import GreenJade.Mm.TableWalk
import GreenJade.Mm.TableLookup
import GreenJade.Mm.SpaceRuns
import GreenJade.Mm.PageCalls
import GreenJade.Mm.PageLoops
import GreenJade.Mm.Confined
import GreenJade.Mm.Teardown
import GreenJade.Net.TcpTable
import GreenJade.Net.TcpTx
import GreenJade.Net.TcpQueue
import GreenJade.Net.TcpCalls
import GreenJade.Net.TcpInput
import GreenJade.Net.TcpPoll
import GreenJade.Net.TcpMoves
import GreenJade.Net.TcpFrames
import GreenJade.Net.TcpCallMoves
import GreenJade.Net.TcpInputMoves
import GreenJade.Net.TcpRefine
import GreenJade.Net.TcpRings
import GreenJade.Net.LoopPairs
import GreenJade.Net.HeldSockets
import GreenJade.Ipc.NotifyBadges
import GreenJade.Ipc.NotifyWakes
import GreenJade.Syscall.TwoTables
import GreenJade.Syscall.RingLife
import GreenJade.Sshd.Packets
import GreenJade.Lib.FutexThreads
import GreenJade.Libc.CondVar
import GreenJade.Libc.Mutex
import GreenJade.Proc.ElfProbe
import GreenJade.Fs.LockNormal
