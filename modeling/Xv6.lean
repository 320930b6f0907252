import Xv6.LabelledRuns
import Xv6.CStrings
import Xv6.SocketTable
import Xv6.SocketCalls
import Xv6.SocketEffects
import Xv6.SocketTableInvariant
import Xv6.SocketConsistency
import Xv6.SocketRendezvous
import Xv6.SocketLog
import Xv6.SocketPeerSymmetry
import Xv6.SocketSend
import Xv6.SocketRecv
import Xv6.SocketSleepers
import Xv6.ByteMemory
import Xv6.SystemCallArguments
import Xv6.SocketPayload
import Xv6.SocketBufferBounds
import Xv6.SocketErrors
import Xv6.SocketPorts
import Xv6.ProcessLifecycle
import Xv6.LockMachine
import Xv6.KernelRoutines
import Xv6.KernelLockOrder
import Xv6.DiskBlock
import Xv6.FileSystemLog
import Xv6.LogRecovery
import Xv6.LogCrashAtomicity
import Xv6.LogReservation
import Xv6.OwnershipTable
import Xv6.FileSystem
import Xv6.BlockOwnership
import Xv6.InodeContents
import Xv6.FileSystemInvariant
import Xv6.FreeBlocks
import Xv6.OpenFiles
import Xv6.FallibleCode
import Xv6.DirectoryCalls
import Xv6.DirectoryTree
import Xv6.InodeReferences
import Xv6.DirectoryUpdates
import Xv6.LinkCounts
import Xv6.TracedCode
import Xv6.UserAccess
import Xv6.UserPointers
import Xv6.ProcessTable
import Xv6.ProcessTableInvariant
import Xv6.KilledSlots
import Xv6.ChildReaping
import Xv6.TableSums
import Xv6.CircularLists
import Xv6.BufferCache
import Xv6.BufferCacheInvariant
import Xv6.BufferCacheTransparency
import Xv6.MkfsImage
import Xv6.MkfsKernelView
import Xv6.MkfsContents
import Xv6.DirectoryLookup
import Xv6.MkfsWellFormed
import Xv6.RingBuffers
import Xv6.BlockingCalls
import Xv6.PipeCalls
import Xv6.PipeQueue
import Xv6.PipeWakeups
import Xv6.ConsoleInput
import Xv6.ConsoleLines
import Xv6.AnsweredCode
import Xv6.FileTable
import Xv6.FileReferences
import Xv6.ExactReferences
import Xv6.RingLists
import Xv6.UserAllocator
import Xv6.UserAllocatorSizes
import Xv6.UserAllocatorInvariant
import Xv6.UserAllocatorHeap
import Xv6.ShellGrammar
import Xv6.ShellParser
import Xv6.ShellLexer
import Xv6.ShellParsing
import Xv6.ShellCommands
import Xv6.StoppableCode
import Xv6.VirtualMemory
import Xv6.AddressSpaces
import Xv6.PageTableWalks
import Xv6.UserPages
import Xv6.ProcessSizes
import Xv6.KernelMappings
import Xv6.AddressSpaceCopies
import Xv6.CopyOut
import Xv6.ProgramLoading
import Xv6.ExecArguments
import Xv6.SeparatedLists
import Xv6.GrepMatching
import Xv6.GrepLines
import Xv6.ShellWords
import Xv6.WriteTransactions
import Xv6.PathComponents
import Xv6.DirectoryRecords
import Xv6.DirectoryMaps
import Xv6.FullDirectories
import Xv6.ForkedMemory
