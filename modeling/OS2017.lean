import OS2017.Lib.Run
import OS2017.Lib.Intrusive
import OS2017.Lib.Bytes
import OS2017.Lib.BitField
import OS2017.Lib.Bitmap
import OS2017.Lib.FirstFit
import OS2017.Lib.PagePool
import OS2017.Lib.Permit
import OS2017.Lib.Allocator
import OS2017.Lib.Dealing
import OS2017.Lib.Guarded
import OS2017.Lib.Ledger
import OS2017.Lib.Relocation
import OS2017.Lib.Records
import OS2017.Lib.Splice
import OS2017.Lib.Feedback
import OS2017.Lib.FileStore
import OS2017.Mutex
import OS2017.MutexHolders
import OS2017.MutexList
import OS2017.Sched.Model
import OS2017.Sched.Layout
import OS2017.Sched.Queues
import OS2017.Sched.Maintenance
import OS2017.Sched.Moves
import OS2017.Sched.Steps
import OS2017.Sched.Events
import OS2017.Sched.Joins
import OS2017.Sched.Conservation
import OS2017.Sched.Values
import OS2017.Sched.Frayed
import OS2017.Sched.Rounds
import OS2017.Sched.Handles
import OS2017.Sched.Stale
import OS2017.Sched.Returns
import OS2017.Sched.Wakes
import OS2017.Sched.Redistribution
import OS2017.Sched.Registry
import OS2017.Sched.Refinement
import OS2017.Sched.Fairness
import OS2017.Sched.Starvation
import OS2017.Heap.Block
import OS2017.Heap.Chain
import OS2017.Heap.Library
import OS2017.Heap.BadFrees
import OS2017.Heap.Guarded
import OS2017.MallocStuff.Model
import OS2017.MallocStuff.Linked
import OS2017.MallocStuff.Runs
import OS2017.Paging.Model
import OS2017.Paging.Tables
import OS2017.Paging.Faults
import OS2017.Paging.Room
import OS2017.Paging.Calls
import OS2017.Paging.Labels
import OS2017.Paging.Views
import OS2017.Paging.Growth
import OS2017.Paging.Moving
import OS2017.Paging.Home
import OS2017.Paging.Allocate
import OS2017.Paging.HomeHeap
import OS2017.Paging.Sizes
import OS2017.Paging.Tiling
import OS2017.Paging.Refusals
import OS2017.Paging.Gathering
import OS2017.Paging.Indices
import OS2017.Paging.Pool
import OS2017.Paging.Private
import OS2017.Paging.Trespass
import OS2017.Paging.Space
import OS2017.Paging.Freeing
import OS2017.Paging.Pointers
import OS2017.Paging.Guards
import OS2017.Paging.Timer
import OS2017.Paging.Creates
import OS2017.Paging.Ids
import OS2017.Sched.Creation
import OS2017.Sched.Deadlock
import OS2017.Paging.Align
import OS2017.Paging.Acts
import OS2017.Paging.Resolves
import OS2017.Paging.Exits
import OS2017.Paging.OpenFrames
import OS2017.Paging.Copies
import OS2017.Paging.Walks
import OS2017.Paging.Targets
import OS2017.Paging.Pauses
import OS2017.Paging.Allocators
import OS2017.Kernel
import OS2017.Files.Disk
import OS2017.Files.Calls
import OS2017.Files.Records
import OS2017.Files.Metadata
import OS2017.Files.Independence
import OS2017.Files.Init
import OS2017.Files.Steps
import OS2017.Files.Names
import OS2017.Files.Accounting
import OS2017.Files.Contents
import OS2017.Files.Splicing
import OS2017.Files.Leftovers
import OS2017.Files.Gaps
import OS2017.Files.Failures
import OS2017.Files.Releases
import OS2017.Files.Limits
import OS2017.Files.Attributes
import OS2017.Files.Volume
import OS2017.Files.Cuts
