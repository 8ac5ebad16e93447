import Hero.Framework.Checked
import Hero.Framework.Progression
import Hero.Framework.Machine
import Hero.Framework.AtomicObject
import Hero.Omp.StaticLoop
import Hero.Omp.ChunkedLoop
import Hero.Omp.AtomicLoad
import Hero.Omp.CompareExchange
import Hero.Omp.DynamicLoop
import Hero.Framework.Sv39
import Hero.Vmm.Basic
import Hero.Vmm.Riscv64
import Hero.Vmm.Arm64
import Hero.Vmm.Mapping
import Hero.Vmm.RecentPages
import Hero.Vmm.Unmapping
import Hero.Driver.Mbox.Frames
import Hero.Framework.RingBuffer
import Hero.Driver.Mbox.Mailbox
import Hero.Driver.Mbox.Integrity
import Hero.Driver.Mem
import Hero.Driver.Mmap
import Hero.Driver.RunControl
import Hero.Driver.Rab.StripeTable
import Hero.Driver.Rab.State
import Hero.Framework.Program
import Hero.Driver.Rab.Slice
import Hero.Driver.Rab.Operations
import Hero.Driver.Rab.Coherence
import Hero.Driver.Rab.Rules
import Hero.Driver.Rab.StripedRequest
import Hero.Driver.Rab.Failure
import Hero.Driver.Rab.MultiBuffer
import Hero.Driver.Rab.Offload
import Hero.Driver.Rab.TaskDates
import Hero.Driver.Rab.MissReplacement
import Hero.Driver.Rab.DefaultMappings
import Hero.Driver.Rab.Initialisation
import Hero.Driver.Rab.Release
import Hero.Libpulp.MailboxRead
import Hero.Libpulp.O1Heap
import Hero.Driver.Rab.SecondLevel
import Hero.Driver.Rab.RegisterFormat
import Hero.Driver.RunControl
import Hero.Framework.Arena
import Hero.Libpulp.L3Memory
import Hero.Omp.ParallelRegion
import Hero.Omp.WorkSharing
import Hero.Omp.ForkCall
import Hero.Framework.Writes
import Hero.Libpulp.Offload
import Hero.Libpulp.RoundTrip
import Hero.Driver.Rab.PageLists
import Hero.Driver.Rab.PagePins
import Hero.Driver.Rab.MissMode
import Hero.Driver.Rab.SocMissHandler
import Hero.Framework.TwoRuns
import Hero.Driver.Rab.Uninitialised
import Hero.Driver.Rab.UninitialisedMode
import Hero.Driver.Rab.SelectiveRelease
import Hero.Driver.Rab.WakeUps
import Hero.Soc.Bus
import Hero.Soc.L2Mem
import Hero.Target.PerfCounters
import Hero.Libgomp.DynamicLoop
import Hero.Libgomp.TeamRuns
import Hero.Libgomp.WorkShareRuns
import Hero.Framework.FreeList
import Hero.Framework.Shares
import Hero.Runtime.AlignedAlloc
import Hero.Runtime.ExternAlloc
import Hero.Runtime.Alloc
import Hero.Runtime.AllocRuns
import Hero.Runtime.Malloc
import Hero.Framework.DoubleBuffer
import Hero.Runtime.ClusterCall
import Hero.Framework.Wrap
import Hero.Omp.WideLoop
import Hero.Omp.WideDispatch
import Hero.Framework.Expansion
import Hero.Toolchain.Execution
import Hero.Toolchain.HostPointerLegalizer
import Hero.Toolchain.LegalizerMeaning
import Hero.Toolchain.LoopExpansion
import Hero.Toolchain.LegalizerComplete
import Hero.Apps.PhysMem
import Hero.Driver.Mbox.ReadBytes
import Hero.Driver.Segmentation
import Hero.Driver.SegmentArrays
import Hero.Driver.Dma
import Hero.Libpulp.Stripes
import Hero.Framework.FixedSwaps
import Hero.Libpulp.Merging
import Hero.Driver.Smmu
import Hero.Vmm.PageRanges
import Hero.Vmm.MissService
import Hero.Vmm.Arm
import Hero.Target.Dma
import Hero.Framework.LinkedList
import Hero.Runtime.EventQueue
import Hero.Runtime.FcLock
import Hero.Framework.WrappingClock
import Hero.Runtime.DelayedEvents
import Hero.Driver.RequestCodec
import Hero.Runtime.Tasks
import Hero.Runtime.TeamBarrier
import Hero.Apps.PhysMemTransfer
