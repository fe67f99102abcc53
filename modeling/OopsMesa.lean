import OopsMesa.Lib.Reach
import OopsMesa.Lib.Span
import OopsMesa.Lib.Table
import OopsMesa.Lib.Loop
import OopsMesa.Winsys.State
import OopsMesa.Winsys.Buffers
import OopsMesa.Winsys.Retention
import OopsMesa.Winsys.MapTruth
import OopsMesa.Winsys.Standing
import OopsMesa.Winsys.Survival
import OopsMesa.Lib.Custody
import OopsMesa.Winsys.Ownership
import OopsMesa.Lib.Account
import OopsMesa.Winsys.Coverage
import OopsMesa.Winsys.Reclaim
import OopsMesa.Winsys.Contents
import OopsMesa.Lib.Interact
import OopsMesa.Lib.Walk
import OopsMesa.Submit.Pm4
import OopsMesa.Submit.Calls
import OopsMesa.Submit.Chain
import OopsMesa.Lib.Splice
import OopsMesa.Submit.Flatten
import OopsMesa.Submit.Cs
import OopsMesa.Lib.InOrder
import OopsMesa.Submit.Gpu
import OopsMesa.Submit.Retired
import OopsMesa.Submit.Idle
import OopsMesa.Submit.Ready
import OopsMesa.Submit.Parts
import OopsMesa.Winsys.CpuMaps
import OopsMesa.Submit.Flush
import OopsMesa.Submit.Sequence
import OopsMesa.Lib.Threads
import OopsMesa.Runtime.Guard
import OopsMesa.Runtime.Once
import OopsMesa.Lib.Heap
import OopsMesa.Runtime.Tls
import OopsMesa.Runtime.TlsArrays
import OopsMesa.Runtime.TlsRuns
import OopsMesa.Lib.Lines
import OopsMesa.Runtime.Stdio
import OopsMesa.Runtime.Captured
import OopsMesa.Platform.Present
import OopsMesa.Lib.Slots
import OopsMesa.Platform.Frontend
import OopsMesa.Winsys.Handles
import OopsMesa.Winsys.HandleMaps
import OopsMesa.Lib.Evict
import OopsMesa.Winsys.Budget
import OopsMesa.Winsys.Accounts
import OopsMesa.Winsys.Evicted
import OopsMesa.Lib.Calendar
import OopsMesa.Lib.Keyed
import OopsMesa.Lib.TrialDivision
import OopsMesa.Lib.Trunc
import OopsMesa.Lib.Words
import OopsMesa.Runtime.Environ
import OopsMesa.Runtime.LocalTime
import OopsMesa.Runtime.NextPrime
import OopsMesa.Runtime.Timed
import OopsMesa.Runtime.TlsGrowth
import OopsMesa.Submit.Search
import OopsMesa.Submit.Marks
import OopsMesa.Winsys.Pointers
import OopsMesa.Winsys.Sizes
import OopsMesa.Lib.Lifo
import OopsMesa.Platform.Lifetime
import OopsMesa.Platform.Tiling
import OopsMesa.Runtime.FileWrites
import OopsMesa.Runtime.SystemLog
import OopsMesa.Winsys.Device
import OopsMesa.Submit.History
import OopsMesa.Winsys.Ledger
import OopsMesa.Winsys.Footprint
import OopsMesa.Lib.Hex
import OopsMesa.Platform.Gfx
import OopsMesa.Winsys.Alias
import OopsMesa.Submit.Dump
import OopsMesa.Submit.Order
import OopsMesa.Winsys.Tokens
import OopsMesa.Lib.Path
import OopsMesa.Runtime.WorkingDirectory
import OopsMesa.Lib.Bits
import OopsMesa.Lib.Memory
import OopsMesa.Lib.Swap
import OopsMesa.Platform.Mirror
import OopsMesa.Runtime.Strings
import OopsMesa.Winsys.Info
import OopsMesa.Winsys.Ioctl
import OopsMesa.Lib.Stores
import OopsMesa.Runtime.Directories
import OopsMesa.Submit.MarkText
import OopsMesa.Submit.Report
import OopsMesa.Lib.XorMul
import OopsMesa.Runtime.HashMemory
import OopsMesa.Winsys.Collisions
