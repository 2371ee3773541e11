import ScratchOs.Boot.DataArea
import ScratchOs.Boot.Directory
import ScratchOs.Boot.Disk
import ScratchOs.Boot.Fat
import ScratchOs.Boot.Geometry
import ScratchOs.Boot.KernelFile
import ScratchOs.Boot.MemoryMap
import ScratchOs.Boot.Packing
import ScratchOs.Boot.ReadFile
import ScratchOs.Boot.Start
import ScratchOs.Data.ByteMemory
import ScratchOs.Data.CString
import ScratchOs.Data.Chain
import ScratchOs.Data.Interleaving
import ScratchOs.Data.Ownership
import ScratchOs.Data.Rounds
import ScratchOs.Data.Terminal
import ScratchOs.Data.Tiling
import ScratchOs.Data.WordBits
import ScratchOs.Data.WordStack
import ScratchOs.Drivers.Clear
import ScratchOs.Drivers.Console
import ScratchOs.Drivers.Decimal
import ScratchOs.Drivers.FloppyController
import ScratchOs.Drivers.Format
import ScratchOs.Drivers.Keyboard
import ScratchOs.Drivers.Masks
import ScratchOs.Drivers.Message
import ScratchOs.Drivers.Pic
import ScratchOs.Drivers.Pit
import ScratchOs.Drivers.Print
import ScratchOs.Drivers.Printf
import ScratchOs.Drivers.Screen
import ScratchOs.Drivers.Timer
import ScratchOs.Heap.Coalesced
import ScratchOs.Heap.Growth
import ScratchOs.Heap.Header
import ScratchOs.Heap.Integrity
import ScratchOs.Heap.Invariant
import ScratchOs.Heap.Kmalloc
import ScratchOs.Heap.Layout
import ScratchOs.Heap.Ledger
import ScratchOs.Heap.Nested
import ScratchOs.Heap.Runs
import ScratchOs.Heap.Simulation
import ScratchOs.Heap.Spec
import ScratchOs.Heap.Window
import ScratchOs.Interrupts.Account
import ScratchOs.Interrupts.Delivery
import ScratchOs.Interrupts.Dispatch
import ScratchOs.Interrupts.Entry
import ScratchOs.Interrupts.Service
import ScratchOs.Interrupts.Ticks
import ScratchOs.Interrupts.Vectors
import ScratchOs.Kernel.Allocator
import ScratchOs.Kernel.Backed
import ScratchOs.Kernel.Booted
import ScratchOs.Kernel.Exclusive
import ScratchOs.Kernel.Failed
import ScratchOs.Kernel.Handout
import ScratchOs.Kernel.Overrun
import ScratchOs.Kernel.Refused
import ScratchOs.Kernel.Release
import ScratchOs.Kernel.Sketch
import ScratchOs.Kernel.Stack
import ScratchOs.Machine.Gate
import ScratchOs.Machine.Mapping
import ScratchOs.Machine.Pic8259
import ScratchOs.Machine.Pit8254
import ScratchOs.Machine.Platform
import ScratchOs.Machine.Record
import ScratchOs.Machine.Tlb
import ScratchOs.Machine.X86
import ScratchOs.Paging.Boot
import ScratchOs.Paging.Cached
import ScratchOs.Paging.Coherent
import ScratchOs.Paging.Interleaved
import ScratchOs.Paging.Map
import ScratchOs.Paging.Owners
import ScratchOs.Paging.Pages
import ScratchOs.Paging.Runs
import ScratchOs.Paging.Speculation
import ScratchOs.Paging.Switch
import ScratchOs.Paging.Tables
import ScratchOs.Paging.Undo
import ScratchOs.Paging.View
import ScratchOs.Paging.Walk
import ScratchOs.Pmm.Bitmap
import ScratchOs.Pmm.Clean
import ScratchOs.Pmm.Init
import ScratchOs.Pmm.Ownership
import ScratchOs.Pmm.Reserved
import ScratchOs.Pmm.Rounding
import ScratchOs.Pmm.Search
import ScratchOs.Pmm.Sequence
import ScratchOs.Utils.Memtools
import ScratchOs.Vmm.Alloc
import ScratchOs.Vmm.FirstFit
import ScratchOs.Vmm.Region
import ScratchOs.Vmm.Runs
import ScratchOs.Vmm.Spec
