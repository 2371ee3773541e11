import ScratchOs.Heap.Simulation
import ScratchOs.Kernel.Backed

namespace ScratchOs

open Data

/-! Runs of the heap on the paged machine, worked out call by call.

Such a run touches a few bytes of the window only. A sketch is a platform that
knows these bytes and nothing else: calls are run on the sketch, and the machine
gives the same answers. -/

abbrev Known := Word → Option Byte

/-- `fold` takes all addresses that share a byte to one of them, and is open
outside the window. -/
def sketch (fold : Word → Option Word) (frames : Bool) : Platform Known where
  load8 address known := fold address >>= known
  load32 address known := do
    let byte0 ← fold address >>= known
    let byte1 ← fold (address + 1) >>= known
    let byte2 ← fold (address + 2) >>= known
    let byte3 ← fold (address + 3) >>= known
    some (joinBytes byte0 byte1 byte2 byte3)
  store8 address value known := (fold address).map fun spot => Function.update known spot (some value)
  store32 address value known := do
    let spot0 ← fold address
    let spot1 ← fold (address + 1)
    let spot2 ← fold (address + 2)
    let spot3 ← fold (address + 3)
    some (Function.update (Function.update (Function.update (Function.update known spot0 (some (byteOf value 0)))
      spot1 (some (byteOf value 1))) spot2 (some (byteOf value 2))) spot3 (some (byteOf value 3)))
  allocBlock known := (if frames then 0x1000 else 0, known)
  freeBlock _ known := known
  mapAddress virtualAddr _ _ known := (fold virtualAddr).map fun _ => (true, known)

/-- The calls on a new heap. -/
def sketchRun (fold : Word → Option Word) (frames : Bool) (requests : List Heap.Request) :
    Option (Heap Known × List Heap.Live) := do
  let heap ← Heap.initializeKernelHeap (sketch fold frames) fun _ => none
  Heap.serveAll (sketch fold frames) requests (heap, [])

/-- What clients hold, the globals, and `next` and `size` of some blocks. -/
structure Outline where
  live : List Heap.Live
  gMemoryBase : Word
  endOfHeap : Word
  headers : List (Option Word × Option Word)
deriving DecidableEq

def outline (fold : Word → Option Word) (frames : Bool) (blocks : List Word) (result : Heap Known × List Heap.Live) :
    Outline where
  live := result.2
  gMemoryBase := result.1.gMemoryBase
  endOfHeap := result.1.endOfHeap
  headers := blocks.map fun block =>
    (Heap.loadNext (sketch fold frames) block result.1.world, Heap.loadSize (sketch fold frames) block result.1.world)

theorem sketch_mapInitialPages {fold : Word → Option Word} {frames : Bool} {known : Known} {count : Nat}
    {virtualAddr : Word} (inside : ∀ index < count, (fold (runAddress virtualAddr pageSize index)).isSome = true) :
    Heap.mapInitialPages (sketch fold frames) count virtualAddr known = some (true, known) := by
  induction count generalizing virtualAddr with
  | zero => rfl
  | succ count ih =>
      have here := inside 0 (Nat.succ_pos _)
      rw [runAddress_zero] at here
      obtain ⟨spot, folded⟩ := Option.isSome_iff_exists.mp here
      refine @Heap.mapInitialPages_succ _ _ _ _ _ known _ ?_ (ih fun index below => ?_)
      · simp only [sketch, folded, Option.map_some]
      · rw [← runAddress_succ]
        exact inside (index + 1) (Nat.succ_lt_succ below)

namespace Machine

variable {machine : Machine} {fold : Word → Option Word} {frames : Bool} {place : Word → Word} {holds : Machine → Prop}
  {known : Known} {address spot : Word}

/-- Machines with the pages of a sketch: every byte of it has a place of its own.
With frames the loop of `ksbrk` runs through, without them it stops at once. -/
structure Sketched (fold : Word → Option Word) (frames : Bool) (place : Word → Word) (holds : Machine → Prop) :
    Prop where
  translate : ∀ {machine address spot}, holds machine → fold address = some spot →
    machine.translate address = some (place spot)
  injective : ∀ {left right spot other}, fold left = some spot → fold right = some other →
    place spot = place other → spot = other
  write : ∀ {machine address spot} value, holds machine → fold address = some spot →
    holds { machine with memory := machine.memory.write8 (place spot) value }
  granted : ∀ {machine address spot}, frames = true → holds machine → fold address = some spot →
    Heap.mapHeapBytes platform 1 address machine = some (true, machine)
  exhausted : ∀ {machine}, frames = false → holds machine → ¬ machine.FrameFree

/-- What is known is what the machine has in its place. -/
structure Agrees (fold : Word → Option Word) (place : Word → Word) (holds : Machine → Prop) (known : Known)
    (machine : Machine) : Prop where
  holds : holds machine
  bytes : ∀ {address spot value}, fold address = some spot → known spot = some value →
    machine.memory (place spot) = value

namespace Sketched

theorem load8 (sketched : Sketched fold frames place holds) (address : Word)
    (agrees : Agrees fold place holds known machine) :
    Forward Eq (fold address >>= known) (Machine.load8 address machine) := by
  intro value run
  obtain ⟨spot, folded, reads⟩ := Option.bind_eq_some_iff.mp run
  refine ⟨value, ?_, rfl⟩
  rw [Machine.load8, sketched.translate agrees.holds folded, Option.map_some, agrees.bytes folded reads]

theorem load32 (sketched : Sketched fold frames place holds) (address : Word)
    (agrees : Agrees fold place holds known machine) :
    Forward Eq ((sketch fold frames).load32 address known) (Machine.load32 address machine) := by
  refine (sketched.load8 address agrees).read fun byte0 => ?_
  refine (sketched.load8 (address + 1) agrees).read fun byte1 => ?_
  refine (sketched.load8 (address + 2) agrees).read fun byte2 => ?_
  refine (sketched.load8 (address + 3) agrees).read fun byte3 => ?_
  exact .pure rfl

theorem write_agrees (sketched : Sketched fold frames place holds) (agrees : Agrees fold place holds known machine)
    (folded : fold address = some spot) (value : Byte) :
    Agrees fold place holds (Function.update known spot (some value))
      { machine with memory := machine.memory.write8 (place spot) value } := by
  refine ⟨sketched.write value agrees.holds folded, fun {other otherSpot content} otherFolded reads => ?_⟩
  by_cases same : otherSpot = spot
  · subst same
    rw [Function.update_self] at reads
    cases reads
    exact ByteMemory.write8_self ..
  · rw [Function.update_of_ne same] at reads
    have apart : place otherSpot ≠ place spot := fun equal => same (sketched.injective otherFolded folded equal)
    exact (ByteMemory.write8_of_ne apart).trans (agrees.bytes otherFolded reads)

theorem store8 (sketched : Sketched fold frames place holds) (address : Word) (value : Byte)
    (agrees : Agrees fold place holds known machine) :
    Forward (Agrees fold place holds) ((sketch fold frames).store8 address value known)
      (Machine.store8 address value machine) := by
  intro after run
  obtain ⟨spot, folded, rfl⟩ := Option.map_eq_some_iff.mp run
  refine ⟨_, ?_, sketched.write_agrees agrees folded value⟩
  rw [Machine.store8, sketched.translate agrees.holds folded, Option.map_some]

theorem store32 (sketched : Sketched fold frames place holds) (address value : Word)
    (agrees : Agrees fold place holds known machine) :
    Forward (Agrees fold place holds) ((sketch fold frames).store32 address value known)
      (Machine.store32 address value machine) := by
  intro after run
  obtain ⟨spot0, folded0, run⟩ := Option.bind_eq_some_iff.mp run
  obtain ⟨spot1, folded1, run⟩ := Option.bind_eq_some_iff.mp run
  obtain ⟨spot2, folded2, run⟩ := Option.bind_eq_some_iff.mp run
  obtain ⟨spot3, folded3, run⟩ := Option.bind_eq_some_iff.mp run
  cases run
  have agrees0 := sketched.write_agrees agrees folded0 (byteOf value 0)
  have agrees1 := sketched.write_agrees agrees0 folded1 (byteOf value 1)
  have agrees2 := sketched.write_agrees agrees1 folded2 (byteOf value 2)
  refine ⟨_, ?_, sketched.write_agrees agrees2 folded3 (byteOf value 3)⟩
  have translate := fun {address spot} => @translate _ _ _ _ sketched machine address spot agrees.holds
  rw [Machine.store32, translate folded0, translate folded1, translate folded2, translate folded3]
  rfl

theorem mapHeapBytes (sketched : Sketched fold frames place holds) (count : Nat) (virtualAddr : Word)
    (agrees : Agrees fold place holds known machine) :
    Forward (fun result answer => result.1 = answer.1 ∧ Agrees fold place holds result.2 answer.2)
      (Heap.mapHeapBytes (sketch fold frames) count virtualAddr known)
      (Heap.mapHeapBytes platform count virtualAddr machine) := by
  induction count generalizing virtualAddr with
  | zero => exact .pure ⟨rfl, agrees⟩
  | succ count ih =>
      intro result run
      cases some : frames with
      | true =>
          subst some
          obtain ⟨⟨mapped, after⟩, mapping, run⟩ := Option.bind_eq_some_iff.mp
            (show (_ >>= _) = Option.some result from run)
          obtain ⟨spot, folded, same⟩ := Option.map_eq_some_iff.mp mapping
          cases same
          obtain ⟨answer, answers, matching⟩ := ih (virtualAddr + 1) result run
          refine ⟨answer, ?_, matching⟩
          rw [Heap.mapHeapBytes, mapPages_of_first (sketched.granted rfl agrees.holds folded)]
          exact answers
      | false =>
          subst some
          cases run
          refine ⟨(false, machine), ?_, rfl, agrees⟩
          rw [Heap.mapHeapBytes, mapPages]
          simp only [platform, allocBlock_exhausted (sketched.exhausted rfl agrees.holds), if_true]

end Sketched

/-- The sketch and the machine. -/
def Sketched.simulation (sketched : Sketched fold frames place holds) : Simulation (sketch fold frames) platform where
  related := Agrees fold place holds
  load8 := sketched.load8
  load32 := sketched.load32
  store8 := sketched.store8
  store32 := sketched.store32
  mapHeapBytes := sketched.mapHeapBytes

/-- What a word of the window reads as. -/
theorem bytes_read32 {value : Word} (room : address.toNat + 4 ≤ 2 ^ 32) (member : span address.toNat 4 ⊆ managed)
    (run : Machine.load32 address machine = some value) : machine.bytes.read32 address = value := by
  have lane : ∀ index < 4, ∀ byte, Machine.load8 (address + BitVec.ofNat 32 index) machine = some byte →
      machine.bytes (address + BitVec.ofNat 32 index) = byte := by
    intro index small byte read
    obtain ⟨place, translated, rfl⟩ := Option.map_eq_some_iff.mp read
    exact bytes_of_translate (ExclusiveOn.span_lane room member small) translated
  obtain ⟨byte0, read0, run⟩ := Option.bind_eq_some_iff.mp run
  obtain ⟨byte1, read1, run⟩ := Option.bind_eq_some_iff.mp run
  obtain ⟨byte2, read2, run⟩ := Option.bind_eq_some_iff.mp run
  obtain ⟨byte3, read3, run⟩ := Option.bind_eq_some_iff.mp run
  cases run
  have lane0 := lane 0 (by decide) byte0 (by rwa [show BitVec.ofNat 32 0 = 0#32 from rfl, BitVec.add_zero])
  rw [show BitVec.ofNat 32 0 = 0#32 from rfl, BitVec.add_zero] at lane0
  rw [ByteMemory.read32, lane0, show machine.bytes (address + 1) = byte1 from lane 1 (by decide) byte1 read1,
    show machine.bytes (address + 2) = byte2 from lane 2 (by decide) byte2 read2,
    show machine.bytes (address + 3) = byte3 from lane 3 (by decide) byte3 read3]

/-- A header of the sketch is a header of the heap. -/
theorem Sketched.header (sketched : Sketched fold frames place holds) {block next size : Word}
    (agrees : Agrees fold place holds known machine) (lower : 0xD0000000 ≤ block.toNat)
    (upper : block.toNat + 16 ≤ 0xE0000000)
    (reads : Heap.loadNext (sketch fold frames) block known = some next ∧
      Heap.loadSize (sketch fold frames) block known = some size) :
    (Heap.header machine.bytes block).next = next ∧ (Heap.header machine.bytes block).size = size := by
  have inside : ∀ place : Word, 0xD0000000 ≤ place.toNat → place.toNat + 4 ≤ 0xE0000000 →
      span place.toNat 4 ⊆ managed := by
    intro place low high address member
    rw [mem_span] at member
    exact .inr ⟨by omega, by omega⟩
  have second : (block + 4).toNat = block.toNat + 4 := by bv_omega
  obtain ⟨_, loaded, rfl⟩ := sketched.load32 block agrees next reads.1
  obtain ⟨_, loadedSize, rfl⟩ := sketched.load32 (block + 4) agrees size reads.2
  exact ⟨bytes_read32 (by omega) (inside block lower (by omega)) loaded,
    bytes_read32 (by omega) (inside (block + 4) (by omega) (by omega)) loadedSize⟩

end Machine

namespace Kernel

open Machine Heap

/-! Six frames. -/

/-- The first page of the heap is on a frame of its own, the others share one. -/
def foldShared (address : Word) : Option Word :=
  if 0xD0000000 ≤ address.toNat ∧ address.toNat < 0xD0001000 then some address
  else if 0xD0001000 ≤ address.toNat ∧ address.toNat < 0xD0011000 then some (0xD0001000 + (address &&& 0xFFF))
  else none

def sharedPlace (frame spot : Word) : Word :=
  if spot.toNat < 0xD0001000 then frame + (spot &&& 0xFFF) else 0 + (spot &&& 0xFFF)

theorem foldShared_cases {address spot : Word} (folded : foldShared address = some spot) :
    (SamePage address kernelHeapStart ∧ spot = address) ∨
      (address ∈ span secondPage.toNat (4096 * 16) ∧ spot.toNat = 0xD0001000 + address.toNat % 4096) := by
  unfold foldShared at folded
  by_cases first : 0xD0000000 ≤ address.toNat ∧ address.toNat < 0xD0001000
  · rw [if_pos first] at folded
    refine .inl ⟨?_, (Option.some.inj folded).symm⟩
    rw [SamePage, kernelHeapStart_toNat]
    omega
  · rw [if_neg first] at folded
    by_cases later : 0xD0001000 ≤ address.toNat ∧ address.toNat < 0xD0011000
    · rw [if_pos later] at folded
      refine .inr ⟨mem_laterPages later.1 later.2, ?_⟩
      rw [← Option.some.inj folded]
      have low := offset_toNat address
      bv_omega
    · rw [if_neg later] at folded
      contradiction

/-- The tables and the frames are as they were when the heap was mapped. -/
structure SharesFrames (mapped : Machine) (pages : Set Word) (machine : Machine) : Prop where
  inv : machine.PagingInv pages
  frames : ∀ other, machine.frameOf other = mapped.frameOf other
  exhausted : ¬ machine.FrameFree

theorem SixFrames.sketched {machine mapped : Machine} {pages : Set Word} {frame : Word}
    (six : SixFrames machine mapped pages frame) :
    Sketched foldShared false (sharedPlace frame) (SharesFrames mapped pages) := by
  have aligned : frame.toNat % 4096 = 0 := frameOf_mod (six.firstPage kernelHeapStart rfl).2
  have behind : 4096 ≤ frame.toNat := by
    have positive := BitVec.toNat_pos_of_ne_zero six.nonnull
    omega
  -- The page of an address, its frame and the place of its byte.
  have located : ∀ {machine : Machine} {address spot : Word}, SharesFrames mapped pages machine →
      foldShared address = some spot → address ∈ pages ∧ ∃ frame', machine.frameOf address = some frame' ∧
        sharedPlace frame spot = frame' + (address &&& 0xFFF) := by
    intro machine address spot shares folded
    rcases foldShared_cases folded with ⟨first, rfl⟩ | ⟨later, low⟩
    · obtain ⟨listed, found⟩ := six.firstPage _ first
      refine ⟨listed, frame, (shares.frames _).trans found, ?_⟩
      rw [SamePage, kernelHeapStart_toNat] at first
      rw [sharedPlace, if_pos (by omega)]
    · obtain ⟨listed, found⟩ := six.laterPages _ later
      refine ⟨listed, 0, (shares.frames _).trans found, ?_⟩
      have offset := offset_toNat spot
      have addressOffset := offset_toNat address
      rw [sharedPlace, if_neg (by omega)]
      congr 1
      apply BitVec.eq_of_toNat_eq
      omega
  refine ⟨fun shares folded => ?_, fun {left right spot other} folded otherFolded same => ?_,
    fun {machine address spot} value shares folded => ?_, fun absurdity => ?_, fun _ shares => shares.exhausted⟩
  · obtain ⟨_, frame', found, place⟩ := located shares folded
    rw [translate_eq_frameOf, found, Option.map_some, place]
  · have offset := offset_toNat spot
    have otherOffset := offset_toNat other
    unfold sharedPlace at same
    rcases foldShared_cases folded with ⟨first, rfl⟩ | ⟨_, low⟩ <;>
      rcases foldShared_cases otherFolded with ⟨otherFirst, rfl⟩ | ⟨_, otherLow⟩
    · rw [SamePage, kernelHeapStart_toNat] at first otherFirst
      rw [if_pos (by omega), if_pos (by omega)] at same
      bv_omega
    · rw [SamePage, kernelHeapStart_toNat] at first
      rw [if_pos (by omega), if_neg (by omega)] at same
      bv_omega
    · rw [SamePage, kernelHeapStart_toNat] at otherFirst
      rw [if_neg (by omega), if_pos (by omega)] at same
      bv_omega
    · rw [if_neg (by omega), if_neg (by omega)] at same
      bv_omega
  · obtain ⟨listed, frame', found, place⟩ := located shares folded
    have inFrame := offset_mem_frame (frameOf_mod found) address
    have outside : Set.EqOn (machine.memory.write8 (sharedPlace frame spot) value) machine.memory (frameSpan frame')ᶜ := by
      intro other apart
      exact ByteMemory.write8_of_ne fun equal => apart (equal ▸ place ▸ inFrame)
    obtain ⟨inv, frames⟩ := shares.inv.write listed found outside
    exact ⟨inv, fun other => (frames other).trans (shares.frames other), shares.exhausted⟩
  · cases absurdity

/-- The kernel heap on six frames, and a run of it on the sketch. -/
theorem sixFrames_run {requests : List Request} {heap : Heap Known} {live : List Heap.Live}
    (small : ∀ request ∈ requests, request.Small) (run : sketchRun foldShared false requests = some (heap, live)) :
    ∃ machine after place holds,
      initializePaging (Stage2.machine (fun _ => 0) (framesLeft 6 (by decide))) = some machine ∧
      Heap.Reachable platform machine after live ∧ after.gMemoryBase = heap.gMemoryBase ∧
      after.endOfHeap = heap.endOfHeap ∧ Sketched foldShared false place holds ∧
      Agrees foldShared place holds heap.world after.world := by
  obtain ⟨machine, mapped, pages, frame, six⟩ := sixFrames_booted
  have sketched := six.sketched
  have agrees : Agrees foldShared (sharedPlace frame) (SharesFrames mapped pages) (fun _ => none) mapped :=
    ⟨⟨six.inv, fun _ => rfl, six.exhausted⟩, fun _ reads => absurd reads.symm (Option.some_ne_none _)⟩
  have mapping := @sketch_mapInitialPages foldShared false (fun _ => none) initialPages kernelHeapStart (by decide)
  obtain ⟨booted, created, run⟩ := Option.bind_eq_some_iff.mp (show (_ >>= _) = some (heap, live) from run)
  obtain ⟨first, createdHere, heaps⟩ := sketched.simulation.initializeKernelHeap mapping six.run agrees booted created
  obtain ⟨⟨after, live'⟩, served, heapsAfter, same⟩ := sketched.simulation.serveAll requests [] heaps (heap, live) run
  cases same
  have start : Heap.ReachableUnder platform (fun nbytes _ => nbytes.toNat ≤ 0x10000000) machine first [] :=
    .boot createdHere
  have reached := start.serveAll (fun nbytes _ member => small _ member) served
  exact ⟨machine, after, _, _, six.booted, reached.reachable, heapsAfter.base.symm, heapsAfter.finish.symm, sketched,
    heapsAfter.world⟩

/-! Frames to spare. -/

/-- All pages of the heap have frames of their own. -/
def foldWindow (address : Word) : Option Word :=
  if 0xD0000000 ≤ address.toNat ∧ address.toNat < 0xD0011000 then some address else none

theorem foldWindow_cases {address spot : Word} (folded : foldWindow address = some spot) :
    spot = address ∧ address ∈ span 0xD0000000 0x11000 := by
  unfold foldWindow at folded
  split at folded
  · rename_i inside
    exact ⟨(Option.some.inj folded).symm, by rw [mem_span]; omega⟩
  · contradiction

/-- The pages are as they were when the heap was mapped, and a frame is left. -/
structure KeepsPages (mapped machine : Machine) : Prop where
  exclusive : machine.Exclusive
  pages : ∀ other, machine.translate other = mapped.translate other
  mapped : machine.Mapped = mapped.Mapped
  free : machine.FrameFree

theorem keepsPages_sketched {mapped : Machine} (exclusive : mapped.Exclusive)
    (window : span 0xD0000000 0x11000 ⊆ mapped.Mapped) :
    Sketched foldWindow true (fun spot => (mapped.translate spot).getD 0) (KeepsPages mapped) := by
  have found : ∀ {address spot : Word}, foldWindow address = some spot →
      mapped.translate address = some ((mapped.translate spot).getD 0) := by
    intro address spot folded
    obtain ⟨rfl, inside⟩ := foldWindow_cases folded
    obtain ⟨_, _, translated⟩ := translate_of_mapped (window inside)
    rw [translated, Option.getD_some]
  refine ⟨fun keeps folded => (keeps.pages _).trans (found folded),
    fun {left right spot other} folded otherFolded same => ?_,
    fun {machine address spot} value keeps folded => ?_, fun {machine address spot} _ keeps folded => ?_,
    fun absurdity => ?_⟩
  · obtain ⟨rfl, inside⟩ := foldWindow_cases folded
    obtain ⟨rfl, otherInside⟩ := foldWindow_cases otherFolded
    exact exclusive.translate_injective (window inside).1 (window otherInside).1 (found folded)
      (same.symm ▸ found otherFolded)
  · obtain ⟨rfl, inside⟩ := foldWindow_cases folded
    have there : spot ∈ machine.Mapped := keeps.mapped.symm ▸ window inside
    have written := keeps.exclusive.write there ((keeps.pages _).trans (found folded)) value
    exact ⟨written.exclusive, fun other => (written.translate other).trans (keeps.pages other),
      written.mapped.trans keeps.mapped, keeps.free⟩
  · obtain ⟨rfl, inside⟩ := foldWindow_cases folded
    rw [mem_span] at inside
    refine mapHeapBytes_of_mapped keeps.exclusive keeps.free (by omega) (by omega) fun other member => ?_
    rw [mem_span] at member
    rw [keeps.mapped]
    exact window (by rw [mem_span]; omega)
  · cases absurdity

/-- The kernel heap with 24 frames, and a run of it on the sketch. -/
theorem spareFrames_run {requests : List Request} {heap : Heap Known} {live : List Heap.Live}
    (run : sketchRun foldWindow true requests = some (heap, live)) : ∃ machine after place holds,
      initializePaging (Stage2.machine (fun _ => 0) (framesLeft 24 (by decide))) = some machine ∧
      Heap.ReachableUnder platform (fun _ _ => True) machine after live ∧ after.gMemoryBase = heap.gMemoryBase ∧
      after.endOfHeap = heap.endOfHeap ∧ Sketched foldWindow true place holds ∧
      Agrees foldWindow place holds heap.world after.world := by
  have count : (framesLeft 24 (by decide)).getNumFreeBlocks = 24 := by decide +kernel
  obtain ⟨machine, booted, tables, left, booting⟩ := @booted_machine (fun _ => 0) (framesLeft 24 (by decide))
    framesLeft_reserved (by omega)
  obtain ⟨_, mapped, _, mapping, _, _, _, _, _, free, _⟩ := tables.initializeKernelHeap (by omega)
  obtain ⟨granted, mapped', mapping', grown, pages⟩ := Heap.mapInitialPages_spec heapAllowed tables.exclusive
    (by decide) (by decide) (by decide) booting
  cases mapping.symm.trans mapping'
  have sketched := keepsPages_sketched grown.sound (pages rfl)
  have agrees : Agrees foldWindow (fun spot => (mapped.translate spot).getD 0) (KeepsPages mapped) (fun _ => none)
      mapped :=
    ⟨⟨grown.sound, fun _ => rfl, rfl, Pmm.getNumFreeBlocks_pos.mp (by omega)⟩, fun _ reads => absurd reads.symm (Option.some_ne_none _)⟩
  have sketchMapping := @sketch_mapInitialPages foldWindow true (fun _ => none) initialPages kernelHeapStart (by decide)
  obtain ⟨start, created, run⟩ := Option.bind_eq_some_iff.mp (show (_ >>= _) = some (heap, live) from run)
  obtain ⟨first, createdHere, heaps⟩ :=
    sketched.simulation.initializeKernelHeap sketchMapping mapping agrees start created
  obtain ⟨⟨after, live'⟩, served, heapsAfter, same⟩ := sketched.simulation.serveAll requests [] heaps (heap, live) run
  cases same
  have reached : Heap.ReachableUnder platform (fun _ _ => True) machine first [] := .boot createdHere
  exact ⟨machine, after, _, _, booted, reached.serveAll (fun _ _ _ => trivial) served, heapsAfter.base.symm,
    heapsAfter.finish.symm, sketched, heapsAfter.world⟩

end Kernel

end ScratchOs
