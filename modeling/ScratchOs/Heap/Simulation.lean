import ScratchOs.Heap.Window

namespace ScratchOs

open Data

/-! The heap on two platforms.

Where every access on the left has its answer on the right, so have the calls of
`kmalloc.c`. The left platform may leave open what the calls at hand do not need.
-/

section Answers

variable {α β γ δ : Type} {related : α → β → Prop} {relatedThen : γ → δ → Prop}

/-- What the left computation yields, the right one yields too. -/
def Forward (related : α → β → Prop) (left : Option α) (right : Option β) : Prop :=
  ∀ result, left = some result → ∃ answer, right = some answer ∧ related result answer

theorem Forward.pure {result : α} {answer : β} (matching : related result answer) :
    Forward related (some result) (some answer) := by
  rintro _ ⟨⟩
  exact ⟨answer, rfl, matching⟩

theorem Forward.bind {left : Option α} {right : Option β} {leftThen : α → Option γ} {rightThen : β → Option δ}
    (first : Forward related left right)
    (rest : ∀ result answer, related result answer → Forward relatedThen (leftThen result) (rightThen answer)) :
    Forward relatedThen (left >>= leftThen) (right >>= rightThen) := by
  intro last run
  obtain ⟨result, yields, run⟩ := Option.bind_eq_some_iff.mp run
  obtain ⟨answer, answers, matching⟩ := first result yields
  obtain ⟨lastAnswer, answersLast, matchingLast⟩ := rest result answer matching last run
  exact ⟨lastAnswer, Option.bind_eq_some_iff.mpr ⟨answer, answers, answersLast⟩, matchingLast⟩

/-- Both computations read the same value. -/
theorem Forward.read {left right : Option α} {leftThen : α → Option γ} {rightThen : α → Option δ}
    (first : Forward Eq left right) (rest : ∀ result, Forward relatedThen (leftThen result) (rightThen result)) :
    Forward relatedThen (left >>= leftThen) (right >>= rightThen) :=
  first.bind fun result _ same => same ▸ rest result

theorem Forward.map {left right : Option α} (first : Forward Eq left right) (function : α → γ) :
    Forward Eq (left.map function) (right.map function) := by
  intro last run
  obtain ⟨result, yields, rfl⟩ := Option.map_eq_some_iff.mp run
  obtain ⟨_, answers, rfl⟩ := first result yields
  exact ⟨_, by rw [answers, Option.map_some], rfl⟩

theorem Forward.cases {condition : Prop} [Decidable condition] {left left' : Option α} {right right' : Option β}
    (holds : Forward related left right) (fails : Forward related left' right') :
    Forward related (if condition then left else left') (if condition then right else right') := by
  split
  · exact holds
  · exact fails

end Answers

/-- A platform whose answers another one gives too. -/
structure Simulation {σ τ : Type} (left : Platform σ) (right : Platform τ) where
  related : σ → τ → Prop
  load8 : ∀ {world other} address, related world other →
    Forward Eq (left.load8 address world) (right.load8 address other)
  load32 : ∀ {world other} address, related world other →
    Forward Eq (left.load32 address world) (right.load32 address other)
  store8 : ∀ {world other} address value, related world other →
    Forward related (left.store8 address value world) (right.store8 address value other)
  store32 : ∀ {world other} address value, related world other →
    Forward related (left.store32 address value world) (right.store32 address value other)
  mapHeapBytes : ∀ {world other} count virtualAddr, related world other →
    Forward (fun result answer => result.1 = answer.1 ∧ related result.2 answer.2)
      (Heap.mapHeapBytes left count virtualAddr world) (Heap.mapHeapBytes right count virtualAddr other)

namespace Simulation

variable {σ τ : Type} {left : Platform σ} {right : Platform τ} (simulation : Simulation left right)

/-- The globals agree, and the worlds are related. -/
structure Heaps (heap : Heap σ) (other : Heap τ) : Prop where
  base : heap.gMemoryBase = other.gMemoryBase
  finish : heap.endOfHeap = other.endOfHeap
  world : simulation.related heap.world other.world

/-- The same pointer and heaps that agree. -/
def Results (result : Word × Heap σ) (answer : Word × Heap τ) : Prop :=
  result.1 = answer.1 ∧ simulation.Heaps result.2 answer.2

variable {simulation} {world : σ} {other : τ} {heap : Heap σ} {otherHeap : Heap τ}

theorem Heaps.withWorld (heaps : simulation.Heaps heap otherHeap) (worlds : simulation.related world other) :
    simulation.Heaps { heap with world := world } { otherHeap with world := other } :=
  ⟨heaps.base, heaps.finish, worlds⟩

section Headers

variable (block : Word) (worlds : simulation.related world other)

include worlds

theorem loadNext : Forward Eq (Heap.loadNext left block world) (Heap.loadNext right block other) :=
  simulation.load32 block worlds

theorem loadSize : Forward Eq (Heap.loadSize left block world) (Heap.loadSize right block other) :=
  simulation.load32 (block + 4) worlds

theorem loadFree : Forward Eq (Heap.loadFree left block world) (Heap.loadFree right block other) :=
  (simulation.load8 (block + 8) worlds).map _

theorem loadCanary : Forward Eq (Heap.loadCanary left block world) (Heap.loadCanary right block other) :=
  simulation.load32 (block + 12) worlds

theorem storeNext (value : Word) :
    Forward simulation.related (Heap.storeNext left block value world) (Heap.storeNext right block value other) :=
  simulation.store32 block value worlds

theorem storeSize (value : Word) :
    Forward simulation.related (Heap.storeSize left block value world) (Heap.storeSize right block value other) :=
  simulation.store32 (block + 4) value worlds

theorem storeFree (value : Bool) :
    Forward simulation.related (Heap.storeFree left block value world) (Heap.storeFree right block value other) :=
  simulation.store8 (block + 8) _ worlds

theorem storeCanary (value : Word) :
    Forward simulation.related (Heap.storeCanary left block value world) (Heap.storeCanary right block value other) :=
  simulation.store32 (block + 12) value worlds

theorem blockFits (size : Word) :
    Forward Eq (Heap.blockFits left size world block) (Heap.blockFits right size other block) := by
  refine (loadFree block worlds).read fun free => ?_
  exact .cases ((loadSize block worlds).map _) (.pure rfl)

theorem splitBlock (nbytes : Word) :
    Forward simulation.related (Heap.splitBlock left block nbytes world) (Heap.splitBlock right block nbytes other) := by
  refine (loadSize block worlds).read fun originalSize => ?_
  refine (storeSize block worlds nbytes).bind fun _ _ worlds => ?_
  refine (loadSize block worlds).read fun blockSize => ?_
  refine (storeFree _ worlds true).bind fun _ _ worlds => ?_
  refine (loadNext block worlds).read fun next => ?_
  refine (storeNext _ worlds next).bind fun _ _ worlds => ?_
  refine (storeSize _ worlds _).bind fun _ _ worlds => ?_
  refine (storeCanary _ worlds canaryValue).bind fun _ _ worlds => ?_
  exact storeNext block worlds _

theorem getLastKernelBlockFrom (fuel : Nat) :
    Forward Eq (Heap.getLastKernelBlockFrom left fuel block world) (Heap.getLastKernelBlockFrom right fuel block other) := by
  induction fuel generalizing block with
  | zero => rintro _ ⟨⟩
  | succ fuel ih => exact (loadNext block worlds).read fun next => .cases (ih next) (.pure rfl)

end Headers

theorem findNode {found otherFound : Word → Option Bool} {next otherNext : Word → Option Word} (fuel : Nat)
    (current : Word) (tests : ∀ node, Forward Eq (found node) (otherFound node))
    (follows : ∀ node, Forward Eq (next node) (otherNext node)) :
    Forward Eq (ScratchOs.findNode found next fuel current) (ScratchOs.findNode otherFound otherNext fuel current) := by
  induction fuel generalizing current with
  | zero => rintro _ ⟨⟩
  | succ fuel ih =>
      refine .cases (.pure rfl) ((tests current).read fun stop => ?_)
      exact .cases (.pure rfl) ((follows current).read fun following => ih following)

theorem findFirstFreeKernelBlock (size : Word) (heaps : simulation.Heaps heap otherHeap) :
    Forward Eq (Heap.findFirstFreeKernelBlock left size heap) (Heap.findFirstFreeKernelBlock right size otherHeap) := by
  rw [Heap.findFirstFreeKernelBlock, Heap.findFirstFreeKernelBlock, heaps.base]
  exact findNode _ _ (fun block => blockFits block heaps.world size) fun block => loadNext block heaps.world

theorem getLastKernelBlock (heaps : simulation.Heaps heap otherHeap) :
    Forward Eq (Heap.getLastKernelBlock left heap) (Heap.getLastKernelBlock right otherHeap) := by
  rw [Heap.getLastKernelBlock, Heap.getLastKernelBlock, heaps.base]
  exact getLastKernelBlockFrom _ heaps.world _

theorem ksbrk (nbytes : Word) (heaps : simulation.Heaps heap otherHeap) :
    Forward simulation.Results (Heap.ksbrk left nbytes heap) (Heap.ksbrk right nbytes otherHeap) := by
  rw [Heap.ksbrk, Heap.ksbrk, heaps.finish]
  refine .cases (.pure ⟨rfl, heaps⟩) ?_
  refine (simulation.mapHeapBytes _ _ heaps.world).bind ?_
  rintro ⟨mapped, world⟩ ⟨_, other⟩ ⟨rfl, worlds⟩
  exact .cases (.pure ⟨rfl, heaps.base, rfl, worlds⟩) (.pure ⟨rfl, heaps.base, rfl, worlds⟩)

theorem requestSpace (size : Word) (heaps : simulation.Heaps heap otherHeap) :
    Forward simulation.Results (Heap.requestSpace left size heap) (Heap.requestSpace right size otherHeap) := by
  refine (ksbrk 0 heaps).bind ?_
  rintro ⟨block, heap⟩ ⟨_, otherHeap⟩ ⟨rfl, heaps⟩
  refine (ksbrk (size + metaBlockSize) heaps).bind ?_
  rintro ⟨request, heap⟩ ⟨_, otherHeap⟩ ⟨rfl, heaps⟩
  refine .cases (.pure ⟨rfl, heaps⟩) (.cases (.pure ⟨rfl, heaps⟩) ?_)
  refine (storeSize block heaps.world size).bind fun _ _ worlds => ?_
  refine (storeNext block worlds 0).bind fun _ _ worlds => ?_
  refine (storeFree block worlds false).bind fun _ _ worlds => ?_
  refine (storeCanary block worlds canaryValue).bind fun _ _ worlds => ?_
  exact .pure ⟨rfl, heaps.withWorld worlds⟩

theorem kmalloc (nbytes : Word) (heaps : simulation.Heaps heap otherHeap) :
    Forward simulation.Results (Heap.kmalloc left nbytes heap) (Heap.kmalloc right nbytes otherHeap) := by
  rw [Heap.kmalloc, Heap.kmalloc, heaps.base]
  refine .cases (.pure ⟨rfl, heaps⟩) ?_
  refine (findFirstFreeKernelBlock nbytes heaps).read fun block => .cases ?_ ?_
  · refine (requestSpace nbytes heaps).bind ?_
    rintro ⟨fresh, heap⟩ ⟨_, otherHeap⟩ ⟨rfl, heaps⟩
    refine .cases (.pure ⟨rfl, heaps⟩) ?_
    refine (getLastKernelBlock heaps).read fun lastBlock => ?_
    refine (storeNext lastBlock heaps.world fresh).bind fun _ _ worlds => ?_
    refine (storeFree fresh worlds false).bind fun _ _ worlds => ?_
    exact .pure ⟨rfl, heaps.withWorld worlds⟩
  · refine (loadSize block heaps.world).read fun size => ?_
    have taken : ∀ world other, simulation.related world other → Forward simulation.Results
        (do let world ← Heap.storeFree left block false world; some (block + metaBlockSize, { heap with world }))
        (do let other ← Heap.storeFree right block false other
            some (block + metaBlockSize, { otherHeap with world := other })) := fun _ _ worlds =>
      (storeFree block worlds false).bind fun _ _ worlds => .pure ⟨rfl, heaps.withWorld worlds⟩
    rw [heaps.base] at taken
    exact .cases ((splitBlock block heaps.world nbytes).bind taken) ((Forward.pure heaps.world).bind taken)

theorem kfree (ptr : Word) (heaps : simulation.Heaps heap otherHeap) :
    Forward simulation.Heaps (Heap.kfree left ptr heap) (Heap.kfree right ptr otherHeap) := by
  rw [Heap.kfree, Heap.kfree]
  refine .cases (.pure heaps) ?_
  refine (loadCanary (ptr - metaBlockSize) heaps.world).read fun canary => ?_
  refine .cases (by rintro _ ⟨⟩) ?_
  refine (storeFree (ptr - metaBlockSize) heaps.world true).bind fun _ _ worlds => ?_
  refine (loadNext (ptr - metaBlockSize) worlds).read fun nextBlock => ?_
  refine .cases (.pure (heaps.withWorld worlds)) ?_
  refine (loadFree nextBlock worlds).read fun nextFree => ?_
  refine .cases ?_ (.pure (heaps.withWorld worlds))
  refine (loadNext nextBlock worlds).read fun next => ?_
  refine (storeNext (ptr - metaBlockSize) worlds next).bind fun _ _ worlds => ?_
  refine (loadSize (ptr - metaBlockSize) worlds).read fun size => ?_
  refine (loadSize nextBlock worlds).read fun nextSize => ?_
  refine (storeSize (ptr - metaBlockSize) worlds _).bind fun _ _ worlds => ?_
  exact .pure (heaps.withWorld worlds)

/-- `initialize_kernel_heap` behind its mapping loop. -/
theorem initializeKernelHeap {start : σ} {otherStart : τ}
    (mapping : Heap.mapInitialPages left Heap.initialPages kernelHeapStart start = some (true, world))
    (otherMapping : Heap.mapInitialPages right Heap.initialPages kernelHeapStart otherStart = some (true, other))
    (worlds : simulation.related world other) :
    Forward simulation.Heaps (Heap.initializeKernelHeap left start) (Heap.initializeKernelHeap right otherStart) := by
  rw [Heap.initializeKernelHeap, Heap.initializeKernelHeap, mapping, otherMapping]
  refine (storeFree kernelHeapStart worlds true).bind fun _ _ worlds => ?_
  refine (storeSize kernelHeapStart worlds initialKernelHeapSize).bind fun _ _ worlds => ?_
  refine (storeNext kernelHeapStart worlds 0).bind fun _ _ worlds => ?_
  refine (storeCanary kernelHeapStart worlds canaryValue).bind fun _ _ worlds => ?_
  refine (loadSize kernelHeapStart worlds).read fun size => ?_
  exact .pure ⟨rfl, rfl, worlds⟩

end Simulation

/-! Runs of calls. -/

namespace Heap

/-- What a client asks for. -/
inductive Request where
  | kmalloc (nbytes : Word)
  | kfree (ptr nbytes : Word)
deriving DecidableEq

/-- Up to the size of the heap window. -/
def Request.Small : Request → Prop
  | .kmalloc nbytes => nbytes.toNat ≤ 0x10000000
  | .kfree _ _ => True

instance : DecidablePred Request.Small
  | .kmalloc nbytes => inferInstanceAs (Decidable (nbytes.toNat ≤ 0x10000000))
  | .kfree _ _ => inferInstanceAs (Decidable True)

/-- The calls one after another, with the pointers the client holds. Only these
are freed. -/
def serveAll {σ : Type} (platform : Platform σ) : List Request → Heap σ × List Live → Option (Heap σ × List Live)
  | [], state => some state
  | .kmalloc nbytes :: rest, (heap, live) => do
      let (ptr, after) ← kmalloc platform nbytes heap
      serveAll platform rest (after, held ptr nbytes live)
  | .kfree ptr nbytes :: rest, (heap, live) =>
      if (ptr, nbytes) ∈ live then do
        let after ← kfree platform ptr heap
        serveAll platform rest (after, dropped ptr live)
      else none

theorem ReachableUnder.serveAll {σ : Type} {platform : Platform σ} {condition : Word → Heap σ → Prop} {start : σ}
    {requests : List Request} {state after : Heap σ × List Live}
    (reached : ReachableUnder platform condition start state.1 state.2)
    (legal : ∀ nbytes heap, Request.kmalloc nbytes ∈ requests → condition nbytes heap)
    (run : serveAll platform requests state = some after) :
    ReachableUnder platform condition start after.1 after.2 := by
  induction requests generalizing state with
  | nil =>
      cases run
      exact reached
  | cons request rest ih =>
      obtain ⟨heap, live⟩ := state
      have later : ∀ nbytes heap, Request.kmalloc nbytes ∈ rest → condition nbytes heap :=
        fun nbytes heap member => legal nbytes heap (List.mem_cons_of_mem _ member)
      cases request with
      | kmalloc nbytes =>
          obtain ⟨⟨ptr, middle⟩, call, run⟩ := Option.bind_eq_some_iff.mp (show (_ >>= _) = some after from run)
          exact ih (reached.kmalloc (legal nbytes heap List.mem_cons_self) call) later run
      | kfree ptr nbytes =>
          rw [Heap.serveAll] at run
          split at run
          · rename_i member
            obtain ⟨middle, call, run⟩ := Option.bind_eq_some_iff.mp (show (_ >>= _) = some after from run)
            exact ih (reached.kfree member call) later run
          · contradiction

end Heap

namespace Simulation

variable {σ τ : Type} {left : Platform σ} {right : Platform τ} {simulation : Simulation left right}

theorem serveAll (requests : List Heap.Request) {heap : Heap σ} {otherHeap : Heap τ} (live : List Heap.Live)
    (heaps : simulation.Heaps heap otherHeap) :
    Forward (fun result answer => simulation.Heaps result.1 answer.1 ∧ result.2 = answer.2)
      (Heap.serveAll left requests (heap, live)) (Heap.serveAll right requests (otherHeap, live)) := by
  induction requests generalizing heap otherHeap live with
  | nil => exact .pure ⟨heaps, rfl⟩
  | cons request rest ih =>
      cases request with
      | kmalloc nbytes =>
          refine (kmalloc nbytes heaps).bind ?_
          rintro ⟨ptr, after⟩ ⟨_, otherAfter⟩ ⟨rfl, heaps⟩
          exact ih _ heaps
      | kfree ptr nbytes =>
          exact .cases ((kfree ptr heaps).bind fun _ _ heaps => ih _ heaps) (by rintro _ ⟨⟩)

end Simulation

end ScratchOs
