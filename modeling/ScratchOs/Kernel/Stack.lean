import ScratchOs.Heap.Runs
import ScratchOs.Vmm.Runs

namespace ScratchOs

open Data

/-! The memory stack of the kernel: `vmm.c` over `kmalloc.c` over a platform.

The region nodes of the virtual memory manager are ordinary heap allocations,
so both invariants have to be kept at once. -/

variable {σ : Type}

/-- The platform `vmm.c` runs on. The heap's globals are part of its state. -/
def heapPlatform (platform : Platform σ) : HeapPlatform (Heap σ) where
  load8 address heap := platform.load8 address heap.world
  load32 address heap := platform.load32 address heap.world
  store8 address value heap := (platform.store8 address value heap.world).map fun world => { heap with world }
  store32 address value heap := (platform.store32 address value heap.world).map fun world => { heap with world }
  allocBlock heap :=
    ((platform.allocBlock heap.world).1, { heap with world := (platform.allocBlock heap.world).2 })
  freeBlock address heap := { heap with world := platform.freeBlock address heap.world }
  mapAddress virtualAddr physicalAddr flags heap :=
    (platform.mapAddress virtualAddr physicalAddr flags heap.world).map fun result =>
      (result.1, { heap with world := result.2 })
  kmalloc := Heap.kmalloc platform

variable {platform : Platform σ}

def FlatView.withHeap (view : FlatView platform) : FlatView (heapPlatform platform).toPlatform where
  Sound heap := view.Sound heap.world
  bytes heap := view.bytes heap.world
  Mapped heap := view.Mapped heap.world
  Globals := Word × Word × view.Globals
  globals heap := (heap.gMemoryBase, heap.endOfHeap, view.globals heap.world)
  Allowed := view.Allowed
  Ready virtualAddr physicalAddr heap := view.Ready virtualAddr physicalAddr heap.world
  load8 sound inside := view.load8 sound inside
  load32 sound room inside := view.load32 sound room inside
  store8 {heap address} value sound inside := by
    obtain ⟨after, store, soundAfter, mapped, globals, bytes⟩ := view.store8 value sound inside
    exact ⟨{ heap with world := after }, by simp [heapPlatform, store], soundAfter, mapped,
      by rw [globals], bytes⟩
  store32 {heap address} value sound room inside := by
    obtain ⟨after, store, soundAfter, mapped, globals, bytes⟩ := view.store32 value sound room inside
    exact ⟨{ heap with world := after }, by simp [heapPlatform, store], soundAfter, mapped,
      by rw [globals], bytes⟩
  allocBlock_null {heap} sound null := by
    have unchanged := view.allocBlock_null sound null
    simp only [heapPlatform, unchanged]
  mapAddress {heap virtualAddr flags} sound allowed ready := by
    obtain ⟨mapped, after, mapping, keeps⟩ := view.mapAddress sound allowed ready
    refine ⟨mapped, { heap with world := after }, by simp [heapPlatform, mapping], ?_⟩
    rintro kept (rfl | ⟨refused, rfl⟩)
    · obtain ⟨soundKept, grows, bytes, globals, page, only⟩ := keeps after (.inl rfl)
      exact ⟨soundKept, grows, bytes, by rw [globals], page, only⟩
    · obtain ⟨soundKept, grows, bytes, globals, page, only⟩ := keeps _ (.inr ⟨refused, rfl⟩)
      exact ⟨soundKept, grows, bytes, by simp only [heapPlatform, globals], page, only⟩

theorem RoundKeeps.withHeap {view : FlatView platform} {flags virtualAddr : Word} {heap : Heap σ}
    (keeps : RoundKeeps view flags virtualAddr heap.world) : RoundKeeps view.withHeap flags virtualAddr heap := by
  intro nonnull
  obtain ⟨mapped, next, mapping, growth⟩ := keeps nonnull
  refine ⟨mapped, { heap with world := next }, by simp [heapPlatform, mapping], ?_⟩
  have globals := congrArg (heap.gMemoryBase, heap.endOfHeap, ·) growth.globals
  cases mapped with
  | false => exact ⟨growth.sound, growth.mapped, growth.bytes, globals⟩
  | true => exact ⟨growth.sound, growth.mapped, growth.bytes, globals⟩

namespace Kernel

/-- The calls other kernel code makes once the heap is set up. -/
inductive Call where
  | initializeVmm
  | kmalloc (nbytes : Word)
  | kfree (ptr : Word)
  | vmmAlloc (size flags : Word)
  | vmmFree (ptr : Word)

/-- The stack with the pointers its clients hold: heap pointers, without the
manager's own nodes, and regions. -/
structure State (σ : Type) where
  vmm : Vmm (Heap σ)
  clients : List Heap.Live
  regions : List Vmm.Live

/-- `initialize_vmm` comes once, and `kfree` gets live pointers only. -/
def Call.Legal (state : State σ) : Call → Prop
  | .initializeVmm => state.vmm.vmBase = 0
  | .kfree ptr => ptr ∈ state.clients.map Prod.fst
  | _ => True

def Call.run (platform : Platform σ) (state : State σ) : Call → Option (State σ)
  | .initializeVmm =>
      (Vmm.initializeVmm (heapPlatform platform) state.vmm.world).map fun vmm => { state with vmm }
  | .kmalloc nbytes =>
      (Heap.kmalloc platform nbytes state.vmm.world).map fun result =>
        { state with
          vmm := { state.vmm with world := result.2 }
          clients := Heap.held result.1 nbytes state.clients }
  | .kfree ptr =>
      (Heap.kfree platform ptr state.vmm.world).map fun heap =>
        { state with
          vmm := { state.vmm with world := heap }
          clients := Heap.dropped ptr state.clients }
  | .vmmAlloc size flags =>
      (Vmm.vmmAlloc (heapPlatform platform) size flags state.vmm).map fun result =>
        { state with vmm := result.2, regions := Vmm.held result.1 size state.regions }
  | .vmmFree ptr =>
      (Vmm.vmmFree (heapPlatform platform) ptr state.vmm).map fun vmm =>
        { state with vmm, regions := Vmm.dropped ptr state.regions }

/-- The states reached from `initialize_kernel_heap` by legal calls that each
meet `condition` where they are made. -/
inductive Reachable (platform : Platform σ) (condition : Vmm (Heap σ) → Call → Prop) (start : σ) :
    State σ → Prop
  | boot {heap} : Heap.initializeKernelHeap platform start = some heap →
      Reachable platform condition start ⟨⟨0, heap⟩, [], []⟩
  | call {state after} (call : Call) : Reachable platform condition start state → call.Legal state →
      condition state.vmm call → call.run platform state = some after →
      Reachable platform condition start after

theorem Reachable.mono {condition weaker : Vmm (Heap σ) → Call → Prop} {start : σ} {state : State σ}
    (reached : Reachable platform condition start state) (weaken : ∀ vmm call, condition vmm call → weaker vmm call) :
    Reachable platform weaker start state := by
  induction reached with
  | boot run => exact .boot run
  | call call _ legal meets run ih => exact .call call ih legal (weaken _ _ meets) run

/-- Other kernel code may use the heap as well, as long as no request wraps
around the end of the address space. -/
def Unwrapped (platform : Platform σ) (vmm : Vmm (Heap σ)) : Call → Prop
  | .kmalloc nbytes => Heap.RequestFits platform nbytes vmm.world
  | _ => True

/-- Everything a call hands to `map_address` finds what it needs there, and no
request wraps around the end of the address space. -/
def CallReady (view : FlatView platform) (vmm : Vmm (Heap σ)) : Call → Prop
  | .initializeVmm => Heap.KmallocReady view vmMetaSize vmm.world
  | .kmalloc nbytes => Heap.RequestFits platform nbytes vmm.world ∧ Heap.KmallocReady view nbytes vmm.world
  | .kfree _ => True
  | .vmmAlloc size flags => Vmm.PagesKeep view.withHeap flags ∧
      ∀ region, Vmm.ReachesSplit (heapPlatform platform) size vmm region →
        Heap.KmallocReady view vmMetaSize vmm.world
  | .vmmFree _ => True

/-- Both invariants at once. The heap's own list of allocations has the nodes
and the clients' pointers, and no pointer is both. -/
structure Linked (view : FlatView platform) (state : State σ) (blocks : List Word) (overhang : Word)
    (allocations : List Heap.Live) (nodes : List Word) : Prop where
  heap : Heap.Inv view state.vmm.world blocks overhang allocations
  vmm : state.vmm.vmBase = 0 ∧ nodes = [] ∧ state.regions = [] ∨
    state.vmm.vmBase ≠ 0 ∧ Vmm.Inv view.withHeap state.vmm nodes state.regions
  nodesLive : ∀ node ∈ nodes, (node, vmMetaSize) ∈ allocations
  clientsLive : ∀ entry ∈ state.clients, entry ∈ allocations ∧ entry.1 ∉ nodes

/-- The stack before there is a heap, or with both invariants in place. -/
def Consistent (view : FlatView platform) (state : State σ) : Prop :=
  (view.Sound state.vmm.world.world ∧ state.vmm.world.gMemoryBase = 0 ∧ state.vmm.vmBase = 0 ∧
    state.clients = [] ∧ state.regions = []) ∨
  ∃ blocks overhang allocations nodes, Linked view state blocks overhang allocations nodes

variable {view : FlatView platform} {state : State σ} {heap : Heap σ} {blocks nodes : List Word}
  {overhang : Word} {allocations : List Heap.Live}

/-- `kmalloc` of a node: the heap's invariant is exactly what the manager relies on. -/
theorem kmalloc_node (allowed : Heap.HeapAllowed view) (inv : Heap.Inv view heap blocks overhang allocations)
    (nodesLive : ∀ node ∈ nodes, (node, vmMetaSize) ∈ allocations)
    (ready : Heap.KmallocReady view vmMetaSize heap) :
    ∃ ptr after blocks' overhang', Heap.kmalloc platform vmMetaSize heap = some (ptr, after) ∧
      Heap.Inv view after blocks' overhang' (Heap.held ptr vmMetaSize allocations) ∧
      Vmm.KmallocKeeps view.withHeap nodes heap := by
  have small : vmMetaSize.toNat ≤ 48 := by decide
  obtain ⟨ptr, after, blocks', overhang', run, invAfter, only, _⟩ :=
    Heap.kmalloc_spec allowed inv (inv.requestFits (by decide)) ready
  have kept : ∀ node ∈ nodes, (node, vmMetaSize) ∈ Heap.held ptr vmMetaSize allocations :=
    fun node member => Heap.mem_held.mpr (.inr (nodesLive node member))
  refine ⟨ptr, after, blocks', overhang', run, invAfter, ptr, after, run, invAfter.sound, only.mapped, ?_, ?_⟩
  · intro node member address inside
    refine only.bytes address ((inv.small_mapped (nodesLive node member) small).2 inside) ?_
    intro block listed touched
    exact Set.disjoint_left.mp (invAfter.small_clear (kept node member) small listed) inside touched
  · intro nonnull
    have mine : (ptr, vmMetaSize) ∈ Heap.held ptr vmMetaSize allocations :=
      Heap.mem_held.mpr (.inl ⟨nonnull, rfl⟩)
    obtain ⟨room, mapped⟩ := invAfter.small_mapped mine small
    refine ⟨⟨invAfter.sound, room, mapped⟩, fun node member => ?_⟩
    have distinct := invAfter.nodup
    rw [Heap.held_of_ne nonnull, List.map_cons] at distinct
    refine invAfter.bytes_disjoint mine (kept node member) ?_
    rintro rfl
    exact (List.nodup_cons.mp distinct).1 (List.mem_map.mpr ⟨_, nodesLive _ member, rfl⟩)

theorem Linked.kmallocKeeps (linked : Linked view state blocks overhang allocations nodes)
    (allowed : Heap.HeapAllowed view) (ready : Heap.KmallocReady view vmMetaSize state.vmm.world) :
    Vmm.KmallocKeeps view.withHeap nodes state.vmm.world := by
  obtain ⟨_, _, _, _, _, _, keeps⟩ := kmalloc_node allowed linked.heap linked.nodesLive ready
  exact keeps

/-- A pointer the heap just returned belongs to no one else. -/
theorem fresh_pointer {ptr nbytes : Word} (inv : Heap.Inv view heap blocks overhang (Heap.held ptr nbytes allocations))
    (nonnull : ptr ≠ 0) {entry : Heap.Live} (member : entry ∈ allocations) : entry.1 ≠ ptr := by
  have distinct := inv.nodup
  rw [Heap.held_of_ne nonnull, List.map_cons] at distinct
  rintro rfl
  exact (List.nodup_cons.mp distinct).1 (List.mem_map.mpr ⟨entry, member, rfl⟩)

theorem Linked.listed (linked : Linked view state blocks overhang allocations nodes) :
    Vmm.RegionList (view.bytes state.vmm.world.world) state.vmm.vmBase nodes := by
  rcases linked.vmm with ⟨unset, rfl, _⟩ | ⟨_, vmm⟩
  · exact unset
  · exact vmm.layout.chain

section Headers

variable {after : Heap σ} {blocks' : List Word} {overhang' : Word} {allocations' : List Heap.Live}

/-- Work on heap headers does not touch the manager's nodes. -/
theorem Linked.nodes_kept (linked : Linked view state blocks overhang allocations nodes)
    (inv : Heap.Inv view after blocks' overhang' allocations')
    (only : RecordsOnly view state.vmm.world.world after.world blocks')
    (kept : ∀ node ∈ nodes, (node, vmMetaSize) ∈ allocations') :
    ∀ node ∈ nodes, Set.EqOn (view.bytes after.world) (view.bytes state.vmm.world.world) (recordSpan node) := by
  intro node member address inside
  have small : vmMetaSize.toNat ≤ 48 := by decide
  refine only.bytes address ((linked.heap.small_mapped (linked.nodesLive node member) small).2 inside) ?_
  intro block listed touched
  exact Set.disjoint_left.mp (inv.small_clear (kept node member) small listed) inside touched

theorem Linked.vmm_kept (linked : Linked view state blocks overhang allocations nodes)
    (inv : Heap.Inv view after blocks' overhang' allocations')
    (only : RecordsOnly view state.vmm.world.world after.world blocks')
    (kept : ∀ node ∈ nodes, (node, vmMetaSize) ∈ allocations') :
    state.vmm.vmBase = 0 ∧ nodes = [] ∧ state.regions = [] ∨
      state.vmm.vmBase ≠ 0 ∧ Vmm.Inv view.withHeap { state.vmm with world := after } nodes state.regions := by
  rcases linked.vmm with dead | ⟨base, vmm⟩
  · exact .inl dead
  · exact .inr ⟨base, vmm.of_same inv.sound only.mapped (linked.nodes_kept inv only kept)⟩

end Headers

theorem nodes_held {ptr nbytes : Word} (nodesLive : ∀ node ∈ nodes, (node, vmMetaSize) ∈ allocations) :
    ∀ node ∈ nodes, (node, vmMetaSize) ∈ Heap.held ptr nbytes allocations :=
  fun node member => Heap.mem_held.mpr (.inr (nodesLive node member))

theorem nodes_dropped {ptr : Word} (nodesLive : ∀ node ∈ nodes, (node, vmMetaSize) ∈ allocations) (other : ptr ∉ nodes) :
    ∀ node ∈ nodes, (node, vmMetaSize) ∈ Heap.dropped ptr allocations := by
  intro node member
  refine List.mem_filter.mpr ⟨nodesLive node member, decide_eq_true ?_⟩
  rintro rfl
  exact other member

theorem Linked.kmalloc (linked : Linked view state blocks overhang allocations nodes)
    (allowed : Heap.HeapAllowed view) {nbytes : Word} (fits : Heap.RequestFits platform nbytes state.vmm.world)
    (ready : Heap.KmallocReady view nbytes state.vmm.world) :
    ∃ after, (Call.kmalloc nbytes).run platform state = some after ∧ Consistent view after := by
  obtain ⟨ptr, after, blocks', overhang', run, inv, only, _⟩ := Heap.kmalloc_spec allowed linked.heap fits ready
  have kept := @nodes_held _ _ ptr nbytes linked.nodesLive
  simp only [Call.run, run, Option.map_some]
  refine ⟨_, rfl, .inr ⟨blocks', overhang', _, nodes, inv, linked.vmm_kept inv only kept, kept, ?_⟩⟩
  intro entry member
  rcases Heap.mem_held.mp member with ⟨nonnull, rfl⟩ | member
  · refine ⟨Heap.mem_held.mpr (.inl ⟨nonnull, rfl⟩), fun listed => ?_⟩
    exact fresh_pointer inv nonnull (linked.nodesLive ptr listed) rfl
  · obtain ⟨old, notNode⟩ := linked.clientsLive entry member
    exact ⟨Heap.mem_held.mpr (.inr old), notNode⟩

theorem Linked.kfree (linked : Linked view state blocks overhang allocations nodes) {ptr : Word}
    (legal : ptr ∈ state.clients.map Prod.fst) :
    ∃ after, (Call.kfree ptr).run platform state = some after ∧ Consistent view after := by
  obtain ⟨⟨ptr, nbytes⟩, client, rfl⟩ := List.mem_map.mp legal
  obtain ⟨live, notNode⟩ := linked.clientsLive _ client
  obtain ⟨after, blocks', overhang', run, inv, only, _⟩ := Heap.kfree_spec linked.heap live
  have kept := nodes_dropped linked.nodesLive notNode
  simp only [Call.run, run, Option.map_some]
  refine ⟨_, rfl, .inr ⟨blocks', overhang', _, nodes, inv, linked.vmm_kept inv only.toRecordsOnly kept, kept, ?_⟩⟩
  intro entry member
  obtain ⟨client, other⟩ := List.mem_filter.mp member
  obtain ⟨old, entryNotNode⟩ := linked.clientsLive entry client
  exact ⟨List.mem_filter.mpr ⟨old, other⟩, entryNotNode⟩

/-- Work on region nodes does not touch the heap's headers. -/
theorem heap_kept {middle after : Heap σ} (inv : Heap.Inv view middle blocks overhang allocations)
    (sound : view.Sound after.world) (only : RecordsOnly view.withHeap middle after nodes)
    (owned : ∀ node ∈ nodes, (node, vmMetaSize) ∈ allocations) :
    Heap.Inv view after blocks overhang allocations := by
  obtain ⟨base, rest⟩ := Prod.mk.inj only.globals
  obtain ⟨finish, globals⟩ := Prod.mk.inj rest
  have kept := inv.of_recordsOnly sound ⟨only.mapped, only.bytes, globals⟩ owned
  rwa [← base, ← finish] at kept

theorem Linked.initializeVmm (linked : Linked view state blocks overhang allocations nodes)
    (allowed : Heap.HeapAllowed view) (unset : state.vmm.vmBase = 0)
    (ready : Heap.KmallocReady view vmMetaSize state.vmm.world) :
    ∃ after, Call.initializeVmm.run platform state = some after ∧ Consistent view after := by
  obtain ⟨rfl, noRegions⟩ : nodes = [] ∧ state.regions = [] := by
    rcases linked.vmm with ⟨_, dead⟩ | ⟨base, _⟩
    · exact dead
    · exact absurd unset base
  obtain ⟨ptr, middle, blocks', overhang', allocated, inv, keeps⟩ :=
    @kmalloc_node _ _ view _ _ [] _ _ allowed linked.heap (by simp) ready
  obtain ⟨vmm, middle', run, allocated', only, outcome⟩ := Vmm.initializeVmm_spec keeps
  cases allocated'.symm.trans allocated
  simp only [Call.run, run, Option.map_some]
  have clients : ∀ entry ∈ state.clients, entry ∈ Heap.held vmm.vmBase vmMetaSize allocations :=
    fun entry member => Heap.mem_held.mpr (.inr (linked.clientsLive entry member).1)
  rcases outcome with ⟨null, same⟩ | ⟨nonnull, vmmInv, _⟩
  · rw [← same] at inv
    exact ⟨_, rfl, .inr ⟨blocks', overhang', _, [], inv, .inl ⟨null, rfl, noRegions⟩, by simp,
      fun entry member => ⟨clients entry member, by simp⟩⟩⟩
  · have owned : ∀ node ∈ [vmm.vmBase], (node, vmMetaSize) ∈ Heap.held vmm.vmBase vmMetaSize allocations := by
      intro node member
      rw [List.mem_singleton.mp member]
      exact Heap.mem_held.mpr (.inl ⟨nonnull, rfl⟩)
    refine ⟨_, rfl, .inr ⟨blocks', overhang', _, [vmm.vmBase], heap_kept inv vmmInv.sound only.toRecordsOnly owned,
      .inr ⟨nonnull, by rw [noRegions]; exact vmmInv⟩, owned, ?_⟩⟩
    intro entry member
    refine ⟨clients entry member, ?_⟩
    rw [List.mem_singleton]
    exact fresh_pointer inv nonnull (linked.clientsLive entry member).1

theorem Linked.vmmAlloc (linked : Linked view state blocks overhang allocations nodes)
    (allowed : Heap.HeapAllowed view) {size flags : Word}
    (ready : CallReady view state.vmm (.vmmAlloc size flags)) :
    ∃ after, (Call.vmmAlloc size flags).run platform state = some after ∧ Consistent view after := by
  obtain ⟨pages, kmallocReady⟩ := ready
  rcases linked.vmm with ⟨unset, rfl, noRegions⟩ | ⟨base, vmm⟩
  · refine ⟨state, ?_, .inr ⟨blocks, overhang, allocations, [], linked⟩⟩
    simp only [Call.run, Vmm.vmmAlloc_unset _ unset, Option.map_some, Vmm.held, if_true]
  · have keeps : ∀ region, Vmm.ReachesSplit (heapPlatform platform) size state.vmm region →
        Vmm.KmallocKeeps view.withHeap nodes state.vmm.world :=
      fun region reaches => linked.kmallocKeeps allowed (kmallocReady region reaches)
    obtain ⟨ptr, after, run, middle, nodes', sameBase, vmmInv, only, source⟩ :=
      Vmm.vmmAlloc_spec vmm pages keeps
    simp only [Call.run, run, Option.map_some]
    rcases source with ⟨rfl, rfl⟩ | ⟨fresh, region, reaches, allocated, subset⟩
    · exact ⟨_, rfl, .inr ⟨blocks, overhang, allocations, nodes',
        heap_kept linked.heap vmmInv.sound only linked.nodesLive, .inr ⟨by rwa [sameBase], vmmInv⟩,
        linked.nodesLive, linked.clientsLive⟩⟩
    · obtain ⟨ptr', middle', blocks', overhang', allocated', inv, _⟩ :=
        kmalloc_node allowed linked.heap linked.nodesLive (kmallocReady region reaches)
      change Heap.kmalloc platform vmMetaSize state.vmm.world = _ at allocated
      cases allocated.symm.trans allocated'
      have owned : ∀ node ∈ nodes', (node, vmMetaSize) ∈ Heap.held fresh vmMetaSize allocations := by
        intro node member
        rcases subset node member with old | ⟨rfl, nonnull⟩
        · exact Heap.mem_held.mpr (.inr (linked.nodesLive node old))
        · exact Heap.mem_held.mpr (.inl ⟨nonnull, rfl⟩)
      refine ⟨_, rfl, .inr ⟨blocks', overhang', _, nodes', heap_kept inv vmmInv.sound only owned,
        .inr ⟨by rwa [sameBase], vmmInv⟩, owned, ?_⟩⟩
      intro entry member
      obtain ⟨old, notNode⟩ := linked.clientsLive entry member
      refine ⟨Heap.mem_held.mpr (.inr old), fun listed => ?_⟩
      rcases subset entry.1 listed with node | ⟨same, nonnull⟩
      · exact notNode node
      · exact fresh_pointer inv nonnull old same

theorem Linked.vmmFree (linked : Linked view state blocks overhang allocations nodes) (ptr : Word) :
    ∃ after, (Call.vmmFree ptr).run platform state = some after ∧ Consistent view after := by
  simp only [Call.run, Vmm.vmmFree_eq, Option.map_some]
  refine ⟨_, rfl, .inr ⟨blocks, overhang, allocations, nodes, linked.heap, ?_, linked.nodesLive,
    linked.clientsLive⟩⟩
  rcases linked.vmm with ⟨unset, empty, noRegions⟩ | ⟨base, vmm⟩
  · exact .inl ⟨unset, empty, by rw [noRegions]; rfl⟩
  · exact .inr ⟨base, vmm.drop ptr⟩

/-- Without a heap every call is refused, and there is nothing to free. -/
theorem run_withoutHeap (base : state.vmm.world.gMemoryBase = 0) (unset : state.vmm.vmBase = 0)
    (noClients : state.clients = []) (noRegions : state.regions = []) {call : Call} (legal : call.Legal state) :
    call.run platform state = some state := by
  obtain ⟨⟨vmBase, heap⟩, clients, regions⟩ := state
  dsimp only at base unset noClients noRegions
  subst unset noClients noRegions
  have refused : ∀ nbytes, Heap.kmalloc platform nbytes heap = some (0, heap) := fun nbytes => if_pos (.inr base)
  cases call with
  | initializeVmm => simp [Call.run, Vmm.initializeVmm, heapPlatform, refused]
  | kmalloc nbytes => simp [Call.run, refused, Heap.held]
  | kfree ptr => simp [Call.Legal] at legal
  | vmmAlloc size flags => simp [Call.run, Vmm.vmmAlloc_unset, Vmm.held]
  | vmmFree ptr => simp [Call.run, Vmm.vmmFree_eq, Vmm.dropped]

theorem Consistent.call (consistent : Consistent view state) (allowed : Heap.HeapAllowed view) {call : Call}
    (legal : call.Legal state) (ready : CallReady view state.vmm call) :
    ∃ after, call.run platform state = some after ∧ Consistent view after := by
  rcases consistent with ⟨sound, base, unset, noClients, noRegions⟩ | ⟨blocks, overhang, allocations, nodes, linked⟩
  · exact ⟨state, run_withoutHeap base unset noClients noRegions legal,
      .inl ⟨sound, base, unset, noClients, noRegions⟩⟩
  · cases call with
    | initializeVmm => exact linked.initializeVmm allowed legal ready
    | kmalloc nbytes => exact linked.kmalloc allowed ready.1 ready.2
    | kfree ptr => exact linked.kfree legal
    | vmmAlloc size flags => exact linked.vmmAlloc allowed ready
    | vmmFree ptr => exact linked.vmmFree ptr

/-- A run whose calls are all ready keeps the stack consistent. -/
theorem Reachable.consistent {condition : Vmm (Heap σ) → Call → Prop} {start : σ}
    (allowed : Heap.HeapAllowed view) (sound : view.Sound start)
    (booting : Heap.ReadyPages view Heap.initialPages kernelHeapStart start)
    (enough : ∀ vmm call, condition vmm call → CallReady view vmm call)
    (reached : Reachable platform condition start state) : Consistent view state := by
  induction reached with
  | boot run =>
      rcases Heap.initializeKernelHeap_spec allowed sound booting with
        ⟨after, _, soundAfter, gaveUp⟩ | ⟨_, heap, _, created, _, inv, _⟩
      · cases run.symm.trans gaveUp
        exact .inl ⟨soundAfter, rfl, rfl, rfl, rfl⟩
      · cases run.symm.trans created
        exact .inr ⟨_, _, [], [], inv, .inl ⟨rfl, rfl, rfl⟩, by simp, by simp⟩
  | call call _ legal ready run ih =>
      obtain ⟨after, result, consistent⟩ := ih.call allowed legal (enough _ _ ready)
      cases run.symm.trans result
      exact consistent

end Kernel

end ScratchOs
