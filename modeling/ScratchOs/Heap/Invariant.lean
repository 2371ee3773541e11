import ScratchOs.Heap.Layout
import ScratchOs.Heap.Ledger

namespace ScratchOs.Heap

open Data

variable {σ : Type} {platform : Platform σ}

/-- A client's pointer with the number of bytes it asked for. -/
abbrev Live := Word × Word

/-- The heap invariant: the list is laid out over mapped memory, and every
live pointer belongs to a used block that is large enough. -/
structure Inv (view : FlatView platform) (heap : Heap σ) (blocks : List Word) (overhang : Word)
    (live : List Live) : Prop where
  sound : view.Sound heap.world
  base : heap.gMemoryBase = kernelHeapStart
  layout : Layout (view.bytes heap.world) heap.endOfHeap blocks overhang
  mapped : span 0xD0000000 (heap.endOfHeap.toNat + 1 - 0xD0000000) ⊆ view.Mapped heap.world
  owner : ∀ entry ∈ live, ∃ block ∈ blocks, entry.1 = block + metaBlockSize ∧
    (header (view.bytes heap.world) block).free = false ∧
    entry.2.toNat ≤ (header (view.bytes heap.world) block).size.toNat
  positive : ∀ entry ∈ live, 0 < entry.2.toNat
  nodup : (live.map Prod.fst).Nodup

variable {view : FlatView platform} {heap : Heap σ} {blocks : List Word} {overhang : Word}
  {live : List Live} {block : Word} {world middle after : σ}

namespace Inv

theorem headerSpan_subset (inv : Inv view heap blocks overhang live) (member : block ∈ blocks) :
    headerSpan block ⊆ view.Mapped heap.world := by
  have inside := inv.layout.bounds member
  refine Set.Subset.trans ?_ inv.mapped
  intro address
  simp only [mem_span]
  omega

theorem headerMapped (inv : Inv view heap blocks overhang live) (member : block ∈ blocks) :
    HeaderMapped view heap.world block :=
  ⟨inv.sound, inv.layout.room member, inv.headerSpan_subset member⟩

theorem headerMapped_of_le (inv : Inv view heap blocks overhang live)
    (lower : 0xD0000000 ≤ block.toNat) (upper : block.toNat + 16 ≤ heap.endOfHeap.toNat) :
    HeaderMapped view heap.world block := by
  refine ⟨inv.sound, by omega, Set.Subset.trans ?_ inv.mapped⟩
  intro address
  simp only [mem_span]
  omega

theorem headers_grown (inv : Inv view heap blocks overhang live) (growth : Grown view heap.world after) :
    ∀ block ∈ blocks, header (view.bytes after) block = header (view.bytes heap.world) block :=
  fun _ member => header_congr (inv.layout.room member) (growth.bytes.mono (inv.headerSpan_subset member))

/-- Mapping more of the address space does not disturb the heap. -/
theorem grown (inv : Inv view heap blocks overhang live) (growth : Grown view heap.world after) :
    Inv view { heap with world := after } blocks overhang live := by
  have same := inv.headers_grown growth
  refine ⟨growth.sound, inv.base, ?_, inv.mapped.trans growth.mapped, ?_, inv.positive, inv.nodup⟩
  · apply inv.layout.congr
    intro block member
    simp [same block member]
  · intro entry member
    obtain ⟨block, listed, pointer, used, fits⟩ := inv.owner entry member
    exact ⟨block, listed, pointer, by rwa [same block listed], by rwa [same block listed]⟩

theorem chunks_grown (inv : Inv view heap blocks overhang live) (growth : Grown view heap.world after) :
    chunksOf (view.bytes after) blocks = chunksOf (view.bytes heap.world) blocks :=
  chunksOf_congr (inv.headers_grown growth)

end Inv

/-! The walks over the list. -/

theorem HeaderMapped.blockFits (ready : HeaderMapped view world block) (size : Word) :
    blockFits platform size world block = some ((header (view.bytes world) block).free &&
      decide (size ≤ (header (view.bytes world) block).size)) := by
  rw [Heap.blockFits, ready.loadFree]
  cases free : (header (view.bytes world) block).free with
  | false => rfl
  | true => simp [ready.loadSize]

theorem getLastKernelBlockFrom_eq {head : Word} {fuel : Nat} {nodes : List Word} {last : Word}
    (chain : Chain 0 (fun block => (header (view.bytes world) block).next) head (nodes ++ [last]))
    (ready : ∀ node ∈ nodes ++ [last], HeaderMapped view world node) (enough : nodes.length < fuel) :
    getLastKernelBlockFrom platform fuel head world = some last := by
  induction nodes generalizing head fuel with
  | nil =>
      obtain ⟨fuel, rfl⟩ := Nat.exists_eq_succ_of_ne_zero (Nat.ne_of_gt enough)
      obtain ⟨rfl, _, terminated⟩ := chain
      have only := ready head (by simp)
      change (header (view.bytes world) head).next = 0 at terminated
      simp [getLastKernelBlockFrom, only.loadNext, terminated]
  | cons node rest ih =>
      obtain ⟨rfl, _, tail⟩ := chain
      obtain ⟨fuel, rfl⟩ := Nat.exists_eq_succ_of_ne_zero (Nat.ne_of_gt (Nat.zero_lt_of_lt enough))
      have first := ready head (by simp)
      have left : rest.length < fuel := Nat.lt_of_succ_lt_succ enough
      have following := ih tail (fun node member => ready node (List.mem_cons_of_mem _ member)) left
      have more : (header (view.bytes world) head).next ≠ 0 := by
        cases rest with
        | nil => exact fun zero => tail.2.1 (tail.1.symm.trans zero)
        | cons second others => exact fun zero => tail.2.1 (tail.1.symm.trans zero)
      simp only [getLastKernelBlockFrom, first.loadNext, Option.bind_eq_bind, Option.bind_some, ne_eq,
        more, not_false_eq_true, if_true]
      exact following

end ScratchOs.Heap
