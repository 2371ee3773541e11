import Mathlib.Data.List.Find
import ScratchOs.Heap.Runs

namespace ScratchOs.Heap

open Data

/-! Allocations that are given back in the reverse order.

Here the heap need not come from `initialize_kernel_heap`: any list of headers
will do whose blocks stand in order of address and keep clear of each other. A
large block may end up to a header too far, as the first block of the real heap
does. -/

def Chunk.footprint (chunk : Chunk) : Nat :=
  if 64 < chunk.size.toNat then chunk.size.toNat else 16 + chunk.size.toNat

structure Spaced (chunks : List Chunk) : Prop where
  inside : ∀ chunk ∈ chunks, kernelHeapStart.toNat ≤ chunk.place.toNat ∧
    chunk.place.toNat + chunk.footprint ≤ kernelHeapEnd.toNat
  ordered : chunks.Pairwise fun left right => left.place.toNat + left.footprint ≤ right.place.toNat

variable {σ : Type} {platform : Platform σ}

/-- A heap whose block list, from `g_memory_base` to `NULL`, is `chunks`. -/
structure WellFormed (view : FlatView platform) (heap : Heap σ) (chunks : List Chunk) : Prop where
  sound : view.Sound heap.world
  spaced : Spaced chunks
  listed : BlockList (view.bytes heap.world) heap.gMemoryBase (chunks.map Chunk.place)
  headers : ∀ chunk ∈ chunks, chunkAt (view.bytes heap.world) chunk.place = chunk
  canary : ∀ chunk ∈ chunks, (header (view.bytes heap.world) chunk.place).canary = canaryValue
  mapped : ∀ chunk ∈ chunks, span chunk.place.toNat chunk.footprint ⊆ view.Mapped heap.world

/-- A properly nested sequence of calls: `kmalloc`, what happens until its
`kfree`, and what comes after that. -/
inductive Nest where
  | done
  | pair (nbytes : Word) (inner rest : Nest)

namespace Nest

def run (platform : Platform σ) : Nest → Heap σ → Option (Heap σ)
  | done, heap => some heap
  | pair nbytes inner rest, heap => do
      let (ptr, heap) ← kmalloc platform nbytes heap
      let heap ← inner.run platform heap
      let heap ← kfree platform ptr heap
      rest.run platform heap

/-- Every `kmalloc` of the sequence finds a block on the list. -/
def Served (platform : Platform σ) : Nest → Heap σ → Prop
  | done, _ => True
  | pair nbytes inner rest, heap =>
      nbytes ≠ 0 ∧ (∃ block, findFirstFreeKernelBlock platform nbytes heap = some block ∧ block ≠ 0) ∧
      ∀ ptr allocated, kmalloc platform nbytes heap = some (ptr, allocated) → inner.Served platform allocated ∧
        ∀ back freed, inner.run platform allocated = some back → kfree platform ptr back = some freed →
          rest.Served platform freed

end Nest

/-! Lists of spaced chunks. -/

namespace Chunk

theorem footprint_bounds (chunk : Chunk) :
    16 ≤ chunk.footprint ∧ chunk.size.toNat ≤ chunk.footprint ∧ chunk.footprint ≤ 16 + chunk.size.toNat := by
  unfold footprint
  split <;> omega

end Chunk

namespace Spaced

variable {chunk : Chunk} {chunks front back : List Chunk} {nbytes : Word}

theorem nodup (spaced : Spaced chunks) : (chunks.map Chunk.place).Nodup := by
  refine List.pairwise_map.mpr (spaced.ordered.imp fun {left _} ordered same => ?_)
  have positive := left.footprint_bounds
  rw [same] at ordered
  omega

theorem length_le {lower : Nat} (ordered : chunks.Pairwise fun left right =>
      left.place.toNat + left.footprint ≤ right.place.toNat) (start : lower ≤ kernelHeapEnd.toNat)
    (inside : ∀ chunk ∈ chunks, lower ≤ chunk.place.toNat ∧ chunk.place.toNat + chunk.footprint ≤ kernelHeapEnd.toNat) :
    lower + 16 * chunks.length ≤ kernelHeapEnd.toNat := by
  induction chunks generalizing lower with
  | nil => exact start
  | cons first rest ih =>
      obtain ⟨before, later⟩ := List.pairwise_cons.mp ordered
      have positive := first.footprint_bounds
      obtain ⟨left, right⟩ := inside first (by simp)
      have following := ih later right fun chunk member =>
        ⟨before chunk member, (inside chunk (by simp [member])).2⟩
      rw [List.length_cons]
      omega

theorem length_lt_walkFuel (spaced : Spaced chunks) : chunks.length < walkFuel := by
  have bound := length_le spaced.ordered (by decide) spaced.inside
  rw [kernelHeapStart_toNat, kernelHeapEnd_toNat] at bound
  unfold walkFuel
  omega

theorem bounds (spaced : Spaced chunks) (member : chunk ∈ chunks) :
    0xD0000000 ≤ chunk.place.toNat ∧ chunk.place.toNat + chunk.footprint ≤ 0xE0000000 :=
  spaced.inside chunk member

/-- The chunks around one of the list lie before and behind it. -/
theorem around (spaced : Spaced (front ++ chunk :: back)) {other : Chunk} (member : other ∈ front ++ back) :
    other.place.toNat + other.footprint ≤ chunk.place.toNat ∨
      chunk.place.toNat + chunk.footprint ≤ other.place.toNat := by
  obtain ⟨_, behind, before⟩ := List.pairwise_append.mp spaced.ordered
  rcases List.mem_append.mp member with inFront | inBack
  · exact .inl (before other inFront chunk (by simp))
  · exact .inr ((List.pairwise_cons.mp behind).1 other inBack)

/-- Chunks that take no more room than the one they replace. -/
theorem replace (spaced : Spaced (front ++ chunk :: back)) {pieces : List Chunk}
    (inside : ∀ piece ∈ pieces, chunk.place.toNat ≤ piece.place.toNat ∧
      piece.place.toNat + piece.footprint ≤ chunk.place.toNat + chunk.footprint)
    (ordered : pieces.Pairwise fun left right => left.place.toNat + left.footprint ≤ right.place.toNat) :
    Spaced (front ++ (pieces ++ back)) := by
  obtain ⟨frontOrdered, behind, before⟩ := List.pairwise_append.mp spaced.ordered
  obtain ⟨chunkBefore, backOrdered⟩ := List.pairwise_cons.mp behind
  have bounds := spaced.inside chunk (by simp)
  constructor
  · intro other member
    rcases List.mem_append.mp member with inFront | member
    · exact spaced.inside other (by simp [inFront])
    · rcases List.mem_append.mp member with piece | inBack
      · have within := inside other piece
        omega
      · exact spaced.inside other (by simp [inBack])
  · refine List.pairwise_append.mpr ⟨frontOrdered, List.pairwise_append.mpr ⟨ordered, backOrdered, ?_⟩, ?_⟩
    · intro piece member other inBack
      have within := inside piece member
      have next := chunkBefore other inBack
      omega
    · intro other inFront piece member
      rcases List.mem_append.mp member with member | inBack
      · have within := inside piece member
        have next := before other inFront chunk (by simp)
        omega
      · exact before other inFront piece (by simp [inBack])

theorem split_addresses (spaced : Spaced (front ++ chunk :: back)) (large : nbytes.toNat + 80 < chunk.size.toNat) :
    (chunk.place + nbytes + metaBlockSize).toNat = chunk.place.toNat + 16 + nbytes.toNat ∧
      (chunk.size - nbytes - metaBlockSize).toNat = chunk.size.toNat - nbytes.toNat - 16 := by
  have bounds := spaced.bounds (show chunk ∈ front ++ chunk :: back by simp)
  have sizes := chunk.footprint_bounds
  unfold metaBlockSize
  constructor <;> bv_omega

end Spaced

namespace WellFormed

variable {view : FlatView platform} {heap : Heap σ} {chunk : Chunk} {chunks front back : List Chunk}
  {nbytes : Word} {after : σ}

theorem headerMapped (formed : WellFormed view heap chunks) (member : chunk ∈ chunks) :
    HeaderMapped view heap.world chunk.place := by
  have bounds := formed.spaced.bounds member
  have sizes := chunk.footprint_bounds
  refine ⟨formed.sound, by omega, Set.Subset.trans ?_ (formed.mapped chunk member)⟩
  intro address
  simp only [mem_span]
  omega

theorem header_free (formed : WellFormed view heap chunks) (member : chunk ∈ chunks) :
    (header (view.bytes heap.world) chunk.place).free = chunk.free :=
  congrArg Chunk.free (formed.headers chunk member)

theorem header_size (formed : WellFormed view heap chunks) (member : chunk ∈ chunks) :
    (header (view.bytes heap.world) chunk.place).size = chunk.size :=
  congrArg Chunk.size (formed.headers chunk member)

/-- Stores inside the footprint of one chunk leave the other headers alone. -/
theorem header_kept (formed : WellFormed view heap (front ++ chunk :: back))
    (outside : Set.EqOn (view.bytes after) (view.bytes heap.world) (span chunk.place.toNat chunk.footprint)ᶜ)
    {other : Chunk} (member : other ∈ front ++ back) :
    header (view.bytes after) other.place = header (view.bytes heap.world) other.place := by
  have listed : other ∈ front ++ chunk :: back := Layout.mem_of_mem_rest member
  have bounds := formed.spaced.bounds listed
  have sizes := other.footprint_bounds
  have order := formed.spaced.around member
  apply header_congr (by omega)
  apply outside.mono
  intro address
  simp only [Set.mem_compl_iff, mem_span]
  omega

/-- Replacing a stretch of the list, the rest of it as it was. -/
theorem replace {old pieces : List Chunk} (formed : WellFormed view heap (front ++ (old ++ back)))
    (sound : view.Sound after) (mapped : view.Mapped after = view.Mapped heap.world)
    (spaced : Spaced (front ++ (pieces ++ back)))
    (listed : BlockList (view.bytes after) heap.gMemoryBase ((front ++ (pieces ++ back)).map Chunk.place))
    (kept : ∀ other ∈ front ++ back,
      header (view.bytes after) other.place = header (view.bytes heap.world) other.place)
    (made : ∀ piece ∈ pieces, chunkAt (view.bytes after) piece.place = piece ∧
      (header (view.bytes after) piece.place).canary = canaryValue ∧
      span piece.place.toNat piece.footprint ⊆ view.Mapped heap.world) :
    WellFormed view { heap with world := after } (front ++ (pieces ++ back)) := by
  have cases : ∀ other ∈ front ++ (pieces ++ back), other ∈ pieces ∨ other ∈ front ++ back := by
    intro other member
    simp only [List.mem_append] at member ⊢
    tauto
  have before : ∀ other ∈ front ++ back, other ∈ front ++ (old ++ back) := by
    intro other member
    simp only [List.mem_append] at member ⊢
    tauto
  refine ⟨sound, spaced, listed, fun other member => ?_, fun other member => ?_, fun other member => ?_⟩
  · rcases cases other member with piece | rest
    · exact (made other piece).1
    · rw [chunkAt, kept other rest]
      exact formed.headers other (before other rest)
  · rcases cases other member with piece | rest
    · exact (made other piece).2.1
    · rw [kept other rest]
      exact formed.canary other (before other rest)
  · rw [mapped]
    rcases cases other member with piece | rest
    · exact (made other piece).2.2
    · exact formed.mapped other (before other rest)

theorem setFree (formed : WellFormed view heap (front ++ chunk :: back)) (flag : Bool) :
    ∃ after, storeFree platform chunk.place flag heap.world = some after ∧
      WellFormed view { heap with world := after } (front ++ ⟨chunk.place, chunk.size, flag⟩ :: back) ∧
      view.Mapped after = view.Mapped heap.world := by
  have member : chunk ∈ front ++ chunk :: back := by simp
  obtain ⟨after, store, stored⟩ := (formed.headerMapped member).storeFree flag
  have sizes := chunk.footprint_bounds
  have kept : ∀ other ∈ front ++ back,
      header (view.bytes after) other.place = header (view.bytes heap.world) other.place := by
    intro other rest
    apply formed.header_kept (stored.outside.mono _) rest
    intro address
    simp only [Set.mem_compl_iff, mem_span]
    omega
  refine ⟨after, store, @replace _ _ _ _ front back after [chunk] [⟨chunk.place, chunk.size, flag⟩] formed
    stored.sound stored.mapped ?_ ?_ kept ?_, stored.mapped⟩
  · refine formed.spaced.replace ?_ (by simp)
    intro piece listed
    obtain rfl := List.mem_singleton.mp listed
    exact ⟨le_rfl, le_rfl⟩
  · have places : (front ++ ([(⟨chunk.place, chunk.size, flag⟩ : Chunk)] ++ back)).map Chunk.place =
        (front ++ chunk :: back).map Chunk.place := by simp
    rw [places]
    refine formed.listed.congr fun place listed => ?_
    obtain ⟨other, otherMember, rfl⟩ := List.mem_map.mp listed
    by_cases same : other.place = chunk.place
    · rw [same, stored.stored]
    · rw [kept other]
      simp only [List.mem_append, List.mem_cons] at otherMember ⊢
      rcases otherMember with inFront | rfl | inBack
      · exact .inl inFront
      · exact absurd rfl same
      · exact .inr inBack
  · intro piece listed
    obtain rfl := List.mem_singleton.mp listed
    refine ⟨?_, ?_, formed.mapped chunk member⟩
    · rw [chunkAt, stored.stored, formed.header_size member]
    · rw [stored.stored]
      exact formed.canary chunk member

/-- Cutting a free chunk in two. -/
theorem split (formed : WellFormed view heap (front ++ chunk :: back)) (free : chunk.free = true)
    (large : nbytes.toNat + 80 < chunk.size.toNat) :
    ∃ after, splitBlock platform chunk.place nbytes heap.world = some after ∧
      WellFormed view { heap with world := after } (front ++ ⟨chunk.place, nbytes, true⟩ ::
        ⟨chunk.place + nbytes + metaBlockSize, chunk.size - nbytes - metaBlockSize, true⟩ :: back) ∧
      view.Mapped after = view.Mapped heap.world := by
  have member : chunk ∈ front ++ chunk :: back := by simp
  obtain ⟨address, remaining⟩ := formed.spaced.split_addresses large
  have bounds := formed.spaced.bounds member
  have whole : chunk.footprint = chunk.size.toNat := if_pos (by omega)
  have freshReady : HeaderMapped view heap.world (chunk.place + nbytes + metaBlockSize) := by
    refine ⟨formed.sound, by omega, Set.Subset.trans ?_ (formed.mapped chunk member)⟩
    intro place
    simp only [mem_span]
    omega
  have apart : headerSpan chunk.place ⊆ (headerSpan (chunk.place + nbytes + metaBlockSize))ᶜ := by
    intro place
    simp only [Set.mem_compl_iff, mem_span]
    omega
  obtain ⟨after, run, sound, blockFinal, freshFinal, outside, mapped, _⟩ :=
    splitBlock_stores (formed.headerMapped member) freshReady rfl apart
  have kept : ∀ other ∈ front ++ back,
      header (view.bytes after) other.place = header (view.bytes heap.world) other.place := by
    intro other rest
    apply formed.header_kept (outside.mono _) rest
    intro place
    simp only [Set.mem_compl_iff, Set.mem_union, mem_span]
    omega
  have first : (⟨chunk.place, nbytes, true⟩ : Chunk).footprint ≤ 16 + nbytes.toNat :=
    (Chunk.footprint_bounds _).2.2
  have second : (⟨chunk.place + nbytes + metaBlockSize, chunk.size - nbytes - metaBlockSize, true⟩ :
      Chunk).footprint = chunk.size.toNat - nbytes.toNat - 16 := by
    rw [Chunk.footprint, remaining, if_pos (by omega)]
  have ordered : chunk.place.toNat + (⟨chunk.place, nbytes, true⟩ : Chunk).footprint ≤
      (chunk.place + nbytes + metaBlockSize).toNat := by omega
  refine ⟨after, run, @replace _ _ _ _ front back after [chunk] [⟨chunk.place, nbytes, true⟩,
    ⟨chunk.place + nbytes + metaBlockSize, chunk.size - nbytes - metaBlockSize, true⟩] formed sound mapped ?_ ?_ kept
    ?_, mapped⟩
  · refine formed.spaced.replace (List.forall_mem_cons.mpr ⟨?_, List.forall_mem_singleton.mpr ?_⟩)
      (by simpa using ordered)
    · dsimp only
      omega
    · dsimp only
      omega
  · have listed := formed.listed
    rw [BlockList, List.map_append, List.map_cons] at listed
    rw [BlockList, List.map_append, List.map_append]
    refine listed.insert_after ?_ (by rw [blockFinal]) (by rw [freshFinal]) fun place rest => ?_
    · intro null
      have zero := congrArg BitVec.toNat null
      dsimp only at zero
      rw [address] at zero
      simp at zero
    · rw [← List.map_append] at rest
      obtain ⟨other, otherMember, rfl⟩ := List.mem_map.mp rest
      rw [kept other otherMember]
  · have inMapped := formed.mapped chunk member
    refine List.forall_mem_cons.mpr ⟨⟨?_, ?_, Set.Subset.trans ?_ inMapped⟩, List.forall_mem_singleton.mpr
      ⟨?_, ?_, Set.Subset.trans ?_ inMapped⟩⟩
    · rw [chunkAt, blockFinal, formed.header_free member, free]
    · rw [blockFinal]
      exact formed.canary chunk member
    · intro place
      simp only [mem_span]
      omega
    · rw [chunkAt, freshFinal, formed.header_size member]
    · rw [freshFinal]
    · intro place
      simp only [mem_span]
      omega

/-- A free chunk takes in the one behind it, if the result is spaced and mapped. -/
theorem merge {next : Chunk} (formed : WellFormed view heap (front ++ chunk :: next :: back))
    (free : chunk.free = true)
    (spaced : Spaced (front ++ ⟨chunk.place, chunk.size + (next.size + metaBlockSize), true⟩ :: back))
    (inMapped : span chunk.place.toNat
      (⟨chunk.place, chunk.size + (next.size + metaBlockSize), true⟩ : Chunk).footprint ⊆ view.Mapped heap.world) :
    ∃ linked after, storeNext platform chunk.place (header (view.bytes heap.world) next.place).next heap.world =
        some linked ∧
      loadSize platform chunk.place linked = some chunk.size ∧
      loadSize platform next.place linked = some next.size ∧
      storeSize platform chunk.place (chunk.size + (next.size + metaBlockSize)) linked = some after ∧
      WellFormed view { heap with world := after }
        (front ++ ⟨chunk.place, chunk.size + (next.size + metaBlockSize), true⟩ :: back) ∧
      view.Mapped after = view.Mapped heap.world := by
  have member : chunk ∈ front ++ chunk :: next :: back := by simp
  have nextMember : next ∈ front ++ chunk :: next :: back := by simp
  have sizes := chunk.footprint_bounds
  have ready := formed.headerMapped member
  obtain ⟨linked, store1, stored1⟩ := ready.storeNext (header (view.bytes heap.world) next.place).next
  obtain ⟨after, store2, stored2⟩ := (ready.persist stored1).storeSize (chunk.size + (next.size + metaBlockSize))
  have stored := stored1.trans stored2
  rw [stored1.stored] at stored
  have kept : ∀ {world}, Set.EqOn (view.bytes world) (view.bytes heap.world) (headerSpan chunk.place)ᶜ →
      ∀ other ∈ front ++ next :: back,
        header (view.bytes world) other.place = header (view.bytes heap.world) other.place := by
    intro world outside other rest
    apply formed.header_kept (outside.mono _) rest
    intro address
    simp only [Set.mem_compl_iff, mem_span]
    omega
  have nextKept := kept stored1.outside next (by simp)
  have keptAfter := kept stored.outside
  refine ⟨linked, after, store1, ?_, ?_, store2, @replace _ _ _ _ front back after [chunk, next]
    [⟨chunk.place, chunk.size + (next.size + metaBlockSize), true⟩] formed stored.sound stored.mapped spaced ?_ ?_
    (List.forall_mem_singleton.mpr ⟨?_, ?_, inMapped⟩), stored.mapped⟩
  · rw [(ready.persist stored1).loadSize, stored1.stored, formed.header_size member]
  · rw [((formed.headerMapped nextMember).persist stored1).loadSize, nextKept, formed.header_size nextMember]
  · have listed := formed.listed
    rw [BlockList, List.map_append, List.map_cons, List.map_cons] at listed
    rw [BlockList, List.map_append, List.map_append]
    refine listed.remove_after (by rw [stored.stored]) fun place rest => ?_
    rw [← List.map_append] at rest
    obtain ⟨other, otherMember, rfl⟩ := List.mem_map.mp rest
    rw [keptAfter other (Layout.mem_of_mem_rest otherMember)]
  · exact fun other rest => keptAfter other (Layout.mem_of_mem_rest rest)
  · rw [chunkAt, stored.stored, formed.header_free member, free]
  · rw [stored.stored]
    exact formed.canary chunk member

/-- First fit on the list of chunks. -/
theorem find (formed : WellFormed view heap chunks) (nbytes : Word) :
    findFirstFreeKernelBlock platform nbytes heap =
      some (((chunks.find? fun chunk => chunk.suits nbytes).map Chunk.place).getD 0) := by
  have reads : ∀ node ∈ chunks.map Chunk.place,
      blockFits platform nbytes heap.world node = some ((chunkAt (view.bytes heap.world) node).suits nbytes) ∧
        loadNext platform node heap.world = some (header (view.bytes heap.world) node).next := by
    intro node listed
    obtain ⟨chunk, member, rfl⟩ := List.mem_map.mp listed
    exact ⟨(formed.headerMapped member).blockFits nbytes, (formed.headerMapped member).loadNext⟩
  have fuel := formed.spaced.length_lt_walkFuel
  rw [← @List.length_map _ _ chunks Chunk.place] at fuel
  have walked := Chain.findNode_eq formed.listed fuel reads
  change findFirstFreeKernelBlock platform nbytes heap =
    some (((chunks.map Chunk.place).find? fun node => (chunkAt (view.bytes heap.world) node).suits nbytes).getD 0)
    at walked
  rw [walked, List.find?_map]
  congr 3
  apply List.find?_congr
  intro chunk member
  rw [Function.comp_apply, formed.headers chunk member]

theorem serve_of_find (formed : WellFormed view heap chunks) {block : Word}
    (found : findFirstFreeKernelBlock platform nbytes heap = some block) (nonnull : block ≠ 0) :
    ∃ front chunk back, chunks = front ++ chunk :: back ∧ chunk.place = block ∧ chunk.suits nbytes = true ∧
      serve nbytes chunks = some (block, front ++ (chunk.cut nbytes ++ back)) := by
  rw [formed.find nbytes, Option.some_inj] at found
  cases first : chunks.find? fun chunk => chunk.suits nbytes with
  | none =>
      rw [first] at found
      exact absurd found.symm nonnull
  | some chunk =>
      rw [first] at found
      obtain ⟨suits, front, back, rfl, skipped⟩ := List.find?_eq_some_iff_append.mp first
      obtain rfl : chunk.place = block := found
      refine ⟨front, chunk, back, rfl, rfl, suits, serve_append (fun other member => ?_) suits⟩
      exact Bool.not_eq_true _ ▸ fun fits => by simpa [fits] using skipped other member

theorem kmalloc_listed (formed : WellFormed view heap (front ++ chunk :: back))
    (found : findFirstFreeKernelBlock platform nbytes heap = some chunk.place) (positive : nbytes ≠ 0)
    (suits : chunk.suits nbytes = true) :
    ∃ after, kmalloc platform nbytes heap = some (chunk.place + metaBlockSize, { heap with world := after }) ∧
      WellFormed view { heap with world := after } (front ++ (chunk.cut nbytes ++ back)) ∧
      view.Mapped after = view.Mapped heap.world := by
  have member : chunk ∈ front ++ chunk :: back := by simp
  obtain ⟨free, fits⟩ := Bool.and_eq_true_iff.mp suits
  rw [decide_eq_true_iff, BitVec.le_def] at fits
  have bounds := formed.spaced.bounds member
  have nonnull : chunk.place ≠ 0 := by
    intro null
    rw [null] at bounds
    simp at bounds
  have base : heap.gMemoryBase ≠ 0 := by
    intro empty
    rw [findFirstFreeKernelBlock, empty] at found
    exact nonnull (Option.some_inj.mp found).symm
  have sizes := chunk.footprint_bounds
  have total : (nbytes + metaBlockSize + minMemBlockSize).toNat = nbytes.toNat + 80 := by
    unfold metaBlockSize minMemBlockSize
    bv_omega
  unfold Heap.kmalloc
  rw [if_neg (not_or.mpr ⟨positive, base⟩)]
  simp only [found, nonnull, (formed.headerMapped member).loadSize, formed.header_size member, Option.bind_eq_bind,
    Option.bind_some, if_false]
  by_cases large : nbytes + metaBlockSize + minMemBlockSize < chunk.size
  · have room := large
    rw [BitVec.lt_def, total] at room
    obtain ⟨world, cut, formedCut, mappedCut⟩ := formed.split free room
    obtain ⟨after, store, formedAfter, mappedAfter⟩ := formedCut.setFree false
    refine ⟨after, ?_, ?_, mappedAfter.trans mappedCut⟩
    · rw [if_pos large]
      dsimp only at store
      simp only [cut, store, Option.bind_some]
    · rw [Chunk.cut, if_pos large]
      exact formedAfter
  · obtain ⟨after, store, formedAfter, mappedAfter⟩ := formed.setFree false
    refine ⟨after, ?_, ?_, mappedAfter⟩
    · rw [if_neg large]
      simp only [store, Option.bind_some]
    · rw [Chunk.cut, if_neg large]
      exact formedAfter

theorem kfree_listed (formed : WellFormed view heap (front ++ chunk :: back)) (positive : 0 < chunk.size.toNat)
    (spaced : Spaced (front ++ Chunk.absorb ⟨chunk.place, chunk.size, true⟩ back))
    (inMapped : ∀ other ∈ front ++ Chunk.absorb ⟨chunk.place, chunk.size, true⟩ back,
      span other.place.toNat other.footprint ⊆ view.Mapped heap.world) :
    ∃ after, kfree platform (chunk.place + metaBlockSize) heap = some { heap with world := after } ∧
      WellFormed view { heap with world := after } (front ++ Chunk.absorb ⟨chunk.place, chunk.size, true⟩ back) ∧
      view.Mapped after = view.Mapped heap.world := by
  have member : chunk ∈ front ++ chunk :: back := by simp
  have bounds := formed.spaced.bounds member
  have large : 17 ≤ chunk.footprint := by
    unfold Chunk.footprint
    split <;> omega
  have passes : ¬(chunk.place + metaBlockSize = 0 ∨ kernelHeapEnd ≤ chunk.place + metaBlockSize ∨
      chunk.place + metaBlockSize ≤ kernelHeapStart) := by
    rw [BitVec.le_def, BitVec.le_def, kernelHeapStart_toNat, kernelHeapEnd_toNat]
    unfold metaBlockSize
    bv_omega
  have block : chunk.place + metaBlockSize - metaBlockSize = chunk.place := BitVec.add_sub_cancel ..
  obtain ⟨world, store, formedFree, mappedFree⟩ := formed.setFree true
  have freedMember : (⟨chunk.place, chunk.size, true⟩ : Chunk) ∈ front ++ ⟨chunk.place, chunk.size, true⟩ :: back := by
    simp
  have freed := formedFree.headerMapped freedMember
  have links := formedFree.listed
  rw [BlockList, List.map_append, List.map_cons] at links
  unfold Heap.kfree
  rw [if_neg passes, block]
  dsimp only at freed
  simp only [(formed.headerMapped member).loadCanary, formed.canary chunk member, store, freed.loadNext,
    Option.bind_eq_bind, Option.bind_some, ne_eq, not_true_eq_false, if_false]
  cases back with
  | nil =>
      have terminated := links.next_eq_null
      dsimp only at terminated
      rw [if_pos terminated]
      exact ⟨world, rfl, formedFree, mappedFree⟩
  | cons next rest =>
      have nextMember : next ∈ front ++ ⟨chunk.place, chunk.size, true⟩ :: next :: rest := by simp
      have nextReady := formedFree.headerMapped nextMember
      have nonnull : next.place ≠ 0 := links.ne_null (by simp)
      rw [List.map_cons] at links
      have link := links.next_eq_head
      dsimp only at link nextReady
      rw [link, if_neg nonnull]
      simp only [nextReady.loadFree, formedFree.header_free nextMember, Option.bind_some]
      rw [Chunk.absorb] at spaced inMapped ⊢
      cases nextFree : next.free with
      | false =>
          rw [if_neg Bool.false_ne_true]
          exact ⟨world, rfl, formedFree, mappedFree⟩
      | true =>
          rw [nextFree, if_pos rfl] at spaced inMapped
          obtain ⟨linked, after, store1, load1, load2, store2, formedAfter, mappedAfter⟩ :=
            formedFree.merge rfl spaced
              (by rw [mappedFree]; exact inMapped _ (List.mem_append_right _ List.mem_cons_self))
          dsimp only at store1 load1 load2 store2
          simp only [nextReady.loadNext, store1, load1, load2, store2, Option.bind_some, if_true]
          exact ⟨after, rfl, formedAfter, mappedAfter.trans mappedFree⟩

end WellFormed

/-- What the proofs about the real heap call its invariant is one such list. -/
theorem Inv.wellFormed {view : FlatView platform} {heap : Heap σ} {blocks : List Word} {overhang : Word}
    {live : List Live} (inv : Inv view heap blocks overhang live) :
    WellFormed view heap (chunksOf (view.bytes heap.world) blocks) := by
  have footprint : ∀ block ∈ blocks, (chunkAt (view.bytes heap.world) block).footprint ≤
      16 + effectiveSize (view.bytes heap.world) overhang block := by
    intro block member
    unfold Chunk.footprint chunkAt effectiveSize
    dsimp only
    by_cases last : block = overhang
    · have large := inv.layout.overhang_size
      rw [← last] at large
      rw [if_pos large, if_pos last]
      omega
    · rw [if_neg last]
      split <;> omega
  have places : (chunksOf (view.bytes heap.world) blocks).map Chunk.place = blocks := by
    rw [chunksOf, List.map_map]
    exact List.map_id _
  refine ⟨inv.sound, ⟨List.forall_mem_map.mpr fun block member => ?_, List.pairwise_map.mpr ?_⟩, ?_,
    List.forall_mem_map.mpr fun block member => rfl, List.forall_mem_map.mpr inv.layout.canary,
    List.forall_mem_map.mpr fun block member => ?_⟩
  · have bounds := inv.layout.bounds member
    have small := footprint block member
    rw [kernelHeapStart_toNat, kernelHeapEnd_toNat]
    change 0xD0000000 ≤ block.toNat ∧ block.toNat + _ ≤ _
    omega
  · refine inv.layout.tiles.pairwise.imp_of_mem fun {left right} member _ ordered => ?_
    have small := footprint left member
    change left.toNat + _ ≤ right.toNat
    omega
  · rw [places]
    exact inv.blockList
  · have bounds := inv.layout.bounds member
    have small := footprint block member
    refine Set.Subset.trans ?_ inv.mapped
    intro address
    rw [mem_span_to, mem_span]
    change block.toNat ≤ _ ∧ _ < block.toNat + _ → _
    omega

/-- Allocations that are given back in the reverse order leave the list as it
was, block by block, however the requests cut it up in between. -/
theorem nested_restores (view : FlatView platform) (nest : Nest) (heap : Heap σ) (chunks : List Chunk)
    (formed : WellFormed view heap chunks) (coalesced : Coalesced chunks) (served : nest.Served platform heap) :
    ∃ after, nest.run platform heap = some after ∧ WellFormed view after chunks ∧
      after.gMemoryBase = heap.gMemoryBase ∧ after.endOfHeap = heap.endOfHeap ∧
      view.Mapped after.world = view.Mapped heap.world := by
  induction nest generalizing heap chunks with
  | done => exact ⟨heap, rfl, formed, rfl, rfl, rfl⟩
  | pair nbytes inner rest innerRestores restRestores =>
      obtain ⟨positive, ⟨block, found, nonnull⟩, later⟩ := served
      obtain ⟨front, chunk, back, rfl, rfl, suits, serves⟩ := formed.serve_of_find found nonnull
      obtain ⟨world, allocated, formedIn, mappedIn⟩ := formed.kmalloc_listed found positive suits
      obtain ⟨released, coalescedIn⟩ := coalesced.serve_release formed.spaced.nodup serves
      obtain ⟨innerServed, restServed⟩ := later _ _ allocated
      obtain ⟨middle, innerRun, formedOut, base, finish, mappedOut⟩ :=
        innerRestores _ _ formedIn coalescedIn innerServed
      obtain ⟨first, tail, shape, here, size⟩ := chunk.cut_head nbytes back
      have firstPositive : 0 < first.size.toNat := by
        have enough := of_decide_eq_true (Bool.and_eq_true_iff.mp suits).2
        rw [BitVec.le_def] at enough
        rcases size with size | size <;> rw [size] <;> bv_omega
      have elsewhere : ∀ other ∈ front, other.place ≠ chunk.place := by
        intro other member same
        have distinct := formed.spaced.nodup
        rw [List.map_append, List.map_cons] at distinct
        exact List.disjoint_of_nodup_append distinct (List.mem_map_of_mem member) (by simp [same])
      rw [shape] at formedOut released
      rw [release_append elsewhere here] at released
      -- The inner calls have left the chunk as it was handed out, so giving it back restores it.
      obtain ⟨last, freed, formedLast, mappedLast⟩ := formedOut.kfree_listed firstPositive
        (by rw [released]; exact formed.spaced)
        (by rw [released, mappedOut, mappedIn]; exact formed.mapped)
      rw [here] at freed
      rw [released] at formedLast
      obtain ⟨after, restRun, formedAfter, baseAfter, finishAfter, mappedAfter⟩ :=
        restRestores _ _ formedLast coalesced (restServed _ _ innerRun freed)
      refine ⟨after, ?_, formedAfter, baseAfter.trans base, finishAfter.trans finish, ?_⟩
      · simp only [Nest.run, allocated, innerRun, freed, restRun, Option.bind_eq_bind, Option.bind_some]
      · rw [mappedAfter, mappedLast, mappedOut, mappedIn]

/-- Two requests on a new heap, the second given back first. -/
def twoNested : Nest := .pair 32 (.pair 16 .done .done) .done

/-- Where the two requests of `twoNested` find their blocks. -/
def twoNestedBlocks : Option (Word × Word) := do
  let heap ← initializeKernelHeap (flatPlatform plentiful) (fun _ => 0, ())
  let outer ← findFirstFreeKernelBlock (flatPlatform plentiful) 32 heap
  let (_, allocated) ← kmalloc (flatPlatform plentiful) 32 heap
  let inner ← findFirstFreeKernelBlock (flatPlatform plentiful) 16 allocated
  some (outer, inner)

theorem nested_restores_twoNested : ∃ heap after, twoNested.run (flatPlatform plentiful) heap = some after ∧
    WellFormed (FlatView.flat plentiful) after [⟨kernelHeapStart, initialKernelHeapSize, true⟩] := by
  have result : twoNestedBlocks = some (kernelHeapStart, 0xD0000030) := by decide +kernel
  simp only [twoNestedBlocks, Option.bind_eq_bind, Option.bind_eq_some_iff, Option.some.injEq, Prod.mk.injEq,
    Prod.exists] at result
  obtain ⟨heap, boot, outer, outerFound, ptr, allocated, alloc, inner, innerFound, rfl, rfl⟩ := result
  have formed : WellFormed (FlatView.flat plentiful) heap [⟨kernelHeapStart, initialKernelHeapSize, true⟩] := by
    rcases initializeKernelHeap_spec (heapAllowed_flat plentiful) trivial (readyPages_flat plentiful _ _ _) with
      ⟨world, _, _, gaveUp⟩ | ⟨_, created, _, run, _, inv, first, _⟩
    · cases boot.symm.trans gaveUp
      exact absurd (Option.some_inj.mp outerFound) (by decide : (0 : Word) ≠ kernelHeapStart)
    · cases boot.symm.trans run
      have formed := inv.wellFormed
      rwa [chunksOf_cons, chunksOf_nil, chunkAt, first] at formed
  have served : twoNested.Served (flatPlatform plentiful) heap := by
    refine ⟨by decide, ⟨_, outerFound, by decide⟩, fun other otherHeap again => ?_⟩
    cases alloc.symm.trans again
    exact ⟨⟨by decide, ⟨_, innerFound, by decide⟩, fun _ _ _ => ⟨trivial, fun _ _ _ _ => trivial⟩⟩,
      fun _ _ _ _ => trivial⟩
  obtain ⟨after, run, formedAfter, _⟩ :=
    nested_restores (FlatView.flat plentiful) twoNested heap _ formed (List.isChain_singleton _) served
  exact ⟨heap, after, run, formedAfter⟩

end ScratchOs.Heap
