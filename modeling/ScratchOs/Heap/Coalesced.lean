import ScratchOs.Heap.Window

namespace ScratchOs.Heap

open Data

/-! Whether free neighbours are always merged.

`kfree` looks at the block behind the one it frees and never at the one before
it, so two free blocks can come to stand next to each other. -/

section Chunks

variable {chunk : Chunk} {chunks front back : List Chunk} {place : Word} {live : List Live} {nbytes ptr : Word}

/-- Giving a chunk back leaves no two free neighbours, unless the one before it is free. -/
theorem Coalesced.absorb_iff (coalesced : Coalesced (front ++ chunk :: back)) :
    Coalesced (front ++ Chunk.absorb ⟨chunk.place, chunk.size, true⟩ back) ↔
      ∀ previous ∈ front.getLast?, previous.free = false := by
  obtain ⟨before, behind⟩ := List.isChain_split.mp coalesced
  have merged : ∃ size rest, Chunk.absorb ⟨chunk.place, chunk.size, true⟩ back = ⟨chunk.place, size, true⟩ :: rest ∧
      List.IsChain Chunk.Separate ((⟨chunk.place, size, true⟩ : Chunk) :: rest) := by
    cases back with
    | nil => exact ⟨_, _, rfl, by simp⟩
    | cons next rest =>
        have later := (List.isChain_cons_cons.mp behind).2
        rw [Chunk.absorb]
        cases nextFree : next.free with
        | true =>
            refine ⟨_, rest, if_pos rfl, ?_⟩
            cases rest with
            | nil => simp
            | cons third others =>
                obtain ⟨apart, others⟩ := List.isChain_cons_cons.mp later
                exact List.isChain_cons_cons.mpr ⟨Chunk.separate_congr apart nextFree.symm rfl, others⟩
        | false =>
            exact ⟨_, _, if_neg Bool.false_ne_true, List.isChain_cons_cons.mpr ⟨.inr nextFree, later⟩⟩
  obtain ⟨size, rest, shape, linked⟩ := merged
  rw [shape, Coalesced, List.isChain_append]
  constructor
  · rintro ⟨_, _, joint⟩ previous last
    rcases joint previous last _ rfl with used | used
    · exact used
    · cases used
  · intro used
    refine ⟨before.left_of_append, linked, ?_⟩
    intro previous last next first
    exact .inl (used previous last)

/-- Every chunk in use belongs to a client. -/
def Owned (chunks : List Chunk) (live : List Live) : Prop :=
  ∀ chunk ∈ chunks, chunk.free = false → chunk.place + metaBlockSize ∈ live.map Prod.fst

theorem mem_held_map {ptr other : Word} (member : other ∈ live.map Prod.fst) :
    other ∈ (held ptr nbytes live).map Prod.fst := by
  unfold held
  split
  · exact member
  · exact List.mem_cons_of_mem _ member

theorem self_mem_held (nonnull : ptr ≠ 0) : ptr ∈ (held ptr nbytes live).map Prod.fst := by
  rw [held_of_ne nonnull, List.map_cons]
  exact List.mem_cons_self

/-- A request keeps the list coalesced and gives the chunk it hands out an owner. -/
theorem Allocates.coalesced {before after : Ledger} (step : Allocates nbytes before ptr after)
    (coalesced : Coalesced before.chunks) (owned : Owned before.chunks live)
    (distinct : (before.chunks.map Chunk.place).Nodup)
    (placed : ∀ chunk ∈ before.chunks, chunk.place + metaBlockSize ≠ 0)
    (beyond : before.finish + metaBlockSize ≠ 0) :
    Coalesced after.chunks ∧ Owned after.chunks (held ptr nbytes live) := by
  cases step with
  | refused => exact ⟨coalesced, by rwa [held, if_pos rfl]⟩
  | served positive found =>
      refine ⟨(coalesced.serve_release distinct found).2, ?_⟩
      obtain ⟨front, chunk, back, whole, rfl, suits, _, rfl⟩ := serve_cases found
      have pointer := placed chunk (by rw [whole]; simp)
      intro other member used
      simp only [List.mem_append] at member
      rcases member with inFront | piece | inBack
      · exact mem_held_map (owned other (by rw [whole]; simp [inFront]) used)
      · -- Of the pieces only the first is in use.
        have first : other.place = chunk.place := by
          rw [Chunk.cut] at piece
          split at piece
          · rcases List.mem_cons.mp piece with rfl | piece
            · rfl
            · rw [List.mem_singleton.mp piece] at used
              cases used
          · rw [List.mem_singleton.mp piece]
        rw [first]
        exact self_mem_held pointer
      · exact mem_held_map (owned other (by rw [whole]; simp [inBack]) used)
  | extended positive missing grown limit =>
      constructor
      · refine List.isChain_append.mpr ⟨coalesced, by simp, ?_⟩
        intro previous last next first
        cases first
        exact .inr rfl
      · intro other member used
        rcases List.mem_append.mp member with old | new
        · exact mem_held_map (owned other old used)
        · rw [List.mem_singleton.mp new]
          exact self_mem_held beyond

/-- A chunk that is given back loses its owner, the others keep theirs. -/
theorem Owned.release (owned : Owned (front ++ chunk :: back) live)
    (distinct : ((front ++ chunk :: back).map Chunk.place).Nodup) :
    Owned (front ++ Chunk.absorb ⟨chunk.place, chunk.size, true⟩ back)
      (dropped (chunk.place + metaBlockSize) live) := by
  intro other member used
  have rest : other ∈ front ++ back := by
    rcases List.mem_append.mp member with inFront | absorbed
    · simp [inFront]
    · cases back with
      | nil =>
          rw [List.mem_singleton.mp absorbed] at used
          cases used
      | cons next others =>
          rw [Chunk.absorb] at absorbed
          split at absorbed
          · rcases List.mem_cons.mp absorbed with rfl | later
            · cases used
            · simp [later]
          · rcases List.mem_cons.mp absorbed with rfl | later
            · cases used
            · exact List.mem_append_right _ later
  have different : other.place ≠ chunk.place := by
    intro same
    rw [List.map_append, List.map_cons, List.nodup_middle, ← List.map_append] at distinct
    exact (List.nodup_cons.mp distinct).1 (same ▸ List.mem_map_of_mem rest)
  obtain ⟨entry, entryMember, pointer⟩ := List.mem_map.mp (owned other (Layout.mem_of_mem_rest rest) used)
  refine List.mem_map.mpr ⟨entry, List.mem_filter.mpr ⟨entryMember, ?_⟩, pointer⟩
  rw [pointer, decide_eq_true_iff]
  exact fun same => different (metaBlockSize_add_inj same)

theorem Coalesced.single (coalesced : Coalesced chunks) (owned : Owned chunks []) (some : chunks ≠ []) :
    ∃ chunk, chunks = [chunk] ∧ chunk.free = true := by
  have free : ∀ chunk ∈ chunks, chunk.free = true := by
    intro chunk member
    cases flag : chunk.free with
    | true => rfl
    | false => exact absurd (owned chunk member flag) (by simp)
  cases chunks with
  | nil => exact absurd rfl some
  | cons first rest =>
      cases rest with
      | nil => exact ⟨first, rfl, free first (by simp)⟩
      | cons second others =>
          rcases (List.isChain_cons_cons.mp coalesced).1 with used | used
          · rw [free first (by simp)] at used
            cases used
          · rw [free second (by simp)] at used
            cases used

end Chunks

/-- The block that comes right before `block` on the list is free. -/
def FreeBefore (memory : ByteMemory) (gMemoryBase block : Word) : Prop :=
  ∃ front previous back, BlockList memory gMemoryBase (front ++ previous :: block :: back) ∧
    (header memory previous).free = true

variable {σ : Type} {platform : Platform σ}

/-- Runs in which no request wraps and no block is freed behind a free one. -/
inductive ReachableInOrder (view : FlatView platform) (start : σ) : Heap σ → List Live → Prop
  | boot {heap} : initializeKernelHeap platform start = some heap → ReachableInOrder view start heap []
  | kmalloc {heap live after} {ptr nbytes : Word} : ReachableInOrder view start heap live →
      Unwrapped platform nbytes heap → kmalloc platform nbytes heap = some (ptr, after) →
      ReachableInOrder view start after (held ptr nbytes live)
  | kfree {heap live after} {ptr nbytes : Word} : ReachableInOrder view start heap live →
      (ptr, nbytes) ∈ live → ¬ FreeBefore (view.bytes heap.world) heap.gMemoryBase (ptr - metaBlockSize) →
      kfree platform ptr heap = some after → ReachableInOrder view start after (dropped ptr live)

variable {view : FlatView platform} {start : σ} {heap : Heap σ} {live : List Live} {blocks : List Word}
  {overhang : Word}

theorem Inv.places_nodup (inv : Inv view heap blocks overhang live) :
    ((chunksOf (view.bytes heap.world) blocks).map Chunk.place).Nodup := by
  rw [chunksOf, List.map_map]
  exact (List.map_id blocks).symm ▸ inv.layout.nodup

/-- On the chunks: the last one before the block is free. -/
theorem Inv.freeBefore_iff {front back : List Word} {block : Word}
    (inv : Inv view heap (front ++ block :: back) overhang live) :
    (∀ previous ∈ (chunksOf (view.bytes heap.world) front).getLast?, previous.free = false) ↔
      ¬ FreeBefore (view.bytes heap.world) heap.gMemoryBase block := by
  constructor
  · rintro used ⟨before, previous, behind, listed, free⟩
    have same : before ++ previous :: block :: behind = front ++ block :: back := listed.unique inv.blockList
    have split : (before ++ [previous]) ++ block :: behind = front ++ block :: back := by
      rw [← same, List.append_assoc]
      rfl
    have distinct := inv.layout.nodup
    rw [← split, List.nodup_middle] at distinct
    have absent := (List.nodup_cons.mp distinct).1
    rw [List.mem_append, not_or] at absent
    obtain ⟨rfl, _⟩ := (List.append_cons_inj_of_notMem absent.1 absent.2).mp split
    have last := used (chunkAt (view.bytes heap.world) previous) (by simp [chunksOf])
    rw [chunkAt, free] at last
    cases last
  · intro none previous last
    rw [chunksOf, List.getLast?_map] at last
    obtain ⟨before, ends, rfl⟩ := Option.map_eq_some_iff.mp last
    obtain ⟨shorter, rfl⟩ := List.getLast?_eq_some_iff.mp ends
    cases free : (header (view.bytes heap.world) before).free with
    | false => rw [chunkAt, free]
    | true =>
        refine absurd ⟨shorter, before, back, ?_, free⟩ none
        have listed := inv.blockList
        rwa [List.append_assoc] at listed

/-- `kfree` of a live pointer, on a list that was coalesced. -/
theorem Inv.kfree_coalesced (inv : Inv view heap blocks overhang live) {ptr nbytes : Word}
    (member : (ptr, nbytes) ∈ live) (coalesced : Coalesced (chunksOf (view.bytes heap.world) blocks))
    (owned : Owned (chunksOf (view.bytes heap.world) blocks) live) :
    ∃ after blocks' overhang', Heap.kfree platform ptr heap = some after ∧
      Inv view after blocks' overhang' (dropped ptr live) ∧
      Owned (chunksOf (view.bytes after.world) blocks') (dropped ptr live) ∧
      (Coalesced (chunksOf (view.bytes after.world) blocks') ↔
        ¬ FreeBefore (view.bytes heap.world) heap.gMemoryBase (ptr - metaBlockSize)) := by
  obtain ⟨listed, pointer, _⟩ := inv.block_of_live member
  obtain ⟨after, blocks', overhang', run, invAfter, _, step⟩ := kfree_spec inv member
  refine ⟨after, blocks', overhang', run, invAfter, ?_⟩
  have chunks : chunksOf (view.bytes after.world) blocks' = Heap.release (ptr - metaBlockSize) (chunksOf (view.bytes heap.world) blocks) :=
    congrArg Ledger.chunks step
  generalize ptr - metaBlockSize = block at *
  subst pointer
  obtain ⟨front, back, rfl⟩ := List.append_of_mem listed
  have distinct := inv.places_nodup
  have elsewhere : ∀ chunk ∈ chunksOf (view.bytes heap.world) front, chunk.place ≠ block := by
    refine List.forall_mem_map.mpr fun piece pieceMember => ?_
    exact inv.layout.ne_of_mem_rest (List.mem_append_left _ pieceMember)
  rw [chunksOf_append, chunksOf_cons] at chunks coalesced owned distinct
  rw [chunks, release_append elsewhere rfl]
  exact ⟨owned.release distinct, coalesced.absorb_iff.trans inv.freeBefore_iff⟩

/-- The list of a run in order: coalesced, and every used block has an owner. -/
theorem ReachableInOrder.coalesced (prepared : Prepared view start)
    (reached : ReachableInOrder view start heap live) :
    ∃ blocks overhang, Inv view heap blocks overhang live ∧
      Coalesced (chunksOf (view.bytes heap.world) blocks) ∧ Owned (chunksOf (view.bytes heap.world) blocks) live := by
  induction reached with
  | boot run =>
      rcases initializeKernelHeap_spec prepared.allowed prepared.sound prepared.booting with
        ⟨_, _, _, gaveUp⟩ | ⟨_, _, _, booted, _, inv, first, _⟩
      · exact absurd rfl (prepared.created _ gaveUp)
      · cases run.symm.trans booted
        refine ⟨_, _, inv, List.isChain_singleton _, ?_⟩
        intro chunk member used
        rw [List.mem_singleton.mp member] at used
        cases (congrArg Header.free first).symm.trans used
  | kmalloc _ fits run ih =>
      obtain ⟨blocks, overhang, inv, coalesced, owned⟩ := ih
      obtain ⟨ptr, after, blocks', overhang', result, invAfter, _, _, step⟩ := kmalloc_spec prepared.allowed inv
        (fits inv.base_ne_zero) (prepared.ready _ _)
      cases run.symm.trans result
      obtain ⟨placed, beyond⟩ := inv.placed
      exact ⟨_, _, invAfter, step.coalesced coalesced owned inv.places_nodup placed beyond⟩
  | kfree _ member order run ih =>
      obtain ⟨blocks, overhang, inv, coalesced, owned⟩ := ih
      obtain ⟨after, blocks', overhang', result, invAfter, ownedAfter, stays⟩ :=
        inv.kfree_coalesced member coalesced owned
      cases run.symm.trans result
      exact ⟨_, _, invAfter, stays.mpr order, ownedAfter⟩

/-- With no two free neighbours and nothing allocated the list is one free block. -/
theorem Inv.single (inv : Inv view heap blocks overhang []) (coalesced : Coalesced (chunksOf (view.bytes heap.world) blocks))
    (owned : Owned (chunksOf (view.bytes heap.world) blocks) []) :
    ∃ block, blocks = [block] ∧ (header (view.bytes heap.world) block).free = true := by
  have some : chunksOf (view.bytes heap.world) blocks ≠ [] := by
    intro empty
    rw [chunksOf, List.map_eq_nil_iff] at empty
    exact List.ne_nil_of_mem inv.layout.overhang_mem empty
  obtain ⟨chunk, only, free⟩ := coalesced.single owned some
  obtain ⟨block, rfl, rfl⟩ := List.map_eq_singleton_iff.mp only
  exact ⟨block, rfl, free⟩

end ScratchOs.Heap
