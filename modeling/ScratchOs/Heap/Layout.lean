import ScratchOs.Data.Tiling
import ScratchOs.Heap.Header

namespace ScratchOs.Heap

open Data

/-! The address invariant of the block list.

`initialize_kernel_heap` gives its first block the whole initial size although
the header is part of it, so the list describes 16 bytes more than the heap
has. Those bytes move with splits and merges but stay in one place: exactly one
block, the overhanging one, ends 16 bytes into whatever follows it. Not
counting them, headers and data tile the heap.
-/

def effectiveSize (memory : ByteMemory) (overhang block : Word) : Nat :=
  (header memory block).size.toNat - if block = overhang then 16 else 0

structure Layout (memory : ByteMemory) (finish : Word) (blocks : List Word) (overhang : Word) : Prop where
  chain : Chain 0 (fun block => (header memory block).next) kernelHeapStart blocks
  tiles : Tiles BitVec.toNat (fun block => 16 + effectiveSize memory overhang block)
    kernelHeapStart.toNat blocks finish.toNat
  overhang_mem : overhang ∈ blocks
  overhang_size : 64 < (header memory overhang).size.toNat
  canary : ∀ block ∈ blocks, (header memory block).canary = canaryValue
  finish_le : finish.toNat ≤ kernelHeapEnd.toNat

variable {memory memory' : ByteMemory} {finish finish' block other fresh overhang : Word}
  {blocks before after : List Word} {size : Word}

theorem kernelHeapStart_toNat : kernelHeapStart.toNat = 0xD0000000 := rfl
theorem kernelHeapEnd_toNat : kernelHeapEnd.toNat = 0xE0000000 := rfl

/-- The data of a block stands behind its header. -/
theorem toNat_add_metaBlockSize {place : Word} (limit : place.toNat + 16 < 2 ^ 32) :
    (place + metaBlockSize).toNat = place.toNat + 16 := by
  unfold metaBlockSize
  bv_omega

theorem effectiveSize_of_ne (different : block ≠ overhang) :
    effectiveSize memory overhang block = (header memory block).size.toNat := by
  simp [effectiveSize, different]

theorem effectiveSize_self (memory : ByteMemory) (overhang : Word) :
    effectiveSize memory overhang overhang = (header memory overhang).size.toNat - 16 := by
  simp [effectiveSize]

theorem effectiveSize_le (memory : ByteMemory) (overhang block : Word) :
    effectiveSize memory overhang block ≤ (header memory block).size.toNat ∧
      (header memory block).size.toNat ≤ effectiveSize memory overhang block + 16 := by
  unfold effectiveSize
  split <;> omega

namespace Layout

theorem bounds (layout : Layout memory finish blocks overhang) (member : block ∈ blocks) :
    0xD0000000 ≤ block.toNat ∧
      block.toNat + 16 + effectiveSize memory overhang block ≤ finish.toNat ∧
      finish.toNat ≤ 0xE0000000 := by
  have inside := layout.tiles.bounds member
  have limit := layout.finish_le
  rw [kernelHeapStart_toNat] at inside
  rw [kernelHeapEnd_toNat] at limit
  omega

theorem room (layout : Layout memory finish blocks overhang) (member : block ∈ blocks) :
    block.toNat + 16 ≤ 2 ^ 32 := by
  have inside := layout.bounds member
  omega

theorem apart (layout : Layout memory finish blocks overhang) (member : block ∈ blocks)
    (otherMember : other ∈ blocks) (different : block ≠ other) :
    block.toNat + 16 + effectiveSize memory overhang block ≤ other.toNat ∨
      other.toNat + 16 + effectiveSize memory overhang other ≤ block.toNat := by
  have pieces := layout.tiles.apart member otherMember different
  omega

theorem nodup (layout : Layout memory finish blocks overhang) : blocks.Nodup :=
  layout.tiles.nodup fun _ _ => Nat.lt_of_lt_of_le (by decide) (Nat.le_add_right 16 _)

theorem headers_apart (layout : Layout memory finish blocks overhang) (member : block ∈ blocks)
    (otherMember : other ∈ blocks) (different : other ≠ block) :
    headerSpan other ⊆ (headerSpan block)ᶜ := by
  have order := layout.apart member otherMember (Ne.symm different)
  intro address
  simp only [Set.mem_compl_iff, mem_span]
  omega

theorem header_other (layout : Layout memory finish blocks overhang) (member : block ∈ blocks)
    (outside : Set.EqOn memory' memory (headerSpan block)ᶜ) (otherMember : other ∈ blocks)
    (different : other ≠ block) : header memory' other = header memory other :=
  header_congr (layout.room otherMember)
    (outside.mono (layout.headers_apart member otherMember different))

/-- Only links, sizes and canaries matter for the layout. -/
theorem congr (layout : Layout memory finish blocks overhang)
    (same : ∀ block ∈ blocks, (header memory' block).next = (header memory block).next ∧
      (header memory' block).size = (header memory block).size ∧
      (header memory' block).canary = (header memory block).canary) :
    Layout memory' finish blocks overhang where
  chain := layout.chain.congr fun block member => (same block member).1
  tiles := layout.tiles.congr (fun _ _ => rfl) fun block member => by
    simp only [effectiveSize, (same block member).2.1]
  overhang_mem := layout.overhang_mem
  overhang_size := by
    rw [(same overhang layout.overhang_mem).2.1]
    exact layout.overhang_size
  canary block member := (same block member).2.2.trans (layout.canary block member)
  finish_le := layout.finish_le

theorem setFree {flag : Bool} (layout : Layout memory finish blocks overhang) (member : block ∈ blocks)
    (stored : header memory' block = { header memory block with free := flag })
    (outside : Set.EqOn memory' memory (headerSpan block)ᶜ) : Layout memory' finish blocks overhang := by
  apply layout.congr
  intro other otherMember
  by_cases same : other = block
  · subst same
    simp [stored]
  · simp [layout.header_other member outside otherMember same]

/-- The overhang after splitting `block`: it follows the end of the block. -/
def overhangAfterSplit (overhang block fresh : Word) : Word := if block = overhang then fresh else overhang

/-- The addresses a split works with: nothing wraps, and the new header stands
in the data of the old block. -/
theorem split_addresses (layout : Layout memory finish blocks overhang) (member : block ∈ blocks)
    (large : size.toNat + 80 < (header memory block).size.toNat) :
    (block + size + metaBlockSize).toNat = block.toNat + 16 + size.toNat ∧
      ((header memory block).size - size - metaBlockSize).toNat =
        (header memory block).size.toNat - size.toNat - 16 ∧
      block.toNat + 16 + size.toNat + 16 ≤ finish.toNat := by
  have inside := layout.bounds member
  have sizes := effectiveSize_le memory overhang block
  unfold metaBlockSize
  refine ⟨?_, ?_, ?_⟩
  · bv_omega
  · bv_omega
  · omega

theorem mem_of_mem_rest {α : Type} {other block : α} {before after : List α} (member : other ∈ before ++ after) :
    other ∈ before ++ block :: after := by
  rcases List.mem_append.mp member with front | back
  · simp [front]
  · simp [back]

theorem ne_of_mem_rest (layout : Layout memory finish (before ++ block :: after) overhang)
    (member : other ∈ before ++ after) : other ≠ block := by
  rintro rfl
  have moved : (other :: (before ++ after)).Nodup := List.perm_middle.nodup_iff.mp layout.nodup
  exact (List.nodup_cons.mp moved).1 member

/-- Stores inside the piece of one block leave all other headers alone. -/
theorem header_kept (layout : Layout memory finish (before ++ block :: after) overhang)
    (outside : Set.EqOn memory' memory
      (span block.toNat (16 + effectiveSize memory overhang block))ᶜ)
    (member : other ∈ before ++ after) : header memory' other = header memory other := by
  have listed : other ∈ before ++ block :: after := mem_of_mem_rest member
  apply header_congr (layout.room listed)
  apply outside.mono
  have order := layout.apart listed (by simp) (layout.ne_of_mem_rest member)
  intro address
  simp only [Set.mem_compl_iff, mem_span]
  omega

/-- An address inside the piece of a block, but not its start, is no block. -/
theorem not_mem_of_inside (layout : Layout memory finish (before ++ block :: after) overhang)
    (fresh : Word) (lower : block.toNat < fresh.toNat)
    (upper : fresh.toNat < block.toNat + 16 + effectiveSize memory overhang block) :
    fresh ∉ before ++ block :: after := by
  intro member
  have different : block ≠ fresh := fun same => by rw [same] at lower; omega
  have order := layout.apart (show block ∈ before ++ block :: after by simp) member different
  omega

theorem split (layout : Layout memory finish (before ++ block :: after) overhang)
    (large : size.toNat + 80 < (header memory block).size.toNat)
    (place : fresh = block + size + metaBlockSize)
    (first : (header memory' block).next = fresh ∧ (header memory' block).size = size ∧
      (header memory' block).canary = canaryValue)
    (second : (header memory' fresh).next = (header memory block).next ∧
      (header memory' fresh).size = (header memory block).size - size - metaBlockSize ∧
      (header memory' fresh).canary = canaryValue)
    (outside : Set.EqOn memory' memory (headerSpan block ∪ headerSpan fresh)ᶜ) :
    Layout memory' finish (before ++ block :: fresh :: after)
      (overhangAfterSplit overhang block fresh) := by
  have member : block ∈ before ++ block :: after := by simp
  obtain ⟨address, remaining, reach⟩ := layout.split_addresses member large
  rw [← place] at address
  have inside := layout.bounds member
  have sizes := effectiveSize_le memory overhang block
  have absent := layout.not_mem_of_inside fresh (by omega) (by omega)
  have kept : ∀ other ∈ before ++ after, header memory' other = header memory other := by
    intro other otherMember
    refine layout.header_kept (outside.mono ?_) otherMember
    intro place
    simp only [Set.mem_compl_iff, Set.mem_union, mem_span]
    omega
  have blockNeFresh : block ≠ fresh := fun same => by rw [same] at address; omega
  have overhangNeFresh : overhang ≠ fresh := fun same => absent (same ▸ layout.overhang_mem)
  -- The overhang goes with the end of the old block.
  have othersIff : ∀ other ∈ before ++ after,
      (other = overhangAfterSplit overhang block fresh ↔ other = overhang) := by
    intro other otherMember
    have notBlock := layout.ne_of_mem_rest otherMember
    have notFresh : other ≠ fresh := fun same => absent (same ▸ mem_of_mem_rest otherMember)
    unfold overhangAfterSplit
    split
    · rename_i moved
      subst moved
      simp [notFresh, notBlock]
    · exact Iff.rfl
  have blockNe : block ≠ overhangAfterSplit overhang block fresh := by
    unfold overhangAfterSplit
    split
    · exact blockNeFresh
    · assumption
  have freshIff : fresh = overhangAfterSplit overhang block fresh ↔ block = overhang := by
    unfold overhangAfterSplit
    split
    · rename_i moved
      exact iff_of_true rfl moved
    · rename_i stays
      exact iff_of_false (Ne.symm overhangNeFresh) stays
  have effectiveBlock : effectiveSize memory' (overhangAfterSplit overhang block fresh) block =
      size.toNat := by rw [effectiveSize_of_ne blockNe, first.2.1]
  have effectiveFresh : effectiveSize memory' (overhangAfterSplit overhang block fresh) fresh + 16 +
      size.toNat = effectiveSize memory overhang block := by
    unfold effectiveSize
    rw [second.2.1, remaining]
    simp only [freshIff]
    split <;> omega
  refine ⟨?_, ?_, ?_, ?_, ?_, layout.finish_le⟩
  · refine layout.chain.insert_after ?_ first.1 second.1 fun other otherMember => ?_
    · rintro rfl
      simp at address
      omega
    · rw [kept other otherMember]
  · have tiles : Tiles BitVec.toNat (fun piece => 16 + effectiveSize memory overhang piece)
        kernelHeapStart.toNat (before ++ [block] ++ after) finish.toNat := by simpa using layout.tiles
    rw [show before ++ block :: fresh :: after = before ++ [block, fresh] ++ after by simp]
    refine tiles.replace (fun _ _ => rfl) (fun other otherMember => ?_) ?_
    · rw [effectiveSize, effectiveSize, kept other otherMember]
      simp only [othersIff other otherMember]
    · rintro left right ⟨placed, ends⟩
      dsimp only [Tiles] at ends ⊢
      omega
  · unfold overhangAfterSplit
    split
    · simp
    · have listed := layout.overhang_mem
      simp only [List.mem_append, List.mem_cons] at listed ⊢
      tauto
  · unfold overhangAfterSplit
    split
    · rw [second.2.1, remaining]
      omega
    · rename_i stays
      have listed := layout.overhang_mem
      rw [kept overhang (by simp only [List.mem_append, List.mem_cons] at listed ⊢; tauto)]
      exact layout.overhang_size
  · intro other otherMember
    by_cases isBlock : other = block
    · rw [isBlock, first.2.2]
    · by_cases isFresh : other = fresh
      · rw [isFresh, second.2.2]
      · have rest : other ∈ before ++ after := by
          simp only [List.mem_append, List.mem_cons] at otherMember ⊢
          tauto
        rw [kept other rest]
        exact layout.canary other (mem_of_mem_rest rest)

/-- The overhang after `block` has swallowed `other`: it stays at the end. -/
def overhangAfterMerge (overhang block other : Word) : Word := if other = overhang then block else overhang

theorem next_piece (layout : Layout memory finish (before ++ block :: other :: after) overhang) :
    other.toNat = block.toNat + 16 + effectiveSize memory overhang block := by
  obtain ⟨middle, _, placed, following, _⟩ := Tiles.append.mp layout.tiles
  dsimp only at following
  omega

/-- Two neighbours together overhang at most once. -/
theorem merge_sizes (layout : Layout memory finish (before ++ block :: other :: after) overhang) :
    ((header memory block).size + ((header memory other).size + metaBlockSize)).toNat =
      (header memory block).size.toNat + (header memory other).size.toNat + 16 := by
  have place := layout.next_piece
  have inside := layout.bounds (show block ∈ before ++ block :: other :: after by simp)
  have otherInside := layout.bounds (show other ∈ before ++ block :: other :: after by simp)
  have sizes := effectiveSize_le memory overhang block
  have otherSizes := effectiveSize_le memory overhang other
  unfold metaBlockSize
  bv_omega

theorem merge (layout : Layout memory finish (before ++ block :: other :: after) overhang)
    (stored : (header memory' block).next = (header memory other).next ∧
      (header memory' block).size =
        (header memory block).size + ((header memory other).size + metaBlockSize) ∧
      (header memory' block).canary = canaryValue)
    (outside : Set.EqOn memory' memory (headerSpan block)ᶜ) :
    Layout memory' finish (before ++ block :: after) (overhangAfterMerge overhang block other) := by
  have place := layout.next_piece
  have total := layout.merge_sizes
  have kept : ∀ piece ∈ before ++ after, header memory' piece = header memory piece := by
    intro piece pieceMember
    refine layout.header_kept (outside.mono ?_) (show piece ∈ before ++ other :: after from ?_)
    · intro address
      simp only [Set.mem_compl_iff, mem_span]
      omega
    · exact mem_of_mem_rest pieceMember
  have notBlock : ∀ piece ∈ before ++ after, piece ≠ block := fun piece pieceMember =>
    layout.ne_of_mem_rest (mem_of_mem_rest pieceMember)
  have otherNeBlock : other ≠ block := layout.ne_of_mem_rest (by simp)
  have notOther : ∀ piece ∈ before ++ after, piece ≠ other := by
    intro piece pieceMember
    have moved : Layout memory finish ((before ++ [block]) ++ other :: after) overhang := by
      simpa using layout
    refine moved.ne_of_mem_rest ?_
    simp only [List.mem_append] at pieceMember ⊢
    tauto
  have piecesIff : ∀ piece ∈ before ++ after,
      (piece = overhangAfterMerge overhang block other ↔ piece = overhang) := by
    intro piece pieceMember
    unfold overhangAfterMerge
    split
    · rename_i swallowed
      exact iff_of_false (notBlock piece pieceMember) (swallowed ▸ notOther piece pieceMember)
    · exact Iff.rfl
  have blockIff : block = overhangAfterMerge overhang block other ↔ block = overhang ∨ other = overhang := by
    unfold overhangAfterMerge
    split
    · rename_i swallowed
      exact iff_of_true rfl (.inr swallowed)
    · rename_i stays
      simp only [stays, or_false]
  have fits := layout.overhang_size
  have effectiveBlock : effectiveSize memory' (overhangAfterMerge overhang block other) block =
      effectiveSize memory overhang block + 16 + effectiveSize memory overhang other := by
    unfold effectiveSize
    rw [stored.2.1, total]
    simp only [blockIff]
    by_cases blockOver : block = overhang
    · subst blockOver
      simp only [otherNeBlock, or_false, if_true, if_false]
      omega
    · by_cases otherOver : other = overhang
      · subst otherOver
        simp only [blockOver, or_true, if_true, if_false]
        omega
      · simp only [blockOver, otherOver, or_self, if_false]
        omega
  refine ⟨?_, ?_, ?_, ?_, ?_, layout.finish_le⟩
  · exact layout.chain.remove_after stored.1 fun piece pieceMember => by rw [kept piece pieceMember]
  · have tiles : Tiles BitVec.toNat (fun piece => 16 + effectiveSize memory overhang piece)
        kernelHeapStart.toNat (before ++ [block, other] ++ after) finish.toNat := by
      simpa using layout.tiles
    rw [show before ++ block :: after = before ++ [block] ++ after by simp]
    refine tiles.replace (fun _ _ => rfl) (fun piece pieceMember => ?_) ?_
    · rw [effectiveSize, effectiveSize, kept piece pieceMember]
      simp only [piecesIff piece pieceMember]
    · rintro left right ⟨placed, _, ends⟩
      dsimp only [Tiles] at ends ⊢
      omega
  · unfold overhangAfterMerge
    split
    · simp
    · rename_i stays
      have listed := layout.overhang_mem
      simp only [List.mem_append, List.mem_cons] at listed ⊢
      have absent : overhang ≠ other := Ne.symm stays
      tauto
  · unfold overhangAfterMerge
    split
    · rename_i swallowed
      rw [stored.2.1, total, swallowed]
      omega
    · rename_i stays
      by_cases isBlock : overhang = block
      · rw [isBlock] at fits
        rw [isBlock, stored.2.1, total]
        omega
      · have listed := layout.overhang_mem
        have absent : overhang ≠ other := Ne.symm stays
        rw [kept overhang (by simp only [List.mem_append, List.mem_cons] at listed ⊢; tauto)]
        exact fits
  · intro piece pieceMember
    by_cases isBlock : piece = block
    · rw [isBlock, stored.2.2]
    · have rest : piece ∈ before ++ after := by
        simp only [List.mem_append, List.mem_cons] at pieceMember ⊢
        tauto
      rw [kept piece rest]
      exact layout.canary piece (mem_of_mem_rest (mem_of_mem_rest rest))

/-- A new block at the end of the heap. Its header may lie over the last bytes
of an overhanging block, never over another header. -/
theorem extend (layout : Layout memory finish (before ++ [block]) overhang)
    (grown : finish'.toNat = finish.toNat + 16 + size.toNat) (limit : finish'.toNat ≤ kernelHeapEnd.toNat)
    (linked : (header memory' block).next = finish ∧
      (header memory' block).size = (header memory block).size ∧
      (header memory' block).canary = (header memory block).canary)
    (created : (header memory' finish).next = 0 ∧ (header memory' finish).size = size ∧
      (header memory' finish).canary = canaryValue)
    (outside : Set.EqOn memory' memory (headerSpan block ∪ headerSpan finish)ᶜ) :
    Layout memory' finish' (before ++ [block, finish]) overhang := by
  have member : block ∈ before ++ [block] := by simp
  have below : ∀ piece ∈ before ++ [block], piece.toNat + 16 ≤ finish.toNat := by
    intro piece pieceMember
    have inside := layout.bounds pieceMember
    omega
  have absent : finish ∉ before ++ [block] := fun listed => by
    have inside := below finish listed
    omega
  have overhangNe : finish ≠ overhang := fun same => absent (same ▸ layout.overhang_mem)
  have kept : ∀ piece ∈ before, header memory' piece = header memory piece := by
    intro piece pieceMember
    have listed : piece ∈ before ++ [block] := by simp [pieceMember]
    have different : piece ≠ block := by
      rintro rfl
      exact List.disjoint_of_nodup_append layout.nodup pieceMember (by simp)
    apply header_congr (layout.room listed)
    apply outside.mono
    have order := layout.apart listed member different
    have ends := below piece listed
    intro address
    simp only [Set.mem_compl_iff, Set.mem_union, mem_span]
    omega
  have sizes : ∀ piece ∈ before ++ [block], (header memory' piece).size = (header memory piece).size := by
    intro piece pieceMember
    rcases List.mem_append.mp pieceMember with front | last
    · rw [kept piece front]
    · rw [List.mem_singleton.mp last, linked.2.1]
  refine ⟨?_, ?_, ?_, ?_, ?_, limit⟩
  · have terminated := layout.chain.next_eq_null
    refine layout.chain.insert_after ?_ linked.1 (created.1.trans terminated.symm) fun piece pieceMember => ?_
    · rintro same
      have inside := layout.bounds member
      rw [same] at inside
      simp at inside
    · rw [kept piece (by simpa using pieceMember)]
  · rw [show before ++ [block, finish] = (before ++ [block]) ++ [finish] by simp]
    refine layout.tiles.extend (fun _ _ => rfl) (fun piece pieceMember => ?_) ⟨rfl, ?_⟩
    · simp only [effectiveSize, sizes piece pieceMember]
    · dsimp only [Tiles]
      rw [effectiveSize_of_ne overhangNe, created.2.1]
      omega
  · have listed := layout.overhang_mem
    simp only [List.mem_append, List.mem_cons, List.not_mem_nil, or_false] at listed ⊢
    tauto
  · rw [sizes overhang layout.overhang_mem]
    exact layout.overhang_size
  · intro piece pieceMember
    simp only [List.mem_append, List.mem_cons, List.not_mem_nil, or_false] at pieceMember
    rcases pieceMember with front | rfl | rfl
    · rw [kept piece front]
      exact layout.canary piece (by simp [front])
    · rw [linked.2.2]
      exact layout.canary piece member
    · exact created.2.2

/-- The one block `initialize_kernel_heap` creates overhangs from the start. -/
theorem initial (created : header memory kernelHeapStart =
      { next := 0, size := initialKernelHeapSize, free := true, canary := canaryValue }) :
    Layout memory (kernelHeapStart + initialKernelHeapSize) [kernelHeapStart] kernelHeapStart where
  chain := ⟨rfl, by decide, by simp [created, Chain]⟩
  tiles := by
    refine ⟨rfl, ?_⟩
    dsimp only [Tiles]
    rw [effectiveSize_self, created]
    decide
  overhang_mem := by simp
  overhang_size := by
    rw [created]
    decide
  canary := by simp [created]
  finish_le := by decide

theorem length_lt_walkFuel (layout : Layout memory finish blocks overhang) : blocks.length < walkFuel := by
  have fits := layout.tiles.length_mul_le (fun _ _ => Nat.le_add_right 16 _)
  have limit := layout.finish_le
  have start := layout.tiles.start_le
  rw [kernelHeapStart_toNat] at fits start
  rw [kernelHeapEnd_toNat] at limit
  unfold walkFuel
  omega

end Layout

end ScratchOs.Heap
