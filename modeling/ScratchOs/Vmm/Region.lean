import Mathlib.Data.List.Pairwise
import ScratchOs.Data.Tiling
import ScratchOs.Vmm.Alloc

namespace ScratchOs.Vmm

open Data

structure Region where
  base : Word
  size : Word
  next : Word
  free : Bool

def region (memory : ByteMemory) (node : Word) : Region where
  base := memory.read32 node
  size := memory.read32 (node + 4)
  next := memory.read32 (node + 8)
  free := memory (node + 12) != 0

variable {memory memory' other : ByteMemory} {node value : Word}

theorem region_congr (room : node.toNat + 16 ≤ 2 ^ 32)
    (same : Set.EqOn memory other (recordSpan node)) : region memory node = region other node := by
  have base : memory.read32 node = other.read32 node :=
    ByteMemory.read32_congr (same.mono (by intro x; simp only [mem_span]; omega)) (by omega)
  have size : memory.read32 (node + 4) = other.read32 (node + 4) :=
    ByteMemory.read32_congr (same.mono (span_subset_recordSpan room (by decide))) (by bv_omega)
  have next : memory.read32 (node + 8) = other.read32 (node + 8) :=
    ByteMemory.read32_congr (same.mono (span_subset_recordSpan room (by decide))) (by bv_omega)
  have free : memory (node + 12) = other (node + 12) := same (by simp only [mem_span]; bv_omega)
  simp only [region, base, size, next, free]

theorem region_write_base (room : node.toNat + 16 ≤ 2 ^ 32) :
    region (memory.write32 node value) node = { region memory node with base := value } := by
  have same := memory.write32_outside value (show node.toNat + 4 ≤ 2 ^ 32 by omega)
  have size := ByteMemory.read32_of_apart (node + 4) same (by bv_omega) (by bv_omega)
  have next := ByteMemory.read32_of_apart (node + 8) same (by bv_omega) (by bv_omega)
  have free := ByteMemory.byte_of_apart (node + 12) same (by bv_omega)
  simp only [region, size, next, free, ByteMemory.read32_write32]

theorem region_write_size (room : node.toNat + 16 ≤ 2 ^ 32) :
    region (memory.write32 (node + 4) value) node = { region memory node with size := value } := by
  have same := memory.write32_outside value (show (node + 4).toNat + 4 ≤ 2 ^ 32 by bv_omega)
  have base := ByteMemory.read32_of_apart node same (by omega) (by bv_omega)
  have next := ByteMemory.read32_of_apart (node + 8) same (by bv_omega) (by bv_omega)
  have free := ByteMemory.byte_of_apart (node + 12) same (by bv_omega)
  simp only [region, base, next, free, ByteMemory.read32_write32]

theorem region_write_next (room : node.toNat + 16 ≤ 2 ^ 32) :
    region (memory.write32 (node + 8) value) node = { region memory node with next := value } := by
  have same := memory.write32_outside value (show (node + 8).toNat + 4 ≤ 2 ^ 32 by bv_omega)
  have base := ByteMemory.read32_of_apart node same (by omega) (by bv_omega)
  have size := ByteMemory.read32_of_apart (node + 4) same (by bv_omega) (by bv_omega)
  have free := ByteMemory.byte_of_apart (node + 12) same (by bv_omega)
  simp only [region, base, size, free, ByteMemory.read32_write32]

theorem region_write_free (room : node.toNat + 16 ≤ 2 ^ 32) (flag : Bool) :
    region (memory.write8 (node + 12) (if flag then 1 else 0)) node =
      { region memory node with free := flag } := by
  have same := memory.write8_outside (node + 12) (if flag then 1 else 0)
  have base := ByteMemory.read32_of_apart node same (by omega) (by bv_omega)
  have size := ByteMemory.read32_of_apart (node + 4) same (by bv_omega) (by bv_omega)
  have next := ByteMemory.read32_of_apart (node + 8) same (by bv_omega) (by bv_omega)
  have read : ((if flag then 1 else 0 : Byte) != 0) = flag := by cases flag <;> rfl
  simp only [region, base, size, next, ByteMemory.write8_self, read]

section Access

variable {σ : Type} {platform : HeapPlatform σ} (view : FlatView platform.toPlatform) {world after : σ}

abbrev RegionMapped (world : σ) (node : Word) : Prop := RecordMapped view world node

abbrev RegionStored (world after : σ) (node : Word) (value : Region) : Prop :=
  RecordStored view region world after node value

variable {view}

namespace RegionMapped

theorem loadBase (ready : RegionMapped view world node) :
    loadBase platform.toPlatform node world = some (region (view.bytes world) node).base := by
  have loaded := ready.load32 (show (0#32).toNat + 4 ≤ 16 by decide)
  rwa [BitVec.add_zero] at loaded

theorem loadSize (ready : RegionMapped view world node) :
    loadSize platform.toPlatform node world = some (region (view.bytes world) node).size :=
  ready.load32 (by decide)

theorem loadNext (ready : RegionMapped view world node) :
    loadNext platform.toPlatform node world = some (region (view.bytes world) node).next :=
  ready.load32 (by decide)

theorem loadFree (ready : RegionMapped view world node) :
    loadFree platform.toPlatform node world = some (region (view.bytes world) node).free := by
  rw [Vmm.loadFree, ready.load8 (by decide)]
  rfl

theorem regionFits (ready : RegionMapped view world node) (size : Word) :
    regionFits platform size world node = some ((region (view.bytes world) node).free &&
      decide (size ≤ (region (view.bytes world) node).size)) := by
  rw [Vmm.regionFits, ready.loadFree]
  cases free : (region (view.bytes world) node).free with
  | false => rfl
  | true => simp [ready.loadSize]

theorem persist (ready : RegionMapped view world node) {stored : Word} {value : Region}
    (store : RegionStored view world after stored value) : RegionMapped view after node :=
  RecordMapped.persist ready store

theorem storeBase (ready : RegionMapped view world node) (value : Word) :
    ∃ after, storeBase platform.toPlatform node value world = some after ∧
      RegionStored view world after node { region (view.bytes world) node with base := value } := by
  have stores := @RecordMapped.store32 _ _ _ _ region _ _ _ ready value (show (0#32).toNat + 4 ≤ 16 by decide)
  rwa [BitVec.add_zero, region_write_base ready.room] at stores

theorem storeSize (ready : RegionMapped view world node) (value : Word) :
    ∃ after, storeSize platform.toPlatform node value world = some after ∧
      RegionStored view world after node { region (view.bytes world) node with size := value } := by
  rw [← region_write_size ready.room]
  exact ready.store32 value (by decide)

theorem storeNext (ready : RegionMapped view world node) (value : Word) :
    ∃ after, storeNext platform.toPlatform node value world = some after ∧
      RegionStored view world after node { region (view.bytes world) node with next := value } := by
  rw [← region_write_next ready.room]
  exact ready.store32 value (by decide)

theorem storeFree (ready : RegionMapped view world node) (flag : Bool) :
    ∃ after, storeFree platform.toPlatform node flag world = some after ∧
      RegionStored view world after node { region (view.bytes world) node with free := flag } := by
  rw [← region_write_free ready.room]
  exact ready.store8 _ (by decide)

end RegionMapped

end Access

/-! The address invariant of the region list. -/

/-- The list the source walks: `next` from `vm_base` to `NULL`. -/
def RegionList (memory : ByteMemory) (vmBase : Word) (nodes : List Word) : Prop :=
  Chain 0 (fun node => (region memory node).next) vmBase nodes

/-- The regions tile the window in whole pages, in list order, and every node
has storage of its own. -/
structure Layout (memory : ByteMemory) (vmBase : Word) (nodes : List Word) : Prop where
  chain : RegionList memory vmBase nodes
  tiles : Tiles (fun node => (region memory node).base.toNat) (fun node => (region memory node).size.toNat)
    0x400000 nodes 0xC0000000
  pages : ∀ node ∈ nodes, 0 < (region memory node).size.toNat ∧ (region memory node).size.toNat % 4096 = 0
  room : ∀ node ∈ nodes, node.toNat + 16 ≤ 2 ^ 32
  storage : nodes.Pairwise fun left right => Disjoint (recordSpan left) (recordSpan right)

variable {vmBase fresh size : Word} {nodes before after : List Word}

namespace Layout

theorem nodup (layout : Layout memory vmBase nodes) : nodes.Nodup :=
  layout.tiles.nodup fun node member => (layout.pages node member).1

theorem storage_apart (layout : Layout memory vmBase nodes) {left right : Word} (leftMember : left ∈ nodes)
    (rightMember : right ∈ nodes) (different : left ≠ right) :
    Disjoint (recordSpan left) (recordSpan right) := by
  have symmetric : Std.Symm fun left right : Word => Disjoint (recordSpan left) (recordSpan right) :=
    ⟨fun _ _ apart => apart.symm⟩
  exact layout.storage.forall leftMember rightMember different

theorem region_other (layout : Layout memory vmBase nodes) (member : node ∈ nodes)
    (outside : Set.EqOn memory' memory (recordSpan node)ᶜ) {other : Word} (otherMember : other ∈ nodes)
    (different : other ≠ node) : region memory' other = region memory other := by
  apply region_congr (layout.room other otherMember) (outside.mono _)
  exact Set.disjoint_right.mp (layout.storage_apart member otherMember different.symm)

theorem setFree (layout : Layout memory vmBase nodes) (same : ∀ node ∈ nodes,
    (region memory' node).base = (region memory node).base ∧
    (region memory' node).size = (region memory node).size ∧
    (region memory' node).next = (region memory node).next) : Layout memory' vmBase nodes where
  chain := layout.chain.congr fun node member => (same node member).2.2
  tiles := layout.tiles.congr (fun node member => by rw [(same node member).1])
    (fun node member => by rw [(same node member).2.1])
  pages node member := by
    rw [(same node member).2.1]
    exact layout.pages node member
  room := layout.room
  storage := layout.storage

theorem bounds (layout : Layout memory vmBase nodes) (member : node ∈ nodes) :
    0x400000 ≤ (region memory node).base.toNat ∧
      (region memory node).base.toNat + (region memory node).size.toNat ≤ 0xC0000000 :=
  layout.tiles.bounds member

/-- The two parts of a region: nothing wraps. -/
theorem split_addresses (layout : Layout memory vmBase nodes) (member : node ∈ nodes)
    (large : size.toNat < (region memory node).size.toNat) :
    ((region memory node).base + size).toNat = (region memory node).base.toNat + size.toNat ∧
      ((region memory node).size - size).toNat = (region memory node).size.toNat - size.toNat := by
  have inside := layout.bounds member
  constructor
  · bv_omega
  · bv_omega

/-- Cutting a region at a page boundary, with a fresh node for the second part. -/
theorem split (layout : Layout memory vmBase (before ++ node :: after)) (positive : 0 < size.toNat)
    (aligned : size.toNat % 4096 = 0) (large : size.toNat < (region memory node).size.toNat)
    (nonnull : fresh ≠ 0) (room : fresh.toNat + 16 ≤ 2 ^ 32)
    (apart : ∀ other ∈ before ++ node :: after, Disjoint (recordSpan fresh) (recordSpan other))
    (first : (region memory' node).base = (region memory node).base ∧
      (region memory' node).size = size ∧ (region memory' node).next = fresh)
    (second : (region memory' fresh).base = (region memory node).base + size ∧
      (region memory' fresh).size = (region memory node).size - size ∧
      (region memory' fresh).next = (region memory node).next)
    (kept : ∀ other ∈ before ++ after, region memory' other = region memory other) :
    Layout memory' vmBase (before ++ node :: fresh :: after) := by
  have member : node ∈ before ++ node :: after := by simp
  obtain ⟨cut, rest⟩ := layout.split_addresses member large
  have pages := layout.pages node member
  have cases : ∀ other ∈ before ++ node :: fresh :: after,
      other = node ∨ other = fresh ∨ other ∈ before ++ after := by
    intro other otherMember
    simp only [List.mem_append, List.mem_cons] at otherMember ⊢
    tauto
  have listed : ∀ other ∈ before ++ after, other ∈ before ++ node :: after := by
    intro other otherMember
    simp only [List.mem_append, List.mem_cons] at otherMember ⊢
    tauto
  refine ⟨?_, ?_, ?_, ?_, ?_⟩
  · exact layout.chain.insert_after nonnull first.2.2 second.2.2 fun other otherMember => by
      rw [kept other otherMember]
  · have tiles : Tiles (fun node => (region memory node).base.toNat)
        (fun node => (region memory node).size.toNat) 0x400000 (before ++ [node] ++ after) 0xC0000000 := by
      simpa using layout.tiles
    rw [show before ++ node :: fresh :: after = before ++ [node, fresh] ++ after by simp]
    refine tiles.replace (fun other otherMember => by rw [kept other otherMember])
      (fun other otherMember => by rw [kept other otherMember]) ?_
    rintro left right ⟨placed, ends⟩
    dsimp only [Tiles] at placed ends ⊢
    rw [first.1, first.2.1, second.1, second.2.1, cut, rest]
    omega
  · intro other otherMember
    rcases cases other otherMember with rfl | rfl | old
    · rw [first.2.1]
      exact ⟨positive, aligned⟩
    · rw [second.2.1, rest]
      omega
    · rw [kept other old]
      exact layout.pages other (listed other old)
  · intro other otherMember
    rcases cases other otherMember with rfl | rfl | old
    · exact layout.room other member
    · exact room
    · exact layout.room other (listed other old)
  · have moved : (before ++ node :: fresh :: after).Perm (fresh :: (before ++ node :: after)) := by
      rw [show before ++ node :: fresh :: after = (before ++ [node]) ++ fresh :: after by simp,
        show before ++ node :: after = (before ++ [node]) ++ after by simp]
      exact List.perm_middle
    exact (moved.pairwise_iff fun apart => apart.symm).mpr (List.pairwise_cons.mpr ⟨apart, layout.storage⟩)

theorem initial (nonnull : vmBase ≠ 0) (room : vmBase.toNat + 16 ≤ 2 ^ 32)
    (created : region memory vmBase =
      { base := virtualMemoryStart, size := virtualMemoryEnd - virtualMemoryStart, next := 0, free := true }) :
    Layout memory vmBase [vmBase] where
  chain := ⟨rfl, nonnull, by simp [created, Chain]⟩
  tiles := by
    dsimp only [Tiles]
    rw [created]
    decide
  pages := by
    simp only [List.mem_singleton, forall_eq, created]
    decide
  room := by simpa using room
  storage := List.pairwise_singleton ..

theorem length_lt_walkFuel (layout : Layout memory vmBase nodes) : nodes.length < walkFuel := by
  have atLeast : ∀ node ∈ nodes, 4096 ≤ (region memory node).size.toNat := by
    intro node member
    have pages := layout.pages node member
    omega
  have fits := layout.tiles.length_mul_le atLeast
  unfold walkFuel
  omega

end Layout

end ScratchOs.Vmm
