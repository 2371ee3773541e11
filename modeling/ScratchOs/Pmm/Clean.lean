import ScratchOs.Pmm.Init

namespace ScratchOs

open Data

/-! Soundness of the marking against the firmware's map.

A usable entry's loop visits the blocks of the entry and rounds outward at both
ends. What it frees too much is not lost as long as a loop that runs later takes
it back, or the memory there happens to be usable. -/

namespace E820MemoryMapEntry

/-- The conversions to 32 bits lose nothing. -/
def Fits32 (entry : E820MemoryMapEntry) : Prop := entry.baseAddr.toNat < 2 ^ 32 ∧ entry.length.toNat < 2 ^ 32

/-- Some byte of the block is one of the entry's. -/
def Touches (entry : E820MemoryMapEntry) (block : Nat) : Prop := ¬ Disjoint (Pmm.blockBytes block) entry.bytes

variable {entry : E820MemoryMapEntry} {block : Nat}

theorem touches_iff : entry.Touches block ↔ 0 < entry.length.toNat ∧
    entry.baseAddr.toNat < (block + 1) * bitmapBlockSize ∧
    block * bitmapBlockSize < entry.baseAddr.toNat + entry.length.toNat := by
  rw [Touches, Set.not_disjoint_iff]
  constructor
  · rintro ⟨place, ⟨lower, upper⟩, start, stop⟩
    omega
  · rintro ⟨nonempty, start, stop⟩
    exact ⟨max (block * bitmapBlockSize) entry.baseAddr.toNat, ⟨by omega, by unfold bitmapBlockSize at *; omega⟩,
      by omega, by omega⟩

theorem mem_marked : block ∈ entry.marked ↔ (entry.baseAddr.setWidth 32).toNat / bitmapBlockSize ≤ block ∧
    block ≤ (entry.baseAddr.setWidth 32).toNat / bitmapBlockSize +
      (entry.length.setWidth 32).toNat / bitmapBlockSize := by
  rw [marked, Pmm.regionBlocks, Set.mem_ofPred_eq, Pmm.calculateNumBlocks]
  omega

theorem mem_marked_of_fits (fits : entry.Fits32) : block ∈ entry.marked ↔
    entry.baseAddr.toNat / bitmapBlockSize ≤ block ∧
    block ≤ entry.baseAddr.toNat / bitmapBlockSize + entry.length.toNat / bitmapBlockSize := by
  rw [mem_marked, BitVec.toNat_setWidth, BitVec.toNat_setWidth, Nat.mod_eq_of_lt fits.1, Nat.mod_eq_of_lt fits.2]

end E820MemoryMapEntry

namespace Pmm

variable {entries before after : List E820MemoryMapEntry} {bitmapAddr : Word} {reservedRegions : List MemoryRegion}
  {entry : E820MemoryMapEntry} {block : Nat}

/-- A block that may be handed out: all of it is usable memory, none of it
belongs to another kind of entry or to a reserved region. -/
structure Clean (entries : List E820MemoryMapEntry) (reservedRegions : List MemoryRegion)
    (block : Nat) : Prop where
  usable : ∀ place ∈ blockBytes block, ∃ entry ∈ entries, entry.Usable ∧ place ∈ entry.bytes
  others : ∀ entry ∈ entries, ¬ entry.Usable → Disjoint (blockBytes block) entry.bytes
  reserved : ∀ region ∈ reservedRegions, Disjoint (blockBytes block) region.bytes

/-- All memory between two addresses is usable. -/
def NoHole (entries : List E820MemoryMapEntry) (start stop : Nat) : Prop :=
  ∀ place, start ≤ place → place < stop → ∃ entry ∈ entries, entry.Usable ∧ place ∈ entry.bytes

/-- A marking loop stops one block short where the two remainders add up to more
than a block. -/
def StopsShort (base length : Nat) : Prop := bitmapBlockSize < base % bitmapBlockSize + length % bitmapBlockSize

/-- The block right behind those a marking loop visits. -/
def behindLoop (base length : Nat) : Nat := base / bitmapBlockSize + length / bitmapBlockSize + 1

/-- What an entry's loop frees is not free in the end: `alloc_block` never looks
at the block, or one of the loops that follow marks it used. -/
def TakenBack (entries : List E820MemoryMapEntry) (bitmapAddr : Word) (reservedRegions : List MemoryRegion)
    (after : List E820MemoryMapEntry) (block : Nat) : Prop :=
  block = 0 ∨ calculateBitmapSize entries ≤ block ∨ (∃ later ∈ after, ¬ later.Usable ∧ block ∈ later.marked) ∨
    block ∈ bitmapMarked entries bitmapAddr ∨ ∃ region ∈ reservedRegions, block ∈ region.marked

/-- Where the loop of a usable entry goes beyond the entry, and where the loops of
others do not make up for it: a hole in the first block or behind the last one, a
base or length that loses bits, and entries of another kind that come earlier, are
too long or do not end with their loop. -/
structure EntrySuits (entries : List E820MemoryMapEntry) (bitmapAddr : Word) (reservedRegions : List MemoryRegion)
    (before : List E820MemoryMapEntry) (entry : E820MemoryMapEntry) (after : List E820MemoryMapEntry) : Prop where
  front : entry.Fits32 →
    ¬ TakenBack entries bitmapAddr reservedRegions after (entry.baseAddr.toNat / bitmapBlockSize) →
    NoHole entries (entry.baseAddr.toNat / bitmapBlockSize * bitmapBlockSize) entry.baseAddr.toNat
  behind : entry.Fits32 →
    ¬ TakenBack entries bitmapAddr reservedRegions after
      (entry.baseAddr.toNat / bitmapBlockSize + entry.length.toNat / bitmapBlockSize) →
    NoHole entries (entry.baseAddr.toNat + entry.length.toNat)
      (behindLoop entry.baseAddr.toNat entry.length.toNat * bitmapBlockSize)
  truncated : ¬ entry.Fits32 → ∀ block ∈ entry.marked, ¬ TakenBack entries bitmapAddr reservedRegions after block →
    NoHole entries (block * bitmapBlockSize) ((block + 1) * bitmapBlockSize)
  order : ∀ other ∈ before, ¬ other.Usable → ∀ block ∈ entry.marked, other.Touches block →
    TakenBack entries bitmapAddr reservedRegions after block
  long : ∀ other ∈ after, ¬ other.Usable → 2 ^ 32 ≤ other.length.toNat → ∀ block ∈ entry.marked,
    other.Touches block → TakenBack entries bitmapAddr reservedRegions after block
  ragged : ∀ other ∈ after, ¬ other.Usable → other.length.toNat < 2 ^ 32 →
    StopsShort other.baseAddr.toNat other.length.toNat →
    behindLoop other.baseAddr.toNat other.length.toNat ∈ entry.marked →
    TakenBack entries bitmapAddr reservedRegions after (behindLoop other.baseAddr.toNat other.length.toNat)
  reserved : ∀ region ∈ reservedRegions, StopsShort region.startAddress.toNat region.length.toNat →
    behindLoop region.startAddress.toNat region.length.toNat ∈ entry.marked →
    TakenBack entries bitmapAddr reservedRegions after
      (behindLoop region.startAddress.toNat region.length.toNat)

def MapSuits (entries : List E820MemoryMapEntry) (bitmapAddr : Word) (reservedRegions : List MemoryRegion) : Prop :=
  ∀ before entry after, entries = before ++ entry :: after → entry.Usable →
    EntrySuits entries bitmapAddr reservedRegions before entry after

theorem free_iff_released (memory : WordBits 32) (bitmapAddr : Word) (reservedRegions : List MemoryRegion)
    (below : block < calculateBitmapSize entries) :
    (initializePhysicalMemoryManager memory entries bitmapAddr reservedRegions).isBlockUsed block = false ↔
      ∃ before entry after, entries = before ++ entry :: after ∧ entry.Usable ∧ block ∈ entry.marked ∧
        ¬ TakenBack entries bitmapAddr reservedRegions after block := by
  rw [initialize_free memory bitmapAddr reservedRegions below]
  constructor
  · rintro ⟨nonzero, ⟨before, entry, after, split, usable, inside, later⟩, notBitmap, notReserved⟩
    refine ⟨before, entry, after, split, usable, inside, ?_⟩
    rintro (zero | beyond | ⟨other, member, kind, covers⟩ | covers | ⟨region, member, covers⟩)
    · exact nonzero zero
    · omega
    · exact later other member kind covers
    · exact notBitmap covers
    · exact notReserved region member covers
  · rintro ⟨before, entry, after, split, usable, inside, kept⟩
    simp only [TakenBack, not_or, not_exists, not_and] at kept
    obtain ⟨nonzero, _, later, notBitmap, notReserved⟩ := kept
    exact ⟨nonzero, ⟨before, entry, after, split, usable, inside, later⟩, notBitmap, notReserved⟩

/-- Of a loop that does not stop short, no touched block is missed; of one that
does, one block is. -/
theorem touched_visited {base length : Nat} (start : base < (block + 1) * bitmapBlockSize)
    (stop : block * bitmapBlockSize < base + length) :
    (base / bitmapBlockSize ≤ block ∧ block ≤ base / bitmapBlockSize + length / bitmapBlockSize) ∨
      (StopsShort base length ∧ block = behindLoop base length) := by
  unfold StopsShort behindLoop bitmapBlockSize at *
  omega

theorem behindLoop_touched {base length : Nat} (short : StopsShort base length) :
    base < (behindLoop base length + 1) * bitmapBlockSize ∧ behindLoop base length * bitmapBlockSize < base + length ∧
      0 < length := by
  unfold StopsShort behindLoop bitmapBlockSize at *
  omega

/-- A block that a usable entry frees for good is usable memory. -/
theorem EntrySuits.usable (suits : EntrySuits entries bitmapAddr reservedRegions before entry after)
    (member : entry ∈ entries) (usable : entry.Usable) (inside : block ∈ entry.marked)
    (kept : ¬ TakenBack entries bitmapAddr reservedRegions after block) :
    ∀ place ∈ blockBytes block, ∃ entry ∈ entries, entry.Usable ∧ place ∈ entry.bytes := by
  rintro place ⟨lower, upper⟩
  by_cases fits : entry.Fits32
  · obtain ⟨first, last⟩ := (E820MemoryMapEntry.mem_marked_of_fits fits).mp inside
    by_cases early : place < entry.baseAddr.toNat
    · have same : block = entry.baseAddr.toNat / bitmapBlockSize := by
        unfold bitmapBlockSize at *
        omega
      exact suits.front fits (same ▸ kept) place (same ▸ lower) early
    · by_cases late : entry.baseAddr.toNat + entry.length.toNat ≤ place
      · have same : block = entry.baseAddr.toNat / bitmapBlockSize + entry.length.toNat / bitmapBlockSize := by
          unfold bitmapBlockSize at *
          omega
        refine suits.behind fits (same ▸ kept) place late ?_
        rw [behindLoop, ← same]
        exact upper
      · exact ⟨entry, member, usable, by omega, by omega⟩
  · exact suits.truncated fits block inside kept place lower upper

/-- It has no byte of an entry of another kind. -/
theorem EntrySuits.others (suits : EntrySuits entries bitmapAddr reservedRegions before entry after)
    (split : entries = before ++ entry :: after) (usable : entry.Usable) (inside : block ∈ entry.marked)
    (kept : ¬ TakenBack entries bitmapAddr reservedRegions after block) {other : E820MemoryMapEntry}
    (member : other ∈ entries) (kind : ¬ other.Usable) : ¬ other.Touches block := by
  intro touches
  have below : block < calculateBitmapSize entries := by
    by_contra beyond
    exact kept (.inr (.inl (by omega)))
  have bound := calculateBitmapSize_le entries
  rw [split, List.mem_append, List.mem_cons] at member
  rcases member with earlier | rfl | later
  · exact kept (suits.order other earlier kind block inside touches)
  · exact kind usable
  · by_cases long : 2 ^ 32 ≤ other.length.toNat
    · exact kept (suits.long other later kind long block inside touches)
    · obtain ⟨_, start, stop⟩ := E820MemoryMapEntry.touches_iff.mp touches
      have fits : other.Fits32 := ⟨by unfold bitmapBlockSize at start; omega, by omega⟩
      rcases touched_visited start stop with visited | ⟨short, rfl⟩
      · exact kept (.inr (.inr (.inl ⟨other, later, kind, (E820MemoryMapEntry.mem_marked_of_fits fits).mpr visited⟩)))
      · exact kept (suits.ragged other later kind fits.2 short inside)

theorem EntrySuits.reservedApart (suits : EntrySuits entries bitmapAddr reservedRegions before entry after)
    (inside : block ∈ entry.marked) (kept : ¬ TakenBack entries bitmapAddr reservedRegions after block)
    {region : MemoryRegion} (member : region ∈ reservedRegions) : Disjoint (blockBytes block) region.bytes := by
  rw [Set.disjoint_left]
  rintro place ⟨lower, upper⟩ ⟨start, stop⟩
  rcases @touched_visited block region.startAddress.toNat region.length.toNat (by omega) (by omega) with
    visited | ⟨short, rfl⟩
  · refine kept (.inr (.inr (.inr (.inr ⟨region, member, visited.1, ?_⟩))))
    rw [calculateNumBlocks]
    omega
  · exact kept (suits.reserved region member short inside)

/-- Initialisation hands out only clean blocks exactly when every usable entry of
the map suits its loop. -/
theorem free_blocks_clean_iff (memory : WordBits 32) (entries : List E820MemoryMapEntry)
    (bitmapAddr : Word) (reservedRegions : List MemoryRegion) :
    let pmm := initializePhysicalMemoryManager memory entries bitmapAddr reservedRegions
    (∀ block < pmm.gBitmapSize, pmm.isBlockUsed block = false → Clean entries reservedRegions block) ↔
      MapSuits entries bitmapAddr reservedRegions := by
  simp only [gBitmapSize_initialized]
  constructor
  · intro sound before entry after split usable
    have clean : ∀ block ∈ entry.marked, ¬ TakenBack entries bitmapAddr reservedRegions after block →
        Clean entries reservedRegions block := by
      intro block inside kept
      have below : block < calculateBitmapSize entries := by
        by_contra beyond
        exact kept (.inr (.inl (by omega)))
      exact sound block below ((free_iff_released _ _ _ below).mpr ⟨before, entry, after, split, usable, inside, kept⟩)
    have listed : ∀ other, other ∈ before ∨ other ∈ after → other ∈ entries := by
      intro other member
      rw [split, List.mem_append, List.mem_cons]
      tauto
    have apart : ∀ other ∈ entries, ¬ other.Usable → ∀ block ∈ entry.marked, other.Touches block →
        TakenBack entries bitmapAddr reservedRegions after block := by
      intro other member kind block inside touches
      by_contra kept
      exact touches ((clean block inside kept).others other member kind)
    refine ⟨fun fits kept => ?_, fun fits kept => ?_, fun _ block inside kept place lower upper => ?_,
      fun other member kind => apart other (listed other (.inl member)) kind,
      fun other member kind _ => apart other (listed other (.inr member)) kind,
      fun other member kind _ short inside => ?_, fun region member short inside => ?_⟩
    · have marked := (E820MemoryMapEntry.mem_marked_of_fits fits).mpr ⟨Nat.le_refl _, Nat.le_add_right _ _⟩
      intro place lower upper
      refine (clean _ marked kept).usable place ⟨lower, ?_⟩
      unfold bitmapBlockSize at *
      omega
    · have marked := (E820MemoryMapEntry.mem_marked_of_fits fits).mpr ⟨Nat.le_add_right _ _, Nat.le_refl _⟩
      intro place lower upper
      refine (clean _ marked kept).usable place ⟨?_, upper⟩
      unfold bitmapBlockSize at *
      omega
    · exact (clean block inside kept).usable place ⟨lower, upper⟩
    · obtain ⟨start, stop, nonempty⟩ := behindLoop_touched short
      exact apart other (listed other (.inr member)) kind _ inside
        (E820MemoryMapEntry.touches_iff.mpr ⟨nonempty, start, stop⟩)
    · by_contra kept
      obtain ⟨start, stop, _⟩ := behindLoop_touched short
      have apart := (clean _ inside kept).reserved region member
      refine Set.disjoint_left.mp apart
        (show behindLoop region.startAddress.toNat region.length.toNat * bitmapBlockSize ∈ _ from ?_) ?_
      · exact ⟨Nat.le_refl _, by unfold bitmapBlockSize; omega⟩
      · refine ⟨?_, stop⟩
        unfold behindLoop bitmapBlockSize
        omega
  · intro suits block below free
    obtain ⟨before, entry, after, split, usable, inside, kept⟩ := (free_iff_released _ _ _ below).mp free
    have suit := suits before entry after split usable
    have member : entry ∈ entries := by
      rw [split]
      simp
    refine ⟨suit.usable member usable inside kept, fun other listed kind => ?_, fun region listed =>
      suit.reservedApart inside kept listed⟩
    exact not_not.mp (suit.others split usable inside kept listed kind)

/-- Two usable ranges with a hole between them, as firmware reports around device memory. -/
def holedMap : List E820MemoryMapEntry :=
  [{ baseAddr := 0x400000, length := 0x100000, type := e820Usable },
    { baseAddr := 0x600000, length := 0x800000, type := e820Usable }]

/-- Block 0x500 starts where the first range of `holedMap` ends; its loop runs
one block too far and frees it. -/
theorem holedMap_frees_hole :
    ¬ ∀ block < (initializePhysicalMemoryManager (fun _ => 0) holedMap 0xC0010000
        kernelReservedRegions).gBitmapSize,
      (initializePhysicalMemoryManager (fun _ => 0) holedMap 0xC0010000
        kernelReservedRegions).isBlockUsed block = false →
      Clean holedMap kernelReservedRegions block := by
  intro sound
  have below : 0x500 < calculateBitmapSize holedMap := by decide
  have released : Released holedMap 0x500 := ⟨[], _, _, rfl, by decide, by decide, by decide⟩
  have free := (initialize_free (fun _ => 0) 0xC0010000 kernelReservedRegions below).mpr
    ⟨by decide, released, by decide, by decide⟩
  have clean := sound 0x500 (by simpa using below) free
  obtain ⟨entry, member, _, inside⟩ := clean.usable 0x500000 (by
    simp [blockBytes, bitmapBlockSize])
  simp only [holedMap, List.mem_cons, List.not_mem_nil, or_false] at member
  rcases member with rfl | rfl <;> simp [E820MemoryMapEntry.bytes] at inside

end Pmm

end ScratchOs
