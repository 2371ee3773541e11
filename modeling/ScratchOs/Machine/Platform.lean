import ScratchOs.Data.ByteMemory

namespace ScratchOs

open Data

/-! What `kernel/kmalloc.c` and `kernel/vmm.c` use of the layers below them.

Both allocators read and write structures at virtual addresses and take frames
with `alloc_block`, `map_address` and `free_block`. `Platform σ` is that
interface over a machine state `σ`; an access that faults gives `none`. The
allocators are written once, against the interface.
-/

def kernelHeapStart : Word := 0xD0000000
def kernelHeapEnd : Word := 0xE0000000

def pageSize : Word := 4096
def pteReadWrite : Word := 0x02

structure Platform (σ : Type) where
  load8 : Word → σ → Option Byte
  load32 : Word → σ → Option Word
  store8 : Word → Byte → σ → Option σ
  store32 : Word → Word → σ → Option σ
  allocBlock : σ → Word × σ
  freeBlock : Word → σ → σ
  mapAddress : Word → Word → Word → σ → Option (Bool × σ)

/-- The frame side of a platform. Nothing is assumed about its answers, except
that an `alloc_block` which returns `NULL` has changed nothing. -/
structure FrameService (τ : Type) where
  allocBlock : τ → Word × τ
  freeBlock : Word → τ → τ
  mapAddress : Word → Word → Word → τ → Bool × τ
  allocBlock_null : ∀ state, (allocBlock state).1 = 0 → (allocBlock state).2 = state

/-- The answer of `alloc_block` when all that matters is how many frames are left. -/
def takeFrame : Nat → Word × Nat
  | 0 => (0, 0)
  | left + 1 => (0x1000, left)

theorem takeFrame_null (left : Nat) (null : (takeFrame left).1 = 0) : (takeFrame left).2 = left := by
  cases left with
  | zero => rfl
  | succ left => exact absurd null (by simp [takeFrame])

/-- Every virtual address is its own byte of memory, as it is while no two pages
share a frame; which frames there are is up to the service. -/
def flatPlatform {τ : Type} (frames : FrameService τ) : Platform (ByteMemory × τ) where
  load8 address state := some (state.1 address)
  load32 address state := some (state.1.read32 address)
  store8 address value state := some (state.1.write8 address value, state.2)
  store32 address value state := some (state.1.write32 address value, state.2)
  allocBlock state := ((frames.allocBlock state.2).1, state.1, (frames.allocBlock state.2).2)
  freeBlock address state := (state.1, frames.freeBlock address state.2)
  mapAddress virtualAddr physicalAddr flags state :=
    let (mapped, rest) := frames.mapAddress virtualAddr physicalAddr flags state.2
    some (mapped, state.1, rest)

def pageOf (address : Word) : Set Word := span (address.toNat / 4096 * 4096) 4096

/-- Why a platform can be used as flat memory. `Sound` is its own invariant,
`bytes` its contents seen from virtual addresses, `Mapped` the addresses that
do not fault and `globals` what no access can change. `Ready` is what a call of
`map_address` with a frame just taken needs to be safe. -/
structure FlatView {σ : Type} (platform : Platform σ) where
  Sound : σ → Prop
  bytes : σ → ByteMemory
  Mapped : σ → Set Word
  Globals : Type
  globals : σ → Globals
  Allowed : Word → Word → Prop
  Ready : Word → Word → σ → Prop
  load8 : ∀ {state address}, Sound state → address ∈ Mapped state →
    platform.load8 address state = some (bytes state address)
  load32 : ∀ {state address}, Sound state → address.toNat + 4 ≤ 2 ^ 32 →
    span address.toNat 4 ⊆ Mapped state →
    platform.load32 address state = some ((bytes state).read32 address)
  store8 : ∀ {state address} value, Sound state → address ∈ Mapped state →
    ∃ after, platform.store8 address value state = some after ∧ Sound after ∧
      Mapped after = Mapped state ∧ globals after = globals state ∧
      bytes after = (bytes state).write8 address value
  store32 : ∀ {state address} value, Sound state → address.toNat + 4 ≤ 2 ^ 32 →
    span address.toNat 4 ⊆ Mapped state →
    ∃ after, platform.store32 address value state = some after ∧ Sound after ∧
      Mapped after = Mapped state ∧ globals after = globals state ∧
      bytes after = (bytes state).write32 address value
  allocBlock_null : ∀ {state}, Sound state → (platform.allocBlock state).1 = 0 →
    (platform.allocBlock state).2 = state
  mapAddress : ∀ {state virtualAddr flags}, Sound state → Allowed virtualAddr flags →
    Ready virtualAddr (platform.allocBlock state).1 (platform.allocBlock state).2 →
    ∃ mapped after,
      platform.mapAddress virtualAddr (platform.allocBlock state).1 flags
        (platform.allocBlock state).2 = some (mapped, after) ∧
      ∀ kept, kept = after ∨ (mapped = false ∧
          kept = platform.freeBlock (platform.allocBlock state).1 after) →
        Sound kept ∧ Mapped state ⊆ Mapped kept ∧ Set.EqOn (bytes kept) (bytes state) (Mapped state) ∧
          globals kept = globals state ∧ pageOf virtualAddr ⊆ Mapped kept ∧
          Mapped kept ⊆ Mapped state ∪ pageOf virtualAddr

/-- A view with more in its invariant, for fewer calls of `map_address`. -/
def FlatView.strengthen {σ : Type} {platform : Platform σ} (view : FlatView platform) (Extra : σ → Prop)
    (Fewer : Word → Word → Prop) (fewer : ∀ {virtualAddr flags}, Fewer virtualAddr flags → view.Allowed virtualAddr flags)
    (store8 : ∀ {state address value after}, view.Sound state → Extra state → address ∈ view.Mapped state →
      platform.store8 address value state = some after → Extra after)
    (store32 : ∀ {state address value after}, view.Sound state → Extra state → address.toNat + 4 ≤ 2 ^ 32 →
      span address.toNat 4 ⊆ view.Mapped state → platform.store32 address value state = some after → Extra after)
    (mapAddress : ∀ {state virtualAddr flags mapped after}, view.Sound state → Extra state →
      Fewer virtualAddr flags → view.Ready virtualAddr (platform.allocBlock state).1 (platform.allocBlock state).2 →
      platform.mapAddress virtualAddr (platform.allocBlock state).1 flags (platform.allocBlock state).2 =
        some (mapped, after) →
      Extra after ∧ (mapped = false → Extra (platform.freeBlock (platform.allocBlock state).1 after))) :
    FlatView platform where
  Sound state := view.Sound state ∧ Extra state
  bytes := view.bytes
  Mapped := view.Mapped
  Globals := view.Globals
  globals := view.globals
  Allowed := Fewer
  Ready := view.Ready
  load8 sound inside := view.load8 sound.1 inside
  load32 sound room inside := view.load32 sound.1 room inside
  store8 value sound inside := by
    obtain ⟨after, run, soundAfter, rest⟩ := view.store8 value sound.1 inside
    exact ⟨after, run, ⟨soundAfter, store8 sound.1 sound.2 inside run⟩, rest⟩
  store32 value sound room inside := by
    obtain ⟨after, run, soundAfter, rest⟩ := view.store32 value sound.1 room inside
    exact ⟨after, run, ⟨soundAfter, store32 sound.1 sound.2 room inside run⟩, rest⟩
  allocBlock_null sound null := view.allocBlock_null sound.1 null
  mapAddress sound allowed ready := by
    obtain ⟨mapped, after, run, keeps⟩ := view.mapAddress sound.1 (fewer allowed) ready
    obtain ⟨extra, extraFreed⟩ := mapAddress sound.1 sound.2 allowed ready run
    refine ⟨mapped, after, run, fun kept outcome => ?_⟩
    obtain ⟨soundKept, rest⟩ := keeps kept outcome
    refine ⟨⟨soundKept, ?_⟩, rest⟩
    rcases outcome with rfl | ⟨refused, rfl⟩
    · exact extra
    · exact extraFreed refused

/-- A flat platform is its own view, whatever its frame service does. -/
def FlatView.flat {τ : Type} (frames : FrameService τ) : FlatView (flatPlatform frames) where
  Sound _ := True
  bytes state := state.1
  Mapped _ := Set.univ
  Globals := Unit
  globals _ := ()
  Allowed _ _ := True
  Ready _ _ _ := True
  load8 _ _ := rfl
  load32 _ _ _ := rfl
  store8 _ _ _ := ⟨_, rfl, trivial, rfl, rfl, rfl⟩
  store32 _ _ _ _ := ⟨_, rfl, trivial, rfl, rfl, rfl⟩
  allocBlock_null _ null := Prod.ext rfl (frames.allocBlock_null _ null)
  mapAddress := by
    intro state virtualAddr flags _ _ _
    refine ⟨_, _, rfl, ?_⟩
    rintro kept (rfl | ⟨_, rfl⟩)
    · exact ⟨trivial, subset_rfl, fun _ _ => rfl, rfl, Set.subset_univ _, Set.subset_union_left⟩
    · exact ⟨trivial, subset_rfl, fun _ _ => rfl, rfl, Set.subset_univ _, Set.subset_union_left⟩

end ScratchOs
