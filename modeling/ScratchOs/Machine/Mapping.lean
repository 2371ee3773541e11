import ScratchOs.Machine.Platform

namespace ScratchOs

open Data

variable {σ : Type}

/-! The loop that `ksbrk` and `vmm_alloc` share: take a frame for each address
of a run, stop when there is none, and give a frame back whose page is there
already. -/

def mapPages (platform : Platform σ) (step flags : Word) : Nat → Word → σ → Option (Bool × σ)
  | 0, _, world => some (true, world)
  | left + 1, virtualAddr, world => do
      let physicalAddr := (platform.allocBlock world).1
      let world := (platform.allocBlock world).2
      if physicalAddr = 0 then some (false, world)
      else do
        let (mapped, world) ← platform.mapAddress virtualAddr physicalAddr flags world
        let world := if mapped then world else platform.freeBlock physicalAddr world
        mapPages platform step flags left (virtualAddr + step) world

def FramesFor (platform : Platform σ) (step flags : Word) : Nat → Word → σ → Prop
  | 0, _, _ => True
  | left + 1, virtualAddr, world =>
      (platform.allocBlock world).1 ≠ 0 ∧
        ∀ mapped after, platform.mapAddress virtualAddr (platform.allocBlock world).1 flags
            (platform.allocBlock world).2 = some (mapped, after) →
          FramesFor platform step flags left (virtualAddr + step)
            (if mapped then after else platform.freeBlock (platform.allocBlock world).1 after)

variable {platform : Platform σ} (view : FlatView platform)

/-- Every call of `map_address` in the loop finds what it needs; on flat memory
it always does. -/
def ReadyRun (step flags : Word) : Nat → Word → σ → Prop
  | 0, _, _ => True
  | left + 1, virtualAddr, world =>
      (platform.allocBlock world).1 ≠ 0 →
        view.Ready virtualAddr (platform.allocBlock world).1 (platform.allocBlock world).2 ∧
        ∀ mapped after, platform.mapAddress virtualAddr (platform.allocBlock world).1 flags
            (platform.allocBlock world).2 = some (mapped, after) →
          ReadyRun step flags left (virtualAddr + step)
            (if mapped then after else platform.freeBlock (platform.allocBlock world).1 after)

/-- More addresses may be mapped, nothing that was readable has changed. -/
structure Grown (before after : σ) : Prop where
  sound : view.Sound after
  mapped : view.Mapped before ⊆ view.Mapped after
  bytes : Set.EqOn (view.bytes after) (view.bytes before) (view.Mapped before)
  globals : view.globals after = view.globals before

variable {view} {world middle after : σ}

theorem Grown.refl (sound : view.Sound world) : Grown view world world :=
  ⟨sound, subset_rfl, fun _ _ => rfl, rfl⟩

theorem Grown.trans (first : Grown view world middle) (second : Grown view middle after) :
    Grown view world after where
  sound := second.sound
  mapped := first.mapped.trans second.mapped
  bytes := (second.bytes.mono first.mapped).trans first.bytes
  globals := second.globals.trans first.globals

/-- One round of the loop at this address leaves what was readable alone. -/
def RoundKeeps (view : FlatView platform) (flags virtualAddr : Word) (world : σ) : Prop :=
  (platform.allocBlock world).1 ≠ 0 → ∃ mapped next,
    platform.mapAddress virtualAddr (platform.allocBlock world).1 flags (platform.allocBlock world).2 =
      some (mapped, next) ∧
    Grown view world (if mapped then next else platform.freeBlock (platform.allocBlock world).1 next)

theorem RoundKeeps.of_allowed {flags virtualAddr : Word} (sound : view.Sound world)
    (allowed : view.Allowed virtualAddr flags)
    (ready : (platform.allocBlock world).1 ≠ 0 →
      view.Ready virtualAddr (platform.allocBlock world).1 (platform.allocBlock world).2) :
    RoundKeeps view flags virtualAddr world := by
  intro nonnull
  obtain ⟨mapped, next, mapping, keeps⟩ := view.mapAddress sound allowed (ready nonnull)
  obtain ⟨soundNext, grows, bytes, globals, _⟩ := keeps
    (if mapped then next else platform.freeBlock (platform.allocBlock world).1 next) (by cases mapped <;> simp)
  exact ⟨mapped, next, mapping, soundNext, grows, bytes, globals⟩

theorem mem_pageOf (address : Word) : address ∈ pageOf address := by
  simp only [pageOf, mem_span]
  omega

/-- What has been mapped since lies on the pages from `first` to `last`. -/
def NewPages (view : FlatView platform) (before after : σ) (first last : Nat) : Prop :=
  ∀ address ∈ view.Mapped after, address ∉ view.Mapped before →
    first / 4096 ≤ address.toNat / 4096 ∧ address.toNat / 4096 ≤ last / 4096

theorem NewPages.of_subset {first last : Nat} (same : view.Mapped after ⊆ view.Mapped world) :
    NewPages view world after first last := fun _ there absent => absurd (same there) absent

theorem NewPages.trans {first last : Nat} (early : NewPages view world middle first last)
    (late : NewPages view middle after first last) : NewPages view world after first last := by
  intro address there absent
  by_cases between : address ∈ view.Mapped middle
  · exact early address between absent
  · exact late address there between

def runAddress (virtualAddr step : Word) (index : Nat) : Word := virtualAddr + BitVec.ofNat 32 index * step

theorem runAddress_zero (virtualAddr step : Word) : runAddress virtualAddr step 0 = virtualAddr := by
  simp [runAddress]

theorem runAddress_succ (virtualAddr step : Word) (index : Nat) :
    runAddress virtualAddr step (index + 1) = runAddress (virtualAddr + step) step index := by
  simp only [runAddress, BitVec.ofNat_add, BitVec.add_mul, BitVec.one_mul]
  rw [BitVec.add_comm (_ * _) step, BitVec.add_assoc]

theorem runAddress_toNat {virtualAddr step : Word} {index : Nat}
    (limit : virtualAddr.toNat + index * step.toNat < 2 ^ 32) :
    (runAddress virtualAddr step index).toNat = virtualAddr.toNat + index * step.toNat := by
  have product : index * step.toNat < 2 ^ 32 := by omega
  rw [runAddress, BitVec.toNat_add, BitVec.toNat_mul, BitVec.toNat_ofNat, Nat.mod_mul_mod, Nat.mod_eq_of_lt product,
    Nat.mod_eq_of_lt limit]

theorem toNat_add_pageSize {virtualAddr : Word} (limit : virtualAddr.toNat + 4096 < 2 ^ 32) :
    (virtualAddr + pageSize).toNat = virtualAddr.toNat + 4096 := by
  rw [BitVec.toNat_add, show pageSize.toNat = 4096 from rfl, Nat.mod_eq_of_lt limit]

/-- What the loop leaves behind, whether or not it got to its end. -/
theorem mapPages_spec {step flags : Word} {count : Nat} {virtualAddr : Word} (sound : view.Sound world)
    (allowed : ∀ index < count, view.Allowed (runAddress virtualAddr step index) flags)
    (ready : ReadyRun view step flags count virtualAddr world) :
    ∃ mapped after, mapPages platform step flags count virtualAddr world = some (mapped, after) ∧
      Grown view world after ∧
      (mapped = true → ∀ index < count, pageOf (runAddress virtualAddr step index) ⊆ view.Mapped after) ∧
      ∀ address ∈ view.Mapped after, address ∉ view.Mapped world →
        ∃ index < count, address ∈ pageOf (runAddress virtualAddr step index) := by
  induction count generalizing virtualAddr world with
  | zero =>
      exact ⟨true, world, rfl, .refl sound, fun _ index below => absurd below (Nat.not_lt_zero _),
        fun _ there absent => absurd there absent⟩
  | succ count ih =>
      rw [mapPages]
      by_cases null : (platform.allocBlock world).1 = 0
      · have unchanged := view.allocBlock_null sound null
        exact ⟨false, world, by simp [null, unchanged], .refl sound, by simp,
          fun _ there absent => absurd there absent⟩
      · obtain ⟨readyHere, readyRest⟩ := ready null
        have allowedHere := allowed 0 (Nat.succ_pos _)
        rw [runAddress_zero] at allowedHere
        obtain ⟨mapped, next, mapping, keeps⟩ := view.mapAddress sound allowedHere readyHere
        obtain ⟨soundNext, grows, bytes, globals, page, only⟩ := keeps
          (if mapped then next else platform.freeBlock (platform.allocBlock world).1 next)
          (by cases mapped <;> simp)
        have allowedRest : ∀ index < count, view.Allowed (runAddress (virtualAddr + step) step index) flags := by
          intro index below
          rw [← runAddress_succ]
          exact allowed (index + 1) (Nat.succ_lt_succ below)
        obtain ⟨done, after, run, growth, covered, fresh⟩ := ih soundNext allowedRest (readyRest mapped next mapping)
        refine ⟨done, after, ?_, Grown.trans ⟨soundNext, grows, bytes, globals⟩ growth, ?_, ?_⟩
        · simp only [null, if_false, mapping, Option.bind_eq_bind, Option.bind_some]
          exact run
        · intro finished index below
          cases index with
          | zero =>
              rw [runAddress_zero]
              exact page.trans growth.mapped
          | succ index =>
              rw [runAddress_succ]
              exact covered finished index (Nat.lt_of_succ_lt_succ below)
        · intro address there absent
          by_cases between : address ∈ view.Mapped
              (if mapped then next else platform.freeBlock (platform.allocBlock world).1 next)
          · refine ⟨0, Nat.succ_pos _, ?_⟩
            rw [runAddress_zero]
            exact (only between).resolve_left absent
          · obtain ⟨index, below, page⟩ := fresh address there between
            refine ⟨index + 1, Nat.succ_lt_succ below, ?_⟩
            rwa [runAddress_succ]

/-- Whether or not the loop gets to its end, what was readable is left alone. It
stops early only where there is no frame. -/
theorem mapPages_keeps {step flags : Word} {count : Nat} {virtualAddr : Word} (sound : view.Sound world)
    (rounds : ∀ index < count, ∀ world, view.Sound world →
      RoundKeeps view flags (runAddress virtualAddr step index) world) :
    ∃ mapped after, mapPages platform step flags count virtualAddr world = some (mapped, after) ∧
      Grown view world after ∧ (mapped = false → (platform.allocBlock after).1 = 0) := by
  induction count generalizing virtualAddr world with
  | zero => exact ⟨true, world, rfl, .refl sound, by simp⟩
  | succ count ih =>
      rw [mapPages]
      by_cases null : (platform.allocBlock world).1 = 0
      · have unchanged := view.allocBlock_null sound null
        exact ⟨false, world, by simp [null, unchanged], .refl sound, fun _ => null⟩
      · have here := rounds 0 (Nat.succ_pos _) world sound
        rw [runAddress_zero] at here
        obtain ⟨mapped, next, mapping, growth⟩ := here null
        have later : ∀ index < count, ∀ world, view.Sound world →
            RoundKeeps view flags (runAddress (virtualAddr + step) step index) world := by
          intro index below
          rw [← runAddress_succ]
          exact rounds (index + 1) (Nat.succ_lt_succ below)
        obtain ⟨done, after, run, grown, stopped⟩ := ih growth.sound later
        refine ⟨done, after, ?_, growth.trans grown, stopped⟩
        simp only [null, if_false, mapping, Option.bind_eq_bind, Option.bind_some]
        exact run

/-- Without any frame the loop ends where it began. -/
theorem mapPages_null {step flags virtualAddr : Word} {count : Nat} (sound : view.Sound world)
    (null : (platform.allocBlock world).1 = 0) :
    mapPages platform step flags (count + 1) virtualAddr world = some (false, world) := by
  simp only [mapPages, null, view.allocBlock_null sound null, if_true]

/-- A first round that leaves everything as it was. -/
theorem mapPages_of_first {step flags virtualAddr : Word} {count : Nat}
    (first : mapPages platform step flags 1 virtualAddr world = some (true, world)) :
    mapPages platform step flags (count + 1) virtualAddr world =
      mapPages platform step flags count (virtualAddr + step) world := by
  rw [mapPages] at first ⊢
  dsimp only at first ⊢
  split at first
  · simp at first
  · rename_i nonnull
    rw [if_neg nonnull]
    simp only [mapPages, Option.bind_eq_bind, Option.bind_eq_some_iff, Option.some.injEq, Prod.mk.injEq, true_and,
      Prod.exists] at first
    obtain ⟨mapped, next, mapping, kept⟩ := first
    rw [mapping, Option.bind_eq_bind, Option.bind_some]
    dsimp only
    rw [kept]

/-- The loop stops early only for want of a frame. -/
theorem mapPages_of_framesFor {step flags virtualAddr : Word} {count : Nat} {mapped : Bool}
    (enough : FramesFor platform step flags count virtualAddr world)
    (run : mapPages platform step flags count virtualAddr world = some (mapped, after)) : mapped = true := by
  induction count generalizing virtualAddr world with
  | zero => exact (Prod.mk.inj (Option.some.inj run)).1.symm
  | succ count ih =>
      obtain ⟨nonnull, rest⟩ := enough
      rw [mapPages] at run
      simp only [nonnull, if_false, Option.bind_eq_bind, Option.bind_eq_some_iff, Prod.exists] at run
      obtain ⟨entered, next, mapping, run⟩ := run
      exact ih (rest entered next mapping) run

/-- The loop never maps `NULL`. -/
theorem readyRun_of_ready
    (always : ∀ virtualAddr physicalAddr state, physicalAddr ≠ 0 → view.Ready virtualAddr physicalAddr state)
    (step flags : Word) (count : Nat) (virtualAddr : Word) (world : σ) :
    ReadyRun view step flags count virtualAddr world := by
  induction count generalizing virtualAddr world with
  | zero => trivial
  | succ count ih => exact fun nonnull => ⟨always _ _ _ nonnull, fun mapped after _ => ih ..⟩

end ScratchOs
