import ScratchOs.Paging.Owners
import ScratchOs.Paging.Runs

namespace ScratchOs.Machine

open Data

/-! `unmap_address` after `map_address`.

The table that `map_address` may have taken a frame for stays, so the machine
is not the one before; what it translates and what it hands out next is. -/

variable {machine : Machine} {pages held : Set Word} {virtualAddr other flags : Word}

theorem entry_place (machine : Machine) (virtualAddr : Word) :
    machine.entry (getPageDirIndex virtualAddr) (getPageTableIndex virtualAddr) =
      machine.memory.read32 (machine.place virtualAddr) := rfl

/-- Pages that share an entry are there together. -/
theorem walk_none_of_place (unmapped : machine.walk virtualAddr = none)
    (present : machine.Present (getPageDirIndex virtualAddr)) (same : machine.place other = machine.place virtualAddr) :
    machine.walk other = none := by
  by_cases otherPresent : machine.Present (getPageDirIndex other)
  · rw [walk_of_present present, entry_place] at unmapped
    rw [walk_of_present otherPresent, entry_place, same]
    split at unmapped
    · cases unmapped
    · next clear => rw [if_neg clear]
  · exact walk_of_absent otherPresent

namespace Shared

/-- A table for which there is a frame moves no page. -/
theorem Accounted.withTable_walk (accounted : Accounted ⟨machine, pages, held⟩) {pdi : Word} (inside : pdi.toNat < 1023)
    (enough : ¬ machine.Present pdi → machine.allocBlock.1 ≠ 0) (otherInside : (getPageDirIndex other).toNat < 1023) :
    (machine.withTable pdi).walk other = machine.walk other := by
  by_cases present : machine.Present pdi
  · rw [withTable_of_present present]
  · rw [withTable_of_absent present]
    have self : machine.allocBlock.2.SelfMapped := accounted.self.congr fun _ _ => rfl
    refine self.walk_enterTable inside present machine.pmm.allocBlock_mod (fun slot slotInside slotPresent same => ?_)
      (accounted.apart otherInside)
    have owner : ∃ owner, Owns ⟨machine, pages, held⟩ owner machine.allocBlock.1 := by
      by_cases last : slot = 1023
      · subst last
        exact ⟨.directory, enough present, same.symm.trans accounted.self.address⟩
      · have below : slot.toNat < 1023 := by
          refine Nat.lt_of_le_of_ne (Nat.le_of_lt_succ slotInside) fun equal => last ?_
          exact BitVec.eq_of_toNat_eq equal
        exact ⟨.table slot, enough present, below, slotPresent, same⟩
    obtain ⟨owner, owns⟩ := owner
    exact taken_unused (enough present) (accounted.sole.used owner _ owns)

theorem Accounted.map_unmap (accounted : Accounted ⟨machine, pages, held⟩) {frame : Word}
    (inside : (getPageDirIndex virtualAddr).toNat < 1023) (unmapped : machine.walk virtualAddr = none)
    (small : flags.toNat < 4096) (aligned : frame.toNat % 4096 = 0)
    (enough : ¬ machine.Present (getPageDirIndex virtualAddr) → machine.allocBlock.1 ≠ 0) :
    ∃ mapped after, mapAddress virtualAddr frame flags machine = some (true, mapped) ∧
      unmapAddress virtualAddr mapped = some after ∧
      after.pmm = (machine.withTable (getPageDirIndex virtualAddr)).pmm.freeBlock frame ∧
      ∀ other : Word, (getPageDirIndex other).toNat < 1023 → after.walk other = machine.walk other := by
  have ready := accounted.slotReady inside
  have opened := ready.withTable
  have within := getPageTableIndex_lt virtualAddr
  have walks := fun other => @Accounted.withTable_walk machine pages held other accounted _ inside enough
  have entering := @mapAddress_eq machine virtualAddr frame flags ready
  generalize machine.withTable (getPageDirIndex virtualAddr) = tabled at opened walks entering ⊢
  have absent : tabled.walk virtualAddr = none := (walks virtualAddr inside).trans unmapped
  have clear : ¬ testFlag (tabled.entry (getPageDirIndex virtualAddr) (getPageTableIndex virtualAddr)) ptePresent =
      true := by
    intro set
    rw [walk_of_present opened.present, if_pos set] at absent
    cases absent
  dsimp only at entering
  rw [if_neg clear] at entering
  generalize valueEq :
    mappedEntry (tabled.entry (getPageDirIndex virtualAddr) (getPageTableIndex virtualAddr)) frame flags = value
    at entering
  have found : (tabled.setEntry (getPageDirIndex virtualAddr) (getPageTableIndex virtualAddr) value).frameOf virtualAddr =
      some frame := by
    rw [frameOf, setEntry_walk_here opened.apart within opened.present rfl, ← valueEq, if_pos (testFlag_mappedEntry ..),
      Option.map_some, getAddr_mappedEntry aligned small]
  have written := opened.setEntry within value
  have erasing := @unmapAddress_eq (tabled.setEntry _ _ value) virtualAddr written.self fun _ => written.apart
  rw [found] at erasing
  dsimp only at erasing
  rw [setEntry_setEntry opened.apart opened.inside within] at erasing
  refine ⟨_, _, entering, erasing, rfl, fun other otherInside => ?_⟩
  rw [← walks other otherInside]
  change (tabled.setEntry _ _ 0).walk other = tabled.walk other
  by_cases here : tabled.place other = tabled.place virtualAddr
  · rw [walk_none_of_place absent opened.present here]
    by_cases present : tabled.Present (getPageDirIndex other)
    · rw [setEntry_walk_here opened.apart within present here, testFlag_zero, if_neg (by simp)]
    · have still := @setEntry_present tabled _ _ _ 0 opened.apart within (getPageDirIndex_lt other)
      exact walk_of_absent fun later => present (still.mp later)
  · exact setEntry_walk_elsewhere opened.apart within here

end Shared

/-- Mapping a frame just taken at a page that is not there and unmapping it
again: no page has moved, the frame is the only one given back, and it is the
next one to be handed out. -/
theorem unmapAddress_undoes_mapAddress (memory : ByteMemory) (pmm : Pmm)
    (reserved : ∀ block < 1024, pmm.isBlockUsed block = true) (two : 2 ≤ pmm.getNumFreeBlocks) (state : Shared)
    (reached : Shared.Reachable (Stage2.machine memory pmm) state) (virtualAddr flags : Word)
    (outside : (getPageDirIndex virtualAddr).toNat < 1023) (unmapped : state.machine.walk virtualAddr = none)
    (flagsOnly : flags.toNat < 0x1000) (nonnull : state.machine.allocBlock.1 ≠ 0)
    (enough : ¬ state.machine.Present (getPageDirIndex virtualAddr) → state.machine.allocBlock.2.FrameFree) :
    ∃ mapped after,
      mapAddress virtualAddr state.machine.allocBlock.1 flags state.machine.allocBlock.2 = some (true, mapped) ∧
      unmapAddress virtualAddr mapped = some after ∧
      (∀ other : Word, (getPageDirIndex other).toNat < 1023 → after.translate other = state.machine.translate other) ∧
      after.pmm.isBlockUsed (state.machine.allocBlock.1.toNat / 4096) = false ∧
      (∀ block ≠ state.machine.allocBlock.1.toNat / 4096, state.machine.allocBlock.2.pmm.isBlockUsed block = true →
        after.pmm.isBlockUsed block = true) ∧
      after.allocBlock.1 = state.machine.allocBlock.1 := by
  obtain ⟨machine, pages, held⟩ := state
  have accounted := (reached.accounted reserved two).allocBlock
  have aligned : machine.allocBlock.1.toNat % 4096 = 0 := machine.pmm.allocBlock_mod
  have second : ¬ machine.allocBlock.2.Present (getPageDirIndex virtualAddr) → machine.allocBlock.2.allocBlock.1 ≠ 0 :=
    fun absent => Pmm.allocBlock_second (enough absent)
  obtain ⟨mapped, after, mapping, unmapping, released, walks⟩ :=
    accounted.map_unmap outside unmapped flagsOnly aligned second
  have kept : ∀ block ≠ machine.allocBlock.1.toNat / 4096, machine.allocBlock.2.pmm.isBlockUsed block = true →
      after.pmm.isBlockUsed block = true := by
    intro block other used
    rw [released, Pmm.freeBlock, Pmm.isBlockUsed_markBlockFree, withTable_used used]
    simp only [bitmapBlockSize, other, decide_false, Bool.not_false, Bool.and_self]
  have free : after.pmm.isBlockUsed (machine.allocBlock.1.toNat / 4096) = false := by
    rw [released, Pmm.freeBlock, Pmm.isBlockUsed_markBlockFree]
    simp [bitmapBlockSize]
  have size : after.pmm.gBitmapSize = machine.pmm.gBitmapSize := by
    rw [released]
    exact (withTable_size machine.allocBlock.2 _).trans machine.pmm.gBitmapSize_allocBlock
  refine ⟨mapped, after, mapping, unmapping, fun other otherOutside => ?_, free, kept, ?_⟩
  · rw [translate, walks other otherOutside]
    rfl
  · refine Pmm.allocBlock_again nonnull size free fun block used => ?_
    refine kept block ?_ (Pmm.allocBlock_used used)
    rintro rfl
    exact Bool.noConfusion ((taken_of_nonnull nonnull).1.symm.trans used)

/-- Six frames: four for `initialize_paging`, one for a page and one for its table. -/
theorem unmapAddress_undoes_mapAddress_sixFrames : ∃ machine mapped after,
    initializePaging (Stage2.machine (fun _ => 0) (framesLeft 6 (by decide))) = some machine ∧
      mapAddress 0x400000 machine.allocBlock.1 0x02 machine.allocBlock.2 = some (true, mapped) ∧
      unmapAddress 0x400000 mapped = some after ∧ after.allocBlock.1 = machine.allocBlock.1 := by
  have free : (framesLeft 6 (by decide)).getNumFreeBlocks = 6 := by decide +kernel
  obtain ⟨machine, booted, inv, kernel⟩ := @initializePaging_spec (fun _ => 0) (framesLeft 6 (by decide))
    framesLeft_reserved (by omega)
  obtain ⟨tables, left⟩ := kernel (by omega)
  obtain ⟨_, _, three⟩ := tables.slots
  have absent : ¬ machine.Present (getPageDirIndex 0x400000) := by
    change ¬ testFlag (machine.directoryEntry 1) _ = true
    rw [three.others 1 (by decide) (by decide) (by decide) (by decide), testFlag_zero]
    simp
  have nonnull : machine.allocBlock.1 ≠ 0 :=
    Pmm.allocBlock_ne_zero (tables.reserved 0 (by decide)) (Pmm.getNumFreeBlocks_pos.mp (by omega))
  have more : machine.allocBlock.2.FrameFree := by
    apply Pmm.getNumFreeBlocks_pos.mp
    change 0 < machine.pmm.allocBlock.2.getNumFreeBlocks
    rw [Pmm.getNumFreeBlocks_allocBlock]
    omega
  obtain ⟨mapped, after, mapping, unmapping, _, _, _, again⟩ := unmapAddress_undoes_mapAddress (fun _ => 0)
    (framesLeft 6 (by decide)) framesLeft_reserved (by omega) ⟨machine, ∅, ∅⟩ (.boot booted) 0x400000 0x02 (by decide)
    (walk_of_absent absent) (by decide) nonnull fun _ => more
  exact ⟨machine, mapped, after, booted, mapping, unmapping, again⟩

end ScratchOs.Machine
