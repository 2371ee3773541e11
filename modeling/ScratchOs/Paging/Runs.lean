import ScratchOs.Paging.Boot

namespace ScratchOs.Machine

open Data

/-! Runs of the paging code after `initialize_paging`. -/

/-- What other kernel code does to the tables. A frame is mapped right after
it was taken. -/
inductive Action where
  | allocBlock
  | mapAddress (virtualAddr flags : Word)
  | unmapAddress (virtualAddr : Word)

/-- The machine and the pages mapped so far, `initialize_paging`'s own left out. -/
structure Tracked where
  machine : Machine
  pages : Set Word

/-- Calls stay outside the recursive window, and only pages mapped in this way
are unmapped. -/
def Action.Legal (state : Tracked) : Action → Prop
  | .allocBlock => True
  | .mapAddress virtualAddr _ => (getPageDirIndex virtualAddr).toNat < 1023
  | .unmapAddress virtualAddr => virtualAddr ∈ state.pages

def Action.run (state : Tracked) : Action → Option Tracked
  | .allocBlock => some { state with machine := state.machine.allocBlock.2 }
  | .mapAddress virtualAddr flags =>
      (Machine.mapAddress virtualAddr state.machine.allocBlock.1 flags state.machine.allocBlock.2).map fun result =>
        ⟨result.2, if result.1 then state.pages ∪ pageOf virtualAddr else state.pages⟩
  | .unmapAddress virtualAddr =>
      (Machine.unmapAddress virtualAddr state.machine).map fun machine =>
        ⟨machine, state.pages \ pageOf virtualAddr⟩

/-- The states after `initialize_paging` and legal actions that each meet
`condition` where they are taken. -/
inductive Reachable (condition : Machine → Action → Prop) (start : Machine) : Tracked → Prop
  | boot {machine} : initializePaging start = some machine → Reachable condition start ⟨machine, ∅⟩
  | step {state after} (action : Action) : Reachable condition start state → action.Legal state →
      condition state.machine action → action.run state = some after → Reachable condition start after

/-- A slot without a table can still be given one once the page's frame is taken. -/
def TableAvailable (machine : Machine) (virtualAddr : Word) : Prop :=
  ¬ machine.Present (getPageDirIndex virtualAddr) → machine.allocBlock.2.FrameFree

/-- `map_address` finds a frame for the table it needs, and its flags are flags. -/
def Action.Ready (machine : Machine) : Action → Prop
  | .mapAddress virtualAddr flags => FlagsKeep machine.allocBlock.1 flags ∧ machine.TableAvailable virtualAddr
  | _ => True

def TablesApart (machine : Machine) : Prop :=
  (∀ slot : Word, slot.toNat < 1023 → machine.Present slot →
    machine.tableFrame slot ≠ 0 ∧ machine.pmm.isBlockUsed ((machine.tableFrame slot).toNat / 4096) = true) ∧
  ∀ left right : Word, left.toNat < 1023 → right.toNat < 1023 → machine.Present left → machine.Present right →
    machine.tableFrame left = machine.tableFrame right → left = right

/-- `map_address` on a slot that needs a table reports that no frame is left. -/
def RefusesWithoutFrame (machine : Machine) (virtualAddr physicalAddr flags : Word) : Prop :=
  ¬ machine.Present (getPageDirIndex virtualAddr) → ¬ machine.FrameFree →
    mapAddress virtualAddr physicalAddr flags machine = some (false, machine)

variable {machine : Machine} {state after : Tracked} {pages : Set Word} {virtualAddr physicalAddr flags : Word}

theorem PagingInv.tablesApart (inv : machine.PagingInv pages) : machine.TablesApart := by
  constructor
  · intro slot inside present
    exact ⟨inv.nonnull slot (by omega) present, inv.tables.used slot (by omega) present⟩
  · intro left right leftInside rightInside
    exact inv.tables.distinct left right (by omega) (by omega)

/-- One ready action: it returns and keeps the invariant. -/
theorem PagingInv.action (inv : state.machine.PagingInv state.pages) {action : Action} (legal : action.Legal state)
    (ready : action.Ready state.machine) :
    ∃ after, action.run state = some after ∧ after.machine.PagingInv after.pages := by
  cases action with
  | allocBlock => exact ⟨_, rfl, inv.allocBlock⟩
  | mapAddress virtualAddr flags =>
      obtain ⟨keep, enough⟩ := ready
      have tables := inv.tables.allocBlock
      cases found : state.machine.allocBlock.2.walk virtualAddr with
      | some entries =>
          have run := @mapAddress_of_mapped state.machine.allocBlock.2 virtualAddr state.machine.allocBlock.1 flags tables
            legal (by rw [found]; rfl)
          exact ⟨_, by rw [Action.run, run, Option.map_some], inv.allocBlock⟩
      | none =>
          have run := @mapAddress_of_unmapped state.machine.allocBlock.2 virtualAddr state.machine.allocBlock.1 flags
            tables legal (tables.newTable enough) found
          exact ⟨_, by rw [Action.run, run, Option.map_some], inv.take legal enough keep⟩
  | unmapAddress virtualAddr =>
      obtain ⟨after, run, invAfter⟩ := inv.unmap legal
      exact ⟨_, by rw [Action.run, run, Option.map_some], invAfter⟩

theorem Reachable.inv {memory : ByteMemory} {pmm : Pmm} (reserved : ∀ block < 1024, pmm.isBlockUsed block = true)
    (two : 2 ≤ pmm.getNumFreeBlocks)
    (reached : Reachable Action.Ready (Stage2.machine memory pmm) state) : state.machine.PagingInv state.pages := by
  induction reached with
  | boot run =>
      obtain ⟨after, result, inv, _⟩ := initializePaging_spec reserved two
      cases run.symm.trans result
      exact inv
  | step action _ legal ready run ih =>
      obtain ⟨after, result, inv⟩ := ih.action legal ready
      cases run.symm.trans result
      exact inv

/-- Without a frame for the table `map_address` enters frame 0 and reports success. -/
theorem PagingInv.mapAddress_exhausted (inv : machine.PagingInv pages)
    (inside : (getPageDirIndex virtualAddr).toNat < 1023)
    (absent : ¬ machine.Present (getPageDirIndex virtualAddr)) (exhausted : ¬ machine.FrameFree) :
    ∃ after, mapAddress virtualAddr physicalAddr flags machine = some (true, after) ∧
      after.Present (getPageDirIndex virtualAddr) ∧ after.tableFrame (getPageDirIndex virtualAddr) = 0 := by
  have null : machine.allocBlock.1 = 0 := by
    by_contra nonnull
    exact exhausted (Pmm.allocBlock_nonnull nonnull)
  have notDirectory : machine.allocBlock.1 ≠ machine.directory := by
    rw [null, ← inv.tables.self.address]
    exact (inv.nonnull 1023 (by decide) inv.tables.self.present).symm
  have ready : machine.SlotReady (getPageDirIndex virtualAddr) :=
    ⟨inv.tables.self, inside, inv.tables.apart_directory inside, fun _ => notDirectory⟩
  have opened := ready.withTable
  have within := getPageTableIndex_lt virtualAddr
  have aligned : machine.allocBlock.1.toNat % 4096 = 0 := machine.pmm.allocBlock_mod
  have frame : (machine.withTable (getPageDirIndex virtualAddr)).tableFrame (getPageDirIndex virtualAddr) = 0 := by
    rw [withTable_of_absent absent, @enterTable_tableFrame machine.allocBlock.2 _ _ (by omega) aligned notDirectory, null]
  have empty : (machine.withTable (getPageDirIndex virtualAddr)).entry (getPageDirIndex virtualAddr)
      (getPageTableIndex virtualAddr) = 0 := by
    rw [withTable_of_absent absent]
    exact enterTable_entry_self (by omega) within aligned notDirectory
  have run : mapAddress virtualAddr physicalAddr flags machine =
      some (true, machine.mapped virtualAddr physicalAddr flags) := by
    rw [mapAddress_eq ready]
    simp only [empty, testFlag_zero, Bool.false_eq_true, if_false]
    rfl
  have entry : (machine.mapped virtualAddr physicalAddr flags).directoryEntry (getPageDirIndex virtualAddr) = _ :=
    setEntry_directoryEntry opened.apart within opened.inside
  refine ⟨_, run, ?_, ?_⟩
  · rw [Present, entry]
    exact opened.present
  · rw [tableFrame, entry]
    exact frame

/-- Page tables keep frames of their own in every run in which each call of
`map_address` finds a frame for the table it needs. For the next call that is
also necessary: it keeps the tables apart and refuses without a frame exactly
when a table is there or a frame for it. -/
theorem page_tables_apart (memory : ByteMemory) (pmm : Pmm) (reserved : ∀ block < 1024, pmm.isBlockUsed block = true)
    (two : 2 ≤ pmm.getNumFreeBlocks) (state : Tracked)
    (reached : Reachable Action.Ready (Stage2.machine memory pmm) state) :
    state.machine.TablesApart ∧
    ∀ virtualAddr flags : Word, (getPageDirIndex virtualAddr).toNat < 1023 →
      FlagsKeep state.machine.allocBlock.1 flags →
      ∃ after, (Action.mapAddress virtualAddr flags).run state = some after ∧
        ((after.machine.TablesApart ∧
            state.machine.allocBlock.2.RefusesWithoutFrame virtualAddr state.machine.allocBlock.1 flags) ↔
          state.machine.TableAvailable virtualAddr) := by
  have inv := reached.inv reserved two
  refine ⟨inv.tablesApart, fun virtualAddr flags inside keep => ?_⟩
  by_cases enough : state.machine.TableAvailable virtualAddr
  · obtain ⟨after, run, invAfter⟩ := @PagingInv.action state inv (.mapAddress virtualAddr flags) inside ⟨keep, enough⟩
    exact ⟨after, run, fun _ => enough, fun _ => ⟨invAfter.tablesApart, fun absent none => absurd (enough absent) none⟩⟩
  · obtain ⟨absent, exhausted⟩ := Classical.not_imp.mp enough
    obtain ⟨after, run, present, frame⟩ := @PagingInv.mapAddress_exhausted _ _ virtualAddr state.machine.allocBlock.1 flags
      inv.allocBlock inside absent exhausted
    refine ⟨_, by rw [Action.run, run, Option.map_some], fun claimed => ?_, fun available => absurd available enough⟩
    exact absurd frame (claimed.1.1 _ inside present).1

/-- The first four megabytes are reserved and `count` blocks behind them are free. -/
def framesLeft (count : Nat) (small : count ≤ 32) : Pmm where
  words index := if index < 32 then BitVec.allOnes 32 else 0
  gBitmapSize := 1024 + count
  gBitmapSize_le := by omega

theorem framesLeft_reserved {count : Nat} {small : count ≤ 32} :
    ∀ block < 1024, (framesLeft count small).isBlockUsed block = true := by
  have words : ∀ block < 1024,
      WordBits.test (fun index => if index < 32 then BitVec.allOnes 32 else 0#32) block = true := by
    decide +kernel
  exact words

/-- Five frames: four for `initialize_paging`, one for a page, none for its table. -/
theorem fiveFrames_alias : ∃ state,
    Reachable (fun _ _ => True) (Stage2.machine (fun _ => 0) (framesLeft 5 (by decide))) state ∧
      ¬ state.machine.TablesApart := by
  have free : (framesLeft 5 (by decide)).getNumFreeBlocks = 5 := by decide +kernel
  obtain ⟨machine, booted, inv, kernel⟩ := @initializePaging_spec (fun _ => 0) (framesLeft 5 (by decide))
    framesLeft_reserved (by omega)
  obtain ⟨tables, left⟩ := kernel (by omega)
  obtain ⟨_, _, three⟩ := tables.slots
  have absent : ¬ machine.allocBlock.2.Present (getPageDirIndex 0x400000) := by
    change ¬ testFlag (machine.directoryEntry 1) _ = true
    rw [three.others 1 (by decide) (by decide) (by decide) (by decide), testFlag_zero]
    simp
  have exhausted : ¬ machine.allocBlock.2.FrameFree := by
    intro frame
    have positive : 0 < machine.pmm.allocBlock.2.getNumFreeBlocks := Pmm.getNumFreeBlocks_pos.mpr frame
    rw [Pmm.getNumFreeBlocks_allocBlock] at positive
    omega
  obtain ⟨after, run, present, frame⟩ := @PagingInv.mapAddress_exhausted _ _ 0x400000 machine.allocBlock.1 0x02
    inv.allocBlock (by decide) absent exhausted
  refine ⟨_, .step (.mapAddress 0x400000 0x02) (.boot booted)
    (show (getPageDirIndex 0x400000).toNat < 1023 by decide) trivial
    (by rw [Action.run, run, Option.map_some]), fun apart => ?_⟩
  exact (apart.1 _ (by decide) present).1 frame

theorem page_tables_apart_fiveFrames : ∃ machine,
    initializePaging (Stage2.machine (fun _ => 0) (framesLeft 5 (by decide))) = some machine ∧
      machine.TablesApart := by
  have free : (framesLeft 5 (by decide)).getNumFreeBlocks = 5 := by decide +kernel
  obtain ⟨machine, booted, _⟩ := @initializePaging_spec (fun _ => 0) (framesLeft 5 (by decide))
    framesLeft_reserved (by omega)
  exact ⟨machine, booted, (page_tables_apart (fun _ => 0) (framesLeft 5 (by decide)) framesLeft_reserved (by omega)
    ⟨machine, ∅⟩ (.boot booted)).1⟩

end ScratchOs.Machine
