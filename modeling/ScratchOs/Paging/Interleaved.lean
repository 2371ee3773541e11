import ScratchOs.Paging.Coherent

namespace ScratchOs.Tlb

open Data

/-! Runs of the paging code and its callers on the processor with a TLB, against
the same calls on the machine of `Paging.Walk`, which has none. -/

inductive Call where
  | allocBlock
  | mapAddress (virtualAddr flags : Word)
  | unmapAddress (virtualAddr : Word)
  | load8 (virtualAddr : Word)
  | store8 (virtualAddr : Word) (value : Byte)

/-- A frame is mapped right after it was taken. -/
def Call.code : Call → Code Word
  | .allocBlock => Tlb.allocBlock
  | .mapAddress virtualAddr flags => do
      let frame ← Tlb.allocBlock
      let mapped ← Tlb.mapAddress virtualAddr frame flags
      pure (if mapped then 1 else 0)
  | .unmapAddress virtualAddr => do
      Tlb.unmapAddress virtualAddr
      pure 0
  | .load8 virtualAddr => do
      let byte ← perform (.load8 virtualAddr)
      pure (byte.setWidth 32)
  | .store8 virtualAddr value => do
      Tlb.store8 virtualAddr value
      pure 0

/-- What the call comes to without a TLB. -/
def Call.run (state : Machine.Tracked) : Call → Option (Word × Machine.Tracked)
  | .allocBlock => some (state.machine.allocBlock.1, { state with machine := state.machine.allocBlock.2 })
  | .mapAddress virtualAddr flags =>
      (Machine.mapAddress virtualAddr state.machine.allocBlock.1 flags state.machine.allocBlock.2).map fun result =>
        (if result.1 then 1 else 0, ⟨result.2, if result.1 then state.pages ∪ pageOf virtualAddr else state.pages⟩)
  | .unmapAddress virtualAddr =>
      (Machine.unmapAddress virtualAddr state.machine).map fun machine =>
        (0, ⟨machine, state.pages \ pageOf virtualAddr⟩)
  | .load8 virtualAddr =>
      (Machine.load8 virtualAddr state.machine).map fun byte => (byte.setWidth 32, state)
  | .store8 virtualAddr value =>
      (Machine.store8 virtualAddr value state.machine).map fun machine => (0, { state with machine })

def Call.runAll : List Call → Machine.Tracked → Option (List Word × Machine.Tracked)
  | [], state => some ([], state)
  | call :: calls, state =>
      (call.run state).bind fun first => (runAll calls first.2).map fun rest => (first.1 :: rest.1, rest.2)

/-- `map_address` is for pages outside the window with a frame for the table, if
the page needs one; only pages mapped in this way are unmapped; accesses go to
pages that are there, and no one writes to the tables. -/
def Call.Legal (state : Machine.Tracked) : Call → Prop
  | .allocBlock => True
  | .mapAddress virtualAddr flags =>
      (getPageDirIndex virtualAddr).toNat < 1023 ∧ Machine.FlagsKeep state.machine.allocBlock.1 flags ∧
        state.machine.TableAvailable virtualAddr
  | .unmapAddress virtualAddr => virtualAddr ∈ state.pages
  | .load8 virtualAddr => ∃ frame, state.machine.frameOf virtualAddr = some frame
  | .store8 virtualAddr _ => ∃ frame, state.machine.frameOf virtualAddr = some frame ∧
      ∀ slot : Word, slot.toNat < 1024 → state.machine.Present slot → state.machine.tableFrame slot ≠ frame

/-- Pages the processor may look up unasked while a function runs: those of
slots that had a table when it was called. -/
def Foreseen (machine : Machine) (ahead : Set Word) : Prop := ∀ page ∈ ahead, machine.Present (getPageDirIndex page)

abbrev Reaches {α : Type} (ahead : Set Word) (before after : Code α × Cpu) : Prop :=
  Program.Reaches system.cachedExecute (system.Refill ahead) before after

/-- The pages its clients have mapped, as they can tell from the answers. -/
def Call.pages (answer : Word) (pages : Set Word) : Call → Set Word
  | .mapAddress virtualAddr _ => if answer = 1 then pages ∪ pageOf virtualAddr else pages
  | .unmapAddress virtualAddr => pages \ pageOf virtualAddr
  | .allocBlock | .load8 _ | .store8 .. => pages

/-- The processor after `initialize_paging` and some calls, each of them in any
interleaving with what the processor does to its TLB. -/
inductive Reachable (start : Cpu) : List Call → List Word → Cpu → Set Word → Prop
  | boot {ahead cpu} : Foreseen start.state ahead → Reaches ahead (initializePaging, start) (.done (), cpu) →
      Reachable start [] [] cpu ∅
  | call {calls answers cpu pages ahead answer after} (call : Call) : Reachable start calls answers cpu pages →
      call.Legal ⟨cpu.state, pages⟩ → Foreseen cpu.state ahead → Reaches ahead (call.code, cpu) (.done answer, after) →
      Reachable start (calls ++ [call]) (answers ++ [answer]) after (call.pages answer pages)

variable {machine after : Machine} {pages ahead : Set Word} {call : Call} {answer : Word}

theorem run_code (ran : run call.code machine = some (answer, after)) :
    call.run ⟨machine, pages⟩ = some (answer, ⟨after, call.pages answer pages⟩) := by
  cases call with
  | allocBlock =>
      rw [Call.code, run_allocBlock] at ran
      cases ran
      rfl
  | mapAddress virtualAddr flags =>
      rw [Call.code, run_bind, run_allocBlock, Option.bind_some, run_bind, run_mapAddress] at ran
      obtain ⟨⟨mapped, entered⟩, mapping, result⟩ := Option.bind_eq_some_iff.mp ran
      cases result
      rw [Call.run, mapping, Option.map_some]
      cases mapped <;> rfl
  | unmapAddress virtualAddr =>
      rw [Call.code, run_bind, run_unmapAddress] at ran
      obtain ⟨⟨_, unmapped⟩, unmapping, result⟩ := Option.bind_eq_some_iff.mp ran
      obtain ⟨_, found, same⟩ := Option.map_eq_some_iff.mp unmapping
      cases result
      cases same
      rw [Call.run, found, Option.map_some]
      rfl
  | load8 virtualAddr =>
      obtain ⟨⟨byte, _⟩, loading, result⟩ := Option.bind_eq_some_iff.mp ((run_bind ..).symm.trans ran)
      have loaded := ((Program.run_op ..).trans (execute_load8 virtualAddr machine)).symm.trans loading
      obtain ⟨_, found, same⟩ := Option.map_eq_some_iff.mp loaded
      cases result
      cases same
      rw [Call.run, found, Option.map_some]
      rfl
  | store8 virtualAddr value =>
      rw [Call.code, run_bind, run_store8] at ran
      obtain ⟨⟨_, _⟩, storing, result⟩ := Option.bind_eq_some_iff.mp ran
      obtain ⟨_, found, same⟩ := Option.map_eq_some_iff.mp storing
      cases result
      cases same
      rw [Call.run, found, Option.map_some]
      rfl

theorem store8_found {virtualAddr frame : Word} (value : Byte) (found : machine.frameOf virtualAddr = some frame) :
    Machine.store8 virtualAddr value machine =
      some { machine with memory := machine.memory.write8 (frame + (virtualAddr &&& 0xFFF)) value } := by
  rw [Machine.store8, Machine.translate_eq_frameOf, found, Option.map_some, Option.map_some]

theorem write8_outside_frame {virtualAddr frame : Word} {value : Byte} (aligned : frame.toNat % 4096 = 0) :
    Set.EqOn (machine.memory.write8 (frame + (virtualAddr &&& 0xFFF)) value) machine.memory (frameSpan frame)ᶜ := by
  refine (machine.memory.write8_outside _ value).mono (Set.compl_subset_compl.mpr ?_)
  have low := offset_toNat virtualAddr
  intro place
  rw [mem_span, mem_span]
  bv_omega

theorem Call.agrees (inv : machine.PagingInv pages) (legal : call.Legal ⟨machine, pages⟩)
    (foreseen : Foreseen machine ahead) : Agrees ahead call.code machine := by
  cases call with
  | allocBlock => exact agrees_allocBlock (agrees_pure _)
  | mapAddress virtualAddr flags =>
      obtain ⟨inside, _, enough⟩ := legal
      have tables := inv.tables.allocBlock
      refine agrees_allocBlock (Translated.agrees_bind (agrees_mapAddress tables inside (tables.newTable enough) ?_)
        fun _ _ _ => agrees_pure _)
      rintro absent page early same
      exact absent (same ▸ foreseen page early)
  | unmapAddress virtualAddr =>
      exact Translated.agrees_bind (agrees_unmapAddress inv.tables (inv.apart.outside virtualAddr legal))
        fun _ _ _ => agrees_pure _
  | load8 virtualAddr =>
      obtain ⟨frame, found⟩ := legal
      have runs : execute (.load8 virtualAddr) machine =
          some (machine.memory (frame + (virtualAddr &&& 0xFFF)), machine) := by
        rw [execute_load8, Machine.load8, Machine.translate_eq_frameOf, found, Option.map_some, Option.map_some,
          Option.map_some]
      exact agrees_perform runs (fun _ _ _ stays => stays) (agrees_pure _)
  | store8 virtualAddr value =>
      obtain ⟨frame, found, clear⟩ := legal
      have kept := Machine.tablesKept_of_clear (Machine.frameOf_mod found)
        (@write8_outside_frame machine virtualAddr frame value (Machine.frameOf_mod found)) clear
      exact agrees_store8 (store8_found value found) (kept_of_same (kept.frameOf inv.tables.self)) (agrees_pure _)

theorem Call.inv (inv : machine.PagingInv pages) (legal : call.Legal ⟨machine, pages⟩) {state : Machine.Tracked}
    (ran : call.run ⟨machine, pages⟩ = some (answer, state)) : state.machine.PagingInv state.pages := by
  cases call with
  | allocBlock =>
      cases ran
      exact inv.allocBlock
  | mapAddress virtualAddr flags =>
      obtain ⟨inside, keep, enough⟩ := legal
      obtain ⟨result, mapping, same⟩ := Option.map_eq_some_iff.mp ran
      cases same
      obtain ⟨after, run, invAfter⟩ := @Machine.PagingInv.action ⟨machine, pages⟩ inv (.mapAddress virtualAddr flags) inside
        ⟨keep, enough⟩
      rw [Machine.Action.run, mapping, Option.map_some] at run
      cases run
      exact invAfter
  | unmapAddress virtualAddr =>
      obtain ⟨result, unmapping, same⟩ := Option.map_eq_some_iff.mp ran
      cases same
      obtain ⟨after, run, invAfter⟩ := inv.unmap legal
      cases unmapping.symm.trans run
      exact invAfter
  | load8 virtualAddr =>
      obtain ⟨_, _, same⟩ := Option.map_eq_some_iff.mp ran
      cases same
      exact inv
  | store8 virtualAddr value =>
      obtain ⟨frame, found, clear⟩ := legal
      rw [Call.run, store8_found value found, Option.map_some] at ran
      cases ran
      exact (Machine.tablesKept_of_clear (Machine.frameOf_mod found) (write8_outside_frame (Machine.frameOf_mod found))
        clear).inv inv

theorem Call.runAll_append (calls : List Call) (call : Call) (state : Machine.Tracked) :
    runAll (calls ++ [call]) state =
      (runAll calls state).bind fun first => (call.run first.2).map fun last => (first.1 ++ [last.1], last.2) := by
  induction calls generalizing state with
  | nil =>
      rw [List.nil_append, runAll, runAll, Option.bind_some]
      cases call.run state <;> rfl
  | cons first calls ih =>
      rw [List.cons_append, runAll, runAll]
      cases first.run state with
      | none => rfl
      | some reply =>
          rw [Option.bind_some, Option.bind_some, ih]
          cases runAll calls reply.2 with
          | none => rfl
          | some rest =>
              rw [Option.bind_some, Option.map_some, Option.bind_some]
              cases call.run rest.2 <;> rfl

/-- No interleaving of the function faults. -/
def NeverFaults {α : Type} (ahead : Set Word) (code : Code α) (cpu : Cpu) : Prop :=
  ∀ config, Reaches ahead (code, cpu) config → Program.Settled system.cachedExecute (fun _ _ => True) config

theorem neverFaults_of_agrees {α : Type} {code : Code α} {cpu : Cpu} (agrees : Agrees ahead code cpu.state)
    (coherent : system.Coherent cpu) : NeverFaults ahead code cpu :=
  Program.Ensures.consequence agrees (fun _ holds => holds) (fun _ _ _ => trivial) cpu coherent

theorem foreseen_booted {memory : ByteMemory} {pmm : Pmm} (foreseen : Foreseen (Stage2.machine memory pmm) ahead) :
    ∀ page ∈ ahead, getPageDirIndex page ≠ 1 := by
  rintro page early same
  exact @Machine.Stage2.absent memory pmm (same ▸ foreseen page early)

/-- What holds of every processor that is reached. -/
structure Unseen (start : Machine) (calls : List Call) (answers : List Word) (cpu : Cpu) (pages : Set Word) : Prop where
  ran : ∃ machine, Machine.initializePaging start = some machine ∧
    Call.runAll calls ⟨machine, ∅⟩ = some (answers, ⟨cpu.state, pages⟩)
  inv : cpu.state.PagingInv pages
  coherent : system.Coherent cpu

theorem Reachable.unseen {memory : ByteMemory} {pmm : Pmm} {start cpu : Cpu} {calls : List Call} {answers : List Word}
    (reserved : ∀ block < 1024, pmm.isBlockUsed block = true) (two : 2 ≤ pmm.getNumFreeBlocks)
    (booted : start.state = Stage2.machine memory pmm) (coherent : system.Coherent start)
    (reached : Reachable start calls answers cpu pages) : Unseen start.state calls answers cpu pages := by
  induction reached with
  | boot foreseen boots =>
      have agrees := @agrees_initializePaging _ memory pmm reserved two (foreseen_booted (booted ▸ foreseen))
      rw [← booted] at agrees
      obtain ⟨ran, coherentAfter⟩ := agrees.result coherent boots
      obtain ⟨machine, result, inv, _⟩ := @Machine.initializePaging_spec memory pmm reserved two
      rw [← booted] at result
      have same := (run_initializePaging start.state).symm.trans ran
      rw [result, Option.map_some] at same
      cases same
      exact ⟨⟨_, result, rfl⟩, inv, coherentAfter⟩
  | call call _ legal foreseen runs ih =>
      obtain ⟨⟨machine, result, all⟩, inv, coherentBefore⟩ := ih
      obtain ⟨ran, coherentAfter⟩ := (Call.agrees inv legal foreseen).result coherentBefore runs
      have plain := fun pages => @run_code _ _ pages _ _ ran
      refine ⟨⟨machine, result, ?_⟩, Call.inv inv legal (plain _), coherentAfter⟩
      rw [Call.runAll_append, all, Option.bind_some, plain, Option.map_some]

/-- The TLB is never noticed. Whatever the processor drops or looks up between
the accesses of the paging code and its callers, no access faults, the answers
and the memory are those of the machine without a TLB, and every address is
translated as the tables say. -/
theorem tlb_unseen (memory : ByteMemory) (pmm : Pmm) (reserved : ∀ block < 1024, pmm.isBlockUsed block = true)
    (two : 2 ≤ pmm.getNumFreeBlocks) (start : Cpu) (booted : start.state = Stage2.machine memory pmm)
    (coherent : system.Coherent start) :
    (∀ ahead, Foreseen start.state ahead → NeverFaults ahead initializePaging start) ∧
    ∀ calls answers cpu pages, Reachable start calls answers cpu pages →
      (∃ machine, Machine.initializePaging start.state = some machine ∧
        Call.runAll calls ⟨machine, ∅⟩ = some (answers, ⟨cpu.state, pages⟩)) ∧
      (∀ virtualAddr, placeThrough (system.lookup cpu) virtualAddr = cpu.state.translate virtualAddr) ∧
      ∀ call : Call, call.Legal ⟨cpu.state, pages⟩ → ∀ ahead, Foreseen cpu.state ahead →
        NeverFaults ahead call.code cpu := by
  constructor
  · intro ahead foreseen
    have agrees := @agrees_initializePaging _ memory pmm reserved two (foreseen_booted (booted ▸ foreseen))
    rw [← booted] at agrees
    exact neverFaults_of_agrees agrees coherent
  · intro calls answers cpu pages reached
    obtain ⟨ran, inv, coherentNow⟩ := reached.unseen reserved two booted coherent
    refine ⟨ran, fun virtualAddr => ?_, fun call legal ahead foreseen =>
      neverFaults_of_agrees (Call.agrees inv legal foreseen) coherentNow⟩
    rw [← placeThrough_frameOf, placeThrough_congr (Translated.lookup_of_coherent coherentNow _)]
    rfl

/-- A processor fresh from the boot loader, with nothing cached. -/
def freshCpu : Cpu := ⟨Stage2.machine (fun _ => 0) (Machine.framesLeft 6 (by decide)), fun _ => none⟩

theorem freshCpu_coherent : system.Coherent freshCpu := ⟨rfl, fun _ _ found => nomatch found⟩

theorem tlb_unseen_mapped : ∃ cpu pages, Reachable freshCpu [.mapAddress 0x400000 0x02] [1] cpu pages ∧
    ∀ virtualAddr, placeThrough (system.lookup cpu) virtualAddr = cpu.state.translate virtualAddr := by
  have free : (Machine.framesLeft 6 (by decide)).getNumFreeBlocks = 6 := by decide +kernel
  have unseen := tlb_unseen (fun _ => 0) (Machine.framesLeft 6 (by decide)) Machine.framesLeft_reserved (by omega) freshCpu
    rfl freshCpu_coherent
  have nothing : ∀ machine, Foreseen machine ∅ := fun _ _ member => member.elim
  have agrees := @agrees_initializePaging ∅ (fun _ => 0) (Machine.framesLeft 6 (by decide)) Machine.framesLeft_reserved
    (by omega) (fun _ member => member.elim)
  obtain ⟨_, cpu, boots, ran, coherent⟩ := Program.Ensures.finishes agrees freshCpu_coherent
  obtain ⟨machine, booted, inv, kernel⟩ := @Machine.initializePaging_spec (fun _ => 0)
    (Machine.framesLeft 6 (by decide)) Machine.framesLeft_reserved (by omega)
  obtain ⟨tables, left⟩ := kernel (by omega)
  have result := (run_initializePaging _).symm.trans ran
  rw [booted, Option.map_some] at result
  cases result
  have reached : Reachable freshCpu [] [] cpu ∅ := .boot (nothing _) boots
  -- Slot 1 is free again, and two frames are left: one for the page and one for its table.
  obtain ⟨_, _, three⟩ := tables.slots
  have absent : ¬ cpu.state.Present (getPageDirIndex 0x400000) := by
    rw [Machine.Present, show getPageDirIndex 0x400000 = 1 by decide,
      three.others 1 (by decide) (by decide) (by decide) (by decide), testFlag_zero]
    decide
  have enough : cpu.state.allocBlock.2.FrameFree := by
    refine Pmm.getNumFreeBlocks_pos.mp ?_
    change 0 < cpu.state.pmm.allocBlock.2.getNumFreeBlocks
    rw [Pmm.getNumFreeBlocks_allocBlock]
    omega
  have legal : Call.Legal ⟨cpu.state, ∅⟩ (.mapAddress 0x400000 0x02) :=
    ⟨by decide, Machine.flagsKeep_of_lt cpu.state.pmm.allocBlock_mod (by decide), fun _ => enough⟩
  obtain ⟨answer, after, maps, mapping, _⟩ := Program.Ensures.finishes (Call.agrees inv legal (nothing _)) coherent
  have plain := @run_code _ _ ∅ _ _ mapping
  rw [Call.run, Machine.mapAddress_of_unmapped tables.inv.tables.allocBlock (by decide)
    (tables.inv.tables.allocBlock.newTable fun _ => enough) (Machine.walk_of_absent absent), Option.map_some] at plain
  have one := congrArg Prod.fst (Option.some.inj plain)
  dsimp only at one
  subst one
  have final := reached.call _ legal (nothing _) maps
  exact ⟨after, _, final, (unseen.2 _ _ _ _ final).2.1⟩

end ScratchOs.Tlb
