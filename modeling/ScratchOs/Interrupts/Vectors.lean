import ScratchOs.Interrupts.Entry
import ScratchOs.Machine.Gate

namespace ScratchOs

open Data X86

/-! The tables of the 256 vectors: `g_IDT` of `kernel/idt.c`, which the processor
reads, and `g_ISR_handlers` of `kernel/isr.c`. -/

namespace Idt

def idtFlagGate32Int : Byte := 0x0E
def idtFlagRing0 : Byte := 0
def idtFlagPresent : Byte := 0x80

def totalNumberInterrupts : Nat := 256

/-- Where the linker has put the two tables and the entry stubs. -/
structure Image where
  gIdt : Word
  gIsrHandlers : Word
  isr : Byte → Word

namespace Image

/-- `g_IDT_descriptor`, which `IDT_initialize` loads. -/
def gIdtDescriptor (image : Image) : Idtr := ⟨8 * BitVec.ofNat 16 totalNumberInterrupts - 1, image.gIdt⟩

def entry (image : Image) (interrupt : Byte) : Word := image.gIdtDescriptor.entry interrupt

def handlerPlace (image : Image) (interrupt : Byte) : Word := image.gIsrHandlers + BitVec.ofNat 32 (4 * interrupt.toNat)

/-- The tables are within the address space and apart from each other. -/
structure Placed (image : Image) : Prop where
  gates : image.gIdt.toNat + 2048 ≤ 2 ^ 32
  handlers : image.gIsrHandlers.toNat + 1024 ≤ 2 ^ 32
  apart : image.gIdt.toNat + 2048 ≤ image.gIsrHandlers.toNat ∨ image.gIsrHandlers.toNat + 1024 ≤ image.gIdt.toNat

end Image

variable (image : Image)

def idtSetGate (interrupt : Byte) (isrAddr : Word) (segmentSelector : BitVec 16) (flags : Byte) (memory : ByteMemory) :
    ByteMemory :=
  let entry := image.entry interrupt
  let memory := memory.write16 entry ((isrAddr &&& 0xFFFF).setWidth 16)
  let memory := memory.write16 (entry + 2) segmentSelector
  let memory := memory.write8 (entry + 4) 0
  let memory := memory.write8 (entry + 5) flags
  memory.write16 (entry + 6) (((isrAddr >>> 16) &&& 0xFFFF).setWidth 16)

def idtEnableGate (interrupt : Byte) (memory : ByteMemory) : ByteMemory :=
  let flags := image.entry interrupt + 5
  memory.write8 flags (memory flags ||| idtFlagPresent)

def idtDisableGate (interrupt : Byte) (memory : ByteMemory) : ByteMemory :=
  let flags := image.entry interrupt + 5
  memory.write8 flags (memory flags &&& ~~~idtFlagPresent)

def setIsrHandler (interrupt : Byte) (handler : Word) (memory : ByteMemory) : ByteMemory :=
  idtEnableGate image interrupt (memory.write32 (image.handlerPlace interrupt) handler)

def interrupts : List Byte := (List.range totalNumberInterrupts).map (BitVec.ofNat 8)

/-- The function that `scripts/interrupts.py` writes: a call for each vector. -/
def isrInitializeGates (memory : ByteMemory) : ByteMemory :=
  interrupts.foldl (fun memory interrupt =>
    idtSetGate image interrupt (image.isr interrupt) Isr.codeSegment (idtFlagGate32Int ||| idtFlagRing0) memory) memory

def isrInitialize (memory : ByteMemory) : ByteMemory :=
  let memory := isrInitializeGates image memory
  let memory := interrupts.foldl (fun memory interrupt => idtEnableGate image interrupt memory) memory
  idtDisableGate image 0x80 memory

/-- The calls that change the tables later on. -/
inductive Call where
  | setIsrHandler (interrupt : Byte) (handler : Word)
  | idtEnableGate (interrupt : Byte)
  | idtDisableGate (interrupt : Byte)
deriving DecidableEq, Repr

def perform (call : Call) (memory : ByteMemory) : ByteMemory :=
  match call with
  | .setIsrHandler interrupt handler => setIsrHandler image interrupt handler memory
  | .idtEnableGate interrupt => idtEnableGate image interrupt memory
  | .idtDisableGate interrupt => idtDisableGate image interrupt memory

def performAll (calls : List Call) (memory : ByteMemory) : ByteMemory :=
  calls.foldl (fun memory call => perform image call memory) memory

/-- The tables without their places: what the processor finds for a vector, and the
pointer to its handler. -/
structure Vectors where
  gates : Byte → Gate
  handlers : Byte → Word

namespace Vectors

def setGate (interrupt : Byte) (gate : Gate) (vectors : Vectors) : Vectors :=
  { vectors with gates := Function.update vectors.gates interrupt gate }

def setPresent (interrupt : Byte) (present : Bool) (vectors : Vectors) : Vectors :=
  let gate := vectors.gates interrupt
  vectors.setGate interrupt
    { gate with flags := if present then gate.flags ||| idtFlagPresent else gate.flags &&& ~~~idtFlagPresent }

def setHandler (interrupt : Byte) (handler : Word) (vectors : Vectors) : Vectors :=
  { vectors with handlers := Function.update vectors.handlers interrupt handler }

def perform : Call → Vectors → Vectors
  | .setIsrHandler interrupt handler, vectors => (vectors.setHandler interrupt handler).setPresent interrupt true
  | .idtEnableGate interrupt, vectors => vectors.setPresent interrupt true
  | .idtDisableGate interrupt, vectors => vectors.setPresent interrupt false

/-- What is in the tables. -/
def read (image : Image) (memory : ByteMemory) : Vectors where
  gates interrupt := Gate.read memory (image.entry interrupt)
  handlers interrupt := memory.read32 (image.handlerPlace interrupt)

end Vectors

variable {image} {memory other : ByteMemory} {interrupt : Byte}

theorem Image.Placed.entry_toNat (placed : image.Placed) (interrupt : Byte) :
    (image.entry interrupt).toNat = image.gIdt.toNat + 8 * interrupt.toNat := by
  have room := placed.gates
  have small := interrupt.isLt
  rw [Image.entry, Idtr.entry, BitVec.toNat_add, BitVec.toNat_ofNat]
  change (image.gIdt.toNat + _) % _ = _
  omega

theorem Image.Placed.handlerPlace_toNat (placed : image.Placed) (interrupt : Byte) :
    (image.handlerPlace interrupt).toNat = image.gIsrHandlers.toNat + 4 * interrupt.toNat := by
  have room := placed.handlers
  have small := interrupt.isLt
  rw [Image.handlerPlace, BitVec.toNat_add, BitVec.toNat_ofNat]
  omega

/-- A change within one descriptor leaves the others and all handlers as they are. -/
theorem Vectors.read_of_entry (placed : image.Placed)
    (outside : Set.EqOn other memory (span (image.entry interrupt).toNat 8)ᶜ) :
    Vectors.read image other = (Vectors.read image memory).setGate interrupt (Gate.read other (image.entry interrupt)) := by
  have start := placed.entry_toNat interrupt
  have room := placed.gates
  have apart := placed.apart
  have small := interrupt.isLt
  simp only [Vectors.read, Vectors.setGate, Vectors.mk.injEq]
  constructor
  · funext vector
    by_cases same : vector = interrupt
    · rw [same, Function.update_self]
    · have different : vector.toNat ≠ interrupt.toNat := fun equal => same (BitVec.eq_of_toNat_eq equal)
      have place := placed.entry_toNat vector
      have bound := vector.isLt
      rw [Function.update_of_ne same]
      refine Gate.read_congr (fun address inside => outside ?_) (by omega)
      rw [mem_span] at inside
      rw [Set.mem_compl_iff, mem_span]
      omega
  · funext vector
    have place := placed.handlerPlace_toNat vector
    have bound := vector.isLt
    have handlers := placed.handlers
    exact ByteMemory.read32_of_apart _ outside (by omega) (by omega)

theorem idtSetGate_outside (placed : image.Placed) (isrAddr : Word) (segmentSelector : BitVec 16) (flags : Byte) :
    Set.EqOn (idtSetGate image interrupt isrAddr segmentSelector flags memory) memory (span (image.entry interrupt).toNat 8)ᶜ := by
  have start := placed.entry_toNat interrupt
  have room := placed.gates
  have small := interrupt.isLt
  intro place outside
  rw [Set.mem_compl_iff, mem_span] at outside
  simp only [idtSetGate, ByteMemory.write16]
  iterate 8 rw [ByteMemory.write8_of_ne (by bv_omega)]

theorem idtSetGate_read (isrAddr : Word) (segmentSelector : BitVec 16) (flags : Byte) :
    Gate.read (idtSetGate image interrupt isrAddr segmentSelector flags memory) (image.entry interrupt) =
      ⟨isrAddr, segmentSelector, flags⟩ := by
  rw [idtSetGate, Gate.read_writeFields, setWidth_mask, setWidth_mask, joinBytes_halves]

theorem flags_outside (placed : image.Placed) (flags : Byte) :
    Set.EqOn (memory.write8 (image.entry interrupt + 5) flags) memory (span (image.entry interrupt).toNat 8)ᶜ := by
  have start := placed.entry_toNat interrupt
  have room := placed.gates
  have small := interrupt.isLt
  intro place outside
  rw [Set.mem_compl_iff, mem_span] at outside
  exact ByteMemory.write8_of_ne (by bv_omega)

/-! Every call does to what is in the tables what its name says. -/

theorem read_idtSetGate (placed : image.Placed) (isrAddr : Word) (segmentSelector : BitVec 16) (flags : Byte) :
    Vectors.read image (idtSetGate image interrupt isrAddr segmentSelector flags memory) =
      (Vectors.read image memory).setGate interrupt ⟨isrAddr, segmentSelector, flags⟩ := by
  rw [Vectors.read_of_entry placed (idtSetGate_outside placed isrAddr segmentSelector flags), idtSetGate_read]

theorem read_idtEnableGate (placed : image.Placed) (interrupt : Byte) (memory : ByteMemory) :
    Vectors.read image (idtEnableGate image interrupt memory) = (Vectors.read image memory).setPresent interrupt true := by
  rw [idtEnableGate, Vectors.read_of_entry placed (flags_outside placed _), Gate.read_writeFlags]
  rfl

theorem read_idtDisableGate (placed : image.Placed) (interrupt : Byte) (memory : ByteMemory) :
    Vectors.read image (idtDisableGate image interrupt memory) = (Vectors.read image memory).setPresent interrupt false := by
  rw [idtDisableGate, Vectors.read_of_entry placed (flags_outside placed _), Gate.read_writeFlags]
  rfl

theorem handler_outside (placed : image.Placed) (interrupt : Byte) (handler : Word) :
    Set.EqOn (memory.write32 (image.handlerPlace interrupt) handler) memory (span (image.handlerPlace interrupt).toNat 4)ᶜ := by
  have place := placed.handlerPlace_toNat interrupt
  have room := placed.handlers
  have small := interrupt.isLt
  exact ByteMemory.write32_outside memory handler (by omega)

theorem read_writeHandler (placed : image.Placed) (interrupt : Byte) (handler : Word) :
    Vectors.read image (memory.write32 (image.handlerPlace interrupt) handler) =
      (Vectors.read image memory).setHandler interrupt handler := by
  have outside := @handler_outside image memory placed interrupt handler
  have start := placed.handlerPlace_toNat interrupt
  have small := interrupt.isLt
  have room := placed.handlers
  simp only [Vectors.read, Vectors.setHandler, Vectors.mk.injEq]
  constructor
  · funext vector
    have place := placed.entry_toNat vector
    have bound := vector.isLt
    have gates := placed.gates
    have apart := placed.apart
    refine Gate.read_congr (fun address inside => outside ?_) (by omega)
    rw [mem_span] at inside
    rw [Set.mem_compl_iff, mem_span]
    omega
  · funext vector
    by_cases same : vector = interrupt
    · rw [same, Function.update_self, ByteMemory.read32_write32]
    · have different : vector.toNat ≠ interrupt.toNat := fun equal => same (BitVec.eq_of_toNat_eq equal)
      have place := placed.handlerPlace_toNat vector
      have bound := vector.isLt
      rw [Function.update_of_ne same]
      exact ByteMemory.read32_of_apart _ outside (by omega) (by omega)

theorem read_perform (placed : image.Placed) (call : Call) (memory : ByteMemory) :
    Vectors.read image (perform image call memory) = (Vectors.read image memory).perform call := by
  cases call with
  | setIsrHandler interrupt handler =>
      rw [perform, setIsrHandler, read_idtEnableGate placed, read_writeHandler placed]
      rfl
  | idtEnableGate interrupt => exact read_idtEnableGate placed interrupt memory
  | idtDisableGate interrupt => exact read_idtDisableGate placed interrupt memory

/-! The two tables, whichever calls are made. -/

variable {calls : List Call} {vectors : Vectors}

/-- Whether the gate is present behind a call. -/
def Call.present (interrupt : Byte) (before : Bool) : Call → Bool
  | .setIsrHandler other _ => if other = interrupt then true else before
  | .idtEnableGate other => if other = interrupt then true else before
  | .idtDisableGate other => if other = interrupt then false else before

def Call.handler (interrupt : Byte) (before : Word) : Call → Word
  | .setIsrHandler other handler => if other = interrupt then handler else before
  | .idtEnableGate _ => before
  | .idtDisableGate _ => before

def presentAfter (calls : List Call) (interrupt : Byte) (before : Bool) : Bool :=
  calls.foldl (fun present call => call.present interrupt present) before

def handlerAfter (calls : List Call) (interrupt : Byte) (before : Word) : Word :=
  calls.foldl (fun handler call => call.handler interrupt handler) before

/-- The descriptor of a vector: its stub, and an interrupt gate for the kernel. -/
def gateOf (image : Image) (interrupt : Byte) (present : Bool) : Gate :=
  ⟨image.isr interrupt, Isr.codeSegment, if present then 0x8E else 0x0E⟩

theorem setGate_self (gate : Gate) : (vectors.setGate interrupt gate).gates interrupt = gate := Function.update_self ..

theorem setGate_of_ne {other : Byte} (different : interrupt ≠ other) (gate : Gate) :
    (vectors.setGate other gate).gates interrupt = vectors.gates interrupt := Function.update_of_ne different ..

theorem gates_setPresent {before : Bool} (here : vectors.gates interrupt = gateOf image interrupt before) (other : Byte)
    (present : Bool) :
    (vectors.setPresent other present).gates interrupt = gateOf image interrupt (if other = interrupt then present else before) := by
  rw [Vectors.setPresent]
  by_cases same : other = interrupt
  · rw [if_pos same, same, setGate_self, here]
    simp only [gateOf, Gate.mk.injEq, true_and]
    cases before <;> cases present <;> decide
  · rw [if_neg same, setGate_of_ne (Ne.symm same), here]

theorem gates_perform {before : Bool} (call : Call) (here : vectors.gates interrupt = gateOf image interrupt before) :
    (vectors.perform call).gates interrupt = gateOf image interrupt (call.present interrupt before) := by
  cases call with
  | setIsrHandler other handler =>
      have kept : (vectors.setHandler other handler).gates interrupt = gateOf image interrupt before := here
      exact gates_setPresent kept other true
  | idtEnableGate other => exact gates_setPresent here other true
  | idtDisableGate other => exact gates_setPresent here other false

theorem handlers_perform (call : Call) :
    (vectors.perform call).handlers interrupt = call.handler interrupt (vectors.handlers interrupt) := by
  cases call with
  | setIsrHandler other handler =>
      change Function.update vectors.handlers other handler interrupt = if other = interrupt then handler else _
      rw [Function.update_apply]
      simp only [eq_comm]
  | idtEnableGate other => rfl
  | idtDisableGate other => rfl

/-- The tables after a run of calls. -/
theorem read_performAll (placed : image.Placed) {before : Bool}
    (here : (Vectors.read image memory).gates interrupt = gateOf image interrupt before) :
    (Vectors.read image (performAll image calls memory)).gates interrupt =
        gateOf image interrupt (presentAfter calls interrupt before) ∧
      (Vectors.read image (performAll image calls memory)).handlers interrupt =
        handlerAfter calls interrupt ((Vectors.read image memory).handlers interrupt) := by
  induction calls generalizing memory before with
  | nil => exact ⟨here, rfl⟩
  | cons call calls ih =>
      have gates := @gates_perform image interrupt _ before call here
      have handlers := @handlers_perform interrupt (Vectors.read image memory) call
      rw [← read_perform placed] at gates handlers
      obtain ⟨gatesAfter, handlersAfter⟩ := ih gates
      refine ⟨gatesAfter, handlersAfter.trans ?_⟩
      rw [handlers]
      rfl

/-! Initialisation. -/

theorem mem_interrupts (interrupt : Byte) : interrupt ∈ interrupts := by
  rw [interrupts, List.mem_map]
  exact ⟨interrupt.toNat, List.mem_range.mpr interrupt.isLt, by rw [BitVec.ofNat_toNat, BitVec.setWidth_eq]⟩

theorem read_setGates (placed : image.Placed) (list : List Byte) (memory : ByteMemory) :
    let after := Vectors.read image (list.foldl (fun memory interrupt =>
      idtSetGate image interrupt (image.isr interrupt) Isr.codeSegment (idtFlagGate32Int ||| idtFlagRing0) memory) memory)
    after.gates interrupt = (if interrupt ∈ list then gateOf image interrupt false else (Vectors.read image memory).gates interrupt) ∧
      after.handlers interrupt = (Vectors.read image memory).handlers interrupt := by
  induction list generalizing memory with
  | nil => exact ⟨rfl, rfl⟩
  | cons other rest ih =>
      obtain ⟨gates, handlers⟩ := ih (idtSetGate image other (image.isr other) Isr.codeSegment
        (idtFlagGate32Int ||| idtFlagRing0) memory)
      rw [read_idtSetGate placed] at gates handlers
      refine ⟨?_, handlers⟩
      rw [List.foldl_cons, gates]
      by_cases later : interrupt ∈ rest
      · rw [if_pos later, if_pos (List.mem_cons_of_mem _ later)]
      · rw [if_neg later]
        by_cases same : interrupt = other
        · rw [if_pos (by rw [same]; exact List.mem_cons_self), same, setGate_self]
          rfl
        · rw [if_neg (by simp [same, later]), setGate_of_ne same]

theorem presentAfter_enable (list : List Byte) (before : Bool) :
    presentAfter (list.map .idtEnableGate) interrupt before = (decide (interrupt ∈ list) || before) := by
  induction list generalizing before with
  | nil => rfl
  | cons other rest ih =>
      change presentAfter (rest.map .idtEnableGate) interrupt (if other = interrupt then true else before) = _
      rw [ih]
      by_cases same : other = interrupt
      · simp [same]
      · simp [same, Ne.symm same]

theorem handlerAfter_enable (list : List Byte) (before : Word) :
    handlerAfter (list.map .idtEnableGate) interrupt before = before := by
  induction list with
  | nil => rfl
  | cons other rest ih => exact ih

/-- Behind the stubs the function goes on with calls of the same kind. -/
theorem isrInitialize_eq (image : Image) (memory : ByteMemory) : isrInitialize image memory =
    performAll image (interrupts.map .idtEnableGate ++ [.idtDisableGate 0x80]) (isrInitializeGates image memory) := by
  rw [performAll, List.foldl_append, List.foldl_map]
  simp only [isrInitialize, perform, List.foldl_cons, List.foldl_nil]

theorem presentAfter_set (list : List Byte) (handler : Word) :
    presentAfter (list.map (.setIsrHandler · handler)) interrupt true = true := by
  induction list with
  | nil => rfl
  | cons other rest ih =>
      change presentAfter (rest.map (.setIsrHandler · handler)) interrupt (if other = interrupt then true else true) = true
      rw [ite_self, ih]

theorem handlerAfter_set (list : List Byte) (handler before : Word) :
    handlerAfter (list.map (.setIsrHandler · handler)) interrupt before = if interrupt ∈ list then handler else before := by
  induction list generalizing before with
  | nil => rfl
  | cons other rest ih =>
      change handlerAfter (rest.map (.setIsrHandler · handler)) interrupt (if other = interrupt then handler else before) = _
      rw [ih]
      by_cases same : other = interrupt
      · simp [same]
      · simp [same, Ne.symm same]

theorem presentAfter_append (first second : List Call) (before : Bool) :
    presentAfter (first ++ second) interrupt before = presentAfter second interrupt (presentAfter first interrupt before) :=
  List.foldl_append ..

theorem handlerAfter_append (first second : List Call) (before : Word) :
    handlerAfter (first ++ second) interrupt before = handlerAfter second interrupt (handlerAfter first interrupt before) :=
  List.foldl_append ..

/-- Whatever memory holds, every gate leads to its stub and all but gate `0x80` are present. -/
theorem read_isrInitialize (placed : image.Placed) (interrupt : Byte) (memory : ByteMemory) :
    (Vectors.read image (isrInitialize image memory)).gates interrupt = gateOf image interrupt (interrupt ≠ 0x80) ∧
      (Vectors.read image (isrInitialize image memory)).handlers interrupt = (Vectors.read image memory).handlers interrupt := by
  obtain ⟨gates, handlers⟩ := @read_setGates image interrupt placed interrupts memory
  rw [if_pos (mem_interrupts interrupt)] at gates
  have enabled := @read_performAll image (isrInitializeGates image memory) interrupt
    (interrupts.map .idtEnableGate ++ [.idtDisableGate 0x80]) placed false gates
  rw [isrInitialize_eq, enabled.1, enabled.2]
  have present : presentAfter (interrupts.map .idtEnableGate ++ [.idtDisableGate 0x80]) interrupt false =
      decide (interrupt ≠ 0x80) := by
    rw [presentAfter_append, presentAfter_enable, decide_eq_true (mem_interrupts interrupt)]
    change (if (0x80 : Byte) = interrupt then false else true) = _
    by_cases system : (0x80 : Byte) = interrupt
    · rw [if_pos system, decide_eq_false (not_not.mpr system.symm)]
    · rw [if_neg system, decide_eq_true (Ne.symm system)]
  have handler : ∀ before, handlerAfter (interrupts.map .idtEnableGate ++ [.idtDisableGate 0x80]) interrupt before = before := by
    intro before
    rw [handlerAfter_append, handlerAfter_enable]
    rfl
  exact ⟨by rw [present], by rw [handler]; exact handlers⟩

/-! Nothing but the tables is written. -/

def Image.tables (image : Image) : Set Word := span image.gIdt.toNat 2048 ∪ span image.gIsrHandlers.toNat 1024

theorem Image.Placed.entry_subset (placed : image.Placed) (interrupt : Byte) :
    span (image.entry interrupt).toNat 8 ⊆ image.tables := by
  have start := placed.entry_toNat interrupt
  have small := interrupt.isLt
  intro place inside
  rw [mem_span] at inside
  refine .inl ?_
  rw [mem_span]
  omega

theorem Image.Placed.handler_subset (placed : image.Placed) (interrupt : Byte) :
    span (image.handlerPlace interrupt).toNat 4 ⊆ image.tables := by
  have start := placed.handlerPlace_toNat interrupt
  have small := interrupt.isLt
  intro place inside
  rw [mem_span] at inside
  refine .inr ?_
  rw [mem_span]
  omega

theorem Vectors.read_congr (placed : image.Placed) (same : Set.EqOn memory other image.tables) :
    Vectors.read image memory = Vectors.read image other := by
  simp only [Vectors.read, Vectors.mk.injEq]
  constructor
  · funext interrupt
    have place := placed.entry_toNat interrupt
    have room := placed.gates
    have small := interrupt.isLt
    exact Gate.read_congr (same.mono (placed.entry_subset interrupt)) (by omega)
  · funext interrupt
    have place := placed.handlerPlace_toNat interrupt
    have room := placed.handlers
    have small := interrupt.isLt
    exact ByteMemory.read32_congr (same.mono (placed.handler_subset interrupt)) (by omega)

theorem perform_outside (placed : image.Placed) (call : Call) (memory : ByteMemory) :
    Set.EqOn (perform image call memory) memory image.tablesᶜ := by
  have gate : ∀ interrupt flags before,
      Set.EqOn (ByteMemory.write8 before (image.entry interrupt + 5) flags) before image.tablesᶜ := fun interrupt flags before =>
    (flags_outside placed flags).mono (Set.compl_subset_compl.mpr (placed.entry_subset interrupt))
  cases call with
  | setIsrHandler interrupt handler =>
      have stored := (@handler_outside image memory placed interrupt handler).mono
        (Set.compl_subset_compl.mpr (placed.handler_subset interrupt))
      exact (gate interrupt _ _).trans stored
  | idtEnableGate interrupt => exact gate interrupt _ memory
  | idtDisableGate interrupt => exact gate interrupt _ memory

theorem performAll_outside (placed : image.Placed) (calls : List Call) (memory : ByteMemory) :
    Set.EqOn (performAll image calls memory) memory image.tablesᶜ := by
  induction calls generalizing memory with
  | nil => exact fun _ _ => rfl
  | cons call calls ih => exact (ih (perform image call memory)).trans (perform_outside placed call memory)

theorem setGates_outside (placed : image.Placed) (list : List Byte) (memory : ByteMemory) :
    Set.EqOn (list.foldl (fun memory interrupt =>
      idtSetGate image interrupt (image.isr interrupt) Isr.codeSegment (idtFlagGate32Int ||| idtFlagRing0) memory) memory)
      memory image.tablesᶜ := by
  induction list generalizing memory with
  | nil => exact fun _ _ => rfl
  | cons interrupt rest ih =>
      exact (ih _).trans ((idtSetGate_outside placed _ _ _).mono (Set.compl_subset_compl.mpr (placed.entry_subset interrupt)))

/-- Behind `ISR_initialize` and any calls the processor finds for each vector the
gate of its own stub, present as the calls about this vector have left it; the
handler is the one that was set last. No other memory has changed. -/
theorem tables_of_calls (image : Image) (placed : image.Placed) (memory : ByteMemory) (calls : List Call) :
    (∀ interrupt, image.gIdtDescriptor.gate (performAll image calls (isrInitialize image memory)) interrupt =
        some (gateOf image interrupt (presentAfter calls interrupt (interrupt ≠ 0x80))) ∧
      (performAll image calls (isrInitialize image memory)).read32 (image.handlerPlace interrupt) =
        handlerAfter calls interrupt (memory.read32 (image.handlerPlace interrupt))) ∧
    Set.EqOn (performAll image calls (isrInitialize image memory)) memory image.tablesᶜ := by
  refine ⟨fun interrupt => ?_, ?_⟩
  · obtain ⟨gates, handlers⟩ := @read_isrInitialize image placed interrupt memory
    have after := @read_performAll image (isrInitialize image memory) interrupt calls placed _ gates
    have within : 8 * interrupt.toNat + 7 ≤ image.gIdtDescriptor.limit.toNat := by
      have small := interrupt.isLt
      change 8 * interrupt.toNat + 7 ≤ 2047
      omega
    refine ⟨(if_pos within).trans (congrArg some after.1), after.2.trans ?_⟩
    rw [handlers]
    rfl
  · rw [isrInitialize_eq]
    exact (performAll_outside placed calls _).trans ((performAll_outside placed _ _).trans
      (setGates_outside placed interrupts memory))

/-- The tables one behind the other, and stubs of sixteen bytes each. -/
def someImage : Image := ⟨0xC0010000, 0xC0010800, fun interrupt => 0xC0001000 + 16 * interrupt.setWidth 32⟩

theorem tables_of_calls_pageFault :
    someImage.gIdtDescriptor.gate (performAll someImage [.setIsrHandler 14 0xC0002000] (isrInitialize someImage fun _ => 0)) 14 =
      some ⟨0xC00010E0, 8, 0x8E⟩ :=
  ((tables_of_calls someImage ⟨by decide, by decide, by decide⟩ (fun _ => 0) [.setIsrHandler 14 0xC0002000]).1 14).1

end Idt

end ScratchOs
