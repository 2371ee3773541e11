import ScratchOs.Interrupts.Delivery

namespace ScratchOs

open Data X86 Pic8259

/-! No request is lost: when the program lets interrupts in and the devices are quiet,
every line that waits is served once, in the order of the priorities. -/

namespace Irq

/-- What the driver's handler of a line does to memory. -/
def System.serve (system : System) (memory : ByteMemory) (irq : Nat) : ByteMemory :=
  (system.gIrqHandlers irq).elim memory fun handler => handler memory

/-- As if the handlers of these lines had been called one after the other. -/
def System.serveAll (system : System) (lines : List Nat) (pics : Pair) : System :=
  { system with
    pics := pics
    memory := lines.foldl system.serve system.memory
    delivered := (lines.map vectorOf).reverse ++ system.delivered
    called := lines.reverse ++ system.called }

/-- Masks, vectors and modes of both controllers are what they were. -/
def SameSettings (after before : Pair) : Prop :=
  after.master.settings = before.master.settings ∧ after.slave.settings = before.slave.settings

variable {kernel : Kernel} {system : System} {pics : Pair} {line : Nat}

theorem SameSettings.trans {first second third : Pair} (later : SameSettings third second) (earlier : SameSettings second first) :
    SameSettings third first := ⟨later.1.trans earlier.1, later.2.trans earlier.2⟩

theorem picSendEoi_settings (irq : Byte) (pics : Pair) : SameSettings (Pic.outAll (Pic.picSendEoi irq) pics) pics := by
  rw [Pic.picSendEoi]
  split_ifs
  · exact ⟨rfl, rfl⟩
  · exact ⟨rfl, rfl⟩

/-- Ends of interrupts leave requests and masks alone. -/
theorem picSendEoi_lines (irq : Byte) (pics : Pair) : (Pic.outAll (Pic.picSendEoi irq) pics).waiting = pics.waiting ∧
    ∀ line, (Pic.outAll (Pic.picSendEoi irq) pics).Requested line ↔ pics.Requested line := by
  rw [Pic.picSendEoi]
  split_ifs
  · exact ⟨rfl, fun _ => Iff.rfl⟩
  · exact ⟨rfl, fun _ => Iff.rfl⟩

theorem picSendEoi_length (irq : Byte) : (Pic.picSendEoi irq).length ≤ 2 := by
  rw [Pic.picSendEoi]
  split_ifs <;> decide

/-- The way out of a handler. -/
theorem iterate_ending (writes : List Pic.PortWrite) (system : System) :
    (interruptStep kernel)^[writes.length + 1] { system with place := .handling (writes.map .out ++ [.iret]) } =
      { system with pics := Pic.outAll writes system.pics, place := .program } := by
  induction writes generalizing system with
  | nil => rfl
  | cons write rest ih =>
      rw [List.length_cons, Function.iterate_succ_apply]
      exact ih { system with pics := Pic.out write system.pics }

/-- The first of the waiting lines, from the request to the `iret`. -/
theorem serve_first (running : Running kernel system) (present : kernel.irqCommonHandler ≠ 0) (place : system.place = .program)
    (enabled : system.interruptFlag = true) (waits : system.pics.waiting ≠ []) : ∃ line after, ∃ steps ≤ 7,
    (interruptStep kernel)^[steps] system = system.serveAll [line] after ∧ system.pics.waiting = line :: after.waiting ∧
      SameSettings after system.pics ∧
      ∀ other < 16, other ≠ 2 → (after.Requested other ↔ system.pics.Requested other ∧ other ≠ line) := by
  have between := running.stage.between place
  have operating := running.configured.operating
  obtain ⟨some, member⟩ := List.exists_mem_of_ne_nil _ waits
  have asks : system.pics.intr = true := (Pair.intr_iff operating between.idle).mpr ⟨some, Pair.mem_waiting.mp member⟩
  obtain ⟨line, after, cycles, first, taken⟩ := Pair.acknowledge_spec operating between.idle asks
  have inside : line < 16 := first.1.1
  rw [running.configured.vector inside] at cycles
  let writes := Pic.picSendEoi (BitVec.ofNat 8 line)
  obtain ⟨waiting, requested⟩ := picSendEoi_lines (BitVec.ofNat 8 line) after
  refine ⟨line, Pic.outAll writes after, writes.length + 1 + 4, ?_, ?_, ?_,
    (picSendEoi_settings _ after).trans ⟨taken.master, taken.slave⟩, fun other small device => ?_⟩
  · have short := picSendEoi_length (BitVec.ofNat 8 line)
    exact Nat.add_le_add_right (Nat.add_le_add_right short 1) 4
  · have recognised : interruptStep kernel system = { system with place := .recognised } := by
      rw [interruptStep, place]
      change (if system.interruptFlag && system.pics.intr then _ else _) = _
      rw [enabled, asks]
      rfl
    have chosen : interruptStep kernel { system with place := .recognised } =
        { system with pics := system.pics.firstCycle.2, place := .chosen system.pics.firstCycle.1 } := rfl
    have entered : interruptStep kernel { system with pics := system.pics.firstCycle.2, place := .chosen system.pics.firstCycle.1 } =
        { system with
          pics := after
          place := .handling (.irqHandler line :: (writes.map .out ++ [.iret]))
          delivered := vectorOf line :: system.delivered } := by
      have through := @enter_vectorOf kernel { system with pics := after, place := .chosen system.pics.firstCycle.1 } line present
        running.idtr running.tables inside
      rw [irqCommonHandler_vectorOf inside] at through
      rw [interruptStep]
      simp only [cycles]
      exact through
    rw [Function.iterate_succ_apply, recognised, Function.iterate_succ_apply, chosen, Function.iterate_succ_apply, entered,
      Function.iterate_succ_apply]
    refine (iterate_ending writes { system with
      pics := after
      memory := system.serve system.memory line
      delivered := vectorOf line :: system.delivered
      called := line :: system.called }).trans ?_
    rw [System.serveAll, ← place]
    rfl
  · exact (taken.waiting first).trans (congrArg (line :: ·) waiting.symm)
  · exact (requested other).trans (taken.requested other small device)

theorem serveAll_append (first second : List Nat) (between after : Pair) (system : System) :
    (system.serveAll first between).serveAll second after = system.serveAll (first ++ second) after := by
  simp only [System.serveAll, List.map_append, List.reverse_append, List.append_assoc, List.foldl_append]
  rfl

theorem Running.iterate (running : Running kernel system) (placed : kernel.image.Placed) (present : kernel.irqCommonHandler ≠ 0)
    (steps : Nat) : Running kernel ((Irq.interruptStep kernel)^[steps] system) := by
  induction steps generalizing system with
  | zero => exact running
  | succ steps ih => exact ih (running.interruptStep placed present)

/-- All of them, by induction on their list. -/
theorem serve_waiting {lines : List Nat} (running : Running kernel system) (placed : kernel.image.Placed)
    (present : kernel.irqCommonHandler ≠ 0) (place : system.place = .program) (enabled : system.interruptFlag = true)
    (waiting : system.pics.waiting = lines) : ∃ after, ∃ steps ≤ 7 * lines.length,
    (interruptStep kernel)^[steps] system = system.serveAll lines after ∧ after.waiting = [] ∧
      SameSettings after system.pics ∧
      ∀ other < 16, other ≠ 2 → (after.Requested other ↔ system.pics.Requested other ∧ other ∉ lines) := by
  induction lines generalizing system with
  | nil =>
      exact ⟨system.pics, 0, Nat.le_refl 0, rfl, waiting, ⟨rfl, rfl⟩, fun other _ _ => (and_iff_left List.not_mem_nil).symm⟩
  | cons line rest ih =>
      obtain ⟨served, between, first, short, ran, order, same, requested⟩ := serve_first running present place enabled (by rw [waiting]; exact nofun)
      rw [waiting, List.cons.injEq] at order
      obtain ⟨rfl, left⟩ := order
      have next := running.iterate placed present first
      rw [ran] at next
      obtain ⟨after, steps, few, drained, empty, kept, still⟩ := ih next place enabled left.symm
      refine ⟨after, steps + first, ?_, ?_, empty, kept.trans same, fun other small device => ?_⟩
      · rw [List.length_cons]
        omega
      · rw [Function.iterate_add_apply, ran, drained, serveAll_append, List.singleton_append]
      · have here : between.Requested other ↔ _ := requested other small device
        rw [still other small device, List.mem_cons, not_or, ← and_assoc]
        exact and_congr_left fun _ => here

/-- Then nothing more happens. -/
theorem iterate_quiet (place : system.place = .program) (configured : Configured system.pics) (idle : system.pics.Idle)
    (quiet : system.pics.waiting = []) (steps : Nat) : (interruptStep kernel)^[steps] system = system := by
  refine Function.iterate_fixed ?_ steps
  have silent : system.pics.intr = false := by
    rw [← Bool.not_eq_true, Pair.intr_iff configured.operating idle]
    rintro ⟨line, waits⟩
    have member := Pair.mem_waiting.mpr waits
    rw [quiet] at member
    cases member
  rw [interruptStep, place]
  change (if system.interruptFlag && system.pics.intr then _ else _) = _
  rw [silent, Bool.and_false]
  rfl

theorem run_replicate (steps : Nat) (system : System) :
    run kernel (List.replicate steps .interrupt) system = (interruptStep kernel)^[steps] system := by
  induction steps generalizing system with
  | zero => rfl
  | succ steps ih => exact ih (interruptStep kernel system)

variable {clearTicks timerHandler keyboardHandler : Handler} {ops : List Op}

/-- From every state that a run can reach in which the program waits with interrupts
enabled, the processor needs at most seven steps for each waiting line to serve them
all: each one once, in the order of their priorities, and the handlers' changes are
all that happens to memory. Requests at masked lines stay where they are, nothing is
in service, and the controllers keep their masks and settings. -/
theorem no_request_lost (placed : kernel.image.Placed) (present : kernel.irqCommonHandler ≠ 0)
    (keeps : ∀ change ∈ [clearTicks, timerHandler, keyboardHandler], Keeps kernel change) (permitted : ∀ op ∈ ops, Permitted kernel op)
    (pics : Pair) (memory : ByteMemory) (schedule : List Actor) (steps : Nat) :
    let system := run kernel schedule (reset pics memory (halInitialize kernel clearTicks timerHandler keyboardHandler ++ ops))
    system.place = .program → system.interruptFlag = true → 7 * system.pics.waiting.length ≤ steps →
    ∃ after, run kernel (List.replicate steps .interrupt) system = system.serveAll system.pics.waiting after ∧
      after.Idle ∧ SameSettings after system.pics ∧
      ∀ line < 16, line ≠ 2 → (after.Requested line ↔ system.pics.Requested line ∧ ¬ system.pics.Enabled line) := by
  have later : ∀ op ∈ timerInitialize clearTicks timerHandler ++ keyboardInitialize keyboardHandler ++ ops, Permitted kernel op :=
    List.forall_mem_append.mpr ⟨initialize_permitted keeps, permitted⟩
  have sound := (sound_reset placed clearTicks timerHandler keyboardHandler pics memory ops).run placed present later schedule
  intro system place enabled enough
  obtain ⟨left, starting⟩ | running := sound
  · rw [starting.disabled] at enabled
    cases enabled
  · obtain ⟨after, few, short, ran, empty, same, requested⟩ := serve_waiting running placed present place enabled rfl
    have done := running.iterate placed present few
    rw [ran] at done
    have idle : after.Idle := (done.stage.between place).idle
    refine ⟨after, ?_, idle, same, fun line small device => ?_⟩
    · obtain ⟨more, rfl⟩ := Nat.exists_eq_add_of_le (Nat.le_trans short enough)
      rw [run_replicate, Nat.add_comm, Function.iterate_add_apply, ran]
      exact @iterate_quiet kernel (system.serveAll system.pics.waiting after) place done.configured idle empty more
    · rw [requested line small device, Pair.mem_waiting]
      refine and_congr_right fun asks => not_congr ?_
      exact ⟨fun waits => waits.2.2.2, fun heard => ⟨small, device, asks, heard⟩⟩

/-- The timer and the device at line 12 ask when `HAL_initialize` is done. -/
def asking : List Actor := List.replicate 45 .program ++ [.raise 12, .raise 0]

def someSystem : System := run someKernel asking (reset somePics (fun _ => 0) (someProgram ++ []))

theorem no_request_lost_two : ∃ after, run someKernel (List.replicate 14 .interrupt) someSystem = someSystem.serveAll [0, 12] after := by
  have waiting : someSystem.pics.waiting = [0, 12] := rfl
  have served := @no_request_lost someKernel _ _ _ [] ⟨by decide, by decide, by decide⟩ (by decide) someKernel_keeps nofun somePics
    (fun _ => 0) asking 14 rfl rfl
  obtain ⟨after, ran, _⟩ := served (Nat.le_of_eq (congrArg (7 * List.length ·) waiting))
  exact ⟨after, ran.trans (congrArg (someSystem.serveAll · after) waiting)⟩

end Irq

end ScratchOs
