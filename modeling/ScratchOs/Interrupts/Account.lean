import ScratchOs.Interrupts.Delivery

namespace ScratchOs

open Data Pic8259

/-! No request is lost on its way to `IRQ_common_handler`, and none is served
twice. Whatever the order of steps, the calls for a line and the requests that
are still to be served add up to what its device has asked for. -/

namespace Irq

/-- What the controllers keep of a line's device. -/
def requested (pics : Pair) (line : Nat) : Bool :=
  if line < 8 then pics.master.requests.getLsbD line else pics.slave.requests.getLsbD (line - 8)

/-- The processor has taken the request, and `IRQ_common_handler` has not been called. -/
def underWay (line : Nat) : Place → Bool
  | .chosen (some other) => other = line
  | .handling (.irqHandler irq :: _) => irq = line
  | _ => false

/-- Requests of the line that have come to their handler or will. -/
def accounted (line : Nat) (system : System) : Nat :=
  system.called.count line + (underWay line system.place).toNat + (requested system.pics line).toNat

/-- An edge that finds the line silent. At a line that asks already it is no
request of its own. -/
def asks (line : Nat) (actor : Actor) (system : System) : Bool := actor = .raise line && !requested system.pics line

def takesBack (line : Nat) (actor : Actor) (system : System) : Bool := actor = .withdraw line && requested system.pics line

/-- The answer for a request that is gone: line 7 of either controller. -/
def isSpurious (line : Nat) (actor : Actor) (system : System) : Bool :=
  actor = .interrupt && match system.place with
    | .chosen none => line = 7
    | .chosen (some 2) => line = 15 && system.pics.slave.next.isNone
    | _ => false

/-- How often something happens at the steps of a run. -/
def times (kernel : Kernel) (event : Actor → System → Bool) : List Actor → System → Nat
  | [], _ => 0
  | actor :: schedule, system => (event actor system).toNat + times kernel event schedule (step kernel actor system)

variable {kernel : Kernel} {system : System} {pics : Pair} {line other : Nat}

/-! The requests after each kind of change. -/

theorem requested_congr {after : Pair} (master : after.master.requests = pics.master.requests)
    (slave : after.slave.requests = pics.slave.requests) : requested after line = requested pics line := by
  rw [requested, requested, master, slave]

theorem requested_raise (device : HasDevice line) (also : HasDevice other) :
    requested (pics.raise other) line = (requested pics line || decide (other = line)) := by
  obtain ⟨inside, _⟩ := device
  obtain ⟨small, _⟩ := also
  rw [requested, requested, Pair.raise]
  by_cases low : other < 8
  · rw [if_pos low]
    by_cases lower : line < 8
    · rw [if_pos lower, if_pos lower, getLsbD_or_bit lower]
    · rw [if_neg lower, if_neg lower, decide_eq_false (by omega), Bool.or_false]
  · rw [if_neg low]
    by_cases lower : line < 8
    · rw [if_pos lower, if_pos lower, decide_eq_false (by omega), Bool.or_false]
    · rw [if_neg lower, if_neg lower, getLsbD_or_bit (by omega)]
      congr 1
      rw [decide_eq_decide]
      omega

theorem requested_withdraw (device : HasDevice line) (also : HasDevice other) :
    requested (pics.withdraw other) line = (requested pics line && decide (other ≠ line)) := by
  obtain ⟨inside, _⟩ := device
  obtain ⟨small, _⟩ := also
  rw [requested, requested, Pair.withdraw]
  by_cases low : other < 8
  · rw [if_pos low]
    by_cases lower : line < 8
    · rw [if_pos lower, if_pos lower, getLsbD_and_not_bit lower]
    · rw [if_neg lower, if_neg lower, decide_eq_true (by omega), Bool.and_true]
  · rw [if_neg low]
    by_cases lower : line < 8
    · rw [if_pos lower, if_pos lower, decide_eq_true (by omega), Bool.and_true]
    · rw [if_neg lower, if_neg lower, getLsbD_and_not_bit (by omega)]
      congr 1
      rw [decide_eq_decide]
      omega

/-- Masks and ends of interrupts are no matter of the requests. -/
theorem requested_out (configured : Configured pics) {write : Pic.PortWrite} (master : write.port ≠ Pic.pic1Command)
    (slave : write.port ≠ Pic.pic2Command) : requested (Pic.out write pics) line = requested pics line := by
  have operating := configured.operating
  rw [Pic.out, if_neg master, if_neg slave]
  split
  · rw [Chip.writeData_operating operating.master]
    exact requested_congr rfl rfl
  · split
    · rw [Chip.writeData_operating operating.slave]
      exact requested_congr rfl rfl
    · rfl

theorem writeCommand_eoi (chip : Chip) : chip.writeCommand Pic.picEoi = chip.endOfInterrupt := by
  rw [Chip.writeCommand, if_neg (by decide), if_pos (by decide)]

theorem requested_eoi (configured : Configured pics) (port : BitVec 16) :
    requested (Pic.out ⟨port, Pic.picEoi⟩ pics) line = requested pics line := by
  by_cases master : port = Pic.pic1Command
  · rw [Pic.out, if_pos master, writeCommand_eoi]
    exact requested_congr rfl rfl
  · by_cases slave : port = Pic.pic2Command
    · subst slave
      rw [Pic.out, if_neg (by decide), if_neg (by decide), if_pos rfl, writeCommand_eoi]
      exact requested_congr rfl rfl
    · exact requested_out configured master slave

/-- The first cycle takes the request of the line it chooses. Line 2 stands for the
slave, which keeps its request until the second cycle. -/
theorem requested_firstCycle (device : HasDevice line) (configured : Configured pics) (idle : pics.Idle) :
    (underWay line (.chosen pics.firstCycle.1)).toNat + (requested pics.firstCycle.2 line).toNat =
      (requested pics line).toNat := by
  have operating := configured.operating
  cases chosen : pics.joined.next with
  | none =>
      rw [Pair.firstCycle, chosen]
      exact Nat.zero_add _
  | some first =>
      obtain ⟨inside, ⟨asked, _⟩, _⟩ := (Chip.next_eq_some operating.joined idle.joined).mp chosen
      rw [Pair.firstCycle_of_next chosen]
      by_cases low : line < 8
      · rw [requested, requested, if_pos low, if_pos low, Pair.accept_requests _ low, Pair.joined_requests low,
          if_neg device.2]
        by_cases same : first = line
        · subst same
          rw [Pair.joined_requests low, if_neg device.2] at asked
          rw [asked, underWay, decide_eq_true rfl]
          simp
        · rw [underWay, decide_eq_false same, decide_eq_true same, Bool.and_true]
          exact Nat.zero_add _
      · rw [requested, requested, if_neg low, if_neg low, underWay, decide_eq_false (by omega)]
        exact Nat.zero_add _

/-- The second cycle takes what is behind line 2, or answers for what is gone. -/
theorem requested_secondCycle (device : HasDevice line) (configured : Configured pics) (idle : pics.slave.Idle) {first : Nat}
    (inside : first < 8) : ∃ irq < 16, (pics.secondCycle (some first)).1 = vectorOf irq ∧
      (decide (irq = line)).toNat + (requested (pics.secondCycle (some first)).2 line).toNat =
        (underWay line (.chosen (some first))).toNat + (requested pics line).toNat +
          (decide (first = 2) && (decide (line = 15) && pics.slave.next.isNone)).toNat := by
  have operating := configured.operating
  rw [Pair.secondCycle]
  by_cases cascaded : first = 2
  · subst cascaded
    rw [Pair.cascade_getLsbD operating, decide_eq_true rfl, if_pos rfl, if_pos operating.identity, underWay,
      decide_eq_false (Ne.symm device.2)]
    cases chosen : pics.slave.next with
    | none =>
        refine ⟨15, by decide, ?_, ?_⟩
        · rw [← configured.vector (by decide), Pair.vector, if_neg (by decide)]
        · simp [eq_comm]
          omega
    | some behind =>
        obtain ⟨small, ⟨asked, _⟩, _⟩ := (Chip.next_eq_some operating.slave idle).mp chosen
        refine ⟨behind + 8, by omega, ?_, ?_⟩
        · rw [← configured.vector (by omega), Pair.vector, if_neg (by omega), Nat.add_sub_cancel]
        · by_cases low : line < 8
          · rw [requested, requested, if_pos low, if_pos low, decide_eq_false (by omega)]
            simp
          · rw [requested, requested, if_neg low, if_neg low, Pair.accept_requests _ (show line - 8 < 8 by
              have := device.1
              omega)]
            by_cases same : behind = line - 8
            · rw [← same, asked, decide_eq_true (show behind + 8 = line by omega)]
              simp
            · rw [decide_eq_false (show ¬ behind + 8 = line by omega), decide_eq_true same, Bool.and_true]
              simp
  · rw [Pair.cascade_getLsbD operating, decide_eq_false cascaded, if_neg Bool.false_ne_true]
    refine ⟨first, by omega, ?_, ?_⟩
    · rw [← configured.vector (by omega), Pair.vector, if_pos inside]
    · rw [underWay]
      simp

/-! The steps. -/

theorem underWay_irqCommonHandler {irq : Nat} (inside : irq < 16) :
    underWay line (.handling (irqCommonHandler (vectorOf irq) ++ [.iret])) = decide (irq = line) := by
  rw [irqCommonHandler_vectorOf inside]
  rfl

theorem underWay_ending (writes : List Pic.PortWrite) : underWay line (.handling (writes.map .out ++ [.iret])) = false := by
  cases writes <;> rfl

theorem requested_programStep (running : Running kernel system) :
    requested (programStep kernel system).pics line = requested system.pics line := by
  rw [programStep]
  split
  · next op rest place program =>
      have allowed := running.program op (by rw [program]; exact List.mem_cons_self)
      cases allowed with
      | out write master slave => exact requested_out running.configured master slave
      | interruptFlag | setIsrHandler | setIrqHandler | work | print => rfl
  · rfl

theorem programStep_accounted (running : Running kernel system) :
    accounted line (programStep kernel system) = accounted line system := by
  have requests := @requested_programStep kernel system line running
  have same : (programStep kernel system).called = system.called ∧ (programStep kernel system).place = system.place := by
    rw [programStep]
    split
    · next op rest place program =>
        have allowed := running.program op (by rw [program]; exact List.mem_cons_self)
        cases allowed <;> exact ⟨rfl, rfl⟩
    · exact ⟨rfl, rfl⟩
  rw [accounted, accounted, same.1, same.2, requests]

theorem isSpurious_chosen {first : Nat} (place : system.place = .chosen (some first)) : isSpurious line .interrupt system =
    (decide (first = 2) && (decide (line = 15) && system.pics.slave.next.isNone)) := by
  rw [isSpurious, place, decide_eq_true rfl, Bool.true_and]
  by_cases cascaded : first = 2
  · subst cascaded
    rfl
  · rw [decide_eq_false cascaded, Bool.false_and]
    split
    · cases ‹Place.chosen (some first) = .chosen none›
    · next same =>
        cases same
        exact absurd rfl cascaded
    · rfl

theorem interruptStep_accounted (running : Running kernel system) (present : kernel.irqCommonHandler ≠ 0)
    (device : HasDevice line) : accounted line (interruptStep kernel system) =
      accounted line system + (isSpurious line .interrupt system).toNat := by
  have configured := running.configured
  have enters : ∀ (after : Pair) (irq : Nat), irq < 16 → accounted line (enter kernel (vectorOf irq) { system with pics := after }) =
      system.called.count line + (decide (irq = line)).toNat + (requested after line).toNat := by
    intro after irq inside
    rw [@enter_vectorOf kernel { system with pics := after } irq present running.idtr running.tables inside, accounted,
      underWay_irqCommonHandler inside]
  have expected : ∀ place, system.place = place → accounted line system =
      system.called.count line + (underWay line place).toNat + (requested system.pics line).toNat := by
    rintro place rfl
    rfl
  have answers : ∀ place, system.place = place → (∀ chosen, place ≠ .chosen chosen) → isSpurious line .interrupt system = false := by
    rintro place rfl other
    rw [isSpurious]
    split
    · exact absurd ‹_› (other _)
    · exact absurd ‹_› (other _)
    · exact Bool.and_false _
  cases running.stage with
  | program place between =>
      rw [interruptStep, place, answers _ place (by rintro _ ⟨⟩), expected _ place]
      change accounted line (if system.interruptFlag && system.pics.intr then _ else _) = _
      split
      · rfl
      · exact expected _ place
  | recognised place between =>
      have first := requested_firstCycle device configured between.idle
      rw [interruptStep, place, answers _ place (by rintro _ ⟨⟩), expected _ place]
      change system.called.count line + (underWay line (.chosen system.pics.firstCycle.1)).toNat +
        (requested system.pics.firstCycle.2 line).toNat = system.called.count line + 0 + _ + 0
      omega
  | gone place between =>
      have answered : system.pics.secondCycle none = (vectorOf 7, system.pics) := by
        rw [← configured.vector (by decide)]
        rfl
      have spurious : isSpurious line .interrupt system = decide (7 = line) := by
        rw [isSpurious, place]
        simp [eq_comm]
      rw [interruptStep, place, spurious, expected _ place]
      simp only [answered]
      have entered := enters system.pics 7 (by decide)
      rw [place] at entered
      rw [entered]
      change _ = system.called.count line + 0 + _ + _
      omega
  | chosen first place inside master slave served =>
      obtain ⟨irq, small, vector, requests⟩ := requested_secondCycle device configured slave inside
      rw [interruptStep, place, isSpurious_chosen place, expected _ place]
      simp only [vector]
      have entered := enters (system.pics.secondCycle (some first)).2 irq small
      rw [place] at entered
      rw [entered]
      omega
  | entered irq place inside ends served =>
      have underway := @underWay_irqCommonHandler line irq inside
      rw [answers _ place (by rintro _ ⟨⟩), expected _ place, underway]
      rw [irqCommonHandler_vectorOf inside] at place
      rw [interruptStep, place]
      change (irq :: system.called).count line + (underWay line (.handling ((Pic.picSendEoi _).map .out ++ [.iret]))).toNat +
        (requested system.pics line).toNat = _
      rw [underWay_ending, List.count_cons]
      by_cases same : irq = line
      · simp [same]
      · simp [same]
  | ending writes place eoi ends served =>
      rw [answers _ place (by rintro _ ⟨⟩), expected _ place, underWay_ending]
      cases writes with
      | nil =>
          rw [interruptStep, place]
          rfl
      | cons write rest =>
          obtain ⟨port, rfl⟩ := eoi write List.mem_cons_self
          rw [interruptStep, place]
          change system.called.count line + (underWay line (.handling (rest.map .out ++ [.iret]))).toNat +
            (requested (Pic.out ⟨port, Pic.picEoi⟩ system.pics) line).toNat = _
          rw [underWay_ending, requested_eoi configured]
          rfl

theorem step_accounted (running : Running kernel system) (present : kernel.irqCommonHandler ≠ 0) (device : HasDevice line)
    (actor : Actor) : accounted line (step kernel actor system) + (takesBack line actor system).toNat =
      accounted line system + (asks line actor system).toNat + (isSpurious line actor system).toNat := by
  cases actor with
  | program => exact @programStep_accounted kernel system line running
  | interrupt => exact interruptStep_accounted running present device
  | raise other =>
      have none : isSpurious line (.raise other) system = false := by simp [isSpurious]
      have kept : takesBack line (.raise other) system = false := by simp [takesBack]
      rw [none, kept, Irq.step, asks]
      by_cases same : other = line
      · subst same
        rw [if_pos device, decide_eq_true rfl, accounted, accounted, requested_raise device device, decide_eq_true rfl, Bool.or_true]
        cases requested system.pics other <;> simp
      · rw [decide_eq_false (fun equal => same (Actor.raise.inj equal)), Bool.false_and]
        split
        · next also =>
            rw [accounted, accounted, requested_raise device also, decide_eq_false same, Bool.or_false]
            rfl
        · rfl
  | withdraw other =>
      have none : isSpurious line (.withdraw other) system = false := by simp [isSpurious]
      have silent : asks line (.withdraw other) system = false := by simp [asks]
      rw [none, silent, Irq.step, takesBack]
      by_cases same : other = line
      · subst same
        rw [if_pos device, decide_eq_true rfl, accounted, accounted, requested_withdraw device device, decide_eq_false (not_not.mpr rfl),
          Bool.and_false]
        cases requested system.pics other <;> simp
      · rw [decide_eq_false (fun equal => same (Actor.withdraw.inj equal)), Bool.false_and]
        split
        · next also =>
            rw [accounted, accounted, requested_withdraw device also, decide_eq_true same, Bool.and_true]
            rfl
        · rfl

theorem run_accounted (running : Running kernel system) (placed : kernel.image.Placed) (present : kernel.irqCommonHandler ≠ 0)
    (device : HasDevice line) (schedule : List Actor) :
    accounted line (run kernel schedule system) + times kernel (takesBack line) schedule system =
      accounted line system + times kernel (asks line) schedule system + times kernel (isSpurious line) schedule system := by
  induction schedule generalizing system with
  | nil => rfl
  | cons actor schedule ih =>
      have first := step_accounted running present device actor
      have rest := ih (running.step placed present actor)
      rw [run, List.foldl_cons, ← run]
      simp only [times]
      omega

variable {clearTicks timerHandler keyboardHandler : Handler} {ops : List Op}

/-- From the moment `HAL_initialize` enables interrupts, in any order of steps: what
a device has asked for is served once, or under way, or still waiting, or was taken
back before it was served; and a call that no request is behind is one of the
spurious interrupts of lines 7 and 15. -/
theorem requests_accounted (placed : kernel.image.Placed) (present : kernel.irqCommonHandler ≠ 0)
    (keeps : ∀ change ∈ [clearTicks, timerHandler, keyboardHandler], Keeps kernel change) (permitted : ∀ op ∈ ops, Permitted kernel op)
    (pics : Pair) (memory : ByteMemory) (first schedule : List Actor) (line : Nat) (device : HasDevice line) :
    let system := run kernel first (reset pics memory (halInitialize kernel clearTicks timerHandler keyboardHandler ++ ops))
    system.interruptFlag = true →
    accounted line (run kernel schedule system) + times kernel (takesBack line) schedule system =
      accounted line system + times kernel (asks line) schedule system + times kernel (isSpurious line) schedule system := by
  have later : ∀ op ∈ timerInitialize clearTicks timerHandler ++ keyboardInitialize keyboardHandler ++ ops, Permitted kernel op :=
    List.forall_mem_append.mpr ⟨initialize_permitted keeps, permitted⟩
  have sound := (sound_reset placed clearTicks timerHandler keyboardHandler pics memory ops).run placed present later first
  intro system enabled
  obtain ⟨left, starting⟩ | running := sound
  · rw [starting.disabled] at enabled
    cases enabled
  · exact run_accounted running placed present device schedule

/-- The timer asks twice; the device at line 7 is gone when it is asked. -/
def impatient : List Actor := [.raise 0, .raise 0, .raise 7, .interrupt, .interrupt, .interrupt, .raise 0, .interrupt,
  .interrupt, .interrupt, .withdraw 7, .interrupt]

def booted : System := run someKernel (List.replicate 45 .program) (reset somePics (fun _ => 0) (someProgram ++ []))

set_option maxRecDepth 20000 in
theorem requests_accounted_impatient : accounted 0 (run someKernel impatient booted) = 2 := by
  have sum := @requests_accounted someKernel _ _ _ [] ⟨by decide, by decide, by decide⟩ (by decide) someKernel_keeps nofun somePics
    (fun _ => 0) (List.replicate 45 .program) impatient 0 ⟨by decide, by decide⟩ rfl
  have before : accounted 0 booted = 0 := rfl
  have asked : times someKernel (asks 0) impatient booted = 2 := rfl
  have returned : times someKernel (takesBack 0) impatient booted = 0 := rfl
  have spurious : times someKernel (isSpurious 0) impatient booted = 0 := rfl
  change accounted 0 (run someKernel impatient booted) + times someKernel (takesBack 0) impatient booted =
    accounted 0 booted + times someKernel (asks 0) impatient booted + times someKernel (isSpurious 0) impatient booted at sum
  rwa [before, asked, returned, spurious] at sum

end Irq

end ScratchOs
