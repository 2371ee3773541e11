import ScratchOs.Data.ByteMemory

namespace ScratchOs.Pic8259

open Data

/-! The 8259A interrupt controller, and two of them in cascade with the second one
behind line 2 of the first. Fully nested mode with fixed priorities, line 0 first;
rotation, polling, the special modes and the register reads are left out. -/

/-- What the next word at the data port is taken for: the mask, or the word of an
initialisation that is due. -/
inductive Expects where
  | mask | vectors | cascade | mode
deriving DecidableEq, Repr

structure Chip where
  expects : Expects
  single : Bool
  modeFollows : Bool
  vectors : Byte
  cascade : Byte
  mode : Byte
  mask : Byte
  requests : Byte
  inService : Byte
deriving DecidableEq, Repr

def bit (line : Nat) : Byte := BitVec.twoPow 8 line

/-- The line of the highest priority among these. -/
def first (lines : Byte) : Option Nat := (List.range 8).find? fun line => lines.getLsbD line

def withoutFirst (lines : Byte) : Byte :=
  match first lines with
  | none => lines
  | some line => lines &&& ~~~bit line

namespace Chip

/-- The request the chip asks for. One in service keeps all below it waiting, and
nothing is asked for during an initialisation. -/
def next (chip : Chip) : Option Nat :=
  if chip.expects = .mask then
    match first (chip.requests &&& ~~~chip.mask), first chip.inService with
    | some line, some serving => if serving ≤ line then none else some line
    | request, none => request
    | none, _ => none
  else none

/-- Without a bit for automatic ends of interrupts in its mode the chip keeps the line in service. -/
def accept (line : Nat) (chip : Chip) : Chip :=
  { chip with
    requests := chip.requests &&& ~~~bit line
    inService := if chip.mode.getLsbD 1 then chip.inService else chip.inService ||| bit line }

def endOfInterrupt (chip : Chip) : Chip := { chip with inService := withoutFirst chip.inService }

/-- Bit 4 begins an initialisation. Of the other commands only the two ends of
interrupts do something here. -/
def writeCommand (value : Byte) (chip : Chip) : Chip :=
  if value.getLsbD 4 then
    { chip with
      expects := .vectors
      single := value.getLsbD 1
      modeFollows := value.getLsbD 0
      mode := if value.getLsbD 0 then chip.mode else 0
      mask := 0
      requests := 0
      inService := 0 }
  else if value &&& 0xF8 = 0x20 then chip.endOfInterrupt
  else if value &&& 0xF8 = 0x60 then { chip with inService := chip.inService &&& ~~~bit (value &&& 7).toNat }
  else chip

def writeData (value : Byte) (chip : Chip) : Chip :=
  let expectsMode : Expects := if chip.modeFollows then .mode else .mask
  match chip.expects with
  | .mask => { chip with mask := value }
  | .vectors => { chip with vectors := value &&& 0xF8, expects := if chip.single then expectsMode else .cascade }
  | .cascade => { chip with cascade := value, expects := expectsMode }
  | .mode => { chip with mode := value, expects := .mask }

def vector (chip : Chip) (line : Nat) : Byte := chip.vectors ||| BitVec.ofNat 8 line

end Chip

/-- Two chips in cascade. -/
structure Pair where
  master : Chip
  slave : Chip
deriving DecidableEq, Repr

namespace Pair

/-- Line 2 of the master is what the slave asks. -/
def joined (pair : Pair) : Chip :=
  { pair.master with
    requests := if pair.slave.next.isSome then pair.master.requests ||| bit 2 else pair.master.requests &&& ~~~bit 2 }

/-- The pin at the processor. -/
def intr (pair : Pair) : Bool := pair.joined.next.isSome

/-- The first acknowledge cycle: the master chooses. The request may be gone by now. -/
def firstCycle (pair : Pair) : Option Nat × Pair :=
  match pair.joined.next with
  | none => (none, pair)
  | some line => (some line, { pair with master := pair.joined.accept line })

/-- The second cycle: the vector comes from the master, or for a cascaded line from
the slave of that number. A request that is gone is answered for line 7; a slave
that does not exist leaves the bus floating. -/
def secondCycle (chosen : Option Nat) (pair : Pair) : Byte × Pair :=
  match chosen with
  | none => (pair.master.vector 7, pair)
  | some line =>
      if pair.master.cascade.getLsbD line then
        if (pair.slave.cascade &&& 7).toNat = line then
          match pair.slave.next with
          | none => (pair.slave.vector 7, pair)
          | some behind => (pair.slave.vector behind, { pair with slave := pair.slave.accept behind })
        else (0xFF, pair)
      else (pair.master.vector line, pair)

/-- An edge at one of the lines of the pair; those from 8 on are the slave's. -/
def raise (line : Nat) (pair : Pair) : Pair :=
  if line < 8 then { pair with master := { pair.master with requests := pair.master.requests ||| bit line } }
  else { pair with slave := { pair.slave with requests := pair.slave.requests ||| bit (line - 8) } }

/-- The device takes its request back. -/
def withdraw (line : Nat) (pair : Pair) : Pair :=
  if line < 8 then { pair with master := { pair.master with requests := pair.master.requests &&& ~~~bit line } }
  else { pair with slave := { pair.slave with requests := pair.slave.requests &&& ~~~bit (line - 8) } }

/-- A device at this line asks for an interrupt. -/
def Requested (pair : Pair) (line : Nat) : Prop :=
  if line < 8 then pair.master.requests.getLsbD line = true else pair.slave.requests.getLsbD (line - 8) = true

/-- No mask is in the way. The slave's lines are behind line 2 of the master. -/
def Enabled (pair : Pair) (line : Nat) : Prop :=
  if line < 8 then pair.master.mask.getLsbD line = false
  else pair.master.mask.getLsbD 2 = false ∧ pair.slave.mask.getLsbD (line - 8) = false

/-- The order in which the pair serves its lines. -/
def rank (line : Nat) : Nat := if line < 2 then line else if line < 8 then line + 8 else line - 6

end Pair

/-! The bits of a register. -/

variable {lines : Byte} {line other : Nat}

theorem getLsbD_or_bit (inside : other < 8) : (lines ||| bit line).getLsbD other = (lines.getLsbD other || decide (line = other)) := by
  rw [BitVec.getLsbD_or, bit, BitVec.getLsbD_twoPow]
  by_cases same : line = other
  · simp [same, inside]
  · simp [same]

theorem getLsbD_and_not_bit (inside : other < 8) :
    (lines &&& ~~~bit line).getLsbD other = (lines.getLsbD other && decide (line ≠ other)) := by
  rw [BitVec.getLsbD_and, BitVec.getLsbD_not, bit, BitVec.getLsbD_twoPow]
  by_cases same : line = other
  · simp [same, inside]
  · simp [same, inside]

theorem first_eq_some_iff : first lines = some line ↔
    line < 8 ∧ lines.getLsbD line = true ∧ ∀ before < line, lines.getLsbD before = false := by
  simp only [first, List.find?_range_eq_some, List.mem_range, Bool.not_eq_true', and_left_comm]

theorem first_eq_none_iff : first lines = none ↔ lines = 0 := by
  rw [first, List.find?_range_eq_none]
  constructor
  · intro clear
    apply BitVec.eq_of_getLsbD_eq
    intro place inside
    have off := clear place inside
    rw [Bool.not_eq_true'] at off
    rw [off]
    exact BitVec.getLsbD_zero.symm
  · rintro rfl place _
    rw [BitVec.ofNat_eq_ofNat, BitVec.getLsbD_zero]
    rfl

theorem exists_first (on : lines.getLsbD line = true) : ∃ least, first lines = some least := by
  apply Option.ne_none_iff_exists'.mp
  intro none
  rw [first_eq_none_iff.mp none, BitVec.ofNat_eq_ofNat, BitVec.getLsbD_zero] at on
  cases on

theorem first_bit (inside : line < 8) : first (bit line) = some line := by
  rw [first_eq_some_iff]
  refine ⟨inside, ?_, fun before below => ?_⟩
  · rw [bit, BitVec.getLsbD_twoPow]
    simp [inside]
  · rw [bit, BitVec.getLsbD_twoPow]
    simp [Nat.ne_of_gt below]

namespace Chip

variable {chip : Chip}

/-- Everything but the requests, which is all that devices change. -/
def registers (chip : Chip) : Chip := { chip with requests := 0 }

/-- What the chip has been told. -/
def settings (chip : Chip) : Chip := { chip with requests := 0, inService := 0 }

/-- The chip has been told everything and ends interrupts only when it is told to. -/
structure Operating (chip : Chip) : Prop where
  expects : chip.expects = .mask
  told : chip.mode.getLsbD 1 = false

def Idle (chip : Chip) : Prop := chip.inService = 0

/-- One end of interrupt is enough. -/
def OneEnd (chip : Chip) : Prop := chip.endOfInterrupt.Idle

theorem Operating.congr {other : Chip} (operating : chip.Operating) (same : other.settings = chip.settings) : other.Operating := by
  have expects : other.settings.expects = chip.settings.expects := by rw [same]
  have mode : other.settings.mode = chip.settings.mode := by rw [same]
  exact ⟨expects.trans operating.expects, (congrArg (BitVec.getLsbD · 1) mode).trans operating.told⟩

theorem registers_writeCommand (value : Byte) (chip : Chip) :
    (chip.writeCommand value).registers = (chip.registers.writeCommand value).registers := by
  simp only [writeCommand, endOfInterrupt, registers]
  split_ifs <;> rfl

theorem registers_writeData (value : Byte) (chip : Chip) :
    (chip.writeData value).registers = (chip.registers.writeData value).registers := by
  simp only [writeData, registers]
  cases chip.expects <;> rfl

theorem writeData_operating (operating : chip.Operating) (value : Byte) : chip.writeData value = { chip with mask := value } := by
  rw [writeData, operating.expects]

theorem next_idle (operating : chip.Operating) (idle : chip.Idle) : chip.next = first (chip.requests &&& ~~~chip.mask) := by
  have none : first chip.inService = none := first_eq_none_iff.mpr idle
  rw [next, if_pos operating.expects, none]
  cases first (chip.requests &&& ~~~chip.mask) <;> rfl

theorem next_eq_some (operating : chip.Operating) (idle : chip.Idle) : chip.next = some line ↔
    line < 8 ∧ (chip.requests.getLsbD line = true ∧ chip.mask.getLsbD line = false) ∧
      ∀ before < line, chip.requests.getLsbD before = true → chip.mask.getLsbD before = true := by
  rw [next_idle operating idle, first_eq_some_iff]
  refine and_congr_right fun inside => and_congr ?_ (forall₂_congr fun before below => ?_)
  · rw [BitVec.getLsbD_and, BitVec.getLsbD_not, Bool.and_eq_true, Bool.and_eq_true, decide_eq_true_eq, Bool.not_eq_true']
    exact and_congr_right fun _ => and_iff_right inside
  · rw [BitVec.getLsbD_and, BitVec.getLsbD_not]
    have small : before < 8 := Nat.lt_trans below inside
    cases chip.requests.getLsbD before <;> cases chip.mask.getLsbD before <;> simp [small]

theorem next_isSome_iff (operating : chip.Operating) (idle : chip.Idle) : chip.next.isSome = true ↔
    ∃ line < 8, chip.requests.getLsbD line = true ∧ chip.mask.getLsbD line = false := by
  constructor
  · intro asks
    obtain ⟨line, here⟩ := Option.isSome_iff_exists.mp asks
    obtain ⟨inside, waits, _⟩ := (next_eq_some operating idle).mp here
    exact ⟨line, inside, waits⟩
  · rintro ⟨line, inside, requested, enabled⟩
    have on : (chip.requests &&& ~~~chip.mask).getLsbD line = true := by
      rw [BitVec.getLsbD_and, BitVec.getLsbD_not, requested, enabled]
      simp [inside]
    obtain ⟨least, found⟩ := exists_first on
    rw [next_idle operating idle, found]
    rfl

theorem oneEnd_of_idle (idle : chip.Idle) : chip.OneEnd := by
  change withoutFirst chip.inService = 0
  rw [withoutFirst, first_eq_none_iff.mpr idle]
  exact idle

theorem oneEnd_accept (operating : chip.Operating) (idle : chip.Idle) (inside : line < 8) : (chip.accept line).OneEnd := by
  have serving : (chip.accept line).inService = bit line := by
    rw [accept, operating.told, idle]
    exact BitVec.zero_or
  change withoutFirst (chip.accept line).inService = 0
  rw [serving, withoutFirst, first_bit inside]
  exact BitVec.and_not_self _

theorem vector_toNat (aligned : chip.vectors &&& 7 = 0) (inside : line < 8) :
    (chip.vector line).toNat = chip.vectors.toNat + line := by
  have low : (chip.vectors &&& 7).toNat = chip.vectors.toNat % 8 := by
    rw [BitVec.toNat_and]
    exact Nat.and_two_pow_sub_one_eq_mod _ 3
  have below := chip.vectors.isLt
  rw [aligned, show BitVec.toNat (0 : Byte) = 0 from rfl] at low
  have value : (BitVec.ofNat 8 line).toNat = line := by
    rw [BitVec.toNat_ofNat, Nat.mod_eq_of_lt (by omega)]
  have small : BitVec.ofNat 8 line &&& 7 = BitVec.ofNat 8 line := by
    apply BitVec.eq_of_toNat_eq
    rw [BitVec.toNat_and, value]
    exact (Nat.and_two_pow_sub_one_eq_mod _ 3).trans (Nat.mod_eq_of_lt inside)
  have apart : chip.vectors &&& BitVec.ofNat 8 line = 0 := by
    rw [← small, BitVec.and_comm _ 7, ← BitVec.and_assoc, aligned]
    exact BitVec.zero_and
  rw [vector, ← BitVec.add_eq_or_of_and_eq_zero _ _ apart, BitVec.toNat_add, value]
  omega

end Chip

namespace Pair

variable {pair : Pair}

structure Operating (pair : Pair) : Prop where
  master : pair.master.Operating
  slave : pair.slave.Operating
  cascade : pair.master.cascade = bit 2
  identity : (pair.slave.cascade &&& 7).toNat = 2

structure Idle (pair : Pair) : Prop where
  master : pair.master.Idle
  slave : pair.slave.Idle

theorem Operating.congr {other : Pair} (operating : pair.Operating) (master : other.master.settings = pair.master.settings)
    (slave : other.slave.settings = pair.slave.settings) : other.Operating where
  master := operating.master.congr master
  slave := operating.slave.congr slave
  cascade := by
    have told : other.master.settings.cascade = pair.master.settings.cascade := by rw [master]
    exact told.trans operating.cascade
  identity := by
    have told : other.slave.settings.cascade = pair.slave.settings.cascade := by rw [slave]
    exact (congrArg (fun number => (number &&& 7).toNat) told).trans operating.identity

/-- A device asks at this line and can be heard. Line 2 has no device. -/
def Waits (pair : Pair) (line : Nat) : Prop := line < 16 ∧ line ≠ 2 ∧ pair.Requested line ∧ pair.Enabled line

/-- The vector that stands for a line. -/
def vector (pair : Pair) (line : Nat) : Byte :=
  if line < 8 then pair.master.vector line else pair.slave.vector (line - 8)

theorem joined_requests (inside : line < 8) : pair.joined.requests.getLsbD line =
    if line = 2 then pair.slave.next.isSome else pair.master.requests.getLsbD line := by
  rw [joined]
  by_cases cascaded : line = 2
  · rw [if_pos cascaded, cascaded]
    cases pair.slave.next.isSome with
    | true => simp only [if_true, getLsbD_or_bit (show 2 < 8 by decide), decide_true, Bool.or_true]
    | false => simp only [Bool.false_eq_true, if_false, getLsbD_and_not_bit (show 2 < 8 by decide), ne_eq, not_true_eq_false,
        decide_false, Bool.and_false]
  · rw [if_neg cascaded]
    split
    · rw [getLsbD_or_bit inside, decide_eq_false (Ne.symm cascaded), Bool.or_false]
    · rw [getLsbD_and_not_bit inside, decide_eq_true (Ne.symm cascaded), Bool.and_true]

theorem Operating.joined (operating : pair.Operating) : pair.joined.Operating := ⟨operating.master.expects, operating.master.told⟩

theorem Idle.joined (idle : pair.Idle) : pair.joined.Idle := idle.master

theorem waits_low (inside : line < 8) (device : line ≠ 2) :
    pair.Waits line ↔ pair.joined.requests.getLsbD line = true ∧ pair.joined.mask.getLsbD line = false := by
  rw [Waits, Requested, Enabled, if_pos inside, if_pos inside, joined_requests inside, if_neg device]
  exact ⟨fun waits => waits.2.2, fun waits => ⟨by omega, device, waits⟩⟩

theorem waits_high (inside : line < 8) : pair.Waits (line + 8) ↔
    pair.master.mask.getLsbD 2 = false ∧ pair.slave.requests.getLsbD line = true ∧ pair.slave.mask.getLsbD line = false := by
  have high : ¬ line + 8 < 8 := by omega
  rw [Waits, Requested, Enabled, if_neg high, if_neg high, Nat.add_sub_cancel]
  constructor
  · rintro ⟨_, _, requested, through, enabled⟩
    exact ⟨through, requested, enabled⟩
  · rintro ⟨through, requested, enabled⟩
    exact ⟨by omega, by omega, requested, through, enabled⟩

/-- The line the slave would answer for. -/
theorem slave_next (operating : pair.Operating) (idle : pair.Idle) (through : pair.master.mask.getLsbD 2 = false) :
    pair.slave.next = some line ↔ line < 8 ∧ pair.Waits (line + 8) ∧ ∀ before < line, ¬ pair.Waits (before + 8) := by
  rw [Chip.next_eq_some operating.slave idle.slave]
  refine and_congr_right fun inside => ?_
  rw [waits_high inside, and_iff_right through]
  refine and_congr_right fun _ => forall₂_congr fun before below => ?_
  rw [waits_high (Nat.lt_trans below inside)]
  constructor
  · rintro masked ⟨_, requested, enabled⟩
    rw [masked requested] at enabled
    cases enabled
  · intro silent requested
    by_contra enabled
    exact silent ⟨through, requested, Bool.eq_false_of_not_eq_true enabled⟩

theorem slave_asks (operating : pair.Operating) (idle : pair.Idle) (through : pair.master.mask.getLsbD 2 = false) :
    pair.slave.next.isSome = true ↔ ∃ line < 8, pair.Waits (line + 8) := by
  rw [Chip.next_isSome_iff operating.slave idle.slave]
  refine exists_congr fun line => and_congr_right fun inside => ?_
  rw [waits_high inside, and_iff_right through]

/-- With nothing in service every waiting line is heard. -/
theorem intr_iff (operating : pair.Operating) (idle : pair.Idle) : pair.intr = true ↔ ∃ line, pair.Waits line := by
  rw [intr, Chip.next_isSome_iff operating.joined idle.joined]
  constructor
  · rintro ⟨line, inside, requested, enabled⟩
    by_cases cascaded : line = 2
    · rw [joined_requests inside, if_pos cascaded] at requested
      rw [cascaded] at enabled
      obtain ⟨behind, _, waits⟩ := (slave_asks operating idle enabled).mp requested
      exact ⟨behind + 8, waits⟩
    · exact ⟨line, (waits_low inside cascaded).mpr ⟨requested, enabled⟩⟩
  · rintro ⟨line, waits⟩
    by_cases inside : line < 8
    · exact ⟨line, inside, (waits_low inside waits.2.1).mp waits⟩
    · obtain ⟨behind, rfl⟩ := Nat.exists_eq_add_of_le' (Nat.not_lt.mp inside)
      have small : behind < 8 := by have := waits.1; omega
      have through := ((waits_high small).mp waits).1
      refine ⟨2, by decide, ?_, through⟩
      rw [joined_requests (by decide), if_pos rfl]
      exact (slave_asks operating idle through).mpr ⟨behind, small, waits⟩

/-- What acknowledging a line leaves: its request is gone, the other requests and
everything else are as before, and one end of interrupt at the master, and before
it one at the slave for the slave's lines, leaves nothing in service. -/
structure Taken (before after : Pair) (line : Nat) : Prop where
  requested : ∀ other < 16, other ≠ 2 → (after.Requested other ↔ before.Requested other ∧ other ≠ line)
  master : after.master.settings = before.master.settings
  slave : after.slave.settings = before.slave.settings
  masterEnd : after.master.OneEnd
  slaveEnd : after.slave.OneEnd
  slaveIdle : line < 8 → after.slave.Idle

/-- The line that comes first of those that wait. -/
def First (pair : Pair) (line : Nat) : Prop := pair.Waits line ∧ ∀ other, pair.Waits other → rank line ≤ rank other

theorem cascade_getLsbD (operating : pair.Operating) (line : Nat) :
    pair.master.cascade.getLsbD line = decide (line = 2) := by
  rw [operating.cascade, bit, BitVec.getLsbD_twoPow]
  by_cases cascaded : line = 2
  · simp [cascaded]
  · simp [cascaded, Ne.symm cascaded]

theorem firstCycle_of_next (chosen : pair.joined.next = some line) :
    pair.firstCycle = (some line, { pair with master := pair.joined.accept line }) := by
  rw [firstCycle, chosen]

/-- The first cycle alone: nothing changes, or one line of the master is in service. -/
theorem firstCycle_spec (operating : pair.Operating) (idle : pair.Idle) : pair.firstCycle = (none, pair) ∨
    ∃ line < 8, ∃ master, pair.firstCycle = (some line, { pair with master := master }) ∧
      master.settings = pair.master.settings ∧ master.OneEnd := by
  cases chosen : pair.joined.next with
  | none => exact .inl (by rw [firstCycle, chosen])
  | some line =>
      have inside := ((Chip.next_eq_some operating.joined idle.joined).mp chosen).1
      exact .inr ⟨line, inside, _, firstCycle_of_next chosen, rfl, Chip.oneEnd_accept operating.joined idle.joined inside⟩

/-- The second cycle alone, whatever devices have done since the first one. -/
theorem secondCycle_spec (operating : pair.Operating) (idle : pair.slave.Idle) (line : Nat) (inside : line < 8) :
    ∃ irq < 16, ∃ slave, pair.secondCycle (some line) = (pair.vector irq, { pair with slave := slave }) ∧
      slave.settings = pair.slave.settings ∧ slave.OneEnd ∧ (irq < 8 → slave.Idle) := by
  rw [secondCycle]
  by_cases cascaded : line = 2
  · rw [cascade_getLsbD operating, decide_eq_true cascaded, if_pos rfl, if_pos (operating.identity.trans cascaded.symm)]
    cases asks : pair.slave.next with
    | none =>
        refine ⟨15, by decide, pair.slave, ?_, rfl, Chip.oneEnd_of_idle idle, fun _ => idle⟩
        rw [vector, if_neg (by decide)]
    | some behind =>
        have small := ((Chip.next_eq_some operating.slave idle).mp asks).1
        have named : pair.vector (behind + 8) = pair.slave.vector behind := by
          rw [vector, if_neg (by omega), Nat.add_sub_cancel]
        exact ⟨behind + 8, by omega, pair.slave.accept behind, by rw [named], rfl,
          Chip.oneEnd_accept operating.slave idle small, fun low => by omega⟩
  · rw [cascade_getLsbD operating, decide_eq_false cascaded, if_neg Bool.false_ne_true]
    refine ⟨line, by omega, pair.slave, ?_, rfl, Chip.oneEnd_of_idle idle, fun _ => idle⟩
    rw [vector, if_pos inside]

theorem accept_requests (chip : Chip) (inside : other < 8) :
    (chip.accept line).requests.getLsbD other = (chip.requests.getLsbD other && decide (line ≠ other)) :=
  getLsbD_and_not_bit inside

/-- A line of the master's own. -/
theorem acknowledge_low (operating : pair.Operating) (idle : pair.Idle) (device : line ≠ 2)
    (chosen : pair.joined.next = some line) : ∃ after,
    pair.firstCycle.2.secondCycle pair.firstCycle.1 = (pair.vector line, after) ∧ pair.First line ∧ Taken pair after line := by
  obtain ⟨inside, here, earlier⟩ := (Chip.next_eq_some operating.joined idle.joined).mp chosen
  have silent : pair.master.cascade.getLsbD line = false := by
    rw [cascade_getLsbD operating line, decide_eq_false device]
  refine ⟨{ pair with master := pair.joined.accept line }, ?_, ⟨(waits_low inside device).mpr here, fun other waits => ?_⟩, ?_⟩
  · rw [firstCycle_of_next chosen]
    change (if pair.master.cascade.getLsbD line = true then _ else _) = _
    rw [silent, vector, if_pos inside]
    rfl
  · -- A line before it in the order would have been chosen.
    by_contra before
    by_cases low : other < 8
    · have lower : other < line := by
        have apart := waits.2.1
        unfold rank at before
        rw [if_pos low, if_pos inside] at before
        split_ifs at before <;> omega
      have seen := (waits_low low waits.2.1).mp waits
      have masked := earlier other lower seen.1
      rw [seen.2] at masked
      cases masked
    · have lower : 2 < line := by
        have bound := waits.1
        unfold rank at before
        rw [if_neg low, if_pos inside, if_neg (show ¬ other < 2 by omega)] at before
        split_ifs at before <;> omega
      obtain ⟨behind, rfl⟩ := Nat.exists_eq_add_of_le' (Nat.not_lt.mp low)
      have small : behind < 8 := by have := waits.1; omega
      have through := ((waits_high small).mp waits).1
      have asked : pair.joined.requests.getLsbD 2 = true := by
        rw [joined_requests (by decide), if_pos rfl]
        exact (slave_asks operating idle through).mpr ⟨behind, small, waits⟩
      have masked : pair.master.mask.getLsbD 2 = true := earlier 2 lower asked
      rw [through] at masked
      cases masked
  · refine ⟨fun other below apart => ?_, rfl, rfl, Chip.oneEnd_accept operating.joined idle.joined inside,
      Chip.oneEnd_of_idle idle.slave, fun _ => idle.slave⟩
    by_cases low : other < 8
    · rw [Requested, Requested, if_pos low, if_pos low]
      rw [accept_requests _ low, joined_requests low, if_neg apart, Bool.and_eq_true, decide_eq_true_eq]
      exact and_congr_right fun _ => ne_comm
    · rw [Requested, Requested, if_neg low, if_neg low]
      exact (and_iff_left (by omega)).symm

/-- A line of the slave's. -/
theorem acknowledge_high (operating : pair.Operating) (idle : pair.Idle) (chosen : pair.joined.next = some 2) :
    ∃ line after, 8 ≤ line ∧ pair.firstCycle.2.secondCycle pair.firstCycle.1 = (pair.vector line, after) ∧ pair.First line ∧
      Taken pair after line := by
  obtain ⟨_, here, earlier⟩ := (Chip.next_eq_some operating.joined idle.joined).mp chosen
  have through : pair.master.mask.getLsbD 2 = false := here.2
  have asked := here.1
  rw [joined_requests (by decide), if_pos rfl] at asked
  obtain ⟨line, answers⟩ := Option.isSome_iff_exists.mp asked
  obtain ⟨inside, waits, firstBehind⟩ := (slave_next operating idle through).mp answers
  have high : ¬ line + 8 < 8 := by omega
  refine ⟨line + 8, ⟨pair.joined.accept 2, pair.slave.accept line⟩, by omega, ?_, ⟨waits, fun other others => ?_⟩, ?_⟩
  · rw [firstCycle_of_next chosen]
    change (if pair.master.cascade.getLsbD 2 = true then _ else _) = _
    rw [cascade_getLsbD operating 2, decide_eq_true rfl, if_pos rfl]
    change (if (pair.slave.cascade &&& 7).toNat = 2 then _ else _) = _
    rw [if_pos operating.identity]
    change (match pair.slave.next with | none => _ | some behind => _) = _
    rw [answers, vector, if_neg high, Nat.add_sub_cancel]
  · by_contra before
    by_cases low : other < 8
    · have lower : other < 2 := by
        have apart := others.2.1
        unfold rank at before
        rw [if_pos low, if_neg high, if_neg (show ¬ line + 8 < 2 by omega)] at before
        split_ifs at before <;> omega
      have seen := (waits_low low others.2.1).mp others
      have masked := earlier other lower seen.1
      rw [seen.2] at masked
      cases masked
    · obtain ⟨behind, rfl⟩ := Nat.exists_eq_add_of_le' (Nat.not_lt.mp low)
      unfold rank at before
      rw [if_neg low, if_neg high, if_neg (show ¬ behind + 8 < 2 by omega), if_neg (show ¬ line + 8 < 2 by omega)] at before
      exact firstBehind behind (by omega) others
  · refine ⟨fun other below apart => ?_, rfl, rfl, Chip.oneEnd_accept operating.joined idle.joined (by decide),
      Chip.oneEnd_accept operating.slave idle.slave inside, fun low => absurd low high⟩
    by_cases low : other < 8
    · rw [Requested, Requested, if_pos low, if_pos low]
      rw [accept_requests _ low, joined_requests low, if_neg apart, decide_eq_true (Ne.symm apart), Bool.and_true]
      exact (and_iff_left (by omega)).symm
    · obtain ⟨behind, rfl⟩ := Nat.exists_eq_add_of_le' (Nat.not_lt.mp low)
      rw [Requested, Requested, if_neg low, if_neg low, Nat.add_sub_cancel]
      rw [accept_requests _ (by omega), Bool.and_eq_true, decide_eq_true_eq]
      exact and_congr_right fun _ => by omega

/-- With nothing in service the two cycles, one right behind the other, take the
first of the waiting lines. -/
theorem acknowledge_spec (operating : pair.Operating) (idle : pair.Idle) (asks : pair.intr = true) : ∃ line after,
    pair.firstCycle.2.secondCycle pair.firstCycle.1 = (pair.vector line, after) ∧ pair.First line ∧ Taken pair after line := by
  obtain ⟨chosen, here⟩ := Option.isSome_iff_exists.mp asks
  by_cases cascaded : chosen = 2
  · rw [cascaded] at here
    obtain ⟨line, after, _, spec⟩ := acknowledge_high operating idle here
    exact ⟨line, after, spec⟩
  · obtain ⟨after, spec⟩ := acknowledge_low operating idle cascaded here
    exact ⟨chosen, after, spec⟩

instance (pair : Pair) (line : Nat) : Decidable (pair.Requested line) :=
  inferInstanceAs (Decidable (if line < 8 then pair.master.requests.getLsbD line = true else _ = true))

instance (pair : Pair) (line : Nat) : Decidable (pair.Enabled line) :=
  inferInstanceAs (Decidable (if line < 8 then pair.master.mask.getLsbD line = false else _ = false ∧ _ = false))

instance (pair : Pair) (line : Nat) : Decidable (pair.Waits line) := inferInstanceAs (Decidable (_ ∧ _ ∧ _ ∧ _))

/-- All lines with a device, in the order of their priorities. -/
def order : List Nat := [0, 1, 8, 9, 10, 11, 12, 13, 14, 15, 3, 4, 5, 6, 7]

def waiting (pair : Pair) : List Nat := order.filter fun line => pair.Waits line

theorem mem_order : line ∈ order ↔ line < 16 ∧ line ≠ 2 := by
  constructor
  · exact (show ∀ line ∈ order, line < 16 ∧ line ≠ 2 by decide) line
  · rintro ⟨inside, device⟩
    exact (show ∀ line < 16, line ≠ 2 → line ∈ order by decide) line inside device

theorem mem_waiting : line ∈ pair.waiting ↔ pair.Waits line := by
  rw [waiting, List.mem_filter, decide_eq_true_eq, mem_order]
  exact ⟨And.right, fun waits => ⟨⟨waits.1, waits.2.1⟩, waits⟩⟩

/-- What is left when the least of the elements in question is no longer one. -/
theorem filter_eq_cons {least : Nat} {rank : Nat → Nat} {before after : Nat → Bool} {list : List Nat}
    (sorted : list.Pairwise fun first second => rank first < rank second) (member : least ∈ list) (here : before least = true)
    (smallest : ∀ other ∈ list, before other = true → rank least ≤ rank other)
    (rest : ∀ other ∈ list, after other = (before other && decide (other ≠ least))) : list.filter before = least :: list.filter after := by
  induction list with
  | nil => cases member
  | cons head list ih =>
      obtain ⟨above, sorted⟩ := List.pairwise_cons.mp sorted
      have gone := rest head List.mem_cons_self
      by_cases same : head = least
      · have kept : list.filter before = list.filter after := by
          refine List.filter_congr fun other later => ?_
          have different : other ≠ least := by
            rintro rfl
            exact absurd (above other later) (by rw [same]; exact Nat.lt_irrefl _)
          rw [rest other (List.mem_cons_of_mem _ later), decide_eq_true different, Bool.and_true]
        rw [same, decide_eq_false (not_not.mpr rfl), Bool.and_false] at gone
        rw [same, List.filter_cons_of_pos here, List.filter_cons_of_neg (by rw [gone]; exact Bool.false_ne_true), kept]
      · have later : least ∈ list := (List.mem_cons.mp member).resolve_left (Ne.symm same)
        have off : before head = false := by
          by_contra on
          have order := smallest head List.mem_cons_self (Bool.eq_true_of_not_eq_false on)
          exact absurd (above least later) (Nat.not_lt.mpr order)
        rw [off, Bool.false_and] at gone
        rw [List.filter_cons_of_neg (by rw [off]; exact Bool.false_ne_true),
          List.filter_cons_of_neg (by rw [gone]; exact Bool.false_ne_true)]
        exact ih sorted later (fun other member => smallest other (List.mem_cons_of_mem _ member))
          fun other member => rest other (List.mem_cons_of_mem _ member)

/-- A line that is taken waits no more, and the others go on waiting. -/
theorem Taken.waits {after : Pair} {other : Nat} (taken : Taken pair after line) :
    after.Waits other ↔ pair.Waits other ∧ other ≠ line := by
  have enabled : after.Enabled other ↔ pair.Enabled other := by
    have master : after.master.mask = pair.master.mask := by
      change after.master.settings.mask = pair.master.settings.mask
      rw [taken.master]
    have slave : after.slave.mask = pair.slave.mask := by
      change after.slave.settings.mask = pair.slave.settings.mask
      rw [taken.slave]
    rw [Enabled, Enabled, master, slave]
  constructor
  · rintro ⟨inside, device, requested, heard⟩
    obtain ⟨asked, different⟩ := (taken.requested other inside device).mp requested
    exact ⟨⟨inside, device, asked, enabled.mp heard⟩, different⟩
  · rintro ⟨⟨inside, device, requested, heard⟩, different⟩
    exact ⟨inside, device, (taken.requested other inside device).mpr ⟨requested, different⟩, enabled.mpr heard⟩

theorem Taken.waiting {after : Pair} (taken : Taken pair after line) (first : pair.First line) :
    pair.waiting = line :: after.waiting := by
  have sorted : order.Pairwise fun first second => rank first < rank second := by decide
  refine filter_eq_cons sorted (mem_order.mpr ⟨first.1.1, first.1.2.1⟩) (decide_eq_true first.1) ?_ fun other _ => ?_
  · exact fun other _ waits => first.2 other (of_decide_eq_true waits)
  · rw [decide_eq_decide.mpr taken.waits, Bool.decide_and]

end Pair

end ScratchOs.Pic8259
