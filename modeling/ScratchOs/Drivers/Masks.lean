import ScratchOs.Data.Interleaving
import ScratchOs.Drivers.Pic

namespace ScratchOs

open Data Pic8259

/-! `IRQ_set_mask` and `IRQ_clear_mask` read a mask and write it back. An interrupt
handler may call them in between. -/

namespace Mask

inductive Call where
  | irqSetMask (irqLine : Byte)
  | irqClearMask (irqLine : Byte)
deriving DecidableEq, Repr

namespace Call

def irqLine : Call → Byte
  | .irqSetMask irqLine => irqLine
  | .irqClearMask irqLine => irqLine

def masks : Call → Bool
  | .irqSetMask _ => true
  | .irqClearMask _ => false

def port (call : Call) : BitVec 16 := (Pic.maskLine call.irqLine).1

/-- What is written when this has been read. -/
def value (call : Call) (read : Byte) : Byte :=
  match call with
  | .irqSetMask irqLine => read ||| Pic.maskBit (Pic.maskLine irqLine).2
  | .irqClearMask irqLine => read &&& ~~~Pic.maskBit (Pic.maskLine irqLine).2

/-- With nobody in between. -/
def run : Call → Pair → Pair
  | .irqSetMask irqLine => Pic.irqSetMask irqLine
  | .irqClearMask irqLine => Pic.irqClearMask irqLine

def Legal (call : Call) : Prop := call.irqLine.toNat < 16

end Call

/-- The call a write belongs to is for the log. -/
inductive Op where
  | input (port : BitVec 16)
  | out (call : Call) (value : Byte)

@[reducible] def Op.Answer : Op → Type
  | .input _ => Byte
  | .out _ _ => Unit

abbrev Code (α : Type) := Program Op Op.Answer α

def Call.code (call : Call) : Code Unit := do
  let value ← Program.op (Op.input call.port)
  Program.op (Op.out call (call.value value))

def codes : List Call → Code Unit
  | [] => pure ()
  | call :: calls => do
      call.code
      codes calls

inductive Event where
  | read (port : BitVec 16)
  | written (call : Call)
  | handled (call : Call)

/-- The log has the latest event first. -/
structure System where
  pics : Pair
  log : List Event

def execute (op : Op) (system : System) : Option (op.Answer × System) :=
  match op with
  | .input port => some (Pic.maskAt port system.pics, { system with log := .read port :: system.log })
  | .out call value => some ((), ⟨Pic.out ⟨call.port, value⟩ system.pics, .written call :: system.log⟩)

/-- Requests come and are served, or a handler calls one of the two. Handlers are
not interrupted. -/
def environment (_ : Option Op) (system after : System) : Prop :=
  (∃ pics : Pair, pics.master.settings = system.pics.master.settings ∧ pics.slave.settings = system.pics.slave.settings ∧
      after = { system with pics }) ∨
    ∃ call : Call, call.Legal ∧ after = ⟨call.run system.pics, .handled call :: system.log⟩

abbrev Reaches (before after : Code Unit × System) : Prop := Program.Reaches execute environment before after

/-! What becomes of the calls. -/

/-- The port that has been read and is still to be written. -/
def opened : List Event → Option (BitVec 16)
  | [] => none
  | .read port :: _ => some port
  | .written _ :: _ => none
  | .handled _ :: log => opened log

/-- A handler's call is lost between a read and a write of its port. -/
def surviving : List Event → List Call
  | [] => []
  | .read _ :: log => surviving log
  | .written call :: log => call :: surviving log
  | .handled call :: log => if opened log = some call.port then surviving log else call :: surviving log

/-- The program's own calls. -/
def own : List Event → List Call
  | [] => []
  | .written call :: log => call :: own log
  | .read _ :: log => own log
  | .handled _ :: log => own log

/-- The last call for a line decides. -/
def settled (start : Nat → Bool) : List Call → Nat → Bool
  | [], line => start line
  | call :: calls, line => if call.irqLine.toNat = line then call.masks else settled start calls line

def masked (pics : Pair) (line : Nat) : Bool :=
  if line < 8 then pics.master.mask.getLsbD line else pics.slave.mask.getLsbD (line - 8)

def portOf (line : Nat) : BitVec 16 := if line < 8 then Pic.pic1Data else Pic.pic2Data

variable {call : Call} {calls done : List Call} {pics other : Pair} {port : BitVec 16} {value : Byte} {line : Nat}
  {start : Nat → Bool} {system : System} {pending : Option Op} {log : List Event}

theorem own_sublist (log : List Event) : (own log).Sublist (surviving log) := by
  induction log with
  | nil => exact .slnil
  | cons event log ih =>
      cases event with
      | read port => exact ih
      | written call => exact ih.cons_cons call
      | handled call =>
          rw [own, surviving]
          split
          · exact ih
          · exact ih.cons call

/-! One call. -/

theorem Call.run_eq (call : Call) (pics : Pair) :
    call.run pics = Pic.out ⟨call.port, call.value (Pic.maskAt call.port pics)⟩ pics := by
  cases call <;> rfl

theorem run_code (call : Call) (system : System) :
    call.code.run execute system = some ((), ⟨call.run system.pics, .written call :: .read call.port :: system.log⟩) := by
  rw [Call.run_eq]
  rfl

theorem maskLine_eq (irqLine : Byte) (legal : irqLine.toNat < 16) :
    (Pic.maskLine irqLine).1 = portOf irqLine.toNat ∧ Pic.maskBit (Pic.maskLine irqLine).2 = bit (irqLine.toNat % 8) := by
  have each : ∀ number : Fin 16, (Pic.maskLine (BitVec.ofNat 8 number)).1 = portOf number ∧
      Pic.maskBit (Pic.maskLine (BitVec.ofNat 8 number)).2 = bit (number % 8) := by decide
  have here := each ⟨irqLine.toNat, legal⟩
  rwa [BitVec.ofNat_toNat, BitVec.setWidth_eq] at here

theorem Call.Legal.port_eq (legal : call.Legal) : call.port = portOf call.irqLine.toNat := (maskLine_eq call.irqLine legal).1

/-- Of the lines at a port every one has its bit. -/
theorem same_bit {first second : Nat} (firstInside : first < 16) (secondInside : second < 16) (same : portOf first = portOf second) :
    first % 8 = second % 8 ↔ first = second := by
  have apart : Pic.pic1Data ≠ Pic.pic2Data := by decide
  rw [portOf, portOf] at same
  split at same <;> split at same
  · omega
  · exact absurd same apart
  · exact absurd same.symm apart
  · omega

theorem Call.Legal.value_getLsbD (legal : call.Legal) (inside : line < 16) (here : portOf line = call.port) (read : Byte) :
    (call.value read).getLsbD (line % 8) = if call.irqLine.toNat = line then call.masks else read.getLsbD (line % 8) := by
  have small : line % 8 < 8 := Nat.mod_lt line (by decide)
  have same := same_bit legal inside (legal.port_eq.symm.trans here.symm)
  cases call with
  | irqSetMask irqLine =>
      rw [Call.value, (maskLine_eq irqLine legal).2, getLsbD_or_bit small]
      change _ = if irqLine.toNat = line then true else _
      change irqLine.toNat % 8 = line % 8 ↔ irqLine.toNat = line at same
      by_cases equal : irqLine.toNat = line
      · rw [if_pos equal, decide_eq_true (same.mpr equal), Bool.or_true]
      · rw [if_neg equal, decide_eq_false (fun bits => equal (same.mp bits)), Bool.or_false]
  | irqClearMask irqLine =>
      rw [Call.value, (maskLine_eq irqLine legal).2, getLsbD_and_not_bit small]
      change _ = if irqLine.toNat = line then false else _
      change irqLine.toNat % 8 = line % 8 ↔ irqLine.toNat = line at same
      by_cases equal : irqLine.toNat = line
      · rw [if_pos equal, decide_eq_false (not_not.mpr (same.mpr equal)), Bool.and_false]
      · have apart : irqLine.toNat % 8 ≠ line % 8 := fun bits => equal (same.mp bits)
        rw [if_neg equal, decide_eq_true apart, Bool.and_true]

theorem Call.Legal.elsewhere (legal : call.Legal) (apart : portOf line ≠ call.port) : call.irqLine.toNat ≠ line := by
  intro same
  rw [← same, legal.port_eq] at apart
  exact apart rfl

theorem masked_eq (inside : line < 16) (pics : Pair) : masked pics line = (Pic.maskAt (portOf line) pics).getLsbD (line % 8) := by
  rw [masked, portOf]
  split
  · rw [Pic.maskAt, if_pos rfl, Nat.mod_eq_of_lt ‹_›]
  · rw [Pic.maskAt, if_neg (by decide), show line % 8 = line - 8 by omega]

theorem out_data (operating : pics.Operating) (line : Nat) (value : Byte) : Pic.out ⟨portOf line, value⟩ pics =
    if line < 8 then { pics with master := { pics.master with mask := value } }
    else { pics with slave := { pics.slave with mask := value } } := by
  rw [portOf]
  split
  · exact congrArg (fun master => { pics with master }) (Chip.writeData_operating operating.master value)
  · exact congrArg (fun slave => { pics with slave }) (Chip.writeData_operating operating.slave value)

theorem maskAt_out (operating : pics.Operating) (written read : Nat) (value : Byte) :
    Pic.maskAt (portOf read) (Pic.out ⟨portOf written, value⟩ pics) =
      if portOf read = portOf written then value else Pic.maskAt (portOf read) pics := by
  rw [out_data operating, portOf, portOf]
  split
  · split <;> rfl
  · split <;> rfl

theorem masked_out (operating : pics.Operating) (legal : call.Legal) (inside : line < 16) (value : Byte) :
    masked (Pic.out ⟨call.port, value⟩ pics) line = if portOf line = call.port then value.getLsbD (line % 8) else masked pics line := by
  rw [masked_eq inside, masked_eq inside, legal.port_eq, maskAt_out operating]
  split <;> rfl

theorem operating_out (operating : pics.Operating) (legal : call.Legal) (value : Byte) :
    (Pic.out ⟨call.port, value⟩ pics).Operating := by
  rw [legal.port_eq, out_data operating]
  obtain ⟨⟨masterDue, masterMode⟩, ⟨slaveDue, slaveMode⟩, cascade, identity⟩ := operating
  split
  · exact ⟨⟨masterDue, masterMode⟩, ⟨slaveDue, slaveMode⟩, cascade, identity⟩
  · exact ⟨⟨masterDue, masterMode⟩, ⟨slaveDue, slaveMode⟩, cascade, identity⟩

theorem Call.Legal.masked_run (legal : call.Legal) (operating : pics.Operating) (inside : line < 16) :
    masked (call.run pics) line = if call.irqLine.toNat = line then call.masks else masked pics line := by
  rw [Call.run_eq, masked_out operating legal inside]
  by_cases here : portOf line = call.port
  · rw [if_pos here, legal.value_getLsbD inside here, masked_eq inside, here]
  · rw [if_neg here, if_neg (legal.elsewhere here)]

theorem Call.Legal.operating_run (legal : call.Legal) (operating : pics.Operating) : (call.run pics).Operating := by
  rw [Call.run_eq]
  exact operating_out operating legal _

theorem masked_congr (master : other.master.settings = pics.master.settings) (slave : other.slave.settings = pics.slave.settings)
    (line : Nat) : masked other line = masked pics line := by
  have masterMask : other.master.settings.mask = pics.master.settings.mask := by rw [master]
  have slaveMask : other.slave.settings.mask = pics.slave.settings.mask := by rw [slave]
  change other.master.mask = pics.master.mask at masterMask
  change other.slave.mask = pics.slave.mask at slaveMask
  rw [masked, masked, masterMask, slaveMask]

/-! All of them. -/

/-- Between two calls the masks are what the surviving calls make them. -/
structure Rests (start : Nat → Bool) (done : List Call) (system : System) : Prop where
  operating : system.pics.Operating
  closed : opened system.log = none
  own : own system.log = done
  masks : ∀ line < 16, masked system.pics line = settled start (surviving system.log) line

/-- Behind the read the value that was read stands for the masks of its port. -/
structure Holds (start : Nat → Bool) (done : List Call) (port : BitVec 16) (value : Byte) (system : System) : Prop where
  operating : system.pics.Operating
  opened : opened system.log = some port
  own : own system.log = done
  masks : ∀ line < 16, settled start (surviving system.log) line =
    if portOf line = port then value.getLsbD (line % 8) else masked system.pics line

theorem stable_rests : Program.Stable environment pending (Rests start done) := by
  rintro system after ⟨operating, closed, own, masks⟩ (⟨pics, master, slave, rfl⟩ | ⟨call, legal, rfl⟩)
  · refine ⟨operating.congr master slave, closed, own, fun line inside => ?_⟩
    exact (masked_congr master slave line).trans (masks line inside)
  · refine ⟨legal.operating_run operating, closed, own, fun line inside => ?_⟩
    rw [surviving, if_neg (by rw [closed]; exact (Option.some_ne_none call.port).symm), settled, legal.masked_run operating inside, masks line inside]

theorem stable_holds : Program.Stable environment pending (Holds start done port value) := by
  rintro system after ⟨operating, opened, own, masks⟩ (⟨pics, master, slave, rfl⟩ | ⟨call, legal, rfl⟩)
  · refine ⟨operating.congr master slave, opened, own, fun line inside => ?_⟩
    rw [masks line inside, ← masked_congr master slave line]
  · refine ⟨legal.operating_run operating, opened, own, fun line inside => ?_⟩
    rw [surviving, opened, legal.masked_run operating inside]
    by_cases lost : port = call.port
    · rw [if_pos (congrArg some lost), masks line inside]
      by_cases here : portOf line = port
      · rw [if_pos here, if_pos here]
      · rw [lost] at here
        rw [lost, if_neg here, if_neg here, if_neg (legal.elsewhere here)]
    · rw [if_neg (fun same => lost (Option.some.inj same)), settled, masks line inside]
      by_cases here : portOf line = port
      · have apart : portOf line ≠ call.port := fun same => lost (here.symm.trans same)
        rw [if_pos here, if_pos here, if_neg (legal.elsewhere apart)]
      · rw [if_neg here, if_neg here]

theorem Rests.read (rests : Rests start done system) (call : Call) :
    Holds start done call.port (Pic.maskAt call.port system.pics) { system with log := .read call.port :: system.log } where
  operating := rests.operating
  opened := rfl
  own := rests.own
  masks line inside := by
    rw [surviving, ← rests.masks line inside]
    split
    · next here => rw [masked_eq inside, here]
    · rfl

theorem Holds.write (holds : Holds start done call.port value system) (legal : call.Legal) :
    Rests start (call :: done) ⟨Pic.out ⟨call.port, call.value value⟩ system.pics, .written call :: system.log⟩ where
  operating := operating_out holds.operating legal _
  closed := rfl
  own := congrArg (call :: ·) holds.own
  masks line inside := by
    rw [masked_out holds.operating legal inside, surviving, settled, holds.masks line inside]
    by_cases here : portOf line = call.port
    · rw [if_pos here, if_pos here, legal.value_getLsbD inside here]
    · rw [if_neg here, if_neg here, if_neg (legal.elsewhere here)]

theorem ensures_code (legal : call.Legal) :
    Program.Ensures execute environment (Rests start done) call.code fun _ => Rests start (call :: done) := by
  rw [Call.code]
  refine @Program.ensures_op _ _ _ _ _ _ _ _ _ _ (fun value => Holds start done call.port value) stable_rests ?_ fun value => ?_
  · intro system rests
    exact ⟨_, _, rfl, rests.read call⟩
  · refine @Program.ensures_ask _ _ _ _ _ _ _ _ _ _ (fun _ => Rests start (call :: done)) stable_holds ?_ fun _ => ?_
    · intro system holds
      exact ⟨(), _, rfl, holds.write legal⟩
    · exact Program.Ensures.consequence (Program.ensures_done stable_rests) (fun _ rests => rests) fun _ _ ended => ended.2

theorem ensures_codes (legal : ∀ call ∈ calls, call.Legal) :
    Program.Ensures execute environment (Rests start done) (codes calls) fun _ => Rests start (calls.reverse ++ done) := by
  induction calls generalizing done with
  | nil => exact Program.Ensures.consequence (Program.ensures_done stable_rests) (fun _ rests => rests) fun _ _ ended => ended.2
  | cons call calls ih =>
      obtain ⟨first, later⟩ := List.forall_mem_cons.mp legal
      refine Program.ensures_bind (ensures_code first) fun _ => ?_
      rw [List.reverse_cons, List.append_assoc]
      exact ih later

/-- However requests, services and handlers' own calls come in between: the calls of
the program all survive, a handler's call is lost only between the read and the write
of a call at the same controller, and each line ends as the last surviving call for
it says. -/
theorem masks_survive (legal : ∀ call ∈ calls, call.Legal) (operating : pics.Operating) (config : Code Unit × System)
    (reached : Reaches (codes calls, ⟨pics, []⟩) config) :
    Program.Settled execute (fun _ after => own after.log = calls.reverse ∧ (own after.log).Sublist (surviving after.log) ∧
      ∀ line < 16, masked after.pics line = settled (masked pics) (surviving after.log) line) config := by
  have rests : Rests (masked pics) [] ⟨pics, []⟩ := ⟨operating, rfl, rfl, fun _ _ => rfl⟩
  refine Program.Ensures.consequence (ensures_codes legal) (fun _ rests => rests) ?_ _ rests config reached
  rintro _ after ⟨_, _, own, masks⟩
  rw [List.append_nil] at own
  exact ⟨own, own_sublist _, masks⟩

def somePics : Pair := Pic.remapped 0x20 0x28

/-- A handler masks line 3 when line 1 is about to be masked. -/
def lostSystem : System where
  pics := Pic.out ⟨Pic.pic1Data, 2⟩ ((Call.irqSetMask 3).run somePics)
  log := [.written (.irqSetMask 1), .handled (.irqSetMask 3), .read Pic.pic1Data]

theorem lostSystem_reached : Reaches (codes [.irqSetMask 1], ⟨somePics, []⟩) (.done (), lostSystem) := by
  let next (read : Byte) : Code Unit := .ask (Op.out (.irqSetMask 1) ((Call.irqSetMask 1).value read)) fun _ => .done ()
  let asked : System := ⟨somePics, [.read Pic.pic1Data]⟩
  let between : System := ⟨(Call.irqSetMask 3).run somePics, .handled (.irqSetMask 3) :: asked.log⟩
  have begun : codes [.irqSetMask 1] = .ask (Op.input Pic.pic1Data) next := rfl
  have reads : Program.Step execute environment (.ask (Op.input Pic.pic1Data) next, ⟨somePics, []⟩) (next 0, asked) := .operation rfl
  have handles : Program.Step execute environment (next 0, asked) (next 0, between) :=
    .environment (.inr ⟨.irqSetMask 3, by rw [Call.Legal]; decide, rfl⟩)
  have writes : Program.Step execute environment (next 0, between) (.done (), lostSystem) :=
    @Program.Step.operation _ _ _ _ execute environment (Op.out (.irqSetMask 1) 2) (fun _ => .done ()) between () lostSystem rfl
  rw [begun]
  exact .head reads (.head handles (.single writes))

theorem masks_survive_lost : masked lostSystem.pics 1 = true ∧ masked lostSystem.pics 3 = false := by
  have operating : somePics.Operating := ⟨⟨rfl, rfl⟩, ⟨rfl, rfl⟩, by decide, by decide⟩
  have legal : ∀ call ∈ [Call.irqSetMask 1], call.Legal := List.forall_mem_singleton.mpr (by rw [Call.Legal]; decide)
  obtain ⟨_, _, masks⟩ := masks_survive legal operating _ lostSystem_reached
  exact ⟨masks 1 (by decide), masks 3 (by decide)⟩

end Mask

end ScratchOs
