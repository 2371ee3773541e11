import Mathlib.Logic.Relation

namespace ScratchOs.Data

/-! Programs whose state is not theirs alone.

A program asks for one operation after the other. Between its operations an
environment may act on the state, and what it may do can depend on the operation
that is asked for next. -/

inductive Program (Op : Type) (Answer : Op → Type) (α : Type) where
  | done (result : α)
  | ask (op : Op) (next : Answer op → Program Op Answer α)

namespace Program

variable {Op : Type} {Answer : Op → Type} {α β σ : Type}

def bind : Program Op Answer α → (α → Program Op Answer β) → Program Op Answer β
  | .done result, rest => rest result
  | .ask op next, rest => .ask op fun answer => (next answer).bind rest

instance : Monad (Program Op Answer) where
  pure := .done
  bind := bind

def op (op : Op) : Program Op Answer (Answer op) := .ask op .done

/-- The operation that is asked for, if the program has not ended. -/
def head : Program Op Answer α → Option Op
  | .done _ => none
  | .ask op _ => some op

theorem bind_assoc {γ : Type} (program : Program Op Answer α) (first : α → Program Op Answer β)
    (second : β → Program Op Answer γ) :
    program >>= first >>= second = program >>= fun result => first result >>= second := by
  induction program with
  | done result => rfl
  | ask op next ih =>
      change Program.ask op _ = Program.ask op _
      congr 1
      funext answer
      exact ih answer

section Run

variable (execute : (op : Op) → σ → Option (Answer op × σ))

/-- The program without an environment. An operation that fails ends it. -/
def run : Program Op Answer α → σ → Option (α × σ)
  | .done result, state => some (result, state)
  | .ask op next, state => (execute op state).bind fun reply => (next reply.1).run reply.2

theorem run_op (wanted : Op) (state : σ) : (op wanted : Program Op Answer _).run execute state = execute wanted state := by
  rw [op, run]
  cases execute wanted state <;> rfl

theorem run_bind (program : Program Op Answer α) (rest : α → Program Op Answer β) (state : σ) :
    (program >>= rest).run execute state =
      (program.run execute state).bind fun reply => (rest reply.1).run execute reply.2 := by
  induction program generalizing state with
  | done result => rfl
  | ask op next ih =>
      change (execute op state).bind _ = ((execute op state).bind _).bind _
      rw [Option.bind_assoc]
      congr 1
      funext reply
      exact ih reply.1 reply.2

end Run

variable (execute : (op : Op) → σ → Option (Answer op × σ)) (environment : Option Op → σ → σ → Prop)

inductive Step : Program Op Answer α × σ → Program Op Answer α × σ → Prop
  | environment {program state after} : environment program.head state after → Step (program, state) (program, after)
  | operation {op next state answer after} : execute op state = some (answer, after) →
      Step (.ask op next, state) (next answer, after)

def Reaches : Program Op Answer α × σ → Program Op Answer α × σ → Prop :=
  Relation.ReflTransGen (Step execute environment)

/-- The program has ended as it should, or its next operation does not fail. -/
def Settled (after : α → σ → Prop) : Program Op Answer α × σ → Prop
  | (.done result, state) => after result state
  | (.ask op _, state) => (execute op state).isSome

/-- From every state with `before`, in every interleaving, no operation fails
and the program ends only as `after` says. -/
def Ensures (before : σ → Prop) (program : Program Op Answer α) (after : α → σ → Prop) : Prop :=
  ∀ state, before state → ∀ config, Reaches execute environment (program, state) config → Settled execute after config

def Stable (pending : Option Op) (condition : σ → Prop) : Prop :=
  ∀ state after, condition state → environment pending state after → condition after

variable {execute environment} {before before' : σ → Prop} {after after' : α → σ → Prop}

theorem Ensures.consequence {program : Program Op Answer α} (ensures : Ensures execute environment before program after)
    (stronger : ∀ state, before' state → before state) (weaker : ∀ result state, after result state → after' result state) :
    Ensures execute environment before' program after' := by
  intro state holds config reached
  have settled := ensures state (stronger state holds) config reached
  obtain ⟨_ | ⟨op, next⟩, here⟩ := config
  · exact weaker _ _ settled
  · exact settled

theorem ensures_done {result : α} (stable : Stable environment none before) :
    Ensures execute environment before (.done result) fun value state => value = result ∧ before state := by
  intro state holds config reached
  have invariant : config.1 = .done result ∧ before config.2 := by
    induction reached with
    | refl => exact ⟨rfl, holds⟩
    | tail _ last ih =>
        obtain ⟨ended, here⟩ := ih
        cases last with
        | environment acted =>
            dsimp only at ended here
            subst ended
            exact ⟨rfl, stable _ _ here acted⟩
        | operation ran => cases ended
  obtain ⟨program, here⟩ := config
  obtain ⟨rfl, kept⟩ := invariant
  exact ⟨rfl, kept⟩

/-- One operation: the environment keeps `before` until it is done. -/
theorem ensures_ask {op : Op} {next : Answer op → Program Op Answer α} {middle : Answer op → σ → Prop}
    (stable : Stable environment (some op) before)
    (runs : ∀ state, before state → ∃ answer after, execute op state = some (answer, after) ∧ middle answer after)
    (rest : ∀ answer, Ensures execute environment (middle answer) (next answer) after) :
    Ensures execute environment before (.ask op next) after := by
  intro state holds config reached
  -- Either the operation is still asked for, or `rest` speaks about what came after it.
  have invariant : (config.1 = .ask op next ∧ before config.2) ∨
      ∃ answer start, middle answer start ∧ Reaches execute environment (next answer, start) config := by
    induction reached with
    | refl => exact .inl ⟨rfl, holds⟩
    | tail _ last ih =>
        rcases ih with ⟨waiting, here⟩ | ⟨answer, start, met, reached⟩
        · cases last with
          | environment acted =>
              dsimp only at waiting here
              subst waiting
              exact .inl ⟨rfl, stable _ _ here acted⟩
          | operation ran =>
              dsimp only at waiting here
              cases waiting
              obtain ⟨answer, done, expected, met⟩ := runs _ here
              cases ran.symm.trans expected
              exact .inr ⟨_, _, met, .refl⟩
        · exact .inr ⟨answer, start, met, reached.tail last⟩
  rcases invariant with ⟨waiting, here⟩ | ⟨answer, start, met, reached⟩
  · obtain ⟨program, kept⟩ := config
    obtain rfl : program = .ask op next := waiting
    obtain ⟨answer, done, ran, _⟩ := runs kept here
    rw [Settled, ran]
    rfl
  · exact rest answer start met config reached

theorem ensures_op {op : Op} {next : Answer op → Program Op Answer α} {middle : Answer op → σ → Prop}
    (stable : Stable environment (some op) before)
    (runs : ∀ state, before state → ∃ answer after, execute op state = some (answer, after) ∧ middle answer after)
    (rest : ∀ answer, Ensures execute environment (middle answer) (next answer) after) :
    Ensures execute environment before (Program.op op >>= next) after :=
  ensures_ask stable runs rest

theorem ensures_bind {program : Program Op Answer α} {rest : α → Program Op Answer β} {middle : α → σ → Prop}
    {after : β → σ → Prop} (first : Ensures execute environment before program middle)
    (second : ∀ result, Ensures execute environment (middle result) (rest result) after) :
    Ensures execute environment before (program >>= rest) after := by
  intro state holds config reached
  have invariant : (∃ left here, Reaches execute environment (program, state) (left, here) ∧
        config = (left >>= rest, here)) ∨
      ∃ result start, middle result start ∧ Reaches execute environment (rest result, start) config := by
    induction reached with
    | refl => exact .inl ⟨program, state, .refl, rfl⟩
    | tail _ last ih =>
        rcases ih with ⟨left, here, reached, rfl⟩ | ⟨result, start, met, reached⟩
        · cases left with
          | done result => exact .inr ⟨result, here, first _ holds _ reached, .single last⟩
          | ask op next =>
              cases last with
              | environment acted => exact .inl ⟨_, _, reached.tail (.environment acted), rfl⟩
              | operation ran => exact .inl ⟨_, _, reached.tail (.operation ran), rfl⟩
        · exact .inr ⟨result, start, met, reached.tail last⟩
  rcases invariant with ⟨left, here, partway, rfl⟩ | ⟨result, start, met, partway⟩
  · cases left with
    | done result => exact second result here (first _ holds _ partway) _ .refl
    | ask op next => exact first _ holds _ partway
  · exact second result start met config partway

/-- What a program that does not fail comes to when it is left alone. -/
theorem Ensures.finishes {program : Program Op Answer α} {state : σ}
    (ensures : Ensures execute environment before program after) (holds : before state) :
    ∃ result final, Reaches execute environment (program, state) (.done result, final) ∧ after result final := by
  suffices general : ∀ left here, Reaches execute environment (program, state) (left, here) →
      ∃ result final, Reaches execute environment (program, state) (.done result, final) from
    have ⟨result, final, reached⟩ := general program state .refl
    ⟨result, final, reached, ensures state holds _ reached⟩
  intro left
  induction left with
  | done result => exact fun here reached => ⟨result, here, reached⟩
  | ask op next ih =>
      intro here reached
      obtain ⟨⟨answer, kept⟩, ran⟩ := Option.isSome_iff_exists.mp (ensures state holds _ reached)
      exact ih answer kept (reached.tail (.operation ran))

end Program

end ScratchOs.Data
