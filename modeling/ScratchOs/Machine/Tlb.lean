import ScratchOs.Data.Interleaving
import Mathlib.Data.Set.Function

namespace ScratchOs

open Data

/-! Translation caches.

Pages are translated through tables that are part of the state. The processor
keeps translations it has found and uses them until they are dropped, whatever
has become of the tables. It may drop one at any time, and it may look up pages
nobody has asked for yet. -/

structure Translated (σ Page Frame Op : Type) (Answer : Op → Type) where
  walk : σ → Page → Option Frame
  /-- The pages an operation goes through. -/
  pages : Op → Set Page
  /-- The pages whose translations it drops. -/
  drops : Op → Page → Bool
  act : (op : Op) → (Page → Option Frame) → σ → Option (Answer op × σ)
  act_congr : ∀ {op left right} state, Set.EqOn left right (pages op) → act op left state = act op right state

structure Cached (σ Page Frame : Type) where
  state : σ
  cache : Page → Option Frame

namespace Translated

variable {σ Page Frame Op : Type} {Answer : Op → Type} (system : Translated σ Page Frame Op Answer)

/-- An operation without a cache. -/
def execute (op : Op) (state : σ) : Option (Answer op × σ) := system.act op (system.walk state) state

def lookup (cached : Cached σ Page Frame) (page : Page) : Option Frame :=
  (cached.cache page).or (system.walk cached.state page)

def cachedExecute (op : Op) (cached : Cached σ Page Frame) : Option (Answer op × Cached σ Page Frame) :=
  (system.act op (system.lookup cached) cached.state).map fun reply =>
    (reply.1, ⟨reply.2, fun page => if system.drops op page then none else cached.cache page⟩)

/-- The tables as they are, and no cached translation but those allowed. -/
structure Holds (state : σ) (allowed : Page → Frame → Prop) (cached : Cached σ Page Frame) : Prop where
  state : cached.state = state
  allowed : ∀ page frame, cached.cache page = some frame → allowed page frame

def Current (state : σ) (page : Page) (frame : Frame) : Prop := system.walk state page = some frame

abbrev Coherent (cached : Cached σ Page Frame) : Prop := Holds cached.state (system.Current cached.state) cached

variable {system} {state state' : σ} {allowed allowed' : Page → Frame → Prop}

theorem lookup_of_coherent {cached : Cached σ Page Frame} (coherent : system.Coherent cached) (page : Page) :
    system.lookup cached page = system.walk cached.state page := by
  cases found : cached.cache page with
  | none => rw [lookup, found, Option.none_or]
  | some frame => rw [lookup, found, Option.some_or, ← coherent.allowed page frame found]

theorem Holds.mono {cached : Cached σ Page Frame} (holds : Holds state allowed cached)
    (weaker : ∀ page frame, allowed page frame → allowed' page frame) : Holds state allowed' cached :=
  ⟨holds.state, fun page frame found => weaker page frame (holds.allowed page frame found)⟩

variable (system) [DecidableEq Page]

/-- The pages the processor may look up now: those of `ahead` at any time, and
those of the operation it is about to do. -/
def Wanted (ahead : Set Page) (pending : Option Op) (page : Page) : Prop :=
  page ∈ ahead ∨ ∃ op, pending = some op ∧ page ∈ system.pages op

inductive Refill (ahead : Set Page) (pending : Option Op) : Cached σ Page Frame → Cached σ Page Frame → Prop
  | evict {cached} (page : Page) : Refill ahead pending cached
      { cached with cache := Function.update cached.cache page none }
  | fetch {cached page frame} : system.Wanted ahead pending page → system.walk cached.state page = some frame →
      Refill ahead pending cached { cached with cache := Function.update cached.cache page (some frame) }

abbrev Ensures {α : Type} (ahead : Set Page) (before : Cached σ Page Frame → Prop) (program : Program Op Answer α)
    (after : α → Cached σ Page Frame → Prop) : Prop :=
  Program.Ensures system.cachedExecute (system.Refill ahead) before program after

/-- With the cache the program does what it does without one, and leaves the
cache coherent. -/
def Agrees {α : Type} (ahead : Set Page) (program : Program Op Answer α) (state : σ) : Prop :=
  system.Ensures ahead (Holds state (system.Current state)) program fun result cached =>
    program.run system.execute state = some (result, cached.state) ∧ system.Coherent cached

variable {system} {ahead : Set Page} {op : Op} {α β : Type} {after : α → Cached σ Page Frame → Prop}

theorem stable_holds {pending : Option Op}
    (fetched : ∀ page frame, system.Wanted ahead pending page → system.walk state page = some frame → allowed page frame) :
    Program.Stable (system.Refill ahead) pending (Holds state allowed) := by
  intro cached after holds acted
  cases acted with
  | evict page =>
      refine ⟨holds.state, fun other frame found => ?_⟩
      dsimp only at found
      by_cases same : other = page
      · simp [same] at found
      · rw [Function.update_of_ne same] at found
        exact holds.allowed other frame found
  | @fetch page frame wanted walked =>
      refine ⟨holds.state, fun other frame' found => ?_⟩
      dsimp only at found
      by_cases same : other = page
      · subst same
        rw [Function.update_self] at found
        cases found
        exact fetched _ _ wanted (holds.state ▸ walked)
      · rw [Function.update_of_ne same] at found
        exact holds.allowed other frame' found

/-- One operation. What may be fetched is allowed, what the operation uses is
what the tables say, and what is not dropped is allowed afterwards. -/
theorem ensures_ask {answer : Answer op} {next : Answer op → Program Op Answer α}
    (runs : system.execute op state = some (answer, state'))
    (fetched : ∀ page frame, system.Wanted ahead (some op) page → system.walk state page = some frame → allowed page frame)
    (used : ∀ page frame, page ∈ system.pages op → allowed page frame → system.walk state page = some frame)
    (kept : ∀ page frame, system.drops op page = false → allowed page frame → allowed' page frame)
    (rest : system.Ensures ahead (Holds state' allowed') (next answer) after) :
    system.Ensures ahead (Holds state allowed) (.ask op next) after := by
  refine @Program.ensures_ask _ _ _ _ _ _ _ _ _ _
    (fun reply cached => reply = answer ∧ Holds state' allowed' cached) (stable_holds fetched) ?_ ?_
  · rintro cached ⟨rfl, inside⟩
    have same : Set.EqOn (system.lookup cached) (system.walk cached.state) (system.pages op) := by
      intro page member
      cases found : cached.cache page with
      | none => rw [lookup, found, Option.none_or]
      | some frame => rw [lookup, found, Option.some_or, used page frame member (inside page frame found)]
    refine ⟨answer, ⟨state', fun page => if system.drops op page then none else cached.cache page⟩, ?_, rfl, rfl, ?_⟩
    · rw [cachedExecute, system.act_congr cached.state same]
      exact congrArg (Option.map _) runs
    · intro page frame found
      dsimp only at found
      split at found
      · cases found
      · next left => exact kept page frame (Bool.eq_false_of_not_eq_true left) (inside page frame found)
  · intro reply cached met config reached
    obtain ⟨rfl, holds⟩ := met
    exact rest cached holds config reached

theorem agrees_done (result : α) : system.Agrees ahead (.done result) state := by
  refine Program.Ensures.consequence (Program.ensures_done (stable_holds fun page frame _ walked => walked))
    (fun _ holds => holds) ?_
  rintro value cached ⟨rfl, holds⟩
  obtain ⟨rfl, inside⟩ := holds
  exact ⟨rfl, rfl, inside⟩

/-- An operation after which every translation that is kept is still there. -/
theorem agrees_ask {answer : Answer op} {next : Answer op → Program Op Answer α}
    (runs : system.execute op state = some (answer, state'))
    (kept : ∀ page frame, system.drops op page = false → system.walk state page = some frame →
      system.walk state' page = some frame)
    (rest : system.Agrees ahead (next answer) state') : system.Agrees ahead (.ask op next) state := by
  refine ensures_ask runs (fun page frame _ walked => walked) (fun page frame _ current => current) kept
    (Program.Ensures.consequence rest (fun _ holds => holds) ?_)
  rintro result cached ⟨run, coherent⟩
  refine ⟨?_, coherent⟩
  rw [Program.run, runs]
  exact run

theorem agrees_bind {program : Program Op Answer α} {rest : α → Program Op Answer β}
    (first : system.Agrees ahead program state)
    (second : ∀ result middle, program.run system.execute state = some (result, middle) →
      system.Agrees ahead (rest result) middle) : system.Agrees ahead (program >>= rest) state := by
  refine Program.ensures_bind first fun result => ?_
  rintro cached ⟨run, coherent⟩ config reached
  refine Program.Ensures.consequence (second result cached.state run) (fun _ holds => holds) ?_ cached coherent config
    reached
  rintro value final ⟨again, coherentAfter⟩
  refine ⟨?_, coherentAfter⟩
  rw [Program.run_bind, run]
  exact again

/-- An interleaving that has ended, against the run without a cache. -/
theorem Agrees.result {program : Program Op Answer α} {cached final : Cached σ Page Frame} {result : α}
    (agrees : system.Agrees ahead program cached.state) (coherent : system.Coherent cached)
    (reached : Program.Reaches system.cachedExecute (system.Refill ahead) (program, cached) (.done result, final)) :
    program.run system.execute cached.state = some (result, final.state) ∧ system.Coherent final :=
  agrees cached coherent _ reached

/-- The program never goes through the page and never drops it. -/
def Avoids (system : Translated σ Page Frame Op Answer) (page : Page) : Program Op Answer α → Prop
  | .done _ => True
  | .ask op next => page ∉ system.pages op ∧ system.drops op page = false ∧ ∀ answer, Avoids system page (next answer)

omit [DecidableEq Page] in
theorem Avoids.bind {page : Page} {program : Program Op Answer α} {rest : α → Program Op Answer β}
    (first : system.Avoids page program) (second : ∀ result, system.Avoids page (rest result)) :
    system.Avoids page (program >>= rest) := by
  induction program with
  | done result => exact second result
  | ask op next ih => exact ⟨first.1, first.2.1, fun answer => ih answer (first.2.2 answer)⟩

omit [DecidableEq Page] in
/-- A program left alone does not notice a cached page it avoids, and the page
stays cached. -/
theorem Avoids.reaches {environment : Option Op → Cached σ Page Frame → Cached σ Page Frame → Prop} {page : Page}
    {program : Program Op Answer α} {cache : Page → Option Frame} {result : α} {final : σ}
    (avoids : system.Avoids page program) (only : ∀ other, other ≠ page → cache other = none)
    (ran : program.run system.execute state = some (result, final)) :
    Program.Reaches system.cachedExecute environment (program, ⟨state, cache⟩) (.done result, ⟨final, cache⟩) := by
  induction program generalizing state with
  | done result =>
      cases ran
      exact .refl
  | ask op next ih =>
      obtain ⟨⟨answer, middle⟩, first, rest⟩ := Option.bind_eq_some_iff.mp ran
      obtain ⟨notUsed, notDropped, after⟩ := avoids
      have same : Set.EqOn (system.lookup ⟨state, cache⟩) (system.walk state) (system.pages op) := by
        intro other member
        have absent := only other fun here => notUsed (here ▸ member)
        exact (congrArg (fun held => Option.or held (system.walk state other)) absent).trans (Option.none_or ..)
      have kept : (fun other => if system.drops op other then none else cache other) = cache := by
        funext other
        by_cases here : other = page
        · rw [here, notDropped]
          rfl
        · rw [only other here, ite_self]
      refine .head (.operation ?_) (ih answer (after answer) rest)
      rw [cachedExecute, system.act_congr state same]
      refine (congrArg (Option.map _) first).trans ?_
      rw [Option.map_some, kept]

end Translated

end ScratchOs
