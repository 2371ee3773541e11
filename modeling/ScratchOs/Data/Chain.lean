import Mathlib.Data.List.Nodup

namespace ScratchOs.Data

/-! Null-terminated chains of nodes.

`Chain null next head nodes` says that following `next` from `head` visits
exactly `nodes` and then meets `null`. The node contents live elsewhere; a store
into one node changes `next` at one place, and the lemmas below say what that
does to the list of nodes.
-/

variable {α : Type*}

def Chain (null : α) (next : α → α) : α → List α → Prop
  | head, [] => head = null
  | head, node :: rest => head = node ∧ node ≠ null ∧ Chain null next (next node) rest

namespace Chain

variable {null head node fresh : α} {next next' : α → α} {nodes before after : List α}

theorem ne_null (chain : Chain null next head nodes) (member : node ∈ nodes) : node ≠ null := by
  induction nodes generalizing head with
  | nil => simp at member
  | cons first rest ih =>
      obtain ⟨_, nonnull, tail⟩ := chain
      rcases List.mem_cons.mp member with rfl | member
      · exact nonnull
      · exact ih tail member

theorem unique {other : List α} (left : Chain null next head nodes)
    (right : Chain null next head other) : nodes = other := by
  induction nodes generalizing head other with
  | nil =>
      cases other with
      | nil => rfl
      | cons second rest => exact absurd (right.1.symm.trans left) right.2.1
  | cons first rest ih =>
      cases other with
      | nil => exact absurd (left.1.symm.trans right) left.2.1
      | cons second others =>
          obtain ⟨rfl, _, leftTail⟩ := left
          obtain ⟨rfl, _, rightTail⟩ := right
          rw [ih leftTail rightTail]

theorem congr (same : ∀ node ∈ nodes, next' node = next node) (chain : Chain null next head nodes) :
    Chain null next' head nodes := by
  induction nodes generalizing head with
  | nil => exact chain
  | cons first rest ih =>
      obtain ⟨rfl, nonnull, tail⟩ := chain
      refine ⟨rfl, nonnull, ?_⟩
      rw [same head (by simp)]
      exact ih (fun node member => same node (by simp [member])) tail

theorem head_unique {other : α} (left : Chain null next head nodes) (right : Chain null next' other nodes) :
    head = other := by
  cases nodes with
  | nil => exact left.trans right.symm
  | cons first rest => exact left.1.trans right.1.symm

/-- The order of the nodes fixes their links. -/
theorem next_unique {other : α} (left : Chain null next head nodes) (right : Chain null next' other nodes)
    (member : node ∈ nodes) : next node = next' node := by
  induction nodes generalizing head other with
  | nil => simp at member
  | cons first rest ih =>
      obtain ⟨rfl, _, leftTail⟩ := left
      obtain ⟨rfl, _, rightTail⟩ := right
      rcases List.mem_cons.mp member with rfl | later
      · exact leftTail.head_unique rightTail
      · exact ih leftTail rightTail later

/-- A chain that has begun goes on behind its head. -/
theorem tail (chain : Chain null next head nodes) (nonnull : head ≠ null) :
    ∃ rest, Chain null next (next head) rest := by
  cases nodes with
  | nil => exact absurd chain nonnull
  | cons first rest =>
      obtain ⟨rfl, _, following⟩ := chain
      exact ⟨rest, following⟩

theorem not_loop (chain : Chain null next head nodes) (nonnull : head ≠ null) : next head ≠ head := by
  intro loop
  induction nodes with
  | nil => exact nonnull chain
  | cons first rest ih =>
      obtain ⟨rfl, _, following⟩ := chain
      rw [loop] at following
      exact ih following

theorem tail_at (chain : Chain null next head (before ++ node :: after)) :
    Chain null next (next node) after := by
  induction before generalizing head with
  | nil => exact chain.2.2
  | cons first rest ih => exact ih chain.2.2

/-- Replacing what follows `node`: the nodes before it keep their links. -/
theorem replace_tail {tail : List α} (chain : Chain null next head (before ++ node :: after))
    (same : ∀ other ∈ before, next' other = next other)
    (rest : Chain null next' (next' node) tail) : Chain null next' head (before ++ node :: tail) := by
  induction before generalizing head with
  | nil => exact ⟨chain.1, chain.2.1, rest⟩
  | cons first others ih =>
      obtain ⟨rfl, nonnull, following⟩ := chain
      refine ⟨rfl, nonnull, ?_⟩
      rw [same head (by simp)]
      exact ih following (fun other member => same other (by simp [member]))

/-- Linking a fresh node in behind `node`. -/
theorem insert_after (chain : Chain null next head (before ++ node :: after))
    (nonnull : fresh ≠ null) (linked : next' node = fresh) (onward : next' fresh = next node)
    (same : ∀ other ∈ before ++ after, next' other = next other) :
    Chain null next' head (before ++ node :: fresh :: after) := by
  apply chain.replace_tail (fun other member => same other (by simp [member]))
  refine ⟨linked, nonnull, ?_⟩
  rw [onward]
  exact chain.tail_at.congr (fun other member => same other (by simp [member]))

/-- Unlinking the node behind `node`. -/
theorem remove_after (chain : Chain null next head (before ++ node :: fresh :: after))
    (linked : next' node = next fresh) (same : ∀ other ∈ before ++ after, next' other = next other) :
    Chain null next' head (before ++ node :: after) := by
  apply chain.replace_tail (fun other member => same other (by simp [member]))
  rw [linked]
  exact chain.tail_at.2.2.congr (fun other member => same other (by simp [member]))

theorem next_eq_head (chain : Chain null next head (before ++ node :: fresh :: after)) :
    next node = fresh := chain.tail_at.1

theorem next_eq_null (chain : Chain null next head (before ++ [node])) : next node = null := chain.tail_at

end Chain

end ScratchOs.Data
