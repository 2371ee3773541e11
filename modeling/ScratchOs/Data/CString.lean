import ScratchOs.Data.ByteMemory

namespace ScratchOs.Data

/-! C strings: bytes that end with a zero, read by their positions. -/

/-- From `start` on stand the characters of the text and then the terminator. -/
def NulTerminated (bytes : Nat → Byte) (start : Nat) : List Byte → Prop
  | [] => bytes start = 0
  | character :: rest => bytes start = character ∧ character ≠ 0 ∧ NulTerminated bytes (start + 1) rest

/-- The text with nothing but zeros behind it. -/
def zeroPadded (text : List Byte) (index : Nat) : Byte := text[index]?.getD 0

theorem zeroPadded_nulTerminated {text : List Byte} (nonzero : ∀ character ∈ text, character ≠ 0) :
    NulTerminated (zeroPadded text) 0 text := by
  have behind : ∀ before rest, text = before ++ rest → NulTerminated (zeroPadded text) before.length rest := by
    intro before rest
    induction rest generalizing before with
    | nil =>
        rintro split
        rw [List.append_nil] at split
        simp [NulTerminated, zeroPadded, split]
    | cons character rest ih =>
        intro split
        refine ⟨by simp [zeroPadded, split], nonzero character (by simp [split]), ?_⟩
        have later := ih (before ++ [character]) (by rw [split, List.append_assoc]; rfl)
        rwa [List.length_append] at later
  exact behind [] text rfl

end ScratchOs.Data
