import Mathlib.Data.List.Induction
import ScratchOs.Data.ByteMemory

namespace ScratchOs

open Data

/-! `drivers/keyboard.c`: scan codes in, characters out. -/

namespace Keyboard

def UNKNOWN : Word := 0xFFFFFFFF
def ESC : Word := 0xFFFFFFFF - 1
def CTRL : Word := 0xFFFFFFFF - 2
def LSHFT : Word := 0xFFFFFFFF - 3
def RSHFT : Word := 0xFFFFFFFF - 4
def ALT : Word := 0xFFFFFFFF - 5
def F1 : Word := 0xFFFFFFFF - 6
def F2 : Word := 0xFFFFFFFF - 7
def F3 : Word := 0xFFFFFFFF - 8
def F4 : Word := 0xFFFFFFFF - 9
def F5 : Word := 0xFFFFFFFF - 10
def F6 : Word := 0xFFFFFFFF - 11
def F7 : Word := 0xFFFFFFFF - 12
def F8 : Word := 0xFFFFFFFF - 13
def F9 : Word := 0xFFFFFFFF - 14
def F10 : Word := 0xFFFFFFFF - 15
def F11 : Word := 0xFFFFFFFF - 16
def F12 : Word := 0xFFFFFFFF - 17
def SCRLCK : Word := 0xFFFFFFFF - 18
def HOME : Word := 0xFFFFFFFF - 19
def UP : Word := 0xFFFFFFFF - 20
def LEFT : Word := 0xFFFFFFFF - 21
def RIGHT : Word := 0xFFFFFFFF - 22
def DOWN : Word := 0xFFFFFFFF - 23
def PGUP : Word := 0xFFFFFFFF - 24
def PGDOWN : Word := 0xFFFFFFFF - 25
def END : Word := 0xFFFFFFFF - 26
def INS : Word := 0xFFFFFFFF - 27
def DEL : Word := 0xFFFFFFFF - 28
def CAPS : Word := 0xFFFFFFFF - 29
def NUMLCK : Word := 0xFFFFFFFF - 32

instance : Coe Char Word := ⟨fun letter => BitVec.ofNat 32 letter.toNat⟩

def backspace : Word := 0x08
def singleQuote : Word := 0x27
def doubleQuote : Word := 0x22
def backquote : Word := 0x60
def leftBrace : Word := 0x7B
def rightBrace : Word := 0x7D

def lowercase : List Word := List.flatten [
  [UNKNOWN,     ESC,       '1',     '2',     '3',     '4',     '5',       '6'],
  ['7',         '8',       '9',     '0',     '-',     '=',     backspace, '\t'],
  ['q',         'w',       'e',     'r',     't',     'y',     'u',       'i'],
  ['o',         'p',       '[',     ']',     '\n',    CTRL,    'a',       's'],
  ['d',         'f',       'g',     'h',     'j',     'k',     'l',       ';'],
  [singleQuote, backquote, LSHFT,   '\\',    'z',     'x',     'c',       'v'],
  ['b',         'n',       'm',     ',',     '.',     '/',     RSHFT,     '*'],
  [ALT,         ' ',       CAPS,    F1,      F2,      F3,      F4,        F5],
  [F6,          F7,        F8,      F9,      F10,     NUMLCK,  SCRLCK,    HOME],
  [UP,          PGUP,      '-',     LEFT,    UNKNOWN, RIGHT,   '+',       END],
  [DOWN,        PGDOWN,    INS,     DEL,     UNKNOWN, UNKNOWN, UNKNOWN,   F11],
  [F12,         UNKNOWN,   UNKNOWN, UNKNOWN, UNKNOWN, UNKNOWN, UNKNOWN,   UNKNOWN],
  [UNKNOWN,     UNKNOWN,   UNKNOWN, UNKNOWN, UNKNOWN, UNKNOWN, UNKNOWN,   UNKNOWN],
  [UNKNOWN,     UNKNOWN,   UNKNOWN, UNKNOWN, UNKNOWN, UNKNOWN, UNKNOWN,   UNKNOWN],
  [UNKNOWN,     UNKNOWN,   UNKNOWN, UNKNOWN, UNKNOWN, UNKNOWN, UNKNOWN,   UNKNOWN],
  [UNKNOWN,     UNKNOWN,   UNKNOWN, UNKNOWN, UNKNOWN, UNKNOWN, UNKNOWN,   UNKNOWN]]

def uppercase : List Word := List.flatten [
  [UNKNOWN,     ESC,       '!',     '@',     '#',     '$',     '%',       '^'],
  ['&',         '*',       '(',     ')',     '_',     '+',     backspace, '\t'],
  ['Q',         'W',       'E',     'R',     'T',     'Y',     'U',       'I'],
  ['O',         'P',       leftBrace, rightBrace, '\n', CTRL,  'A',       'S'],
  ['D',         'F',       'G',     'H',     'J',     'K',     'L',       ':'],
  [doubleQuote, '~',       LSHFT,   '|',     'Z',     'X',     'C',       'V'],
  ['B',         'N',       'M',     '<',     '>',     '?',     RSHFT,     '*'],
  [ALT,         ' ',       CAPS,    F1,      F2,      F3,      F4,        F5],
  [F6,          F7,        F8,      F9,      F10,     NUMLCK,  SCRLCK,    HOME],
  [UP,          PGUP,      '-',     LEFT,    UNKNOWN, RIGHT,   '+',       END],
  [DOWN,        PGDOWN,    INS,     DEL,     UNKNOWN, UNKNOWN, UNKNOWN,   F11],
  [F12,         UNKNOWN,   UNKNOWN, UNKNOWN, UNKNOWN, UNKNOWN, UNKNOWN,   UNKNOWN],
  [UNKNOWN,     UNKNOWN,   UNKNOWN, UNKNOWN, UNKNOWN, UNKNOWN, UNKNOWN,   UNKNOWN],
  [UNKNOWN,     UNKNOWN,   UNKNOWN, UNKNOWN, UNKNOWN, UNKNOWN, UNKNOWN,   UNKNOWN],
  [UNKNOWN,     UNKNOWN,   UNKNOWN, UNKNOWN, UNKNOWN, UNKNOWN, UNKNOWN,   UNKNOWN],
  [UNKNOWN,     UNKNOWN,   UNKNOWN, UNKNOWN, UNKNOWN, UNKNOWN, UNKNOWN,   UNKNOWN]]

inductive Table where
  | lowercase
  | uppercase
deriving DecidableEq

def Table.entry : Table → Byte → Word
  | .lowercase, scanCode => Keyboard.lowercase.getD scanCode.toNat 0
  | .uppercase, scanCode => Keyboard.uppercase.getD scanCode.toNat 0

/-- The argument of `printf("%c", ...)` and the table it was read from. -/
structure Emission where
  table : Table
  value : Word
deriving DecidableEq

structure State where
  capsOn : Bool
  capsLock : Bool
deriving DecidableEq

/-- The cases of the switch that do nothing. -/
def silentCases : List Byte := [1, 29, 56, 59, 60, 61, 62, 63, 64, 65, 66, 67, 68, 87, 88]

def keyboardHandler (byte : Byte) (state : State) : State × Option Emission :=
  let scanCode := byte &&& 0x7F
  let press := byte &&& 0x80
  if scanCode ∈ silentCases then (state, none)
  else if scanCode = 42 then ({ state with capsOn := press = 0 }, none)
  else if scanCode = 58 then
    if press = 0 then ({ state with capsLock := !state.capsLock }, none) else (state, none)
  else if press = 0 then
    let table := if state.capsOn || state.capsLock then Table.uppercase else Table.lowercase
    (state, some ⟨table, table.entry scanCode⟩)
  else (state, none)

def handled (bytes : List Byte) : State :=
  bytes.foldl (fun state byte => (keyboardHandler byte state).1) ⟨false, false⟩

/-! What a keyboard is asked for: the keys held, and the characters they give. -/

/-- The last byte a key sent was its make code. -/
def held (key : Byte) (bytes : List Byte) : Bool :=
  (bytes.filter (fun byte => byte &&& 0x7F = key)).getLast? = some key

def leftShift : Byte := 42
def rightShift : Byte := 54
def capsLockKey : Byte := 58

def Shifted (bytes : List Byte) : Prop :=
  held leftShift bytes = true ∨ held rightShift bytes = true ∨ bytes.count capsLockKey % 2 = 1

/-- The sentinels are the values from `NUMLCK` up. -/
abbrev Sentinel (value : Word) : Prop := NUMLCK ≤ value

/-- What comes out for a byte is a character of a pressed key, in the case that
the keys held ask for. -/
def Faithful (before : List Byte) (byte : Byte) : Prop :=
  ∀ emission, (keyboardHandler byte (handled before)).2 = some emission →
    byte.toNat < 128 ∧ emission.value = emission.table.entry byte ∧ ¬ Sentinel emission.value ∧
      (emission.table = .uppercase ↔ Shifted (before ++ [byte]))

/-- The make codes that have a sentinel in the tables and no case in the switch. -/
abbrev Stray (byte : Byte) : Prop :=
  byte = 0 ∨ byte = rightShift ∨ 69 ≤ byte ∧ byte ≤ 73 ∨ 75 ≤ byte ∧ byte ≤ 77 ∨ 79 ≤ byte ∧ byte ≤ 86 ∨
    89 ≤ byte ∧ byte ≤ 127

/-! The tables against the switch. -/

def tableFor (upper : Bool) : Table := if upper then .uppercase else .lowercase

theorem stray_entries : ∀ byte : Byte, Stray byte →
    byte &&& 0x7F = byte ∧ byte &&& 0x80 = 0 ∧ byte ∉ silentCases ∧ byte ≠ leftShift ∧ byte ≠ capsLockKey ∧
      ∀ upper, Sentinel ((tableFor upper).entry byte) := by
  decide

theorem character_entries : ∀ byte : Byte, (byte.toNat < 128 ∧ byte ∉ silentCases ∧ byte ≠ leftShift ∧
    byte ≠ capsLockKey ∧ ¬ Stray byte) → ∀ upper, ¬ Sentinel ((tableFor upper).entry byte) := by
  decide

theorem make_code : ∀ byte : Byte, byte &&& 0x80 = 0 → byte &&& 0x7F = byte ∧ byte.toNat < 128 := by
  decide

theorem leftShift_code : ∀ byte : Byte, byte &&& 0x7F = leftShift → (byte &&& 0x80 = 0 ↔ byte = leftShift) := by
  decide

variable {byte key : Byte} {state after : State} {output : Option Emission} {emission : Emission}
variable {bytes before : List Byte}

/-- What the handler does with one scan code. -/
inductive Handles (byte : Byte) (state : State) : State × Option Emission → Prop where
  | silent (listed : byte &&& 0x7F ∈ silentCases) : Handles byte state (state, none)
  | shift (mine : byte &&& 0x7F = leftShift) : Handles byte state ({ state with capsOn := byte = leftShift }, none)
  | caps (mine : byte = capsLockKey) : Handles byte state ({ state with capsLock := !state.capsLock }, none)
  | release (up : byte &&& 0x80 ≠ 0) (other : byte &&& 0x7F ≠ leftShift) : Handles byte state (state, none)
  | key (down : byte.toNat < 128) (code : byte &&& 0x7F = byte) (loud : byte ∉ silentCases)
      (notShift : byte ≠ leftShift) (notCaps : byte ≠ capsLockKey) :
      Handles byte state
        (state, some ⟨tableFor (state.capsOn || state.capsLock),
          (tableFor (state.capsOn || state.capsLock)).entry byte⟩)

theorem keyboardHandler_handles (byte : Byte) (state : State) : Handles byte state (keyboardHandler byte state) := by
  rw [keyboardHandler]
  by_cases listed : byte &&& 0x7F ∈ silentCases
  · rw [if_pos listed]
    exact .silent listed
  rw [if_neg listed]
  by_cases shift : byte &&& 0x7F = leftShift
  · rw [if_pos (show byte &&& 0x7F = 42 from shift)]
    have pressed := leftShift_code byte shift
    simp only [pressed]
    exact .shift shift
  rw [if_neg (show byte &&& 0x7F ≠ 42 from shift)]
  by_cases down : byte &&& 0x80 = 0
  · obtain ⟨code, small⟩ := make_code byte down
    rw [code] at listed shift ⊢
    by_cases caps : byte = capsLockKey
    · rw [if_pos (show byte = 58 from caps), if_pos down]
      exact .caps caps
    · rw [if_neg (show byte ≠ 58 from caps), if_pos down]
      exact .key small code listed shift caps
  · rw [if_neg down, if_neg down, ite_self]
    exact .release down shift

/-! Whole sequences. -/

theorem handled_append (bytes : List Byte) (byte : Byte) :
    handled (bytes ++ [byte]) = (keyboardHandler byte (handled bytes)).1 := by
  rw [handled, List.foldl_append]
  rfl

theorem held_append (key : Byte) (bytes : List Byte) (byte : Byte) :
    held key (bytes ++ [byte]) = if byte &&& 0x7F = key then decide (byte = key) else held key bytes := by
  unfold held
  rw [List.filter_append, List.filter_cons, List.filter_nil]
  by_cases mine : byte &&& 0x7F = key
  · rw [decide_eq_true mine, if_pos rfl, if_pos mine, List.getLast?_concat]
    simp only [Option.some_inj]
  · rw [decide_eq_false mine, if_neg Bool.false_ne_true, if_neg mine, List.append_nil]

theorem held_of_absent (absent : key ∉ bytes) : held key bytes = false := by
  rw [held, decide_eq_false_iff_not]
  intro last
  exact absent (List.mem_filter.mp (List.mem_of_getLast? last)).1

/-- The two flags record the history: left shift held, and caps lock pressed an
odd number of times. -/
structure Records (state : State) (bytes : List Byte) : Prop where
  capsOn : state.capsOn = held leftShift bytes
  capsLock : state.capsLock = decide (bytes.count capsLockKey % 2 = 1)

/-- The other keys leave both flags right as they are. -/
theorem Records.other (records : Records state bytes) (notShift : byte &&& 0x7F ≠ leftShift)
    (notCaps : byte ≠ capsLockKey) : Records state (bytes ++ [byte]) := by
  constructor
  · rw [held_append, if_neg notShift, records.capsOn]
  · rw [List.count_append, List.count_singleton, beq_false_of_ne notCaps, records.capsLock]
    rfl

theorem Records.step (records : Records state bytes) (byte : Byte) :
    Records (keyboardHandler byte state).1 (bytes ++ [byte]) := by
  have handles := keyboardHandler_handles byte state
  generalize keyboardHandler byte state = result at handles
  cases handles with
  | silent listed =>
      apply records.other
      · exact (by decide : ∀ code ∈ silentCases, code ≠ leftShift) _ listed
      · rintro rfl
        exact absurd listed (by decide)
  | shift mine =>
      constructor
      · rw [held_append, if_pos mine]
      · have notCaps : byte ≠ capsLockKey := by
          rintro rfl
          exact absurd mine (by decide)
        rw [List.count_append, List.count_singleton, beq_false_of_ne notCaps]
        exact records.capsLock
  | caps mine =>
      subst mine
      constructor
      · rw [held_append, if_neg (by decide)]
        exact records.capsOn
      · rw [List.count_append, List.count_singleton_self]
        change (!state.capsLock) = _
        rw [records.capsLock, ← decide_not]
        apply decide_eq_decide.mpr
        omega
  | release up other =>
      apply records.other other
      rintro rfl
      exact up (by decide)
  | key down code loud notShift notCaps =>
      exact records.other (by rwa [code]) notCaps

theorem handled_records (bytes : List Byte) : Records (handled bytes) bytes := by
  induction bytes using List.reverseRecOn with
  | nil => exact ⟨rfl, rfl⟩
  | append_singleton bytes byte ih =>
      rw [handled_append]
      exact ih.step byte

theorem shifted_iff_flags (calm : rightShift ∉ bytes) :
    Shifted bytes ↔ ((handled bytes).capsOn || (handled bytes).capsLock) = true := by
  have records := handled_records bytes
  rw [Shifted, held_of_absent calm, Bool.or_eq_true, records.capsOn, records.capsLock, decide_eq_true_iff]
  simp

theorem faithful_of_calm (calm : ∀ other ∈ before ++ [byte], ¬ Stray other) : Faithful before byte := by
  intro emission emitted
  have handles := keyboardHandler_handles byte (handled before)
  have same := handled_append before byte
  generalize keyboardHandler byte (handled before) = result at handles emitted same
  cases handles with
  | silent => cases emitted
  | shift => cases emitted
  | caps => cases emitted
  | release => cases emitted
  | key down code loud notShift notCaps =>
      cases emitted
      have noRightShift : rightShift ∉ before ++ [byte] := fun member => calm rightShift member (by decide)
      have plain := calm byte (List.mem_append_right _ (List.mem_singleton_self byte))
      refine ⟨down, rfl, character_entries byte ⟨down, loud, notShift, notCaps, plain⟩ _, ?_⟩
      rw [shifted_iff_flags noRightShift, same]
      cases (handled before).capsOn || (handled before).capsLock with
      | true => simp [tableFor]
      | false => simp [tableFor]

theorem not_faithful_of_stray (stray : Stray byte) : ¬ Faithful before byte := by
  obtain ⟨code, down, loud, notShift, notCaps, sentinel⟩ := stray_entries byte stray
  have handles := keyboardHandler_handles byte (handled before)
  intro faithful
  unfold Faithful at faithful
  generalize keyboardHandler byte (handled before) = result at handles faithful
  cases handles with
  | silent listed => exact loud (code ▸ listed)
  | shift mine => exact notShift (code ▸ mine)
  | caps mine => exact notCaps mine
  | release up other => exact up down
  | key => exact (faithful _ rfl).2.2.1 (sentinel _)

/-- Everything printed is a character of a pressed key in the right case,
exactly as long as no key is pressed that has a sentinel in the tables and is
missing from the switch. Right shift is one of them. -/
theorem keyboardHandler_faithful_iff (bytes : List Byte) :
    (∀ before byte rest, bytes = before ++ byte :: rest → Faithful before byte) ↔
      ∀ byte ∈ bytes, ¬ Stray byte := by
  constructor
  · intro faithful byte member stray
    obtain ⟨before, rest, split⟩ := List.append_of_mem member
    exact not_faithful_of_stray stray (faithful before byte rest split)
  · intro calm before byte rest split
    apply faithful_of_calm
    intro other member
    apply calm
    rw [split]
    simp only [List.mem_append, List.mem_cons] at member ⊢
    tauto

/-- Right shift pressed and then `a`: the first prints `RSHFT`, the second is lowercase. -/
theorem rightShift_prints_sentinel :
    ¬ ∀ before byte rest, [rightShift, 30] = before ++ byte :: rest → Faithful before byte := by
  intro faithful
  have shiftKey := faithful [] rightShift [30] rfl ⟨.lowercase, RSHFT⟩ (by decide)
  exact shiftKey.2.2.1 (by decide)

end Keyboard

end ScratchOs
