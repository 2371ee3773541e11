import ScratchOs.Data.ByteMemory
import ScratchOs.Pmm.Init

namespace ScratchOs

open Data

/-! The firmware's memory map on its way into C.

`do_e820` of `boot/stage1/memdetect.asm` asks the firmware for the map entry by
entry and leaves the kept ones behind a count; `read_E820_Memory_Info` of stage 2
reads that count. Both segment registers are 0, so an offset is an address. -/

namespace E820

def mmapCount : Word := 0x500
def entriesStart : BitVec 16 := 0x504
/-- `'PAMS'`, the firmware's `SMAP` in memory order. -/
def smap : Word := 0x534D4150

def lowWord (value : BitVec 64) : Word := value.extractLsb' 0 32
def highWord (value : BitVec 64) : Word := value.extractLsb' 32 32

/-- One answer of `int 15h, EAX=E820h`. A long answer has 24 bytes, the last
four of them `attributes`. -/
structure Reply where
  carry : Bool
  signature : Word
  continuation : Word
  base : BitVec 64
  length : BitVec 64
  type : Word
  attributes : Option Word

namespace Reply

def words (reply : Reply) : List Word :=
  [lowWord reply.base, highWord reply.base, lowWord reply.length, highWord reply.length, reply.type] ++
    reply.attributes.toList

def entry (reply : Reply) : E820MemoryMapEntry := ⟨reply.base, reply.length, reply.type⟩

end Reply

structure Cpu where
  eax : Word
  ebx : Word
  ecx : Word
  edx : Word
  di : BitVec 16
  bp : BitVec 16
  carry : Bool
  memory : ByteMemory

namespace Cpu

def entryPlace (cpu : Cpu) (offset : Word) : Word := cpu.di.setWidth 32 + offset

def int15 (reply : Reply) (cpu : Cpu) : Cpu :=
  { cpu with
    eax := reply.signature, ebx := reply.continuation, carry := reply.carry
    ecx := BitVec.ofNat 32 (4 * reply.words.length)
    memory := cpu.memory.writeWords (cpu.entryPlace 0) reply.words }

/-- The registers loaded before the interrupt. -/
def request (cpu : Cpu) : Cpu := { cpu with eax := 0xe820, ecx := 24, edx := smap }

def goodEntry (cpu : Cpu) : Cpu := { cpu with bp := cpu.bp + 1, di := cpu.di + 24 }

/-- From `.start` to `.skip_entry`: an entry counts when either half of its
length is not zero. -/
def start (cpu : Cpu) : Cpu :=
  if cpu.ecx.setWidth 16 = (0 : BitVec 16) then cpu
  else
    let cpu := { cpu with ecx := cpu.memory.read32 (cpu.entryPlace 8) }
    if cpu.ecx ≠ 0 then cpu.goodEntry
    else
      let cpu := { cpu with ecx := cpu.memory.read32 (cpu.entryPlace 12) }
      if cpu.ecx = 0 then cpu else cpu.goodEntry

/-- From `.skip_entry` on. `none` when the firmware is asked for more than it has. -/
def skipEntry : List Reply → Cpu → Option Cpu
  | [], cpu => if cpu.ebx = 0 then some cpu else none
  | reply :: rest, cpu => if cpu.ebx = 0 then some cpu else skipEntry rest (int15 reply cpu.request).start

/-- `mov [mmap_count], bp` stores 16 bits. -/
def storeCount (cpu : Cpu) : ByteMemory :=
  (cpu.memory.write8 mmapCount (cpu.bp.extractLsb' 0 8)).write8 (mmapCount + 1) (cpu.bp.extractLsb' 8 8)

end Cpu

/-- The registers once `do_e820` has set them up. -/
def Cpu.cleared (memory : ByteMemory) : Cpu := ⟨0, 0, 0, 0, entriesStart, 0, false, memory⟩

def doE820 (replies : List Reply) (memory : ByteMemory) : Option ByteMemory :=
  match replies with
  | [] => none
  | reply :: rest =>
      let cpu := (Cpu.cleared memory).request.int15 reply
      let finished :=
        if cpu.carry = true ∨ cpu.eax ≠ smap ∨ cpu.ebx = 0 then some { cpu with carry := true }
        else Cpu.skipEntry rest cpu.start
      finished.map Cpu.storeCount

/-! The reader, `boot/stage2/mem.c`. -/

structure MemoryInfo where
  numEntries : Word
  entries : Word

/-- `*E820_NUM_ENTRIES` is a 32-bit `int`. -/
def readE820MemoryInfo (memory : ByteMemory) : MemoryInfo := ⟨memory.read32 0x500, 0x504⟩

/-- `entries[index]`. -/
def entryAt (memory : ByteMemory) (entries : Word) (index : Nat) : E820MemoryMapEntry :=
  let place := entries + BitVec.ofNat 32 (24 * index)
  { baseAddr := memory.read32 (place + 4) ++ memory.read32 place
    length := memory.read32 (place + 12) ++ memory.read32 (place + 8)
    type := memory.read32 (place + 16) }

/-! What the firmware promises and what C should see. -/

/-- The answers end with the one whose `EBX` is 0, and none of them is an error. -/
structure Documented (replies : List Reply) : Prop where
  good : ∀ reply ∈ replies, reply.carry = false ∧ reply.signature = smap
  last : ∀ before reply after, replies = before ++ reply :: after → (reply.continuation = 0 ↔ after = [])

def kept (replies : List Reply) : List Reply := replies.filter fun reply => reply.length ≠ 0

/-- The map in C has the entries of non-zero length, in order. -/
structure HandedOver (memory : ByteMemory) (replies : List Reply) : Prop where
  count : (readE820MemoryInfo memory).numEntries.toInt = (kept replies).length
  entries : (List.range (kept replies).length).map (entryAt memory (readE820MemoryInfo memory).entries) =
    (kept replies).map Reply.entry

/-! The loop. -/

theorem join_halves (value : BitVec 64) : highWord value ++ lowWord value = value := by
  apply BitVec.eq_of_getLsbD_eq
  intro bit inside
  rw [BitVec.getLsbD_append, lowWord, highWord]
  by_cases low : bit < 32
  · simp [low]
  · have high : bit - 32 < 32 := by omega
    have shift : 32 + (bit - 32) = bit := by omega
    simp only [low, high, if_false, decide_true, Bool.true_and, BitVec.getLsbD_extractLsb', shift]

theorem halves_zero {value : BitVec 64} : value = 0 ↔ lowWord value = 0 ∧ highWord value = 0 := by
  constructor
  · rintro rfl
    exact ⟨rfl, rfl⟩
  · intro ⟨low, high⟩
    rw [← join_halves value, low, high]
    rfl

theorem kept_append_singleton (seen : List Reply) (reply : Reply) :
    kept (seen ++ [reply]) = if reply.length = 0 then kept seen else kept seen ++ [reply] := by
  rw [kept, List.filter_append]
  by_cases empty : reply.length = 0
  · rw [if_pos empty, List.filter_cons_of_neg (by simp [empty]), List.filter_nil, List.append_nil, kept]
  · rw [if_neg empty, List.filter_cons_of_pos (by simpa using empty), List.filter_nil, kept]

theorem kept_length_le (replies : List Reply) : (kept replies).length ≤ replies.length := List.length_filter_le ..

theorem entryAt_congr {memory other : ByteMemory} {entries : Word} {index : Nat}
    (room : entries.toNat + 24 * index + 20 ≤ 2 ^ 32)
    (same : Set.EqOn memory other (span (entries.toNat + 24 * index) 20)) :
    entryAt memory entries index = entryAt other entries index := by
  have place : (entries + BitVec.ofNat 32 (24 * index)).toNat = entries.toNat + 24 * index := by bv_omega
  have words : ∀ offset : Word, offset.toNat ≤ 16 →
      memory.read32 (entries + BitVec.ofNat 32 (24 * index) + offset) =
        other.read32 (entries + BitVec.ofNat 32 (24 * index) + offset) := by
    intro offset small
    have sum : (entries + BitVec.ofNat 32 (24 * index) + offset).toNat = entries.toNat + 24 * index + offset.toNat := by
      rw [BitVec.toNat_add, place, Nat.mod_eq_of_lt (by omega)]
    apply ByteMemory.read32_congr _ (by omega)
    intro address inside
    rw [mem_span, sum] at inside
    exact same (by rw [mem_span]; omega)
  have first := words 0#32 (by decide)
  rw [BitVec.add_zero] at first
  rw [entryAt, entryAt, first, words 4 (by decide), words 8 (by decide), words 12 (by decide), words 16 (by decide)]

theorem Reply.words_length (reply : Reply) : 5 ≤ reply.words.length ∧ reply.words.length ≤ 6 := by
  rw [Reply.words]
  cases reply.attributes <;> simp

theorem entryAt_writeWords {memory : ByteMemory} {entries : Word} {index : Nat} (reply : Reply)
    (room : entries.toNat + 24 * index + 24 < 2 ^ 32) :
    entryAt (memory.writeWords (entries + BitVec.ofNat 32 (24 * index)) reply.words) entries index = reply.entry := by
  have place : (entries + BitVec.ofNat 32 (24 * index)).toNat = entries.toNat + 24 * index := by bv_omega
  have size := reply.words_length
  have word : ∀ lane (inside : lane < 5),
      (memory.writeWords (entries + BitVec.ofNat 32 (24 * index)) reply.words).read32
        (entries + BitVec.ofNat 32 (24 * index) + BitVec.ofNat 32 (4 * lane)) =
          reply.words.get ⟨lane, by omega⟩ := fun lane inside =>
    ByteMemory.read32_writeWords (by omega) (by omega)
  have first := word 0 (by decide)
  rw [Nat.mul_zero, BitVec.add_zero] at first
  have base := congrArg₂ (fun high low : Word => high ++ low) (word 1 (by decide)) first
  have length := congrArg₂ (fun high low : Word => high ++ low) (word 3 (by decide)) (word 2 (by decide))
  apply E820MemoryMapEntry.ext
  · exact base.trans (join_halves reply.base)
  · exact length.trans (join_halves reply.length)
  · exact word 4 (by decide)

/-- What the loop has left behind after the answers in `seen`. -/
structure Collected (memory : ByteMemory) (seen : List Reply) (cpu : Cpu) : Prop where
  count : cpu.bp.toNat = (kept seen).length
  pointer : cpu.di.toNat = 0x504 + 24 * (kept seen).length
  below : ∀ address : Word, address.toNat < 0x504 → cpu.memory address = memory address
  entries : (List.range (kept seen).length).map (entryAt cpu.memory 0x504) = (kept seen).map Reply.entry

variable {memory : ByteMemory} {seen rest : List Reply} {reply : Reply} {cpu : Cpu}

namespace Cpu

/-- `.start` keeps an entry when its length, as stored, is not zero. -/
theorem start_eq (cpu : Cpu) (length : BitVec 64) (answered : cpu.ecx.setWidth 16 ≠ (0 : BitVec 16))
    (low : cpu.memory.read32 (cpu.entryPlace 8) = lowWord length)
    (high : cpu.memory.read32 (cpu.entryPlace 12) = highWord length) :
    cpu.start.memory = cpu.memory ∧ cpu.start.ebx = cpu.ebx ∧
      cpu.start.bp = (if length = 0 then cpu.bp else cpu.bp + 1) ∧
      cpu.start.di = (if length = 0 then cpu.di else cpu.di + 24) := by
  have place : ∀ ecx offset, entryPlace { cpu with ecx := ecx } offset = cpu.entryPlace offset := fun _ _ => rfl
  simp only [start, answered, if_false, low, place, high]
  by_cases lowZero : lowWord length = 0
  · rw [if_neg (not_not.mpr lowZero)]
    by_cases highZero : highWord length = 0
    · have zero := halves_zero.mpr ⟨lowZero, highZero⟩
      rw [if_pos highZero, if_pos zero, if_pos zero]
      exact ⟨rfl, rfl, rfl, rfl⟩
    · have nonzero : length ≠ 0 := fun zero => highZero (halves_zero.mp zero).2
      rw [if_neg highZero, if_neg nonzero, if_neg nonzero]
      exact ⟨rfl, rfl, rfl, rfl⟩
  · have nonzero : length ≠ 0 := fun zero => lowZero (halves_zero.mp zero).1
    rw [if_pos lowZero, if_neg nonzero, if_neg nonzero]
    exact ⟨rfl, rfl, rfl, rfl⟩

theorem int15_memory (cpu : Cpu) (reply : Reply) :
    (cpu.int15 reply).memory = cpu.memory.writeWords (cpu.di.setWidth 32) reply.words := by
  have place : cpu.entryPlace 0 = cpu.di.setWidth 32 := BitVec.add_zero _
  simp only [int15, place]

theorem start_int15 (cpu : Cpu) (reply : Reply) (small : cpu.di.toNat + 24 < 2 ^ 16) :
    (cpu.int15 reply).start.memory = cpu.memory.writeWords (cpu.di.setWidth 32) reply.words ∧
      (cpu.int15 reply).start.ebx = reply.continuation ∧
      (cpu.int15 reply).start.bp = (if reply.length = 0 then cpu.bp else cpu.bp + 1) ∧
      (cpu.int15 reply).start.di = (if reply.length = 0 then cpu.di else cpu.di + 24) := by
  have size := reply.words_length
  have origin : (cpu.di.setWidth 32).toNat = cpu.di.toNat := by
    rw [BitVec.toNat_setWidth]
    omega
  have word : ∀ lane (inside : lane < 5), (cpu.int15 reply).memory.read32
      (cpu.di.setWidth 32 + BitVec.ofNat 32 (4 * lane)) = reply.words.get ⟨lane, by omega⟩ := by
    intro lane inside
    rw [int15_memory]
    exact ByteMemory.read32_writeWords (by omega) (by omega)
  have answered : (cpu.int15 reply).ecx.setWidth 16 ≠ (0 : BitVec 16) := by
    have count : (cpu.int15 reply).ecx = BitVec.ofNat 32 (4 * reply.words.length) := rfl
    rw [count]
    bv_omega
  rw [← int15_memory]
  exact (cpu.int15 reply).start_eq reply.length answered (word 2 (by decide)) (word 3 (by decide))

end Cpu

/-- One answer: its bytes go behind the kept entries and disturb none of them. -/
theorem Collected.answer (collected : Collected memory seen cpu) (room : seen.length < 100) (reply : Reply) :
    Collected memory (seen ++ [reply]) (cpu.int15 reply).start := by
  have few := kept_length_le seen
  have size := reply.words_length
  have count := collected.count
  have pointer := collected.pointer
  have origin : (0x504 : Word).toNat = 0x504 := rfl
  obtain ⟨stored, _, counted, advanced⟩ := cpu.start_int15 reply (by omega)
  generalize (cpu.int15 reply).start = after at stored counted advanced
  have placeNat : (cpu.di.setWidth 32).toNat = 0x504 + 24 * (kept seen).length := by
    rw [BitVec.toNat_setWidth, pointer]
    omega
  have place : cpu.di.setWidth 32 = (0x504 : Word) + BitVec.ofNat 32 (24 * (kept seen).length) := by
    apply BitVec.eq_of_toNat_eq
    rw [placeNat]
    bv_omega
  have outside := @ByteMemory.writeWords_outside cpu.memory (cpu.di.setWidth 32) reply.words (by omega)
  rw [placeNat, ← stored] at outside
  have older : (List.range (kept seen).length).map (entryAt after.memory 0x504) = (kept seen).map Reply.entry := by
    rw [← collected.entries]
    refine List.map_congr_left fun index inside => ?_
    have earlier := List.mem_range.mp inside
    apply entryAt_congr (by omega)
    intro address within
    rw [mem_span] at within
    exact ByteMemory.byte_of_apart address outside (by omega)
  have newest : entryAt after.memory 0x504 (kept seen).length = reply.entry := by
    rw [stored, place]
    exact entryAt_writeWords reply (by omega)
  have below : ∀ address : Word, address.toNat < 0x504 → after.memory address = memory address := by
    intro address low
    rw [ByteMemory.byte_of_apart address outside (by omega), collected.below address low]
  by_cases empty : reply.length = 0
  · rw [if_pos empty] at counted advanced
    have same : kept (seen ++ [reply]) = kept seen := by rw [kept_append_singleton, if_pos empty]
    refine ⟨?_, ?_, below, ?_⟩
    · rw [same, counted, count]
    · rw [same, advanced, pointer]
    · rw [same, older]
  · rw [if_neg empty] at counted advanced
    have added : kept (seen ++ [reply]) = kept seen ++ [reply] := by rw [kept_append_singleton, if_neg empty]
    have longer : (kept (seen ++ [reply])).length = (kept seen).length + 1 := by
      rw [added, List.length_append, List.length_singleton]
    refine ⟨?_, ?_, below, ?_⟩
    · rw [longer, counted]
      bv_omega
    · rw [longer, advanced]
      bv_omega
    · rw [longer, List.range_succ, List.map_append, List.map_singleton, added, List.map_append, List.map_singleton,
        older, newest]

theorem Collected.request (collected : Collected memory seen cpu) : Collected memory seen cpu.request :=
  ⟨collected.count, collected.pointer, collected.below, collected.entries⟩

/-- The loop ends after the last answer and has collected all of them. -/
theorem Collected.skipEntry (collected : Collected memory seen cpu)
    (more : ∀ before reply after, rest = before ++ reply :: after → (reply.continuation = 0 ↔ after = []))
    (here : cpu.ebx = 0 ↔ rest = []) (few : seen.length + rest.length ≤ 100) :
    ∃ after, Cpu.skipEntry rest cpu = some after ∧ Collected memory (seen ++ rest) after := by
  induction rest generalizing seen cpu with
  | nil =>
      rw [Cpu.skipEntry, if_pos (here.mpr rfl), List.append_nil]
      exact ⟨cpu, rfl, collected⟩
  | cons reply rest ih =>
      have asks : cpu.ebx ≠ 0 := fun zero => List.cons_ne_nil _ _ (here.mp zero)
      rw [List.length_cons] at few
      have bound := kept_length_le seen
      have pointer := collected.request.pointer
      have next := collected.request.answer (by omega) reply
      obtain ⟨_, continuation, _⟩ := cpu.request.start_int15 reply (by omega)
      rw [Cpu.skipEntry, if_neg asks, List.append_cons]
      apply ih next
      · intro before other after split
        exact more (reply :: before) other after (by rw [split, List.cons_append])
      · rw [continuation]
        exact more [] reply rest rfl
      · rw [List.length_append, List.length_singleton]
        omega

/-! The count. -/

theorem storeCount_above (cpu : Cpu) {address : Word} (above : 0x502 ≤ address.toNat) :
    cpu.storeCount address = cpu.memory address := by
  have first : address ≠ mmapCount + 1 := by
    rintro rfl
    revert above
    decide
  have second : address ≠ mmapCount := by
    rintro rfl
    revert above
    decide
  rw [Cpu.storeCount, ByteMemory.write8_of_ne first, ByteMemory.write8_of_ne second]

/-- The upper half of the count is whatever stood in memory. -/
theorem read32_storeCount (cpu : Cpu) :
    (cpu.storeCount.read32 0x500).toNat =
      cpu.bp.toNat + 65536 * (cpu.memory 0x502).toNat + 16777216 * (cpu.memory 0x503).toNat := by
  have low : cpu.storeCount 0x500 = cpu.bp.extractLsb' 0 8 := by
    rw [Cpu.storeCount, ByteMemory.write8_of_ne (by decide)]
    exact ByteMemory.write8_self ..
  have high : cpu.storeCount 0x501 = cpu.bp.extractLsb' 8 8 := ByteMemory.write8_self ..
  have third := storeCount_above cpu (show 0x502 ≤ (0x502 : Word).toNat by decide)
  have fourth := storeCount_above cpu (show 0x502 ≤ (0x503 : Word).toNat by decide)
  rw [ByteMemory.read32, show (0x500 : Word) + 1 = 0x501 by decide, show (0x500 : Word) + 2 = 0x502 by decide,
    show (0x500 : Word) + 3 = 0x503 by decide, low, high, third, fourth, joinBytes_toNat, BitVec.extractLsb'_toNat,
    BitVec.extractLsb'_toNat, Nat.shiftRight_eq_div_pow, Nat.shiftRight_eq_div_pow]
  omega

variable {replies : List Reply}

theorem doE820_collected (documented : Documented replies) (two : 2 ≤ replies.length) (few : replies.length ≤ 100)
    (memory : ByteMemory) : ∃ cpu, doE820 replies memory = some cpu.storeCount ∧ Collected memory replies cpu := by
  cases replies with
  | nil => simp at two
  | cons reply rest =>
      rw [doE820]
      have nonempty : rest ≠ [] := by
        rintro rfl
        simp at two
      have none : Collected memory [] (Cpu.cleared memory) := ⟨rfl, rfl, fun _ _ => rfl, rfl⟩
      have small : (Cpu.cleared memory).request.di.toNat + 24 < 2 ^ 16 := by
        change entriesStart.toNat + 24 < 2 ^ 16
        decide
      have first := none.request.answer (by decide) reply
      obtain ⟨_, continuation, _⟩ := (Cpu.cleared memory).request.start_int15 reply small
      have asks : reply.continuation ≠ 0 := fun zero => nonempty ((documented.last [] reply rest rfl).mp zero)
      obtain ⟨carry, signature⟩ := documented.good reply List.mem_cons_self
      have accepted : ¬ (((Cpu.cleared memory).request.int15 reply).carry = true ∨
          ((Cpu.cleared memory).request.int15 reply).eax ≠ smap ∨
          ((Cpu.cleared memory).request.int15 reply).ebx = 0) := by
        rintro (failed | other | zero)
        · exact absurd (carry.symm.trans failed) (by decide)
        · exact other signature
        · exact asks zero
      generalize (Cpu.cleared memory).request.int15 reply = answered at first continuation accepted
      rw [List.length_cons] at few
      obtain ⟨cpu, run, collected⟩ := first.skipEntry
        (fun before other after split =>
          documented.last (reply :: before) other after (by rw [split, List.cons_append]))
        (by rw [continuation]; exact iff_of_false asks nonempty)
        (show ([] ++ [reply]).length + rest.length ≤ 100 by simp only [List.nil_append, List.length_singleton]; omega)
      exact ⟨cpu, by rw [if_neg accepted, run, Option.map_some], collected⟩

theorem handedOver_iff {cpu : Cpu} (collected : Collected memory replies cpu) (few : replies.length ≤ 100) :
    HandedOver cpu.storeCount replies ↔ memory 0x502 = 0 ∧ memory 0x503 = 0 := by
  have bound := kept_length_le replies
  have count := read32_storeCount cpu
  have third := collected.below 0x502 (by decide)
  have fourth := collected.below 0x503 (by decide)
  rw [collected.count, third, fourth] at count
  have zero : ∀ byte : Byte, byte = 0 ↔ byte.toNat = 0 := fun byte => by
    rw [← BitVec.toNat_inj]
    rfl
  have small := (memory 0x502).isLt
  have large := (memory 0x503).isLt
  have origin : (0x504 : Word).toNat = 0x504 := rfl
  have entries : (List.range (kept replies).length).map (entryAt cpu.storeCount 0x504) =
      (kept replies).map Reply.entry := by
    rw [← collected.entries]
    refine List.map_congr_left fun index inside => ?_
    have earlier := List.mem_range.mp inside
    apply entryAt_congr (by omega)
    intro address within
    rw [mem_span] at within
    exact storeCount_above cpu (by omega)
  have counted : (cpu.storeCount.read32 0x500).toInt = (kept replies).length ↔ memory 0x502 = 0 ∧ memory 0x503 = 0 := by
    rw [zero, zero, BitVec.toInt_eq_toNat_cond, count]
    split <;> omega
  constructor
  · intro handed
    exact counted.mp handed.count
  · intro cleared
    exact ⟨counted.mpr cleared, entries⟩

/-- The map reaches C unharmed exactly when the two bytes above the stored
count were zero before: the count is written as a word and read as an `int`. -/
theorem memory_map_handed_over_iff (replies : List Reply) (documented : Documented replies)
    (two : 2 ≤ replies.length) (few : replies.length ≤ 100) (memory : ByteMemory) :
    ∃ after, doE820 replies memory = some after ∧
      (HandedOver after replies ↔ memory 0x502 = 0 ∧ memory 0x503 = 0) := by
  obtain ⟨cpu, run, collected⟩ := doE820_collected documented two few memory
  exact ⟨_, run, handedOver_iff collected few⟩

/-- Conventional and extended memory of a small machine. -/
def twoRanges : List Reply :=
  [⟨false, smap, 1, 0, 0x9FC00, 1, none⟩, ⟨false, smap, 0, 0x100000, 0x7F00000, 1, some 1⟩]

theorem twoRanges_documented : Documented twoRanges := by
  constructor
  · intro reply member
    simp only [twoRanges, List.mem_cons, List.not_mem_nil, or_false] at member
    rcases member with rfl | rfl <;> exact ⟨rfl, rfl⟩
  · intro before reply after split
    match before, split with
    | [], split =>
        cases split
        simp
    | [_], split =>
        cases split
        simp
    | _ :: _ :: more, split => simp [twoRanges] at split

theorem memory_map_handed_over_iff_twoRanges :
    ∃ after, doE820 twoRanges (fun _ => 0) = some after ∧ HandedOver after twoRanges := by
  obtain ⟨after, run, handed⟩ := memory_map_handed_over_iff twoRanges twoRanges_documented (by decide) (by decide)
    fun _ => 0
  exact ⟨after, run, handed.mpr ⟨rfl, rfl⟩⟩

/-- Memory as the firmware may leave it: not cleared. -/
theorem twoRanges_miscounted :
    ¬ ∃ after, doE820 twoRanges (fun _ => 0xFF) = some after ∧ HandedOver after twoRanges := by
  intro ⟨after, run, handed⟩
  obtain ⟨cpu, stored, collected⟩ := doE820_collected twoRanges_documented (by decide) (by decide) fun _ => 0xFF
  cases stored.symm.trans run
  have cleared := ((handedOver_iff collected (by decide)).mp handed).1
  revert cleared
  decide

end E820

end ScratchOs
