import ScratchOs.Data.Chain
import ScratchOs.Machine.Mapping

namespace ScratchOs

open Data

/-! Linked records in memory.

The kernel's two lists are made of C structures of 16 bytes each. `decode`
reads such a record out of memory; `RecordMapped` says that it can be accessed
and `RecordStored` that a sequence of stores changed nothing else.

The loops over a list carry fuel for as many nodes as there are addresses, so
running out of it means that the source's loop does not end.
-/

def walkFuel : Nat := 2 ^ 32

/-- `while (current && !found(current)) current = current->next;` -/
def findNode (found : Word → Option Bool) (next : Word → Option Word) : Nat → Word → Option Word
  | 0, _ => none
  | fuel + 1, current =>
      if current = 0 then some 0
      else do
        let stop ← found current
        if stop then some current
        else do
          let following ← next current
          findNode found next fuel following

theorem Data.Chain.findNode_eq {found : Word → Option Bool} {next : Word → Option Word} {passes : Word → Bool}
    {link : Word → Word} {head : Word} {nodes : List Word} {fuel : Nat}
    (chain : Chain 0 link head nodes) (enough : nodes.length < fuel)
    (reads : ∀ node ∈ nodes, found node = some (passes node) ∧ next node = some (link node)) :
    findNode found next fuel head = some ((nodes.find? passes).getD 0) := by
  induction nodes generalizing head fuel with
  | nil =>
      obtain ⟨fuel, rfl⟩ := Nat.exists_eq_succ_of_ne_zero (Nat.ne_of_gt enough)
      cases chain
      simp [findNode]
  | cons node rest ih =>
      obtain ⟨rfl, nonnull, tail⟩ := chain
      obtain ⟨fuel, rfl⟩ := Nat.exists_eq_succ_of_ne_zero (Nat.ne_of_gt (Nat.zero_lt_of_lt enough))
      obtain ⟨test, step⟩ := reads head (by simp)
      have following := ih tail (Nat.lt_of_succ_lt_succ enough) fun node member => reads node (by simp [member])
      rw [findNode, if_neg nonnull, test]
      simp only [Option.bind_eq_bind, Option.bind_some, step, List.find?_cons]
      cases passes head with
      | true => simp
      | false => simpa using following

abbrev recordSpan (record : Word) : Set Word := span record.toNat 16

theorem span_subset_recordSpan {record offset : Word} {count : Nat} (room : record.toNat + 16 ≤ 2 ^ 32)
    (inside : offset.toNat + count ≤ 16) : span (record + offset).toNat count ⊆ recordSpan record := by
  intro address within
  simp only [mem_span] at within ⊢
  by_cases empty : count = 0
  · omega
  · have place : (record + offset).toNat = record.toNat + offset.toNat := by
      rw [BitVec.toNat_add_of_lt]
      omega
    omega

variable {σ α : Type} {platform : Platform σ} (view : FlatView platform)

structure RecordMapped (world : σ) (record : Word) : Prop where
  sound : view.Sound world
  room : record.toNat + 16 ≤ 2 ^ 32
  mapped : recordSpan record ⊆ view.Mapped world

structure RecordStored (decode : ByteMemory → Word → α) (world after : σ) (record : Word) (value : α) :
    Prop where
  sound : view.Sound after
  mapped : view.Mapped after = view.Mapped world
  stored : decode (view.bytes after) record = value
  outside : Set.EqOn (view.bytes after) (view.bytes world) (recordSpan record)ᶜ
  globals : view.globals after = view.globals world

variable {view} {decode : ByteMemory → Word → α} {world after : σ} {record offset : Word}

namespace RecordMapped

theorem load8 (ready : RecordMapped view world record) (inside : offset.toNat + 1 ≤ 16) :
    platform.load8 (record + offset) world = some (view.bytes world (record + offset)) :=
  view.load8 ready.sound (ready.mapped (span_subset_recordSpan ready.room inside (by simp)))

theorem load32 (ready : RecordMapped view world record) (inside : offset.toNat + 4 ≤ 16) :
    platform.load32 (record + offset) world = some ((view.bytes world).read32 (record + offset)) :=
  view.load32 ready.sound (by have room := ready.room; bv_omega)
    ((span_subset_recordSpan ready.room inside).trans ready.mapped)

theorem store8 (ready : RecordMapped view world record) (value : Byte) (inside : offset.toNat + 1 ≤ 16) :
    ∃ after, platform.store8 (record + offset) value world = some after ∧
      RecordStored view decode world after record
        (decode ((view.bytes world).write8 (record + offset) value) record) := by
  have within : span (record + offset).toNat 1 ⊆ recordSpan record :=
    span_subset_recordSpan ready.room inside
  have here : record + offset ∈ view.Mapped world := ready.mapped (within (by simp))
  obtain ⟨after, stored, sound, mapped, globals, bytes⟩ := view.store8 value ready.sound here
  refine ⟨after, stored, sound, mapped, by rw [bytes], ?_, globals⟩
  rw [bytes]
  exact (ByteMemory.write8_outside _ _ _).mono (Set.compl_subset_compl.mpr within)

theorem store32 (ready : RecordMapped view world record) (value : Word) (inside : offset.toNat + 4 ≤ 16) :
    ∃ after, platform.store32 (record + offset) value world = some after ∧
      RecordStored view decode world after record
        (decode ((view.bytes world).write32 (record + offset) value) record) := by
  have room := ready.room
  have within : span (record + offset).toNat 4 ⊆ recordSpan record :=
    span_subset_recordSpan ready.room inside
  have fits : (record + offset).toNat + 4 ≤ 2 ^ 32 := by bv_omega
  obtain ⟨after, stored, sound, mapped, globals, bytes⟩ :=
    view.store32 value ready.sound fits (within.trans ready.mapped)
  refine ⟨after, stored, sound, mapped, by rw [bytes], ?_, globals⟩
  rw [bytes]
  exact (ByteMemory.write32_outside _ _ fits).mono (Set.compl_subset_compl.mpr within)

theorem persist (ready : RecordMapped view world record) {other : Word} {value : α}
    (store : RecordStored view decode world after other value) : RecordMapped view after record where
  sound := store.sound
  room := ready.room
  mapped := store.mapped ▸ ready.mapped

end RecordMapped

theorem RecordStored.trans {last : σ} {first second : α}
    (store : RecordStored view decode world after record first)
    (next : RecordStored view decode after last record second) :
    RecordStored view decode world last record second where
  sound := next.sound
  mapped := next.mapped.trans store.mapped
  stored := next.stored
  outside := next.outside.trans store.outside
  globals := next.globals.trans store.globals

/-- Of what could be read before, only the given records have changed. -/
structure RecordsOnly (view : FlatView platform) (before after : σ) (records : List Word) : Prop where
  mapped : view.Mapped before ⊆ view.Mapped after
  bytes : ∀ address ∈ view.Mapped before, (∀ record ∈ records, address ∉ recordSpan record) →
    view.bytes after address = view.bytes before address
  globals : view.globals after = view.globals before

variable {records : List Word}

theorem RecordStored.recordsOnly {value : α} (store : RecordStored view decode world after record value)
    (member : record ∈ records) : RecordsOnly view world after records where
  mapped := store.mapped.superset
  bytes _ _ outside := store.outside (outside record member)
  globals := store.globals

theorem Grown.recordsOnly (growth : Grown view world after) (records : List Word) :
    RecordsOnly view world after records where
  mapped := growth.mapped
  bytes _ inside _ := growth.bytes inside
  globals := growth.globals

theorem RecordsOnly.mono {fewer : List Word} (only : RecordsOnly view world after fewer)
    (subset : fewer ⊆ records) : RecordsOnly view world after records where
  mapped := only.mapped
  bytes address inside outside := only.bytes address inside fun record member => outside record (subset member)
  globals := only.globals

theorem RecordsOnly.trans {middle : σ} (first : RecordsOnly view world middle records)
    (second : RecordsOnly view middle after records) : RecordsOnly view world after records where
  mapped := first.mapped.trans second.mapped
  bytes address inside outside :=
    (second.bytes address (first.mapped inside) outside).trans (first.bytes address inside outside)
  globals := second.globals.trans first.globals

/-- Records have been written and nothing was mapped. -/
structure RecordsWritten (view : FlatView platform) (before after : σ) (records : List Word) : Prop
    extends RecordsOnly view before after records where
  same : view.Mapped after ⊆ view.Mapped before

theorem RecordStored.recordsWritten {value : α} (store : RecordStored view decode world after record value)
    (member : record ∈ records) : RecordsWritten view world after records where
  toRecordsOnly := store.recordsOnly member
  same := store.mapped.subset

theorem RecordsWritten.mono {fewer : List Word} (written : RecordsWritten view world after fewer)
    (subset : fewer ⊆ records) : RecordsWritten view world after records where
  toRecordsOnly := written.toRecordsOnly.mono subset
  same := written.same

theorem RecordsWritten.trans {middle : σ} (first : RecordsWritten view world middle records)
    (second : RecordsWritten view middle after records) : RecordsWritten view world after records where
  toRecordsOnly := first.toRecordsOnly.trans second.toRecordsOnly
  same := second.same.trans first.same

end ScratchOs
