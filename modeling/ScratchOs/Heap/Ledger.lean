import Mathlib.Data.List.Chain
import ScratchOs.Heap.Header

namespace ScratchOs.Heap

open Data

/-! The heap without its memory.

A ledger is the block list as a list and the end of the heap. The operations on
it say what `kmalloc` and `kfree` are for; the proofs about the code show that
each call is one of these steps.
-/

structure Chunk where
  place : Word
  size : Word
  free : Bool
  deriving DecidableEq

structure Ledger where
  chunks : List Chunk
  finish : Word
  deriving DecidableEq

namespace Chunk

def suits (nbytes : Word) (chunk : Chunk) : Bool := chunk.free && decide (nbytes ≤ chunk.size)

/-- A chunk that is handed out, and the rest of it if there is enough to keep. -/
def cut (nbytes : Word) (chunk : Chunk) : List Chunk :=
  if nbytes + metaBlockSize + minMemBlockSize < chunk.size then
    [⟨chunk.place, nbytes, false⟩,
      ⟨chunk.place + nbytes + metaBlockSize, chunk.size - nbytes - metaBlockSize, true⟩]
  else [⟨chunk.place, chunk.size, false⟩]

/-- A freed chunk takes in the one behind it if that is free too. -/
def absorb (chunk : Chunk) : List Chunk → List Chunk
  | [] => [chunk]
  | next :: rest =>
      if next.free then ⟨chunk.place, chunk.size + (next.size + metaBlockSize), chunk.free⟩ :: rest
      else chunk :: next :: rest

end Chunk

/-- First fit: the place of the chunk and the list with it handed out. -/
def serve (nbytes : Word) : List Chunk → Option (Word × List Chunk)
  | [] => none
  | chunk :: rest =>
      if chunk.suits nbytes then some (chunk.place, chunk.cut nbytes ++ rest)
      else (serve nbytes rest).map fun result => (result.1, chunk :: result.2)

def release (place : Word) : List Chunk → List Chunk
  | [] => []
  | chunk :: rest =>
      if chunk.place = place then Chunk.absorb ⟨chunk.place, chunk.size, true⟩ rest
      else chunk :: release place rest

/-- One request: refused, served from the list, or served by a new chunk at the
end. Whether the heap grows is up to the frames, so both are possible. -/
inductive Allocates (nbytes : Word) (ledger : Ledger) : Word → Ledger → Prop
  | refused : nbytes = 0 ∨ serve nbytes ledger.chunks = none → Allocates nbytes ledger 0 ledger
  | served {place chunks} : nbytes ≠ 0 → serve nbytes ledger.chunks = some (place, chunks) →
      Allocates nbytes ledger (place + metaBlockSize) ⟨chunks, ledger.finish⟩
  | extended {finish : Word} : nbytes ≠ 0 → serve nbytes ledger.chunks = none →
      finish.toNat = ledger.finish.toNat + 16 + nbytes.toNat → finish.toNat ≤ kernelHeapEnd.toNat →
      Allocates nbytes ledger (ledger.finish + metaBlockSize)
        ⟨ledger.chunks ++ [⟨ledger.finish, nbytes, false⟩], finish⟩

variable {nbytes place : Word} {chunk : Chunk} {chunks front back : List Chunk}

theorem serve_eq_none (unfit : ∀ chunk ∈ chunks, chunk.suits nbytes = false) : serve nbytes chunks = none := by
  induction chunks with
  | nil => rfl
  | cons first rest ih =>
      rw [serve, unfit first (by simp), ih fun chunk member => unfit chunk (by simp [member])]
      rfl

theorem serve_append (unfit : ∀ chunk ∈ front, chunk.suits nbytes = false) (fit : chunk.suits nbytes = true) :
    serve nbytes (front ++ chunk :: back) = some (chunk.place, front ++ (chunk.cut nbytes ++ back)) := by
  induction front with
  | nil => rw [List.nil_append, serve, if_pos fit, List.nil_append]
  | cons first rest ih =>
      have later := ih fun chunk member => unfit chunk (by simp [member])
      rw [List.cons_append, serve, unfit first (by simp), later]
      rfl

theorem release_append (elsewhere : ∀ chunk ∈ front, chunk.place ≠ place) (here : chunk.place = place) :
    release place (front ++ chunk :: back) =
      front ++ Chunk.absorb ⟨chunk.place, chunk.size, true⟩ back := by
  induction front with
  | nil => rw [List.nil_append, release, if_pos here, List.nil_append]
  | cons first rest ih =>
      have later := ih fun chunk member => elsewhere chunk (by simp [member])
      rw [List.cons_append, release, if_neg (elsewhere first (by simp)), later, List.cons_append]

variable {before after : Ledger} {ptr : Word}

theorem Allocates.cases (step : Allocates nbytes before ptr after) :
    (ptr = 0 ∧ after = before ∧ (nbytes = 0 ∨ serve nbytes before.chunks = none)) ∨
    (nbytes ≠ 0 ∧ ∃ place, ptr = place + metaBlockSize ∧
      serve nbytes before.chunks = some (place, after.chunks) ∧ after.finish = before.finish) ∨
    (nbytes ≠ 0 ∧ ptr = before.finish + metaBlockSize ∧ serve nbytes before.chunks = none ∧
      after.chunks = before.chunks ++ [⟨before.finish, nbytes, false⟩] ∧
      after.finish.toNat = before.finish.toNat + 16 + nbytes.toNat ∧
      after.finish.toNat ≤ kernelHeapEnd.toNat) := by
  cases step with
  | refused reason => exact .inl ⟨rfl, rfl, reason⟩
  | served positive found => exact .inr (.inl ⟨positive, _, rfl, found, rfl⟩)
  | extended positive missing grown limit => exact .inr (.inr ⟨positive, rfl, missing, rfl, grown, limit⟩)

theorem serve_cases {served : List Chunk} (found : serve nbytes chunks = some (place, served)) :
    ∃ front chunk back, chunks = front ++ chunk :: back ∧ chunk.place = place ∧ chunk.suits nbytes = true ∧
      (∀ other ∈ front, other.suits nbytes = false) ∧ served = front ++ (chunk.cut nbytes ++ back) := by
  induction chunks generalizing served with
  | nil => cases found
  | cons first rest ih =>
      rw [serve] at found
      cases fits : first.suits nbytes with
      | true =>
          rw [fits, if_pos rfl] at found
          cases found
          exact ⟨[], first, rest, rfl, rfl, fits, by simp, rfl⟩
      | false =>
          rw [fits, if_neg Bool.false_ne_true] at found
          obtain ⟨⟨later, served⟩, deeper, same⟩ := Option.map_eq_some_iff.mp found
          cases same
          obtain ⟨front, chunk, back, rfl, here, suits, unfit, rfl⟩ := ih deeper
          exact ⟨first :: front, chunk, back, rfl, here, suits, List.forall_mem_cons.mpr ⟨fits, unfit⟩, rfl⟩

/-! Lists without two free chunks in a row. -/

def Chunk.Separate (left right : Chunk) : Prop := left.free = false ∨ right.free = false

def Coalesced (chunks : List Chunk) : Prop := chunks.IsChain Chunk.Separate

theorem Chunk.separate_congr {left right left' right' : Chunk} (separate : left.Separate right)
    (sameLeft : left'.free = left.free) (sameRight : right'.free = right.free) : left'.Separate right' := by
  rwa [Separate, sameLeft, sameRight]

/-- Behind a free chunk comes one in use. -/
theorem Coalesced.absorb (coalesced : Coalesced (chunk :: back)) (free : chunk.free = true) (size : Word) :
    Chunk.absorb ⟨chunk.place, size, true⟩ back = ⟨chunk.place, size, true⟩ :: back := by
  cases back with
  | nil => rfl
  | cons next rest =>
      have used : next.free = false := by
        rcases (List.isChain_cons_cons.mp coalesced).1 with used | used
        · rw [free] at used
          contradiction
        · exact used
      rw [Chunk.absorb, used, if_neg Bool.false_ne_true]

theorem Chunk.cut_head (chunk : Chunk) (nbytes : Word) (back : List Chunk) : ∃ first rest,
    chunk.cut nbytes ++ back = first :: rest ∧ first.place = chunk.place ∧
      (first.size = nbytes ∨ first.size = chunk.size) := by
  rw [Chunk.cut]
  split
  · exact ⟨_, _, rfl, rfl, .inl rfl⟩
  · exact ⟨_, _, rfl, rfl, .inr rfl⟩

/-- Cutting a chunk up and putting it together again. -/
theorem Coalesced.cut_restored (coalesced : Coalesced (chunk :: back)) (free : chunk.free = true) :
    release chunk.place (chunk.cut nbytes ++ back) = chunk :: back := by
  have same : (⟨chunk.place, chunk.size, true⟩ : Chunk) = chunk := by rw [← free]
  rw [Chunk.cut]
  split
  · rw [List.cons_append, List.cons_append, List.nil_append, release, if_pos rfl, Chunk.absorb, if_pos rfl]
    have whole : nbytes + (chunk.size - nbytes - metaBlockSize + metaBlockSize) = chunk.size := by
      rw [BitVec.sub_add_cancel, BitVec.add_comm, BitVec.sub_add_cancel]
    rw [whole, same]
  · rw [List.cons_append, List.nil_append, release, if_pos rfl, coalesced.absorb free, same]

theorem Coalesced.cut (coalesced : Coalesced (front ++ chunk :: back)) (free : chunk.free = true) :
    Coalesced (front ++ (chunk.cut nbytes ++ back)) := by
  obtain ⟨before, behind⟩ := List.isChain_split.mp coalesced
  have start : ∀ size, List.IsChain Chunk.Separate (front ++ [⟨chunk.place, size, false⟩]) := by
    intro size
    rw [List.isChain_append] at before ⊢
    refine ⟨before.1, by simp, ?_⟩
    intro left _ right last
    cases last
    exact .inr rfl
  rw [Chunk.cut]
  split
  · rw [List.cons_append, List.cons_append, List.nil_append]
    refine List.isChain_split.mpr ⟨start nbytes, List.isChain_cons_cons.mpr ⟨.inl rfl, ?_⟩⟩
    cases back with
    | nil => simp
    | cons next rest =>
        obtain ⟨first, later⟩ := List.isChain_cons_cons.mp behind
        exact List.isChain_cons_cons.mpr ⟨Chunk.separate_congr first free.symm rfl, later⟩
  · rw [List.cons_append, List.nil_append]
    refine List.isChain_split.mpr ⟨start chunk.size, ?_⟩
    cases back with
    | nil => simp
    | cons next rest => exact List.isChain_cons_cons.mpr ⟨.inl rfl, (List.isChain_cons_cons.mp behind).2⟩

/-- On a coalesced list the chunk that was handed out can be given back without a trace. -/
theorem Coalesced.serve_release {served : List Chunk} (coalesced : Coalesced chunks)
    (distinct : (chunks.map Chunk.place).Nodup) (found : serve nbytes chunks = some (place, served)) :
    release place served = chunks ∧ Coalesced served := by
  obtain ⟨front, chunk, back, rfl, rfl, suits, _, rfl⟩ := serve_cases found
  have free : chunk.free = true := (Bool.and_eq_true_iff.mp suits).1
  refine ⟨?_, coalesced.cut free⟩
  have elsewhere : ∀ other ∈ front, other.place ≠ chunk.place := by
    intro other member same
    rw [List.map_append, List.map_cons] at distinct
    exact List.disjoint_of_nodup_append distinct (List.mem_map_of_mem member) (by simp [same])
  have behind := (List.isChain_split.mp coalesced).2
  obtain ⟨first, rest, shape, here, _⟩ := chunk.cut_head nbytes back
  have restored : release chunk.place (chunk.cut nbytes ++ back) = chunk :: back :=
    Coalesced.cut_restored behind free
  rw [shape] at restored ⊢
  rw [release_append elsewhere here]
  rw [release, if_pos here] at restored
  rw [restored]

/-! The ledger of a heap in memory. -/

def chunkAt (memory : ByteMemory) (block : Word) : Chunk :=
  ⟨block, (header memory block).size, (header memory block).free⟩

variable {memory memory' : ByteMemory} {blocks preceding following : List Word}

def chunksOf (memory : ByteMemory) (blocks : List Word) : List Chunk := blocks.map (chunkAt memory)

@[simp] theorem chunksOf_nil (memory : ByteMemory) : chunksOf memory [] = [] := rfl

@[simp] theorem chunksOf_cons (memory : ByteMemory) (block : Word) (blocks : List Word) :
    chunksOf memory (block :: blocks) = chunkAt memory block :: chunksOf memory blocks := rfl

theorem chunksOf_congr (same : ∀ block ∈ blocks, header memory' block = header memory block) :
    chunksOf memory' blocks = chunksOf memory blocks := by
  refine List.map_congr_left fun block member => ?_
  rw [chunkAt, same block member, chunkAt]

theorem chunksOf_append (memory : ByteMemory) (preceding following : List Word) :
    chunksOf memory (preceding ++ following) = chunksOf memory preceding ++ chunksOf memory following :=
  List.map_append

/-- Only the headers between the two stretches have changed. -/
theorem chunksOf_replace {middle : List Word}
    (same : ∀ block ∈ preceding ++ following, header memory' block = header memory block) :
    chunksOf memory' (preceding ++ (middle ++ following)) =
      chunksOf memory preceding ++ (chunksOf memory' middle ++ chunksOf memory following) := by
  rw [chunksOf_append, chunksOf_append, chunksOf_congr fun block member => same block (by simp [member]),
    @chunksOf_congr _ _ following fun block member => same block (by simp [member])]

end ScratchOs.Heap
