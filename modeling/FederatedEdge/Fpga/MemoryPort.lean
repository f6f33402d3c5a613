import FederatedEdge.Fpga.Miscellaneous
import FederatedEdge.Library.Clocked

/-!
# The read port of the memory

Between two edges the inputs settle, and what is read then is looked at.
`memory_32bit` reads whatever its address is, all the time.
`memory_parametrized` reads at a change of the address only: what an edge writes
or resets at an address which stays is not seen.
-/

namespace FederatedEdge.Fpga

open FederatedEdge.Library

variable {WORDS : ℕ}

/-- The inputs of a memory around an edge; the address has a word. -/
structure MemoryInputs (WORDS : ℕ) where
  reset : Bool
  write_enable : Bool
  write_data : Word
  address : Address WORDS
  inside : address.toNat < WORDS

namespace MemoryInputs

/-- The number of the addressed word. -/
def number (inputs : MemoryInputs WORDS) : Fin WORDS :=
  ⟨inputs.address.toNat, inputs.inside⟩

end MemoryInputs

/-! ## The other memory -/

/-- The registers of `memory_32bit`; what it reads is not one of them. -/
structure Memory32 (MEMORY_DEPTH : ℕ) where
  memory_array : Fin MEMORY_DEPTH → Word

namespace Memory32

/-- `always @(posedge clock)` of `memory_32bit`. -/
def posedge (memory : Memory32 WORDS) (inputs : MemoryInputs WORDS) :
    Memory32 WORDS :=
  if inputs.reset then { memory_array := fun _ => 0 }
  else if inputs.write_enable then
    { memory_array := fun i =>
        if i = inputs.number then inputs.write_data else memory.memory_array i }
  else memory

/-- `always @(*)` of `memory_32bit`. -/
def read_data (memory : Memory32 WORDS) (inputs : MemoryInputs WORDS) : Word :=
  memory.memory_array inputs.number

/-- What the initial block sets. -/
def PowerOn (memory : Memory32 WORDS) : Prop :=
  ∀ i, memory.memory_array i = 0

end Memory32

/-! ## What has been written -/

/-- The word which was written last, before edge `t`; a reset writes zero. -/
def lastWritten (initial : Word) (inputs : ℕ → MemoryInputs WORDS) :
    ℕ → Fin WORDS → Word
  | 0, _ => initial
  | t + 1, i =>
      if (inputs t).reset then 0
      else if (inputs t).write_enable ∧ i = (inputs t).number then
        (inputs t).write_data
      else lastWritten initial inputs t i

theorem lastWritten_succ (initial : Word) (inputs : ℕ → MemoryInputs WORDS)
    (t : ℕ) (i : Fin WORDS) :
    lastWritten initial inputs (t + 1) i =
      if (inputs t).reset then 0
      else if (inputs t).write_enable ∧ i = (inputs t).number then
        (inputs t).write_data
      else lastWritten initial inputs t i :=
  rfl

section Runs

variable {unknown : Option ℕ → Word} {initial : Word}
  {inputs : ℕ → MemoryInputs WORDS} {before : Option (Address WORDS)}

/-- `memory_32bit` reads what has been written, from any initial contents. -/
theorem read_memory_32bit {start : Memory32 WORDS}
    (contents : ∀ i, start.memory_array i = initial) (t : ℕ) :
    (stateAt Memory32.posedge start inputs t).read_data (inputs t) =
      lastWritten initial inputs t (inputs t).number := by
  have array (i : Fin WORDS) :
      (stateAt Memory32.posedge start inputs t).memory_array i =
        lastWritten initial inputs t i := by
    induction t with
    | zero => exact contents i
    | succ t inductionHypothesis =>
        rw [stateAt, Memory32.posedge, lastWritten_succ]
        cases (inputs t).reset with
        | true => rfl
        | false =>
            cases (inputs t).write_enable with
            | true =>
                simp only [Bool.false_eq_true, if_false, if_true, true_and,
                  inductionHypothesis]
            | false =>
                simp only [Bool.false_eq_true, if_false, false_and,
                  inductionHypothesis]
  exact array _

/-- The address around the edge before edge `t`. -/
def previousAddress (before : Option (Address WORDS))
    (inputs : ℕ → MemoryInputs WORDS) : ℕ → Option (Address WORDS)
  | 0 => before
  | t + 1 => some (inputs t).address

/-- `memory_parametrized` with settled inputs, before edge `t`. -/
def settledAt (unknown : Option ℕ → Word) (before : Option (Address WORDS))
    (start : Memory WORDS) (inputs : ℕ → MemoryInputs WORDS) : ℕ → Memory WORDS
  | 0 => start.settle unknown (inputs 0).write_enable before (inputs 0).address
  | t + 1 =>
      ((settledAt unknown before start inputs t).posedge (inputs t).reset
          (inputs t).write_enable (inputs t).write_data
          (inputs t).address).settle
        unknown (inputs (t + 1)).write_enable (some (inputs t).address)
        (inputs (t + 1)).address

variable {start : Memory WORDS}

/-- The array is right in every run. -/
theorem mem_settledAt (on : start.PowerOn) (t : ℕ) (i : Fin WORDS) :
    (settledAt unknown before start inputs t).mem i =
      lastWritten 0x3f000000#32 inputs t i := by
  induction t with
  | zero =>
      rw [settledAt, Memory.mem_settle]
      exact on i
  | succ t inductionHypothesis =>
      have addressed :
          Option.map BitVec.toNat (some (inputs t).address) = some i.val ↔
            i = (inputs t).number := by
        rw [Option.map_some, Option.some_inj, Fin.ext_iff]
        exact eq_comm
      rw [settledAt, Memory.mem_settle, Memory.posedge, lastWritten_succ]
      cases (inputs t).reset with
      | true => rfl
      | false =>
          cases (inputs t).write_enable with
          | true =>
              simp only [Bool.false_eq_true, if_false, if_true, true_and,
                addressed, inductionHypothesis]
          | false =>
              simp only [Bool.false_eq_true, if_false, false_and,
                inductionHypothesis]

/--
Wherever something is read, the address has just changed, or the edge before has
neither written nor reset.
-/
def Refreshed (before : Option (Address WORDS))
    (inputs : ℕ → MemoryInputs WORDS) : Prop :=
  ∀ t, (inputs t).write_enable = false →
    previousAddress before inputs t ≠ some (inputs t).address ∨
      ∃ u, t = u + 1 ∧ (inputs u).write_enable = false ∧
        (inputs u).reset = false

/-- What is read is in the array. -/
theorem read_settledAt (refreshed : Refreshed before inputs) (t : ℕ)
    (reading : (inputs t).write_enable = false) :
    (settledAt unknown before start inputs t).read_data =
      (settledAt unknown before start inputs t).mem (inputs t).number := by
  induction t with
  | zero =>
      rcases refreshed 0 reading with moved | ⟨u, impossible, -⟩
      · have changed : before ≠ some (inputs 0).address := moved
        rw [settledAt, reading, Memory.read_settle_moved unknown changed,
          Memory.mem_settle, selectWord_inside unknown _ (inputs 0).inside]
        rfl
      · exact absurd impossible (Nat.succ_ne_zero u).symm
  | succ t inductionHypothesis =>
      by_cases moved : some (inputs t).address ≠ some (inputs (t + 1)).address
      · rw [settledAt, reading, Memory.read_settle_moved unknown moved,
          Memory.mem_settle, selectWord_inside unknown _ (inputs (t + 1)).inside]
        rfl
      · rcases refreshed (t + 1) reading with changed | ⟨u, same, quiet, running⟩
        · exact absurd changed moved
        · rcases Nat.succ.inj same with rfl
          have stays : (inputs t).address = (inputs (t + 1)).address :=
            Option.some.inj (not_not.mp moved)
          have number : (inputs t).number = (inputs (t + 1)).number := by
            apply Fin.ext
            change (inputs t).address.toNat = (inputs (t + 1)).address.toNat
            rw [stays]
          rw [settledAt, quiet, running, Memory.posedge_idle, ← stays,
            Memory.settle_same, ← number]
          exact inductionHypothesis quiet

/-- Wherever something is read, it is what was written last. -/
structure ReadsLastWritten (unknown : Option ℕ → Word)
    (before : Option (Address WORDS)) (start : Memory WORDS)
    (inputs : ℕ → MemoryInputs WORDS) : Prop where
  read :
    ∀ t, (inputs t).write_enable = false →
      (settledAt unknown before start inputs t).read_data =
        lastWritten 0x3f000000#32 inputs t (inputs t).number
  agrees :
    ∀ (other : Memory32 WORDS), (∀ i, other.memory_array i = 0x3f000000#32) →
      ∀ t, (inputs t).write_enable = false →
        (settledAt unknown before start inputs t).read_data =
          (stateAt Memory32.posedge other inputs t).read_data (inputs t)

/--
In every run in which each read follows a change of the address, or an edge
which has neither written nor reset, the memory reads what was written last,
and the same as `memory_32bit` with its initial contents.
-/
theorem memory_parametrized_reads (unknown : Option ℕ → Word)
    (before : Option (Address WORDS)) (on : start.PowerOn)
    (refreshed : Refreshed before inputs) :
    ReadsLastWritten unknown before start inputs := by
  have read (t : ℕ) (reading : (inputs t).write_enable = false) :
      (settledAt unknown before start inputs t).read_data =
        lastWritten 0x3f000000#32 inputs t (inputs t).number := by
    rw [read_settledAt refreshed t reading, mem_settledAt on]
  refine ⟨read, fun other contents t reading => ?_⟩
  rw [read t reading, read_memory_32bit contents]

end Runs

/-! ## A memory of sixteen words -/

def sampleMemory : Memory 16 :=
  ⟨fun _ => 0x3f000000#32, 0⟩

/-- Inputs of the test bench at one of its addresses. -/
def sampleAccess (write_enable : Bool) (write_data : Word) (address : Fin 16) :
    MemoryInputs 16 where
  reset := false
  write_enable := write_enable
  write_data := write_data
  address := BitVec.ofNat _ address.val
  inside := lt_of_lt_of_eq (BitVec.isLt _) (by decide)

/-- Two words are written, and read in the same order. -/
def sampleAccesses : ℕ → MemoryInputs 16
  | 0 => sampleAccess true 0xdeadbeef#32 3
  | 1 => sampleAccess true 0xcafebabe#32 5
  | 2 => sampleAccess false 0 3
  | _ => sampleAccess false 0 5

theorem refreshed_sampleAccesses : Refreshed none sampleAccesses := by
  rintro (_ | _ | _ | _ | t) reading
  · exact Bool.noConfusion reading
  · exact Bool.noConfusion reading
  · exact Or.inl (by decide)
  · exact Or.inl (by decide)
  · exact Or.inr ⟨_, rfl, rfl, rfl⟩

theorem memory_parametrized_reads_sample :
    ReadsLastWritten (fun _ => 0) none sampleMemory sampleAccesses :=
  memory_parametrized_reads (fun _ => 0) none (fun _ => rfl)
    refreshed_sampleAccesses

/-- One word is written, and read at once. -/
def sampleReadBack : ℕ → MemoryInputs 16
  | 0 => sampleAccess true 0xdeadbeef#32 3
  | _ => sampleAccess false 0 3

/-- What was written is not read, though `memory_32bit` reads it. -/
theorem written_word_not_read :
    sampleMemory.PowerOn ∧ Memory32.PowerOn (⟨fun _ => 0⟩ : Memory32 16) ∧
      (settledAt (fun _ => 0) none sampleMemory sampleReadBack 1).read_data ≠
        0xdeadbeef#32 ∧
      (stateAt Memory32.posedge ⟨fun _ => 0⟩ sampleReadBack 1).read_data
          (sampleReadBack 1) =
        0xdeadbeef#32 ∧
      ¬ ReadsLastWritten (fun _ => 0) none sampleMemory sampleReadBack := by
  have unread :
      (settledAt (fun _ => 0) none sampleMemory sampleReadBack 1).read_data ≠
        0xdeadbeef#32 := by
    decide
  refine ⟨fun _ => rfl, fun _ => rfl, unread, by decide, fun right => ?_⟩
  have read := right.read 1 rfl
  have written :
      lastWritten 0x3f000000#32 sampleReadBack 1 (sampleReadBack 1).number =
        0xdeadbeef#32 := by
    decide
  exact unread (read.trans written)

end FederatedEdge.Fpga
