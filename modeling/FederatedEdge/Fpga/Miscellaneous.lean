import FederatedEdge.Fpga.Alu
import Mathlib.Data.Nat.Log

/-!
# Multiplexer and memory

An address has the bits of `$clog2` of the number of words.  A register which
nothing has set has no address yet; what is read there, or at an address without
a word, is unknown and left open.
-/

namespace FederatedEdge.Fpga

/-- The values on an address bus for `WORDS` words. -/
abbrev Address (WORDS : ℕ) :=
  BitVec (Nat.clog 2 WORDS)

variable {WORDS : ℕ}

/-- The word at an address, or something unknown. -/
def selectWord (unknown : Option ℕ → Word) (words : Fin WORDS → Word) :
    Option (Address WORDS) → Word
  | none => unknown none
  | some address =>
      if inside : address.toNat < WORDS then words ⟨address.toNat, inside⟩
      else unknown (some address.toNat)

theorem selectWord_inside (unknown : Option ℕ → Word)
    (words : Fin WORDS → Word) {address : Address WORDS}
    (inside : address.toNat < WORDS) :
    selectWord unknown words (some address) = words ⟨address.toNat, inside⟩ :=
  dif_pos inside

/-- Word number `i` of a packed bus. -/
def busWord (bus : BitVec (32 * WORDS)) (i : Fin WORDS) : Word :=
  bus.extractLsb' (i * 32) 32

def multiplexer_parametrized (unknown : Option ℕ → Word)
    (bus : BitVec (32 * WORDS)) (sel : Option (Address WORDS)) : Word :=
  selectWord unknown (busWord bus) sel

/-! ## Memory -/

/-- The array and the register for what is read from it. -/
structure Memory (WORDS : ℕ) where
  mem : Fin WORDS → Word
  read_data : Word

namespace Memory

/-- `always @(posedge clock)` of `memory_parametrized`. -/
def posedge (reset write_enable : Bool) (write_data : Word)
    (address : Option (Address WORDS)) (memory : Memory WORDS) :
    Memory WORDS :=
  if reset then { memory with mem := fun _ => 0 }
  else if write_enable then
    { memory with
      mem := fun i =>
        if address.map BitVec.toNat = some i.val then write_data
        else memory.mem i }
  else memory

/--
`always @(address)` of `memory_parametrized`: only a new address is read, and
only without `write_enable`.
-/
def settle (unknown : Option ℕ → Word) (write_enable : Bool)
    (before after : Option (Address WORDS)) (memory : Memory WORDS) :
    Memory WORDS :=
  if before ≠ after ∧ write_enable = false then
    { memory with read_data := selectWord unknown memory.mem after }
  else memory

/-- What the initial block sets. -/
def PowerOn (memory : Memory WORDS) : Prop :=
  ∀ i, memory.mem i = 0x3f000000#32

@[simp]
theorem mem_settle (unknown : Option ℕ → Word) (write_enable : Bool)
    (before after : Option (Address WORDS)) (memory : Memory WORDS) :
    (memory.settle unknown write_enable before after).mem = memory.mem := by
  unfold settle
  split <;> rfl

@[simp]
theorem posedge_idle (write_data : Word) (address : Option (Address WORDS))
    (memory : Memory WORDS) :
    memory.posedge false false write_data address = memory :=
  rfl

theorem settle_same (unknown : Option ℕ → Word) (write_enable : Bool)
    (address : Option (Address WORDS)) (memory : Memory WORDS) :
    memory.settle unknown write_enable address address = memory := by
  simp [settle]

theorem read_settle_moved (unknown : Option ℕ → Word)
    {before after : Option (Address WORDS)} (moved : before ≠ after)
    (memory : Memory WORDS) :
    (memory.settle unknown false before after).read_data =
      selectWord unknown memory.mem after := by
  simp [settle, moved]

end Memory

end FederatedEdge.Fpga
