import Mathlib.Order.Basic

/-!
# Arithmetic units

The combinational units are functions of their inputs, with the widths and the
wrapping of the registers they compute in.  The divider and the exponential are
clocked: their registers are a structure, and an edge of the clock is a function
from the registers and inputs before it to the registers after it.
-/

namespace FederatedEdge.Fpga

/-- The values on 32-bit wires. -/
abbrev Word :=
  BitVec 32

namespace Word

def sign (A : Word) : Bool :=
  A.getLsbD 31

def exponent (A : Word) : BitVec 8 :=
  A.extractLsb' 23 8

def fraction (A : Word) : BitVec 23 :=
  A.extractLsb' 0 23

/-- The stored fraction with its leading one. -/
def mantissa (A : Word) : BitVec 24 :=
  1#1 ++ A.fraction

def pack (sign : Bool) (exponent : BitVec 8) (fraction : BitVec 23) : Word :=
  BitVec.ofBool sign ++ exponent ++ fraction

end Word

/-- The encoding of 1.0. -/
def one : Word :=
  0x3f800000#32

/-! ## Combinational units -/

def ieee754_compare (A B : Word) : Bool :=
  if A.sign != B.sign then
    !A.sign
  else if A.exponent != B.exponent then
    let result := decide (B.exponent < A.exponent)
    if A.sign then !result else result
  else
    let result := decide (B.fraction < A.fraction)
    if A.sign then !result else result

/--
Shift the mantissa up to its leading one, at most `n` times and not below the
exponent zero.
-/
def adjustMantissa : ℕ → BitVec 24 → BitVec 8 → BitVec 24 × BitVec 8
  | 0, Temp_Mantissa, Exponent => (Temp_Mantissa, Exponent)
  | n + 1, Temp_Mantissa, Exponent =>
      if Temp_Mantissa.getLsbD 23 = false ∧ 0 < Exponent then
        adjustMantissa n (Temp_Mantissa <<< 1) (Exponent - 1)
      else (Temp_Mantissa, Exponent)

def ieee754_adder (A B : Word) : Word :=
  let comp :=
    ieee754_compare (.pack false A.exponent A.fraction)
      (.pack false B.exponent B.fraction)
  let A_swap := if comp then A else B
  let B_swap := if comp then B else A
  let diff_Exponent := A_swap.exponent - B_swap.exponent
  let B_shifted_mantissa := B_swap.mantissa >>> diff_Exponent
  let sum : BitVec 25 :=
    if A_swap.sign = B_swap.sign then
      A_swap.mantissa.setWidth 25 + B_shifted_mantissa.setWidth 25
    else A_swap.mantissa.setWidth 25 - B_shifted_mantissa.setWidth 25
  let carry := sum.getLsbD 24
  let Temp_Mantissa := sum.setWidth 24
  let Exponent := A_swap.exponent
  let (Temp_Mantissa, Exponent) :=
    if carry then
      (Temp_Mantissa >>> 1,
        if Exponent < 0xff#8 then Exponent + 1 else 0xff#8)
    else if Temp_Mantissa = 0 then
      -- the exponent stays that of the operands
      (0, Exponent)
    else adjustMantissa 24 Temp_Mantissa Exponent
  .pack A_swap.sign Exponent (Temp_Mantissa.setWidth 23)

def ieee754_multiplier (A B : Word) : Word :=
  -- nine bits, which wrap below zero
  let Temp_Exponent : BitVec 9 :=
    A.exponent.setWidth 9 + B.exponent.setWidth 9 - 127#9
  let Temp_Mantissa : BitVec 48 :=
    A.mantissa.setWidth 48 * B.mantissa.setWidth 48
  let (Mantissa, Temp_Exponent) : BitVec 23 × BitVec 9 :=
    if Temp_Mantissa.getLsbD 47 then
      (Temp_Mantissa.extractLsb' 24 23, Temp_Exponent + 1)
    else (Temp_Mantissa.extractLsb' 23 23, Temp_Exponent)
  let (Exponent, Mantissa) : BitVec 8 × BitVec 23 :=
    if 255#9 ≤ Temp_Exponent then (0xff#8, 0)
    else if Temp_Exponent ≤ 0 then (0, 0)
    else (Temp_Exponent.setWidth 8, Mantissa)
  .pack (A.sign ^^ B.sign) Exponent Mantissa

/-! ## The divider -/

/-- The registers of the divider. -/
structure Divider where
  index : ℕ
  divider_counter : BitVec 3
  Xn : Word
  result : Word
  deriving DecidableEq

namespace Divider

/-- The divisor scaled to the interval from one half to one. -/
def scaled (B : Word) : Word :=
  .pack false 126 B.fraction

def A1_Xn (B : Word) : Word :=
  let M1_A1 := ieee754_multiplier (scaled B) 0x3ff0f0f1#32
  ieee754_adder 0x4034b4b5#32 (.pack true M1_A1.exponent M1_A1.fraction)

def M3_M4 (B Xn : Word) : Word :=
  let M2_A2 := ieee754_multiplier (scaled B) Xn
  let A2_M3 :=
    ieee754_adder 0x40000000#32
      (.pack (!M2_A2.sign) M2_A2.exponent M2_A2.fraction)
  ieee754_multiplier Xn A2_M3

def M4_OUT (A B Xn : Word) : Word :=
  let reciprocal := M3_M4 B Xn
  ieee754_multiplier A
    (.pack B.sign (reciprocal.exponent + 126 - B.exponent) reciprocal.fraction)

/-- An edge of the clock of `ieee754_divider`. -/
def posedge (ITER : ℕ) (effective_enable : Bool) (A B : Word)
    (divider : Divider) : Divider :=
  if A = 0 then
    { divider with result := 0, divider_counter := 0, index := 0 }
  else if effective_enable then
    if divider.divider_counter = 0 then
      { divider with divider_counter := 1, index := 0 }
    else if divider.divider_counter = 1 then
      { divider with
        Xn := A1_Xn B
        divider_counter := divider.divider_counter + 1 }
    else if divider.divider_counter = 2 then
      if divider.index < ITER then
        { divider with Xn := M3_M4 B divider.Xn, index := divider.index + 1 }
      else
        { divider with
          result := M4_OUT A B divider.Xn
          divider_counter := 0
          index := divider.index + 1 }
    else { divider with divider_counter := 0 }
  else divider

/-- What the initial block sets. -/
structure PowerOn (divider : Divider) : Prop where
  divider_counter : divider.divider_counter = 0
  index : divider.index = 0
  result : divider.result = 0

end Divider

/-! ## The exponential -/

/-- The registers of `ieee754_natural_exponential`. -/
structure NaturalExponential where
  index_fatorial : ℕ
  index_division : ℕ
  div_enable : Bool
  natural_exponential_counter : BitVec 3
  pontential_mul : Word
  fatorial_count : Word
  fatorial_mul : Word
  natural_exponential_sum : Word
  result : Word
  done : Bool
  D1 : Divider
  deriving DecidableEq

namespace NaturalExponential

def M1_D1 (exponential : NaturalExponential) (A : Word) : Word :=
  ieee754_multiplier A exponential.pontential_mul

def A1_M2 (exponential : NaturalExponential) : Word :=
  ieee754_adder one exponential.fatorial_count

def M2_D1 (exponential : NaturalExponential) : Word :=
  ieee754_multiplier exponential.A1_M2 exponential.fatorial_mul

def A2_OUT (exponential : NaturalExponential) : Word :=
  ieee754_adder exponential.D1.result exponential.natural_exponential_sum

/-- The values for a new series. -/
def clear (exponential : NaturalExponential) : NaturalExponential :=
  { exponential with
    index_fatorial := 0
    index_division := 0
    pontential_mul := one
    fatorial_count := 0
    fatorial_mul := one
    natural_exponential_sum := one }

/-- The counting and adding in state 010. -/
def count (ITER : ℕ) (exponential : NaturalExponential) :
    NaturalExponential :=
  if exponential.index_fatorial ≤ ITER then
    if exponential.index_division < ITER * 2 then
      { exponential with index_division := exponential.index_division + 1 }
    else
      { exponential with
        div_enable := false
        index_division := 0
        index_fatorial := exponential.index_fatorial + 1
        natural_exponential_counter :=
          exponential.natural_exponential_counter + 1 }
  else
    { exponential with
      result := exponential.A2_OUT
      done := true
      natural_exponential_counter := 4 }

/-- The case statement over the state. -/
def advance (ITER : ℕ) (A : Word) (exponential : NaturalExponential) :
    NaturalExponential :=
  if exponential.natural_exponential_counter = 0 then
    { exponential.clear with natural_exponential_counter := 1 }
  else if exponential.natural_exponential_counter = 1 then
    { exponential with
      natural_exponential_counter :=
        exponential.natural_exponential_counter + 1
      div_enable := true }
  else if exponential.natural_exponential_counter = 2 then
    exponential.count ITER
  else if exponential.natural_exponential_counter = 3 then
    { exponential with
      pontential_mul := exponential.M1_D1 A
      fatorial_count := exponential.A1_M2
      fatorial_mul := exponential.M2_D1
      natural_exponential_sum := exponential.A2_OUT
      natural_exponential_counter := 1 }
  else if exponential.natural_exponential_counter = 4 then
    -- idle until the next reset
    { exponential with done := false }
  else { exponential with natural_exponential_counter := 0 }

/-- The last statement of the block takes `done` back, except in state 010. -/
def takeBack (exponential : NaturalExponential) : NaturalExponential :=
  if exponential.done ∧ exponential.natural_exponential_counter ≠ 2 then
    { exponential with done := false }
  else exponential

/-- An edge of the clock of `ieee754_natural_exponential`. -/
def posedge (ITER : ℕ) (reset : Bool) (A : Word)
    (exponential : NaturalExponential) : NaturalExponential :=
  let controlled :=
    if reset then
      { exponential.clear with
        div_enable := false
        natural_exponential_counter := 0
        done := false
        result := 0 }
    else (exponential.advance ITER A).takeBack
  { controlled with
    D1 :=
      exponential.D1.posedge 3 exponential.div_enable (exponential.M1_D1 A)
        exponential.M2_D1 }

/-- What the initial blocks set. -/
structure PowerOn (exponential : NaturalExponential) : Prop where
  cleared : exponential.clear = exponential
  div_enable : exponential.div_enable = false
  natural_exponential_counter : exponential.natural_exponential_counter = 0
  done : exponential.done = false
  D1 : exponential.D1.PowerOn

end NaturalExponential

end FederatedEdge.Fpga
