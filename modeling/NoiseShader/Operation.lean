import NoiseShader.Slot
import NoiseShader.Shading.Expr

set_option autoImplicit false

/-! # Mathematical operations -/

namespace NoiseShader

inductive Operation
  | add
  | subtract
  | multiply
  | divide
  | power
  | min
  | max
  | modulo
  | step
  | abs
  | negate
  | oneMinus
  | floor
  | ceil
  | frac
  | sqrt
  | sin
  | cos
  | saturate
  | lerp
  | clamp
  | smoothStep
  | remap
deriving DecidableEq, Repr

namespace Operation

def all : List Operation :=
  [add, subtract, multiply, divide, power, min, max, modulo, step, abs, negate, oneMinus,
  floor, ceil, frac, sqrt, sin, cos, saturate, lerp, clamp, smoothStep, remap]

def typeId : Operation → String
  | add => "Add"
  | subtract => "Subtract"
  | multiply => "Multiply"
  | divide => "Divide"
  | power => "Power"
  | min => "Min"
  | max => "Max"
  | modulo => "Modulo"
  | step => "Step"
  | abs => "Abs"
  | negate => "Negate"
  | oneMinus => "OneMinus"
  | floor => "Floor"
  | ceil => "Ceil"
  | frac => "Frac"
  | sqrt => "Sqrt"
  | sin => "Sin"
  | cos => "Cos"
  | saturate => "Saturate"
  | lerp => "Lerp"
  | clamp => "Clamp"
  | smoothStep => "SmoothStep"
  | remap => "Remap"

def displayName : Operation → String
  | oneMinus => "One Minus"
  | smoothStep => "Smooth Step"
  | op => op.typeId

def slots : Operation → List SlotSpec
  | add | subtract | min | max => [⟨"A", Binary32.zero⟩, ⟨"B", Binary32.zero⟩]
  | multiply | divide => [⟨"A", Binary32.one⟩, ⟨"B", Binary32.one⟩]
  | modulo => [⟨"A", Binary32.zero⟩, ⟨"B", Binary32.one⟩]
  | power => [⟨"Base", Binary32.zero⟩, ⟨"Exponent", Binary32.one⟩]
  | step => [⟨"Edge", Binary32.half⟩, ⟨"Value", Binary32.zero⟩]
  | abs | negate | oneMinus | floor | ceil | frac | sqrt | sin | cos | saturate =>
    [⟨"Value", Binary32.zero⟩]
  | lerp => [⟨"A", Binary32.zero⟩, ⟨"B", Binary32.one⟩, ⟨"T", Binary32.half⟩]
  | clamp => [⟨"Value", Binary32.zero⟩, ⟨"Min", Binary32.zero⟩, ⟨"Max", Binary32.one⟩]
  | smoothStep =>
    [⟨"Edge0", Binary32.zero⟩, ⟨"Edge1", Binary32.one⟩, ⟨"Value", Binary32.zero⟩]
  | remap =>
    [⟨"Value", Binary32.zero⟩, ⟨"From Min", Binary32.minusOne⟩, ⟨"From Max", Binary32.one⟩,
    ⟨"To Min", Binary32.zero⟩, ⟨"To Max", Binary32.one⟩]

open Shading in
/-- The value of the operation. Operators need all their inputs; a call passes on the inputs
that there are. -/
def expression? : Operation → List Expr → Option Expr
  | add, a :: b :: _ => some (.binary .add a b)
  | subtract, a :: b :: _ => some (.binary .subtract a b)
  | multiply, a :: b :: _ => some (.binary .multiply a b)
  | divide, a :: b :: _ => some (.binary .divide a b)
  | negate, a :: _ => some (.negate a)
  | oneMinus, a :: _ => some (.binary .subtract (.atom "1.0") a)
  | remap, value :: fromMin :: fromMax :: toMin :: toMax :: _ =>
    let along := Expr.binary .multiply (.binary .subtract value fromMin)
      (.binary .subtract toMax toMin)
    some (.binary .add toMin (.binary .divide along (.binary .subtract fromMax fromMin)))
  | power, inputs => some (.call "pow" inputs)
  | min, inputs => some (.call "min" inputs)
  | max, inputs => some (.call "max" inputs)
  | modulo, inputs => some (.call "fmod" inputs)
  | step, inputs => some (.call "step" inputs)
  | abs, inputs => some (.call "abs" inputs)
  | floor, inputs => some (.call "floor" inputs)
  | ceil, inputs => some (.call "ceil" inputs)
  | frac, inputs => some (.call "frac" inputs)
  | sqrt, inputs => some (.call "sqrt" inputs)
  | sin, inputs => some (.call "sin" inputs)
  | cos, inputs => some (.call "cos" inputs)
  | saturate, inputs => some (.call "saturate" inputs)
  | lerp, inputs => some (.call "lerp" inputs)
  | clamp, inputs => some (.call "clamp" inputs)
  | smoothStep, inputs => some (.call "smoothstep" inputs)
  | _, _ => none

end Operation

end NoiseShader
