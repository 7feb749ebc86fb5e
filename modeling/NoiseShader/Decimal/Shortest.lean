import NoiseShader.Decimal

set_option autoImplicit false

/-! # The fewest digits that read back

`Decimal.shortest` gives, for a finite magnitude other than zero, a decimal with the fewest
digits among those that round to it, and of these one nearest to it. Candidates are the two
neighbours of the magnitude on the grid of `n`-digit decimals, for growing `n`.

All quantities are counted in steps of `2 ^ -150 * 10 ^ -60`, in which every magnitude, every
boundary between two magnitudes and every candidate is a whole number.
-/

namespace NoiseShader

/-- Which of two equally near candidates is taken. -/
inductive Tie
  | up
  | even
deriving DecidableEq, Repr

namespace Decimal

/-- The exponent of the finest grid. -/
def finest : Nat := 60

/-- A magnitude in steps of `2 ^ -150 * 10 ^ -60`. -/
def steps (code : Nat) : Nat := 2 * Binary32.units code * Nat.pow 10 finest

/-- Whether a decimal, given in steps, rounds to the magnitude with this code. It has to
lie between the midpoints to the two neighbours, which themselves go to the even code. -/
def readsBack (code steps : Nat) : Bool :=
  let lower := (Binary32.units (code - 1) + Binary32.units code) * Nat.pow 10 finest
  let upper := (Binary32.units code + Binary32.units (code + 1)) * Nat.pow 10 finest
  if code % 2 = 0 then decide (lower ≤ steps ∧ steps ≤ upper)
  else decide (lower < steps ∧ steps < upper)

/-- The width, in steps, of the grid of multiples of `10 ^ (place - 60)`. -/
def gridStep (place : Nat) : Nat := Nat.pow 2 150 * Nat.pow 10 place

/-- Whether the upper neighbour is to be preferred to the lower one, when both read back. -/
def prefersUpper (tie : Tie) (lower below above : Nat) : Bool :=
  match compare below above with
  | .lt => false
  | .gt => true
  | .eq => match tie with
    | .up => true
    | .even => lower % 2 == 1

/-- The multiple of `10 ^ (place - 60)` that stands for the magnitude, if one reads back. -/
def onGrid (tie : Tie) (code place : Nat) : Option Nat :=
  let value := steps code
  let width := gridStep place
  let lower := value / width
  let lowerFits := readsBack code (lower * width)
  let upperFits := readsBack code ((lower + 1) * width)
  if lowerFits && upperFits then
    let below := value - lower * width
    let above := (lower + 1) * width - value
    some (if prefersUpper tie lower below above then lower + 1 else lower)
  else if lowerFits then some lower
  else if upperFits then some (lower + 1)
  else none

/-- The number of decimal places that the magnitude has on the finest grid. -/
def places (code : Nat) : Nat := (digits (steps code / gridStep 0)).length

/-- The first grid that has a decimal for the magnitude. The coarsest one has a single
candidate, the next power of ten, which is written with one digit although the magnitude has
one place less. Nine digits always suffice. -/
def shortest (tie : Tie) (code : Nat) : Decimal :=
  let grids := (List.range 10).map fun n => places code - n
  match grids.findSome? fun place => (onGrid tie code place).map fun c => (c, place) with
  | some (coefficient, place) => ⟨coefficient, (place : Int) - finest⟩
  | none => ⟨0, 0⟩

end Decimal

end NoiseShader
