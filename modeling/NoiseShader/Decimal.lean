import NoiseShader.Binary32

set_option autoImplicit false

/-! # Decimals and the single-precision numbers nearest to them

A decimal is a whole coefficient times a power of ten. `Decimal.nearestCode` rounds it to
the nearest single-precision magnitude, the even code on a tie.
-/

namespace NoiseShader

/-- The number `coefficient * 10 ^ exponent`. -/
structure Decimal where
  coefficient : Nat
  exponent : Int
deriving DecidableEq, Repr

/-- The whole number nearest to `num / den`, the even one on a tie. -/
def roundHalfEven (num den : Nat) : Nat :=
  let quotient := num / den
  let rest := 2 * (num % den)
  if den < rest ∨ (rest = den ∧ quotient % 2 = 1) then quotient + 1 else quotient

/-- The code of the magnitude nearest to `num / den`. The quotient is taken in units of
`2 ^ -149` and cut to the 24 leading bits that a magnitude of its size keeps. -/
def Binary32.nearestCode (num den : Nat) : Nat :=
  let scaled := num * Nat.pow 2 149
  let block := Nat.log2 (scaled / den) - 23
  min Binary32.infinityCode (block * blockSize + roundHalfEven scaled (den * Nat.pow 2 block))

namespace Decimal

def digits (n : Nat) : List Char := Nat.toDigits 10 n

/-- The position of the decimal point: the number is at least `10 ^ (point - 1)` and below
`10 ^ point`. -/
def point (d : Decimal) : Int := d.exponent + (digits d.coefficient).length

/-- The code of the magnitude nearest to a decimal. Decimals from `10 ^ 40` up are past the
largest finite magnitude, and those below `10 ^ -46` are nearest to zero. -/
def nearestCode (d : Decimal) : Nat :=
  if d.coefficient = 0 ∨ d.point ≤ -46 then 0
  else if 41 ≤ d.point then Binary32.infinityCode
  else if 0 ≤ d.exponent then
    Binary32.nearestCode (d.coefficient * Nat.pow 10 d.exponent.toNat) 1
  else Binary32.nearestCode d.coefficient (Nat.pow 10 (-d.exponent).toNat)

end Decimal

end NoiseShader
