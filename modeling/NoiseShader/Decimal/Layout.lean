import NoiseShader.Decimal.Shortest

set_option autoImplicit false

/-! # Writing numbers

A layout fixes what the shortest digits leave open: which of two equally near decimals is
taken, which sizes are written without an exponent, and how an exponent is written.
-/

namespace NoiseShader

structure Layout where
  tie : Tie
  /-- Decimal point positions that are written without an exponent. -/
  isPlain : Int → Bool
  /-- Whether a positive exponent has a sign. -/
  plusSign : Bool

namespace Layout

/-- Digits and decimal point without an exponent; there is a digit on both sides. -/
def plain (digits : List Char) (point : Int) : List Char :=
  if point ≤ 0 then '0' :: '.' :: (List.replicate (-point).toNat '0' ++ digits)
  else
    let whole := point.toNat
    let fraction := digits.drop whole
    digits.take whole ++ List.replicate (whole - digits.length) '0' ++
      '.' :: (if fraction.isEmpty then ['0'] else fraction)

def exponent (layout : Layout) (e : Int) : List Char :=
  let sign := if e < 0 then ['-'] else if layout.plusSign then ['+'] else []
  'e' :: (sign ++ Decimal.digits e.natAbs)

/-- One digit before the point, the point only if more follow, then the exponent. -/
def scientific (layout : Layout) (digits : List Char) (point : Int) : List Char :=
  let fraction := digits.drop 1
  digits.take 1 ++ (if fraction.isEmpty then [] else '.' :: fraction) ++
    layout.exponent (point - 1)

/-- The text of a decimal without sign. -/
def decimal (layout : Layout) (d : Decimal) : List Char :=
  let digits := Decimal.digits d.coefficient
  if layout.isPlain d.point then plain digits d.point else layout.scientific digits d.point

/-- The text of a finite magnitude. -/
def magnitude (layout : Layout) (code : Nat) : List Char :=
  if code = 0 then ['0', '.', '0'] else layout.decimal (Decimal.shortest layout.tie code)

/-- The text of a finite number; a zero keeps its sign. -/
def finite (layout : Layout) (x : Binary32) : String :=
  String.ofList ((if x.negative then ['-'] else []) ++ layout.magnitude x.code)

end Layout

end NoiseShader
