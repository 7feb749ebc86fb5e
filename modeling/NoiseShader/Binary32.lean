set_option autoImplicit false

/-! # Single-precision numbers

A single-precision number is its bit pattern: one sign bit above a 31-bit code. The code
orders the magnitudes: the codes below `infinityCode` are the finite ones, and each of
them stands for a whole number of units of `2 ^ -149`, the least positive magnitude. So
every finite magnitude is a natural number here, and rounding is integer arithmetic.
-/

namespace NoiseShader

/-- A single-precision number. Equality is equality of bits, so the two zeros differ and
not-a-number patterns keep their payload. -/
structure Binary32 where
  bits : UInt32
deriving DecidableEq, Inhabited, Repr

namespace Binary32

/-- The code of infinity; larger codes are not numbers. -/
def infinityCode : Nat := 0x7F800000

/-- The code of the quiet not-a-number without payload. -/
def quietCode : Nat := 0x7FC00000

/-- The weight of the sign bit. -/
def signWeight : Nat := 0x80000000

/-- The number of codes between one doubling of the step and the next. -/
def blockSize : Nat := 0x800000

/-- The sign bit. -/
def negative (x : Binary32) : Bool := decide (signWeight ≤ x.bits.toNat)

/-- The bits below the sign. -/
def code (x : Binary32) : Nat := x.bits.toNat % signWeight

def ofCode (negative : Bool) (code : Nat) : Binary32 :=
  ⟨UInt32.ofNat (code + if negative then signWeight else 0)⟩

def isFinite (x : Binary32) : Bool := decide (x.code < infinityCode)

def isNaN (x : Binary32) : Bool := decide (infinityCode < x.code)

/-- Equality of the numbers rather than of their bits: the zeros agree, and what is not a
number agrees with nothing. -/
def sameNumber (x y : Binary32) : Bool :=
  !x.isNaN && !y.isNaN && (x.bits == y.bits || (x.code == 0 && y.code == 0))

/-- The magnitude with this code, in units of `2 ^ -149`. The codes of the first block stand
for themselves; each block after the second doubles the step. -/
def units (code : Nat) : Nat :=
  if code < blockSize then code
  else (blockSize + code % blockSize) * Nat.pow 2 (code / blockSize - 1)

def zero : Binary32 := ⟨0⟩
def half : Binary32 := ⟨0x3F000000⟩
def one : Binary32 := ⟨0x3F800000⟩
def minusOne : Binary32 := ⟨0xBF800000⟩
def three : Binary32 := ⟨0x40400000⟩

end Binary32

end NoiseShader
