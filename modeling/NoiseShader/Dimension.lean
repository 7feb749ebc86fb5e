set_option autoImplicit false

/-! # Dimensions and axes of the position that noise is sampled at -/

namespace NoiseShader

inductive Dimension
  | one
  | two
  | three
deriving DecidableEq, Repr

namespace Dimension

def all : List Dimension := [one, two, three]

def count : Dimension → Nat
  | one => 1
  | two => 2
  | three => 3

/-- The least dimension with room for `n` components, and three if none has. -/
def ofCount (n : Nat) : Dimension :=
  if n ≤ 1 then one else if n = 2 then two else three

/-- The shading-language type of a position. -/
def typeName : Dimension → String
  | one => "float"
  | two => "float2"
  | three => "float3"

end Dimension

inductive Axis
  | x
  | y
  | z
deriving DecidableEq, Repr

namespace Axis

def all : List Axis := [x, y, z]

def index : Axis → Nat
  | x => 0
  | y => 1
  | z => 2

def label : Axis → String
  | x => "X"
  | y => "Y"
  | z => "Z"

/-- The name of the component in the shading language. -/
def component : Axis → String
  | x => "x"
  | y => "y"
  | z => "z"

end Axis

/-- The axes of a position. -/
def Dimension.axes (d : Dimension) : List Axis := Axis.all.take d.count

end NoiseShader
