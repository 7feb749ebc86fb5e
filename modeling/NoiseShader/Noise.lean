import NoiseShader.Slot
import NoiseShader.Shading.Expr

set_option autoImplicit false

/-! # Noise generators -/

namespace NoiseShader

inductive NoiseFamily
  | white
  | blocky
  | linear
  | smooth
  | smoother
  | perlin
  | worley
deriving DecidableEq, Repr

namespace NoiseFamily

def all : List NoiseFamily := [white, blocky, linear, smooth, smoother, perlin, worley]

def label : NoiseFamily → String
  | white => "White"
  | blocky => "Blocky"
  | linear => "Linear"
  | smooth => "Smooth"
  | smoother => "Smoother"
  | perlin => "Perlin"
  | worley => "Worley"

/-- The library function of the family, less its dimension. -/
def primitiveStem : NoiseFamily → String
  | white => "hashValue"
  | blocky => "GridNoise"
  | linear => "LinearNoise"
  | smooth => "SmoothNoise"
  | smoother => "SmootherNoise"
  | perlin => "PerlinNoise"
  | worley => "WorleyNoise"

def primitive (family : NoiseFamily) (d : Dimension) : String :=
  family.primitiveStem ++ toString d.count

end NoiseFamily

/-- The two formulas of cellular noise: `distance` from the sample `$1` to a cell's point `$2`,
and `combine` of the nearest distance `$1` with the second nearest `$2`. -/
structure CellFormulas where
  distance : String
  combine : String
deriving DecidableEq, Repr

/-- The formulas that the library function computes. -/
def CellFormulas.standard : CellFormulas := ⟨"distance($1, $2)", "$1"⟩

structure Noise where
  family : NoiseFamily
  dimension : Dimension
  formulas : CellFormulas
deriving DecidableEq, Repr

namespace Noise

/-- The first part of the names of helper functions. -/
def helperStem : String := "Worley"

def helperName (uid : UID) : String := helperStem ++ "_" ++ UID.text uid

/-- Whether the node has formulas of its own, and so needs a helper function. -/
def isCustom (noise : Noise) : Bool :=
  noise.family == .worley && noise.formulas != CellFormulas.standard

def functionName (noise : Noise) (uid : UID) : String :=
  if noise.isCustom then helperName uid else noise.family.primitive noise.dimension

def typeId (noise : Noise) : String :=
  noise.family.label ++ "Noise" ++ toString noise.dimension.count

def displayName (noise : Noise) : String :=
  noise.family.label ++ " Noise " ++ toString noise.dimension.count ++ "D"

/-- The position, its scale, the weight of the result and, for cellular noise, how far the
points of the cells vary along each axis. -/
def slots (noise : Noise) : List SlotSpec :=
  let axes := noise.dimension.axes
  axes.map (fun axis => ⟨axis.label, Binary32.zero⟩) ++
    [⟨"Scale", Binary32.one⟩, ⟨"Weight", Binary32.one⟩] ++
    match noise.family with
    | .worley => axes.map fun axis => ⟨"Variance " ++ axis.label, Binary32.one⟩
    | _ => []

/-- `weight * f(scale * position)`, with the variance as further argument of cellular noise.
There is no expression if inputs are missing. -/
def expression? (noise : Noise) (uid : UID) (inputs : List Shading.Expr) :
    Option Shading.Expr :=
  let n := noise.dimension.count
  match Shading.positionArguments noise.dimension (inputs.take n), inputs.drop n with
  | [position], scale :: weight :: rest =>
    let scaled := Shading.Expr.binary .multiply scale position
    let call := fun further =>
      Shading.Expr.binary .multiply weight
        (.call (noise.functionName uid) (scaled :: further))
    match noise.family with
    | .worley =>
      if rest.length < n then none
      else some (call (Shading.positionArguments noise.dimension (rest.take n)))
    | _ => some (call [])
  | _, _ => none

end Noise

end NoiseShader
