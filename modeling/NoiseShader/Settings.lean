import NoiseShader.Program

set_option autoImplicit false

/-! # Settings of generated files -/

namespace NoiseShader

structure Settings where
  functionName : String := "SampleNoise"
  outputSymbol : String := "result"
  seedName : String := "pos"
  includes : List String := ["NoisePrimitives.hlsl"]
  /-- Whether tunable constants become parameters of the function. -/
  exposeParameters : Bool := true
  /-- The dimension of the seed position; without one it follows from the graph. -/
  seedDimension : Option Dimension := none
deriving DecidableEq, Repr

end NoiseShader
