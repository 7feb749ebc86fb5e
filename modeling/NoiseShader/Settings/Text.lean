import NoiseShader.Settings
import NoiseShader.ObjectText.Record
import NoiseShader.ObjectText.Writer

set_option autoImplicit false

/-! # Settings as text

Every field may be left out; it then has its usual value.
-/

namespace NoiseShader.Settings.Text

open ObjectText

def settingsValue (s : Settings) : Value :=
  .record (some "CompilerConfig") [
    ("function_name", .text s.functionName),
    ("output_symbol", .text s.outputSymbol),
    ("seed_name", .text s.seedName),
    ("includes", .list (s.includes.map .text)),
    ("expose_parameters", .bool s.exposeParameters),
    ("coordinate_dims",
      match s.seedDimension with
      | none => .none
      | some d => .some (.bare (dimensionName d)))]

def write (s : Settings) : String := render (settingsValue s)

def fieldNames : List String :=
  ["function_name", "output_symbol", "seed_name", "includes", "expose_parameters",
  "coordinate_dims"]

def asSettings : Decode Settings := fun e v => do
  let usual : Settings := {}
  let fields ← asFields "CompilerConfig" fieldNames 0 e v
  let functionName ← fields.optional e "function_name" asText usual.functionName
  let outputSymbol ← fields.optional e "output_symbol" asText usual.outputSymbol
  let seedName ← fields.optional e "seed_name" asText usual.seedName
  let includes ← fields.optional e "includes" (asList asText) usual.includes
  let exposeParameters ← fields.optional e "expose_parameters" asBool usual.exposeParameters
  let seedDimension ←
    fields.optional e "coordinate_dims" (asOption asDimension) usual.seedDimension
  return ⟨functionName, outputSymbol, seedName, includes, exposeParameters, seedDimension⟩

/-- The settings that a text holds. -/
def read? (text : String) : Option Settings :=
  match ObjectText.read? text with
  | none => none
  | some (e, v) => asSettings e v

end NoiseShader.Settings.Text
