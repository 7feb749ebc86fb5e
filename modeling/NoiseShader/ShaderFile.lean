import NoiseShader.Parameter
import NoiseShader.Settings

set_option autoImplicit false

/-! # Shader files

A shader file is a program made into one function, with the helpers that it calls in front.
-/

namespace NoiseShader

structure ShaderFile where
  graphName : String
  settings : Settings
  parameters : List Parameter
  program : Program

namespace ShaderFile

def seedDimension (f : ShaderFile) : Dimension :=
  f.settings.seedDimension.getD (.ofCount f.program.seedComponents)

def header (graphName : String) : String :=
  "// Generated by noisegraph from graph " ++ Text.quote graphName

def signature (f : ShaderFile) : String :=
  let seed := f.seedDimension.typeName ++ " " ++ f.settings.seedName
  let further := f.parameters.map fun p => "float " ++ p.label.identifier
  "float " ++ f.settings.functionName ++ "(" ++ String.intercalate ", " (seed :: further) ++ ")"

def includeLine (file : String) : String := "#include \"" ++ file ++ "\""

/-- The lines below the header. -/
def bodyLines (f : ShaderFile) : List String :=
  f.settings.includes.map includeLine ++ [""] ++
    (f.program.helpers.flatMap fun h => h.lines ++ [""]) ++
    [f.signature, "\x7b"] ++
    f.program.lines.map (Shading.indented 1) ++
    [Shading.indented 1 ("return " ++ f.settings.outputSymbol ++ ";"), "\x7d"]

def lines (f : ShaderFile) : List String := header f.graphName :: f.bodyLines

def text (f : ShaderFile) : String := Shading.joinLines f.lines

/-- What is said of a file once it is generated. -/
def summary (f : ShaderFile) : String :=
  "Generated " ++ f.settings.functionName ++ " for " ++ Text.quote f.graphName ++ ": " ++
    toString f.program.statements.length ++ " statements, " ++
    toString f.program.helpers.length ++ " helpers, " ++
    toString f.parameters.length ++ " parameters"

end ShaderFile

/-- The shader file of a graph. Parameters are looked for first, so a fault that they have is
the one reported. -/
def Graph.generate (g : Graph) (settings : Settings) : Except Fault ShaderFile := do
  let parameters ← if settings.exposeParameters then g.parameters else .ok []
  let program ← g.compileWith {
    seedName := settings.seedName
    outputSymbol := settings.outputSymbol
    bindings := .ofParameters parameters
    seedDimension := settings.seedDimension }
  return ⟨g.name, settings, parameters, program⟩

end NoiseShader
