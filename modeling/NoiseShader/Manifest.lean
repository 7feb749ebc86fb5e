import NoiseShader.ShaderFile

set_option autoImplicit false

/-! # Manifests

A manifest describes the function of a shader file to the host that calls it, in JSON.
-/

namespace NoiseShader.Manifest

def escape (c : Char) : List Char :=
  if c = '\x22' then ['\\', '\x22']
  else if c = '\\' then ['\\', '\\']
  else if c = '\x08' then ['\\', 'b']
  else if c = '\x0c' then ['\\', 'f']
  else if c = '\n' then ['\\', 'n']
  else if c = '\r' then ['\\', 'r']
  else if c = '\t' then ['\\', 't']
  else if c.toNat < 0x20 then ['\\', 'u', '0', '0'] ++ Text.hexPair c.toNat
  else [c]

def string (s : String) : String :=
  String.ofList ('\x22' :: (s.toList.flatMap escape ++ ['\x22']))

/-- Numbers have an exponent only outside `10 ^ -6` to `10 ^ 13`, and it has a sign. -/
def numberLayout : Layout where
  tie := .even
  isPlain point := decide (-5 ≤ point ∧ point ≤ 13)
  plusSign := true

def member (key value : String) : String := string key ++ ": " ++ value

/-- The lines of a value that has one item a line. All lines but the last item's end with a
comma. -/
def separated : List (List String) → List String
  | [] => []
  | [item] => item
  | item :: items => item.dropLast ++ (item.getLast?.toList.map (· ++ ",")) ++ separated items

def deeper (lines : List String) : List String := lines.map ("  " ++ ·)

def object (members : List (List String)) : List String :=
  "\x7b" :: (deeper (separated members) ++ ["\x7d"])

def parameter (p : Parameter) : List String :=
  object [
    [member "name" (string p.label.name)],
    [member "identifier" (string p.label.identifier)],
    [member "node" (UID.text p.node)],
    [member "slot" (toString p.slot)],
    [member "default" (numberLayout.finite p.value)]]

def parameterList (parameters : List Parameter) : List String :=
  if parameters.isEmpty then [member "parameters" "[]"]
  else member "parameters" "[" :: (deeper (separated (parameters.map parameter)) ++ ["]"])

def lines (f : ShaderFile) : List String :=
  object [
    [member "function" (string f.settings.functionName)],
    [member "seed_components" (toString f.seedDimension.count)],
    parameterList f.parameters]

def text (f : ShaderFile) : String := String.intercalate "\n" (lines f)

end NoiseShader.Manifest
