set_option autoImplicit false

/-! # Commands and how they are given -/

namespace NoiseShader.CommandLine

inductive Command
  | compile (graph : String) (settings output manifest : Option String)
  | params (graph : String) (settings : Option String)
  | convert (input output : String)
  | demo (output : String)
  | version
deriving DecidableEq, Repr

/-- The paths that a command reads or writes. -/
def Command.paths : Command → List String
  | compile graph settings output manifest =>
    graph :: (settings.toList ++ output.toList ++ manifest.toList)
  | params graph settings => graph :: settings.toList
  | convert input output => [input, output]
  | demo output => [output]
  | version => []

/-- An option that takes a value. -/
structure Flag where
  long : String
  short : Option Char
deriving DecidableEq, Repr

def settingsFlag : Flag := ⟨"config", some 'c'⟩

def outputFlag : Flag := ⟨"output", some 'o'⟩

def manifestFlag : Flag := ⟨"manifest", none⟩

/-- Arguments sorted into paths and the values of options. -/
structure Arguments where
  paths : List String
  values : List (Flag × String)
deriving DecidableEq, Repr

namespace Arguments

def empty : Arguments := ⟨[], []⟩

/-- No path is empty. -/
def addPath? (a : Arguments) (path : String) : Option Arguments :=
  if path == "" then none else some { a with paths := a.paths ++ [path] }

/-- An option is given once, and not with an empty value. -/
def addValue? (a : Arguments) (flag : Flag) (value : String) : Option Arguments :=
  if value == "" || a.values.any fun entry => entry.1 == flag then none
  else some { a with values := (flag, value) :: a.values }

def value? (a : Arguments) (flag : Flag) : Option String :=
  (a.values.find? fun entry => entry.1 == flag).map Prod.snd

end Arguments

/-- What an argument is before `--`. -/
inductive Shape
  | path
  | separator
  /-- An option, with the value that the argument itself gives it. -/
  | option (flag : Flag) (value : Option String)
  | mistake
deriving DecidableEq, Repr

/-- The value after an option's name, less the equals sign in front of it. -/
def attached : List Char → Option String
  | [] => none
  | '=' :: cs => some (String.ofList cs)
  | cs => some (String.ofList cs)

def optionShape (flag : Option Flag) (value : Option String) : Shape :=
  match flag with
  | none => .mistake
  | some flag => .option flag value

/-- A lone hyphen is a path. -/
def shape (flags : List Flag) (argument : String) : Shape :=
  match argument.toList with
  | ['-', '-'] => .separator
  | '-' :: '-' :: cs =>
    let name := String.ofList (cs.takeWhile (· != '='))
    optionShape (flags.find? fun flag => flag.long == name) (attached (cs.dropWhile (· != '=')))
  | ['-'] => .path
  | '-' :: c :: cs => optionShape (flags.find? fun flag => flag.short == some c) (attached cs)
  | _ => .path

/-- Whether an argument can be the value of the option before it. -/
def isValue (argument : String) : Bool :=
  match argument.toList with
  | ['-'] => true
  | '-' :: _ => false
  | _ => true

/-- Sorts the arguments of a command that knows the given options. -/
def readArguments (flags : List Flag) (a : Arguments) : List String → Option Arguments
  | [] => some a
  | argument :: rest =>
    match shape flags argument with
    | .path => (a.addPath? argument).bind fun a => readArguments flags a rest
    | .separator => rest.foldlM Arguments.addPath? a
    | .option flag (some value) =>
      (a.addValue? flag value).bind fun a => readArguments flags a rest
    | .option flag none =>
      match rest with
      | [] => none
      | value :: rest =>
        if isValue value then
          (a.addValue? flag value).bind fun a => readArguments flags a rest
        else none
    | .mistake => none

/-- Where a demonstration goes that is sent nowhere else. -/
def demoPath : String := "demo.ron"

/-- The command that some arguments give, if there is no mistake in them. -/
def parse? : List String → Option Command
  | "compile" :: rest =>
    match readArguments [settingsFlag, outputFlag, manifestFlag] .empty rest with
    | some a =>
      match a.paths with
      | [graph] =>
        some (.compile graph (a.value? settingsFlag) (a.value? outputFlag)
          (a.value? manifestFlag))
      | _ => none
    | none => none
  | "params" :: rest =>
    match readArguments [settingsFlag] .empty rest with
    | some a =>
      match a.paths with
      | [graph] => some (.params graph (a.value? settingsFlag))
      | _ => none
    | none => none
  | "convert" :: rest =>
    match readArguments [outputFlag] .empty rest with
    | some a =>
      match a.paths, a.value? outputFlag with
      | [input], some output => some (.convert input output)
      | _, _ => none
    | none => none
  | "demo" :: rest =>
    match readArguments [outputFlag] .empty rest with
    | some a =>
      match a.paths with
      | [] => some (.demo ((a.value? outputFlag).getD demoPath))
      | _ => none
    | none => none
  | "--version" :: _ => some .version
  | argument :: _ =>
    match argument.toList with
    | '-' :: 'V' :: _ => some .version
    | _ => none
  | [] => none

end NoiseShader.CommandLine
