import NoiseShader.CommandLine.Command
import NoiseShader.Manifest
import NoiseShader.Storage
import NoiseShader.Text.Terminal

set_option autoImplicit false

/-! # Running commands

A command turns files into files, an exit status, printed text and log lines. What it did
before a failure stays done.
-/

namespace NoiseShader.CommandLine

inductive Level
  | info
  | warn
  | error
deriving DecidableEq, Repr

def Level.text : Level → String
  | info => "INFO"
  | warn => "WARN"
  | error => "ERROR"

/-- The part of the program that has something to say. -/
inductive Origin
  | storage
  | settings
  | generator
  | program
deriving DecidableEq, Repr

def Origin.text : Origin → String
  | storage => "noisegraph::persist"
  | settings => "noisegraph::config"
  | generator => "noisegraph::driver"
  | program => "noisegraph"

structure LogLine where
  level : Level
  origin : Origin
  message : String
deriving DecidableEq, Repr

def LogLine.text (l : LogLine) : String :=
  l.level.text ++ " " ++ l.origin.text ++ ": " ++ Text.forTerminal l.message

/-- Why a command failed. -/
inductive Failure
  | storage (error : LoadError)
  | settings (error : SettingsError)
  | fault (fault : Fault)
  | write (path : String) (error : FileError)
  | demo (error : EditError)
deriving DecidableEq, Repr

def Failure.message : Failure → String
  | storage error => error.message
  | settings error => error.message
  | fault f => "Compilation failed: " ++ f.message
  | write path error => "Failed to write " ++ path ++ ": " ++ error.message
  | demo error => "Invalid demo graph: " ++ error.message

/-- What a run has done so far. -/
structure Session where
  files : Files
  printed : String
  log : List LogLine

/-- A step of a run: it acts on the session, and may fail after it has acted. -/
abbrev Action (α : Type) := Session → Except Failure α × Session

namespace Action

def done {α : Type} (x : α) : Action α := fun s => (.ok x, s)

def andThen {α β : Type} (a : Action α) (next : α → Action β) : Action β := fun s =>
  match a s with
  | (.ok x, s) => next x s
  | (.error e, s) => (.error e, s)

def ofExcept {α : Type} (result : Except Failure α) : Action α := fun s => (result, s)

def say (level : Level) (origin : Origin) (message : String) : Action Unit := fun s =>
  (.ok (), { s with log := s.log ++ [⟨level, origin, message⟩] })

def print (text : String) : Action Unit := fun s =>
  (.ok (), { s with printed := s.printed ++ text })

/-- Puts changed files in place of the files. -/
def change (edit : Files → Except Failure Files) : Action Unit := fun s =>
  match edit s.files with
  | .ok files => (.ok (), { s with files := files })
  | .error e => (.error e, s)

def loadGraph (path : String) : Action Graph := fun s =>
  match Graph.load s.files path with
  | .error e => (.error (.storage e), s)
  | .ok g =>
    (say .info .storage ("Loaded graph " ++ Text.quote g.name ++ " (" ++
      toString g.nodes.length ++ " nodes) from " ++ path)).andThen (fun _ => done g) s

def saveGraph (g : Graph) (path : String) : Action Unit :=
  (change fun files => (g.save files path).mapError .storage).andThen fun _ =>
    say .info .storage ("Saved graph " ++ Text.quote g.name ++ " to " ++ path)

/-- The settings at a path, or the usual ones. -/
def loadSettings : Option String → Action Settings
  | none => done {}
  | some path => fun s =>
    match Settings.load s.files path with
    | .error e => (.error (.settings e), s)
    | .ok settings =>
      (say .info .settings ("Loaded compiler config from " ++ path)).andThen
        (fun _ => done settings) s

def sayAll (level : Level) (origin : Origin) : List String → Action Unit
  | [] => done ()
  | message :: messages => (say level origin message).andThen fun _ => sayAll level origin messages

def generate (g : Graph) (settings : Settings) : Action ShaderFile :=
  (ofExcept ((g.generate settings).mapError .fault)).andThen fun file =>
    (sayAll .warn .generator (file.program.diagnostics.map Diagnostic.text)).andThen fun _ =>
      (say .info .generator file.summary).andThen fun _ => done file

/-- The shader file of the graph at one path with the settings at another. -/
def loadAndGenerate (graph : String) (settings : Option String) : Action ShaderFile :=
  (loadGraph graph).andThen fun g => (loadSettings settings).andThen fun s => generate g s

def writeFile (path text : String) : Action Unit :=
  (change fun files => (files.writeText path text).mapError (.write path)).andThen fun _ =>
    say .info .program ("Wrote " ++ path)

end Action

/-- White noise raised to a power. -/
def demoGraph : Except EditError Graph := do
  let g := Graph.empty "demo"
  let (noise, g) ← g.add (.noise ⟨.white, .one, CellFormulas.standard⟩)
  let g ← g.setInputNamed noise "X" (.constant ⟨0x436A1FC5⟩)
  let (power, g) ← g.add (.math .power)
  let g ← g.setInputNamed power "Base" (.node noise)
  let g ← g.setInputNamed power "Exponent" (.constant Binary32.three)
  return g.setOutput (.node power)

def versionText : String := "noisegraph 0.1.0\n"

namespace Command

def action : Command → Action Unit
  | compile graph settings output manifest =>
    (Action.loadAndGenerate graph settings).andThen fun file =>
      (match output with
        | some path => Action.writeFile path file.text
        | none => Action.print file.text).andThen fun _ =>
          match manifest with
          | some path => Action.writeFile path (Manifest.text file)
          | none => Action.done ()
  | params graph settings =>
    (Action.loadAndGenerate graph settings).andThen fun file =>
      Action.print (Manifest.text file ++ "\n")
  | convert input output =>
    (Action.loadGraph input).andThen fun g => Action.saveGraph g output
  | demo output =>
    (Action.ofExcept (demoGraph.mapError .demo)).andThen fun g => Action.saveGraph g output
  | version => Action.print versionText

end Command

structure Outcome where
  files : Files
  exit : UInt8
  printed : String
  log : List LogLine

/-- Runs a command. A failure is logged last. -/
def Command.run (command : Command) (files : Files) : Outcome :=
  match command.action ⟨files, "", []⟩ with
  | (.ok _, s) => ⟨s.files, 0, s.printed, s.log⟩
  | (.error e, s) =>
    ⟨s.files, 1, s.printed, s.log ++ [⟨.error, .program, e.message⟩]⟩

/-- Runs what the arguments ask for; a mistake in them changes and prints nothing. -/
def run (files : Files) (arguments : List String) : Outcome :=
  match parse? arguments with
  | some command => command.run files
  | none => ⟨files, 2, "", []⟩

end NoiseShader.CommandLine
