import NoiseShader.CommandLine.Run
import NoiseShader.Proofs.Storage

set_option autoImplicit false

/-! # Conversion between the forms of a graph

A graph file can be converted any number of times, from text to bytes and back. What a user is told
when it is compiled, or when its parameters are listed, stays the same: the exit status, what is
printed, and the fault if there is one (`CommandLine.conversion_invisible`).
-/

namespace NoiseShader.CommandLine

/-! ## What a user is told -/

/-- The fault of the graph that made a command fail. -/
def Failure.fault? : Failure → Option Fault
  | fault f => some f
  | _ => none

structure Response where
  exit : UInt8
  printed : String
  /-- What kept the graph from being compiled. -/
  fault : Option Fault
deriving DecidableEq

def Command.response (command : Command) (files : Files) : Response :=
  { exit := (command.run files).exit
    printed := (command.run files).printed
    fault :=
      match (command.action ⟨files, "", []⟩).1 with
      | .ok _ => none
      | .error e => e.fault? }

/-- The response to a command that prints something of a shader file. -/
def respond (shown : ShaderFile → String) : Except (Option Fault) ShaderFile → Response
  | .ok file => ⟨0, shown file, none⟩
  | .error fault => ⟨1, "", fault⟩

/-- The settings at a path, or the usual ones. -/
def settingsAt (files : Files) : Option String → Except Failure Settings
  | none => .ok {}
  | some path => (Settings.load files path).mapError .settings

/-- The shader file of the graph at one path with the settings at another. -/
def compiled (files : Files) (graph : String) (settings : Option String) :
    Except Failure ShaderFile :=
  (Graph.load files graph).mapError .storage >>= fun g =>
    settingsAt files settings >>= fun s => (g.generate s).mapError .fault

/-! ## Actions that only add to the log -/

/-- The action comes to the result and only adds to the log. -/
def Action.Gives {α : Type} (a : Action α) (files : Files) (result : Except Failure α) : Prop :=
  ∀ printed log, ∃ log', a ⟨files, printed, log⟩ = (result, ⟨files, printed, log'⟩)

namespace Action

variable {α β : Type} {files : Files}

theorem Gives.andThen {a : Action α} {next : α → Action β} {result : Except Failure α}
    {f : α → Except Failure β} (ha : a.Gives files result)
    (hnext : ∀ x, (next x).Gives files (f x)) : (a.andThen next).Gives files (result >>= f) := by
  intro printed log
  obtain ⟨mid, hmid⟩ := ha printed log
  unfold Action.andThen
  rw [hmid]
  cases result with
  | error e => exact ⟨mid, rfl⟩
  | ok x => exact hnext x printed mid

theorem gives_done (x : α) : (done x).Gives files (.ok x) :=
  fun _ log => ⟨log, rfl⟩

theorem gives_ofExcept (result : Except Failure α) : (ofExcept result).Gives files result :=
  fun _ log => ⟨log, rfl⟩

theorem gives_say (level : Level) (origin : Origin) (message : String) :
    (say level origin message).Gives files (.ok ()) :=
  fun _ _ => ⟨_, rfl⟩

theorem gives_sayAll (level : Level) (origin : Origin) (messages : List String) :
    (sayAll level origin messages).Gives files (.ok ()) := by
  induction messages with
  | nil => exact gives_done ()
  | cons message messages ih => exact (gives_say level origin message).andThen fun _ => ih

theorem gives_loadGraph (files : Files) (path : String) :
    (loadGraph path).Gives files ((Graph.load files path).mapError .storage) := by
  intro printed log
  unfold loadGraph
  cases Graph.load files path with
  | error e => exact ⟨log, rfl⟩
  | ok g => exact ⟨_, rfl⟩

theorem gives_loadSettings (files : Files) (settings : Option String) :
    (loadSettings settings).Gives files (settingsAt files settings) := by
  cases settings with
  | none => exact gives_done _
  | some path =>
      intro printed log
      unfold loadSettings settingsAt
      simp only
      cases Settings.load files path with
      | error e => exact ⟨log, rfl⟩
      | ok s => exact ⟨_, rfl⟩

theorem gives_generate (g : Graph) (s : Settings) :
    (generate g s).Gives files ((g.generate s).mapError .fault) := by
  have hlog : ∀ file : ShaderFile,
      ((sayAll .warn .generator (file.program.diagnostics.map Diagnostic.text)).andThen fun _ =>
        (say .info .generator file.summary).andThen fun _ => done file).Gives files (.ok file) :=
    fun file => (gives_sayAll _ _ _).andThen fun _ =>
      (gives_say _ _ _).andThen fun _ => gives_done file
  have hall := (gives_ofExcept ((g.generate s).mapError .fault)).andThen hlog
  have hid : ((g.generate s).mapError Failure.fault >>= fun file => .ok file) =
      (g.generate s).mapError .fault := by
    cases (g.generate s).mapError Failure.fault <;> rfl
  rwa [hid] at hall

theorem gives_loadAndGenerate (files : Files) (graph : String) (settings : Option String) :
    (loadAndGenerate graph settings).Gives files (compiled files graph settings) :=
  (gives_loadGraph files graph).andThen fun g =>
    (gives_loadSettings files settings).andThen fun s => gives_generate g s

end Action

/-! ## The commands -/

section

variable {files : Files} {settings : Option String}

theorem response_eq {command : Command} {graph : String} {shown : ShaderFile → String}
    (h : command.action = (Action.loadAndGenerate graph settings).andThen fun file =>
      Action.print (shown file)) :
    command.response files =
      respond shown ((compiled files graph settings).mapError Failure.fault?) := by
  obtain ⟨log, hlog⟩ := Action.gives_loadAndGenerate files graph settings "" []
  unfold Command.response Command.run
  rw [h]
  unfold Action.andThen
  rw [hlog]
  cases compiled files graph settings with
  | error e => rfl
  | ok file => simp [Action.print, respond, Except.mapError]

theorem response_compile (files : Files) (graph : String) (settings : Option String) :
    (Command.compile graph settings none none).response files =
      respond ShaderFile.text ((compiled files graph settings).mapError Failure.fault?) :=
  response_eq rfl

theorem response_params (files : Files) (graph : String) (settings : Option String) :
    (Command.params graph settings).response files =
      respond (fun file => Manifest.text file ++ "\n")
        ((compiled files graph settings).mapError Failure.fault?) :=
  response_eq rfl

/-- A conversion succeeds by loading the graph and saving it. -/
theorem convert_succeeds_iff (files : Files) (input output : String) :
    ((Command.convert input output).run files).exit = 0 ↔ ∃ g, Graph.load files input = .ok g ∧
      g.save files output = .ok ((Command.convert input output).run files).files := by
  obtain ⟨log, hlog⟩ := Action.gives_loadGraph files input "" []
  unfold Command.run Command.action
  simp only [Action.andThen, hlog]
  cases hload : Graph.load files input with
  | error e => simp [Except.mapError]
  | ok g =>
      simp only [Except.mapError, Action.saveGraph, Action.andThen, Action.change]
      cases hsave : g.save files output with
      | error e => simp [hsave]
      | ok files' => simp [Action.say, hsave]

/-! ## One conversion -/

theorem compiled_of_load {graph : String} {g : Graph} (h : Graph.load files graph = .ok g) :
    compiled files graph settings =
      settingsAt files settings >>= fun s => (g.generate s).mapError .fault := by
  rw [compiled, h]
  rfl

/-- Settings away from where a graph was saved are found as before, or still not found. -/
theorem settingsAt_of_save {files' : Files} {path : String} {g : Graph}
    (h : g.save files path = .ok files')
    (hapart : ∀ cfg ∈ settings, files.locate cfg ≠ files.locate path) :
    (settingsAt files' settings).mapError Failure.fault? =
      (settingsAt files settings).mapError Failure.fault? := by
  cases settings with
  | none => rfl
  | some cfg =>
      have hiff := Settings.load_of_save_iff h (hapart cfg rfl)
      show ((Settings.load files' cfg).mapError .settings).mapError Failure.fault? =
        ((Settings.load files cfg).mapError .settings).mapError Failure.fault?
      cases hold : Settings.load files cfg with
      | ok s => rw [(hiff s).mpr hold]
      | error e =>
          cases hnew : Settings.load files' cfg with
          | ok s =>
              rw [(hiff s).mp hnew] at hold
              cases hold
          | error e' => rfl

/-- A conversion leads to a graph that compiles to the same file, or fails for the same fault. -/
theorem compiled_of_convert {input output : String}
    (hinput : ∀ g, Graph.load files input = .ok g → g.Storable)
    (hsuccess : ((Command.convert input output).run files).exit = 0)
    (hapart : ∀ cfg ∈ settings, files.locate cfg ≠ files.locate output) :
    (∀ g, Graph.load ((Command.convert input output).run files).files output = .ok g →
      g.Storable) ∧
    (compiled ((Command.convert input output).run files).files output settings).mapError
        Failure.fault? =
      (compiled files input settings).mapError Failure.fault? := by
  obtain ⟨g, hload, hsave⟩ := (convert_succeeds_iff files input output).mp hsuccess
  obtain ⟨g', hload', hstorable, hquiet⟩ := (hinput g hload).load_of_save hsave
  have hgenerate : ∀ s, g'.generate s = g.generate s := by
    intro s
    calc g'.generate s = g'.quiet.generate s := (g'.generate_quiet s).symm
      _ = g.quiet.generate s := by rw [hquiet]
      _ = g.generate s := g.generate_quiet s
  constructor
  · intro found hfound
    rw [hload'] at hfound
    obtain rfl := Except.ok.inj hfound
    exact hstorable
  · have hsettings := settingsAt_of_save hsave hapart
    rw [compiled_of_load hload, compiled_of_load hload', Attempt.mapError_bind,
      Attempt.mapError_bind, hsettings]
    simp only [hgenerate]

end

/-! ## The main result -/

/-- Successful conversions one after another, each of what the one before has written. None of them
writes to where the settings are. -/
inductive Conversions (settings : Option String) (files : Files) (input : String) :
    Files → String → Prop
  | none : Conversions settings files input files input
  | next {mid : Files} {path output : String} (before : Conversions settings files input mid path)
      (success : ((Command.convert path output).run mid).exit = 0)
      (apart : ∀ cfg ∈ settings, mid.locate cfg ≠ mid.locate output) :
      Conversions settings files input ((Command.convert path output).run mid).files output

/-- What one conversion keeps, any number of them keep. -/
theorem Conversions.compiled_eq {settings : Option String} {files files' : Files}
    {input output : String} (h : Conversions settings files input files' output)
    (hinput : ∀ g, Graph.load files input = .ok g → g.Storable) :
    (∀ g, Graph.load files' output = .ok g → g.Storable) ∧
    (compiled files' output settings).mapError Failure.fault? =
      (compiled files input settings).mapError Failure.fault? := by
  induction h with
  | none => exact ⟨hinput, rfl⟩
  | next _ success apart ih =>
      obtain ⟨hmid, heq⟩ := ih
      obtain ⟨houtput, hcompiled⟩ := compiled_of_convert hmid success apart
      exact ⟨houtput, hcompiled.trans heq⟩

/-- After any number of conversions, the last file gets the response that the first had before them,
to being compiled and to being asked for its parameters. The first file is one whose bytes a word of
64 bits can count; the byte form has no room for longer texts. -/
theorem conversion_invisible {settings : Option String} {files files' : Files}
    {input output : String}
    (hsize : ∀ content, files.read input = .ok content → content.length < 2 ^ 64)
    (hconversions : Conversions settings files input files' output) :
    (Command.compile output settings none none).response files' =
      (Command.compile input settings none none).response files ∧
    (Command.params output settings).response files' =
      (Command.params input settings).response files := by
  have hinput : ∀ g, Graph.load files input = .ok g → g.Storable :=
    fun g hg => Graph.storable_of_load hg hsize
  obtain ⟨_, hcompiled⟩ := hconversions.compiled_eq hinput
  constructor
  · rw [response_compile, response_compile, hcompiled]
  · rw [response_params, response_params, hcompiled]

/-- A node with a constant that is not a number and has a payload, which text does not keep. -/
def murky : Graph :=
  ⟨"murky", [⟨0, "sine", .math .sin, [⟨"Value", .zero, .constant ⟨0xFFC00001⟩, false⟩]⟩], 1,
    .node 0⟩

def shelf : Files :=
  .ofList [("murky", murky.toBytes), ("settings.ron", "()".toUTF8.data.toList)]

/-- The files with a copy of the bytes. -/
def copied : Files := ((Command.convert "murky" "copy").run shelf).files

theorem conversion_invisible_murky :
    (∀ content, shelf.read "murky" = .ok content → content.length < 2 ^ 64) ∧
    Conversions (some "settings.ron") shelf "murky"
      ((Command.convert "copy" "murky.ron").run copied).files "murky.ron" ∧
    (Command.compile "murky.ron" (some "settings.ron") none none).response
        ((Command.convert "copy" "murky.ron").run copied).files =
      (Command.compile "murky" (some "settings.ron") none none).response shelf ∧
    (Command.params "murky.ron" (some "settings.ron")).response
        ((Command.convert "copy" "murky.ron").run copied).files =
      (Command.params "murky" (some "settings.ron")).response shelf := by
  have hsize : ∀ content, shelf.read "murky" = .ok content → content.length < 2 ^ 64 := by
    have hread : shelf.read "murky" = .ok murky.toBytes := by decide +kernel
    intro content h
    rw [hread] at h
    obtain rfl := Except.ok.inj h
    decide +kernel
  have hcopied : Conversions (some "settings.ron") shelf "murky" copied "copy" := by
    refine .next .none (by decide +kernel) ?_
    rintro cfg ⟨⟩
    decide +kernel
  have hspelled : Conversions (some "settings.ron") shelf "murky"
      ((Command.convert "copy" "murky.ron").run copied).files "murky.ron" := by
    refine .next hcopied (by decide +kernel) ?_
    rintro cfg ⟨⟩
    decide +kernel
  exact ⟨hsize, hspelled, conversion_invisible hsize hspelled⟩

end NoiseShader.CommandLine
