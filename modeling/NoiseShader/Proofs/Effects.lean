import NoiseShader.Proofs.Closure
import NoiseShader.Proofs.Conversion

set_option autoImplicit false

/-! # What a run leaves behind

A run changes files only where its command is told to write, whether it succeeds or fails
(`CommandLine.Command.touches_action`). What fails before anything is written leaves all files as they
were. A compilation writes or prints the shader file first and the manifest last, so it may end with
the one and without the other (`CommandLine.CompileOutcome`).
-/

namespace NoiseShader

namespace Files

/-! ## Changes in some places -/

/-- The files are the same but for the contents at the places that some paths lead to. -/
structure ChangedAt (paths : List String) (files files' : Files) : Prop where
  content : ∀ l, (∀ path ∈ paths, files.locate path ≠ .ok l) →
    files'.content? l = files.content? l
  isDirectory : ∀ l, files'.isDirectory l = files.isDirectory l
  /-- Paths lead to where they led before. -/
  locate : ∀ path l, files'.locate path = .ok l ↔ files.locate path = .ok l

namespace ChangedAt

variable {paths : List String} {files mid files' : Files}

theorem refl (paths : List String) (files : Files) : ChangedAt paths files files :=
  ⟨fun _ _ => rfl, fun _ => rfl, fun _ _ => Iff.rfl⟩

theorem trans (h : ChangedAt paths files mid) (h' : ChangedAt paths mid files') :
    ChangedAt paths files files' where
  content l hl := by
    have hmid : ∀ path ∈ paths, mid.locate path ≠ .ok l := by
      intro path hpath hlocate
      exact hl path hpath ((h.locate path l).mp hlocate)
    exact (h'.content l hmid).trans (h.content l hl)
  isDirectory l := (h'.isDirectory l).trans (h.isDirectory l)
  locate path l := (h'.locate path l).trans (h.locate path l)

theorem of_write {path : String} {content : List UInt8} (h : files.write path content = .ok files')
    (hpath : path ∈ paths) : ChangedAt paths files files' := by
  obtain ⟨location, hlocate, _, _, rfl⟩ := (write_eq_ok_iff _ _ _ _).mp h
  have hwithin := within_of_locate hlocate
  refine ⟨?_, isDirectory_put hwithin content, locate_put_iff hwithin content⟩
  intro l hl
  refine content?_put_of_ne ?_ content
  rintro rfl
  exact hl path hpath hlocate

end ChangedAt

theorem readText_of_writeText {files files' : Files} {path text : String}
    (h : files.writeText path text = .ok files') : files'.readText path = .ok text :=
  (readText_eq_ok_iff _ _ _).mpr (read_of_write h)

/-- Nothing is written to a path that leads nowhere. -/
theorem exists_error_of_not_locate {files : Files} {path : String} {content : List UInt8}
    (h : ∀ l, files.locate path ≠ .ok l) : ∃ e, files.write path content = .error e := by
  cases hwrite : files.write path content with
  | error e => exact ⟨e, rfl⟩
  | ok files' =>
      obtain ⟨l, hl, _⟩ := (write_eq_ok_iff _ _ _ _).mp hwrite
      exact absurd hl (h l)

/-- A text stays where it was written, unless something else is written there. -/
theorem readText_of_writeText_other {files mid files' : Files} {path other text : String}
    {content : List UInt8} (hwrite : files.writeText path text = .ok mid)
    (hother : mid.write other content = .ok files') (hapart : files.locate other ≠ files.locate path) :
    files'.readText path = .ok text := by
  have hchanged : ChangedAt [path] files mid := .of_write hwrite (List.mem_singleton_self path)
  obtain ⟨l, hl, _⟩ := (write_eq_ok_iff _ _ _ _).mp hwrite
  have hne : mid.locate path ≠ mid.locate other := by
    intro heq
    rw [(hchanged.locate path l).mpr hl, eq_comm, hchanged.locate] at heq
    exact hapart (heq.trans hl.symm)
  rw [readText_eq_ok_iff, read_other_iff hother hne]
  exact read_of_write hwrite

end Files

namespace CommandLine

/-! ## Actions -/

/-- Whatever its result, the action changes files only in the places that the paths lead to. -/
def Action.Touches {α : Type} (a : Action α) (paths : List String) : Prop :=
  ∀ s, Files.ChangedAt paths s.files (a s).2.files

namespace Action

variable {α β : Type} {paths : List String}

theorem Touches.andThen {a : Action α} {next : α → Action β} (ha : a.Touches paths)
    (hnext : ∀ x, (next x).Touches paths) : (a.andThen next).Touches paths := by
  intro s
  unfold Action.andThen
  have hfirst := ha s
  cases hresult : a s with
  | mk result s' =>
      rw [hresult] at hfirst
      cases result with
      | error e => exact hfirst
      | ok x => exact hfirst.trans (hnext x s')

theorem touches_of_gives {a : Action α} {result : Files → Except Failure α}
    (h : ∀ files, a.Gives files (result files)) : a.Touches paths := by
  intro s
  obtain ⟨log, hlog⟩ := h s.files s.printed s.log
  rw [hlog]
  exact .refl paths s.files

theorem touches_print (text : String) : (print text).Touches paths :=
  fun s => .refl paths s.files

theorem touches_change {edit : Files → Except Failure Files}
    (h : ∀ files files', edit files = .ok files' → Files.ChangedAt paths files files') :
    (change edit).Touches paths := by
  intro s
  unfold change
  cases hedit : edit s.files with
  | error e => exact .refl paths s.files
  | ok files => exact h s.files files hedit

theorem touches_writeFile {path : String} (text : String) (hpath : path ∈ paths) :
    (writeFile path text).Touches paths := by
  refine (touches_change ?_).andThen fun _ => touches_of_gives fun _ => gives_say _ _ _
  intro files files' h
  exact .of_write (Attempt.mapError_eq_ok_iff.mp h) hpath

theorem touches_saveGraph (g : Graph) {path : String} (hpath : path ∈ paths) :
    (saveGraph g path).Touches paths := by
  refine (touches_change ?_).andThen fun _ => touches_of_gives fun _ => gives_say _ _ _
  intro files files' h
  obtain ⟨content, hwrite, _⟩ := Graph.exists_write_of_save (Attempt.mapError_eq_ok_iff.mp h)
  exact .of_write hwrite hpath

/-- A file is written, or nothing happens. -/
theorem writeFile_cases (path text : String) (s : Session) :
    (∃ files log, s.files.writeText path text = .ok files ∧
      writeFile path text s = (.ok (), ⟨files, s.printed, log⟩)) ∨
    ∃ e, s.files.writeText path text = .error e ∧
      writeFile path text s = (.error (.write path e), s) := by
  cases hwrite : s.files.writeText path text with
  | ok files =>
      refine .inl ⟨files, s.log ++ [⟨.info, .program, "Wrote " ++ path⟩], rfl, ?_⟩
      simp only [writeFile, andThen, change, hwrite, Except.mapError]
      rfl
  | error e =>
      refine .inr ⟨e, rfl, ?_⟩
      simp only [writeFile, andThen, change, hwrite, Except.mapError]

def sending (text : String) : Option String → Action Unit
  | none => print text
  | some path => writeFile path text

def attaching (text : String) : Option String → Action Unit
  | none => done ()
  | some path => writeFile path text

end Action

/-! ## Commands -/

/-- The graph or the settings cannot be loaded, or they can and have a fault. -/
def CannotCompile (files : Files) (graph : String) (settings : Option String) : Prop :=
  (∃ e, Graph.load files graph = .error e) ∨ (∃ e, settingsAt files settings = .error e) ∨
    ∃ g s f, Graph.load files graph = .ok g ∧ settingsAt files settings = .ok s ∧
      g.generate s = .error f

theorem exists_error_of_cannotCompile {files : Files} {graph : String} {settings : Option String}
    (h : CannotCompile files graph settings) : ∃ e, compiled files graph settings = .error e := by
  unfold compiled
  rcases h with ⟨e, he⟩ | ⟨e, he⟩ | ⟨g, s, f, hg, hs, hf⟩
  · rw [he]
    exact ⟨_, rfl⟩
  · rw [he]
    cases Graph.load files graph with
    | error e' => exact ⟨_, rfl⟩
    | ok g => exact ⟨_, rfl⟩
  · rw [hg, hs]
    exact ⟨.fault f, by simp [Except.mapError, bind, Except.bind, hf]⟩

namespace Command

/-- The paths that a command is told to write to. -/
def outputs : Command → List String
  | compile _ _ output manifest => output.toList ++ manifest.toList
  | params _ _ => []
  | convert _ output => [output]
  | demo output => [output]
  | version => []

theorem touches_action (command : Command) : command.action.Touches command.outputs := by
  cases command with
  | compile graph settings output manifest =>
      refine (Action.touches_of_gives fun files =>
        Action.gives_loadAndGenerate files graph settings).andThen fun file => ?_
      refine Action.Touches.andThen ?_ fun _ => ?_
      · cases output with
        | none => exact Action.touches_print _
        | some path => exact Action.touches_writeFile _ (by simp [outputs])
      · cases manifest with
        | none => exact Action.touches_of_gives fun _ => Action.gives_done ()
        | some path => exact Action.touches_writeFile _ (by simp [outputs])
  | params graph settings =>
      exact (Action.touches_of_gives fun files =>
        Action.gives_loadAndGenerate files graph settings).andThen fun _ => Action.touches_print _
  | convert input output =>
      exact (Action.touches_of_gives fun files => Action.gives_loadGraph files input).andThen
        fun g => Action.touches_saveGraph g (by simp [outputs])
  | demo output =>
      exact (Action.touches_of_gives fun _ => Action.gives_ofExcept _).andThen
        fun g => Action.touches_saveGraph g (by simp [outputs])
  | version => exact Action.touches_print _

theorem changedAt_run (command : Command) (files : Files) :
    Files.ChangedAt command.outputs files (command.run files).files := by
  have htouches := command.touches_action ⟨files, "", []⟩
  unfold run
  split
  · next hresult =>
      rw [hresult] at htouches
      exact htouches
  · next hresult =>
      rw [hresult] at htouches
      exact htouches

/-- Loading the graph, loading the settings or compiling fails. -/
def Unprepared (files : Files) : Command → Prop
  | compile graph settings _ _ => CannotCompile files graph settings
  | params graph settings => CannotCompile files graph settings
  | convert input _ => ∃ e, Graph.load files input = .error e
  | demo _ => False
  | version => False

/-- What comes after an action that fails is not done. -/
theorem run_of_first_fails {α : Type} {command : Command} {first : Action α} {next : α → Action Unit}
    (haction : command.action = first.andThen next) {files : Files} {e : Failure}
    (h : first.Gives files (.error e)) : (command.run files).exit = 1 ∧
      (command.run files).files = files ∧ (command.run files).printed = "" := by
  obtain ⟨log, hlog⟩ := h "" []
  unfold run
  simp only [haction, Action.andThen, hlog, and_self]

/-- A command that cannot begin to write fails without a trace in the files. -/
theorem run_of_unprepared {command : Command} {files : Files} (h : command.Unprepared files) :
    (command.run files).exit = 1 ∧ (command.run files).files = files ∧
      (command.run files).printed = "" := by
  cases command with
  | compile graph settings output manifest =>
      obtain ⟨e, he⟩ := exists_error_of_cannotCompile h
      have hgives := Action.gives_loadAndGenerate files graph settings
      rw [he] at hgives
      exact run_of_first_fails rfl hgives
  | params graph settings =>
      obtain ⟨e, he⟩ := exists_error_of_cannotCompile h
      have hgives := Action.gives_loadAndGenerate files graph settings
      rw [he] at hgives
      exact run_of_first_fails rfl hgives
  | convert input output =>
      obtain ⟨e, he⟩ := h
      have hgives := Action.gives_loadGraph files input
      rw [he] at hgives
      exact run_of_first_fails rfl hgives
  | demo output => exact h.elim
  | version => exact h.elim

/-- Listing parameters writes to no file at all. -/
theorem files_run_params (files : Files) (graph : String) (settings : Option String) :
    ((params graph settings).run files).files = files := by
  obtain ⟨log, hlog⟩ := Action.gives_loadAndGenerate files graph settings "" []
  unfold run action
  simp only [Action.andThen, hlog]
  cases compiled files graph settings with
  | error e => rfl
  | ok file => rfl

theorem run_params (files : Files) (graph : String) (settings : Option String) {file : ShaderFile}
    (h : compiled files graph settings = .ok file) :
    ((params graph settings).run files).exit = 0 ∧
      ((params graph settings).run files).printed = Manifest.text file ++ "\n" := by
  obtain ⟨log, hlog⟩ := Action.gives_loadAndGenerate files graph settings "" []
  unfold run action
  simp [Action.andThen, hlog, h, Action.print]

end Command

/-! ## Compilations -/

/-- The files and what is printed once a text is sent to the output. -/
def send (files : Files) (text : String) : Option String → Except FileError (Files × String)
  | none => .ok (files, text)
  | some path => (files.writeText path text).map fun files => (files, "")

/-- The files once the manifest is written, if there is to be one. -/
def attach (files : Files) (text : String) : Option String → Except FileError Files
  | none => .ok files
  | some path => files.writeText path text

theorem send_cases (files : Files) (text : String) (output : Option String) (log : List LogLine) :
    (∃ mid printed log', send files text output = .ok (mid, printed) ∧
      Action.sending text output ⟨files, "", log⟩ = (.ok (), ⟨mid, printed, log'⟩)) ∨
    ∃ e failure, send files text output = .error e ∧
      Action.sending text output ⟨files, "", log⟩ = (.error failure, ⟨files, "", log⟩) := by
  cases output with
  | none =>
      refine .inl ⟨files, text, log, rfl, ?_⟩
      simp [Action.sending, Action.print]
  | some path =>
      rcases Action.writeFile_cases path text ⟨files, "", log⟩ with
        ⟨mid, log', hwrite, hresult⟩ | ⟨e, hwrite, hresult⟩
      · refine .inl ⟨mid, "", log', ?_, hresult⟩
        rw [send, hwrite]
        rfl
      · refine .inr ⟨e, _, ?_, hresult⟩
        rw [send, hwrite]
        rfl

theorem attach_cases (text : String) (manifest : Option String) (s : Session) :
    (∃ last log, attach s.files text manifest = .ok last ∧
      Action.attaching text manifest s = (.ok (), ⟨last, s.printed, log⟩)) ∨
    ∃ e failure, attach s.files text manifest = .error e ∧
      Action.attaching text manifest s = (.error failure, s) := by
  cases manifest with
  | none => exact .inl ⟨s.files, s.log, rfl, rfl⟩
  | some path =>
      rcases Action.writeFile_cases path text s with
        ⟨last, log, hwrite, hresult⟩ | ⟨e, hwrite, hresult⟩
      · exact .inl ⟨last, log, hwrite, hresult⟩
      · exact .inr ⟨e, _, hwrite, hresult⟩

theorem action_compile (graph : String) (settings output manifest : Option String) :
    (Command.compile graph settings output manifest).action =
      (Action.loadAndGenerate graph settings).andThen fun file =>
        (Action.sending file.text output).andThen fun _ =>
          Action.attaching (Manifest.text file) manifest := by
  cases output <;> cases manifest <;> rfl

/-- How a compilation can end: the files that it leaves, its exit status and what it has printed. -/
inductive CompileOutcome (files : Files) (graph : String) (settings output manifest : Option String) :
    Files → UInt8 → String → Prop
  | refused {e : Failure} (he : compiled files graph settings = .error e) :
      CompileOutcome files graph settings output manifest files 1 ""
  | unsent {file : ShaderFile} {e : FileError} (hfile : compiled files graph settings = .ok file)
      (he : send files file.text output = .error e) :
      CompileOutcome files graph settings output manifest files 1 ""
  | unattached {file : ShaderFile} {mid : Files} {printed : String} {e : FileError}
      (hfile : compiled files graph settings = .ok file)
      (hsent : send files file.text output = .ok (mid, printed))
      (he : attach mid (Manifest.text file) manifest = .error e) :
      CompileOutcome files graph settings output manifest mid 1 printed
  | done {file : ShaderFile} {mid last : Files} {printed : String}
      (hfile : compiled files graph settings = .ok file)
      (hsent : send files file.text output = .ok (mid, printed))
      (hattached : attach mid (Manifest.text file) manifest = .ok last) :
      CompileOutcome files graph settings output manifest last 0 printed

theorem compileOutcome_run (files : Files) (graph : String) (settings output manifest : Option String) :
    CompileOutcome files graph settings output manifest
      ((Command.compile graph settings output manifest).run files).files
      ((Command.compile graph settings output manifest).run files).exit
      ((Command.compile graph settings output manifest).run files).printed := by
  obtain ⟨log, hlog⟩ := Action.gives_loadAndGenerate files graph settings "" []
  unfold Command.run
  rw [action_compile]
  simp only [Action.andThen, hlog]
  cases hfile : compiled files graph settings with
  | error e => exact .refused hfile
  | ok file =>
      rcases send_cases files file.text output log with
        ⟨mid, printed, log', hsent, hresult⟩ | ⟨e, failure, hsent, hresult⟩
      · rcases attach_cases (Manifest.text file) manifest ⟨mid, printed, log'⟩ with
          ⟨last, log'', hattached, hresult'⟩ | ⟨e, failure, hattached, hresult'⟩
        · simp only [hresult, hresult']
          exact .done hfile hsent hattached
        · simp only [hresult, hresult']
          exact .unattached hfile hsent hattached
      · simp only [hresult]
        exact .unsent hfile hsent

/-- The text has come to the output: it was printed, or is in the file. -/
def Outcome.Holds (out : Outcome) (text : String) : Option String → Prop
  | none => out.printed = text
  | some path => out.printed = "" ∧ out.files.readText path = .ok text

theorem holds_of_send {files mid : Files} {text printed : String} {output : Option String}
    (h : send files text output = .ok (mid, printed)) {out : Outcome} (hfiles : out.files = mid)
    (hprinted : out.printed = printed) : out.Holds text output := by
  cases output with
  | none =>
      obtain ⟨rfl, rfl⟩ := Prod.mk.inj (Except.ok.inj h)
      exact hprinted
  | some path =>
      obtain ⟨mid, hwrite, heq⟩ := Attempt.map_eq_ok_iff.mp h
      obtain ⟨rfl, rfl⟩ := Prod.mk.inj heq
      refine ⟨hprinted, ?_⟩
      rw [hfiles]
      exact Files.readText_of_writeText hwrite

/-- The manifest does not take the place of the shader file, unless it is sent there. -/
theorem holds_of_attach {files mid last : Files} {text manifestText printed : String}
    {output manifest : Option String} (h : send files text output = .ok (mid, printed))
    (hattached : attach mid manifestText manifest = .ok last)
    (hapart : ∀ path ∈ output, ∀ other ∈ manifest, files.locate other ≠ files.locate path)
    {out : Outcome} (hfiles : out.files = last) (hprinted : out.printed = printed) :
    out.Holds text output := by
  cases output with
  | none =>
      obtain ⟨rfl, rfl⟩ := Prod.mk.inj (Except.ok.inj h)
      exact hprinted
  | some path =>
      cases manifest with
      | none =>
          obtain rfl := Except.ok.inj hattached
          exact holds_of_send h hfiles hprinted
      | some other =>
          obtain ⟨mid, hwrite, heq⟩ := Attempt.map_eq_ok_iff.mp h
          obtain ⟨rfl, rfl⟩ := Prod.mk.inj heq
          refine ⟨hprinted, ?_⟩
          rw [hfiles]
          exact Files.readText_of_writeText_other hwrite hattached (hapart path rfl other rfl)

/-! ## The main result -/

/-- What a compilation leaves behind. -/
structure LeftByCompile (files : Files) (graph : String) (settings output manifest : Option String)
    (out : Outcome) : Prop where
  /-- A success leaves the shader file, and the manifest if there is to be one. -/
  success : out.exit = 0 → ∃ file, compiled files graph settings = .ok file ∧
    ((∀ path ∈ output, ∀ other ∈ manifest, files.locate other ≠ files.locate path) →
      out.Holds file.text output) ∧
    ∀ path ∈ manifest, ∃ text, out.files.readText path = .ok text ∧
      ((Command.params graph settings).run files).exit = 0 ∧
      ((Command.params graph settings).run files).printed = text ++ "\n"
  /-- A failure to write the manifest comes too late to keep the shader file back. -/
  late : ∀ file mid printed e, compiled files graph settings = .ok file →
    send files file.text output = .ok (mid, printed) →
    attach mid (Manifest.text file) manifest = .error e →
    out.exit = 1 ∧ out.Holds file.text output

theorem CompileOutcome.leaves {files : Files} {graph : String}
    {settings output manifest : Option String} {out : Outcome}
    (h : CompileOutcome files graph settings output manifest out.files out.exit out.printed) :
    LeftByCompile files graph settings output manifest out := by
  generalize hfiles : out.files = left at h
  generalize hexit : out.exit = exit at h
  generalize hprinted : out.printed = shown at h
  constructor
  · intro hsuccess
    rw [hexit] at hsuccess
    cases h with
    | refused he => cases hsuccess
    | unsent hfile he => cases hsuccess
    | unattached hfile hsent he => cases hsuccess
    | @done file mid last printed hfile hsent hattached =>
        refine ⟨file, hfile, fun hapart => holds_of_attach hsent hattached hapart hfiles hprinted, ?_⟩
        rintro path rfl
        refine ⟨Manifest.text file, ?_, Command.run_params files graph settings hfile⟩
        rw [hfiles]
        exact Files.readText_of_writeText hattached
  · intro file mid printed e hfile hsent hlate
    -- what was compiled, and where it was sent, is the same in each case
    cases h with
    | refused he => rw [hfile] at he; cases he
    | unsent hfile' he =>
        obtain rfl := Except.ok.inj (hfile.symm.trans hfile')
        rw [hsent] at he
        cases he
    | unattached hfile' hsent' he =>
        obtain rfl := Except.ok.inj (hfile.symm.trans hfile')
        exact ⟨hexit, holds_of_send hsent' hfiles hprinted⟩
    | done hfile' hsent' hattached =>
        obtain rfl := Except.ok.inj (hfile.symm.trans hfile')
        obtain ⟨rfl, rfl⟩ := Prod.mk.inj (Except.ok.inj (hsent.symm.trans hsent'))
        rw [hlate] at hattached
        cases hattached

/-- A run changes files only where it is told to write, and none if it lists parameters or if it fails
before it can write. A compilation leaves the shader file first and the manifest second. -/
theorem run_writes_where_told {files : Files} {arguments : List String} {command : Command}
    (h : parse? arguments = some command) {out : Outcome} (hout : run files arguments = out) :
    Files.ChangedAt command.outputs files out.files ∧
    (∀ graph settings, command = .params graph settings → out.files = files) ∧
    (command.Unprepared files → out.exit = 1 ∧ out.files = files ∧ out.printed = "") ∧
    ∀ graph settings output manifest, command = .compile graph settings output manifest →
      LeftByCompile files graph settings output manifest out := by
  have hrun : command.run files = out := by
    rw [← hout, run, h]
  subst hrun
  refine ⟨command.changedAt_run files, ?_, Command.run_of_unprepared, ?_⟩
  · rintro graph settings rfl
    exact Command.files_run_params files graph settings
  · rintro graph settings output manifest rfl
    exact (compileOutcome_run files graph settings output manifest).leaves

/-- The bytes of the ramp, where a directory might be looked for. -/
def workshop : Files := .ofList [("ramp", Graph.ramp.toBytes)]

theorem compiled_workshop : ∃ file, compiled workshop "ramp" none = .ok file := by
  have hread : workshop.read "ramp" = .ok Graph.ramp.toBytes := by decide +kernel
  have hload : Graph.load workshop "ramp" = .ok Graph.ramp :=
    (Graph.load_bytes_iff (by decide) workshop _).mpr ⟨_, hread, rfl⟩
  obtain ⟨file, hfile⟩ := (Graph.exists_file_iff Graph.ramp_built.wellFormed.fits {}).mpr
    Graph.ramp_compilable
  refine ⟨file, ?_⟩
  rw [compiled_of_load hload]
  show (Graph.ramp.generate {}).mapError Failure.fault = .ok file
  rw [hfile]
  rfl

/-- Asks for a manifest that would be below the graph's own file. -/
def lateDemand : List String := ["compile", "ramp", "-o", "out", "--manifest", "ramp/list"]

/-- The manifest cannot be written below a file. The run fails, but the shader file is there, and the
graph is as it was. -/
theorem run_writes_where_told_workshop :
    parse? lateDemand = some (.compile "ramp" none (some "out") (some "ramp/list")) ∧
    (run workshop lateDemand).exit = 1 ∧
    (∃ file, compiled workshop "ramp" none = .ok file ∧
      (run workshop lateDemand).files.readText "out" = .ok file.text) ∧
    (run workshop lateDemand).files.content? ["ramp"] = some Graph.ramp.toBytes := by
  have hparse : parse? lateDemand = some (.compile "ramp" none (some "out") (some "ramp/list")) := by
    decide
  have hout : workshop.locate "out" = .ok ["out"] := by decide +kernel
  have hlist : workshop.locate "ramp/list" = .error .notDirectory := by decide +kernel
  obtain ⟨file, hfile⟩ := compiled_workshop
  obtain ⟨hchanged, _, _, hcompile⟩ := run_writes_where_told hparse (rfl : run workshop lateDemand = _)
  have hsource : workshop.writeText "out" file.text =
      .ok (workshop.put ["out"] file.text.toUTF8.data.toList) :=
    (Files.write_eq_ok_iff _ _ _ _).mpr ⟨_, hout, by decide +kernel, by decide, rfl⟩
  have hsent : send workshop file.text (some "out") =
      .ok (workshop.put ["out"] file.text.toUTF8.data.toList, "") := by
    rw [send, hsource]
    rfl
  have hput : Files.ChangedAt ["out"] workshop _ :=
    .of_write hsource (List.mem_singleton_self "out")
  obtain ⟨e, he⟩ : ∃ e, attach (workshop.put ["out"] file.text.toUTF8.data.toList)
      (Manifest.text file) (some "ramp/list") = .error e := by
    refine Files.exists_error_of_not_locate fun l hl => ?_
    rw [hput.locate, hlist] at hl
    cases hl
  obtain ⟨hexit, _, hthere⟩ := (hcompile _ _ _ _ rfl).late file _ _ e hfile hsent he
  refine ⟨hparse, hexit, ⟨file, hfile, hthere⟩, ?_⟩
  have hgraph : workshop.content? ["ramp"] = some Graph.ramp.toBytes := by decide +kernel
  rw [hchanged.content, hgraph]
  have hoff : (["out", "ramp/list"].all fun path => workshop.locate path != .ok ["ramp"]) = true := by
    decide +kernel
  intro path hpath
  simpa using List.all_eq_true.mp hoff path hpath

end CommandLine

end NoiseShader
