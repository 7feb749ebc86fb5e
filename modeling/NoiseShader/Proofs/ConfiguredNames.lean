import NoiseShader.Proofs.Closure
import NoiseShader.Proofs.Extraction
import NoiseShader.Proofs.Namespace

set_option autoImplicit false

/-! # Names from the settings

The function of a shader file declares its seed, its parameters, a variable for each node and its
result. The names in the middle are generated and different from each other. The first and the last
come from the settings as they are, so they may clash with the others (`Graph.configured_names_clash`).
Two that differ and do not look like generated names lead to different names throughout, and that is
certain of names without an underscore (`Graph.declared_names_distinct`).
-/

namespace NoiseShader

/-- The names that the function declares, in order. -/
def ShaderFile.declaredNames (f : ShaderFile) : List String :=
  f.settings.seedName :: ((f.parameters.map fun p => p.label.identifier) ++
    f.program.declarations.map Shading.Declaration.variableName)

/-- The name has the form of a parameter's identifier or of a node's variable. -/
def IsGenerated (x : String) : Prop :=
  Label.IsParameter x.toList ∨
    ∃ stem uid, IsStem stem ∧ x.toList = stem ++ '_' :: (UID.text uid).toList

theorem IsGenerated.underscore_mem {x : String} (h : IsGenerated x) : '_' ∈ x.toList := by
  rcases h with ⟨stem, rest, htext, _⟩ | ⟨stem, uid, _, htext⟩
  · rw [htext]
    simp
  · rw [htext]
    simp

theorem isGenerated_variableName (n : Node) : IsGenerated n.variableName := by
  obtain ⟨stem, hname, hstem, _⟩ := n.variableName_eq
  exact .inr ⟨stem, n.uid, hstem, by rw [hname, UID.toList_text]⟩

namespace Graph

variable {g : Graph} {s : Settings} {f : ShaderFile}

/-- The parameters of a file and the variables of the nodes that it emits. -/
def generatedNames (g : Graph) (f : ShaderFile) : List String :=
  (f.parameters.map fun p => p.label.identifier) ++
    (f.program.order.filterMap g.node?).map Node.variableName

/-! ## Generated names -/

theorem variableNames_nodup (g : Graph) {order : List UID} (h : order.Nodup) :
    ((order.filterMap g.node?).map Node.variableName).Nodup := by
  rw [List.Nodup, List.pairwise_map, List.pairwise_filterMap]
  refine List.Pairwise.imp ?_ h
  intro u v hne n hn m hm heq
  -- the UID can be told from the name, and a node is found under its own
  have huid := Node.variableName_injective heq
  rw [(node?_eq_some hn).2, (node?_eq_some hm).2] at huid
  exact hne huid

/-- There are no parameters, or they are those of the graph. -/
theorem parameters_of_generate (h : g.generate s = .ok f) :
    f.parameters = [] ∨ g.parameters = .ok f.parameters := by
  obtain ⟨ps, p, hps, _, rfl⟩ := (generate_eq_ok_iff g s f).mp h
  cases hexposed : s.exposeParameters with
  | false =>
      rw [hexposed] at hps
      exact .inl (Except.ok.inj hps).symm
  | true =>
      rw [hexposed] at hps
      exact .inr hps

theorem isGenerated_of_mem (h : g.generate s = .ok f) {x : String} (hx : x ∈ g.generatedNames f) :
    IsGenerated x := by
  rcases List.mem_append.mp hx with hx | hx
  · obtain ⟨p, hp, rfl⟩ := List.mem_map.mp hx
    rcases parameters_of_generate h with hnone | hall
    · rw [hnone] at hp
      cases hp
    · exact .inl (isParameter_of_mem hall hp)
  · obtain ⟨n, _, rfl⟩ := List.mem_map.mp hx
    exact isGenerated_variableName n

theorem generatedNames_nodup (h : g.generate s = .ok f) : (g.generatedNames f).Nodup := by
  have horder : f.program.order.Nodup := by
    obtain ⟨_, _, _, hp, rfl⟩ := (generate_eq_ok_iff g s f).mp h
    exact nodup_order hp
  unfold generatedNames
  rcases parameters_of_generate h with hnone | hall
  · rw [hnone]
    exact variableNames_nodup g horder
  · refine List.nodup_append'.mpr
      ⟨(parameters_labels_nodup hall).2, variableNames_nodup g horder, ?_⟩
    -- a parameter has a second underscore, a variable has digits behind the first
    intro x hparameter hvariable
    obtain ⟨p, hp, rfl⟩ := List.mem_map.mp hparameter
    obtain ⟨n, _, heq⟩ := List.mem_map.mp hvariable
    refine n.not_isParameter_variableName ?_
    rw [heq]
    exact isParameter_of_mem hall hp

/-! ## All names -/

theorem declaredNames_eq (h : g.generate s = .ok f) :
    f.declaredNames = s.seedName :: (g.generatedNames f ++ [s.outputSymbol]) := by
  obtain ⟨ps, p, _, hp, rfl⟩ := (generate_eq_ok_iff g s f).mp h
  obtain ⟨_, _, _, _, _, _, _, _, houtput⟩ := compileWith_eq_ok hp
  have hresult : p.output.variableName = s.outputSymbol := by
    rw [houtput]
    rfl
  simp only [ShaderFile.declaredNames, generatedNames, Program.declarations, List.map_append,
    variableNames_statements hp, List.map_cons, List.map_nil, hresult, List.append_assoc]

/-- The names that are generated never clash, so the two others decide. -/
theorem declaredNames_nodup_iff (h : g.generate s = .ok f) :
    f.declaredNames.Nodup ↔ s.seedName ≠ s.outputSymbol ∧
      s.seedName ∉ g.generatedNames f ∧ s.outputSymbol ∉ g.generatedNames f := by
  have hgenerated := generatedNames_nodup h
  rw [declaredNames_eq h, List.nodup_cons, List.mem_append, List.mem_singleton, not_or,
    List.nodup_append', List.disjoint_singleton]
  constructor
  · rintro ⟨⟨hseed, hne⟩, _, _, houtput⟩
    exact ⟨hne, hseed, houtput⟩
  · rintro ⟨hne, hseed, houtput⟩
    exact ⟨⟨hseed, hne⟩, hgenerated, List.nodup_singleton _, houtput⟩

/-- A function declares the seed, what is generated and the result. No two names that are generated
are the same, and all of them have their form, with an underscore. If the settings give two different
names and neither is among the generated ones, as is certain of names without that form, then all
names are different. -/
theorem declared_names_distinct (h : g.generate s = .ok f) :
    f.declaredNames = s.seedName :: (g.generatedNames f ++ [s.outputSymbol]) ∧
    (g.generatedNames f).Nodup ∧
    (∀ x ∈ g.generatedNames f, IsGenerated x ∧ '_' ∈ x.toList) ∧
    (s.seedName ≠ s.outputSymbol → s.seedName ∉ g.generatedNames f →
      s.outputSymbol ∉ g.generatedNames f → f.declaredNames.Nodup) ∧
    (s.seedName ≠ s.outputSymbol → ¬ IsGenerated s.seedName → ¬ IsGenerated s.outputSymbol →
      f.declaredNames.Nodup) := by
  have hform : ∀ x ∈ g.generatedNames f, IsGenerated x := fun x hx => isGenerated_of_mem h hx
  refine ⟨declaredNames_eq h, generatedNames_nodup h,
    fun x hx => ⟨hform x hx, (hform x hx).underscore_mem⟩, ?_, ?_⟩
  · intro hne hseed houtput
    exact (declaredNames_nodup_iff h).mpr ⟨hne, hseed, houtput⟩
  · intro hne hseed houtput
    exact (declaredNames_nodup_iff h).mpr ⟨hne, mt (hform _) hseed, mt (hform _) houtput⟩

/-! ## A single sine -/

def wave : Graph := [Edit.add (.math .sin), .setOutput (.node 0)].foldl after (.empty "Wave")

theorem wave_built : wave.Built := (Built.empty "Wave").edits _

theorem wave_compilable {options : Options} (hopen : options.seedDimension = none) :
    wave.Compilable options := by
  have hkind : ∀ n ∈ wave.nodes, n.kind = .math .sin := by decide
  refine compilable_of_descending (by decide) hopen (by decide) ?_ (by decide) ?_
  · intro target htarget
    obtain rfl : 0 = target := Signal.node.inj htarget
    decide
  · intro n hn noise hnoise
    rw [hkind n hn] at hnoise
    cases hnoise

theorem wave_emissionOrder : wave.emissionOrder = [0] := by
  refine emissionOrder_eq_singleton (acyclic_of_targets (by decide)) fun u => ?_
  constructor
  · intro hu
    exact List.mem_singleton.mp hu.mem
  · rintro rfl
    exact ⟨0, rfl, by decide, .refl⟩

/-- Whatever the seed and the result are called, one parameter and one variable are generated. -/
theorem exists_wave_file (hopen : s.seedDimension = none) (hexposed : s.exposeParameters = true) :
    ∃ f, wave.generate s = .ok f ∧ wave.generatedNames f = ["param_Sin_Value", "Sin_0"] := by
  obtain ⟨f, hf⟩ := (exists_file_iff wave_built.wellFormed.fits s).mpr (wave_compilable hopen)
  refine ⟨f, hf, ?_⟩
  obtain ⟨ps, p, hps, hp, rfl⟩ := (generate_eq_ok_iff wave s f).mp hf
  obtain ⟨_, horder, _⟩ := compileWith_eq_ok hp
  rw [hexposed] at hps
  obtain ⟨_, _, rfl⟩ := (parameters_eq_ok_iff wave ps).mp hps
  simp only [generatedNames, tunables, emitted, horder, wave_emissionOrder]
  decide

theorem declared_names_distinct_wave : ∃ f, wave.generate {} = .ok f ∧ f.declaredNames.Nodup ∧
    f.declaredNames = ["pos", "param_Sin_Value", "Sin_0", "result"] := by
  obtain ⟨f, hf, hnames⟩ := exists_wave_file (s := {}) rfl rfl
  obtain ⟨hdeclared, _, _, hdistinct, _⟩ := declared_names_distinct hf
  rw [hnames] at hdeclared hdistinct
  exact ⟨f, hf, hdistinct (by decide) (by decide) (by decide), hdeclared⟩

/-- The seed or the result may be called like a variable, like a parameter or like the other. -/
theorem configured_names_clash : wave.Built ∧
    ∀ s ∈ [({ seedName := "Sin_0" } : Settings), { seedName := "param_Sin_Value" },
        { outputSymbol := "Sin_0" }, { outputSymbol := "param_Sin_Value" }, { seedName := "result" }],
      ∃ f, wave.generate s = .ok f ∧ ¬ f.declaredNames.Nodup := by
  refine ⟨wave_built, ?_⟩
  intro s hs
  have hnames : s.seedDimension = none ∧ s.exposeParameters = true ∧
      ¬ (s.seedName ≠ s.outputSymbol ∧ s.seedName ∉ ["param_Sin_Value", "Sin_0"] ∧
        s.outputSymbol ∉ ["param_Sin_Value", "Sin_0"]) := by
    revert s
    decide
  obtain ⟨hopen, hexposed, hclash⟩ := hnames
  obtain ⟨f, hf, hgenerated⟩ := exists_wave_file hopen hexposed
  refine ⟨f, hf, ?_⟩
  rwa [declaredNames_nodup_iff hf, hgenerated]

end Graph

end NoiseShader
