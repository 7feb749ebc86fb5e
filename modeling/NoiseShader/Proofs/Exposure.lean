import NoiseShader.ShaderFile
import NoiseShader.Proofs.Parameter

set_option autoImplicit false

/-! # Exposing parameters

A shader file can be generated with its tunable constants written out, or with parameters in
their place. Either both can be generated or neither, and then they differ in the inputs that are
tunable and in nothing else (`Graph.exposure_preserves_program`).
-/

namespace NoiseShader

namespace Settings

/-- The settings with parameters, or with all constants written out. -/
def exposing (s : Settings) (expose : Bool) : Settings := { s with exposeParameters := expose }

/-- The names that a program takes from the settings. -/
def options (s : Settings) (parameters : List Parameter) : Options where
  seedName := s.seedName
  outputSymbol := s.outputSymbol
  bindings := .ofParameters parameters
  seedDimension := s.seedDimension

end Settings

namespace Graph

/-! ## Inputs that are determined -/

theorem Resolves.eq_identifier {g : Graph} {bindings : Bindings} {u : UID} {i : Nat} {x : Binary32}
    {e : Shading.Expr} (h : g.Resolves bindings u i (.constant x) e) {identifier : String}
    (hbound : bindings.find? u i = some identifier) : e = .atom identifier := by
  cases h with
  | bound h => rw [hbound] at h; rw [Option.some.inj h]
  | literal h _ => rw [hbound] at h; cases h

theorem Resolves.eq_literal {g : Graph} {bindings : Bindings} {u : UID} {i : Nat} {x : Binary32}
    {e : Shading.Expr} (h : g.Resolves bindings u i (.constant x) e)
    (hunbound : bindings.find? u i = none) :
    ∃ text, Shading.literal? x = some text ∧ e = .atom text := by
  cases h with
  | bound h => rw [hunbound] at h; cases h
  | literal _ htext => exact ⟨_, htext, rfl⟩

/-- A slot that is not bound has the same input under all bindings that leave it so. -/
theorem Resolves.unbound_eq {g : Graph} {bindings bindings' : Bindings} {u : UID} {i : Nat}
    {signal : Signal} {e e' : Shading.Expr} (h : g.Resolves bindings u i signal e)
    (hunbound : bindings.find? u i = none) (h' : g.Resolves bindings' u i signal e')
    (hunbound' : bindings'.find? u i = none) : e = e' := by
  cases signal with
  | constant x =>
      obtain ⟨text, htext, rfl⟩ := h.eq_literal hunbound
      obtain ⟨text', htext', rfl⟩ := h'.eq_literal hunbound'
      rw [Option.some.inj (htext.symm.trans htext')]
  | node target =>
      cases h with
      | node hn =>
          cases h' with
          | node hn' => rw [Option.some.inj (hn.symm.trans hn')]

/-- The parameter of a site is the only one. -/
theorem filter_site_eq {ps : List Parameter} (hnodup : (ps.map Parameter.site).Nodup)
    {p : Parameter} (hp : p ∈ ps) : ps.filter (fun q => q.site = p.site) = [p] := by
  induction ps with
  | nil => cases hp
  | cons q ps ih =>
      rw [List.map_cons, List.nodup_cons] at hnodup
      rcases List.mem_cons.mp hp with rfl | hp
      · have hrest : ps.filter (fun q => q.site = p.site) = [] := by
          rw [List.filter_eq_nil_iff]
          intro q hq
          simp only [decide_eq_true_eq]
          exact fun heq => hnodup.1 (heq ▸ List.mem_map_of_mem hq)
        rw [List.filter_cons_of_pos (by simp), hrest]
      · have hother : q.site ≠ p.site := fun heq => hnodup.1 (heq ▸ List.mem_map_of_mem hp)
        rw [List.filter_cons_of_neg (by simpa using hother), ih hnodup.2 hp]

/-! ## What is generated -/

/-- A file is a program whose bindings are the parameters, if there are to be any. -/
theorem generate_eq_ok_iff (g : Graph) (s : Settings) (f : ShaderFile) :
    g.generate s = .ok f ↔ ∃ ps p,
      (if s.exposeParameters then g.parameters else .ok []) = .ok ps ∧
      g.compileWith (s.options ps) = .ok p ∧ f = ⟨g.name, s, ps, p⟩ := by
  have hgenerate : g.generate s =
      (if s.exposeParameters then g.parameters else .ok []) >>= fun ps =>
        g.compileWith (s.options ps) >>= fun p => .ok ⟨g.name, s, ps, p⟩ := by
    unfold generate
    cases s.exposeParameters <;> rfl
  rw [hgenerate, Attempt.bind_eq_ok_iff]
  constructor
  · rintro ⟨ps, hps, h⟩
    obtain ⟨p, hp, h⟩ := Attempt.bind_eq_ok_iff.mp h
    exact ⟨ps, p, hps, hp, (Except.ok.inj h).symm⟩
  · rintro ⟨ps, p, hps, hp, rfl⟩
    exact ⟨ps, hps, Attempt.bind_eq_ok_iff.mpr ⟨p, hp, rfl⟩⟩

theorem generate_exposed_eq_ok_iff (g : Graph) (s : Settings) (f : ShaderFile) :
    g.generate (s.exposing true) = .ok f ↔ ∃ ps p, g.parameters = .ok ps ∧
      g.compileWith (s.options ps) = .ok p ∧ f = ⟨g.name, s.exposing true, ps, p⟩ :=
  generate_eq_ok_iff g (s.exposing true) f

theorem generate_inlined_eq_ok_iff (g : Graph) (s : Settings) (f : ShaderFile) :
    g.generate (s.exposing false) = .ok f ↔ ∃ p, g.compileWith (s.options []) = .ok p ∧
      f = ⟨g.name, s.exposing false, [], p⟩ := by
  rw [generate_eq_ok_iff]
  constructor
  · rintro ⟨ps, p, hps, hp, rfl⟩
    obtain rfl : [] = ps := Except.ok.inj hps
    exact ⟨p, hp, rfl⟩
  · rintro ⟨p, hp, rfl⟩
    exact ⟨[], p, rfl, hp, rfl⟩

/-! ## When it can be generated -/

/-- A slot of an emitted node is bound exactly if it is tunable. -/
theorem find?_ofParameters_eq_none_iff {g : Graph} {ps : List Parameter} (h : g.parameters = .ok ps)
    {u : UID} (hu : u ∈ g.emissionOrder) {n : Node} (hn : g.node? u = some n) {i : Nat} {s : Slot}
    (hs : n.slots[i]? = some s) :
    (Bindings.ofParameters ps).find? u i = none ↔ s.tunable? = none := by
  have hnodup := parameters_sites_nodup h
  rw [Option.eq_none_iff_forall_ne_some, Option.eq_none_iff_forall_ne_some]
  constructor
  · intro hunbound x hx
    obtain ⟨p, hp, hsite, _⟩ := (exists_parameter_iff h hu hn hs x).mpr hx
    exact hunbound _ ((Bindings.find?_ofParameters hnodup u i _).mpr ⟨p, hp, hsite, rfl⟩)
  · intro hfixed identifier hbound
    obtain ⟨p, hp, hsite, _⟩ := (Bindings.find?_ofParameters hnodup u i _).mp hbound
    exact hfixed _ ((exists_parameter_iff h hu hn hs p.value).mp ⟨p, hp, hsite, rfl⟩)

/-- With parameters for the constants that are tunable, a node is clean if these are finite and
the others are, that is, if it is clean without parameters. -/
theorem clean_exposed_iff {g : Graph} {ps : List Parameter} (h : g.parameters = .ok ps)
    (s : Settings) {u : UID} (hu : u ∈ g.emissionOrder) {n : Node} (hn : g.node? u = some n) :
    n.Clean (s.options ps) ↔ n.Clean (s.options []) := by
  have huid : n.uid = u := (node?_eq_some hn).2
  constructor
  · intro hclean
    refine ⟨hclean.axis, hclean.formulas, ?_⟩
    intro i slot x hslot hsignal _
    by_cases htunable : slot.tunable? = none
    · refine hclean.finite i slot x hslot hsignal ?_
      rw [huid]
      exact (find?_ofParameters_eq_none_iff h hu hn hslot).mpr htunable
    · -- a tunable constant was found finite with the parameters
      obtain ⟨y, hy⟩ := Option.ne_none_iff_exists'.mp htunable
      obtain rfl : x = y := by
        rw [((slot.tunable?_eq_some_iff y).mp hy).2] at hsignal
        exact (Signal.constant.inj hsignal).symm
      obtain ⟨_, hfinite, _⟩ := (parameters_eq_ok_iff g ps).mp h
      exact hfinite ⟨Label.ofSlot n slot, u, i, x⟩
        ((mem_tunables g _).mpr ⟨hu, n, slot, hn, hslot, hy, rfl⟩)
  · intro hclean
    refine ⟨hclean.axis, hclean.formulas, ?_⟩
    intro i slot x hslot hsignal _
    exact hclean.finite i slot x hslot hsignal rfl

theorem compilable_exposed_iff {g : Graph} {ps : List Parameter} (h : g.parameters = .ok ps)
    (s : Settings) : g.Compilable (s.options ps) ↔ g.Compilable (s.options []) := by
  have hplan := ((parameters_eq_ok_iff g ps).mp h).1
  have hclean : ∀ u n, g.Reaches u → g.node? u = some n →
      (n.Clean (s.options ps) ↔ n.Clean (s.options [])) := fun u n hu hn =>
    clean_exposed_iff h s ((mem_emissionOrder hplan.acyclic u).mpr hu) hn
  constructor
  · intro hg
    exact ⟨hg.output, hg.acyclic, hg.tight,
      fun u n hu hn => (hclean u n hu hn).mp (hg.clean u n hu hn), hg.constant⟩
  · intro hg
    exact ⟨hg.output, hg.acyclic, hg.tight,
      fun u n hu hn => (hclean u n hu hn).mpr (hg.clean u n hu hn), hg.constant⟩

/-- A graph that compiles without parameters has parameters. -/
theorem exists_parameters {g : Graph} {s : Settings} (hg : g.Compilable (s.options [])) :
    ∃ ps, g.parameters = .ok ps := by
  refine ⟨_, (parameters_eq_ok_iff g _).mpr ⟨⟨hg.output, hg.acyclic, hg.tight⟩, ?_, rfl⟩⟩
  intro t ht
  obtain ⟨hu, n, slot, hn, hslot, hvalue, _⟩ := (mem_tunables g t).mp ht
  have hclean := hg.clean _ n ((mem_emissionOrder hg.acyclic _).mp hu) hn
  exact hclean.finite _ slot t.value hslot ((slot.tunable?_eq_some_iff _).mp hvalue).2 rfl

/-- A file can be generated exactly if the graph compiles with all constants written out. -/
theorem exists_file_iff {g : Graph} (hfits : ∀ n ∈ g.nodes, n.Fits) (s : Settings) :
    (∃ f, g.generate s = .ok f) ↔ g.Compilable (s.options []) := by
  simp only [generate_eq_ok_iff]
  cases s.exposeParameters with
  | false =>
      constructor
      · rintro ⟨f, ps, p, hps, hp, _⟩
        obtain rfl : [] = ps := Except.ok.inj hps
        exact compilable_of_compileWith hp
      · intro hg
        obtain ⟨p, hp⟩ := exists_program hfits hg
        exact ⟨_, [], p, rfl, hp, rfl⟩
  | true =>
      constructor
      · rintro ⟨f, ps, p, hps, hp, _⟩
        exact (compilable_exposed_iff hps s).mp (compilable_of_compileWith hp)
      · intro hg
        obtain ⟨ps, hps⟩ := exists_parameters hg
        obtain ⟨p, hp⟩ := exists_program hfits ((compilable_exposed_iff hps s).mpr hg)
        exact ⟨_, ps, p, hps, hp, rfl⟩

/-! ## What is the same -/

/-- Emissions of the same nodes have the same helpers and warnings, whatever the bindings. -/
theorem helpers_agree {g : Graph} {options options' : Options} {nodes : List Node}
    {es es' : List Emission} (h : List.Forall₂ (fun n e => g.wiring.emit options n = .ok e) nodes es)
    (h' : List.Forall₂ (fun n e => g.wiring.emit options' n = .ok e) nodes es') :
    es.filterMap Emission.helper = es'.filterMap Emission.helper ∧
      es.flatMap Emission.warnings = es'.flatMap Emission.warnings := by
  induction h generalizing es' with
  | nil =>
      cases h'
      exact ⟨rfl, rfl⟩
  | cons hemit _ ih =>
      cases h' with
      | cons hemit' h' =>
          have hhelper := Except.ok.inj ((emit_eq_ok hemit).2.1.symm.trans (emit_eq_ok hemit').2.1)
          simp only [List.filterMap_cons, List.flatMap_cons, Emission.warnings, hhelper]
          rw [(ih h').1, (ih h').2]
          exact ⟨rfl, rfl⟩

/-- Programs of one graph that differ in their bindings agree but for their statements. -/
theorem programs_agree {g : Graph} {s : Settings} {ps ps' : List Parameter} {p p' : Program}
    (h : g.compileWith (s.options ps) = .ok p) (h' : g.compileWith (s.options ps') = .ok p') :
    p.order = p'.order ∧ p.helpers = p'.helpers ∧ p.output = p'.output ∧
      p.seedComponents = p'.seedComponents ∧ p.diagnostics = p'.diagnostics := by
  obtain ⟨plan, es, value, hplan, hes, hvalue, rfl⟩ := compileWith_eq_program h
  obtain ⟨plan', es', value', hplan', hes', hvalue', rfl⟩ := compileWith_eq_program h'
  obtain rfl : plan = plan' := Except.ok.inj (hplan.symm.trans hplan')
  obtain rfl : value = value' := Except.ok.inj (hvalue.symm.trans hvalue')
  obtain ⟨hhelpers, hwarnings⟩ := helpers_agree hes hes'
  exact ⟨rfl, hhelpers, rfl, rfl, congrArg (plan.diagnostics ++ ·) hwarnings⟩

/-! ## What differs -/

/-- The input of a tunable slot is the identifier of its parameter in the one program and the
literal of its constant in the other; all other inputs are the same. -/
theorem inputs_exposed {g : Graph} {ps : List Parameter} (h : g.parameters = .ok ps)
    {u : UID} (hu : u ∈ g.emissionOrder) {n : Node} (hn : g.node? u = some n)
    {inputs inputs' : List Shading.Expr} (hinputs : g.Inputs (.ofParameters ps) n inputs)
    (hinputs' : g.Inputs (.ofParameters []) n inputs') {i : Nat} {slot : Slot}
    (hslot : n.slots[i]? = some slot) :
    (slot.tunable? = none → inputs[i]? = inputs'[i]?) ∧
    ∀ x, slot.tunable? = some x → ∃ p text, ps.filter (fun p => p.site = (u, i)) = [p] ∧
      p.value = x ∧ inputs[i]? = some (.atom p.label.identifier) ∧
      Shading.literal? p.value = some text ∧ inputs'[i]? = some (.atom text) := by
  have hnodup := parameters_sites_nodup h
  have huid : n.uid = u := (node?_eq_some hn).2
  have hi : i < n.slots.length := (List.getElem?_eq_some_iff.mp hslot).1
  have hi₁ : i < inputs.length := by rw [hinputs.length_eq]; exact hi
  have hi₂ : i < inputs'.length := by rw [hinputs'.length_eq]; exact hi
  have hresolves := hinputs.resolves i slot _ hslot (List.getElem?_eq_getElem hi₁)
  have hresolves' := hinputs'.resolves i slot _ hslot (List.getElem?_eq_getElem hi₂)
  rw [huid] at hresolves hresolves'
  rw [List.getElem?_eq_getElem hi₁, List.getElem?_eq_getElem hi₂]
  constructor
  · intro hfixed
    have hunbound := (find?_ofParameters_eq_none_iff h hu hn hslot).mpr hfixed
    rw [hresolves.unbound_eq hunbound hresolves' rfl]
  · intro x hx
    obtain ⟨p, hp, hsite, hvalue⟩ := (exists_parameter_iff h hu hn hslot x).mpr hx
    have hbound := (Bindings.find?_ofParameters hnodup u i _).mpr ⟨p, hp, hsite, rfl⟩
    rw [((slot.tunable?_eq_some_iff x).mp hx).2] at hresolves hresolves'
    obtain ⟨text, htext, he'⟩ := hresolves'.eq_literal rfl
    refine ⟨p, text, hsite ▸ filter_site_eq hnodup hp, hvalue, ?_, by rw [hvalue]; exact htext, ?_⟩
    · rw [hresolves.eq_identifier hbound]
    · rw [he']

/-! ## The main result -/

/-- A file can be generated with parameters exactly if it can without. The two have the same
nodes, helpers, output, seed and diagnostics, and each statement of the one is that of the other
with identifiers of parameters in place of the tunable constants. -/
theorem exposure_preserves_program {g : Graph} (hg : g.Built) (s : Settings) :
    ((∃ f, g.generate (s.exposing true) = .ok f) ↔ ∃ f, g.generate (s.exposing false) = .ok f) ∧
    ∀ f f', g.generate (s.exposing true) = .ok f → g.generate (s.exposing false) = .ok f' →
      f.program.order = f'.program.order ∧ f.program.helpers = f'.program.helpers ∧
      f.program.output = f'.program.output ∧ f.seedDimension = f'.seedDimension ∧
      f.program.diagnostics = f'.program.diagnostics ∧
      f.program.statements.length = f'.program.statements.length ∧
      ∀ (i : Nat) (u : UID), f.program.order[i]? = some u →
        ∃ n inputs inputs' value value', g.node? u = some n ∧
          inputs.length = n.slots.length ∧ inputs'.length = n.slots.length ∧
          n.kind.expression? u s.seedName inputs = some value ∧
          f.program.statements[i]? = some ⟨n.variableName, value⟩ ∧
          n.kind.expression? u s.seedName inputs' = some value' ∧
          f'.program.statements[i]? = some ⟨n.variableName, value'⟩ ∧
          ∀ (j : Nat) (slot : Slot), n.slots[j]? = some slot →
            (slot.tunable? = none → inputs[j]? = inputs'[j]?) ∧
            ∀ x, slot.tunable? = some x → ∃ p text,
              f.parameters.filter (fun p => p.site = (u, j)) = [p] ∧ p.value = x ∧
              inputs[j]? = some (.atom p.label.identifier) ∧
              Shading.literal? p.value = some text ∧ inputs'[j]? = some (.atom text) := by
  have hfits := hg.wellFormed.fits
  refine ⟨?_, ?_⟩
  · -- what a graph needs to have a file is the same for both
    exact (exists_file_iff hfits (s.exposing true)).trans
      (exists_file_iff hfits (s.exposing false)).symm
  · intro f f' hf hf'
    obtain ⟨ps, p, hps, hp, rfl⟩ := (generate_exposed_eq_ok_iff g s f).mp hf
    obtain ⟨p', hp', rfl⟩ := (generate_inlined_eq_ok_iff g s f').mp hf'
    obtain ⟨horder, hhelpers, houtput, hseed, hdiagnostics⟩ := programs_agree hp hp'
    refine ⟨horder, hhelpers, houtput, ?_, hdiagnostics, ?_, ?_⟩
    · show s.seedDimension.getD (.ofCount p.seedComponents) = _
      rw [hseed]
      rfl
    · rw [length_statements hp, length_statements hp', horder]
    · intro i u hu
      obtain ⟨n, e, hn, hemit, hstatement⟩ := emission_at hp hu
      obtain ⟨n', e', hn', hemit', hstatement'⟩ := emission_at hp' (horder ▸ hu)
      obtain rfl : n = n' := Option.some.inj (hn.symm.trans hn')
      obtain ⟨_, _, inputs, value, hinputs, hvalue, he⟩ := emit_eq_ok hemit
      obtain ⟨_, _, inputs', value', hinputs', hvalue', he'⟩ := emit_eq_ok hemit'
      have hmem : u ∈ g.emissionOrder := by
        rw [← (compileWith_eq_ok hp).2.1]
        exact List.mem_of_getElem? hu
      rw [(node?_eq_some hn).2] at hvalue hvalue'
      exact ⟨n, inputs, inputs', value, value', hn, hinputs.length_eq, hinputs'.length_eq, hvalue,
        he ▸ hstatement, hvalue', he' ▸ hstatement',
        fun j slot hslot => inputs_exposed hps hmem hn hinputs hinputs' hslot⟩

/-- The scale of the noise becomes a parameter. -/
theorem exposure_preserves_program_ramp : ramp.Built ∧
    ∃ f f', ramp.generate (Settings.exposing {} true) = .ok f ∧
      ramp.generate (Settings.exposing {} false) = .ok f' ∧
      f.program.order = f'.program.order ∧
      ∃ p, f.parameters.filter (fun p => p.site = (1, 2)) = [p] ∧ p.value = Binary32.one := by
  obtain ⟨hiff, hagree⟩ := exposure_preserves_program ramp_built {}
  obtain ⟨p', hp'⟩ := exists_program ramp_built.wellFormed.fits ramp_compilable
  have hf' := (generate_inlined_eq_ok_iff ramp {} _).mpr ⟨p', hp', rfl⟩
  obtain ⟨f, hf⟩ := hiff.mpr ⟨_, hf'⟩
  obtain ⟨horder, _, _, _, _, _, hstatements⟩ := hagree f _ hf hf'
  refine ⟨ramp_built, f, _, hf, hf', horder, ?_⟩
  have hreached : ramp.Reaches 1 :=
    Reaches.step ⟨2, rfl, by decide, .refl⟩ ⟨_, rfl, by decide, by decide⟩
  have hone : 1 ∈ f.program.order := by
    rw [horder, (compileWith_eq_ok hp').2.1]
    exact (mem_emissionOrder ramp_compilable.acyclic 1).mpr hreached
  obtain ⟨i, hi⟩ := List.getElem?_of_mem hone
  obtain ⟨n, _, _, _, _, hn, _, _, _, _, _, _, hslots⟩ := hstatements i 1 hi
  obtain rfl : _ = n := Option.some.inj hn
  obtain ⟨p, _, hfilter, hvalue, _⟩ := (hslots 2 _ rfl).2 Binary32.one rfl
  exact ⟨p, hfilter, hvalue⟩

end Graph

end NoiseShader
