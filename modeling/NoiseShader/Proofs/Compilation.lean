import NoiseShader.Proofs.Emission

set_option autoImplicit false

/-! # Compilation

What a successful compilation has gone through (`compileWith_eq_ok`), from which the order of its
declarations follows (`Graph.declarations_in_order`), and exactly when a compilation succeeds
and what it fails with (`compileWith_ok_iff_else_first_fault`).
-/

namespace NoiseShader

namespace Graph

/-! ## What a program holds -/

theorem wiring_node?_eq (g : Graph) : g.wiring.node? = g.node? := by
  funext uid
  exact wiring_node? g uid

/-- A compilation is a plan, an emission for each of its nodes, and the resolved output; the
program is put together from these. -/
theorem compileWith_eq_program {g : Graph} {options : Options} {p : Program}
    (h : g.compileWith options = .ok p) :
    ∃ plan emissions value, g.plan = .ok plan ∧
      List.Forall₂ (fun n e => g.wiring.emit options n = .ok e) g.emitted emissions ∧
      g.wiring.resolve .output g.output = .ok value ∧
      p = {
        order := g.emissionOrder
        helpers := emissions.filterMap Emission.helper
        statements := emissions.map Emission.statement
        output := ⟨options.outputSymbol, value⟩
        seedComponents := g.emitted.foldl (fun count n => max count n.kind.seedComponents) 0
        diagnostics := plan.diagnostics ++ emissions.flatMap Emission.warnings } := by
  unfold compileWith at h
  obtain ⟨plan, hplan, h⟩ := Attempt.bind_eq_ok_iff.mp h
  obtain ⟨emissions, hemissions, h⟩ := Attempt.bind_eq_ok_iff.mp h
  obtain ⟨value, hvalue, h⟩ := Attempt.bind_eq_ok_iff.mp h
  obtain rfl := Except.ok.inj h
  rw [wiring_node?_eq, (plan_eq_ok hplan).2] at hemissions ⊢
  exact ⟨plan, emissions, value, hplan, Attempt.mapM_eq_ok_iff.mp hemissions, hvalue, rfl⟩

theorem compileWith_eq_ok {g : Graph} {options : Options} {p : Program}
    (h : g.compileWith options = .ok p) :
    g.Plannable ∧ p.order = g.emissionOrder ∧
      ∃ emissions value,
        List.Forall₂ (fun n e => g.wiring.emit options n = .ok e) g.emitted emissions ∧
        p.helpers = emissions.filterMap Emission.helper ∧
        p.statements = emissions.map Emission.statement ∧
        g.wiring.resolve .output g.output = .ok value ∧ p.output = ⟨options.outputSymbol, value⟩ := by
  obtain ⟨plan, emissions, value, hplan, hemissions, hvalue, rfl⟩ := compileWith_eq_program h
  obtain ⟨hg, _⟩ := plan_eq_ok hplan
  exact ⟨hg, rfl, emissions, value, hemissions, rfl, rfl, hvalue, rfl⟩

/-- The statement at each place of the order is the emission of the node there. -/
theorem emission_at {g : Graph} {options : Options} {p : Program}
    (h : g.compileWith options = .ok p) {i : Nat} {u : UID} (hu : p.order[i]? = some u) :
    ∃ n e, g.node? u = some n ∧ g.wiring.emit options n = .ok e ∧
      p.statements[i]? = some e.statement := by
  obtain ⟨hg, horder, emissions, value, hemissions, _, hstatements, _⟩ := compileWith_eq_ok h
  rw [horder] at hu
  obtain ⟨hi, rfl⟩ := List.getElem?_eq_some_iff.mp hu
  have hnodes := List.forall₂_iff_get.mp (forall₂_emitted hg.acyclic)
  have hemits := List.forall₂_iff_get.mp hemissions
  have hi' : i < g.emitted.length := by rw [← hnodes.1]; exact hi
  have hi'' : i < emissions.length := by rw [← hemits.1]; exact hi'
  refine ⟨g.emitted[i], emissions[i], hnodes.2 i hi hi', hemits.2 i hi' hi'', ?_⟩
  rw [hstatements, List.getElem?_map, List.getElem?_eq_getElem hi'']
  rfl

theorem length_statements {g : Graph} {options : Options} {p : Program}
    (h : g.compileWith options = .ok p) : p.statements.length = p.order.length := by
  obtain ⟨hg, horder, emissions, value, hemissions, _, hstatements, _⟩ := compileWith_eq_ok h
  rw [horder, hstatements, List.length_map, (forall₂_emitted hg.acyclic).length_eq,
    hemissions.length_eq]

theorem variableNames_emissions {g : Graph} {options : Options} {nodes : List Node}
    {es : List Emission} (h : List.Forall₂ (fun n e => g.wiring.emit options n = .ok e) nodes es) :
    (es.map Emission.statement).map Shading.Declaration.variableName =
      nodes.map Node.variableName := by
  induction h with
  | nil => rfl
  | cons hemit _ ih =>
      obtain ⟨_, _, _, _, _, _, hstatement⟩ := emit_eq_ok hemit
      rw [List.map_cons, List.map_cons, List.map_cons, ih, hstatement]

/-- The statements declare the variables of the emitted nodes, in order. -/
theorem variableNames_statements {g : Graph} {options : Options} {p : Program}
    (h : g.compileWith options = .ok p) :
    p.statements.map Shading.Declaration.variableName =
      (p.order.filterMap g.node?).map Node.variableName := by
  obtain ⟨_, horder, emissions, _, hemissions, _, hstatements, _⟩ := compileWith_eq_ok h
  rw [horder, hstatements]
  exact variableNames_emissions hemissions

/-- What stands before a place of a list without repetition has an earlier place. -/
theorem exists_lt_of_split {order before after : List UID} {u v : UID} {i : Nat}
    (hnodup : order.Nodup) (hsplit : order = before ++ u :: after) (hi : order[i]? = some u)
    (hv : v ∈ before) : ∃ j, j < i ∧ order[j]? = some v := by
  have hplace : order[before.length]? = some u := by
    rw [hsplit, List.getElem?_append_right (Nat.le_refl _), Nat.sub_self, List.getElem?_cons_zero]
  have hlength : i = before.length := by
    obtain ⟨hi, hiu⟩ := List.getElem?_eq_some_iff.mp hi
    obtain ⟨hb, hbu⟩ := List.getElem?_eq_some_iff.mp hplace
    exact (List.Nodup.getElem_inj_iff hnodup).mp (hiu.trans hbu.symm)
  obtain ⟨j, hj⟩ := List.getElem?_of_mem hv
  have hlt : j < before.length := (List.getElem?_eq_some_iff.mp hj).1
  refine ⟨j, by omega, ?_⟩
  rw [hsplit, List.getElem?_append_left hlt, hj]

theorem nodup_order {g : Graph} {options : Options} {p : Program}
    (h : g.compileWith options = .ok p) : p.order.Nodup := by
  obtain ⟨_, horder, _⟩ := compileWith_eq_ok h
  rw [horder]
  exact emissionOrder_nodup g

theorem mem_program_order {g : Graph} {options : Options} {p : Program}
    (h : g.compileWith options = .ok p) (u : UID) : u ∈ p.order ↔ g.Reaches u := by
  obtain ⟨hg, horder, _⟩ := compileWith_eq_ok h
  rw [horder, mem_emissionOrder hg.acyclic]

/-- What a slot names comes before the node of the slot. -/
theorem target_before {g : Graph} {options : Options} {p : Program}
    (h : g.compileWith options = .ok p) {i : Nat} {u : UID} (hi : p.order[i]? = some u) {n : Node}
    (hn : g.node? u = some n) {v : UID} (hv : v ∈ n.targets) :
    ∃ j, j < i ∧ p.order[j]? = some v := by
  obtain ⟨hplan, horder, _⟩ := compileWith_eq_ok h
  obtain ⟨before, after, hsplit⟩ := List.append_of_mem (List.mem_of_getElem? hi)
  have hbefore := hplan.targets_before (horder.symm.trans hsplit) hn v hv
  exact exists_lt_of_split (nodup_order h) hsplit hi hbefore

/-! ## When a compilation succeeds -/

/-- The graphs that compile under the given options. -/
structure Compilable (g : Graph) (options : Options) : Prop where
  /-- The output is a constant or names a node of the graph. -/
  output : g.OutputPresent
  /-- There is no cycle anywhere, also among nodes that the output does not reach. -/
  acyclic : g.Acyclic
  tight : ∀ u slot target, g.Reaches u → ¬ g.LooseAt u slot target
  clean : ∀ u n, g.Reaches u → g.node? u = some n → n.Clean options
  constant : ∀ x, g.output = .constant x → x.isFinite = true

/-- What is reported for a graph that does not compile: the first of its faults. -/
inductive FirstFault (g : Graph) (options : Options) : Fault → Prop
  | output {target : UID} (houtput : g.output = .node target) (habsent : target ∉ g.uids) :
      FirstFault g options (.dangling .output target)
  | cycle {path : List UID} (houtput : g.OutputPresent) (hpath : Cycle.IsCycle g.Refers path) :
      FirstFault g options (.cycle path)
  | loose {u : UID} {slot : Nat} {target : UID} (houtput : g.OutputPresent)
      (hacyclic : g.Acyclic) (hfirst : g.FirstLoose u slot target) :
      FirstFault g options (.dangling (.slot u slot) target)
  /-- Node by node along the emission order, then by what is wrong with the node. -/
  | node {before after : List UID} {u : UID} {n : Node} {f : Fault} (hplan : g.Plannable)
      (horder : g.emissionOrder = before ++ u :: after)
      (hbefore : ∀ v ∈ before, ∀ m, g.node? v = some m → m.Clean options)
      (hnode : g.node? u = some n) (hfault : NodeFault options n f) : FirstFault g options f
  | constant {x : Binary32} (hplan : g.Plannable)
      (hclean : ∀ u ∈ g.emissionOrder, ∀ n, g.node? u = some n → n.Clean options)
      (houtput : g.output = .constant x) (hinfinite : x.isFinite = false) :
      FirstFault g options (.nonFinite .output)

theorem FirstFault.not_compilable {g : Graph} {options : Options} {f : Fault}
    (h : g.FirstFault options f) : ¬ g.Compilable options := by
  intro hg
  cases h with
  | output houtput habsent => exact habsent (hg.output _ houtput)
  | cycle _ hpath =>
      obtain ⟨u, hu⟩ := hpath.transGen
      exact hg.acyclic u hu
  | loose _ _ hfirst => exact hg.tight _ _ _ hfirst.reached hfirst.loose
  | node hplan horder _ hnode hfault =>
      refine hfault.not_clean (hg.clean _ _ ?_ hnode)
      rw [← mem_emissionOrder hplan.acyclic, horder]
      simp
  | constant _ _ houtput hinfinite =>
      rw [hg.constant _ houtput] at hinfinite
      cases hinfinite

/-- The output cannot be resolved only if it is a constant that is not finite. -/
theorem resolve_output_eq_error {g : Graph} (hg : g.OutputPresent) {f : Fault}
    (h : g.wiring.resolve .output g.output = .error f) :
    ∃ x, g.output = .constant x ∧ x.isFinite = false ∧ f = .nonFinite .output := by
  cases houtput : g.output with
  | constant x =>
      rw [houtput, Wiring.resolve] at h
      split at h
      · cases h
      · next hlit =>
          exact ⟨x, rfl, (Shading.literal?_eq_none_iff x).mp hlit, (Except.error.inj h).symm⟩
  | node target =>
      rw [houtput, Wiring.resolve, wiring_node?] at h
      have hmem := hg target houtput
      rw [← node?_isSome_iff] at hmem
      obtain ⟨n, hn⟩ := Option.isSome_iff_exists.mp hmem
      rw [hn] at h
      cases h

/-- In the emitted nodes, the one that fails comes after nodes that were emitted. -/
theorem firstFault_of_emissions {g : Graph} (hfits : ∀ n ∈ g.nodes, n.Fits) {options : Options}
    {f : Fault} (hplan : g.Plannable) (h : g.emitted.mapM (g.wiring.emit options) = .error f) :
    g.FirstFault options f := by
  obtain ⟨nodes, n, later, hsplit, hbefore, hfault⟩ := Attempt.mapM_eq_error h
  obtain ⟨before, rest, hparts, hnodes, hrest⟩ := List.filterMap_eq_append_iff.mp hsplit
  obtain ⟨absent, u, after, rfl, habsent, hn, _⟩ := List.filterMap_eq_cons_iff.mp hrest
  have horder : g.emissionOrder = (before ++ absent) ++ u :: after := by
    rw [hparts, List.append_assoc]
  have hreached : g.Reaches u := by
    rw [← mem_emissionOrder hplan.acyclic, horder]
    simp
  refine .node hplan horder ?_ hn (emit_eq_error (hfits n (node?_eq_some hn).1) ?_ hfault)
  · intro v hv m hm
    rcases List.mem_append.mp hv with hv | hv
    · obtain ⟨e, he⟩ := hbefore m (hnodes ▸ List.mem_filterMap.mpr ⟨v, hv, hm⟩)
      exact (emit_eq_ok he).1
    · rw [habsent v hv] at hm
      cases hm
  · intro v hv
    exact (hplan.refers hreached hn hv).right_mem

/-- Nodes that are emitted are clean. -/
theorem clean_of_emissions {g : Graph} {options : Options} {emissions : List Emission}
    (h : List.Forall₂ (fun n e => g.wiring.emit options n = .ok e) g.emitted emissions) {u : UID}
    (hu : u ∈ g.emissionOrder) {n : Node} (hn : g.node? u = some n) : n.Clean options := by
  obtain ⟨e, _, he⟩ := Attempt.exists_of_mem h (List.mem_filterMap.mpr ⟨u, hu, hn⟩)
  exact (emit_eq_ok he).1

theorem firstFault_of_plan {g : Graph} (options : Options) {f : Fault} (h : g.plan = .error f) :
    g.FirstFault options f := by
  rcases plan_cases g with ⟨_, houtput, habsent, he⟩ | ⟨_, houtput, hpath, he⟩ |
    ⟨_, _, _, houtput, hacyclic, hfirst, he⟩ | ⟨_, _, he⟩
  · rw [he] at h
    obtain rfl := Except.error.inj h
    exact .output houtput habsent
  · rw [he] at h
    obtain rfl := Except.error.inj h
    exact .cycle houtput hpath
  · rw [he] at h
    obtain rfl := Except.error.inj h
    exact .loose houtput hacyclic hfirst
  · rw [he] at h
    cases h

/-- A compilation that fails reports the first fault of the graph. -/
theorem firstFault_of_compileWith {g : Graph} (hfits : ∀ n ∈ g.nodes, n.Fits) {options : Options}
    {f : Fault} (h : g.compileWith options = .error f) : g.FirstFault options f := by
  unfold compileWith at h
  rcases Attempt.bind_eq_error_iff.mp h with hplan | ⟨plan, hplan, h⟩
  · exact firstFault_of_plan options hplan
  · obtain ⟨hg, horder⟩ := plan_eq_ok hplan
    rw [wiring_node?_eq, horder] at h
    rcases Attempt.bind_eq_error_iff.mp h with hemissions | ⟨emissions, hemissions, h⟩
    · exact firstFault_of_emissions hfits hg hemissions
    · rcases Attempt.bind_eq_error_iff.mp h with hvalue | ⟨_, _, h⟩
      · -- every node is clean by now, so the output constant is the only fault left
        obtain ⟨x, houtput, hinfinite, rfl⟩ := resolve_output_eq_error hg.output hvalue
        refine .constant hg ?_ houtput hinfinite
        intro u hu n hn
        exact clean_of_emissions (Attempt.mapM_eq_ok_iff.mp hemissions) hu hn
      · cases h

theorem compilable_of_compileWith {g : Graph} {options : Options} {p : Program}
    (h : g.compileWith options = .ok p) : g.Compilable options := by
  obtain ⟨hg, _, emissions, value, hemissions, _, _, hvalue, _⟩ := compileWith_eq_ok h
  refine ⟨hg.output, hg.acyclic, hg.tight, ?_, ?_⟩
  · intro u n hu hn
    exact clean_of_emissions hemissions ((mem_emissionOrder hg.acyclic u).mpr hu) hn
  · intro x hx
    rw [hx, Wiring.resolve] at hvalue
    split at hvalue
    · next hlit =>
        rw [← Bool.not_eq_false]
        intro hinfinite
        rw [(Shading.literal?_eq_none_iff x).mpr hinfinite] at hlit
        cases hlit
    · cases hvalue

theorem exists_program {g : Graph} (hfits : ∀ n ∈ g.nodes, n.Fits) {options : Options}
    (h : g.Compilable options) : ∃ p, g.compileWith options = .ok p := by
  cases hresult : g.compileWith options with
  | ok p => exact ⟨p, rfl⟩
  | error f => exact absurd h (firstFault_of_compileWith hfits hresult).not_compilable

/-- A graph compiles if its slots name nodes with lower UIDs, its constants are finite and its
formulas not blank, and the dimension of the seed is left open. -/
theorem compilable_of_descending {g : Graph} {options : Options}
    (hdescending : ∀ n ∈ g.nodes, (n.targets.all fun v => g.uids.contains v && v < n.uid) = true)
    (hopen : options.seedDimension = none)
    (hfinite : ∀ n ∈ g.nodes, ∀ s ∈ n.slots, s.signal.constant?.all Binary32.isFinite = true)
    (houtput : g.OutputPresent) (hconstant : g.output.constant?.all Binary32.isFinite = true)
    (hformulas : ∀ n ∈ g.nodes, ∀ noise, n.kind = .noise noise → noise.family = .worley →
      noise.formulas ≠ CellFormulas.standard →
      ¬ Formula.Blank noise.formulas.distance ∧ ¬ Formula.Blank noise.formulas.combine) :
    g.Compilable options := by
  have htargets : ∀ n ∈ g.nodes, ∀ v ∈ n.targets, v ∈ g.uids ∧ v < n.uid := by
    intro n hn v hv
    simpa using List.all_eq_true.mp (hdescending n hn) v hv
  refine ⟨houtput, acyclic_of_descending ?_, ?_, ?_, ?_⟩
  · rintro u v ⟨n, hn, hv, _⟩
    obtain ⟨hmem, rfl⟩ := node?_eq_some hn
    exact (htargets n hmem v hv).2
  · rintro u slot target _ ⟨n, s, hn, hs, hsignal, habsent⟩
    have htarget : target ∈ n.targets :=
      (mem_targets_iff n target).mpr ⟨s, List.mem_of_getElem? hs, hsignal⟩
    exact habsent (htargets n (node?_eq_some hn).1 target htarget).1
  · intro u n _ hn
    have hmem := (node?_eq_some hn).1
    refine ⟨?_, hformulas n hmem, ?_⟩
    · intro _ _ _ hfixed
      rw [hopen] at hfixed
      cases hfixed
    · intro i s x hs hsignal _
      have hall := hfinite n hmem s (List.mem_of_getElem? hs)
      rwa [hsignal] at hall
  · intro x hx
    rwa [hx] at hconstant

/-- Gradient noise that fades in along the first axis. -/
def ramp : Graph :=
  [Edit.add (.coordinate .x), .add (.noise ⟨.perlin, .two, .standard⟩), .add (.math .multiply),
    .setInput 2 0 (.node 1), .setInput 2 1 (.node 0), .setOutput (.node 2)].foldl
    after (.empty "Ramp")

theorem ramp_built : ramp.Built := (Built.empty "Ramp").edits _

theorem ramp_compilable : ramp.Compilable {} := by
  have hkinds : ∀ n ∈ ramp.nodes, n.kind = .coordinate .x ∨
      n.kind = .noise ⟨.perlin, .two, .standard⟩ ∨ n.kind = .math .multiply := by decide
  refine compilable_of_descending (by decide) rfl (by decide) ?_ (by decide) ?_
  · intro target htarget
    obtain rfl : 2 = target := Signal.node.inj htarget
    decide
  · intro n hn noise hnoise hworley
    rcases hkinds n hn with hkind | hkind | hkind <;> rw [hkind] at hnoise <;> cases hnoise
    cases hworley

/-! ## The main results -/

/-- A program declares the nodes that the output reaches, each once, as what their kinds compute
from their slots, and after every node that these slots name. -/
theorem declarations_in_order {g : Graph} {options : Options} {p : Program}
    (h : g.compileWith options = .ok p) :
    p.order.Nodup ∧ (∀ u, u ∈ p.order ↔ g.Reaches u) ∧
    p.statements.length = p.order.length ∧
    (∀ (i : Nat) (u : UID), p.order[i]? = some u → ∃ n inputs value,
      g.node? u = some n ∧ g.Inputs options.bindings n inputs ∧
      n.kind.expression? u options.seedName inputs = some value ∧
      p.statements[i]? = some ⟨n.variableName, value⟩ ∧
      p.lines[i]? = some ("float " ++ n.variableName ++ " = " ++ value.render ++ ";") ∧
      ∀ s ∈ n.slots, ∀ v, s.signal = .node v → ∃ j, j < i ∧ p.order[j]? = some v) ∧
    (∀ v, g.output = .node v → v ∈ p.order) := by
  obtain ⟨hg, horder, _⟩ := compileWith_eq_ok h
  have hmem : ∀ u, u ∈ p.order ↔ g.Reaches u := by
    intro u
    rw [horder, mem_emissionOrder hg.acyclic]
  have hnodup : p.order.Nodup := by
    rw [horder]
    exact emissionOrder_nodup g
  refine ⟨hnodup, hmem, length_statements h, ?_, ?_⟩
  · intro i u hu
    obtain ⟨n, e, hn, hemit, hstatement⟩ := emission_at h hu
    obtain ⟨_, _, inputs, value, hinputs, hvalue, he⟩ := emit_eq_ok hemit
    rw [he] at hstatement
    rw [(node?_eq_some hn).2] at hvalue
    refine ⟨n, inputs, value, hn, hinputs, hvalue, hstatement, ?_, ?_⟩
    · rw [Program.lines, Program.declarations, List.getElem?_map,
        List.getElem?_append_left (List.getElem?_eq_some_iff.mp hstatement).1, hstatement]
      rfl
    · intro s hs v hv
      obtain ⟨before, after, hsplit⟩ := List.append_of_mem (List.mem_of_getElem? hu)
      have htarget : v ∈ n.targets := (mem_targets_iff n v).mpr ⟨s, hs, hv⟩
      have hbefore := hg.targets_before (horder.symm.trans hsplit) hn v htarget
      exact exists_lt_of_split hnodup hsplit hu hbefore
  · intro v hv
    rw [hmem]
    exact ⟨v, hv, hg.output v hv, .refl⟩

theorem declarations_in_order_ramp : ∃ p, ramp.compileWith {} = .ok p ∧ 2 ∈ p.order ∧
    ∀ i : Nat, p.order[i]? = some 2 → ∃ j, j < i ∧ p.order[j]? = some 1 := by
  obtain ⟨p, hp⟩ := exists_program ramp_built.wellFormed.fits ramp_compilable
  obtain ⟨_, _, _, hat, houtput⟩ := declarations_in_order hp
  refine ⟨p, hp, houtput 2 rfl, ?_⟩
  intro i hi
  obtain ⟨n, _, _, hn, _, _, _, _, hbefore⟩ := hat i 2 hi
  obtain rfl : _ = n := Option.some.inj hn
  exact hbefore _ List.mem_cons_self 1 rfl

/-- A built graph compiles exactly when nothing is wrong with it, and otherwise the first thing
that is wrong is reported. -/
theorem compileWith_ok_iff_else_first_fault {g : Graph} (hg : g.Built) (options : Options) :
    ((∃ p, g.compileWith options = .ok p) ↔ g.Compilable options) ∧
      ∀ f, g.compileWith options = .error f → g.FirstFault options f := by
  have hfits := hg.wellFormed.fits
  refine ⟨⟨?_, exists_program hfits⟩, fun f hf => firstFault_of_compileWith hfits hf⟩
  rintro ⟨p, hp⟩
  exact compilable_of_compileWith hp

theorem compileWith_ok_iff_else_first_fault_ramp :
    ramp.Built ∧ ∃ p, ramp.compileWith {} = .ok p :=
  ⟨ramp_built, (compileWith_ok_iff_else_first_fault ramp_built {}).1.mpr ramp_compilable⟩

end Graph

end NoiseShader
