import NoiseShader.Proofs.Parameter
import Mathlib.Data.List.Find
import Mathlib.Data.List.Sort

set_option autoImplicit false

/-! # Dead nodes do not matter

What the output reaches is the live part of a graph. Two graphs without a cycle that have the same
live part (`Graph.SameLive`) are compiled to the same program, or fail with the same fault, whatever
else is in them (`Graph.dead_nodes_irrelevant`); only what is said about dead nodes can differ.
-/

namespace NoiseShader

/-! ## Orders -/

namespace Order

theorem find?_isReady_congr {dependencies dependencies' : UID → List UID} (pending : UIDSet)
    {waiting : List UID} (h : ∀ u ∈ waiting, dependencies u = dependencies' u) :
    waiting.find? (isReady dependencies pending) =
      waiting.find? (isReady dependencies' pending) := by
  refine List.find?_congr fun u hu => ?_
  unfold isReady
  rw [h u hu]

/-- The order depends only on the dependencies of what is to be listed. -/
theorem listFrom_congr {dependencies dependencies' : UID → List UID} (pending : UIDSet)
    (waiting : List UID) (h : ∀ u ∈ waiting, dependencies u = dependencies' u) :
    listFrom dependencies pending waiting = listFrom dependencies' pending waiting := by
  fun_induction listFrom dependencies pending waiting with
  | case2 pending waiting hnone =>
      rw [find?_isReady_congr pending h] at hnone
      rw [listFrom_of_none dependencies' hnone]
  | case1 pending waiting uid hfind _ ih =>
      have hrest := ih fun u hu => h u (List.mem_of_mem_erase hu)
      rw [find?_isReady_congr pending h] at hfind
      rw [hrest, listFrom_of_some dependencies' hfind]

end Order

/-- The program with nothing said about it. -/
def Program.silent (p : Program) : Program := { p with diagnostics := [] }

namespace Graph

theorem reachable_pairwise (g : Graph) : g.reachable.Pairwise (· < ·) :=
  (wiring_uids_pairwise g).filter _

/-! ## Faults of a plan -/

theorem SlotLE.antisymm {u v : UID} {i j : Nat} (h : SlotLE u i v j) (h' : SlotLE v j u i) :
    u = v ∧ i = j := by
  rcases h with hlt | ⟨rfl, hle⟩
  · rcases h' with hlt' | ⟨rfl, _⟩
    · exact absurd hlt' (UInt32.lt_asymm hlt)
    · exact absurd hlt (UInt32.lt_irrefl _)
  · rcases h' with hlt' | ⟨_, hle'⟩
    · exact absurd hlt' (UInt32.lt_irrefl _)
    · exact ⟨rfl, Nat.le_antisymm hle hle'⟩

theorem LooseAt.target_unique {g : Graph} {u : UID} {slot : Nat} {t t' : UID}
    (h : g.LooseAt u slot t) (h' : g.LooseAt u slot t') : t = t' := by
  obtain ⟨n, s, hn, hs, hsignal, _⟩ := h
  obtain ⟨n', s', hn', hs', hsignal', _⟩ := h'
  obtain rfl : n = n' := Option.some.inj (hn.symm.trans hn')
  obtain rfl : s = s' := Option.some.inj (hs.symm.trans hs')
  exact Signal.node.inj (hsignal.symm.trans hsignal')

/-- Only one loose end is the first. -/
theorem FirstLoose.unique {g : Graph} {u v : UID} {i j : Nat} {t t' : UID}
    (h : g.FirstLoose u i t) (h' : g.FirstLoose v j t') : u = v ∧ i = j ∧ t = t' := by
  obtain ⟨rfl, rfl⟩ := (h.least v j t' h'.reached h'.loose).antisymm
    (h'.least u i t h.reached h.loose)
  exact ⟨rfl, rfl, h.loose.target_unique h'.loose⟩

theorem plan_of_absent_output {g : Graph} {target : UID} (houtput : g.output = .node target)
    (habsent : target ∉ g.uids) : g.plan = .error (.dangling .output target) := by
  have hnot : ¬ g.OutputPresent := fun h => habsent (h target houtput)
  rcases plan_cases g with ⟨t, ht, _, hplan⟩ | ⟨_, hpresent, _⟩ | ⟨_, _, _, hpresent, _⟩ |
    ⟨_, hg, _⟩
  · obtain rfl : target = t := Signal.node.inj (houtput.symm.trans ht)
    exact hplan
  · exact absurd hpresent hnot
  · exact absurd hpresent hnot
  · exact absurd hg.output hnot

theorem plan_of_firstLoose {g : Graph} (houtput : g.OutputPresent) (hacyclic : g.Acyclic) {u : UID}
    {slot : Nat} {target : UID} (hfirst : g.FirstLoose u slot target) :
    g.plan = .error (.dangling (.slot u slot) target) := by
  rcases plan_cases g with ⟨t, ht, habsent, _⟩ | ⟨_, _, hpath, _⟩ |
    ⟨v, j, t, _, _, hfirst', hplan⟩ | ⟨_, hg, _⟩
  · exact absurd (houtput t ht) habsent
  · obtain ⟨v, hv⟩ := hpath.transGen
    exact absurd hv (hacyclic v)
  · obtain ⟨rfl, rfl, rfl⟩ := hfirst.unique hfirst'
    exact hplan
  · exact absurd hfirst.loose (hg.tight u slot target hfirst.reached)

/-! ## Graphs with the same live part -/

/-- The outputs are the same, reach the same nodes, and find the same there. -/
structure SameLive (g h : Graph) : Prop where
  output : g.output = h.output
  reaches : ∀ u, g.Reaches u ↔ h.Reaches u
  content : ∀ u, g.Reaches u → g.node? u = h.node? u

section

variable {g h : Graph}

theorem SameLive.symm (hlive : g.SameLive h) : h.SameLive g :=
  ⟨hlive.output.symm, fun u => (hlive.reaches u).symm,
    fun u hu => (hlive.content u ((hlive.reaches u).mpr hu)).symm⟩

theorem SameLive.refers_of_refers (hlive : g.SameLive h) {u v : UID} (hu : g.Reaches u)
    (huv : g.Refers u v) : h.Refers u v := by
  have hv : h.Reaches v := (hlive.reaches v).mp (hu.step huv)
  obtain ⟨n, hn, htarget, _⟩ := huv
  exact ⟨n, hlive.content u hu ▸ hn, htarget, hv.mem⟩

theorem SameLive.refers_iff (hlive : g.SameLive h) {u : UID} (hu : g.Reaches u) (v : UID) :
    g.Refers u v ↔ h.Refers u v :=
  ⟨hlive.refers_of_refers hu, hlive.symm.refers_of_refers ((hlive.reaches u).mp hu)⟩

/-- What a live slot names is absent from both graphs, as it would be live if it were there. -/
theorem SameLive.looseAt_of_looseAt (hlive : g.SameLive h) {u : UID} {slot : Nat} {target : UID}
    (hu : g.Reaches u) (hloose : g.LooseAt u slot target) : h.LooseAt u slot target := by
  obtain ⟨n, s, hn, hs, hsignal, habsent⟩ := hloose
  have hn' : h.node? u = some n := hlive.content u hu ▸ hn
  refine ⟨n, s, hn', hs, hsignal, ?_⟩
  intro hpresent
  have htarget : target ∈ n.targets :=
    (mem_targets_iff n target).mpr ⟨s, List.mem_of_getElem? hs, hsignal⟩
  have hreached : h.Reaches target :=
    ((hlive.reaches u).mp hu).step ⟨n, hn', htarget, hpresent⟩
  exact habsent ((hlive.reaches target).mpr hreached).mem

theorem SameLive.firstLoose (hlive : g.SameLive h) {u : UID} {slot : Nat} {target : UID}
    (hfirst : g.FirstLoose u slot target) : h.FirstLoose u slot target := by
  refine ⟨(hlive.reaches u).mp hfirst.reached,
    hlive.looseAt_of_looseAt hfirst.reached hfirst.loose, ?_⟩
  intro v j t hv hloose
  have hv' : g.Reaches v := (hlive.reaches v).mpr hv
  exact hfirst.least v j t hv' (hlive.symm.looseAt_of_looseAt hv hloose)

theorem SameLive.outputPresent (hlive : g.SameLive h) (houtput : g.OutputPresent) :
    h.OutputPresent := by
  intro target htarget
  have htarget' : g.output = .node target := hlive.output.trans htarget
  have hreached : g.Reaches target := ⟨target, htarget', houtput target htarget', .refl⟩
  exact ((hlive.reaches target).mp hreached).mem

/-! ## Plans of the same live part -/

theorem SameLive.reachable_eq (hlive : g.SameLive h) : g.reachable = h.reachable := by
  refine (reachable_pairwise g).eq_of_mem_iff (reachable_pairwise h) ?_
  intro u
  rw [mem_reachable_iff, mem_reachable_iff, hlive.reaches]

theorem SameLive.dependencies_eq (hlive : g.SameLive h) {u : UID} (hu : g.Reaches u) :
    g.wiring.dependencies u = h.wiring.dependencies u := by
  refine (g.wiring.dependencies_pairwise u).eq_of_mem_iff (h.wiring.dependencies_pairwise u) ?_
  intro v
  rw [mem_dependencies, mem_dependencies, hlive.refers_iff hu]

theorem SameLive.emissionOrder_eq (hlive : g.SameLive h) : g.emissionOrder = h.emissionOrder := by
  unfold emissionOrder order
  rw [Wiring.order_eq, Wiring.order_eq, ← hlive.reachable_eq]
  refine Order.listFrom_congr _ _ ?_
  intro u hu
  rw [mem_ascending, mem_reachable_iff] at hu
  exact hlive.dependencies_eq hu

theorem SameLive.emitted_eq (hlive : g.SameLive h) (hg : g.Acyclic) : g.emitted = h.emitted := by
  unfold emitted
  rw [← hlive.emissionOrder_eq]
  refine List.filterMap_congr ?_
  intro u hu
  exact hlive.content u ((mem_emissionOrder hg u).mp hu)

/-- A plan that fails for one of two graphs fails for the other, with the same fault. -/
theorem SameLive.plan_eq_error (hlive : g.SameLive h) (hg : g.Acyclic) (hh : h.Acyclic) {f : Fault}
    (hplan : g.plan = .error f) : h.plan = .error f := by
  rcases plan_cases g with ⟨target, houtput, habsent, he⟩ | ⟨path, _, hpath, _⟩ |
    ⟨u, slot, target, houtput, _, hfirst, he⟩ | ⟨_, _, hok⟩
  · -- the output would be live if it were there
    obtain rfl := Except.error.inj (he.symm.trans hplan)
    refine plan_of_absent_output (hlive.output ▸ houtput) ?_
    intro hpresent
    have hreached : h.Reaches target := ⟨target, hlive.output ▸ houtput, hpresent, .refl⟩
    exact habsent ((hlive.reaches target).mpr hreached).mem
  · obtain ⟨u, hu⟩ := hpath.transGen
    exact absurd hu (hg u)
  · obtain rfl := Except.error.inj (he.symm.trans hplan)
    exact plan_of_firstLoose (hlive.outputPresent houtput) hh (hlive.firstLoose hfirst)
  · rw [hok] at hplan
    cases hplan

/-- Planning fails for both graphs with one fault, or for neither. -/
theorem SameLive.plan_cases (hlive : g.SameLive h) (hg : g.Acyclic) (hh : h.Acyclic) :
    (∃ f, g.plan = .error f ∧ h.plan = .error f) ∨
      ∃ p p', g.plan = .ok p ∧ h.plan = .ok p' := by
  cases hplan : g.plan with
  | error f => exact .inl ⟨f, rfl, hlive.plan_eq_error hg hh hplan⟩
  | ok p =>
      cases hplan' : h.plan with
      | error f =>
          rw [hlive.symm.plan_eq_error hh hg hplan'] at hplan
          cases hplan
      | ok p' => exact .inr ⟨p, p', rfl, rfl⟩

/-! ## Programs of the same live part -/

/-- The slots of an emitted node name nodes of the live part. -/
theorem SameLive.emit_eq (hlive : g.SameLive h) (hg : g.Plannable) (options : Options) {n : Node}
    (hn : n ∈ g.emitted) : g.wiring.emit options n = h.wiring.emit options n := by
  obtain ⟨u, hu, hnode⟩ := List.mem_filterMap.mp hn
  have hreached : g.Reaches u := (mem_emissionOrder hg.acyclic u).mp hu
  refine emit_congr (fun v hv => hlive.content v ?_) options
  exact hreached.step (hg.refers hreached hnode hv)

theorem SameLive.emissions_eq (hlive : g.SameLive h) (hg : g.Plannable) (options : Options) :
    g.emitted.mapM (g.wiring.emit options) = h.emitted.mapM (h.wiring.emit options) := by
  rw [← hlive.emitted_eq hg.acyclic]
  exact Attempt.mapM_congr fun n hn => hlive.emit_eq hg options hn

theorem SameLive.resolve_output_eq (hlive : g.SameLive h) (hg : g.OutputPresent) :
    g.wiring.resolve .output g.output = h.wiring.resolve .output h.output := by
  rw [← hlive.output]
  refine resolve_congr (fun target houtput => hlive.content target ?_) .output
  exact ⟨target, houtput, hg target houtput, .refl⟩

theorem emissionOrder_filterMap (g : Graph) :
    g.emissionOrder.filterMap g.wiring.node? = g.emitted := by
  rw [wiring_node?_eq, emitted]

/-- What a graph with a plan compiles to, less the diagnostics, in terms of its live part. -/
theorem silent_compileWith {p : Plan} (hplan : g.plan = .ok p) (options : Options) :
    (g.compileWith options).map Program.silent =
      (do
        let emissions ← g.emitted.mapM (g.wiring.emit options)
        let value ← g.wiring.resolve .output g.output
        return {
          order := g.emissionOrder
          helpers := emissions.filterMap Emission.helper
          statements := emissions.map Emission.statement
          output := ⟨options.outputSymbol, value⟩
          seedComponents := g.emitted.foldl (fun count n => max count n.kind.seedComponents) 0
          diagnostics := [] }) := by
  have horder := (plan_eq_ok hplan).2
  unfold plan at hplan
  simp only [compileWith, hplan, bind, Except.bind, horder, emissionOrder_filterMap]
  -- both sides stop at the first failure
  cases g.emitted.mapM (g.wiring.emit options) with
  | error f => rfl
  | ok emissions =>
      cases g.wiring.resolve .output g.output with
      | error f => rfl
      | ok value => rfl

theorem compileWith_of_plan_error {f : Fault} (hplan : g.plan = .error f) (options : Options) :
    g.compileWith options = .error f := by
  unfold plan at hplan
  simp only [compileWith, hplan, bind, Except.bind]

theorem SameLive.compileWith_eq (hlive : g.SameLive h) (hg : g.Acyclic) (hh : h.Acyclic)
    (options : Options) :
    (g.compileWith options).map Program.silent = (h.compileWith options).map Program.silent := by
  rcases hlive.plan_cases hg hh with ⟨f, hplan, hplan'⟩ | ⟨p, p', hplan, hplan'⟩
  · rw [compileWith_of_plan_error hplan, compileWith_of_plan_error hplan']
  · have hplannable := (plan_eq_ok hplan).1
    rw [silent_compileWith hplan, silent_compileWith hplan', hlive.emissions_eq hplannable,
      hlive.resolve_output_eq hplannable.output, hlive.emissionOrder_eq, hlive.emitted_eq hg]

theorem SameLive.parameters_eq (hlive : g.SameLive h) (hg : g.Acyclic) (hh : h.Acyclic) :
    g.parameters = h.parameters := by
  rcases hlive.plan_cases hg hh with ⟨f, hplan, hplan'⟩ | ⟨p, p', hplan, hplan'⟩
  · unfold plan at hplan hplan'
    simp only [parameters, hplan, hplan', bind, Except.bind]
  · have horder := (plan_eq_ok hplan).2
    have horder' := (plan_eq_ok hplan').2
    unfold plan at hplan hplan'
    simp only [parameters, hplan, hplan', bind, Except.bind, horder, horder',
      emissionOrder_filterMap, hlive.emitted_eq hg]

/-! ## Finding the live part -/

/-- Along references, nothing leads out of a set of nodes that names only its own. -/
theorem reaches_of_closed {live : List UID} (houtput : g.output = h.output)
    (hroot : ∀ target, g.output = .node target → target ∈ live)
    (hcontent : ∀ u ∈ live, g.node? u = h.node? u)
    (hclosed : ∀ u ∈ live, ∀ n, g.node? u = some n → ∀ v ∈ n.targets, v ∈ live) {u : UID}
    (hu : g.Reaches u) : u ∈ live ∧ h.Reaches u := by
  have hpresent : ∀ v ∈ live, v ∈ g.uids → v ∈ h.uids := by
    intro v hv hmem
    rw [← node?_isSome_iff] at hmem ⊢
    rw [← hcontent v hv]
    exact hmem
  obtain ⟨root, hout, hmem, hpath⟩ := hu
  have hlive : root ∈ live := hroot root hout
  -- along the path from the output, by the last reference
  induction hpath with
  | refl => exact ⟨hlive, root, houtput ▸ hout, hpresent root hlive hmem, .refl⟩
  | tail _ hstep ih =>
      obtain ⟨hv, hreached⟩ := ih
      obtain ⟨n, hn, htarget, hmem'⟩ := hstep
      have hw := hclosed _ hv n hn _ htarget
      exact ⟨hw, hreached.step ⟨n, hcontent _ hv ▸ hn, htarget, hpresent _ hw hmem'⟩⟩

/-- Graphs that agree on a set of nodes with the output's in it, and that names only its own, have
the same live part. -/
theorem sameLive_of_closed (live : List UID) (houtput : g.output = h.output)
    (hroot : ∀ target, g.output = .node target → target ∈ live)
    (hcontent : ∀ u ∈ live, g.node? u = h.node? u)
    (hclosed : ∀ u ∈ live, ∀ n, g.node? u = some n → ∀ v ∈ n.targets, v ∈ live) :
    g.SameLive h := by
  have hclosed' : ∀ u ∈ live, ∀ n, h.node? u = some n → ∀ v ∈ n.targets, v ∈ live :=
    fun u hu n hn => hclosed u hu n (hcontent u hu ▸ hn)
  refine ⟨houtput, fun u => ⟨fun hu => ?_, fun hu => ?_⟩, fun u hu => ?_⟩
  · exact (reaches_of_closed houtput hroot hcontent hclosed hu).2
  · exact (reaches_of_closed houtput.symm (houtput ▸ hroot) (fun v hv => (hcontent v hv).symm)
      hclosed' hu).2
  · exact hcontent u (reaches_of_closed houtput hroot hcontent hclosed hu).1

/-! ## The main result -/

/-- Graphs without a cycle and with the same live part fail to compile with the same fault, or
compile to programs that agree but for their diagnostics; and their parameters are the same. -/
theorem dead_nodes_irrelevant (hlive : g.SameLive h) (hg : g.Acyclic) (hh : h.Acyclic)
    (options : Options) :
    (∀ f, g.compileWith options = .error f ↔ h.compileWith options = .error f) ∧
    (∀ p, g.compileWith options = .ok p → ∃ q, h.compileWith options = .ok q ∧
      p.order = q.order ∧ p.helpers = q.helpers ∧ p.statements = q.statements ∧
      p.output = q.output ∧ p.seedComponents = q.seedComponents) ∧
    g.parameters = h.parameters := by
  have hcompile := hlive.compileWith_eq hg hh options
  refine ⟨?_, ?_, hlive.parameters_eq hg hh⟩
  · intro f
    rw [← Attempt.map_eq_error_iff (f := Program.silent), hcompile, Attempt.map_eq_error_iff]
  · intro p hp
    rw [hp] at hcompile
    obtain ⟨q, hq, hsilent⟩ := Attempt.map_eq_ok_iff.mp hcompile.symm
    obtain ⟨horder, hhelpers, hstatements, houtput, hseed, _⟩ := Program.mk.inj hsilent
    exact ⟨q, hq, horder.symm, hhelpers.symm, hstatements.symm, houtput.symm, hseed.symm⟩

end

/-- The ramp with two dead nodes: one reads the result, the other has a loose end. -/
def litteredRamp : Graph :=
  [Edit.add (.math .sin), .setInput 3 0 (.node 2), .add (.math .cos),
    .setInput 4 0 (.node 77)].foldl after ramp

theorem sameLive_litteredRamp : ramp.SameLive litteredRamp := by
  have hcontent : ([0, 1, 2].all fun u => ramp.node? u = litteredRamp.node? u) = true := by decide
  have hclosed : ([0, 1, 2].all fun u => (ramp.node? u).all fun n =>
      n.targets.all [0, 1, 2].contains) = true := by decide
  refine sameLive_of_closed [0, 1, 2] rfl ?_ ?_ ?_
  · intro target htarget
    obtain rfl : 2 = target := Signal.node.inj htarget
    decide
  · intro u hu
    exact of_decide_eq_true (List.all_eq_true.mp hcontent u hu)
  · intro u hu n hn v hv
    have htargets := List.all_eq_true.mp hclosed u hu
    rw [hn, Option.all_some] at htargets
    exact List.contains_iff_mem.mp (List.all_eq_true.mp htargets v hv)

theorem litteredRamp_acyclic : litteredRamp.Acyclic := acyclic_of_targets (by decide)

/-- The dead nodes are not compiled, and neither is their loose end a fault. -/
theorem dead_nodes_irrelevant_ramp : litteredRamp.nodes.length = 5 ∧
    litteredRamp.LooseAt 4 0 77 ∧ ramp.SameLive litteredRamp ∧
    ∃ p q, ramp.compileWith {} = .ok p ∧ litteredRamp.compileWith {} = .ok q ∧
      p.statements = q.statements := by
  obtain ⟨p, hp⟩ := exists_program ramp_built.wellFormed.fits ramp_compilable
  obtain ⟨_, hok, _⟩ := dead_nodes_irrelevant sameLive_litteredRamp ramp_compilable.acyclic
    litteredRamp_acyclic {}
  obtain ⟨q, hq, _, _, hstatements, _⟩ := hok p hp
  exact ⟨by decide, ⟨_, _, rfl, rfl, rfl, by decide⟩, sameLive_litteredRamp, p, q, hp, hq,
    hstatements⟩

end Graph

end NoiseShader
