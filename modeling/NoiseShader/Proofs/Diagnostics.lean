import NoiseShader.Proofs.Compilation
import NoiseShader.Proofs.Confinement
import NoiseShader.Proofs.DeadNodes
import NoiseShader.Proofs.Helper

set_option autoImplicit false

/-! # What is said of a graph that compiles

`Findings` is what there is to be said, in three parts: the loose ends of nodes that the output does
not reach, how many such nodes there are, and the formulas that use neither operand. Each part is
found in a pass of its own, over nodes in an order of its own. A program's diagnostics are these
findings and nothing else (`Graph.diagnostics_exact`).
-/

namespace NoiseShader

/-! ## Findings -/

/-- A formula that uses neither operand. -/
structure IdleFormula where
  node : UID
  role : Worley.Role
  formula : String
deriving DecidableEq, Repr

def IdleFormula.warning (f : IdleFormula) : Diagnostic :=
  ⟨.warning, some f.node, Worley.neitherOperand f.node f.role (Formula.flatten f.formula)⟩

namespace Node

/-- The formulas of cellular noise that has its own. -/
def ownFormulas (n : Node) : List (Worley.Role × String) :=
  match n.kind with
  | .noise noise =>
    if noise.isCustom then
      [(.distance, noise.formulas.distance), (.combine, noise.formulas.combine)]
    else []
  | _ => []

def idleFormulas (n : Node) : List IdleFormula :=
  (n.ownFormulas.filter fun f => ¬ Formula.Mentions f.2).map fun f => ⟨n.uid, f.1, f.2⟩

end Node

structure Findings where
  /-- Loose ends of nodes that the output does not reach. -/
  ends : List LooseEnd
  /-- All nodes that the output does not reach. -/
  unreached : List UID
  idle : List IdleFormula

namespace Findings

/-- The findings are those of a graph whose nodes are emitted in the given order: they leave nothing
out, name nothing twice and are in order. -/
structure Of (f : Findings) (g : Graph) (order : List UID) : Prop where
  ends_ordered : f.ends.Pairwise LooseEnd.Before
  mem_ends : ∀ l, l ∈ f.ends ↔ ¬ g.Reaches l.node ∧ g.LooseAt l.node l.slot l.target
  unreached_ordered : f.unreached.Pairwise (· < ·)
  mem_unreached : ∀ u, u ∈ f.unreached ↔ u ∈ g.uids ∧ ¬ g.Reaches u
  idle_eq : f.idle = (order.filterMap g.node?).flatMap Node.idleFormulas

instance : Std.Irrefl LooseEnd.Before where
  irrefl l h := by
    rcases h with hlt | ⟨_, hlt⟩
    · exact UInt32.lt_irrefl _ hlt
    · exact Nat.lt_irrefl _ hlt

instance : Std.Antisymm LooseEnd.Before where
  antisymm l m hlm hml := by
    rcases hlm with hlt | ⟨heq, hlt⟩
    · rcases hml with hlt' | ⟨heq, _⟩
      · exact absurd hlt' (UInt32.lt_asymm hlt)
      · exact absurd (heq ▸ hlt) (UInt32.lt_irrefl _)
    · rcases hml with hlt' | ⟨_, hlt'⟩
      · exact absurd (heq ▸ hlt') (UInt32.lt_irrefl _)
      · exact absurd hlt' (Nat.lt_asymm hlt)

/-- A graph has no choice of findings. -/
theorem Of.unique {f f' : Findings} {g : Graph} {order : List UID} (h : f.Of g order)
    (h' : f'.Of g order) : f = f' := by
  have hends : f.ends = f'.ends :=
    h.ends_ordered.eq_of_mem_iff h'.ends_ordered fun l => (h.mem_ends l).trans (h'.mem_ends l).symm
  have hunreached : f.unreached = f'.unreached :=
    h.unreached_ordered.eq_of_mem_iff h'.unreached_ordered fun u =>
      (h.mem_unreached u).trans (h'.mem_unreached u).symm
  have hidle : f.idle = f'.idle := h.idle_eq.trans h'.idle_eq.symm
  cases f
  cases f'
  simp_all only

/-- What is said of nodes that the output does not reach. -/
def note (count : Nat) : Diagnostic :=
  ⟨.note, none, toString count ++ " node(s) do not contribute to the output and were skipped"⟩

def diagnostics (f : Findings) : List Diagnostic :=
  f.ends.map LooseEnd.warning ++ (if f.unreached = [] then [] else [note f.unreached.length]) ++
    f.idle.map IdleFormula.warning

end Findings

namespace Graph

variable {g : Graph} {options : Options}

/-! ## Findings of the plan -/

/-- A plan reports every loose end of the graph and how many nodes are missing from it. -/
theorem plan_diagnostics {plan : Plan} (h : g.plan = .ok plan) :
    plan.diagnostics = g.wiring.looseEnds.map LooseEnd.warning ++
      Wiring.skipped (g.wiring.uids.length - g.reachable.length) := by
  unfold Graph.plan Wiring.plan at h
  split at h
  · cases h
  split at h
  · cases h
  simp only at h
  split at h
  · cases h
  obtain rfl := Except.ok.inj h
  rfl

/-- The nodes that the output does not reach, ascending. -/
def unreached (g : Graph) : List UID := g.wiring.uids.filter fun u => !g.reachable.contains u

theorem mem_unreached (g : Graph) (u : UID) : u ∈ g.unreached ↔ u ∈ g.uids ∧ ¬ g.Reaches u := by
  rw [unreached, List.mem_filter, mem_wiring_uids, Bool.not_eq_true', ← Bool.not_eq_true,
    List.contains_iff_mem, mem_reachable_iff]

theorem reachable_eq_filter (g : Graph) :
    g.reachable = g.wiring.uids.filter fun u => g.reachable.contains u := by
  refine (reachable_pairwise g).eq_of_mem_iff ((wiring_uids_pairwise g).filter _) ?_
  intro u
  rw [List.mem_filter, mem_wiring_uids, List.contains_iff_mem, mem_reachable_iff]
  exact ⟨fun hu => ⟨hu.mem, hu⟩, fun hu => hu.2⟩

/-- A node is reached or it is not. -/
theorem length_unreached_add (g : Graph) :
    g.unreached.length + g.reachable.length = g.wiring.uids.length := by
  have hsplit := g.wiring.uids.length_eq_length_filter_add fun u => g.reachable.contains u
  rw [← reachable_eq_filter] at hsplit
  rw [hsplit, unreached]
  exact Nat.add_comm _ _

theorem length_wiring_uids (hnodup : g.uids.Nodup) : g.wiring.uids.length = g.nodes.length := by
  have hperm : g.wiring.uids.Perm g.uids :=
    (List.perm_ext_iff_of_nodup (nodup_of_pairwise_lt (wiring_uids_pairwise g)) hnodup).mpr
      fun u => mem_wiring_uids g u
  rw [hperm.length_eq, uids, List.length_map]

/-! ## Findings of the emissions -/

theorem idleFormulas_of_not_isCustom {n : Node} (h : n.isCustom = false) : n.idleFormulas = [] := by
  have hnone : n.ownFormulas = [] := by
    unfold Node.isCustom at h
    unfold Node.ownFormulas
    cases hkind : n.kind with
    | noise noise =>
        rw [hkind] at h
        simp only at h ⊢
        rw [h]
        rfl
    | math op => rfl
    | coordinate axis => rfl
  rw [Node.idleFormulas, hnone]
  rfl

theorem warnings_idleFormulas {n : Node} {noise : Noise} (hkind : n.kind = .noise noise)
    (hcustom : noise.isCustom = true) :
    n.idleFormulas.map IdleFormula.warning =
      (Worley.formulaWarnings n.uid .distance noise.formulas.distance ++
        Worley.formulaWarnings n.uid .combine noise.formulas.combine).map fun message =>
          ⟨.warning, some n.uid, message⟩ := by
  have hown : n.ownFormulas =
      [(.distance, noise.formulas.distance), (.combine, noise.formulas.combine)] := by
    unfold Node.ownFormulas
    rw [hkind]
    simp only [hcustom, if_true]
  unfold Node.idleFormulas Worley.formulaWarnings
  rw [hown]
  by_cases hdistance : Formula.Mentions noise.formulas.distance <;>
    by_cases hcombine : Formula.Mentions noise.formulas.combine <;>
      simp [hdistance, hcombine, IdleFormula.warning]

/-- An emission warns of the formulas of its node that use neither operand. -/
theorem warnings_of_emit {n : Node} {e : Emission} (h : g.wiring.emit options n = .ok e) :
    e.warnings = n.idleFormulas.map IdleFormula.warning := by
  obtain ⟨hclean, hhelper, _⟩ := emit_eq_ok h
  unfold Emission.warnings
  rcases Wiring.helperOf_cases hhelper with ⟨hcustom, hnone⟩ |
    ⟨helper, _, hsome, noise, hkind, hcustom, hfor⟩
  · rw [hnone, idleFormulas_of_not_isCustom hcustom]
    rfl
  · obtain ⟨hfamily, hformulas⟩ := (Noise.isCustom_iff noise).mp hcustom
    obtain ⟨hdistance, hcombine⟩ := hclean.formulas noise hkind hfamily hformulas
    rw [Worley.helper_of_not_blank hdistance hcombine] at hfor
    obtain rfl := Except.ok.inj hfor
    rw [hsome, warnings_idleFormulas hkind hcustom]

theorem warnings_of_emissions {nodes : List Node} {es : List Emission}
    (h : List.Forall₂ (fun n e => g.wiring.emit options n = .ok e) nodes es) :
    es.flatMap Emission.warnings = (nodes.flatMap Node.idleFormulas).map IdleFormula.warning := by
  induction h with
  | nil => rfl
  | cons hemit _ ih =>
      rw [List.flatMap_cons, List.flatMap_cons, List.map_append, ih, warnings_of_emit hemit]

/-! ## The main result -/

/-- The findings of a graph whose nodes are emitted in the given order. -/
def findings (g : Graph) (order : List UID) : Findings where
  ends := g.wiring.looseEnds
  unreached := g.unreached
  idle := (order.filterMap g.node?).flatMap Node.idleFormulas

/-- In a graph with a plan, every loose end is of a node that the output does not reach. -/
theorem Plannable.findings_of (hg : g.Plannable) (order : List UID) :
    (g.findings order).Of g order where
  ends_ordered := looseEnds_pairwise g
  mem_ends l := by
    refine (mem_looseEnds g l).trans ⟨fun hloose => ⟨?_, hloose⟩, fun h => h.2⟩
    exact fun hreached => hg.tight _ _ _ hreached hloose
  unreached_ordered := (wiring_uids_pairwise g).filter _
  mem_unreached := mem_unreached g
  idle_eq := rfl

theorem skipped_eq (uids : List UID) :
    Wiring.skipped uids.length = if uids = [] then [] else [Findings.note uids.length] := by
  unfold Wiring.skipped
  by_cases h : uids = []
  · rw [if_pos h, if_pos (List.length_eq_zero_iff.mpr h)]
  · rw [if_neg h, if_neg (mt List.length_eq_zero_iff.mp h)]
    rfl

/-- There is one list of findings of a graph that compiles, and the diagnostics are these findings,
all of them and no other. The nodes that the output does not reach are as many as all nodes less those
that it reaches, which are not more. -/
theorem diagnostics_exact (hg : g.Built) {p : Program} (h : g.compileWith options = .ok p) :
    (∃ f : Findings, f.Of g p.order) ∧
    (∀ f : Findings, f.Of g p.order → p.diagnostics = f.diagnostics ∧
      f.unreached.length = g.nodes.length - g.reachable.length) ∧
    g.reachable.length ≤ g.nodes.length := by
  obtain ⟨plan, emissions, _, hplan, hemissions, _, rfl⟩ := compileWith_eq_program h
  have htotal := length_unreached_add g
  have hfound := (plan_eq_ok hplan).1.findings_of g.emissionOrder
  refine ⟨⟨_, hfound⟩, ?_, ?_⟩
  · intro f hf
    obtain rfl := hf.unique hfound
    have hcount : g.wiring.uids.length - g.reachable.length = g.unreached.length := by omega
    constructor
    · show plan.diagnostics ++ emissions.flatMap Emission.warnings = _
      rw [plan_diagnostics hplan, warnings_of_emissions hemissions, hcount, skipped_eq]
      rfl
    · rw [← length_wiring_uids hg.wellFormed.nodup]
      exact hcount.symm
  · rw [← length_wiring_uids hg.wellFormed.nodup]
    omega

/-- Cellular noise with two formulas that use neither operand, and two nodes with loose ends that the
output does not reach, one of them reading the noise. -/
def attic : Graph :=
  [Edit.add (.noise ⟨.worley, .one, ⟨"1.0", " 0.5\n"⟩⟩), .add (.math .add), .add (.math .sin),
    .setInput 1 0 (.node 9), .setInput 1 1 (.node 0), .setInput 2 0 (.node 8),
    .setOutput (.node 0)].foldl after (.empty "Attic")

theorem attic_built : attic.Built := (Built.empty "Attic").edits _

theorem attic_reaches_iff (u : UID) : attic.Reaches u ↔ u = 0 := by
  have hroot : ∀ target, attic.output = .node target → target ∈ [(0 : UID)] := by
    intro target htarget
    obtain rfl : 0 = target := Signal.node.inj htarget
    exact List.mem_singleton_self _
  have hclosed : ∀ v ∈ [(0 : UID)], ∀ n, attic.node? v = some n →
      ∀ w ∈ n.targets, w ∈ [(0 : UID)] := by
    intro v hv n hn w hw
    obtain rfl := List.mem_singleton.mp hv
    obtain rfl : _ = n := Option.some.inj hn
    cases hw
  constructor
  · intro hu
    have hlive : u ∈ [(0 : UID)] ∧ attic.Reaches u :=
      reaches_of_closed rfl hroot (fun _ _ => rfl) hclosed hu
    exact List.mem_singleton.mp hlive.1
  · rintro rfl
    exact ⟨0, rfl, by decide, .refl⟩

theorem attic_compilable : attic.Compilable {} := by
  have hkind : (attic.node? 0).map Node.kind =
      some (.noise ⟨.worley, .one, ⟨"1.0", " 0.5\n"⟩⟩) := by decide
  have hsignals : ((attic.node? 0).all fun n => n.slots.all fun s =>
      s.signal.constant?.any Binary32.isFinite) = true := by decide
  have hconstant : ∀ n s, attic.node? 0 = some n → s ∈ n.slots →
      s.signal.constant?.any Binary32.isFinite = true := by
    intro n s hn hs
    rw [hn, Option.all_some] at hsignals
    exact List.all_eq_true.mp hsignals s hs
  refine ⟨?_, acyclic_of_targets (by decide), ?_, ?_, ?_⟩
  · intro target htarget
    obtain rfl : 0 = target := Signal.node.inj htarget
    decide
  · rintro u slot target hu ⟨n, s, hn, hs, hsignal, _⟩
    obtain rfl := (attic_reaches_iff u).mp hu
    have hconst := hconstant n s hn (List.mem_of_getElem? hs)
    rw [hsignal] at hconst
    cases hconst
  · intro u n hu hn
    obtain rfl := (attic_reaches_iff u).mp hu
    rw [hn, Option.map_some, Option.some.injEq] at hkind
    refine ⟨?_, ?_, ?_⟩
    · intro axis d haxis
      rw [hkind] at haxis
      cases haxis
    · intro noise hnoise _ _
      obtain rfl := Kind.noise.inj (hkind.symm.trans hnoise)
      exact ⟨by decide, by decide⟩
    · intro i s x hs hsignal _
      have hconst := hconstant n s hn (List.mem_of_getElem? hs)
      rwa [hsignal] at hconst
  · intro x hx
    cases hx

theorem diagnostics_exact_attic : ∃ p, attic.compileWith {} = .ok p ∧ p.diagnostics = [
    ⟨.warning, some 1, "unreachable slot 0 references missing node 9"⟩,
    ⟨.warning, some 2, "unreachable slot 0 references missing node 8"⟩,
    ⟨.note, none, "2 node(s) do not contribute to the output and were skipped"⟩,
    ⟨.warning, some 0, "Worley node 0: distance formula `1.0` references neither $1 nor $2"⟩,
    ⟨.warning, some 0, "Worley node 0: combine formula `0.5` references neither $1 nor $2"⟩] := by
  obtain ⟨p, hp⟩ := exists_program attic_built.wellFormed.fits attic_compilable
  have horder : p.order = [0] := by
    obtain ⟨hplan, horder, _⟩ := compileWith_eq_ok hp
    rw [horder]
    exact emissionOrder_eq_singleton hplan.acyclic attic_reaches_iff
  have hfound : Findings.Of ⟨[⟨1, 0, 9⟩, ⟨2, 0, 8⟩], [1, 2],
      [⟨0, .distance, "1.0"⟩, ⟨0, .combine, " 0.5\n"⟩]⟩ attic p.order := by
    have hends : attic.wiring.looseEnds = [⟨1, 0, 9⟩, ⟨2, 0, 8⟩] := rfl
    refine ⟨hends ▸ looseEnds_pairwise attic, ?_, by decide, ?_, ?_⟩
    · intro l
      rw [← mem_looseEnds, hends, attic_reaches_iff]
      constructor
      · intro hl
        refine ⟨?_, hl⟩
        rcases List.mem_pair.mp hl with rfl | rfl <;> decide
      · exact fun hl => hl.2
    · intro u
      have huids : attic.uids = [0, 1, 2] := by decide
      rw [attic_reaches_iff, huids]
      constructor
      · intro hu
        rcases List.mem_pair.mp hu with rfl | rfl <;> decide
      · rintro ⟨hu, hne⟩
        exact (List.mem_cons.mp hu).resolve_left hne
    · rw [horder]
      decide
  refine ⟨p, hp, ((diagnostics_exact attic_built hp).2.1 _ hfound).1.trans ?_⟩
  decide

end Graph

end NoiseShader
