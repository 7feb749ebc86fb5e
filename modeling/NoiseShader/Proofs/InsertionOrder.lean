import NoiseShader.ShaderFile
import NoiseShader.Proofs.Compilation

set_option autoImplicit false

/-! # The order of insertion does not matter

Everything that is done with a graph goes through its wiring, and of the wiring only the nodes
found under their UIDs count (`Wiring.Agree`). So graphs that hold the same nodes are compiled
alike, whatever the order in which they were added (`Graph.insertion_order_irrelevant`).
-/

namespace NoiseShader

namespace Wiring

/-- The same nodes are found under the same UIDs. -/
def Agree (w w' : Wiring) : Prop := ∀ uid, w.node? uid = w'.node? uid

section

variable {w w' : Wiring}

theorem Agree.node?_eq (h : w.Agree w') : w.node? = w'.node? := funext h

theorem Agree.equiv (h : w.Agree w') : w.nodes.Equiv w'.nodes :=
  Std.TreeMap.Equiv.of_forall_constGet?_eq h

theorem Agree.contains_eq (h : w.Agree w') : w.contains = w'.contains := by
  funext uid
  exact h.equiv.contains_eq

/-- The keys are ascending, so that trees with the same keys list them in the same order. -/
theorem Agree.uids_eq (h : w.Agree w') : w.uids = w'.uids := h.equiv.keys_eq

/-! ## Searches -/

theorem Agree.targets_eq (h : w.Agree w') : w.targets = w'.targets := by
  funext uid
  unfold targets
  rw [h uid]

/-- What a node depends on is what it refers to, as far as that is there. -/
theorem dependencies_congr (hcontains : w.contains = w'.contains) (htargets : w.targets = w'.targets) :
    w.dependencies = w'.dependencies := by
  funext uid
  rw [dependencies_eq, dependencies_eq, hcontains, htargets]

theorem Agree.dependencies_eq (h : w.Agree w') : w.dependencies = w'.dependencies :=
  dependencies_congr h.contains_eq h.targets_eq

theorem Agree.cycle?_eq (h : w.Agree w') : w.cycle? = w'.cycle? := by
  unfold cycle?
  rw [h.dependencies_eq, h.uids_eq]

theorem Agree.reachable_eq (h : w.Agree w') (output : Signal) :
    w.reachable output = w'.reachable output := by
  unfold reachable
  rw [h.targets_eq, h.uids_eq]

theorem Agree.order_eq (h : w.Agree w') (subset : List UID) : w.order subset = w'.order subset := by
  unfold order order?
  rw [h.dependencies_eq]

theorem Agree.looseEnds_eq (h : w.Agree w') : w.looseEnds = w'.looseEnds := by
  have hof : w.looseEndsOf = w'.looseEndsOf := by
    funext n
    unfold looseEndsOf
    rw [h.contains_eq]
  unfold looseEnds
  rw [h.uids_eq, h.node?_eq, hof]

/-- Of a wiring and an output, a plan takes no more than this. -/
theorem plan_congr (hcontains : w.contains = w'.contains) (huids : w.uids = w'.uids)
    (htargets : w.targets = w'.targets) (hends : w.looseEnds = w'.looseEnds)
    {output output' : Signal} (houtput : output.target? = output'.target?) :
    w.plan output = w'.plan output' := by
  unfold plan cycle? reachable order order?
  simp only [dependencies_congr hcontains htargets, hcontains, huids, htargets, hends, houtput]

theorem Agree.plan_eq (h : w.Agree w') (output : Signal) : w.plan output = w'.plan output :=
  plan_congr h.contains_eq h.uids_eq h.targets_eq h.looseEnds_eq rfl

end

end Wiring

namespace Graph

section

variable {g h : Graph}

theorem wiring_agree (hnodes : ∀ uid, g.node? uid = h.node? uid) : g.wiring.Agree h.wiring := by
  intro uid
  rw [wiring_node?, wiring_node?]
  exact hnodes uid

/-- Nodes with distinct UIDs are found alike in whatever order they are listed. -/
theorem node?_eq_of_perm (hg : g.uids.Nodup) (hperm : g.nodes.Perm h.nodes) (uid : UID) :
    g.node? uid = h.node? uid := by
  have hh : h.uids.Nodup := (hperm.map Node.uid).nodup_iff.mp hg
  ext n
  rw [node?_eq_some_iff hg, node?_eq_some_iff hh, hperm.mem_iff]

theorem parameters_eq_of_nodes (houtput : g.output = h.output)
    (hnodes : ∀ uid, g.node? uid = h.node? uid) : g.parameters = h.parameters := by
  have hagree := wiring_agree hnodes
  unfold parameters
  simp only [hagree.plan_eq, hagree.node?_eq, houtput]

theorem compileWith_eq_of_nodes (houtput : g.output = h.output)
    (hnodes : ∀ uid, g.node? uid = h.node? uid) (options : Options) :
    g.compileWith options = h.compileWith options := by
  have hagree := wiring_agree hnodes
  have hemit : g.wiring.emit options = h.wiring.emit options :=
    funext fun n => emit_congr (fun v _ => hnodes v) options
  have hresolve : ∀ signal, g.wiring.resolve .output signal = h.wiring.resolve .output signal :=
    fun signal => resolve_congr (fun v _ => hnodes v) .output
  unfold compileWith
  simp only [hagree.plan_eq, hagree.node?_eq, hemit, hresolve, houtput]

/-! ## The main result -/

/-- Graphs with the same nodes under the same UIDs have the same cycle, the same reached nodes, the
same orders and plan, and are compiled to the same programs and files or fail with the same
faults. -/
theorem insertion_order_irrelevant (hname : g.name = h.name) (houtput : g.output = h.output)
    (hnodes : ∀ uid, g.node? uid = h.node? uid) :
    g.cycle? = h.cycle? ∧ g.reachable = h.reachable ∧
    (∀ subset, g.order subset = h.order subset) ∧ g.plan = h.plan ∧
    g.parameters = h.parameters ∧ (∀ options, g.compileWith options = h.compileWith options) ∧
    ∀ settings, g.generate settings = h.generate settings := by
  have hagree := wiring_agree hnodes
  have hparameters := parameters_eq_of_nodes houtput hnodes
  have hcompile := compileWith_eq_of_nodes houtput hnodes
  refine ⟨hagree.cycle?_eq, ?_, hagree.order_eq, ?_, hparameters, hcompile, ?_⟩
  · unfold reachable
    rw [houtput, hagree.reachable_eq]
  · unfold plan
    rw [houtput, hagree.plan_eq]
  · intro settings
    unfold generate
    simp only [hparameters, hcompile, hname]

/-- The ramp with its last node first. -/
def reversedRamp : Graph := { ramp with nodes := ramp.nodes.reverse }

theorem insertion_order_irrelevant_ramp :
    ramp.nodes ≠ reversedRamp.nodes ∧ (∀ uid, ramp.node? uid = reversedRamp.node? uid) ∧
      ∃ p, reversedRamp.compileWith {} = .ok p ∧ ramp.compileWith {} = .ok p := by
  have hnodes : ∀ uid, ramp.node? uid = reversedRamp.node? uid :=
    node?_eq_of_perm ramp_built.wellFormed.nodup ramp.nodes.reverse_perm.symm
  obtain ⟨p, hp⟩ := exists_program ramp_built.wellFormed.fits ramp_compilable
  obtain ⟨_, _, _, _, _, hcompile, _⟩ :=
    insertion_order_irrelevant (g := ramp) (h := reversedRamp) rfl rfl hnodes
  exact ⟨by decide, hnodes, p, (hcompile {}).symm.trans hp, hp⟩

end

end Graph

end NoiseShader
