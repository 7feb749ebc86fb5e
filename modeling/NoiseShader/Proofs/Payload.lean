import NoiseShader.Proofs.Document.Text
import NoiseShader.Proofs.InsertionOrder
import Mathlib.Data.List.Sort

set_option autoImplicit false

/-! # What is not a number is all the same to a program

A constant that is not a number keeps a payload in the bits that its sign leaves over. Compilation
never comes to look at it: such a constant is a fault where it is used, and of no account elsewhere.
So a graph without payloads has the same shader file as the graph itself, or fails with the same
fault (`Graph.generate_quiet`).
-/

namespace NoiseShader

/-! ## Constants -/

namespace Binary32

theorem isFinite_quiet (x : Binary32) : x.quiet.isFinite = x.isFinite := by
  by_cases hnan : x.isNaN = true
  · have hquiet : x.quiet.isNaN = true := by rw [isNaN_quiet, hnan]
    have hnot : ∀ y : Binary32, y.isNaN = true → y.isFinite = false := by
      intro y hy
      cases hfinite : y.isFinite with
      | false => rfl
      | true =>
          rw [not_isNaN_of_isFinite hfinite] at hy
          cases hy
    rw [hnot x hnan, hnot x.quiet hquiet]
  · rw [quiet_of_not_isNaN (by simpa using hnan)]

theorem quiet_quiet (x : Binary32) : x.quiet.quiet = x.quiet := by
  by_cases hnan : x.isNaN = true
  · rw [quiet, isNaN_quiet, if_pos hnan, negative_quiet, quiet, if_pos hnan]
  · have hquiet : x.quiet = x := quiet_of_not_isNaN (by simpa using hnan)
    rw [hquiet, hquiet]

theorem quiet_of_isFinite {x : Binary32} (h : x.isFinite = true) : x.quiet = x :=
  quiet_of_not_isNaN (not_isNaN_of_isFinite h)

end Binary32

theorem Shading.literal?_quiet (x : Binary32) : literal? x.quiet = literal? x := by
  unfold literal?
  rw [Binary32.isFinite_quiet]
  by_cases hfinite : x.isFinite = true
  · rw [Binary32.quiet_of_isFinite hfinite]
  · rw [if_neg hfinite, if_neg hfinite]

/-! ## Nodes -/

theorem Signal.target?_quiet (s : Signal) : s.quiet.target? = s.target? := by
  cases s <;> rfl

theorem Signal.constant?_quiet (s : Signal) : s.quiet.constant? = s.constant?.map Binary32.quiet := by
  cases s <;> rfl

theorem Signal.quiet_quiet (s : Signal) : s.quiet.quiet = s.quiet := by
  cases s with
  | constant x => exact congrArg Signal.constant x.quiet_quiet
  | node uid => rfl

namespace Node

theorem targets_quiet (n : Node) : n.quiet.targets = n.targets := by
  simp only [targets, quiet, List.filterMap_map]
  refine List.filterMap_congr fun s _ => ?_
  exact s.signal.target?_quiet

theorem zipIdx_quiet (n : Node) :
    n.quiet.slots.zipIdx = n.slots.zipIdx.map (Prod.map Slot.quiet id) :=
  List.zipIdx_map

theorem quiet_quiet (n : Node) : n.quiet.quiet = n.quiet := by
  have hslots : ∀ s : Slot, s.quiet.quiet = s.quiet := fun s => by
    simp only [Slot.quiet, s.signal.quiet_quiet]
  simp only [quiet, List.map_map]
  congr 1
  exact List.map_congr_left fun s _ => hslots s

end Node

/-! ## The wiring -/

namespace Graph

theorem quiet_quiet (g : Graph) : g.quiet.quiet = g.quiet := by
  simp only [quiet, List.map_map, g.output.quiet_quiet]
  congr 1
  exact List.map_congr_left fun n _ => n.quiet_quiet

theorem uids_quiet (g : Graph) : g.quiet.uids = g.uids := by
  simp only [uids, quiet, List.map_map]
  rfl

theorem node?_quiet (g : Graph) (uid : UID) : g.quiet.node? uid = (g.node? uid).map Node.quiet := by
  unfold node? quiet
  simp only
  rw [List.find?_map]
  rfl

theorem wiring_node?_quiet (g : Graph) (uid : UID) :
    g.quiet.wiring.node? uid = (g.wiring.node? uid).map Node.quiet := by
  rw [wiring_node?, wiring_node?, node?_quiet]

theorem wiring_contains_quiet (g : Graph) : g.quiet.wiring.contains = g.wiring.contains := by
  funext uid
  rw [Bool.eq_iff_iff, wiring_contains, wiring_contains, uids_quiet]

theorem wiring_uids_quiet (g : Graph) : g.quiet.wiring.uids = g.wiring.uids := by
  refine (wiring_uids_pairwise g.quiet).eq_of_mem_iff (wiring_uids_pairwise g) ?_
  intro uid
  rw [mem_wiring_uids, mem_wiring_uids, uids_quiet]

theorem wiring_targets_quiet (g : Graph) : g.quiet.wiring.targets = g.wiring.targets := by
  funext uid
  unfold Wiring.targets
  rw [wiring_node?_quiet]
  cases g.wiring.node? uid with
  | none => rfl
  | some n => exact n.targets_quiet

theorem looseEndsOf_quiet (g : Graph) (n : Node) :
    g.quiet.wiring.looseEndsOf n.quiet = g.wiring.looseEndsOf n := by
  unfold Wiring.looseEndsOf
  rw [n.zipIdx_quiet, List.filterMap_map, wiring_contains_quiet]
  refine List.filterMap_congr ?_
  rintro ⟨s, i⟩ _
  simp only [Function.comp_apply, Prod.map, Slot.quiet, Signal.target?_quiet, id]
  rfl

/-- The nodes found under some UIDs are those of the graph without their payloads. -/
theorem filterMap_node?_quiet (g : Graph) (uids : List UID) :
    uids.filterMap g.quiet.wiring.node? = (uids.filterMap g.wiring.node?).map Node.quiet := by
  rw [List.map_filterMap]
  exact List.filterMap_congr fun uid _ => g.wiring_node?_quiet uid

theorem wiring_looseEnds_quiet (g : Graph) : g.quiet.wiring.looseEnds = g.wiring.looseEnds := by
  unfold Wiring.looseEnds
  rw [wiring_uids_quiet, filterMap_node?_quiet, List.flatMap_map]
  exact List.flatMap_congr fun n _ => g.looseEndsOf_quiet n

theorem wiring_plan_quiet (g : Graph) : g.quiet.wiring.plan g.quiet.output = g.wiring.plan g.output :=
  Wiring.plan_congr g.wiring_contains_quiet g.wiring_uids_quiet g.wiring_targets_quiet
    g.wiring_looseEnds_quiet g.output.target?_quiet

/-! ## Parameters -/

end Graph

def Tunable.quiet (t : Tunable) : Tunable := { t with value := t.value.quiet }

theorem Slot.tunable?_quiet (s : Slot) : s.quiet.tunable? = s.tunable?.map Binary32.quiet := by
  unfold tunable? quiet
  simp only
  cases s.pinned with
  | true => rfl
  | false => exact s.signal.constant?_quiet

theorem Node.tunables_quiet (n : Node) : n.quiet.tunables = n.tunables.map Tunable.quiet := by
  unfold tunables
  rw [n.zipIdx_quiet, List.filterMap_map, List.map_filterMap]
  refine List.filterMap_congr ?_
  rintro ⟨s, i⟩ _
  show s.quiet.tunable?.map _ = (s.tunable?.map _).map _
  rw [s.tunable?_quiet, Option.map_map, Option.map_map]
  rfl

namespace Graph

/-- A payload could only show in a constant that is a fault. -/
theorem parameters_quiet (g : Graph) : g.quiet.parameters = g.parameters := by
  unfold parameters
  simp only [wiring_plan_quiet]
  refine bind_congr fun plan => ?_
  have htunables : (plan.order.filterMap g.quiet.wiring.node?).flatMap Node.tunables =
      ((plan.order.filterMap g.wiring.node?).flatMap Node.tunables).map Tunable.quiet := by
    rw [filterMap_node?_quiet, List.flatMap_map, List.map_flatMap]
    exact List.flatMap_congr fun n _ => n.tunables_quiet
  rw [htunables]
  generalize (plan.order.filterMap g.wiring.node?).flatMap Node.tunables = ts
  have hfind : (ts.map Tunable.quiet).find? (fun t => !t.value.isFinite) =
      (ts.find? fun t => !t.value.isFinite).map Tunable.quiet := by
    rw [List.find?_map]
    simp only [Function.comp_def, Tunable.quiet, Binary32.isFinite_quiet]
  rw [hfind]
  cases hnone : ts.find? fun t => !t.value.isFinite with
  | some t => rfl
  | none =>
      -- all constants are finite, so none of them has a payload
      have hfinite : ∀ t ∈ ts, t.value.isFinite = true := by simpa using hnone
      have hsame : ts.map Tunable.quiet = ts := by
        conv_rhs => rw [← List.map_id ts]
        refine List.map_congr_left fun t ht => ?_
        simp only [Tunable.quiet, Binary32.quiet_of_isFinite (hfinite t ht), id]
      simp only [Option.map_none, hsame]

/-! ## Programs -/

theorem resolve_quiet (g : Graph) (site : Site) (signal : Signal) :
    g.quiet.wiring.resolve site signal.quiet = g.wiring.resolve site signal := by
  cases signal with
  | constant x =>
      unfold Wiring.resolve Signal.quiet
      simp only [Shading.literal?_quiet]
  | node target =>
      unfold Wiring.resolve Signal.quiet
      simp only [wiring_node?_quiet]
      cases g.wiring.node? target <;> rfl

theorem resolveSlot_quiet (g : Graph) (bindings : Bindings) (uid : UID) (i : Nat) (signal : Signal) :
    g.quiet.wiring.resolveSlot bindings uid i signal.quiet =
      g.wiring.resolveSlot bindings uid i signal := by
  unfold Wiring.resolveSlot
  rw [resolve_quiet, signal.constant?_quiet]
  cases bindings.find? uid i <;> cases signal.constant? <;> rfl

theorem emit_quiet (g : Graph) (options : Options) (n : Node) :
    g.quiet.wiring.emit options n.quiet = g.wiring.emit options n := by
  have hinputs : g.quiet.resolveAll options.bindings n.quiet = g.resolveAll options.bindings n := by
    unfold resolveAll
    rw [n.zipIdx_quiet, List.mapM_map]
    refine Attempt.mapM_congr ?_
    rintro ⟨s, i⟩ _
    exact g.resolveSlot_quiet options.bindings n.uid i s.signal
  have hlength : n.quiet.slots.length = n.slots.length := List.length_map _
  unfold resolveAll at hinputs
  unfold Wiring.emit Wiring.checkSlots
  rw [hinputs, hlength]
  rfl

theorem compileWith_quiet (g : Graph) (options : Options) :
    g.quiet.compileWith options = g.compileWith options := by
  unfold compileWith
  simp only [wiring_plan_quiet, filterMap_node?_quiet, List.mapM_map, Function.comp_def, emit_quiet,
    List.foldl_map]
  rw [show g.quiet.output = g.output.quiet from rfl, resolve_quiet]
  rfl

/-- The file of a graph does not show the payloads of its constants, and neither does its fault. -/
theorem generate_quiet (g : Graph) (s : Settings) : g.quiet.generate s = g.generate s := by
  unfold generate
  simp only [parameters_quiet, compileWith_quiet]
  rfl

end Graph

end NoiseShader
