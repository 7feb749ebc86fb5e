import NoiseShader.Proofs.Graph.Invariant
import Mathlib.Logic.Relation

set_option autoImplicit false

/-! # References between the nodes of a graph

`Graph.Refers` is the relation that the searches through a graph follow: a slot of one node
names another node of the graph. Loose ends, which name nothing, are no part of it. The
wiring finds the same nodes as the graph, so that its dependencies are the relation
(`mem_dependencies`).
-/

namespace NoiseShader

/-! ## Ascending lists of UIDs -/

theorem uid_compare_eq_lt {u v : UID} : compare u v = .lt ↔ u < v :=
  Std.compare_eq_lt

theorem mem_ascending (uids : List UID) (u : UID) : u ∈ ascending uids ↔ u ∈ uids := by
  rw [ascending, Std.TreeSet.mem_toList, Std.TreeSet.mem_ofList, List.contains_iff_mem]

theorem ascending_pairwise (uids : List UID) : (ascending uids).Pairwise (· < ·) :=
  Std.TreeSet.ordered_toList.imp uid_compare_eq_lt.mp

theorem nodup_of_pairwise_lt {uids : List UID} (h : uids.Pairwise (· < ·)) : uids.Nodup := by
  refine h.imp ?_
  rintro u _ hlt rfl
  exact UInt32.lt_irrefl u hlt

theorem mem_setOf_iff (uids : List UID) (u : UID) :
    u ∈ Std.TreeSet.ofList uids compare ↔ u ∈ uids := by
  rw [Std.TreeSet.mem_ofList, List.contains_iff_mem]

theorem mem_erase_iff (set : UIDSet) (u v : UID) : v ∈ set.erase u ↔ v ≠ u ∧ v ∈ set := by
  rw [Std.TreeSet.mem_erase]
  refine and_congr_left fun _ => not_congr ?_
  rw [Std.LawfulEqCmp.compare_eq_iff_eq]
  exact eq_comm

theorem Wiring.dependencies_eq (w : Wiring) (u : UID) :
    w.dependencies u = ascending ((w.targets u).filter w.contains) := by
  unfold dependencies targets
  cases w.node? u with
  | none => rfl
  | some n => rfl

theorem Wiring.dependencies_pairwise (w : Wiring) (u : UID) :
    (w.dependencies u).Pairwise (· < ·) := by
  unfold dependencies
  split
  · exact .nil
  · exact ascending_pairwise _

/-! ## The wiring finds the nodes of the graph -/

namespace Graph

theorem wiring_node? (g : Graph) (uid : UID) : g.wiring.node? uid = g.node? uid := by
  unfold Wiring.node? wiring node?
  simp only
  induction g.nodes with
  | nil => simp
  | cons n nodes ih =>
      rw [List.foldr_cons, Std.TreeMap.getElem?_insert, List.find?_cons]
      by_cases h : n.uid = uid
      · rw [h, if_pos Std.ReflCmp.compare_self, beq_self_eq_true]
      · have hne : compare n.uid uid ≠ .eq := fun heq => h (Std.LawfulEqCmp.eq_of_compare heq)
        rw [if_neg hne, ih, beq_false_of_ne h]

theorem wiring_contains (g : Graph) (uid : UID) :
    g.wiring.contains uid = true ↔ uid ∈ g.uids := by
  rw [← node?_isSome_iff, ← wiring_node?]
  unfold Wiring.contains Wiring.node?
  rw [Std.TreeMap.contains_eq_isSome_getElem?]

theorem mem_wiring_uids (g : Graph) (uid : UID) : uid ∈ g.wiring.uids ↔ uid ∈ g.uids := by
  rw [← wiring_contains]
  unfold Wiring.uids Wiring.contains
  rw [Std.TreeMap.mem_keys, Std.TreeMap.contains_iff_mem]

theorem wiring_uids_pairwise (g : Graph) : g.wiring.uids.Pairwise (· < ·) :=
  Std.TreeMap.ordered_keys.imp uid_compare_eq_lt.mp

/-! ## The relation -/

/-- A slot of the node `u` names the node `v` of the graph. -/
def Refers (g : Graph) (u v : UID) : Prop :=
  ∃ n, g.node? u = some n ∧ v ∈ n.targets ∧ v ∈ g.uids

/-- No chain of references leads from a node back to itself. -/
def Acyclic (g : Graph) : Prop := ∀ u, ¬ Relation.TransGen g.Refers u u

/-- The output names the node, or a chain of references from the node that it names leads
there. -/
def Reaches (g : Graph) (u : UID) : Prop :=
  ∃ root, g.output = .node root ∧ root ∈ g.uids ∧ Relation.ReflTransGen g.Refers root u

/-- A slot of a node names a UID that the graph lacks. -/
def LooseAt (g : Graph) (u : UID) (slot : Nat) (target : UID) : Prop :=
  ∃ n s, g.node? u = some n ∧ n.slots[slot]? = some s ∧ s.signal = .node target ∧
    target ∉ g.uids

/-- References that all go to lesser UIDs do not come back. -/
theorem acyclic_of_descending {g : Graph} (h : ∀ u v, g.Refers u v → v < u) : g.Acyclic := by
  have hlt : ∀ u v, Relation.TransGen g.Refers u v → v < u := by
    intro u v hpath
    induction hpath with
    | single hstep => exact h _ _ hstep
    | tail _ hstep ih => exact UInt32.lt_trans (h _ _ hstep) ih
  intro u hpath
  exact UInt32.lt_irrefl u (hlt u u hpath)

/-- So it is enough to look at what the nodes of the graph name, absent nodes aside. -/
theorem acyclic_of_targets {g : Graph}
    (h : ∀ n ∈ g.nodes, (n.targets.all fun v => !g.uids.contains v || v < n.uid) = true) :
    g.Acyclic := by
  refine acyclic_of_descending ?_
  rintro u v ⟨n, hn, hv, hpresent⟩
  obtain ⟨hmem, rfl⟩ := node?_eq_some hn
  have hlt := List.all_eq_true.mp (h n hmem) v hv
  simpa [hpresent] using hlt

theorem Refers.left_mem {g : Graph} {u v : UID} (h : g.Refers u v) : u ∈ g.uids := by
  obtain ⟨n, hn, _⟩ := h
  rw [← node?_isSome_iff, hn]
  rfl

theorem Refers.right_mem {g : Graph} {u v : UID} (h : g.Refers u v) : v ∈ g.uids := by
  obtain ⟨_, _, _, hv⟩ := h
  exact hv

theorem Reaches.mem {g : Graph} {u : UID} (h : g.Reaches u) : u ∈ g.uids := by
  obtain ⟨root, _, hroot, hpath⟩ := h
  cases hpath with
  | refl => exact hroot
  | tail _ hstep => exact hstep.right_mem

theorem Reaches.step {g : Graph} {u v : UID} (h : g.Reaches u) (huv : g.Refers u v) :
    g.Reaches v := by
  obtain ⟨root, hout, hroot, hpath⟩ := h
  exact ⟨root, hout, hroot, hpath.tail huv⟩

theorem mem_dependencies (g : Graph) (u v : UID) :
    v ∈ g.wiring.dependencies u ↔ g.Refers u v := by
  unfold Wiring.dependencies
  rw [wiring_node?]
  cases hn : g.node? u with
  | none => simp [Refers, hn]
  | some n => simp [Refers, hn, mem_ascending, wiring_contains]

theorem mem_wiring_targets (g : Graph) (u v : UID) :
    v ∈ g.wiring.targets u ↔ ∃ n, g.node? u = some n ∧ v ∈ n.targets := by
  unfold Wiring.targets
  rw [wiring_node?]
  cases g.node? u with
  | none => simp
  | some n => simp

theorem mem_targets_iff (n : Node) (v : UID) :
    v ∈ n.targets ↔ ∃ s ∈ n.slots, s.signal = .node v := by
  unfold Node.targets
  rw [List.mem_filterMap]
  refine exists_congr fun s => and_congr_right fun _ => ?_
  cases s.signal with
  | constant x => simp [Signal.target?]
  | node u => simp [Signal.target?]

end Graph

end NoiseShader
