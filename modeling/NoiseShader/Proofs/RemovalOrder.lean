import NoiseShader.Proofs.Detachment

set_option autoImplicit false

/-! # Removing several nodes

`Graph.without` takes a set of nodes away at once: what is left keeps its place, and whatever named
one of them goes back to its declared value. One removal is the case of a single node
(`Graph.graph_of_remove`), and taking nodes away in two goes is taking them away together
(`Graph.without_without`). So a run of removals ends in the same graph in whatever order it goes
(`Graph.removals_commute`), although the graphs on the way differ.
-/

namespace NoiseShader

/-! ## References to any of some nodes -/

/-- The signal is a reference to one of `uids`. -/
def Signal.Names (uids : List UID) (s : Signal) : Prop := ∃ u ∈ uids, s = .node u

instance (uids : List UID) (s : Signal) : Decidable (s.Names uids) :=
  inferInstanceAs (Decidable (∃ u ∈ uids, s = .node u))

theorem Signal.names_singleton (uid : UID) (s : Signal) : s.Names [uid] ↔ s = .node uid := by
  simp [Names]

theorem Signal.names_append (us vs : List UID) (s : Signal) :
    s.Names (us ++ vs) ↔ s.Names us ∨ s.Names vs := by
  simp [Names, or_and_right, exists_or]

theorem Signal.not_names_constant (uids : List UID) (x : Binary32) :
    ¬ (Signal.constant x).Names uids := by
  simp [Names]

/-- The slot, with its declared value in place of a reference to one of `uids`. -/
def Slot.freed (uids : List UID) (s : Slot) : Slot := if s.signal.Names uids then s.reset else s

/-- The node with every reference to one of `uids` reset. -/
def Node.freed (uids : List UID) (n : Node) : Node :=
  { n with slots := n.slots.map (Slot.freed uids) }

theorem Slot.freed_singleton (uid : UID) (s : Slot) : s.freed [uid] = s.detached uid := by
  simp only [freed, detached, Signal.names_singleton, Signal.refersTo_iff]

/-- A slot that has been reset holds a constant, so it is not reset again. -/
theorem Slot.freed_freed (us vs : List UID) (s : Slot) :
    (s.freed us).freed vs = s.freed (us ++ vs) := by
  by_cases hus : s.signal.Names us
  · have hfirst : s.freed us = s.reset := if_pos hus
    have hboth : s.freed (us ++ vs) = s.reset :=
      if_pos ((Signal.names_append us vs s.signal).mpr (.inl hus))
    rw [hfirst, hboth]
    exact if_neg (Signal.not_names_constant vs s.initial)
  · have hfirst : s.freed us = s := if_neg hus
    rw [hfirst]
    simp only [freed, Signal.names_append, hus, false_or]

theorem Node.freed_singleton (uid : UID) (n : Node) : n.freed [uid] = n.detached uid := by
  have hslots : Slot.freed [uid] = Slot.detached uid := funext (Slot.freed_singleton uid)
  rw [freed, hslots]
  rfl

theorem Node.freed_freed (us vs : List UID) (n : Node) :
    (n.freed us).freed vs = n.freed (us ++ vs) := by
  have hslots : Slot.freed vs ∘ Slot.freed us = Slot.freed (us ++ vs) :=
    funext (Slot.freed_freed us vs)
  rw [freed, freed, freed, List.map_map, hslots]

namespace Graph

/-! ## Several nodes at once -/

/-- The graph without some of its nodes. The others stay in order, and what named one of the nodes
that are gone has its declared value instead; the output has zero. -/
def without (g : Graph) (uids : List UID) : Graph :=
  { g with
    nodes := (g.nodes.filter fun n => n.uid ∉ uids).map (Node.freed uids)
    output := if g.output.Names uids then .zero else g.output }

theorem without_nil (g : Graph) : g.without [] = g := by
  have hslots : Slot.freed [] = id := by
    funext s
    simp [Slot.freed, Signal.Names]
  have hnodes : Node.freed [] = id := by
    funext n
    rw [Node.freed, hslots, List.map_id]
    rfl
  simp [without, hnodes, Signal.Names]

theorem without_without (g : Graph) (us vs : List UID) :
    (g.without us).without vs = g.without (us ++ vs) := by
  have hnodes : (((g.nodes.filter fun n => n.uid ∉ us).map (Node.freed us)).filter
        fun n => n.uid ∉ vs).map (Node.freed vs) =
      (g.nodes.filter fun n => n.uid ∉ us ++ vs).map (Node.freed (us ++ vs)) := by
    have hcompose : Node.freed vs ∘ Node.freed us = Node.freed (us ++ vs) :=
      funext (Node.freed_freed us vs)
    -- a node keeps its UID, so it does not matter that the first nodes are gone already
    rw [List.filter_map, List.map_map, hcompose, List.filter_filter]
    congr 2
    funext n
    rw [Bool.eq_iff_iff]
    simp only [Function.comp_apply, Bool.and_eq_true, decide_eq_true_eq, List.mem_append, not_or]
    exact and_comm
  have houtput : (if (if g.output.Names us then Signal.zero else g.output).Names vs then .zero
        else if g.output.Names us then .zero else g.output) =
      if g.output.Names (us ++ vs) then Signal.zero else g.output := by
    by_cases hus : g.output.Names us
    · simp only [Signal.names_append, hus, true_or, if_true, ite_self]
    · simp only [Signal.names_append, hus, false_or, if_false]
  rw [without, without, without, hnodes, houtput]

/-- Only the set of nodes counts, not how it is listed. -/
theorem without_congr (g : Graph) {us vs : List UID} (h : ∀ u, u ∈ us ↔ u ∈ vs) :
    g.without us = g.without vs := by
  have hnames : Signal.Names us = Signal.Names vs := by
    funext s
    simp only [Signal.Names, h]
  have hslots : Slot.freed us = Slot.freed vs := by
    funext s
    simp only [Slot.freed, hnames]
  have hnodes : Node.freed us = Node.freed vs := by
    funext n
    rw [Node.freed, Node.freed, hslots]
  simp only [without, h, hnodes, hnames]

theorem mem_uids_without (g : Graph) (gone : List UID) (u : UID) :
    u ∈ (g.without gone).uids ↔ u ∈ g.uids ∧ u ∉ gone := by
  simp only [uids, without, Node.freed, List.mem_map, List.mem_filter, decide_eq_true_eq]
  constructor
  · rintro ⟨_, ⟨n, ⟨hn, hgone⟩, rfl⟩, rfl⟩
    exact ⟨⟨n, hn, rfl⟩, hgone⟩
  · rintro ⟨⟨n, hn, rfl⟩, hgone⟩
    exact ⟨_, ⟨n, ⟨hn, hgone⟩, rfl⟩, rfl⟩

/-! ## One after the other -/

theorem graph_of_remove {g : Graph} {uid : UID} {r : Removal} (hr : g.remove uid = .ok r) :
    r.graph = g.without [uid] := by
  have hnodes : Node.freed [uid] = Node.detached uid := funext (Node.freed_singleton uid)
  unfold remove at hr
  split at hr
  · cases hr
  · obtain rfl := Except.ok.inj hr
    simp only [without, hnodes, Signal.names_singleton, Signal.refersTo_iff]
    congr 2
    simp [bne, beq_eq_decide]

/-- A run of edits; it stops at the first one that fails. -/
def applyAll (g : Graph) : List Edit → Except EditError Graph
  | [] => .ok g
  | e :: edits => do
    let h ← g.apply e
    h.applyAll edits

/-- Nodes that are there, and of which none is named twice, can be removed one after the other. -/
theorem applyAll_remove {g : Graph} {uids : List UID} (hdistinct : uids.Nodup)
    (hpresent : ∀ u ∈ uids, u ∈ g.uids) :
    g.applyAll (uids.map .remove) = .ok (g.without uids) := by
  induction uids generalizing g with
  | nil => rw [without_nil]; rfl
  | cons uid uids ih =>
      obtain ⟨hfresh, hdistinct⟩ := List.nodup_cons.mp hdistinct
      obtain ⟨huid, hpresent⟩ := List.forall_mem_cons.mp hpresent
      obtain ⟨r, hr⟩ := exists_removal huid
      have hstep : g.apply (.remove uid) = .ok (g.without [uid]) := by
        rw [apply, hr, ← graph_of_remove hr]
        rfl
      have hleft : ∀ u ∈ uids, u ∈ (g.without [uid]).uids := by
        intro u hu
        refine (mem_uids_without g [uid] u).mpr ⟨hpresent u hu, ?_⟩
        rw [List.mem_singleton]
        rintro rfl
        exact hfresh hu
      calc g.applyAll ((uid :: uids).map .remove)
          = (g.apply (.remove uid) >>= fun h => h.applyAll (uids.map .remove)) := rfl
        _ = (g.without [uid]).applyAll (uids.map .remove) := by rw [hstep]; rfl
        _ = .ok ((g.without [uid]).without uids) := ih hdistinct hleft
        _ = .ok (g.without (uid :: uids)) := by rw [without_without]; rfl

/-- Distinct nodes can be removed one after the other in any order, and each order ends in the same
graph: the one in which all of them are gone. -/
theorem removals_commute {g : Graph} {uids : List UID} (hdistinct : uids.Nodup)
    (hpresent : ∀ u ∈ uids, u ∈ g.uids) :
    ∀ order : List UID, order.Perm uids →
      g.applyAll (order.map .remove) = .ok (g.without uids) := by
  intro order hperm
  rw [applyAll_remove (hperm.nodup_iff.mpr hdistinct) fun u hu => hpresent u (hperm.mem_iff.mp hu),
    without_congr g fun u => hperm.mem_iff]

/-- Nodes 0 and 1 of the hub both feed node 2, one feeds the other, and one feeds itself. After the
first removal the graph is not the same in the two orders, after both it is. -/
theorem removals_commute_hub : ([1, 0] : List UID).Nodup ∧ (∀ u ∈ [1, 0], u ∈ hub.uids) ∧
    hub.without [1] ≠ hub.without [0] ∧
    hub.applyAll [.remove 1, .remove 0] = .ok (hub.without [1, 0]) ∧
    hub.applyAll [.remove 0, .remove 1] = .ok (hub.without [1, 0]) ∧
    (hub.without [1, 0]).nodes = [Node.ofKind 2 (.math .add)] := by
  have hdistinct : ([1, 0] : List UID).Nodup := by decide
  have hpresent : ∀ u ∈ [1, 0], u ∈ hub.uids :=
    List.forall_mem_cons.mpr ⟨by decide, List.forall_mem_singleton.mpr (by decide)⟩
  have hcommute := removals_commute hdistinct hpresent
  exact ⟨hdistinct, hpresent, by decide, hcommute [1, 0] (.refl _), hcommute [0, 1] (.swap _ _ _),
    by decide⟩

end Graph

end NoiseShader
