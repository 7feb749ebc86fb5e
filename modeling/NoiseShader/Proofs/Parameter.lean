import NoiseShader.Parameter
import NoiseShader.Proofs.Compilation

set_option autoImplicit false

/-! # Where parameters come from

The parameters of a graph are the unpinned constants of the nodes that are emitted, one for each
such slot (`Graph.parameters_eq_ok_iff`, `Graph.mem_tunables`), and bound to their slots they are
found there and nowhere else (`Bindings.find?_ofParameters`).
-/

namespace NoiseShader

/-! ## Bindings -/

/-- Where the constant of a parameter is held. -/
def Parameter.site (p : Parameter) : UID × Nat := (p.node, p.slot)

namespace Bindings

theorem find?_bind (b : Bindings) (node : UID) (slot : Nat) (identifier : String) (u : UID)
    (i : Nat) : (b.bind node slot identifier).find? u i =
      if (node, slot) = (u, i) then some identifier else b.find? u i := by
  unfold bind find?
  by_cases hsite : (node, slot) = (u, i)
  · rw [if_pos hsite, List.find?_cons_of_pos (by simpa using hsite), Option.map_some]
  · rw [if_neg hsite, List.find?_cons_of_neg (by simpa using hsite), List.find?_filter]
    congr 2
    funext entry
    by_cases hentry : entry.1 = (u, i)
    · have hother : (u, i) ≠ (node, slot) := fun h => hsite h.symm
      rw [hentry, bne_iff_ne.mpr hother]
      simp
    · simp [hentry]

/-- What is bound after some parameters stays bound if none of them has the site. -/
theorem find?_foldl_of_notMem {parameters : List Parameter} {u : UID} {i : Nat}
    (h : (u, i) ∉ parameters.map Parameter.site) (b : Bindings) :
    (parameters.foldl (fun b p => b.bind p.node p.slot p.label.identifier) b).find? u i =
      b.find? u i := by
  induction parameters generalizing b with
  | nil => rfl
  | cons p parameters ih =>
      rw [List.map_cons, List.mem_cons, not_or] at h
      rw [List.foldl_cons, ih h.2, find?_bind, if_neg fun heq => h.1 heq.symm]

theorem find?_foldl_of_mem {parameters : List Parameter} {p : Parameter}
    (hnodup : (parameters.map Parameter.site).Nodup) (hp : p ∈ parameters) (b : Bindings) :
    (parameters.foldl (fun b p => b.bind p.node p.slot p.label.identifier) b).find? p.node p.slot =
      some p.label.identifier := by
  induction parameters generalizing b with
  | nil => cases hp
  | cons q parameters ih =>
      rw [List.map_cons, List.nodup_cons] at hnodup
      rcases List.mem_cons.mp hp with rfl | hp
      · rw [List.foldl_cons, find?_foldl_of_notMem hnodup.1, find?_bind, if_pos rfl]
      · exact ih hnodup.2 hp _

/-- With one parameter to a site, a slot is bound to the identifier of its parameter. -/
theorem find?_ofParameters {parameters : List Parameter}
    (hnodup : (parameters.map Parameter.site).Nodup) (u : UID) (i : Nat) (identifier : String) :
    (ofParameters parameters).find? u i = some identifier ↔
      ∃ p ∈ parameters, p.site = (u, i) ∧ p.label.identifier = identifier := by
  by_cases hsite : (u, i) ∈ parameters.map Parameter.site
  · obtain ⟨p, hp, hsite⟩ := List.mem_map.mp hsite
    obtain ⟨rfl, rfl⟩ := Prod.mk.inj hsite
    rw [ofParameters, find?_foldl_of_mem hnodup hp, Option.some.injEq]
    constructor
    · rintro rfl
      exact ⟨p, hp, rfl, rfl⟩
    · rintro ⟨q, hq, hqsite, rfl⟩
      rw [List.inj_on_of_nodup_map hnodup hq hp hqsite]
  · rw [ofParameters, find?_foldl_of_notMem hsite]
    constructor
    · intro h
      cases h
    · rintro ⟨p, hp, hpsite, _⟩
      exact absurd (hpsite ▸ List.mem_map_of_mem hp) hsite

end Bindings

/-! ## Tunable constants -/

def Tunable.site (t : Tunable) : UID × Nat := (t.node, t.slot)

theorem Slot.tunable?_eq_some_iff (s : Slot) (x : Binary32) :
    s.tunable? = some x ↔ s.pinned = false ∧ s.signal = .constant x := by
  unfold tunable?
  cases s.pinned with
  | true => simp
  | false => cases s.signal <;> simp [Signal.constant?]

namespace Node

theorem mem_tunables (n : Node) (t : Tunable) : t ∈ n.tunables ↔ t.node = n.uid ∧
    ∃ s, n.slots[t.slot]? = some s ∧ s.tunable? = some t.value ∧ t.base = Label.ofSlot n s := by
  unfold tunables
  rw [List.mem_filterMap]
  constructor
  · rintro ⟨⟨s, i⟩, hs, ht⟩
    obtain ⟨x, hx, rfl⟩ := Option.map_eq_some_iff.mp ht
    exact ⟨rfl, s, List.mem_zipIdx_iff_getElem?.mp hs, hx, rfl⟩
  · rintro ⟨hnode, s, hs, hx, hbase⟩
    refine ⟨(s, t.slot), List.mem_zipIdx_iff_getElem?.mpr hs, ?_⟩
    simp only [hx, Option.map_some, ← hnode, ← hbase]

theorem tunables_pairwise (n : Node) : n.tunables.Pairwise fun t u => t.slot < u.slot := by
  unfold tunables
  rw [List.pairwise_filterMap]
  refine (pairwise_zipIdx n.slots).imp ?_
  intro a b hab t ht u hu
  obtain ⟨_, _, rfl⟩ := Option.map_eq_some_iff.mp ht
  obtain ⟨_, _, rfl⟩ := Option.map_eq_some_iff.mp hu
  exact hab

end Node

namespace Graph

/-- The tunable constants of the nodes that are emitted, by place in the order and by slot. -/
def tunables (g : Graph) : List Tunable := g.emitted.flatMap Node.tunables

theorem mem_tunables (g : Graph) (t : Tunable) : t ∈ g.tunables ↔
    t.node ∈ g.emissionOrder ∧ ∃ n s, g.node? t.node = some n ∧ n.slots[t.slot]? = some s ∧
      s.tunable? = some t.value ∧ t.base = Label.ofSlot n s := by
  unfold tunables emitted
  simp only [List.mem_flatMap, List.mem_filterMap, Node.mem_tunables]
  constructor
  · rintro ⟨n, ⟨u, hu, hn⟩, hnode, s, hs⟩
    obtain rfl : n.uid = u := (node?_eq_some hn).2
    rw [hnode]
    exact ⟨hu, n, s, hn, hs⟩
  · rintro ⟨hu, n, s, hn, hs⟩
    exact ⟨n, ⟨t.node, hu, hn⟩, (node?_eq_some hn).2.symm, s, hs⟩

/-- One place of a constant comes before another: by the place of its node in an order, then by
slot. -/
def SitePrecedes (order : List UID) (a b : UID × Nat) : Prop :=
  order.idxOf a.1 < order.idxOf b.1 ∨ (a.1 = b.1 ∧ a.2 < b.2)

theorem tunables_ordered (g : Graph) :
    (g.tunables.map Tunable.site).Pairwise (SitePrecedes g.emissionOrder) := by
  have horder : g.emissionOrder.Pairwise fun u v =>
      g.emissionOrder.idxOf u < g.emissionOrder.idxOf v := by
    rw [List.pairwise_iff_getElem]
    intro i j hi hj hij
    have hnodup := emissionOrder_nodup g
    rw [hnodup.idxOf_getElem i hi, hnodup.idxOf_getElem j hj]
    exact hij
  unfold tunables emitted
  rw [List.pairwise_map, List.pairwise_flatMap]
  constructor
  · -- within a node the slots decide
    intro n _
    refine n.tunables_pairwise.imp_of_mem ?_
    intro t u ht hu hlt
    obtain ⟨hnode, _⟩ := (Node.mem_tunables n t).mp ht
    obtain ⟨hnode', _⟩ := (Node.mem_tunables n u).mp hu
    exact .inr ⟨hnode.trans hnode'.symm, hlt⟩
  · -- between nodes their places do
    rw [List.pairwise_filterMap]
    refine horder.imp ?_
    intro u v huv n hn m hm t ht k hk
    obtain ⟨hnode, _⟩ := (Node.mem_tunables n t).mp ht
    obtain ⟨hnode', _⟩ := (Node.mem_tunables m k).mp hk
    left
    show g.emissionOrder.idxOf t.node < g.emissionOrder.idxOf k.node
    rw [hnode, hnode', (node?_eq_some hn).2, (node?_eq_some hm).2]
    exact huv

theorem SitePrecedes.ne {order : List UID} {a b : UID × Nat} (h : SitePrecedes order a b) :
    a ≠ b := by
  rintro rfl
  rcases h with hlt | ⟨_, hlt⟩
  · exact Nat.lt_irrefl _ hlt
  · exact Nat.lt_irrefl _ hlt

end Graph

/-! ## Parameters -/

/-- Labels aside, a parameter is the constant that it was made of. -/
theorem Parameter.map_assign {α : Type} (f : UID → Nat → Binary32 → α) (taken : Taken)
    (ts : List Tunable) : (Parameter.assign taken ts).map (fun p => f p.node p.slot p.value) =
      ts.map fun t => f t.node t.slot t.value := by
  induction ts generalizing taken with
  | nil => rfl
  | cons t ts ih => rw [Parameter.assign, List.map_cons, List.map_cons, ih]

namespace Graph

/-- A graph has parameters if it has a plan and all its tunable constants are finite. -/
theorem parameters_eq_ok_iff (g : Graph) (ps : List Parameter) :
    g.parameters = .ok ps ↔ g.Plannable ∧ (∀ t ∈ g.tunables, t.value.isFinite = true) ∧
      ps = Parameter.assign .empty g.tunables := by
  unfold parameters
  rw [Attempt.bind_eq_ok_iff]
  constructor
  · rintro ⟨plan, hplan, h⟩
    obtain ⟨hg, horder⟩ := plan_eq_ok hplan
    rw [wiring_node?_eq, horder] at h
    simp only at h
    split at h
    · cases h
    · next hnone =>
        refine ⟨hg, ?_, (Except.ok.inj h).symm⟩
        intro t ht
        simpa using List.find?_eq_none.mp hnone t ht
  · rintro ⟨hg, hfinite, rfl⟩
    obtain ⟨diagnostics, hplan⟩ := hg.exists_plan
    have hnone : g.tunables.find? (fun t => !t.value.isFinite) = none := by
      rw [List.find?_eq_none]
      intro t ht
      simp [hfinite t ht]
    refine ⟨_, hplan, ?_⟩
    rw [wiring_node?_eq]
    simp only [tunables, emitted] at hnone ⊢
    rw [hnone]

theorem parameters_sites {g : Graph} {ps : List Parameter} (h : g.parameters = .ok ps) :
    ps.map Parameter.site = g.tunables.map Tunable.site := by
  obtain ⟨_, _, rfl⟩ := (parameters_eq_ok_iff g ps).mp h
  exact Parameter.map_assign (fun node slot _ => (node, slot)) .empty g.tunables

theorem parameters_ordered {g : Graph} {ps : List Parameter} (h : g.parameters = .ok ps) :
    (ps.map Parameter.site).Pairwise (SitePrecedes g.emissionOrder) := by
  rw [parameters_sites h]
  exact tunables_ordered g

theorem parameters_sites_nodup {g : Graph} {ps : List Parameter} (h : g.parameters = .ok ps) :
    (ps.map Parameter.site).Nodup :=
  (parameters_ordered h).imp SitePrecedes.ne

/-- The parameters are those of the unpinned constants in emitted nodes, and have their values. -/
theorem mem_parameters_iff {g : Graph} {ps : List Parameter} (h : g.parameters = .ok ps) (u : UID)
    (i : Nat) (x : Binary32) : (∃ p ∈ ps, p.site = (u, i) ∧ p.value = x) ↔
      u ∈ g.emissionOrder ∧ ∃ n s, g.node? u = some n ∧ n.slots[i]? = some s ∧
        s.tunable? = some x := by
  obtain ⟨_, _, rfl⟩ := (parameters_eq_ok_iff g ps).mp h
  have hentries := Parameter.map_assign (fun node slot value => (node, slot, value)) .empty g.tunables
  have hmem : (u, i, x) ∈ (Parameter.assign .empty g.tunables).map
      (fun p => (p.node, p.slot, p.value)) ↔ u ∈ g.emissionOrder ∧ ∃ n s, g.node? u = some n ∧
        n.slots[i]? = some s ∧ s.tunable? = some x := by
    rw [hentries, List.mem_map]
    constructor
    · rintro ⟨t, ht, heq⟩
      obtain ⟨rfl, rfl, rfl⟩ : t.node = u ∧ t.slot = i ∧ t.value = x := by simpa using heq
      obtain ⟨hu, n, s, hn, hs, hvalue, _⟩ := (mem_tunables g t).mp ht
      exact ⟨hu, n, s, hn, hs, hvalue⟩
    · rintro ⟨hu, n, s, hn, hs, hx⟩
      exact ⟨⟨Label.ofSlot n s, u, i, x⟩, (mem_tunables g _).mpr ⟨hu, n, s, hn, hs, hx, rfl⟩, rfl⟩
  rw [← hmem, List.mem_map]
  simp only [Parameter.site, Prod.mk.injEq, and_assoc]

/-- A slot of an emitted node has a parameter exactly if it holds an unpinned constant, and that
constant is the parameter's value. -/
theorem exists_parameter_iff {g : Graph} {ps : List Parameter} (h : g.parameters = .ok ps) {u : UID}
    (hu : u ∈ g.emissionOrder) {n : Node} (hn : g.node? u = some n) {i : Nat} {s : Slot}
    (hs : n.slots[i]? = some s) (x : Binary32) :
    (∃ p ∈ ps, p.site = (u, i) ∧ p.value = x) ↔ s.tunable? = some x := by
  rw [mem_parameters_iff h]
  simp [hu, hn, hs]

end Graph

end NoiseShader
