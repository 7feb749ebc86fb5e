import NoiseShader.Plan
import NoiseShader.Proofs.Graph.Order

set_option autoImplicit false

/-! # What a plan says about its graph

`Graph.Plannable` are the graphs that have a plan: the output names no absent node, there is no
cycle, and no node that the output reaches has a loose end. `Graph.plan_cases` says which fault
is reported otherwise, and that the plan is the emission order: the nodes that the output
reaches, each once and after everything it refers to.
-/

namespace NoiseShader

/-! ## Loose ends -/

theorem pairwise_zipIdx {α : Type} (l : List α) : l.zipIdx.Pairwise fun a b => a.2 < b.2 := by
  apply List.pairwise_map.mp
  rw [List.zipIdx_map_snd]
  exact List.pairwise_lt_range'

namespace LooseEnd

/-- By node, then by slot. -/
def Before (l m : LooseEnd) : Prop := l.node < m.node ∨ (l.node = m.node ∧ l.slot < m.slot)

end LooseEnd

namespace Wiring

/-- The loose end at one slot, if there is one. -/
def looseEnd? (w : Wiring) (uid : UID) (slot : Slot × Nat) : Option LooseEnd :=
  match slot.1.signal.target? with
  | none => none
  | some target => if w.contains target then none else some ⟨uid, slot.2, target⟩

theorem looseEndsOf_eq (w : Wiring) (n : Node) :
    w.looseEndsOf n = n.slots.zipIdx.filterMap (w.looseEnd? n.uid) := rfl

theorem looseEnd?_eq_some_iff (w : Wiring) (uid : UID) (slot : Slot × Nat) (l : LooseEnd) :
    w.looseEnd? uid slot = some l ↔ l.node = uid ∧ l.slot = slot.2 ∧
      slot.1.signal = .node l.target ∧ w.contains l.target = false := by
  obtain ⟨node, index, target⟩ := l
  unfold looseEnd?
  cases hsignal : slot.1.signal with
  | constant x => simp [Signal.target?]
  | node t =>
      simp only [Signal.target?, Signal.node.injEq]
      by_cases h : w.contains t
      · simp only [h, if_true, reduceCtorEq, false_iff, not_and]
        rintro _ _ rfl
        simp [h]
      · simp only [h, Bool.false_eq_true, if_false, Option.some.injEq, LooseEnd.mk.injEq]
        constructor
        · rintro ⟨rfl, rfl, rfl⟩
          exact ⟨rfl, rfl, rfl, by simpa using h⟩
        · rintro ⟨rfl, rfl, rfl, _⟩
          exact ⟨rfl, rfl, rfl⟩

theorem mem_looseEndsOf (w : Wiring) (n : Node) (l : LooseEnd) :
    l ∈ w.looseEndsOf n ↔ l.node = n.uid ∧
      ∃ s, n.slots[l.slot]? = some s ∧ s.signal = .node l.target ∧ w.contains l.target = false := by
  rw [looseEndsOf_eq, List.mem_filterMap]
  constructor
  · rintro ⟨⟨s, i⟩, hs, hl⟩
    obtain ⟨hnode, rfl, hsignal, habsent⟩ := (looseEnd?_eq_some_iff _ _ _ _).mp hl
    exact ⟨hnode, s, List.mem_zipIdx_iff_getElem?.mp hs, hsignal, habsent⟩
  · rintro ⟨hnode, s, hs, hsignal, habsent⟩
    exact ⟨(s, l.slot), List.mem_zipIdx_iff_getElem?.mpr hs,
      (looseEnd?_eq_some_iff _ _ _ _).mpr ⟨hnode, rfl, hsignal, habsent⟩⟩

theorem looseEndsOf_pairwise (w : Wiring) (n : Node) :
    (w.looseEndsOf n).Pairwise LooseEnd.Before := by
  rw [looseEndsOf_eq, List.pairwise_filterMap]
  refine (pairwise_zipIdx n.slots).imp ?_
  intro a b hab l hl m hm
  obtain ⟨hlnode, hlslot, _⟩ := (looseEnd?_eq_some_iff _ _ _ _).mp hl
  obtain ⟨hmnode, hmslot, _⟩ := (looseEnd?_eq_some_iff _ _ _ _).mp hm
  exact Or.inr ⟨by rw [hlnode, hmnode], by rw [hlslot, hmslot]; exact hab⟩

end Wiring

namespace Graph

theorem mem_looseEnds (g : Graph) (l : LooseEnd) :
    l ∈ g.wiring.looseEnds ↔ g.LooseAt l.node l.slot l.target := by
  unfold Wiring.looseEnds LooseAt
  rw [List.mem_flatMap]
  constructor
  · rintro ⟨n, hn, hl⟩
    obtain ⟨u, _, hu⟩ := List.mem_filterMap.mp hn
    rw [wiring_node?] at hu
    obtain ⟨hnode, s, hs, hsignal, habsent⟩ := (Wiring.mem_looseEndsOf _ _ _).mp hl
    have huid : n.uid = u := (node?_eq_some hu).2
    refine ⟨n, s, by rw [hnode, huid]; exact hu, hs, hsignal, ?_⟩
    rw [← wiring_contains, habsent]
    simp
  · rintro ⟨n, s, hn, hs, hsignal, habsent⟩
    have huid : n.uid = l.node := (node?_eq_some hn).2
    refine ⟨n, List.mem_filterMap.mpr ⟨l.node, ?_, ?_⟩,
      (Wiring.mem_looseEndsOf _ _ _).mpr ⟨huid.symm, s, hs, hsignal, ?_⟩⟩
    · rw [mem_wiring_uids, ← node?_isSome_iff, hn]
      rfl
    · rw [wiring_node?, hn]
    · rw [← Bool.not_eq_true, wiring_contains]
      exact habsent

/-- The loose ends are listed by node and slot. -/
theorem looseEnds_pairwise (g : Graph) : g.wiring.looseEnds.Pairwise LooseEnd.Before := by
  unfold Wiring.looseEnds
  rw [List.pairwise_flatMap]
  refine ⟨fun n _ => Wiring.looseEndsOf_pairwise _ n, ?_⟩
  rw [List.pairwise_filterMap]
  refine (wiring_uids_pairwise g).imp ?_
  intro u v huv n hn m hm l hl k hk
  rw [wiring_node?] at hn hm
  obtain ⟨hlnode, _⟩ := (Wiring.mem_looseEndsOf _ _ _).mp hl
  obtain ⟨hknode, _⟩ := (Wiring.mem_looseEndsOf _ _ _).mp hk
  left
  rw [hlnode, hknode, (node?_eq_some hn).2, (node?_eq_some hm).2]
  exact huv

/-! ## Graphs that have a plan -/

/-- The output is a constant or names a node of the graph. -/
def OutputPresent (g : Graph) : Prop := ∀ target, g.output = .node target → target ∈ g.uids

structure Plannable (g : Graph) : Prop where
  output : g.OutputPresent
  acyclic : g.Acyclic
  /-- Nothing that the output reaches has a loose end. -/
  tight : ∀ u slot target, g.Reaches u → ¬ g.LooseAt u slot target

/-- The nodes that the output reaches, dependencies first. -/
def emissionOrder (g : Graph) : List UID := g.order g.reachable

/-- The slot of a node comes, by UID and index, before that of another or is the same. -/
def SlotLE (u : UID) (i : Nat) (v : UID) (j : Nat) : Prop := u < v ∨ (u = v ∧ i ≤ j)

/-- The first loose end of a node that the output reaches. -/
structure FirstLoose (g : Graph) (u : UID) (slot : Nat) (target : UID) : Prop where
  reached : g.Reaches u
  loose : g.LooseAt u slot target
  least : ∀ v j t, g.Reaches v → g.LooseAt v j t → SlotLE u slot v j

theorem firstLoose_of_find? {g : Graph} {l : LooseEnd} {p : LooseEnd → Bool}
    (hp : ∀ l, p l = true ↔ g.Reaches l.node) (h : g.wiring.looseEnds.find? p = some l) :
    g.FirstLoose l.node l.slot l.target := by
  obtain ⟨hl, before, after, hsplit, hbefore⟩ := List.find?_eq_some_iff_append.mp h
  have hmem : l ∈ g.wiring.looseEnds := List.mem_of_find?_eq_some h
  refine ⟨(hp l).mp hl, (mem_looseEnds g l).mp hmem, ?_⟩
  intro v j t hv hloose
  have hother : (⟨v, j, t⟩ : LooseEnd) ∈ g.wiring.looseEnds := (mem_looseEnds g _).mpr hloose
  have hsorted := looseEnds_pairwise g
  rw [hsplit] at hother hsorted
  rcases List.mem_append.mp hother with hother | hother
  · -- what comes earlier in the list is not reached
    have hnot := hbefore _ hother
    rw [(hp ⟨v, j, t⟩).mpr hv] at hnot
    simp at hnot
  · rcases List.mem_cons.mp hother with heq | hother
    · rw [← heq]
      exact Or.inr ⟨rfl, Nat.le_refl j⟩
    · have hlast := (List.pairwise_append.mp hsorted).2.1
      rcases (List.pairwise_cons.mp hlast).1 _ hother with hlt | ⟨heq, hlt⟩
      · exact Or.inl hlt
      · exact Or.inr ⟨heq, Nat.le_of_lt hlt⟩

theorem target?_filter_eq_some_iff (g : Graph) (target : UID) :
    (g.output.target?.filter fun uid => !g.wiring.contains uid) = some target ↔
      g.output = .node target ∧ target ∉ g.uids := by
  rw [Option.filter_eq_some_iff, Bool.not_eq_true', ← Bool.not_eq_true, wiring_contains]
  refine and_congr_left fun _ => ?_
  cases g.output with
  | constant x => simp [Signal.target?]
  | node u => simp [Signal.target?]

theorem outputPresent_of_filter_eq_none {g : Graph}
    (h : (g.output.target?.filter fun uid => !g.wiring.contains uid) = none) :
    g.OutputPresent := by
  intro target htarget
  by_contra habsent
  rw [(target?_filter_eq_some_iff g target).mpr ⟨htarget, habsent⟩] at h
  cases h

/-- The outcome of planning: the first of the three faults that the graph has, or the emission
order. -/
theorem plan_cases (g : Graph) :
    (∃ target, g.output = .node target ∧ target ∉ g.uids ∧
      g.plan = .error (.dangling .output target)) ∨
    (∃ path, g.OutputPresent ∧ Cycle.IsCycle g.Refers path ∧
      g.plan = .error (.cycle path)) ∨
    (∃ u slot target, g.OutputPresent ∧ g.Acyclic ∧ g.FirstLoose u slot target ∧
      g.plan = .error (.dangling (.slot u slot) target)) ∨
    (∃ diagnostics, g.Plannable ∧ g.plan = .ok ⟨g.emissionOrder, diagnostics⟩) := by
  unfold plan Wiring.plan
  split
  · next target htarget =>
      obtain ⟨houtput, habsent⟩ := (target?_filter_eq_some_iff g target).mp htarget
      exact Or.inl ⟨target, houtput, habsent, rfl⟩
  · next hpresent =>
      have houtput := outputPresent_of_filter_eq_none hpresent
      right
      split
      · next path hpath => exact Or.inl ⟨path, houtput, isCycle_of_cycle? hpath, rfl⟩
      · next hnone =>
          have hacyclic := (cycle?_eq_none_iff g).mp hnone
          have hlive : ∀ l : LooseEnd,
              (Std.TreeSet.ofList (g.wiring.reachable g.output) compare).contains l.node = true ↔
                g.Reaches l.node := by
            intro l
            rw [Std.TreeSet.contains_iff_mem, mem_setOf_iff]
            exact mem_reachable_iff g l.node
          right
          simp only
          split
          · next l hl =>
              exact Or.inl ⟨l.node, l.slot, l.target, houtput, hacyclic,
                firstLoose_of_find? hlive hl, rfl⟩
          · next hends =>
              refine Or.inr ⟨_, ⟨houtput, hacyclic, ?_⟩, rfl⟩
              intro u slot target hu hloose
              have hmem := (mem_looseEnds g ⟨u, slot, target⟩).mpr hloose
              exact List.find?_eq_none.mp hends _ hmem ((hlive _).mpr hu)

/-- Only a graph that is `Plannable` has a plan, and the plan's order is the emission order. -/
theorem plan_eq_ok {g : Graph} {p : Plan} (h : g.plan = .ok p) :
    g.Plannable ∧ p.order = g.emissionOrder := by
  rcases plan_cases g with ⟨_, _, _, he⟩ | ⟨_, _, _, he⟩ | ⟨_, _, _, _, _, _, he⟩ | ⟨_, hg, hok⟩
  · rw [he] at h; cases h
  · rw [he] at h; cases h
  · rw [he] at h; cases h
  · rw [hok] at h
    obtain rfl := Except.ok.inj h
    exact ⟨hg, rfl⟩

theorem Plannable.exists_plan {g : Graph} (hg : g.Plannable) :
    ∃ diagnostics, g.plan = .ok ⟨g.emissionOrder, diagnostics⟩ := by
  rcases plan_cases g with ⟨_, houtput, habsent, _⟩ | ⟨_, _, hpath, _⟩ |
    ⟨_, _, _, _, _, hfirst, _⟩ | ⟨diagnostics, _, hok⟩
  · exact absurd (hg.output _ houtput) habsent
  · obtain ⟨u, hu⟩ := hpath.transGen
    exact absurd hu (hg.acyclic u)
  · exact absurd hfirst.loose (hg.tight _ _ _ hfirst.reached)
  · exact ⟨diagnostics, hok⟩

/-! ## The emission order -/

theorem emissionOrder_nodup (g : Graph) : g.emissionOrder.Nodup := order_nodup g _

theorem mem_emissionOrder {g : Graph} (hg : g.Acyclic) (u : UID) :
    u ∈ g.emissionOrder ↔ g.Reaches u := by
  rw [emissionOrder, mem_order_iff hg, mem_reachable_iff]

theorem emissionOrder_eq_singleton {g : Graph} (hg : g.Acyclic) {u : UID}
    (h : ∀ v, g.Reaches v ↔ v = u) : g.emissionOrder = [u] := by
  rw [← List.perm_singleton,
    List.perm_ext_iff_of_nodup (emissionOrder_nodup g) (List.nodup_singleton u)]
  intro v
  rw [mem_emissionOrder hg, h, List.mem_singleton]

/-- In a graph with a plan, everything that a reached node refers to is there. -/
theorem Plannable.refers {g : Graph} (hg : g.Plannable) {u v : UID} {n : Node}
    (hu : g.Reaches u) (hn : g.node? u = some n) (hv : v ∈ n.targets) : g.Refers u v := by
  refine ⟨n, hn, hv, ?_⟩
  by_contra habsent
  obtain ⟨s, hs, hsignal⟩ := (mem_targets_iff n v).mp hv
  obtain ⟨i, hi⟩ := List.getElem?_of_mem hs
  exact hg.tight u i v hu ⟨n, s, hn, hi, hsignal, habsent⟩

theorem Plannable.targets_before {g : Graph} (hg : g.Plannable) {before after : List UID} {u : UID}
    {n : Node} (horder : g.emissionOrder = before ++ u :: after) (hn : g.node? u = some n) :
    ∀ v ∈ n.targets, v ∈ before := by
  intro v hv
  have hu : g.Reaches u := by
    rw [← mem_emissionOrder hg.acyclic, horder]
    simp
  have huv := hg.refers hu hn hv
  exact order_dependencies_before g horder huv ((mem_reachable_iff g v).mpr (hu.step huv))

/-- The nodes of the emission order. -/
def emitted (g : Graph) : List Node := g.emissionOrder.filterMap g.node?

theorem node?_of_mem_emissionOrder {g : Graph} (hg : g.Acyclic) {u : UID}
    (hu : u ∈ g.emissionOrder) : ∃ n, g.node? u = some n := by
  have hmem := ((mem_emissionOrder hg u).mp hu).mem
  rw [← node?_isSome_iff] at hmem
  exact Option.isSome_iff_exists.mp hmem

/-- Each UID of the emission order has its node there. -/
theorem forall₂_emitted {g : Graph} (hg : g.Acyclic) :
    List.Forall₂ (fun u n => g.node? u = some n) g.emissionOrder g.emitted := by
  have hall : ∀ order : List UID, (∀ u ∈ order, ∃ n, g.node? u = some n) →
      List.Forall₂ (fun u n => g.node? u = some n) order (order.filterMap g.node?) := by
    intro order
    induction order with
    | nil => exact fun _ => .nil
    | cons u order ih =>
        intro hfound
        obtain ⟨n, hn⟩ := hfound u List.mem_cons_self
        rw [List.filterMap_cons, hn]
        exact .cons hn (ih fun v hv => hfound v (List.mem_cons_of_mem _ hv))
  exact hall _ fun u hu => node?_of_mem_emissionOrder hg hu

end Graph

end NoiseShader
