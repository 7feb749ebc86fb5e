import NoiseShader.Proofs.Graph.Order
import Mathlib.Data.Fintype.Card
import Mathlib.Data.Fintype.EquivFin

set_option autoImplicit false

/-! # The order is the least of all

Some UIDs are to be listed, each after those of them that it refers to. Of the lists that do so, the
order of a graph is the one that comes first lexicographically, as it takes the least UID at every
place (`Order.listFrom_least`). A UID is left out exactly if references among the UIDs lead from
it into a circle (`Graph.mem_order_iff_no_cycle`).
-/

namespace NoiseShader

/-- From where no circle can be reached, all chains come to an end, as there are finitely many
UIDs. -/
theorem acc_of_no_cycle {r : UID → UID → Prop} {u : UID}
    (h : ∀ v, Relation.ReflTransGen r u v → ¬ Relation.TransGen r v v) :
    Acc (fun w v => r v w) u := by
  -- `below w v`: from `u` one comes to `v`, and from there on to `w`
  let below : UID → UID → Prop := fun w v => Relation.ReflTransGen r u v ∧ Relation.TransGen r v w
  have : Finite UID := Finite.of_injective UInt32.toFin fun _ _ => UInt32.toFin_inj.mp
  have : IsTrans UID below :=
    ⟨fun _ _ _ hab hbc => ⟨hbc.1, hbc.2.trans hab.2⟩⟩
  have : Std.Irrefl below := ⟨fun v hv => h v hv.1 hv.2⟩
  have hwf : WellFounded below := Finite.wellFounded_of_trans_of_irrefl below
  have hacc : ∀ v, Relation.ReflTransGen r u v → Acc (fun w v => r v w) v := by
    intro v
    induction v using hwf.induction with
    | _ v ih =>
        intro hv
        exact ⟨v, fun w hw => ih w ⟨hv, .single hw⟩ (hv.tail hw)⟩
  exact hacc u .refl

namespace Order

variable (dependencies : UID → List UID)

/-- A list in which each UID comes after those of its dependencies that are in `uids`. -/
def DependenciesFirst (uids l : List UID) : Prop :=
  ∀ before u after, l = before ++ u :: after → ∀ v ∈ dependencies u, v ∈ uids → v ∈ before

variable {dependencies}

/-- What waits only for chains that end is listed. -/
theorem mem_listFrom_of_acc {pending : UIDSet} {waiting : List UID} (hnodup : waiting.Nodup)
    (hagree : Agree pending waiting) {u : UID}
    (hacc : Acc (fun v u => u ∈ waiting ∧ v ∈ waiting ∧ v ∈ dependencies u) u) (hu : u ∈ waiting) :
    u ∈ listFrom dependencies pending waiting := by
  induction hacc with
  | intro u _ ih =>
      by_contra hnot
      obtain ⟨v, hv, hwaiting, hunlisted⟩ :=
        exists_unlisted dependencies pending waiting hnodup hagree hu hnot
      exact hunlisted (ih v ⟨hu, hwaiting, hv⟩ hwaiting)

/-- In a list with dependencies first, a step to a dependency is a step towards the front. -/
theorem DependenciesFirst.idxOf_lt {uids l : List UID} (h : DependenciesFirst dependencies uids l)
    {u v : UID} (hu : u ∈ l) (hv : v ∈ dependencies u) (hmem : v ∈ uids) :
    v ∈ l ∧ l.idxOf v < l.idxOf u := by
  obtain ⟨before, after, hsplit, hnew⟩ := List.eq_append_cons_of_mem hu
  have hbefore := h before u after hsplit v hv hmem
  have hlt : before.idxOf v < before.length := List.idxOf_lt_length_of_mem hbefore
  rw [hsplit]
  refine ⟨List.mem_append_left _ hbefore, ?_⟩
  rw [List.idxOf_append_of_mem hbefore, List.idxOf_append_of_notMem hnew, List.idxOf_cons_self]
  exact hlt

/-- So no chain of dependencies leads back to where it began. -/
theorem DependenciesFirst.no_return {uids l : List UID} (h : DependenciesFirst dependencies uids l)
    {u v : UID} (hu : u ∈ l)
    (hpath : Relation.TransGen (fun u v => u ∈ uids ∧ v ∈ uids ∧ v ∈ dependencies u) u v) :
    v ∈ l ∧ l.idxOf v < l.idxOf u := by
  induction hpath with
  | single hstep => exact h.idxOf_lt hu hstep.2.2 hstep.2.1
  | tail _ hstep ih =>
      obtain ⟨hmem, hlt⟩ := h.idxOf_lt ih.1 hstep.2.2 hstep.2.1
      exact ⟨hmem, Nat.lt_trans hlt ih.2⟩

/-- Any other list begins with something ready, and the search begins with the least of what is
ready. If both begin alike, the same holds of the rest. -/
theorem listFrom_least {pending : UIDSet} {waiting l : List UID}
    (hsorted : waiting.Pairwise (· < ·)) (hagree : Agree pending waiting) (hperm : l.Perm waiting)
    (hl : DependenciesFirst dependencies waiting l) :
    listFrom dependencies pending waiting = l ∨
      List.Lex (· < ·) (listFrom dependencies pending waiting) l := by
  fun_induction listFrom dependencies pending waiting generalizing l with
  | case2 pending waiting hnone =>
      cases l with
      | nil => exact .inl rfl
      | cons u l => exact .inr .nil
  | case1 pending waiting uid hfind _ ih =>
      have hnodup := nodup_of_pairwise_lt hsorted
      have huid : uid ∈ waiting := List.mem_of_find?_eq_some hfind
      cases l with
      | nil => exact absurd (hperm.mem_iff.mpr huid) List.not_mem_nil
      | cons u l =>
          have hu : u ∈ waiting := hperm.mem_iff.mp List.mem_cons_self
          have hready : isReady dependencies pending u = true := by
            rw [isReady_iff]
            intro v hv hpending
            exact List.not_mem_nil (hl [] u l rfl v hv ((hagree v).mp hpending))
          have hle : uid ≤ u := le_of_find? hsorted hfind hu hready
          by_cases heq : uid = u
          · subst heq
            have hrest : DependenciesFirst dependencies (waiting.erase uid) l := by
              intro before w after hsplit v hv hwaiting
              obtain ⟨hne, hmem⟩ := (hnodup.mem_erase_iff).mp hwaiting
              have hbefore := hl (uid :: before) w after (by rw [hsplit]; rfl) v hv hmem
              exact (List.mem_cons.mp hbefore).resolve_left hne
            have hperm' : l.Perm (waiting.erase uid) := by
              have := hperm.erase uid
              rwa [List.erase_cons_head] at this
            rcases ih (hsorted.sublist List.erase_sublist) (hagree.erase hnodup uid) hperm' hrest with
              heq | hlex
            · exact .inl (by rw [heq])
            · exact .inr (.cons hlex)
          · exact .inr (.rel (UInt32.lt_of_le_of_ne hle heq))

end Order

namespace Graph

/-! ## References among some UIDs -/

/-- Both UIDs are among those of `subset`, and a slot of the one names the other, which is there. -/
def RefersWithin (g : Graph) (subset : List UID) (u v : UID) : Prop :=
  u ∈ subset ∧ v ∈ subset ∧ g.Refers u v

/-- References within `subset` lead from `u` into a circle. -/
def LeadsToCycle (g : Graph) (subset : List UID) (u : UID) : Prop :=
  ∃ v, Relation.ReflTransGen (g.RefersWithin subset) u v ∧
    Relation.TransGen (g.RefersWithin subset) v v

/-- The list holds the UIDs of `subset`, each once. -/
def Lists (subset l : List UID) : Prop := l.Nodup ∧ ∀ u, u ∈ l ↔ u ∈ subset

/-- The UIDs of the list come after those of `subset` that they refer to. -/
def DependenciesFirst (g : Graph) (subset l : List UID) : Prop :=
  ∀ before u after, l = before ++ u :: after → ∀ v, g.RefersWithin subset u v → v ∈ before

theorem refersWithin_iff (g : Graph) (subset : List UID) (u v : UID) :
    g.RefersWithin subset u v ↔
      u ∈ ascending subset ∧ v ∈ ascending subset ∧ v ∈ g.wiring.dependencies u := by
  rw [RefersWithin, mem_ascending, mem_ascending, mem_dependencies]

theorem lists_iff_perm (subset l : List UID) : Lists subset l ↔ l.Perm (ascending subset) := by
  have hnodup := nodup_of_pairwise_lt (ascending_pairwise subset)
  constructor
  · rintro ⟨hl, hmem⟩
    rw [List.perm_ext_iff_of_nodup hl hnodup]
    intro u
    rw [hmem, mem_ascending]
  · intro hperm
    refine ⟨hperm.nodup_iff.mpr hnodup, fun u => ?_⟩
    rw [hperm.mem_iff, mem_ascending]

theorem dependenciesFirst_among {g : Graph} {subset l : List UID}
    (hmem : ∀ u ∈ l, u ∈ subset) (h : g.DependenciesFirst subset l) :
    Order.DependenciesFirst g.wiring.dependencies (ascending subset) l := by
  intro before u after hsplit v hv hmem'
  have hu : u ∈ subset := hmem u (by rw [hsplit]; simp)
  exact h before u after hsplit v ((refersWithin_iff g subset u v).mpr
    ⟨(mem_ascending subset u).mpr hu, hmem', hv⟩)

theorem order_dependenciesFirst (g : Graph) (subset : List UID) :
    g.DependenciesFirst subset (g.order subset) := by
  intro before u after hsplit v huv
  exact order_dependencies_before g hsplit huv.2.2 huv.2.1

theorem mem_of_mem_order {g : Graph} {subset : List UID} {u : UID} (hu : u ∈ g.order subset) :
    u ∈ subset := by
  rw [order, Wiring.order_eq] at hu
  exact (mem_ascending subset u).mp (Order.mem_of_mem_listFrom _ _ _ hu)

/-- What is listed leads to what is listed before, and never back; what leads into no circle is
listed in the end. -/
theorem mem_order_iff_no_cycle (g : Graph) (subset : List UID) (u : UID) :
    u ∈ g.order subset ↔ u ∈ subset ∧ ¬ g.LeadsToCycle subset u := by
  have hrelation : g.RefersWithin subset = fun u v =>
      u ∈ ascending subset ∧ v ∈ ascending subset ∧ v ∈ g.wiring.dependencies u := by
    funext u v
    exact propext (refersWithin_iff g subset u v)
  constructor
  · intro hu
    refine ⟨mem_of_mem_order hu, ?_⟩
    rintro ⟨v, hpath, hcycle⟩
    have hfirst := dependenciesFirst_among (fun _ => mem_of_mem_order)
      (order_dependenciesFirst g subset)
    rw [hrelation] at hpath hcycle
    have hv : v ∈ g.order subset := by
      rcases Relation.reflTransGen_iff_eq_or_transGen.mp hpath with rfl | hpath
      · exact hu
      · exact (hfirst.no_return hu hpath).1
    exact Nat.lt_irrefl _ (hfirst.no_return hv hcycle).2
  · rintro ⟨hu, hnone⟩
    have hacc := acc_of_no_cycle (r := g.RefersWithin subset) (u := u)
      fun v hpath hcycle => hnone ⟨v, hpath, hcycle⟩
    rw [hrelation] at hacc
    rw [order, Wiring.order_eq]
    exact Order.mem_listFrom_of_acc (nodup_of_pairwise_lt (ascending_pairwise subset))
      (agree_ascending subset) hacc ((mem_ascending subset u).mpr hu)

/-! ## The main result -/

/-- No counter goes below zero. What is listed is listed once and after its dependencies, and all is
listed that does not lead into a circle. If there is no circle, all of `subset` is listed, and no
other list of it with dependencies first comes before. -/
theorem order_exact_and_least (g : Graph) (subset : List UID) :
    g.wiring.order? subset = some (g.order subset) ∧
    (g.order subset).Nodup ∧
    (∀ u, u ∈ g.order subset ↔ u ∈ subset ∧ ¬ g.LeadsToCycle subset u) ∧
    g.DependenciesFirst subset (g.order subset) ∧
    ((∀ u, ¬ Relation.TransGen (g.RefersWithin subset) u u) →
      Lists subset (g.order subset) ∧
      ∀ l, Lists subset l → g.DependenciesFirst subset l →
        g.order subset = l ∨ List.Lex (· < ·) (g.order subset) l) := by
  refine ⟨?_, order_nodup g subset, mem_order_iff_no_cycle g subset,
    order_dependenciesFirst g subset, ?_⟩
  · rw [order, Wiring.order, Wiring.order?_eq, Option.getD_some]
  · intro hacyclic
    refine ⟨⟨order_nodup g subset, ?_⟩, ?_⟩
    · intro u
      rw [mem_order_iff_no_cycle]
      refine and_iff_left ?_
      rintro ⟨v, _, hcycle⟩
      exact hacyclic v hcycle
    · intro l hlists hfirst
      have hmem : ∀ u ∈ l, u ∈ subset := fun u => (hlists.2 u).mp
      rw [order, Wiring.order_eq]
      exact Order.listFrom_least (ascending_pairwise subset) (agree_ascending subset)
        ((lists_iff_perm subset l).mp hlists) (dependenciesFirst_among hmem hfirst)

/-- The nodes 0 and 1 refer to each other, 2 refers to 0, and 4 to 3. -/
def knot : Graph :=
  [Edit.add (.math .sin), .add (.math .sin), .add (.math .sin), .add (.coordinate .x),
    .add (.math .sin), .setInput 0 0 (.node 1), .setInput 1 0 (.node 0), .setInput 2 0 (.node 0),
    .setInput 4 0 (.node 3)].foldl after (.empty "Knot")

/-- Node 2 is not listed, though it is on no circle itself. Of the acyclic part, with a UID that no
node has, `3, 9, 4` would do too, and comes later. -/
theorem order_exact_and_least_knot :
    (2 ∉ knot.order [4, 3, 2, 1, 0, 9] ∧ 9 ∈ knot.order [4, 3, 2, 1, 0, 9]) ∧
    Lists [9, 4, 3] (knot.order [9, 4, 3]) ∧
    (knot.order [9, 4, 3] = [3, 9, 4] ∨ List.Lex (· < ·) (knot.order [9, 4, 3]) [3, 9, 4]) := by
  have h20 : knot.RefersWithin [4, 3, 2, 1, 0, 9] 2 0 :=
    ⟨by decide, by decide, _, rfl, by decide, by decide⟩
  have h01 : knot.RefersWithin [4, 3, 2, 1, 0, 9] 0 1 :=
    ⟨by decide, by decide, _, rfl, by decide, by decide⟩
  have h10 : knot.RefersWithin [4, 3, 2, 1, 0, 9] 1 0 :=
    ⟨by decide, by decide, _, rfl, by decide, by decide⟩
  have hcycle : knot.LeadsToCycle [4, 3, 2, 1, 0, 9] 2 :=
    ⟨0, .single h20, .tail (.single h01) h10⟩
  have habsent : ¬ knot.LeadsToCycle [4, 3, 2, 1, 0, 9] 9 := by
    rintro ⟨v, hpath, hcycle⟩
    have hnone : ∀ v, ¬ knot.RefersWithin [4, 3, 2, 1, 0, 9] 9 v := by
      rintro v ⟨_, _, n, hn, _⟩
      cases hn
    rcases Relation.reflTransGen_iff_eq_or_transGen.mp hpath with rfl | hpath
    · obtain ⟨w, hstep, _⟩ := Relation.TransGen.head'_iff.mp hcycle
      exact hnone w hstep
    · obtain ⟨w, hstep, _⟩ := Relation.TransGen.head'_iff.mp hpath
      exact hnone w hstep
  have htable : ([9, 4, 3].all fun u => (knot.node? u).all fun n => n.targets.all fun v =>
      u = 4 && v = 3) = true := by decide
  have honly : ∀ u v, knot.RefersWithin [9, 4, 3] u v → u = 4 ∧ v = 3 := by
    rintro u v ⟨hu, _, n, hn, hv, _⟩
    have htargets := List.all_eq_true.mp htable u hu
    rw [hn, Option.all_some] at htargets
    simpa using List.all_eq_true.mp htargets v hv
  have hacyclic : ∀ u, ¬ Relation.TransGen (knot.RefersWithin [9, 4, 3]) u u := by
    intro u hpath
    obtain ⟨w, hstep, _⟩ := Relation.TransGen.head'_iff.mp hpath
    obtain ⟨w', _, hstep'⟩ := Relation.TransGen.tail'_iff.mp hpath
    have h4 := (honly u w hstep).1
    rw [(honly w' u hstep').2] at h4
    exact absurd h4 (by decide)
  obtain ⟨_, _, hmem, _, _⟩ := order_exact_and_least knot [4, 3, 2, 1, 0, 9]
  obtain ⟨hlists, hleast⟩ := (order_exact_and_least knot [9, 4, 3]).2.2.2.2 hacyclic
  refine ⟨⟨fun h => ((hmem 2).mp h).2 hcycle, (hmem 9).mpr ⟨by decide, habsent⟩⟩, hlists,
    hleast [3, 9, 4] ?_ ?_⟩
  · refine ⟨by decide, fun u => ?_⟩
    simp only [List.mem_cons, List.not_mem_nil, or_false]
    constructor <;> rintro (rfl | rfl | rfl) <;> simp
  · intro before u after hsplit v huv
    obtain ⟨rfl, rfl⟩ := honly u v huv
    rcases before with _ | ⟨_, before⟩
    · cases hsplit
    · obtain ⟨rfl, _⟩ := List.cons.inj hsplit
      exact List.mem_cons_self

end Graph

end NoiseShader
