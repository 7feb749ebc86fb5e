import NoiseShader.Proofs.Graph.History
import NoiseShader.Proofs.Graph.Reach
import Mathlib.Algebra.GroupWithZero.Nat
import Mathlib.Data.List.Sort
import Mathlib.Logic.Function.Iterate

set_option autoImplicit false

/-! # The nodes that are found are the least closed set

The search takes one UID from its work at each turn. Absent UIDs and those it has come to before are
passed over; any other UID is taken out of the fresh ones, and all it refers to is put to the work.
So the work can grow, but each reference of a node is put there once, and the search ends when as many
turns are taken as there were references to look at (`Reach.iterate_step`). What it finds is the
least set that holds the node of the output and is closed under references to nodes of the graph
(`Graph.reachable_least_closure`).
-/

namespace NoiseShader

namespace Reach

/-- Where a search stands: the UIDs it has not come to, and those it has still to look at. -/
structure Search where
  fresh : UIDSet
  work : List UID

variable (targets : UID → List UID)

/-- One turn. Without work there is nothing to do. -/
def Search.step (s : Search) : Search :=
  match s.work with
  | [] => s
  | uid :: work =>
    if uid ∈ s.fresh then ⟨s.fresh.erase uid, targets uid ++ work⟩ else ⟨s.fresh, work⟩

theorem step_take {fresh : UIDSet} {uid : UID} (h : uid ∈ fresh) (work : List UID) :
    Search.step targets ⟨fresh, uid :: work⟩ = ⟨fresh.erase uid, targets uid ++ work⟩ :=
  if_pos h

theorem step_pass {fresh : UIDSet} {uid : UID} (h : uid ∉ fresh) (work : List UID) :
    Search.step targets ⟨fresh, uid :: work⟩ = ⟨fresh, work⟩ :=
  if_neg h

/-! ## How many turns there are -/

/-- What the search takes out, ascending. -/
def taken (fresh : UIDSet) (work : List UID) : List UID :=
  fresh.toList.filter fun u => !(unreached targets fresh work).contains u

/-- One turn for each UID of the work, and for each reference of what is taken out. -/
def turns (fresh : UIDSet) (work : List UID) : Nat :=
  work.length + ((taken targets fresh work).map fun u => (targets u).length).sum

theorem mem_taken (fresh : UIDSet) (work : List UID) (u : UID) :
    u ∈ taken targets fresh work ↔ u ∈ fresh ∧ u ∉ unreached targets fresh work := by
  rw [taken, List.mem_filter, Std.TreeSet.mem_toList, Bool.not_eq_true', ← Bool.not_eq_true,
    Std.TreeSet.contains_iff_mem]

theorem nodup_taken (fresh : UIDSet) (work : List UID) : (taken targets fresh work).Nodup :=
  nodup_of_pairwise_lt ((Std.TreeSet.ordered_toList.imp uid_compare_eq_lt.mp).filter _)

theorem unreached_take {fresh : UIDSet} {uid : UID} (h : uid ∈ fresh) (work : List UID) :
    unreached targets fresh (uid :: work) =
      unreached targets (fresh.erase uid) (targets uid ++ work) := by
  rw [unreached, if_pos h]

theorem unreached_pass {fresh : UIDSet} {uid : UID} (h : uid ∉ fresh) (work : List UID) :
    unreached targets fresh (uid :: work) = unreached targets fresh work := by
  rw [unreached, if_neg h]

theorem taken_take {fresh : UIDSet} {uid : UID} (h : uid ∈ fresh) (work : List UID) :
    (taken targets fresh (uid :: work)).Perm
      (uid :: taken targets (fresh.erase uid) (targets uid ++ work)) := by
  have hnotMem : uid ∉ taken targets (fresh.erase uid) (targets uid ++ work) := by
    rw [mem_taken, mem_erase_iff]
    exact fun hmem => hmem.1.1 rfl
  refine (List.perm_ext_iff_of_nodup (nodup_taken _ _ _)
    (List.nodup_cons.mpr ⟨hnotMem, nodup_taken _ _ _⟩)).mpr fun u => ?_
  -- both sides take out the same: the UID itself, and what the rest of the search takes out
  rw [List.mem_cons, mem_taken, mem_taken, unreached_take targets h, mem_erase_iff]
  by_cases hu : u = uid
  · -- what is taken out does not come back
    subst hu
    have hgone : u ∉ unreached targets (fresh.erase u) (targets u ++ work) := by
      intro hmem
      have hfresh := (unreached_subset targets _ _ hmem).1
      exact ((mem_erase_iff _ _ _).mp hfresh).1 rfl
    simp [h, hgone]
  · simp [hu]

theorem turns_nil (fresh : UIDSet) : turns targets fresh [] = 0 := by
  have hkept : taken targets fresh [] = [] := by
    rw [List.eq_nil_iff_forall_not_mem]
    intro u hu
    obtain ⟨hfresh, hgone⟩ := (mem_taken _ _ _ _).mp hu
    rw [unreached] at hgone
    exact hgone hfresh
  rw [turns, hkept]
  rfl

theorem turns_take {fresh : UIDSet} {uid : UID} (h : uid ∈ fresh) (work : List UID) :
    turns targets fresh (uid :: work) =
      turns targets (fresh.erase uid) (targets uid ++ work) + 1 := by
  have hsum := ((taken_take targets h work).map fun u => (targets u).length).sum_nat
  rw [List.map_cons, List.sum_cons] at hsum
  rw [turns, turns, hsum, List.length_cons, List.length_append]
  omega

theorem turns_pass {fresh : UIDSet} {uid : UID} (h : uid ∉ fresh) (work : List UID) :
    turns targets fresh (uid :: work) = turns targets fresh work + 1 := by
  rw [turns, turns, taken, taken, unreached_pass targets h, List.length_cons]
  omega

/-- After so many turns the work is done, and the UIDs that are left were not reached. -/
theorem iterate_step (fresh : UIDSet) (work : List UID) :
    (Search.step targets)^[turns targets fresh work] ⟨fresh, work⟩ =
      ⟨unreached targets fresh work, []⟩ := by
  -- one case for each kind of turn, which the count of turns has one more for
  fun_induction unreached targets fresh work with
  | case1 fresh => rw [turns_nil, Function.iterate_zero_apply]
  | case2 fresh uid work hfresh ih =>
      rw [turns_take targets hfresh, Function.iterate_succ_apply, step_take targets hfresh, ih]
  | case3 fresh uid work hfresh ih =>
      rw [turns_pass targets hfresh, Function.iterate_succ_apply, step_pass targets hfresh, ih]

/-- Before that there is work at every turn. -/
theorem work_iterate_step_ne_nil (fresh : UIDSet) (work : List UID) {k : Nat}
    (h : k < turns targets fresh work) : ((Search.step targets)^[k] ⟨fresh, work⟩).work ≠ [] := by
  fun_induction unreached targets fresh work generalizing k with
  | case1 fresh =>
      rw [turns_nil] at h
      exact absurd h (Nat.not_lt_zero k)
  | case2 fresh uid work hfresh ih =>
      cases k with
      | zero => exact List.cons_ne_nil uid work
      | succ k =>
          rw [turns_take targets hfresh] at h
          rw [Function.iterate_succ_apply, step_take targets hfresh]
          exact ih (Nat.lt_of_succ_lt_succ h)
  | case3 fresh uid work hfresh ih =>
      cases k with
      | zero => exact List.cons_ne_nil uid work
      | succ k =>
          rw [turns_pass targets hfresh] at h
          rw [Function.iterate_succ_apply, step_pass targets hfresh]
          exact ih (Nat.lt_of_succ_lt_succ h)

end Reach

/-! ## Closed sets -/

namespace Graph

/-- The set holds the node that the output names, and with each node the nodes of the graph that
its slots name. -/
structure Closed (g : Graph) (s : Set UID) : Prop where
  output : ∀ u, g.output = .node u → u ∈ g.uids → u ∈ s
  slots : ∀ u ∈ s, ∀ n, g.node? u = some n → ∀ slot ∈ n.slots, ∀ v, slot.signal = .node v →
    v ∈ g.uids → v ∈ s

theorem closed_iff_refers (g : Graph) (s : Set UID) :
    g.Closed s ↔ (∀ u, g.output = .node u → u ∈ g.uids → u ∈ s) ∧
      ∀ u ∈ s, ∀ v, g.Refers u v → v ∈ s := by
  constructor
  · rintro ⟨houtput, hslots⟩
    refine ⟨houtput, ?_⟩
    rintro u hu v ⟨n, hn, htarget, hv⟩
    obtain ⟨slot, hslot, hsignal⟩ := (mem_targets_iff n v).mp htarget
    exact hslots u hu n hn slot hslot v hsignal hv
  · rintro ⟨houtput, hrefers⟩
    refine ⟨houtput, ?_⟩
    intro u hu n hn slot hslot v hsignal hv
    exact hrefers u hu v ⟨n, hn, (mem_targets_iff n v).mpr ⟨slot, hslot, hsignal⟩, hv⟩

theorem closed_reachable (g : Graph) : g.Closed {u | u ∈ g.reachable} := by
  rw [closed_iff_refers]
  refine ⟨?_, ?_⟩
  · intro u hout hu
    exact (mem_reachable_iff g u).mpr ⟨u, hout, hu, .refl⟩
  · intro u hu v hrefers
    exact (mem_reachable_iff g v).mpr (((mem_reachable_iff g u).mp hu).step hrefers)

/-- No closed set leaves out a node that is reached. -/
theorem Closed.mem_of_reaches {g : Graph} {s : Set UID} (h : g.Closed s) {u : UID}
    (hu : g.Reaches u) : u ∈ s := by
  obtain ⟨houtput, hrefers⟩ := (closed_iff_refers g s).mp h
  obtain ⟨root, hout, hroot, hpath⟩ := hu
  induction hpath with
  | refl => exact houtput root hout hroot
  | tail _ hstep ih => exact hrefers _ ih _ hstep

/-! ## The main result -/

/-- The search before its first turn: nothing has been reached, and the output is to be looked
at. -/
def searchStart (g : Graph) : Reach.Search :=
  ⟨.ofList g.wiring.uids compare, g.output.target?.toList⟩

/-- One turn for the reference of the output, if it is one, and for each reference of the nodes that are
found. -/
def searchTurns (g : Graph) : Nat :=
  g.output.target?.toList.length + (g.reachable.map fun u => (g.wiring.targets u).length).sum

theorem taken_searchStart (g : Graph) :
    Reach.taken g.wiring.targets g.searchStart.fresh g.searchStart.work = g.reachable := by
  have hascending : ascending g.wiring.uids = g.wiring.uids :=
    (ascending_pairwise _).eq_of_mem_iff g.wiring_uids_pairwise (mem_ascending _)
  exact congrArg (List.filter _) hascending

theorem turns_searchStart (g : Graph) :
    Reach.turns g.wiring.targets g.searchStart.fresh g.searchStart.work = g.searchTurns := by
  rw [Reach.turns, taken_searchStart]
  rfl

/-- On every graph the search comes to an end, after one turn for each reference that it follows. What
it has found then is the least set that holds the node of the output and, with each node, all
nodes of the graph that the slots of the node name. -/
theorem reachable_least_closure (g : Graph) :
    (∃ rest, (Reach.Search.step g.wiring.targets)^[g.searchTurns] g.searchStart = ⟨rest, []⟩ ∧
      ∀ u, u ∈ g.reachable ↔ u ∈ g.uids ∧ u ∉ rest) ∧
    (∀ k < g.searchTurns, ((Reach.Search.step g.wiring.targets)^[k] g.searchStart).work ≠ []) ∧
    g.Closed {u | u ∈ g.reachable} ∧
    (∀ s : Set UID, g.Closed s → ∀ u ∈ g.reachable, u ∈ s) ∧
    (∀ u ∈ g.reachable, u ∈ g.uids) ∧
    g.reachable.Pairwise (· < ·) := by
  refine ⟨⟨_, ?_, mem_reachable g⟩, ?_, closed_reachable g, ?_, ?_, ?_⟩
  · rw [← turns_searchStart]
    exact Reach.iterate_step _ _ _
  · intro k hk
    rw [← turns_searchStart] at hk
    exact Reach.work_iterate_step_ne_nil _ _ _ hk
  · intro s hs u hu
    exact hs.mem_of_reaches ((mem_reachable_iff g u).mp hu)
  · intro u hu
    exact ((mem_reachable g u).mp hu).1
  · exact g.wiring_uids_pairwise.filter _

/-- Node 0 refers to node 1 twice, node 1 to itself and to a node that is not there, and node 2 to
node 0, which the output names. -/
def eddy : Graph :=
  [Edit.add (.math .add), .add (.math .add), .add (.math .add), .setInput 0 0 (.node 1),
    .setInput 0 1 (.node 1), .setInput 1 0 (.node 9), .setInput 1 1 (.node 1),
    .setInput 2 0 (.node 0), .setOutput (.node 0)].foldl after (.empty "Eddy")

/-- Five references are looked at: that of the output, and two each of the nodes 0 and 1. -/
theorem reachable_least_closure_eddy :
    eddy.reachable = [0, 1] ∧ eddy.searchTurns = 5 ∧
    ((Reach.Search.step eddy.wiring.targets)^[4] eddy.searchStart).work ≠ [] ∧
    ((Reach.Search.step eddy.wiring.targets)^[5] eddy.searchStart).work = [] := by
  obtain ⟨⟨rest, hend, _⟩, hwork, ⟨houtput, hslots⟩, hleast, _, hordered⟩ :=
    reachable_least_closure eddy
  have hzero : 0 ∈ eddy.reachable := houtput 0 rfl (by decide)
  have hone : 1 ∈ eddy.reachable := hslots 0 hzero _ rfl _ List.mem_cons_self 1 rfl (by decide)
  have hclosed : eddy.Closed {u | u = 0 ∨ u = 1} := by
    refine (closed_iff_refers _ _).mpr ⟨fun u hout _ => .inl (Signal.node.inj hout).symm, ?_⟩
    rintro u (rfl | rfl) v ⟨n, hn, hv, hpresent⟩
    · have htargets : some [1, 1] = some n.targets := congrArg (Option.map Node.targets) hn
      obtain rfl : v = 1 := by simpa [← Option.some.inj htargets] using hv
      exact .inr rfl
    · have htargets : some [9, 1] = some n.targets := congrArg (Option.map Node.targets) hn
      rw [← Option.some.inj htargets, List.mem_pair] at hv
      rcases hv with rfl | rfl
      · exact absurd hpresent (by decide)
      · exact .inr rfl
  have hreachable : eddy.reachable = [0, 1] := by
    refine hordered.eq_of_mem_iff (by decide) fun u => ?_
    rw [List.mem_pair]
    refine ⟨hleast _ hclosed u, ?_⟩
    rintro (rfl | rfl)
    · exact hzero
    · exact hone
  have hturns : eddy.searchTurns = 5 := by
    rw [searchTurns, hreachable]
    decide +kernel
  rw [hturns] at hend hwork
  exact ⟨hreachable, hturns, hwork 4 (by decide), by rw [hend]⟩

end Graph

end NoiseShader
