import NoiseShader.Proofs.Graph.References

set_option autoImplicit false

/-! # The nodes that the output depends on are those it can reach

The search takes UIDs out of `fresh` and puts their dependencies to the work that remains. What
it takes out is reached from the work (`path_of_not_mem_unreached`), and what is left is closed
in the other direction: no UID that was taken out depends on it (`unreached_closed`).
-/

namespace NoiseShader

namespace Reach

variable (dependencies : UID → List UID)

/-- One step along the dependencies. -/
abbrev Step (u v : UID) : Prop := v ∈ dependencies u

theorem unreached_subset (fresh : UIDSet) (work : List UID) {u : UID}
    (h : u ∈ unreached dependencies fresh work) : u ∈ fresh ∧ u ∉ work := by
  fun_induction unreached dependencies fresh work with
  | case1 fresh => exact ⟨h, List.not_mem_nil⟩
  | case2 fresh uid work hfresh ih =>
      obtain ⟨hmem, hwork⟩ := ih h
      obtain ⟨hne, hmem⟩ := (mem_erase_iff _ _ _).mp hmem
      rw [List.mem_append, not_or] at hwork
      exact ⟨hmem, List.not_mem_cons_of_ne_of_not_mem hne hwork.2⟩
  | case3 fresh uid work hfresh ih =>
      obtain ⟨hmem, hwork⟩ := ih h
      refine ⟨hmem, List.not_mem_cons_of_ne_of_not_mem ?_ hwork⟩
      rintro rfl
      exact hfresh hmem

/-- A UID that is taken out takes its dependencies with it. -/
theorem unreached_closed (fresh : UIDSet) (work : List UID) {u v : UID} (hu : u ∈ fresh)
    (htaken : u ∉ unreached dependencies fresh work) (hv : v ∈ dependencies u) :
    v ∉ unreached dependencies fresh work := by
  fun_induction unreached dependencies fresh work with
  | case1 fresh => exact absurd hu htaken
  | case2 fresh uid work hfresh ih =>
      by_cases heq : u = uid
      · subst heq
        intro hmem
        have hwork := (unreached_subset dependencies _ _ hmem).2
        exact hwork (List.mem_append_left _ hv)
      · exact ih ((mem_erase_iff _ _ _).mpr ⟨heq, hu⟩) htaken
  | case3 fresh uid work hfresh ih => exact ih hu htaken

/-- What is taken out is reached from the work. -/
theorem path_of_not_mem_unreached (fresh : UIDSet) (work : List UID) {u : UID} (hu : u ∈ fresh)
    (htaken : u ∉ unreached dependencies fresh work) :
    ∃ root ∈ work, Relation.ReflTransGen (Step dependencies) root u := by
  fun_induction unreached dependencies fresh work with
  | case1 fresh => exact absurd hu htaken
  | case2 fresh uid work hfresh ih =>
      by_cases heq : u = uid
      · exact ⟨uid, List.mem_cons_self, by rw [heq]⟩
      · obtain ⟨root, hroot, hpath⟩ := ih ((mem_erase_iff _ _ _).mpr ⟨heq, hu⟩) htaken
        rcases List.mem_append.mp hroot with hdep | hwork
        · exact ⟨uid, List.mem_cons_self, hpath.head hdep⟩
        · exact ⟨root, List.mem_cons_of_mem _ hwork, hpath⟩
  | case3 fresh uid work hfresh ih =>
      obtain ⟨root, hroot, hpath⟩ := ih hu htaken
      exact ⟨root, List.mem_cons_of_mem _ hroot, hpath⟩

end Reach

namespace Graph

theorem step_eq_refers (g : Graph) : Reach.Step g.wiring.dependencies = g.Refers := by
  funext u v
  exact propext (mem_dependencies g u v)

theorem mem_toList_target? (s : Signal) (u : UID) : u ∈ s.target?.toList ↔ s = .node u := by
  cases s with
  | constant x => simp [Signal.target?]
  | node v => simp [Signal.target?, eq_comm]

/-- A way along the slots that ends at a node of the graph comes by nodes of the graph only. -/
theorem reflTransGen_refers {g : Graph} {root u : UID} (hu : u ∈ g.uids)
    (hpath : Relation.ReflTransGen (Reach.Step g.wiring.targets) root u) :
    Relation.ReflTransGen g.Refers root u := by
  induction hpath with
  | refl => exact .refl
  | tail _ hstep ih =>
      obtain ⟨n, hn, hv⟩ := (mem_wiring_targets g _ _).mp hstep
      have hrefers : g.Refers _ _ := ⟨n, hn, hv, hu⟩
      exact (ih hrefers.left_mem).tail hrefers

theorem mem_fresh_iff (g : Graph) (u : UID) :
    u ∈ Std.TreeSet.ofList g.wiring.uids compare ↔ u ∈ g.uids := by
  rw [mem_setOf_iff, mem_wiring_uids]

theorem mem_reachable (g : Graph) (u : UID) : u ∈ g.reachable ↔ u ∈ g.uids ∧
    u ∉ Reach.unreached g.wiring.targets (.ofList g.wiring.uids compare) g.output.target?.toList := by
  unfold reachable Wiring.reachable
  simp only [List.mem_filter, Bool.not_eq_true', mem_wiring_uids]
  rw [Bool.eq_false_iff, ne_eq, Std.TreeSet.contains_iff_mem]

/-- The search finds exactly the nodes that the output reaches. -/
theorem mem_reachable_iff (g : Graph) (u : UID) : u ∈ g.reachable ↔ g.Reaches u := by
  rw [mem_reachable]
  constructor
  · rintro ⟨hu, htaken⟩
    obtain ⟨root, hroot, hpath⟩ :=
      Reach.path_of_not_mem_unreached _ _ _ ((mem_fresh_iff g u).mpr hu) htaken
    have hpath := reflTransGen_refers hu hpath
    refine ⟨root, (mem_toList_target? _ _).mp hroot, ?_, hpath⟩
    rcases Relation.ReflTransGen.cases_head hpath with rfl | ⟨v, hstep, _⟩
    · exact hu
    · exact hstep.left_mem
  · rintro ⟨root, hout, hroot, hpath⟩
    refine ⟨Reaches.mem ⟨root, hout, hroot, hpath⟩, ?_⟩
    induction hpath with
    | refl =>
        intro hmem
        exact (Reach.unreached_subset _ _ _ hmem).2 ((mem_toList_target? _ _).mpr hout)
    | tail _ hstep ih =>
        have hfresh := (mem_fresh_iff g _).mpr hstep.left_mem
        obtain ⟨n, hn, hv, _⟩ := hstep
        exact Reach.unreached_closed _ _ _ hfresh ih ((mem_wiring_targets g _ _).mpr ⟨n, hn, hv⟩)

end Graph

end NoiseShader
