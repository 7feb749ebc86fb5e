import NoiseShader.Proofs.Graph.Counting
import NoiseShader.Proofs.Graph.Cycle

set_option autoImplicit false

/-! # The order puts dependencies first

The search takes a waiting UID off the list when none of its dependencies is waiting. So a listed
UID comes after those of its dependencies that are to be listed (`dependencies_before`), and
what is never listed has a dependency that is never listed either (`exists_unlisted`). Along
chains that end, this cannot go on, so everything is listed (`mem_listFrom_of_settled`).
-/

namespace NoiseShader

namespace Order

variable (dependencies : UID → List UID)

theorem mem_of_mem_listFrom (pending : UIDSet) (waiting : List UID) {u : UID}
    (h : u ∈ listFrom dependencies pending waiting) : u ∈ waiting := by
  fun_induction listFrom dependencies pending waiting with
  | case2 pending waiting hnone => cases h
  | case1 pending waiting uid hfind _ ih =>
      rcases List.mem_cons.mp h with rfl | h
      · exact List.mem_of_find?_eq_some hfind
      · exact List.mem_of_mem_erase (ih h)

theorem listFrom_nodup (pending : UIDSet) (waiting : List UID) (hnodup : waiting.Nodup) :
    (listFrom dependencies pending waiting).Nodup := by
  fun_induction listFrom dependencies pending waiting with
  | case2 pending waiting hnone => exact List.nodup_nil
  | case1 pending waiting uid hfind _ ih =>
      refine List.nodup_cons.mpr ⟨?_, ih (hnodup.erase uid)⟩
      intro hmem
      exact hnodup.not_mem_erase (mem_of_mem_listFrom dependencies _ _ hmem)

/-- A listed UID comes after those of its dependencies that were waiting. -/
theorem dependencies_before (pending : UIDSet) (waiting : List UID) (hnodup : waiting.Nodup)
    (hagree : Agree pending waiting) {before after : List UID} {u : UID}
    (hlist : listFrom dependencies pending waiting = before ++ u :: after) :
    ∀ v ∈ dependencies u, v ∈ waiting → v ∈ before := by
  fun_induction listFrom dependencies pending waiting generalizing before with
  | case2 pending waiting hnone => simp at hlist
  | case1 pending waiting uid hfind _ ih =>
      intro v hv hwaiting
      cases before with
      | nil =>
          -- the first to be listed is ready: nothing it depends on is waiting
          rw [List.nil_append] at hlist
          obtain ⟨rfl, _⟩ := List.cons.inj hlist
          have hready := List.find?_some hfind
          exact absurd ((hagree v).mpr hwaiting) ((isReady_iff _ _ _).mp hready v hv)
      | cons w before =>
          rw [List.cons_append] at hlist
          obtain ⟨rfl, hrest⟩ := List.cons.inj hlist
          by_cases heq : v = uid
          · rw [heq]; exact List.mem_cons_self
          · refine List.mem_cons_of_mem _ ?_
            exact ih (hnodup.erase uid) (hagree.erase hnodup uid) hrest v hv
              ((List.mem_erase_of_ne heq).mpr hwaiting)

/-- What is never listed waits for something that is never listed. -/
theorem exists_unlisted (pending : UIDSet) (waiting : List UID) (hnodup : waiting.Nodup)
    (hagree : Agree pending waiting) {u : UID} (hu : u ∈ waiting)
    (hnot : u ∉ listFrom dependencies pending waiting) :
    ∃ v ∈ dependencies u, v ∈ waiting ∧ v ∉ listFrom dependencies pending waiting := by
  fun_induction listFrom dependencies pending waiting with
  | case2 pending waiting hnone =>
      have hblocked := List.find?_eq_none.mp hnone u hu
      rw [isReady_iff] at hblocked
      push Not at hblocked
      obtain ⟨v, hv, hpending⟩ := hblocked
      exact ⟨v, hv, (hagree v).mp hpending, List.not_mem_nil⟩
  | case1 pending waiting uid hfind _ ih =>
      rw [List.mem_cons, not_or] at hnot
      obtain ⟨v, hv, hwaiting, hunlisted⟩ := ih (hnodup.erase uid) (hagree.erase hnodup uid)
        ((List.mem_erase_of_ne hnot.1).mpr hu) hnot.2
      rw [hnodup.mem_erase_iff] at hwaiting
      refine ⟨v, hv, hwaiting.2, ?_⟩
      rw [List.mem_cons, not_or]
      exact ⟨hwaiting.1, hunlisted⟩

theorem mem_listFrom_of_settled (pending : UIDSet) (waiting : List UID) (hnodup : waiting.Nodup)
    (hagree : Agree pending waiting) {u : UID} (hsettled : Cycle.Settled dependencies u)
    (hu : u ∈ waiting) : u ∈ listFrom dependencies pending waiting := by
  induction hsettled with
  | intro u _ ih =>
      by_contra hnot
      obtain ⟨v, hv, hwaiting, hunlisted⟩ :=
        exists_unlisted dependencies pending waiting hnodup hagree hu hnot
      exact hunlisted (ih v hv hwaiting)

end Order

namespace Graph

theorem agree_ascending (subset : List UID) :
    Order.Agree (Std.TreeSet.ofList (ascending subset) compare) (ascending subset) :=
  fun u => mem_setOf_iff (ascending subset) u

theorem order_nodup (g : Graph) (subset : List UID) : (g.order subset).Nodup := by
  rw [order, Wiring.order_eq]
  exact Order.listFrom_nodup _ _ _ (nodup_of_pairwise_lt (ascending_pairwise subset))

theorem mem_order_iff {g : Graph} (hg : g.Acyclic) (subset : List UID) (u : UID) :
    u ∈ g.order subset ↔ u ∈ subset := by
  rw [order, Wiring.order_eq]
  constructor
  · intro h
    exact (mem_ascending subset u).mp (Order.mem_of_mem_listFrom _ _ _ h)
  · intro h
    have hsettled := settled_of_cycle?_eq_none ((cycle?_eq_none_iff g).mpr hg) u
    exact Order.mem_listFrom_of_settled _ _ _ (nodup_of_pairwise_lt (ascending_pairwise subset))
      (agree_ascending subset) hsettled ((mem_ascending subset u).mpr h)

theorem order_dependencies_before (g : Graph) {subset before after : List UID} {u v : UID}
    (horder : g.order subset = before ++ u :: after) (huv : g.Refers u v) (hv : v ∈ subset) :
    v ∈ before := by
  rw [order, Wiring.order_eq] at horder
  exact Order.dependencies_before _ _ _ (nodup_of_pairwise_lt (ascending_pairwise subset))
    (agree_ascending subset) horder v ((mem_dependencies g u v).mpr huv)
    ((mem_ascending subset v).mpr hv)

end Graph

end NoiseShader
