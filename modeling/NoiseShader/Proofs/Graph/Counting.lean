import NoiseShader.Graph.Order
import NoiseShader.Proofs.Graph.References

set_option autoImplicit false

/-! # Counting down finds what a search would find

The order of a graph is kept by counters. Without them, each UID to be listed would be searched for:
it is the first one that no unlisted dependency holds up (`Order.listFrom`). The counters are at all
times the numbers of unlisted dependencies (`Tally.Counts`), so that none of them is counted down at
zero, and both ways list the same (`Wiring.order?_eq`).
-/

namespace NoiseShader

namespace Order

/-! ## The order by search -/

/-- Whether no dependency of a node is still pending. -/
def isReady (dependencies : UID → List UID) (pending : UIDSet) (uid : UID) : Bool :=
  (dependencies uid).all fun dependency => !pending.contains dependency

/-- Lists the nodes of `waiting`, which ascends and has the same elements as `pending`. -/
def listFrom (dependencies : UID → List UID) (pending : UIDSet) (waiting : List UID) :
    List UID :=
  match h : waiting.find? (isReady dependencies pending) with
  | some uid =>
    have : (waiting.erase uid).length < waiting.length := by
      have hmem := List.mem_of_find?_eq_some h
      have hpos := List.length_pos_of_mem hmem
      rw [List.length_erase_of_mem hmem]
      omega
    uid :: listFrom dependencies (pending.erase uid) (waiting.erase uid)
  | none => []
termination_by waiting.length

variable (dependencies : UID → List UID)

theorem listFrom_of_none {pending : UIDSet} {waiting : List UID}
    (h : waiting.find? (isReady dependencies pending) = none) :
    listFrom dependencies pending waiting = [] := by
  rw [listFrom]
  split
  · next hsome =>
      rw [h] at hsome
      cases hsome
  · rfl

theorem listFrom_of_some {pending : UIDSet} {waiting : List UID} {uid : UID}
    (h : waiting.find? (isReady dependencies pending) = some uid) :
    listFrom dependencies pending waiting =
      uid :: listFrom dependencies (pending.erase uid) (waiting.erase uid) := by
  conv_lhs => rw [listFrom]
  split
  · next hsome =>
      obtain rfl := Option.some.inj (h.symm.trans hsome)
      rfl
  · next hnone =>
      rw [h] at hnone
      cases hnone

theorem isReady_iff (pending : UIDSet) (u : UID) :
    isReady dependencies pending u = true ↔ ∀ v ∈ dependencies u, v ∉ pending := by
  unfold isReady
  rw [List.all_eq_true]
  refine forall₂_congr fun v _ => ?_
  rw [Bool.not_eq_true', Bool.eq_false_iff, ne_eq, Std.TreeSet.contains_iff_mem]

/-- The set of what is pending has the elements of the list of what is waiting. -/
def Agree (pending : UIDSet) (waiting : List UID) : Prop := ∀ u, u ∈ pending ↔ u ∈ waiting

theorem Agree.erase {pending : UIDSet} {waiting : List UID} (h : Agree pending waiting)
    (hnodup : waiting.Nodup) (u : UID) : Agree (pending.erase u) (waiting.erase u) := by
  intro v
  rw [mem_erase_iff, hnodup.mem_erase_iff, h v]

/-! ## Counting down -/

namespace Tally

theorem countDown_eq {t : Tally} {uid : UID} {n : Nat} (h : t.counters[uid]? = some (n + 1)) :
    t.countDown uid =
      some ⟨t.counters.insert uid n, if n = 0 then t.ready.insert uid else t.ready⟩ := by
  rw [countDown, h]

/-- Counting down some UIDs, none of which is at zero, takes one from the counter of each and
makes those ready that were at one. -/
theorem foldlM_countDown {t : Tally} {uids : List UID} (hnodup : uids.Nodup)
    (hpositive : ∀ u ∈ uids, ∃ n, t.counters[u]? = some (n + 1)) :
    ∃ t', uids.foldlM countDown t = some t' ∧
      (∀ u, t'.counters[u]? = if u ∈ uids then t.counters[u]?.map (· - 1) else t.counters[u]?) ∧
      ∀ u, u ∈ t'.ready ↔ u ∈ t.ready ∨ (u ∈ uids ∧ t.counters[u]? = some 1) := by
  induction uids generalizing t with
  | nil => exact ⟨t, rfl, by simp, by simp⟩
  | cons uid uids ih =>
      obtain ⟨hnew, hnodup⟩ := List.nodup_cons.mp hnodup
      obtain ⟨n, hn⟩ := hpositive uid List.mem_cons_self
      have hcounters : ∀ u, (t.counters.insert uid n)[u]? =
          if u = uid then some n else t.counters[u]? := by
        intro u
        rw [Std.TreeMap.getElem?_insert]
        simp only [Std.LawfulEqCmp.compare_eq_iff_eq, @eq_comm _ uid u]
      have hready : ∀ u, u ∈ (if n = 0 then t.ready.insert uid else t.ready) ↔
          u ∈ t.ready ∨ (u = uid ∧ n = 0) := by
        intro u
        split
        · next hzero =>
            simp only [Std.TreeSet.mem_insert, Std.LawfulEqCmp.compare_eq_iff_eq, @eq_comm _ uid u,
              hzero, and_true, or_comm]
        · next hzero => simp [hzero]
      -- the other UIDs have the counters that they had
      have hothers : ∀ u ∈ uids, (t.counters.insert uid n)[u]? = t.counters[u]? := by
        intro u hu
        rw [hcounters, if_neg]
        rintro rfl
        exact hnew hu
      obtain ⟨t', hfold, hcounters', hready'⟩ :=
        ih (t := ⟨t.counters.insert uid n, _⟩) hnodup fun u hu => by
          rw [hothers u hu]
          exact hpositive u (List.mem_cons_of_mem _ hu)
      refine ⟨t', ?_, ?_, ?_⟩
      · rw [List.foldlM_cons, countDown_eq hn]
        exact hfold
      · intro u
        rw [hcounters']
        by_cases hu : u = uid
        · subst hu
          simp [hnew, hn]
        · simp [hu, hcounters]
      · intro u
        rw [hready' u, hready u]
        by_cases hu : u = uid
        · subst hu
          simp [hnew, hn]
        · simp [hu, hcounters]

/-- The tally is that of a run that has listed all of `uids` but `waiting`: each counter is the
number of dependencies that are waiting, and what waits for none of them is ready. -/
structure Counts (uids waiting : List UID) (t : Tally) : Prop where
  subset : ∀ u ∈ waiting, u ∈ uids
  counters : ∀ u, t.counters[u]? =
    if u ∈ uids then some ((dependencies u).countP (· ∈ waiting)) else none
  ready : ∀ u, u ∈ t.ready ↔ u ∈ waiting ∧ ∀ v ∈ dependencies u, v ∉ waiting
  /-- What is listed came after its dependencies. -/
  listed : ∀ u ∈ uids, u ∉ waiting → ∀ v ∈ dependencies u, v ∉ waiting

end Tally

/-- Of distinct UIDs, one less is waiting once one of them is listed. -/
theorem countP_erase {us waiting : List UID} (hus : us.Nodup) (hwaiting : waiting.Nodup) {uid : UID}
    (huid : uid ∈ waiting) :
    us.countP (· ∈ waiting) =
      us.countP (· ∈ waiting.erase uid) + if uid ∈ us then 1 else 0 := by
  induction us with
  | nil => rfl
  | cons u us ih =>
      obtain ⟨hnew, hus⟩ := List.nodup_cons.mp hus
      rw [List.countP_cons, List.countP_cons, ih hus]
      by_cases hu : u = uid
      · subst hu
        simp [hnew, huid, hwaiting.not_mem_erase]
      · have hne : uid ≠ u := fun heq => hu heq.symm
        simp only [List.mem_erase_of_ne hu, List.mem_cons, hne, false_or]
        omega

variable {dependencies}

theorem countP_eq_zero_iff {waiting : List UID} (u : UID) :
    (dependencies u).countP (· ∈ waiting) = 0 ↔ ∀ v ∈ dependencies u, v ∉ waiting := by
  simp [List.countP_eq_zero]

/-- The dependents of a UID, each once. -/
structure IsDependents (dependencies dependents : UID → List UID) (uids : List UID) : Prop where
  nodup : ∀ u, (dependents u).Nodup
  mem_iff : ∀ u ∈ uids, ∀ d, d ∈ dependents u ↔ d ∈ uids ∧ u ∈ dependencies d

section

variable {dependents : UID → List UID} {uids waiting : List UID} {t : Tally}

/-- One round: the counters of what depends on the listed UID go down, none of them from zero. -/
theorem Tally.Counts.next (h : t.Counts dependencies uids waiting)
    (hdependents : IsDependents dependencies dependents uids)
    (hnodup : ∀ u, (dependencies u).Nodup) (hwaiting : waiting.Nodup) {uid : UID}
    (huid : uid ∈ t.ready) :
    ∃ t', (dependents uid).foldlM Tally.countDown { t with ready := t.ready.erase uid } = some t' ∧
      t'.Counts dependencies uids (waiting.erase uid) := by
  obtain ⟨hmem, hfree⟩ := (h.ready uid).mp huid
  have hdependent : ∀ d, d ∈ dependents uid ↔ d ∈ uids ∧ uid ∈ dependencies d :=
    hdependents.mem_iff uid (h.subset uid hmem)
  have hcount : ∀ d, (dependencies d).countP (· ∈ waiting) =
      (dependencies d).countP (· ∈ waiting.erase uid) + if uid ∈ dependencies d then 1 else 0 :=
    fun d => countP_erase (hnodup d) hwaiting hmem
  obtain ⟨t', hfold, hcounters, hready⟩ := Tally.foldlM_countDown
    (t := { t with ready := t.ready.erase uid }) (hdependents.nodup uid) (by
      intro d hd
      obtain ⟨hd, hdependency⟩ := (hdependent d).mp hd
      exact ⟨(dependencies d).countP (· ∈ waiting.erase uid), by
        rw [h.counters, if_pos hd, hcount, if_pos hdependency]⟩)
  refine ⟨t', hfold, ?_, ?_, ?_, ?_⟩
  · intro u hu
    exact h.subset u (List.mem_of_mem_erase hu)
  · intro u
    rw [hcounters, h.counters, hcount]
    by_cases hu : u ∈ uids
    · by_cases hdependency : uid ∈ dependencies u
      · simp [hdependent, hu, hdependency]
      · simp [hdependent, hu, hdependency]
    · simp [hdependent, hu]
  · intro u
    rw [hready, mem_erase_iff, h.ready, hwaiting.mem_erase_iff, ← countP_eq_zero_iff,
      ← countP_eq_zero_iff, h.counters, hdependent, hcount]
    constructor
    · rintro (⟨hne, hu, hzero⟩ | ⟨⟨hu, hdependency⟩, hone⟩)
      · exact ⟨⟨hne, hu⟩, by omega⟩
      · -- what depends on `uid` is neither `uid` itself nor listed before it
        rw [if_pos hu, if_pos hdependency] at hone
        refine ⟨⟨?_, ?_⟩, by simpa using hone⟩
        · rintro rfl
          exact hfree _ hdependency hmem
        · by_contra hlisted
          exact h.listed u hu hlisted uid hdependency hmem
    · rintro ⟨⟨hne, hu⟩, hzero⟩
      by_cases hdependency : uid ∈ dependencies u
      · right
        refine ⟨⟨h.subset u hu, hdependency⟩, ?_⟩
        rw [if_pos (h.subset u hu), if_pos hdependency, hzero]
      · left
        rw [if_neg hdependency, hzero]
        exact ⟨hne, hu, rfl⟩
  · intro u hu hlisted v hv hmem'
    have hv' := List.mem_of_mem_erase hmem'
    by_cases heq : u = uid
    · subst heq
      exact hfree v hv hv'
    · exact h.listed u hu (fun hw => hlisted ((List.mem_erase_of_ne heq).mpr hw)) v hv hv'

/-- What the search finds first is the least that it could find. -/
theorem le_of_find? {waiting : List UID} (hsorted : waiting.Pairwise (· < ·)) {p : UID → Bool}
    {uid : UID} (hfind : waiting.find? p = some uid) {u : UID} (hu : u ∈ waiting)
    (hp : p u = true) : uid ≤ u := by
  obtain ⟨_, before, after, rfl, hbefore⟩ := List.find?_eq_some_iff_append.mp hfind
  rcases List.mem_append.mp hu with hu | hu
  · have hnot := hbefore u hu
    rw [hp] at hnot
    cases hnot
  · rcases List.mem_cons.mp hu with rfl | hu
    · exact UInt32.le_refl _
    · have hlast := (List.pairwise_append.mp hsorted).2.1
      exact UInt32.le_of_lt ((List.pairwise_cons.mp hlast).1 u hu)

/-- The least UID that is ready is the first that the search finds. -/
theorem Tally.Counts.min?_eq (h : t.Counts dependencies uids waiting) {pending : UIDSet}
    (hagree : Agree pending waiting) (hsorted : waiting.Pairwise (· < ·)) :
    t.ready.min? = waiting.find? (isReady dependencies pending) := by
  have hready : ∀ u, u ∈ t.ready ↔ u ∈ waiting ∧ isReady dependencies pending u = true := by
    intro u
    rw [h.ready, isReady_iff]
    simp only [hagree _]
  cases hfind : waiting.find? (isReady dependencies pending) with
  | none =>
      rw [Std.TreeSet.min?_eq_none_iff, Std.TreeSet.isEmpty_iff_forall_not_mem]
      intro u hu
      obtain ⟨hu, hfree⟩ := (hready u).mp hu
      exact List.find?_eq_none.mp hfind u hu hfree
  | some uid =>
      rw [Std.TreeSet.min?_eq_some_iff_mem_and_forall]
      refine ⟨(hready uid).mpr ⟨List.mem_of_find?_eq_some hfind, List.find?_some hfind⟩, ?_⟩
      intro u hu
      obtain ⟨hu, hfree'⟩ := (hready u).mp hu
      rw [Std.isLE_compare]
      exact le_of_find? hsorted hfind hu hfree'

/-- The whole run: as long as the counters are right, counting lists what the search lists. -/
theorem listByCount?_eq (hdependents : IsDependents dependencies dependents uids)
    (hnodup : ∀ u, (dependencies u).Nodup) {pending : UIDSet} (hagree : Agree pending waiting)
    (hsorted : waiting.Pairwise (· < ·)) (h : t.Counts dependencies uids waiting) :
    listByCount? dependents t = some (listFrom dependencies pending waiting) := by
  fun_induction listFrom dependencies pending waiting generalizing t with
  | case2 pending waiting hnone =>
      have hmin := h.min?_eq hagree hsorted
      rw [hnone] at hmin
      unfold listByCount?
      split
      · rfl
      · next hsome => rw [hmin] at hsome; cases hsome
  | case1 pending waiting uid hfind _ ih =>
      have hwaiting := nodup_of_pairwise_lt hsorted
      have hmin := h.min?_eq hagree hsorted
      rw [hfind] at hmin
      have hready := (Std.TreeSet.min?_eq_some_iff_mem_and_forall.mp hmin).1
      obtain ⟨t', hfold, hcounts⟩ := h.next hdependents hnodup hwaiting hready
      have hrest := ih (hagree.erase hwaiting uid) (hsorted.sublist List.erase_sublist) hcounts
      unfold listByCount?
      split
      · next hnone => rw [hmin] at hnone; cases hnone
      · next hsome =>
          obtain rfl := Option.some.inj (hmin.symm.trans hsome)
          split
          · next hnone => rw [hfold] at hnone; cases hnone
          · next hsome =>
              obtain rfl := Option.some.inj (hfold.symm.trans hsome)
              rw [hrest]
              rfl

end

/-! ## The start -/

section

variable (dependencies)

theorem getD_insertAll (uid : UID) {ds : List UID} (hnodup : ds.Nodup)
    (table : Std.TreeMap UID (List UID)) (u : UID) :
    (ds.foldl (fun table d => table.insert d (uid :: table.getD d [])) table).getD u [] =
      if u ∈ ds then uid :: table.getD u [] else table.getD u [] := by
  induction ds generalizing table with
  | nil => simp
  | cons d ds ih =>
      obtain ⟨hnew, hnodup⟩ := List.nodup_cons.mp hnodup
      rw [List.foldl_cons, ih hnodup, Std.TreeMap.getD_insert]
      simp only [Std.LawfulEqCmp.compare_eq_iff_eq]
      by_cases hu : d = u
      · subst hu
        simp [hnew]
      · have hne : u ≠ d := fun heq => hu heq.symm
        simp [hu, hne]

/-- The table holds, under each UID, what depends on it. -/
theorem getD_dependentsOf (hnodup : ∀ u, (dependencies u).Nodup) (uids : List UID) (u : UID) :
    (dependentsOf dependencies uids).getD u [] =
      (uids.filter fun d => u ∈ dependencies d).reverse := by
  have hfold : ∀ table : Std.TreeMap UID (List UID),
      (uids.foldl (fun table uid => (dependencies uid).foldl (fun table dependency =>
        table.insert dependency (uid :: table.getD dependency [])) table) table).getD u [] =
          (uids.filter fun d => u ∈ dependencies d).reverse ++ table.getD u [] := by
    induction uids with
    | nil => simp
    | cons uid uids ih =>
        intro table
        rw [List.foldl_cons, ih, getD_insertAll uid (hnodup uid)]
        by_cases hu : u ∈ dependencies uid
        · simp [hu]
        · simp [hu]
  rw [dependentsOf, hfold]
  simp

/-- Only dependencies inside `uids` are counted, and with nothing listed all of them are waiting. -/
theorem counts_start {uids : List UID} (huids : uids.Nodup) :
    (Tally.start (fun u => (dependencies u).filter
      (Std.TreeSet.ofList uids compare).contains) uids).Counts dependencies uids uids := by
  have hinside : ∀ u, ((dependencies u).filter (Std.TreeSet.ofList uids compare).contains).length =
      (dependencies u).countP (· ∈ uids) := by
    intro u
    rw [← List.countP_eq_length_filter]
    refine List.countP_congr fun v _ => ?_
    rw [Std.TreeSet.contains_iff_mem, mem_setOf_iff, decide_eq_true_iff]
  refine ⟨fun u hu => hu, ?_, ?_, fun u hu hlisted => absurd hu hlisted⟩
  · intro u
    unfold Tally.start
    by_cases hu : u ∈ uids
    · rw [if_pos hu, ← hinside u]
      refine Std.TreeMap.getElem?_ofList_of_mem Std.ReflCmp.compare_self ?_
        (List.mem_map.mpr ⟨u, hu, rfl⟩)
      rw [List.pairwise_map]
      exact huids.imp fun hne heq => hne (Std.LawfulEqCmp.eq_of_compare heq)
    · rw [if_neg hu]
      refine Std.TreeMap.getElem?_ofList_of_contains_eq_false ?_
      simpa using hu
  · intro u
    unfold Tally.start
    rw [mem_setOf_iff, List.mem_filter, ← countP_eq_zero_iff, ← hinside u, List.isEmpty_iff,
      List.length_eq_zero_iff]

theorem isDependents_dependentsOf {uids : List UID} (huids : uids.Nodup)
    (hnodup : ∀ u, (dependencies u).Nodup) :
    IsDependents dependencies (fun u => (dependentsOf (fun d => (dependencies d).filter
      (Std.TreeSet.ofList uids compare).contains) uids).getD u []) uids := by
  have hinside : ∀ u, ((dependencies u).filter
      (Std.TreeSet.ofList uids compare).contains).Nodup := fun u => (hnodup u).filter _
  refine ⟨?_, ?_⟩
  · intro u
    rw [getD_dependentsOf _ hinside, List.nodup_reverse]
    exact huids.filter _
  · intro u hu d
    rw [getD_dependentsOf _ hinside]
    simp only [List.mem_reverse, List.mem_filter, decide_eq_true_iff, Std.TreeSet.contains_iff_mem,
      mem_setOf_iff, hu, and_true]

end

end Order

/-! ## The order of a graph -/

namespace Wiring

/-- No counter goes below zero, and what is listed is what the search lists. -/
theorem order?_eq (w : Wiring) (subset : List UID) :
    w.order? subset = some (Order.listFrom w.dependencies
      (Std.TreeSet.ofList (ascending subset) compare) (ascending subset)) := by
  have hsorted := ascending_pairwise subset
  have huids := nodup_of_pairwise_lt hsorted
  have hnodup : ∀ u, (w.dependencies u).Nodup :=
    fun u => nodup_of_pairwise_lt (w.dependencies_pairwise u)
  exact Order.listByCount?_eq (Order.isDependents_dependentsOf _ huids hnodup) hnodup
    (mem_setOf_iff (ascending subset)) hsorted (Order.counts_start _ huids)

theorem order_eq (w : Wiring) (subset : List UID) :
    w.order subset = Order.listFrom w.dependencies
      (Std.TreeSet.ofList (ascending subset) compare) (ascending subset) := by
  rw [order, order?_eq, Option.getD_some]

end Wiring

end NoiseShader
