import NoiseShader.Proofs.Graph.Reach
import Mathlib.Data.List.Chain

set_option autoImplicit false

/-! # The cycle search is sound and complete

A step of the search starts from a root or skips it, enters a dependency or passes it, or leaves
the newest node (`Goes`). What it holds is a chain of dependencies without repetition, and the
active nodes are those on it (`Track`). So a dependency that is active is found on the path, and
the part of the path from there on is a simple cycle (`isCycle_close`).

A UID that the search has left for good is *settled*: every chain of dependencies from it comes
to an end, which is `Acc` of the dependency relation. If the search finds nothing, it has settled
every node (`Swept`), so there is no cycle.
-/

namespace NoiseShader

namespace Cycle

variable (dependencies : UID → List UID)

/-- A path that ends where it begins and repeats no other UID, each one related to the next. -/
structure IsCycle (r : UID → UID → Prop) (path : List UID) : Prop where
  closed : ∃ u inner, path = u :: (inner ++ [u]) ∧ (u :: inner).Nodup
  chain : path.IsChain r

/-! ## Steps -/

/-- One step of a search that is not over with it. -/
inductive Goes : Search → Search → Prop
  | start {fresh active : UIDSet} {root : UID} {roots : List UID} (hroot : root ∈ fresh) :
      Goes ⟨fresh, active, [], root :: roots⟩
        ⟨fresh.erase root, active.insert root, [⟨root, dependencies root⟩], roots⟩
  | skip {fresh active : UIDSet} {root : UID} {roots : List UID} (hroot : root ∉ fresh) :
      Goes ⟨fresh, active, [], root :: roots⟩ ⟨fresh, active, [], roots⟩
  | leave {fresh active : UIDSet} {uid : UID} {path : List Frame} {roots : List UID} :
      Goes ⟨fresh, active, ⟨uid, []⟩ :: path, roots⟩ ⟨fresh, active.erase uid, path, roots⟩
  | enter {fresh active : UIDSet} {uid next : UID} {pending : List UID} {path : List Frame}
      {roots : List UID} (hnext : next ∈ fresh) :
      Goes ⟨fresh, active, ⟨uid, next :: pending⟩ :: path, roots⟩
        ⟨fresh.erase next, active.insert next,
          ⟨next, dependencies next⟩ :: ⟨uid, pending⟩ :: path, roots⟩
  | pass {fresh active : UIDSet} {uid next : UID} {pending : List UID} {path : List Frame}
      {roots : List UID} (hnext : next ∉ fresh) (hactive : next ∉ active) :
      Goes ⟨fresh, active, ⟨uid, next :: pending⟩ :: path, roots⟩
        ⟨fresh, active, ⟨uid, pending⟩ :: path, roots⟩

variable {dependencies}

theorem goes_of_step {s t : Search} (h : s.step dependencies = .goesOn t) :
    Goes dependencies s t := by
  obtain ⟨fresh, active, path, roots⟩ := s
  unfold Search.step at h
  simp only at h
  split at h
  · cases h
  · split at h
    · next hroot =>
        obtain rfl := Progress.goesOn.inj h
        exact .start hroot
    · next hroot =>
        obtain rfl := Progress.goesOn.inj h
        exact .skip hroot
  · obtain rfl := Progress.goesOn.inj h
    exact .leave
  · split at h
    · next hnext =>
        obtain rfl := Progress.goesOn.inj h
        exact .enter hnext
    · next hnext =>
        split at h
        · cases h
        · next hactive =>
            obtain rfl := Progress.goesOn.inj h
            exact .pass hnext hactive

/-- The search is over when nothing remains, or at a dependency that is active. -/
theorem step_eq_over {s : Search} {found : Option (List UID)}
    (h : s.step dependencies = .over found) :
    (s.path = [] ∧ s.roots = [] ∧ found = none) ∨
      ∃ uid next pending path, s.path = ⟨uid, next :: pending⟩ :: path ∧ next ∈ s.active ∧
        found = some (close next s.path) := by
  obtain ⟨fresh, active, path, roots⟩ := s
  unfold Search.step at h
  simp only at h
  split at h
  · exact .inl ⟨rfl, rfl, (Progress.over.inj h).symm⟩
  · split at h <;> cases h
  · cases h
  · split at h
    · cases h
    · split at h
      · next hactive => exact .inr ⟨_, _, _, _, rfl, hactive, (Progress.over.inj h).symm⟩
      · cases h

/-- The search comes from `s` to `t`. -/
abbrev Comes (dependencies : UID → List UID) : Search → Search → Prop :=
  Relation.ReflTransGen fun s t => s.step dependencies = .goesOn t

/-- After finitely many steps the search is over. -/
theorem exists_last (dependencies : UID → List UID) (s : Search) :
    ∃ last, Comes dependencies s last ∧ last.step dependencies = .over (s.run dependencies) := by
  fun_induction Search.run dependencies s with
  | case1 s next hstep ih =>
      obtain ⟨last, hcomes, hover⟩ := ih
      exact ⟨last, hcomes.head hstep, hover⟩
  | case2 s found hstep => exact ⟨s, .refl, hstep⟩

/-! ## The path -/

variable (dependencies)

/-- What the search holds: a chain of dependencies, newest first, of entered nodes without
repetition. The nodes on it are the active ones. -/
structure Track (fresh active : UIDSet) (path : List Frame) : Prop where
  chain : (path.map Frame.uid).IsChain fun newer older => newer ∈ dependencies older
  nodup : (path.map Frame.uid).Nodup
  entered : ∀ u ∈ path.map Frame.uid, u ∉ fresh
  active_iff : ∀ u, u ∈ active ↔ u ∈ path.map Frame.uid
  pending : ∀ frame ∈ path, ∀ v ∈ frame.pending, v ∈ dependencies frame.uid

variable {dependencies}

theorem Track.nil (fresh : UIDSet) : Track dependencies fresh ∅ [] :=
  ⟨.nil, List.nodup_nil, by simp, by simp, by simp⟩

theorem Track.leave {fresh active : UIDSet} {frame : Frame} {path : List Frame}
    (h : Track dependencies fresh active (frame :: path)) :
    Track dependencies fresh (active.erase frame.uid) path := by
  obtain ⟨hnew, hnodup⟩ := List.nodup_cons.mp h.nodup
  refine ⟨h.chain.tail, hnodup, fun u hu => h.entered u (List.mem_cons_of_mem _ hu), ?_,
    fun f hf => h.pending f (List.mem_cons_of_mem _ hf)⟩
  intro u
  rw [mem_erase_iff, h.active_iff, List.map_cons, List.mem_cons]
  constructor
  · rintro ⟨hne, hu⟩
    exact hu.resolve_left hne
  · intro hu
    refine ⟨?_, .inr hu⟩
    rintro rfl
    exact hnew hu

/-- Following the first pending dependency leaves the rest pending. -/
theorem Track.advance {fresh active : UIDSet} {uid next : UID} {pending : List UID}
    {path : List Frame} (h : Track dependencies fresh active (⟨uid, next :: pending⟩ :: path)) :
    Track dependencies fresh active (⟨uid, pending⟩ :: path) := by
  refine ⟨h.chain, h.nodup, h.entered, h.active_iff, ?_⟩
  intro frame hframe v hv
  rcases List.mem_cons.mp hframe with rfl | hframe
  · exact h.pending _ List.mem_cons_self v (List.mem_cons_of_mem _ hv)
  · exact h.pending frame (List.mem_cons_of_mem _ hframe) v hv

/-- Entering a fresh node that the newest one depends on. -/
theorem Track.enter {fresh active : UIDSet} {next : UID} {path : List Frame}
    (h : Track dependencies fresh active path) (hnext : next ∈ fresh)
    (hlink : ∀ u ∈ (path.map Frame.uid).head?, next ∈ dependencies u) :
    Track dependencies (fresh.erase next) (active.insert next)
      (⟨next, dependencies next⟩ :: path) := by
  refine ⟨h.chain.cons hlink, List.nodup_cons.mpr ⟨fun hmem => h.entered next hmem hnext, h.nodup⟩,
    ?_, ?_, ?_⟩
  · intro u hu
    rw [mem_erase_iff, not_and]
    intro hne
    rcases List.mem_cons.mp hu with heq | hu
    · exact absurd heq hne
    · exact h.entered u hu
  · intro u
    rw [Std.TreeSet.mem_insert, Std.LawfulEqCmp.compare_eq_iff_eq, h.active_iff, List.map_cons,
      List.mem_cons, @eq_comm _ next u]
  · intro frame hframe v hv
    rcases List.mem_cons.mp hframe with rfl | hframe
    · exact hv
    · exact h.pending frame hframe v hv

/-- The dependency that comes next is one of the newest node. -/
theorem Track.link {fresh active : UIDSet} {uid next : UID} {pending : List UID}
    {path : List Frame} (h : Track dependencies fresh active (⟨uid, next :: pending⟩ :: path)) :
    ∀ u ∈ ((⟨uid, next :: pending⟩ :: path : List Frame).map Frame.uid).head?,
      next ∈ dependencies u := by
  intro u hu
  obtain rfl : uid = u := by simpa using hu
  exact h.pending _ List.mem_cons_self next List.mem_cons_self

theorem Track.goes {s t : Search} (h : Track dependencies s.fresh s.active s.path)
    (hgoes : Goes dependencies s t) : Track dependencies t.fresh t.active t.path := by
  cases hgoes with
  | start hroot => exact h.enter hroot (by simp)
  | skip _ => exact h
  | leave => exact h.leave
  | enter hnext => exact h.advance.enter hnext h.link
  | pass _ _ => exact h.advance

theorem Track.comes {s t : Search} (h : Track dependencies s.fresh s.active s.path)
    (hcomes : Comes dependencies s t) : Track dependencies t.fresh t.active t.path := by
  induction hcomes with
  | refl => exact h
  | tail _ hstep ih => exact ih.goes (goes_of_step hstep)

/-! ## A path found -/

/-- A node on a path has its place there, behind what is older. -/
theorem place?_eq_some {uid : UID} {path : List Frame} (hmem : uid ∈ path.map Frame.uid) :
    ∃ front back, path.reverse.map Frame.uid = front ++ uid :: back ∧
      place? uid path = some front.length := by
  have hmem' : uid ∈ path.reverse.map Frame.uid := by
    rw [List.map_reverse]
    exact List.mem_reverse.mpr hmem
  obtain ⟨front, back, hsplit, hnew⟩ := List.eq_append_cons_of_mem hmem'
  have hfront : front.findIdx? (· == uid) = none := by
    rw [List.findIdx?_eq_none_iff]
    intro u hu
    exact beq_false_of_ne fun heq => hnew (heq ▸ hu)
  refine ⟨front, back, hsplit, ?_⟩
  calc place? uid path
      = (path.reverse.map Frame.uid).findIdx? (· == uid) := by
        rw [List.findIdx?_map]
        rfl
    _ = some front.length := by
        rw [hsplit, List.findIdx?_append, hfront, List.findIdx?_cons]
        simp

/-- The path from an active dependency on, closed, is a cycle. -/
theorem isCycle_close {fresh active : UIDSet} {uid next : UID} {pending : List UID}
    {path : List Frame} (h : Track dependencies fresh active (⟨uid, next :: pending⟩ :: path))
    (hactive : next ∈ active) :
    IsCycle (Reach.Step dependencies) (close next (⟨uid, next :: pending⟩ :: path)) := by
  obtain ⟨front, back, hsplit, hplace⟩ := place?_eq_some ((h.active_iff next).mp hactive)
  have hclose : close next (⟨uid, next :: pending⟩ :: path) = (next :: back) ++ [next] := by
    rw [close, hplace, hsplit, Option.getD_some, List.drop_left]
  rw [List.map_reverse] at hsplit
  have hsuffix : next :: back <:+ ((⟨uid, next :: pending⟩ :: path : List Frame).map Frame.uid).reverse :=
    ⟨front, hsplit.symm⟩
  rw [hclose]
  refine ⟨⟨next, back, rfl, hsuffix.sublist.nodup (List.nodup_reverse.mpr h.nodup)⟩, ?_⟩
  refine List.IsChain.append ((List.isChain_reverse.mpr h.chain).suffix hsuffix) (.singleton next) ?_
  -- the last node of the closed part is the newest of the path
  intro u hu v hv
  obtain rfl : next = v := by simpa using hv
  refine h.link u ?_
  rw [← List.getLast?_reverse, hsplit, List.getLast?_append_of_ne_nil _ (List.cons_ne_nil _ _)]
  exact hu

/-- A cycle leads from its first element back to it. -/
theorem IsCycle.transGen {r : UID → UID → Prop} {path : List UID} (h : IsCycle r path) :
    ∃ u, Relation.TransGen r u u := by
  obtain ⟨⟨u, inner, rfl, _⟩, hchain⟩ := h
  refine ⟨u, ?_⟩
  have hstep : ∀ (v : UID) (rest : List UID), (v :: (rest ++ [u])).IsChain r →
      Relation.TransGen r v u := by
    intro v rest
    induction rest generalizing v with
    | nil => exact fun hc => .single (List.isChain_cons_cons.mp hc).1
    | cons w rest ih =>
        intro hc
        obtain ⟨hvw, hc⟩ := List.isChain_cons_cons.mp hc
        exact .head hvw (ih w hc)
  exact hstep u inner hchain

/-- All of a cycle has what every UID has that another one leads to. -/
theorem IsCycle.forall_mem {r : UID → UID → Prop} {path : List UID} (h : IsCycle r path)
    {p : UID → Prop} (hp : ∀ u v, r u v → p v) : ∀ u ∈ path, p u := by
  have htail : ∀ (v : UID) (rest : List UID), (v :: rest).IsChain r → ∀ w ∈ rest, p w := by
    intro v rest
    induction rest generalizing v with
    | nil => simp
    | cons w rest ih =>
        intro hc
        obtain ⟨hvw, hc⟩ := List.isChain_cons_cons.mp hc
        exact List.forall_mem_cons.mpr ⟨hp v w hvw, ih w hc⟩
  obtain ⟨⟨u, inner, rfl, _⟩, hchain⟩ := h
  have hrest := htail u (inner ++ [u]) hchain
  -- the first UID is the last one too
  exact List.forall_mem_cons.mpr ⟨hrest u (by simp), hrest⟩

/-! ## Nothing found -/

variable (dependencies)

/-- Every chain of dependencies from `u` comes to an end. -/
abbrev Settled (u : UID) : Prop := Acc (fun v u => Reach.Step dependencies u v) u

/-- Along the path, newest first, every dependency is pending, settled, or the node that the
search has gone on to. -/
def Explored : Option UID → List Frame → Prop
  | _, [] => True
  | newer, frame :: path =>
      (∀ v ∈ dependencies frame.uid, v ∈ frame.pending ∨ Settled dependencies v ∨ newer = some v) ∧
        Explored (some frame.uid) path

/-- Once the newest node is settled, the older ones wait for it no longer. -/
theorem Explored.of_settled {u : UID} {path : List Frame} (hu : Settled dependencies u)
    (h : Explored dependencies (some u) path) : Explored dependencies none path := by
  cases path with
  | nil => trivial
  | cons frame path =>
      refine ⟨?_, h.2⟩
      intro v hv
      rcases h.1 v hv with hpending | hsettled | hnewer
      · exact Or.inl hpending
      · exact Or.inr (Or.inl hsettled)
      · rw [← Option.some.inj hnewer]
        exact Or.inr (Or.inl hu)

/-- No chain of dependencies leads from a settled UID back to it. -/
theorem Settled.no_return {u : UID} (h : Settled dependencies u) :
    ¬ Relation.TransGen (Reach.Step dependencies) u u := by
  induction h with
  | intro u _ ih =>
      intro hcycle
      obtain ⟨v, huv, hvu⟩ := Relation.TransGen.head'_iff.mp hcycle
      exact ih v huv (Relation.TransGen.tail' hvu huv)

/-- What the search has behind it: all that is not fresh and not on the path is settled, and what
is fresh is ahead. -/
structure Swept (s : Search) : Prop where
  ahead : ∀ u ∈ s.fresh, u ∈ s.roots
  settled : ∀ u, u ∉ s.fresh → u ∉ s.path.map Frame.uid → Settled dependencies u
  explored : Explored dependencies none s.path

variable {dependencies}

theorem Swept.goes {s t : Search} (h : Swept dependencies s)
    (htrack : Track dependencies s.fresh s.active s.path) (hgoes : Goes dependencies s t) :
    Swept dependencies t := by
  obtain ⟨hahead, hsettled, hexplored⟩ := h
  cases hgoes with
  | start hroot =>
      refine ⟨?_, ?_, fun v hv => .inl hv, trivial⟩
      · intro u hu
        obtain ⟨hne, hu⟩ := (mem_erase_iff _ _ _).mp hu
        exact (List.mem_cons.mp (hahead u hu)).resolve_left hne
      · intro u hfresh hne
        refine hsettled u ?_ List.not_mem_nil
        intro hmem
        exact hfresh ((mem_erase_iff _ _ _).mpr ⟨by simpa using hne, hmem⟩)
  | skip hroot =>
      refine ⟨?_, hsettled, trivial⟩
      intro u hu
      refine (List.mem_cons.mp (hahead u hu)).resolve_left ?_
      rintro rfl
      exact hroot hu
  | @leave _ _ uid path _ =>
      -- nothing is pending, so the newest node is settled by its dependencies
      have huid : Settled dependencies uid := by
        refine Acc.intro uid ?_
        intro v hv
        rcases hexplored.1 v hv with hpending | hv | hnewer
        · cases hpending
        · exact hv
        · cases hnewer
      refine ⟨hahead, ?_, hexplored.2.of_settled _ huid⟩
      intro u hfresh hmem
      by_cases heq : u = uid
      · rw [heq]; exact huid
      · exact hsettled u hfresh (by simpa [heq] using hmem)
  | enter hnext =>
      refine ⟨?_, ?_, fun v hv => .inl hv, ?_, hexplored.2⟩
      · intro u hu
        exact hahead u ((mem_erase_iff _ _ _).mp hu).2
      · intro u hfresh hmem
        simp only [List.map_cons, List.mem_cons, not_or] at hmem
        refine hsettled u ?_ (by simpa using hmem.2)
        intro hin
        exact hfresh ((mem_erase_iff _ _ _).mpr ⟨hmem.1, hin⟩)
      · intro v hv
        rcases hexplored.1 v hv with hpending | hv | hnewer
        · rcases List.mem_cons.mp hpending with rfl | hpending
          · exact .inr (.inr rfl)
          · exact .inl hpending
        · exact .inr (.inl hv)
        · cases hnewer
  | @pass _ _ _ next _ _ _ hnext hactive =>
      -- neither fresh nor active, so not on the path: the dependency was settled earlier
      have hdone : Settled dependencies next :=
        hsettled next hnext fun hmem => hactive ((htrack.active_iff next).mpr hmem)
      refine ⟨hahead, hsettled, ?_, hexplored.2⟩
      intro v hv
      rcases hexplored.1 v hv with hpending | hv | hnewer
      · rcases List.mem_cons.mp hpending with rfl | hpending
        · exact .inr (.inl hdone)
        · exact .inl hpending
      · exact .inr (.inl hv)
      · cases hnewer

theorem Swept.comes {s t : Search} (h : Swept dependencies s)
    (htrack : Track dependencies s.fresh s.active s.path) (hcomes : Comes dependencies s t) :
    Swept dependencies t := by
  induction hcomes with
  | refl => exact h
  | tail hcomes hstep ih => exact ih.goes (htrack.comes hcomes) (goes_of_step hstep)

/-! ## The outcome -/

/-- Whatever path the search returns is a cycle. -/
theorem isCycle_of_run_eq_some {s : Search} {found : List UID}
    (htrack : Track dependencies s.fresh s.active s.path) (hrun : s.run dependencies = some found) :
    IsCycle (Reach.Step dependencies) found := by
  obtain ⟨last, hcomes, hover⟩ := exists_last dependencies s
  have hlast := htrack.comes hcomes
  rw [hrun] at hover
  rcases step_eq_over hover with ⟨_, _, hnone⟩ | ⟨_, _, _, _, hpath, hactive, hfound⟩
  · cases hnone
  · obtain rfl := Option.some.inj hfound
    rw [hpath] at hlast ⊢
    exact isCycle_close hlast hactive

/-- If the search finds nothing, it has settled everything. -/
theorem settled_of_run_eq_none {s : Search} (htrack : Track dependencies s.fresh s.active s.path)
    (h : Swept dependencies s) (hrun : s.run dependencies = none) (u : UID) :
    Settled dependencies u := by
  obtain ⟨last, hcomes, hover⟩ := exists_last dependencies s
  have hlast := h.comes htrack hcomes
  rw [hrun] at hover
  rcases step_eq_over hover with ⟨hpath, hroots, _⟩ | ⟨_, _, _, _, _, _, hfound⟩
  · refine hlast.settled u ?_ (by simp [hpath])
    intro hfresh
    have hmem := hlast.ahead u hfresh
    rw [hroots] at hmem
    cases hmem
  · cases hfound

end Cycle

namespace Graph

theorem track_start (g : Graph) : Cycle.Track g.wiring.dependencies
    (Cycle.Search.start g.wiring.uids).fresh (Cycle.Search.start g.wiring.uids).active [] :=
  .nil _

/-- What the graph lacks has no dependencies. -/
theorem swept_start (g : Graph) :
    Cycle.Swept g.wiring.dependencies (.start g.wiring.uids) := by
  refine ⟨fun u hu => (mem_setOf_iff _ _).mp hu, ?_, trivial⟩
  intro u hu _
  refine Acc.intro u fun v hv => ?_
  have hrefers := (mem_dependencies g u v).mp hv
  exact absurd ((mem_setOf_iff _ _).mpr ((mem_wiring_uids g u).mpr hrefers.left_mem)) hu

/-- What the search returns is a cycle of references. -/
theorem isCycle_of_cycle? {g : Graph} {path : List UID} (h : g.cycle? = some path) :
    Cycle.IsCycle g.Refers path := by
  rw [← step_eq_refers]
  exact Cycle.isCycle_of_run_eq_some g.track_start h

/-- A graph in which the search finds nothing has only chains of references that end. -/
theorem settled_of_cycle?_eq_none {g : Graph} (h : g.cycle? = none) (u : UID) :
    Cycle.Settled g.wiring.dependencies u :=
  Cycle.settled_of_run_eq_none g.track_start g.swept_start h u

theorem cycle?_eq_none_iff (g : Graph) : g.cycle? = none ↔ g.Acyclic := by
  constructor
  · intro h u hcycle
    rw [← step_eq_refers] at hcycle
    exact Cycle.Settled.no_return _ (settled_of_cycle?_eq_none h u) hcycle
  · intro h
    cases hc : g.cycle? with
    | none => rfl
    | some path =>
        obtain ⟨u, hu⟩ := (isCycle_of_cycle? hc).transGen
        exact absurd hu (h u)

/-! ## The main result -/

/-- The search for a cycle of the graph comes to `s`. -/
def SearchComes (g : Graph) (s : Cycle.Search) : Prop :=
  Cycle.Comes g.wiring.dependencies (.start g.wiring.uids) s

/-- No cycle is found exactly if no references lead from a node back to it. A path that is found
ends where it begins, repeats nothing else, and holds nodes of the graph that refer to each
other in turn. The search comes to an end, and wherever it meets an active dependency it finds it on
its path. -/
theorem cycle_search_exact (g : Graph) :
    (g.cycle? = none ↔ ¬ ∃ u, Relation.TransGen g.Refers u u) ∧
    (∀ path, g.cycle? = some path →
      2 ≤ path.length ∧ path.head? = path.getLast? ∧ path.dropLast.Nodup ∧
      (∀ u ∈ path, u ∈ g.uids) ∧
      path.IsChain fun u v => ∃ n s, g.node? u = some n ∧ s ∈ n.slots ∧ s.signal = .node v) ∧
    (∃ last, g.SearchComes last ∧ last.step g.wiring.dependencies = .over g.cycle?) ∧
    (∀ s uid next pending path, g.SearchComes s → s.path = ⟨uid, next :: pending⟩ :: path →
      next ∈ s.active → ∃ i, Cycle.place? next s.path = some i) := by
  refine ⟨?_, ?_, Cycle.exists_last _ _, ?_⟩
  · rw [cycle?_eq_none_iff, Acyclic, not_exists]
  · intro path hpath
    obtain ⟨⟨u, inner, rfl, hnodup⟩, hchain⟩ := isCycle_of_cycle? hpath
    refine ⟨by simp, ?_, ?_, ?_, ?_⟩
    · rw [← List.cons_append, List.getLast?_concat, List.cons_append, List.head?_cons]
    · rw [← List.cons_append, List.dropLast_concat]
      exact hnodup
    · exact (isCycle_of_cycle? hpath).forall_mem fun _ _ => Refers.right_mem
    · refine hchain.imp ?_
      rintro v w ⟨n, hn, hw, _⟩
      obtain ⟨s, hs, hsignal⟩ := (mem_targets_iff n w).mp hw
      exact ⟨n, s, hn, hs, hsignal⟩
  · intro s uid next pending path hcomes _ hactive
    have htrack := Cycle.Track.comes g.track_start hcomes
    obtain ⟨front, _, _, hplace⟩ := Cycle.place?_eq_some ((htrack.active_iff next).mp hactive)
    exact ⟨front.length, hplace⟩

/-- Node 0 refers to node 1 twice, and node 1 to itself and to a node that is not there. -/
def tangle : Graph :=
  [Edit.add (.math .add), .add (.math .add), .setInput 0 0 (.node 1), .setInput 0 1 (.node 1),
    .setInput 1 0 (.node 9), .setInput 1 1 (.node 1)].foldl after (.empty "Tangle")

/-- A cycle is found, and not through the node that is missing. -/
theorem cycle_search_exact_tangle : ∃ path, tangle.cycle? = some path ∧ 2 ≤ path.length ∧
    path.head? = path.getLast? ∧ path.dropLast.Nodup ∧ 9 ∉ path := by
  have hself : tangle.Refers 1 1 := ⟨_, rfl, by decide, by decide⟩
  obtain ⟨hnone, hfound, _, _⟩ := cycle_search_exact tangle
  cases hpath : tangle.cycle? with
  | none => exact absurd ⟨1, .single hself⟩ (hnone.mp hpath)
  | some path =>
      obtain ⟨hlength, hends, hnodup, hpresent, _⟩ := hfound path hpath
      have habsent : 9 ∉ tangle.uids := by decide
      exact ⟨path, rfl, hlength, hends, hnodup, fun hmem => habsent (hpresent 9 hmem)⟩

end Graph

end NoiseShader
