import NoiseShader.Proofs.Removal

set_option autoImplicit false

/-! # What a removal rewrites and reports

A removal resets the references to the node that goes and leaves everything else as it was
(`Graph.Detaches`). It reports the places outside the node that it reset: each once, slots by node
and index, and the output last (`Site.Before`). The report is sorted by `Site.le`, and no place is
found twice, because no two nodes share a UID.
-/

namespace NoiseShader

/-! ## The order of sites -/

namespace Site

/-- One site comes before another: slots by node, then by index, and the output after them. -/
inductive Before : Site → Site → Prop
  | node {u v : UID} {i j : Nat} (h : u < v) : Before (.slot u i) (.slot v j)
  | index {u : UID} {i j : Nat} (h : i < j) : Before (.slot u i) (.slot u j)
  | output {u : UID} {i : Nat} : Before (.slot u i) .output

theorem slot_le_slot_iff (u v : UID) (i j : Nat) :
    (slot u i).le (slot v j) = true ↔ u < v ∨ (u = v ∧ i ≤ j) := by
  simp [le]

theorem le_trans (a b c : Site) (hab : a.le b = true) (hbc : b.le c = true) : a.le c = true := by
  cases c with
  | output => cases a <;> rfl
  | slot w k =>
      cases b with
      | output => cases hbc
      | slot v j =>
          cases a with
          | output => cases hab
          | slot u i =>
              rw [slot_le_slot_iff] at hab hbc ⊢
              rcases hab with huv | ⟨rfl, hij⟩
              · rcases hbc with hvw | ⟨rfl, _⟩
                · exact .inl (UInt32.lt_trans huv hvw)
                · exact .inl huv
              · rcases hbc with huw | ⟨rfl, hjk⟩
                · exact .inl huw
                · exact .inr ⟨rfl, Nat.le_trans hij hjk⟩

theorem le_total (a b : Site) : (a.le b || b.le a) = true := by
  cases a with
  | output => cases b <;> rfl
  | slot u i =>
      cases b with
      | output => rfl
      | slot v j =>
          rw [Bool.or_eq_true, slot_le_slot_iff, slot_le_slot_iff]
          by_cases huv : u = v
          · rcases Nat.le_total i j with hij | hji
            · exact .inl (.inr ⟨huv, hij⟩)
            · exact .inr (.inr ⟨huv.symm, hji⟩)
          · rcases UInt32.lt_or_lt_of_ne huv with hlt | hgt
            · exact .inl (.inl hlt)
            · exact .inr (.inl hgt)

theorem before_of_le {a b : Site} (h : a.le b = true) (hne : a ≠ b) : a.Before b := by
  cases b with
  | output =>
      cases a with
      | output => exact absurd rfl hne
      | slot u i => exact .output
  | slot v j =>
      cases a with
      | output => cases h
      | slot u i =>
          rcases (slot_le_slot_iff u v i j).mp h with hlt | ⟨rfl, hle⟩
          · exact .node hlt
          · refine .index (Nat.lt_of_le_of_ne hle ?_)
            rintro rfl
            exact hne rfl

/-- Sorting what has no repetition leaves nothing equal side by side. -/
theorem pairwise_before_mergeSort {sites : List Site} (h : sites.Nodup) :
    (sites.mergeSort le).Pairwise Before := by
  have hsorted := List.pairwise_mergeSort le_trans le_total sites
  have hnodup : (sites.mergeSort le).Nodup := (List.mergeSort_perm sites le).nodup_iff.mpr h
  exact (hsorted.and hnodup).imp fun hab => before_of_le hab.1 hab.2

end Site

/-! ## The sites that are reported -/

namespace Node

theorem mem_sitesOf (n : Node) (uid : UID) (site : Site) : site ∈ n.sitesOf uid ↔
    ∃ i s, n.slots[i]? = some s ∧ s.signal = .node uid ∧ site = .slot n.uid i := by
  unfold sitesOf
  rw [List.mem_map]
  constructor
  · rintro ⟨⟨s, i⟩, hmem, rfl⟩
    obtain ⟨hs, href⟩ := List.mem_filter.mp hmem
    exact ⟨i, s, List.mem_zipIdx_iff_getElem?.mp hs, (Signal.refersTo_iff _ _).mp href, rfl⟩
  · rintro ⟨i, s, hs, hsignal, rfl⟩
    refine ⟨(s, i), List.mem_filter.mpr ⟨List.mem_zipIdx_iff_getElem?.mpr hs, ?_⟩, rfl⟩
    exact (Signal.refersTo_iff _ _).mpr hsignal

theorem sitesOf_nodup (n : Node) (uid : UID) : (n.sitesOf uid).Nodup := by
  unfold sitesOf
  rw [List.Nodup, List.pairwise_map]
  refine ((pairwise_zipIdx n.slots).filter _).imp ?_
  intro a b hab heq
  exact Nat.ne_of_lt hab (Site.slot.inj heq).2

end Node

namespace Graph

/-- The site is not in the node `uid` itself, and holds a reference to it. -/
def RefersAt (g : Graph) (uid : UID) : Site → Prop
  | .slot u i => u ≠ uid ∧ ∃ n s, g.node? u = some n ∧ n.slots[i]? = some s ∧ s.signal = .node uid
  | .output => g.output = .node uid

/-- The slots of other nodes that refer to `uid`, in the order in which they are come by. -/
def slotsReferringTo (g : Graph) (uid : UID) : List Site :=
  (g.nodes.filter fun n => n.uid != uid).flatMap fun n => n.sitesOf uid

theorem mem_slotsReferringTo {g : Graph} (hg : g.uids.Nodup) (uid : UID) (site : Site) :
    site ∈ g.slotsReferringTo uid ↔ site ≠ .output ∧ g.RefersAt uid site := by
  unfold slotsReferringTo
  simp only [List.mem_flatMap, List.mem_filter, Node.mem_sitesOf, bne_iff_ne]
  constructor
  · rintro ⟨n, ⟨hn, hne⟩, i, s, hs, hsignal, rfl⟩
    refine ⟨by simp, hne, n, s, ?_, hs, hsignal⟩
    exact (node?_eq_some_iff hg _ n).mpr ⟨hn, rfl⟩
  · rintro ⟨hslot, hrefers⟩
    cases site with
    | output => exact absurd rfl hslot
    | slot u i =>
        obtain ⟨hne, n, s, hn, hs, hsignal⟩ := hrefers
        obtain ⟨hmem, rfl⟩ := node?_eq_some hn
        exact ⟨n, ⟨hmem, hne⟩, i, s, hs, hsignal, rfl⟩

theorem slotsReferringTo_nodup {g : Graph} (hg : g.uids.Nodup) (uid : UID) :
    (g.slotsReferringTo uid).Nodup := by
  unfold slotsReferringTo
  rw [List.nodup_flatMap]
  refine ⟨fun n _ => n.sitesOf_nodup uid, ?_⟩
  have hnodes : g.nodes.Pairwise fun n m => n.uid ≠ m.uid := List.pairwise_map.mp hg
  refine (hnodes.filter _).imp ?_
  -- a site names its node, so different nodes have no site in common
  intro n m hne site hn hm
  obtain ⟨i, _, _, _, rfl⟩ := (n.mem_sitesOf uid site).mp hn
  obtain ⟨j, _, _, _, heq⟩ := (m.mem_sitesOf uid _).mp hm
  exact hne (Site.slot.inj heq).1

theorem mem_sitesOf_iff {g : Graph} (hg : g.uids.Nodup) (uid : UID) (site : Site) :
    site ∈ g.sitesOf uid ↔ g.RefersAt uid site := by
  show site ∈ (g.slotsReferringTo uid ++ _).mergeSort Site.le ↔ _
  rw [List.mem_mergeSort, List.mem_append, mem_slotsReferringTo hg]
  cases site with
  | slot u i => simp
  | output => simp [RefersAt, Signal.refersTo_iff]

theorem sitesOf_ordered {g : Graph} (hg : g.uids.Nodup) (uid : UID) :
    (g.sitesOf uid).Pairwise Site.Before := by
  show ((g.slotsReferringTo uid ++ _).mergeSort Site.le).Pairwise Site.Before
  refine Site.pairwise_before_mergeSort ?_
  by_cases h : g.output.refersTo uid = true
  · rw [if_pos h]
    refine (slotsReferringTo_nodup hg uid).append (List.nodup_singleton _) ?_
    intro site hslot houtput
    exact ((mem_slotsReferringTo hg uid site).mp hslot).1 (List.mem_singleton.mp houtput)
  · rw [if_neg h, List.append_nil]
    exact slotsReferringTo_nodup hg uid

end Graph

/-! ## What is rewritten -/

/-- The slot `t` is `s` with its declared value in place of a reference to `uid`. -/
structure Slot.Detaches (uid : UID) (s t : Slot) : Prop where
  name : t.name = s.name
  initial : t.initial = s.initial
  pinned : t.pinned = s.pinned
  signal : t.signal = if s.signal = .node uid then .constant s.initial else s.signal

/-- The node `m` is `n` with slots that are detached from `uid`. -/
structure Node.Detaches (uid : UID) (n m : Node) : Prop where
  uid_eq : m.uid = n.uid
  name : m.name = n.name
  kind : m.kind = n.kind
  slots : List.Forall₂ (Slot.Detaches uid) n.slots m.slots

theorem Slot.detaches_detached (uid : UID) (s : Slot) : s.Detaches uid (s.detached uid) := by
  have hrest : (s.detached uid).name = s.name ∧ (s.detached uid).initial = s.initial ∧
      (s.detached uid).pinned = s.pinned := by
    unfold detached
    split <;> exact ⟨rfl, rfl, rfl⟩
  refine ⟨hrest.1, hrest.2.1, hrest.2.2, ?_⟩
  rcases signal_detached_cases uid s with ⟨hother, heq⟩ | ⟨hreference, heq⟩
  · rw [heq, if_neg hother]
  · rw [heq, if_pos hreference]

theorem Node.detaches_detached (uid : UID) (n : Node) : n.Detaches uid (n.detached uid) := by
  refine ⟨rfl, rfl, rfl, ?_⟩
  show List.Forall₂ (Slot.Detaches uid) n.slots (n.slots.map (Slot.detached uid))
  rw [List.forall₂_map_right_iff, List.forall₂_same]
  exact fun s _ => s.detaches_detached uid

namespace Graph

/-- What a removal of `uid` from `g` does, and nothing else. -/
structure Detaches (g : Graph) (uid : UID) (r : Removal) : Prop where
  /-- The node is handed out as it was. -/
  node : g.node? uid = some r.node
  /-- The other nodes keep their order, and lose their references to the node. -/
  others : List.Forall₂ (Node.Detaches uid) (g.nodes.filter fun n => n.uid ≠ uid) r.graph.nodes
  output : r.graph.output = if g.output = .node uid then .constant Binary32.zero else g.output
  name : r.graph.name = g.name
  nextUID : r.graph.nextUID = g.nextUID
  /-- The declared values are those of the kinds. -/
  fits : ∀ n ∈ r.graph.nodes, n.slots.map Slot.spec = n.kind.slots
  /-- No reference to the node is left. -/
  slots_ne : ∀ n ∈ r.graph.nodes, ∀ s ∈ n.slots, s.signal ≠ .node uid
  output_ne : r.graph.output ≠ .node uid
  ordered : r.resetSites.Pairwise Site.Before
  mem_iff : ∀ site, site ∈ r.resetSites ↔ g.RefersAt uid site

theorem detaches_of_remove {g : Graph} (hg : g.WellFormed) {uid : UID} {r : Removal}
    (hr : g.remove uid = .ok r) : g.Detaches uid r := by
  have hremoves := removes_of_remove hr
  have hwf := wellFormed_remove hg hr
  unfold remove at hr
  split at hr
  · cases hr
  · next n hn =>
      obtain rfl := Except.ok.inj hr
      refine ⟨hn, ?_, hremoves.output_eq, rfl, rfl, hwf.fits, ?_, ?_, sitesOf_ordered hg.nodup uid,
        mem_sitesOf_iff hg.nodup uid⟩
      · show List.Forall₂ _ _ ((g.nodes.filter fun m => m.uid != uid).map (Node.detached uid))
        simp only [bne, beq_eq_decide, ne_eq, decide_not]
        rw [List.forall₂_map_right_iff, List.forall₂_same]
        exact fun m _ => m.detaches_detached uid
      · intro m hm s hs heq
        obtain ⟨m, _, rfl⟩ := List.mem_map.mp hm
        obtain ⟨s, _, rfl⟩ := List.mem_map.mp hs
        exact (Slot.signal_of_detached_node heq).2 rfl
      · intro heq
        exact (hremoves.output_of_node heq).2 rfl

theorem remove_of_notMem {g : Graph} {uid : UID} (h : uid ∉ g.uids) :
    g.remove uid = .error (.nodeNotFound uid) := by
  rw [remove, (node?_eq_none_iff g uid).mpr h]

/-- A node that is not there cannot be removed, and nothing changes. One that is there is removed,
with every reference to it and nothing else rewritten, and the rewritten places reported. -/
theorem removal_detaches_or_changes_nothing {g : Graph} (hg : g.Built) (uid : UID) :
    (uid ∉ g.uids → g.remove uid = .error (.nodeNotFound uid) ∧ g.after (.remove uid) = g) ∧
    (uid ∈ g.uids → ∃ r, g.remove uid = .ok r ∧ g.after (.remove uid) = r.graph ∧
      g.Detaches uid r) := by
  constructor
  · intro habsent
    have herror := remove_of_notMem habsent
    refine ⟨herror, ?_⟩
    rw [after, apply, herror]
    rfl
  · intro hpresent
    obtain ⟨r, hr⟩ := exists_removal hpresent
    refine ⟨r, hr, ?_, detaches_of_remove hg.wellFormed hr⟩
    rw [after, apply, hr]
    rfl

/-- Node 1 feeds the output, both slots of node 0, one of node 2, and itself. -/
def hub : Graph :=
  [Edit.add (.math .multiply), .add (.math .sin), .add (.math .add), .setInput 2 1 (.node 1),
    .setInput 0 0 (.node 1), .setInput 0 1 (.node 1), .setPinned 0 1 true, .setInput 1 0 (.node 1),
    .setInput 2 0 (.node 0), .setOutput (.node 1)].foldl after (.empty "Hub")

/-- The reference of the node to itself is not reported. -/
theorem removal_detaches_or_changes_nothing_hub : hub.Built ∧
    (9 ∉ hub.uids ∧ hub.remove 9 = .error (.nodeNotFound 9)) ∧
    1 ∈ hub.uids ∧ ∃ r, hub.remove 1 = .ok r ∧ .slot 2 1 ∈ r.resetSites ∧ .output ∈ r.resetSites ∧
      .slot 1 0 ∉ r.resetSites ∧ .slot 2 0 ∉ r.resetSites := by
  have hbuilt : hub.Built := (Built.empty "Hub").edits _
  have habsent : 9 ∉ hub.uids := by decide
  have hpresent : 1 ∈ hub.uids := by decide
  obtain ⟨r, hr, _, hdetaches⟩ := (removal_detaches_or_changes_nothing hbuilt 1).2 hpresent
  refine ⟨hbuilt, ⟨habsent, ((removal_detaches_or_changes_nothing hbuilt 9).1 habsent).1⟩,
    hpresent, r, hr, ?_, ?_, ?_, ?_⟩
  · exact (hdetaches.mem_iff _).mpr ⟨by decide, _, _, rfl, rfl, rfl⟩
  · exact (hdetaches.mem_iff _).mpr rfl
  · intro hmem
    exact ((hdetaches.mem_iff _).mp hmem).1 rfl
  · intro hmem
    obtain ⟨_, n, s, hn, hs, hsignal⟩ := (hdetaches.mem_iff _).mp hmem
    obtain rfl := Option.some.inj hn
    obtain rfl := Option.some.inj hs
    cases hsignal

end Graph

end NoiseShader
