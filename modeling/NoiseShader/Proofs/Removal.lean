import NoiseShader.Proofs.Exposure

set_option autoImplicit false

/-! # Removing a node

A removal takes a node away and detaches every slot that named it. What is left refers to less and
reaches less (`Graph.Removes.refers`, `Graph.Removes.reaches`), and the values that detached slots
go back to are finite (`Kind.isFinite_initial`). So nothing that compiles stops compiling
(`Graph.removal_keeps_compiling`).
-/

namespace NoiseShader

/-! ## Detached slots -/

/-- The slot, with its declared value in place of a reference to `uid`. -/
def Slot.detached (uid : UID) (s : Slot) : Slot := if s.signal.refersTo uid then s.reset else s

/-- The node with every reference to `uid` reset. -/
def Node.detached (uid : UID) (n : Node) : Node := { n with slots := Slot.detach uid n.slots }

theorem Signal.refersTo_iff (s : Signal) (uid : UID) : s.refersTo uid = true ↔ s = .node uid := by
  cases s with
  | constant x => simp [refersTo, target?]
  | node v => simp [refersTo, target?]

namespace Slot

variable {uid : UID} {s : Slot}

/-- A detached slot has its own signal, or the declared value in place of a reference to `uid`. -/
theorem signal_detached_cases (uid : UID) (s : Slot) :
    (s.signal ≠ .node uid ∧ (s.detached uid).signal = s.signal) ∨
      (s.signal = .node uid ∧ (s.detached uid).signal = .constant s.initial) := by
  unfold detached
  by_cases h : s.signal.refersTo uid = true
  · rw [if_pos h]
    exact .inr ⟨(Signal.refersTo_iff _ _).mp h, rfl⟩
  · rw [if_neg h]
    exact .inl ⟨fun heq => h ((Signal.refersTo_iff _ _).mpr heq), rfl⟩

theorem signal_of_detached_node {v : UID} (h : (s.detached uid).signal = .node v) :
    s.signal = .node v ∧ v ≠ uid := by
  rcases signal_detached_cases uid s with ⟨hne, heq⟩ | ⟨_, heq⟩
  · rw [heq] at h
    refine ⟨h, ?_⟩
    rintro rfl
    exact hne h
  · rw [heq] at h
    cases h

theorem signal_of_detached_constant {x : Binary32} (h : (s.detached uid).signal = .constant x) :
    s.signal = .constant x ∨ x = s.initial := by
  rcases signal_detached_cases uid s with ⟨_, heq⟩ | ⟨_, heq⟩
  · rw [heq] at h
    exact .inl h
  · rw [heq] at h
    exact .inr (Signal.constant.inj h).symm

end Slot

namespace Node

theorem getElem?_detached (uid : UID) (n : Node) (i : Nat) :
    (n.detached uid).slots[i]? = n.slots[i]?.map (Slot.detached uid) :=
  List.getElem?_map

theorem mem_targets_detached {uid v : UID} {n : Node} (h : v ∈ (n.detached uid).targets) :
    v ∈ n.targets ∧ v ≠ uid := by
  obtain ⟨t, ht, hsignal⟩ := (Graph.mem_targets_iff _ v).mp h
  obtain ⟨s, hs, rfl⟩ := List.mem_map.mp ht
  obtain ⟨hsignal, hne⟩ := Slot.signal_of_detached_node hsignal
  exact ⟨(Graph.mem_targets_iff n v).mpr ⟨s, hs, hsignal⟩, hne⟩

end Node

/-! ## Declared values -/

/-- Whatever a kind declares for a slot is a finite number. -/
theorem Kind.isFinite_initial (kind : Kind) :
    (kind.slots.all fun spec => spec.initial.isFinite) = true := by
  cases kind with
  | noise noise =>
      -- the formulas have no bearing on the slots
      show ((Noise.slots ⟨noise.family, noise.dimension, .standard⟩).all
        fun spec => spec.initial.isFinite) = true
      cases noise.family <;> cases noise.dimension <;> decide
  | math op => cases op <;> decide
  | coordinate axis => rfl

theorem Node.Fits.isFinite_initial {n : Node} (h : n.Fits) {s : Slot} (hs : s ∈ n.slots) :
    s.initial.isFinite = true := by
  have hspec : s.spec ∈ n.kind.slots := by
    rw [← h]
    exact List.mem_map_of_mem hs
  exact List.all_eq_true.mp n.kind.isFinite_initial s.spec hspec

/-- A clean node stays clean when a reference of it is reset. -/
theorem Node.Clean.detached {options : Options} {n : Node} (h : n.Clean options) (hfits : n.Fits)
    (uid : UID) : (n.detached uid).Clean options := by
  refine ⟨h.axis, h.formulas, ?_⟩
  intro i t x ht hsignal hunbound
  rw [getElem?_detached] at ht
  obtain ⟨s, hs, rfl⟩ := Option.map_eq_some_iff.mp ht
  rcases Slot.signal_of_detached_constant hsignal with hsignal | rfl
  · exact h.finite i s x hs hsignal hunbound
  · exact hfits.isFinite_initial (List.mem_of_getElem? hs)

/-! ## What is left of a graph -/

namespace Graph

/-- The graph `h` is `g` without the node `uid`: all others are there, detached from it. -/
structure Removes (g : Graph) (uid : UID) (h : Graph) : Prop where
  node?_eq : ∀ v, h.node? v = if v = uid then none else (g.node? v).map (Node.detached uid)
  output_eq : h.output = if g.output = .node uid then .zero else g.output

theorem find?_detached (uid v : UID) (nodes : List Node) :
    ((nodes.filter fun m => m.uid != uid).map (Node.detached uid)).find? (fun n => n.uid == v) =
      if v = uid then none else (nodes.find? fun n => n.uid == v).map (Node.detached uid) := by
  rw [List.find?_map, List.find?_filter]
  by_cases hv : v = uid
  · rw [if_pos hv, Option.map_eq_none_iff, List.find?_eq_none]
    intro n _
    simp only [Function.comp_apply, Node.detached, hv]
    simp
  · rw [if_neg hv]
    congr 2
    funext n
    by_cases hn : n.uid = v
    · simp [Node.detached, hn, hv]
    · simp [Node.detached, hn]

theorem removes_of_remove {g : Graph} {uid : UID} {r : Removal} (hr : g.remove uid = .ok r) :
    g.Removes uid r.graph := by
  unfold remove at hr
  split at hr
  · cases hr
  · obtain rfl := Except.ok.inj hr
    refine ⟨?_, ?_⟩
    · exact fun v => find?_detached uid v g.nodes
    · show (if g.output.refersTo uid = true then Signal.zero else g.output) = _
      simp only [Signal.refersTo_iff]

theorem exists_removal {g : Graph} {uid : UID} (h : uid ∈ g.uids) : ∃ r, g.remove uid = .ok r := by
  obtain ⟨n, hn⟩ := Option.isSome_iff_exists.mp ((node?_isSome_iff g uid).mpr h)
  exact ⟨_, by rw [remove, hn]⟩

section

variable {g h : Graph} {uid : UID}

theorem Removes.exists_of_node? (hr : g.Removes uid h) {v : UID} {m : Node}
    (hm : h.node? v = some m) : v ≠ uid ∧ ∃ n, g.node? v = some n ∧ m = n.detached uid := by
  rw [hr.node?_eq] at hm
  split at hm
  · cases hm
  · next hv =>
      obtain ⟨n, hn, rfl⟩ := Option.map_eq_some_iff.mp hm
      exact ⟨hv, n, hn, rfl⟩

theorem Removes.mem_uids_iff (hr : g.Removes uid h) (v : UID) :
    v ∈ h.uids ↔ v ∈ g.uids ∧ v ≠ uid := by
  rw [← node?_isSome_iff, ← node?_isSome_iff, hr.node?_eq]
  split <;> simp [*]

theorem Removes.output_of_node (hr : g.Removes uid h) {v : UID} (hv : h.output = .node v) :
    g.output = .node v ∧ v ≠ uid := by
  rw [hr.output_eq] at hv
  split at hv
  · cases hv
  · next hne =>
      refine ⟨hv, ?_⟩
      rintro rfl
      exact hne hv

/-! ## It refers to less -/

theorem Removes.refers (hr : g.Removes uid h) {u v : UID} (huv : h.Refers u v) :
    g.Refers u v ∧ u ≠ uid ∧ v ≠ uid := by
  obtain ⟨m, hm, htarget, hpresent⟩ := huv
  obtain ⟨hu, n, hn, rfl⟩ := hr.exists_of_node? hm
  obtain ⟨htarget, hv⟩ := Node.mem_targets_detached htarget
  exact ⟨⟨n, hn, htarget, ((hr.mem_uids_iff v).mp hpresent).1⟩, hu, hv⟩

theorem Removes.acyclic (hr : g.Removes uid h) (hg : g.Acyclic) : h.Acyclic := by
  intro u hpath
  exact hg u (Relation.TransGen.mono (fun _ _ hstep => (hr.refers hstep).1) _ _ hpath)

theorem Removes.reaches (hr : g.Removes uid h) {u : UID} (hu : h.Reaches u) :
    g.Reaches u ∧ u ≠ uid := by
  refine ⟨?_, ((hr.mem_uids_iff u).mp hu.mem).2⟩
  obtain ⟨root, hout, hroot, hpath⟩ := hu
  exact ⟨root, (hr.output_of_node hout).1, ((hr.mem_uids_iff root).mp hroot).1,
    Relation.ReflTransGen.mono (fun _ _ hstep => (hr.refers hstep).1) _ _ hpath⟩

/-- A loose end that is left was one before. -/
theorem Removes.looseAt (hr : g.Removes uid h) {u target : UID} {slot : Nat}
    (hloose : h.LooseAt u slot target) : g.LooseAt u slot target := by
  obtain ⟨m, t, hm, ht, hsignal, habsent⟩ := hloose
  obtain ⟨_, n, hn, rfl⟩ := hr.exists_of_node? hm
  rw [Node.getElem?_detached] at ht
  obtain ⟨s, hs, rfl⟩ := Option.map_eq_some_iff.mp ht
  obtain ⟨hsignal, hne⟩ := Slot.signal_of_detached_node hsignal
  refine ⟨n, s, hn, hs, hsignal, ?_⟩
  intro hpresent
  exact habsent ((hr.mem_uids_iff target).mpr ⟨hpresent, hne⟩)

/-! ## It still compiles -/

theorem Removes.compilable (hr : g.Removes uid h) (hfits : ∀ n ∈ g.nodes, n.Fits)
    {options : Options} (hg : g.Compilable options) : h.Compilable options := by
  refine ⟨?_, hr.acyclic hg.acyclic, ?_, ?_, ?_⟩
  · intro target htarget
    obtain ⟨houtput, hne⟩ := hr.output_of_node htarget
    exact (hr.mem_uids_iff target).mpr ⟨hg.output target houtput, hne⟩
  · intro u slot target hu hloose
    exact hg.tight u slot target (hr.reaches hu).1 (hr.looseAt hloose)
  · intro u m hu hm
    obtain ⟨_, n, hn, rfl⟩ := hr.exists_of_node? hm
    exact (hg.clean u n (hr.reaches hu).1 hn).detached (hfits n (node?_eq_some hn).1) uid
  · intro x hx
    rw [hr.output_eq] at hx
    split at hx
    · obtain rfl := Signal.constant.inj hx
      decide
    · exact hg.constant x hx

end

/-- Without a node, a graph that compiled compiles under the same options, and no node is emitted
that was not before; and a file that could be generated still can. -/
theorem removal_keeps_compiling {g : Graph} (hg : g.Built) {uid : UID} (huid : uid ∈ g.uids) :
    ∃ r, g.remove uid = .ok r ∧
      (∀ options p, g.compileWith options = .ok p → ∃ q, r.graph.compileWith options = .ok q ∧
        ∀ u ∈ q.order, u ∈ p.order ∧ u ≠ uid) ∧
      ∀ settings f, g.generate settings = .ok f → ∃ f', r.graph.generate settings = .ok f' := by
  obtain ⟨r, hr⟩ := exists_removal huid
  have hremoves := removes_of_remove hr
  have hfits := hg.wellFormed.fits
  have hfits' := (wellFormed_remove hg.wellFormed hr).fits
  refine ⟨r, hr, ?_, ?_⟩
  · intro options p hp
    have hcompilable := compilable_of_compileWith hp
    obtain ⟨q, hq⟩ := exists_program hfits' (hremoves.compilable hfits hcompilable)
    refine ⟨q, hq, ?_⟩
    intro u hu
    rw [mem_program_order hq] at hu
    rw [mem_program_order hp]
    exact hremoves.reaches hu
  · intro settings f hf
    rw [exists_file_iff hfits']
    exact hremoves.compilable hfits ((exists_file_iff hfits settings).mp ⟨f, hf⟩)

/-- The noise of the ramp is emitted, and no longer once it is removed. -/
theorem removal_keeps_compiling_ramp : ramp.Built ∧ 1 ∈ ramp.uids ∧
    ∃ r p q, ramp.remove 1 = .ok r ∧ ramp.compileWith {} = .ok p ∧
      r.graph.compileWith {} = .ok q ∧ ramp.Reaches 1 ∧ 1 ∉ q.order := by
  have hpresent : 1 ∈ ramp.uids := by decide
  obtain ⟨p, hp⟩ := exists_program ramp_built.wellFormed.fits ramp_compilable
  obtain ⟨r, hr, hcompile, _⟩ := removal_keeps_compiling ramp_built hpresent
  obtain ⟨q, hq, horder⟩ := hcompile {} p hp
  have hreached : ramp.Reaches 1 :=
    Reaches.step ⟨2, rfl, by decide, .refl⟩ ⟨_, rfl, by decide, by decide⟩
  exact ⟨ramp_built, hpresent, r, p, q, hr, hp, hq, hreached, fun hmem => (horder 1 hmem).2 rfl⟩

end Graph

end NoiseShader
