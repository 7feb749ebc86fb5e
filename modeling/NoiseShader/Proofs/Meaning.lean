import NoiseShader.Proofs.Denotation
import NoiseShader.Proofs.Representation

set_option autoImplicit false

/-! # Compilation keeps the meaning of a graph

The lines of a program are executed one after the other. `Evaluated` is what holds in between:
the variables declared so far are those of the nodes emitted so far, and have their values.
-/

namespace NoiseShader

open Shading

universe u

variable {V : Type u}

namespace Graph

/-! ## Variables of the nodes that were emitted -/

/-- Besides the seed, exactly the nodes in `done` have been declared, each with its value. -/
structure Evaluated (I : Interpretation V) (seed : V) (g : Graph) (done : List UID)
    (env : Environment V) : Prop where
  position : env.lookup "pos" = some seed
  value : ∀ u ∈ done, ∀ n, g.node? u = some n →
    ∃ v, env.lookup n.variableName = some v ∧ g.Denotes I seed (.node u) v
  name : ∀ x, env.lookup x ≠ none → x = "pos" ∨ ∃ n : Node, n.uid ∈ done ∧ x = n.variableName

section

variable {I : Interpretation V} {seed : V} {g : Graph} {done : List UID} {env : Environment V}

theorem lookup_cons_of_ne {x name : String} (h : x ≠ name) {v : V} {env : Environment V} :
    List.lookup x ((name, v) :: env) = env.lookup x := by
  have hbeq : (x == name) = false := by simpa using h
  rw [List.lookup_cons, hbeq]

/-- A name without an underscore is declared only if it is that of the seed. -/
theorem Evaluated.lookup_eq_none (h : g.Evaluated I seed done env) {x : String} (hpos : x ≠ "pos")
    (hx : '_' ∉ x.toList) : env.lookup x = none := by
  by_contra hsome
  rcases h.name x hsome with rfl | ⟨n, _, rfl⟩
  · exact hpos rfl
  · exact Node.variableName_ne hx rfl

theorem Evaluated.clear (h : g.Evaluated I seed done env) : Clear env := by
  intro f hf
  exact h.lookup_eq_none hf.2.2 hf.2.1

theorem Evaluated.lookup_helperName (h : g.Evaluated I seed done env) (uid : UID) :
    env.lookup (Noise.helperName uid) = none := by
  by_contra hsome
  rcases h.name _ hsome with hpos | ⟨n, _, hn⟩
  · have hunderscore : '_' ∈ (Noise.helperName uid).toList := by
      rw [Noise.toList_helperName]
      simp
    rw [hpos] at hunderscore
    exact absurd hunderscore (by decide)
  · exact n.variableName_ne_helperName uid hn.symm

theorem Evaluated.lookup_fresh (h : g.Evaluated I seed done env) {n : Node} (hn : n.uid ∉ done) :
    env.lookup n.variableName = none := by
  by_contra hsome
  rcases h.name _ hsome with hpos | ⟨m, hm, hname⟩
  · exact Node.variableName_ne (by decide) hpos
  · rw [Node.variableName_injective hname] at hn
    exact hn hm

/-! ## One statement -/

/-- What stands for a signal has its value, once what it names has been declared. -/
theorem Evaluated.means_signal (h : g.Evaluated I seed done env) {uid : UID} {i : Nat}
    {s : Signal} {e : Expr} (hs : ∀ v, s = .node v → v ∈ done)
    (hr : g.Resolves .empty uid i s e) : ∃ v, g.Denotes I seed s v ∧ e.Means I env v := by
  cases hr with
  | bound hbound => cases hbound
  | @literal x text _ htext =>
      exact ⟨I.constant x, .constant (literal?_eq_some htext).1, Expr.means_constant htext⟩
  | @node target n hn =>
      obtain ⟨v, hv, hdenotes⟩ := h.value target (hs target rfl) n hn
      exact ⟨v, hdenotes, Expr.means_variable n.isWord_variableName hv⟩

/-- As slots have distinct names, their values can be given by name. -/
theorem exists_slot_values {P : Slot → Expr → V → Prop} {slots : List Slot} {es : List Expr}
    (any : V) (hnames : (slots.map Slot.name).Nodup)
    (h : List.Forall₂ (fun s e => ∃ v, P s e v) slots es) :
    ∃ slot : String → V, List.Forall₂ (fun s e => P s e (slot s.name)) slots es := by
  induction h with
  | nil => exact ⟨fun _ => any, .nil⟩
  | @cons s e slots es hv _ ih =>
      obtain ⟨v, hv⟩ := hv
      rw [List.map_cons, List.nodup_cons] at hnames
      obtain ⟨slot, hslot⟩ := ih hnames.2
      have hother : ∀ t ∈ slots, t.name ≠ s.name := by
        intro t ht heq
        exact hnames.1 (heq ▸ List.mem_map.mpr ⟨t, ht, rfl⟩)
      refine ⟨fun x => if x = s.name then v else slot x, .cons (by simpa using hv) ?_⟩
      refine ((List.forall₂_and_left slots es).mpr ⟨hother, hslot⟩).imp ?_
      rintro t f ⟨hne, ht⟩
      simpa [hne] using ht

theorem Inputs.forall₂ {bindings : Bindings} {n : Node} {inputs : List Expr}
    (h : g.Inputs bindings n inputs) :
    List.Forall₂ (fun s e => s ∈ n.slots ∧ ∃ i, g.Resolves bindings n.uid i s.signal e)
      n.slots inputs := by
  rw [List.forall₂_iff_get]
  refine ⟨h.length_eq.symm, ?_⟩
  intro i hi hi'
  refine ⟨List.get_mem _ _, i, h.resolves i _ _ ?_ ?_⟩
  · exact List.getElem?_eq_getElem hi
  · exact List.getElem?_eq_getElem hi'

/-- Another node is declared. -/
theorem Evaluated.declare (h : g.Evaluated I seed done env) {n : Node}
    (hn : g.node? n.uid = some n) (hnew : n.uid ∉ done) {v : V}
    (hv : g.Denotes I seed (.node n.uid) v) :
    g.Evaluated I seed (done ++ [n.uid]) ((n.variableName, v) :: env) := by
  refine ⟨?_, ?_, ?_⟩
  · have hpos : "pos" ≠ n.variableName := (Node.variableName_ne (by decide)).symm
    rw [lookup_cons_of_ne hpos, h.position]
  · intro u hu m hm
    rcases List.mem_append.mp hu with hu | hu
    · obtain ⟨w, hw, hdenotes⟩ := h.value u hu m hm
      refine ⟨w, ?_, hdenotes⟩
      -- the new variable hides none of the others, as names hold the UID
      have hne : m.variableName ≠ n.variableName := by
        intro hname
        rw [← Node.variableName_injective hname, (node?_eq_some hm).2] at hnew
        exact hnew hu
      rw [lookup_cons_of_ne hne, hw]
    · obtain rfl := List.mem_singleton.mp hu
      obtain rfl : n = m := Option.some.inj (hn.symm.trans hm)
      exact ⟨v, List.lookup_cons_self, hv⟩
  · intro x hx
    by_cases hname : x = n.variableName
    · exact .inr ⟨n, List.mem_append_right _ List.mem_cons_self, hname⟩
    · rw [lookup_cons_of_ne hname] at hx
      rcases h.name x hx with hpos | ⟨m, hm, hname⟩
      · exact .inl hpos
      · exact .inr ⟨m, List.mem_append_left _ hm, hname⟩

/-- Executing the statement of a node declares it with its value. -/
theorem Evaluated.step (h : g.Evaluated I seed done env) {n : Node} {e : Emission}
    (hn : g.node? n.uid = some n) (hnew : n.uid ∉ done) (hfits : n.Fits)
    (htargets : ∀ v ∈ n.targets, v ∈ done) (hemit : g.wiring.emit {} n = .ok e) :
    ∃ env', exec I env e.statement.render = some env' ∧
      g.Evaluated I seed (done ++ [n.uid]) env' := by
  obtain ⟨_, _, inputs, value, hinputs, hvalue, hstatement⟩ := emit_eq_ok hemit
  have hslots : List.Forall₂ (fun s e => ∃ v, g.Denotes I seed s.signal v ∧ e.Means I env v)
      n.slots inputs := by
    refine hinputs.forall₂.imp ?_
    rintro s e ⟨hs, i, hr⟩
    refine h.means_signal ?_ hr
    intro v hv
    exact htargets v ((mem_targets_iff n v).mpr ⟨s, hs, hv⟩)
  obtain ⟨slot, hslot⟩ := exists_slot_values seed hfits.names_nodup hslots
  have hmeans : value.Means I env (n.kind.value I seed slot n.uid) := by
    refine Kind.means_expression h.clear (h.lookup_helperName n.uid) h.position ?_ hvalue
    rw [← hfits, List.forall₂_map_left_iff]
    exact hslot.imp fun s e hs => hs.2
  have hdenotes : g.Denotes I seed (.node n.uid) (n.kind.value I seed slot n.uid) := by
    refine .node hn ?_
    intro s hs
    obtain ⟨e, _, he⟩ := Attempt.exists_of_mem hslot hs
    exact he.1
  refine ⟨(n.variableName, n.kind.value I seed slot n.uid) :: env, ?_, h.declare hn hnew hdenotes⟩
  rw [hstatement]
  exact exec_render n.isWord_variableName (h.lookup_fresh hnew) hmeans

/-! ## All statements -/

/-- Executing the statements of the nodes that are left declares them all. -/
theorem Evaluated.run (hg : g.Plannable) (hfits : ∀ n ∈ g.nodes, n.Fits)
    {before after : List UID} {emissions : List Emission}
    (horder : g.emissionOrder = before ++ after)
    (hemissions : List.Forall₂ (fun n e => g.wiring.emit {} n = .ok e)
      (after.filterMap g.node?) emissions)
    (h : g.Evaluated I seed before env) :
    ∃ env', execAll I env (emissions.map fun e => e.statement.render) = some env' ∧
      g.Evaluated I seed g.emissionOrder env' := by
  -- `before` has been executed, and the induction is on what is left of the order
  induction after generalizing before emissions env with
  | nil =>
      obtain rfl := List.forall₂_nil_left_iff.mp hemissions
      rw [List.append_nil] at horder
      exact ⟨env, rfl, horder ▸ h⟩
  | cons u after ih =>
      have hu : u ∈ g.emissionOrder := by
        rw [horder]
        simp
      obtain ⟨n, hn⟩ := node?_of_mem_emissionOrder hg.acyclic hu
      obtain rfl := (node?_eq_some hn).2
      rw [List.filterMap_cons, hn] at hemissions
      obtain ⟨e, emissions, hemit, hrest, rfl⟩ := List.forall₂_cons_left_iff.mp hemissions
      have hnew : n.uid ∉ before := by
        have hnodup := emissionOrder_nodup g
        rw [horder] at hnodup
        intro hmem
        exact (List.nodup_append.mp hnodup).2.2 _ hmem _ List.mem_cons_self rfl
      obtain ⟨env₁, hexec, h₁⟩ := h.step hn hnew (hfits n (node?_eq_some hn).1)
        (hg.targets_before horder hn) hemit
      have horder₁ : g.emissionOrder = (before ++ [n.uid]) ++ after := by
        rw [horder, List.append_assoc]
        rfl
      obtain ⟨env₂, hexecAll, h₂⟩ := ih horder₁ hrest h₁
      refine ⟨env₂, ?_, h₂⟩
      rw [execAll, List.map_cons, List.foldlM_cons, hexec]
      exact hexecAll

end

/-! ## The main result -/

end Graph

end NoiseShader
