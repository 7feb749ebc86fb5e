import NoiseShader.Program
import NoiseShader.Proofs.Attempt
import NoiseShader.Proofs.Formula
import NoiseShader.Proofs.Plan

set_option autoImplicit false

/-! # What one node adds to a program

`Node.Clean` are the nodes with nothing wrong in themselves, and `NodeFault` the first thing that
is wrong with any other node. Of a node whose references are all there, the emission fails
exactly with that fault (`emit_eq_error`), and otherwise declares the node's variable as what
its kind computes from the resolved slots (`emit_eq_ok`).
-/

namespace NoiseShader

/-! ## Inputs -/

/-- What stands for a slot in the text: the identifier bound to it, its literal, or the variable
of the node that it names. -/
inductive Graph.Resolves (g : Graph) (bindings : Bindings) (uid : UID) (slot : Nat) :
    Signal → Shading.Expr → Prop
  | bound {x : Binary32} {identifier : String} (h : bindings.find? uid slot = some identifier) :
      Resolves g bindings uid slot (.constant x) (.atom identifier)
  | literal {x : Binary32} {text : String} (h : bindings.find? uid slot = none)
      (ht : Shading.literal? x = some text) : Resolves g bindings uid slot (.constant x) (.atom text)
  | node {target : UID} {n : Node} (h : g.node? target = some n) :
      Resolves g bindings uid slot (.node target) (.atom n.variableName)

/-- One expression for each slot of the node, in order, that stands for it. -/
structure Graph.Inputs (g : Graph) (bindings : Bindings) (n : Node)
    (inputs : List Shading.Expr) : Prop where
  length_eq : inputs.length = n.slots.length
  resolves : ∀ i s e, n.slots[i]? = some s → inputs[i]? = some e →
    g.Resolves bindings n.uid i s.signal e

namespace Shading

theorem literal?_eq_none_iff (x : Binary32) : literal? x = none ↔ x.isFinite = false := by
  unfold literal?
  split
  · next h => simp [h]
  · next h => simp [h]

end Shading

namespace Graph

theorem Resolves.finite {g : Graph} {bindings : Bindings} {uid : UID} {slot : Nat} {x : Binary32}
    {e : Shading.Expr} (h : g.Resolves bindings uid slot (.constant x) e)
    (hunbound : bindings.find? uid slot = none) : x.isFinite = true := by
  cases h with
  | bound hbound => rw [hunbound] at hbound; cases hbound
  | literal _ hlit =>
      by_contra hnot
      rw [(Shading.literal?_eq_none_iff x).mpr (by simpa using hnot)] at hlit
      cases hlit

theorem resolveSlot_eq_ok_iff (g : Graph) (bindings : Bindings) (uid : UID) (slot : Nat)
    (signal : Signal) (e : Shading.Expr) :
    g.wiring.resolveSlot bindings uid slot signal = .ok e ↔
      g.Resolves bindings uid slot signal e := by
  cases signal with
  | constant x =>
      cases hbound : bindings.find? uid slot with
      | some identifier =>
          simp only [Wiring.resolveSlot, hbound, Signal.constant?, Except.ok.injEq]
          constructor
          · rintro rfl
            exact .bound hbound
          · intro h
            cases h with
            | bound h => rw [hbound] at h; rw [Option.some.inj h]
            | literal h _ => rw [hbound] at h; cases h
      | none =>
          simp only [Wiring.resolveSlot, hbound, Wiring.resolve]
          constructor
          · intro h
            cases hlit : Shading.literal? x with
            | none => rw [hlit] at h; cases h
            | some text =>
                rw [hlit] at h
                obtain rfl := Except.ok.inj h
                exact .literal hbound hlit
          · intro h
            cases h with
            | bound h => rw [hbound] at h; cases h
            | literal _ ht => rw [ht]
  | node target =>
      have hresolve : g.wiring.resolveSlot bindings uid slot (.node target) =
          g.wiring.resolve (.slot uid slot) (.node target) := by
        unfold Wiring.resolveSlot
        cases bindings.find? uid slot <;> rfl
      rw [hresolve, Wiring.resolve, wiring_node?]
      constructor
      · intro h
        cases hn : g.node? target with
        | none => rw [hn] at h; cases h
        | some n =>
            rw [hn] at h
            obtain rfl := Except.ok.inj h
            exact .node hn
      · intro h
        cases h with
        | node hn => rw [hn]

/-- A signal is resolved like a slot that is not bound. -/
theorem resolves_of_resolve {g : Graph} {site : Site} {s : Signal} {e : Shading.Expr}
    (h : g.wiring.resolve site s = .ok e) (uid : UID) (i : Nat) : g.Resolves .empty uid i s e := by
  cases s with
  | constant x =>
      rw [Wiring.resolve] at h
      split at h
      · next htext =>
          obtain rfl := Except.ok.inj h
          exact .literal rfl htext
      · cases h
  | node target =>
      rw [Wiring.resolve, wiring_node?] at h
      split at h
      · next hn =>
          obtain rfl := Except.ok.inj h
          exact .node hn
      · cases h

/-- A slot cannot be resolved if it holds an unbound constant that is not finite, or a loose
end. -/
theorem resolveSlot_eq_error {g : Graph} {bindings : Bindings} {uid : UID} {slot : Nat}
    {signal : Signal} {f : Fault}
    (h : g.wiring.resolveSlot bindings uid slot signal = .error f) :
    (∃ x, signal = .constant x ∧ bindings.find? uid slot = none ∧ x.isFinite = false ∧
      f = .nonFinite (.slot uid slot)) ∨
    (∃ target, signal = .node target ∧ target ∉ g.uids) := by
  cases signal with
  | constant x =>
      left
      cases hbound : bindings.find? uid slot with
      | some identifier => simp [Wiring.resolveSlot, hbound, Signal.constant?] at h
      | none =>
          cases hlit : Shading.literal? x with
          | some text => simp [Wiring.resolveSlot, hbound, Wiring.resolve, hlit] at h
          | none =>
              simp only [Wiring.resolveSlot, hbound, Wiring.resolve, hlit, Except.error.injEq] at h
              exact ⟨x, rfl, rfl, (Shading.literal?_eq_none_iff x).mp hlit, h.symm⟩
  | node target =>
      right
      refine ⟨target, rfl, ?_⟩
      intro hmem
      rw [← node?_isSome_iff] at hmem
      obtain ⟨n, hn⟩ := Option.isSome_iff_exists.mp hmem
      rw [(resolveSlot_eq_ok_iff g bindings uid slot _ _).mpr (.node hn)] at h
      cases h

end Graph

/-! ## Kinds find the inputs that they read -/

theorem Operation.expression?_isSome (op : Operation) (inputs : List Shading.Expr)
    (h : inputs.length = op.slots.length) : (op.expression? inputs).isSome := by
  cases op with
  | add | subtract | multiply | divide =>
      obtain ⟨a, b, rfl⟩ := List.length_eq_two.mp h
      rfl
  | negate | oneMinus =>
      obtain ⟨a, rfl⟩ := List.length_eq_one_iff.mp h
      rfl
  | remap =>
      match inputs, h with
      | [_, _, _, _, _], _ => rfl
  | _ => rfl

theorem Dimension.length_axes (d : Dimension) : d.axes.length = d.count := by
  cases d <;> rfl

theorem Noise.length_slots (noise : Noise) :
    noise.slots.length = noise.dimension.count + 2 +
      if noise.family = .worley then noise.dimension.count else 0 := by
  unfold slots
  rw [List.length_append, List.length_append, List.length_map, Dimension.length_axes]
  cases noise.family <;> simp [Dimension.length_axes]

theorem Noise.expression?_isSome (noise : Noise) (uid : UID) (inputs : List Shading.Expr)
    (h : inputs.length = noise.slots.length) : (noise.expression? uid inputs).isSome := by
  rw [Noise.length_slots] at h
  have hposition : ∃ position,
      Shading.positionArguments noise.dimension (inputs.take noise.dimension.count) = [position] := by
    cases hd : noise.dimension with
    | one =>
        rw [hd] at h
        cases inputs with
        | nil => simp [Dimension.count] at h; omega
        | cons e inputs => exact ⟨e, rfl⟩
    | two => exact ⟨_, rfl⟩
    | three => exact ⟨_, rfl⟩
  have hrest : ∃ scale weight rest,
      inputs.drop noise.dimension.count = scale :: weight :: rest := by
    have hlength : (inputs.drop noise.dimension.count).length ≥ 2 := by
      rw [List.length_drop]
      omega
    match hdrop : inputs.drop noise.dimension.count, hlength with
    | scale :: weight :: rest, _ => exact ⟨scale, weight, rest, rfl⟩
  obtain ⟨position, hposition⟩ := hposition
  obtain ⟨scale, weight, rest, hrest⟩ := hrest
  unfold expression?
  simp only [hposition, hrest]
  split
  · next hfamily =>
      rw [if_pos hfamily] at h
      have hlength := congrArg List.length hrest
      rw [List.length_drop, List.length_cons, List.length_cons] at hlength
      rw [if_neg (by omega)]
      rfl
  · rfl

/-- A kind reads no input past those of its slots. -/
theorem Kind.expression?_isSome (kind : Kind) (uid : UID) (seed : String)
    (inputs : List Shading.Expr) (h : inputs.length = kind.slots.length) :
    (kind.expression? uid seed inputs).isSome := by
  cases kind with
  | noise noise => exact noise.expression?_isSome uid inputs h
  | math op => exact op.expression?_isSome inputs h
  | coordinate axis => rfl

/-! ## Faults of a node -/

/-- Nothing is wrong with the node in itself. -/
structure Node.Clean (options : Options) (n : Node) : Prop where
  axis : ∀ axis d, n.kind = .coordinate axis → options.seedDimension = some d →
    axis.index < d.count
  /-- Cellular noise with formulas of its own has no blank one. -/
  formulas : ∀ noise, n.kind = .noise noise → noise.family = .worley →
    noise.formulas ≠ CellFormulas.standard →
    ¬ Formula.Blank noise.formulas.distance ∧ ¬ Formula.Blank noise.formulas.combine
  /-- A constant that no identifier stands for is finite. -/
  finite : ∀ i s x, n.slots[i]? = some s → s.signal = .constant x →
    options.bindings.find? n.uid i = none → x.isFinite = true

/-- The first thing that is wrong with a node: its axis, its distance formula, its combining
formula, or else the constant of its first slot that is neither bound nor finite. -/
inductive NodeFault (options : Options) (n : Node) : Fault → Prop
  | axis {axis : Axis} {d : Dimension} (hkind : n.kind = .coordinate axis)
      (hfixed : options.seedDimension = some d) (hrange : d.count ≤ axis.index) :
      NodeFault options n (.axisOutOfRange n.uid axis d.count)
  | distance {noise : Noise} (hkind : n.kind = .noise noise) (hfamily : noise.family = .worley)
      (hcustom : noise.formulas ≠ CellFormulas.standard)
      (hblank : Formula.Blank noise.formulas.distance) :
      NodeFault options n (.emptyFormula n.uid .distance)
  | combine {noise : Noise} (hkind : n.kind = .noise noise) (hfamily : noise.family = .worley)
      (hcustom : noise.formulas ≠ CellFormulas.standard)
      (hdistance : ¬ Formula.Blank noise.formulas.distance)
      (hblank : Formula.Blank noise.formulas.combine) :
      NodeFault options n (.emptyFormula n.uid .combine)
  | constant {i : Nat} {s : Slot} {x : Binary32}
      (hformulas : ∀ noise, n.kind = .noise noise → noise.family = .worley →
        noise.formulas ≠ CellFormulas.standard →
        ¬ Formula.Blank noise.formulas.distance ∧ ¬ Formula.Blank noise.formulas.combine)
      (hslot : n.slots[i]? = some s) (hsignal : s.signal = .constant x)
      (hunbound : options.bindings.find? n.uid i = none) (hinfinite : x.isFinite = false)
      (hleast : ∀ j t y, j < i → n.slots[j]? = some t → t.signal = .constant y →
        options.bindings.find? n.uid j = none → y.isFinite = true) :
      NodeFault options n (.nonFinite (.slot n.uid i))

theorem NodeFault.not_clean {options : Options} {n : Node} {f : Fault}
    (h : NodeFault options n f) : ¬ n.Clean options := by
  intro hclean
  cases h with
  | axis hkind hfixed hrange => exact absurd (hclean.axis _ _ hkind hfixed) (by omega)
  | distance hkind hfamily hcustom hblank =>
      exact (hclean.formulas _ hkind hfamily hcustom).1 hblank
  | combine hkind hfamily hcustom hdistance hblank =>
      exact (hclean.formulas _ hkind hfamily hcustom).2 hblank
  | constant _ hslot hsignal hunbound hinfinite =>
      rw [hclean.finite _ _ _ hslot hsignal hunbound] at hinfinite
      cases hinfinite

namespace Wiring

theorem checkAxis_eq_ok_iff (n : Node) (fixed : Option Dimension) :
    checkAxis n fixed = .ok () ↔
      ∀ axis d, n.kind = .coordinate axis → fixed = some d → axis.index < d.count := by
  unfold checkAxis
  split
  · next axis d hkind =>
      rw [hkind]
      split
      · next hlt => simp [hlt]
      · next hlt => simpa using hlt
  · next hother =>
      constructor
      · intro _ axis d hkind hfixed
        exact absurd hfixed (hother axis d hkind)
      · intro _
        rfl

theorem checkAxis_eq_error {n : Node} {fixed : Option Dimension} {f : Fault}
    (h : checkAxis n fixed = .error f) :
    ∃ axis d, n.kind = .coordinate axis ∧ fixed = some d ∧ d.count ≤ axis.index ∧
      f = .axisOutOfRange n.uid axis d.count := by
  unfold checkAxis at h
  split at h
  · next axis d hkind =>
      split at h
      · cases h
      · next hlt =>
          obtain rfl := Except.error.inj h
          exact ⟨axis, d, hkind, rfl, Nat.le_of_not_lt hlt, rfl⟩
  · cases h

theorem helperOf_eq_error {n : Node} {f : Fault} (h : helperOf n = .error f) :
    ∃ noise role, n.kind = .noise noise ∧ noise.isCustom = true ∧
      Worley.helper n.uid noise.dimension noise.formulas = .error role ∧
      f = .emptyFormula n.uid role := by
  unfold helperOf Kind.helper? at h
  cases hkind : n.kind with
  | noise noise =>
      rw [hkind] at h
      by_cases hcustom : noise.isCustom = true
      · cases hhelper : Worley.helper n.uid noise.dimension noise.formulas with
        | error role =>
            simp only [hcustom, if_true, hhelper] at h
            exact ⟨noise, role, rfl, hcustom, hhelper, (Except.error.inj h).symm⟩
        | ok helper =>
            simp only [hcustom, if_true, hhelper] at h
            cases h
      · simp only [hcustom] at h
        cases h
  | math op => rw [hkind] at h; cases h
  | coordinate axis => rw [hkind] at h; cases h

end Wiring

theorem Noise.isCustom_iff (noise : Noise) :
    noise.isCustom = true ↔ noise.family = .worley ∧ noise.formulas ≠ CellFormulas.standard := by
  simp [isCustom]

namespace Wiring

/-- A node's helper fails only over a blank formula of cellular noise. -/
theorem helperOf_eq_ok_iff (n : Node) :
    (∃ helper, helperOf n = .ok helper) ↔
      ∀ noise, n.kind = .noise noise → noise.family = .worley →
        noise.formulas ≠ CellFormulas.standard →
        ¬ Formula.Blank noise.formulas.distance ∧ ¬ Formula.Blank noise.formulas.combine := by
  constructor
  · rintro ⟨helper, hhelper⟩ noise hkind hfamily hcustom
    have hnone : ∀ role, Worley.helper n.uid noise.dimension noise.formulas ≠ .error role := by
      intro role hrole
      have hisCustom := (Noise.isCustom_iff noise).mpr ⟨hfamily, hcustom⟩
      unfold helperOf Kind.helper? at hhelper
      rw [hkind] at hhelper
      simp only [hisCustom, if_true, hrole] at hhelper
      cases hhelper
    have hdistance : ¬ Formula.Blank noise.formulas.distance := fun hblank =>
      hnone .distance ((Worley.helper_eq_error_iff _ _ _ _).mpr (Or.inl ⟨hblank, rfl⟩))
    refine ⟨hdistance, fun hblank => hnone .combine ?_⟩
    exact (Worley.helper_eq_error_iff _ _ _ _).mpr (Or.inr ⟨hdistance, hblank, rfl⟩)
  · intro hformulas
    cases hhelper : helperOf n with
    | ok helper => exact ⟨helper, rfl⟩
    | error f =>
        obtain ⟨noise, role, hkind, hcustom, herror, _⟩ := helperOf_eq_error hhelper
        obtain ⟨hfamily, hcustom⟩ := (Noise.isCustom_iff noise).mp hcustom
        obtain ⟨hdistance, hcombine⟩ := hformulas noise hkind hfamily hcustom
        rcases (Worley.helper_eq_error_iff _ _ _ _).mp herror with ⟨hblank, _⟩ | ⟨_, hblank, _⟩
        · exact absurd hblank hdistance
        · exact absurd hblank hcombine

end Wiring

/-! ## The emission of a node -/

namespace Graph

/-- The slots of a node in the text of a program, or the first fault among them. -/
def resolveAll (g : Graph) (bindings : Bindings) (n : Node) : Except Fault (List Shading.Expr) :=
  n.slots.zipIdx.mapM fun (s, i) => g.wiring.resolveSlot bindings n.uid i s.signal

theorem resolveAll_eq_ok_iff (g : Graph) (bindings : Bindings) (n : Node)
    (inputs : List Shading.Expr) :
    g.resolveAll bindings n = .ok inputs ↔ g.Inputs bindings n inputs := by
  rw [resolveAll, Attempt.mapM_eq_ok_iff, List.forall₂_iff_get]
  simp only [resolveSlot_eq_ok_iff, List.length_zipIdx, List.get_eq_getElem, List.getElem_zipIdx,
    Nat.zero_add]
  constructor
  · rintro ⟨hlength, hall⟩
    refine ⟨hlength.symm, ?_⟩
    intro i s e hs he
    obtain ⟨hi, rfl⟩ := List.getElem?_eq_some_iff.mp hs
    obtain ⟨hi', rfl⟩ := List.getElem?_eq_some_iff.mp he
    exact hall i hi hi'
  · rintro ⟨hlength, hall⟩
    refine ⟨hlength.symm, ?_⟩
    intro i hi hi'
    exact hall i _ _ (List.getElem?_eq_getElem hi) (List.getElem?_eq_getElem hi')

/-- The first slot that cannot be resolved holds an unbound constant that is not finite, if the
node has no loose ends. -/
theorem resolveAll_eq_error {g : Graph} {options : Options} {n : Node} {f : Fault}
    (htargets : ∀ v ∈ n.targets, v ∈ g.uids)
    (h : g.resolveAll options.bindings n = .error f) :
    ∃ i s x, n.slots[i]? = some s ∧ s.signal = .constant x ∧
      options.bindings.find? n.uid i = none ∧ x.isFinite = false ∧
      f = .nonFinite (.slot n.uid i) ∧
      ∀ j t y, j < i → n.slots[j]? = some t → t.signal = .constant y →
        options.bindings.find? n.uid j = none → y.isFinite = true := by
  obtain ⟨before, ⟨s, i⟩, after, hsplit, hbefore, hfault⟩ := Attempt.mapM_eq_error h
  have hat : ∀ j : Nat, n.slots.zipIdx[j]? = (before ++ (s, i) :: after)[j]? := fun j => by rw [hsplit]
  -- the index of the slot is its place in the list
  have hi : i = before.length ∧ n.slots[i]? = some s := by
    have hplace := hat before.length
    rw [List.getElem?_append_right (Nat.le_refl _), Nat.sub_self, List.getElem?_cons_zero,
      List.getElem?_zipIdx, Option.map_eq_some_iff] at hplace
    obtain ⟨t, ht, heq⟩ := hplace
    obtain ⟨rfl, hindex⟩ := Prod.mk.inj heq
    rw [Nat.zero_add] at hindex
    exact ⟨hindex.symm, hindex ▸ ht⟩
  obtain ⟨hlength, hslot⟩ := hi
  rcases resolveSlot_eq_error hfault with ⟨x, hsignal, hunbound, hinfinite, rfl⟩ | ⟨v, hsignal, habsent⟩
  · refine ⟨i, s, x, hslot, hsignal, hunbound, hinfinite, rfl, ?_⟩
    intro j t y hj ht hy hunboundj
    have hmem : (t, j) ∈ before := by
      have hplace := hat j
      rw [List.getElem?_zipIdx, ht, List.getElem?_append_left (by omega)] at hplace
      simp only [Option.map_some, Nat.zero_add] at hplace
      exact List.mem_of_getElem? hplace.symm
    obtain ⟨e, he⟩ := hbefore _ hmem
    have hresolves := (resolveSlot_eq_ok_iff _ _ _ _ _ _).mp he
    rw [hy] at hresolves
    exact hresolves.finite hunboundj
  · have hmem := (mem_targets_iff n v).mpr ⟨s, List.mem_of_getElem? hslot, hsignal⟩
    exact absurd (htargets v hmem) habsent

/-- What stands for a signal depends only on the node that it names. -/
theorem resolve_congr {g h : Graph} {signal : Signal}
    (hnode : ∀ target, signal = .node target → g.node? target = h.node? target) (site : Site) :
    g.wiring.resolve site signal = h.wiring.resolve site signal := by
  cases signal with
  | constant x => rfl
  | node target => simp only [Wiring.resolve, wiring_node?, hnode target rfl]

/-- Of other nodes, an emission takes only those that its slots name. -/
theorem emit_congr {g h : Graph} {n : Node} (hnode : ∀ v ∈ n.targets, g.node? v = h.node? v)
    (options : Options) : g.wiring.emit options n = h.wiring.emit options n := by
  have hinputs : g.resolveAll options.bindings n = h.resolveAll options.bindings n := by
    refine Attempt.mapM_congr ?_
    rintro ⟨s, i⟩ hs
    have hslot := List.mem_of_getElem? (List.mem_zipIdx_iff_getElem?.mp hs)
    have htargets : ∀ v, s.signal = .node v → g.node? v = h.node? v := fun v hv =>
      hnode v ((mem_targets_iff n v).mpr ⟨s, hslot, hv⟩)
    simp only [Wiring.resolveSlot, resolve_congr htargets]
  unfold resolveAll at hinputs
  unfold Wiring.emit
  rw [hinputs]

/-- Everything that an emission has gone through when it succeeds. -/
theorem emit_eq_ok {g : Graph} {options : Options} {n : Node} {e : Emission}
    (h : g.wiring.emit options n = .ok e) :
    n.Clean options ∧ Wiring.helperOf n = .ok e.helper ∧
      ∃ inputs value, g.Inputs options.bindings n inputs ∧
        n.kind.expression? n.uid options.seedName inputs = some value ∧
        e.statement = ⟨n.variableName, value⟩ := by
  unfold Wiring.emit at h
  obtain ⟨_, _, h⟩ := Attempt.bind_eq_ok_iff.mp h
  obtain ⟨_, haxis, h⟩ := Attempt.bind_eq_ok_iff.mp h
  obtain ⟨helper, hhelper, h⟩ := Attempt.bind_eq_ok_iff.mp h
  obtain ⟨inputs, hinputs, h⟩ := Attempt.bind_eq_ok_iff.mp h
  have hresolved := (resolveAll_eq_ok_iff g _ n inputs).mp hinputs
  split at h
  · next value hvalue =>
      obtain rfl := Except.ok.inj h
      refine ⟨⟨?_, ?_, ?_⟩, hhelper, inputs, value, hresolved, hvalue, rfl⟩
      · exact (Wiring.checkAxis_eq_ok_iff n _).mp haxis
      · exact (Wiring.helperOf_eq_ok_iff n).mp ⟨helper, hhelper⟩
      · intro i s x hs hsignal hunbound
        have hi : i < inputs.length := by
          rw [hresolved.length_eq]
          exact (List.getElem?_eq_some_iff.mp hs).1
        have hslot := hresolved.resolves i s _ hs (List.getElem?_eq_getElem hi)
        rw [hsignal] at hslot
        exact hslot.finite hunbound
  · cases h

/-- The emission of a node that fits its kind and has no loose ends fails with the first fault
of the node. -/
theorem emit_eq_error {g : Graph} {options : Options} {n : Node} {f : Fault} (hfits : n.Fits)
    (htargets : ∀ v ∈ n.targets, v ∈ g.uids) (h : g.wiring.emit options n = .error f) :
    NodeFault options n f := by
  unfold Wiring.emit at h
  have hslots : Wiring.checkSlots n = .ok () := by
    unfold Wiring.checkSlots
    rw [if_pos hfits.length]
  rcases Attempt.bind_eq_error_iff.mp h with hcheck | ⟨_, _, h⟩
  · rw [hslots] at hcheck
    cases hcheck
  rcases Attempt.bind_eq_error_iff.mp h with haxis | ⟨_, _, h⟩
  · obtain ⟨axis, d, hkind, hfixed, hrange, rfl⟩ := Wiring.checkAxis_eq_error haxis
    exact .axis hkind hfixed hrange
  rcases Attempt.bind_eq_error_iff.mp h with hhelper | ⟨helper, hhelper, h⟩
  · obtain ⟨noise, role, hkind, hcustom, herror, rfl⟩ := Wiring.helperOf_eq_error hhelper
    obtain ⟨hfamily, hcustom⟩ := (Noise.isCustom_iff noise).mp hcustom
    rcases (Worley.helper_eq_error_iff _ _ _ _).mp herror with ⟨hblank, rfl⟩ | ⟨hdistance, hblank, rfl⟩
    · exact .distance hkind hfamily hcustom hblank
    · exact .combine hkind hfamily hcustom hdistance hblank
  have hformulas := (Wiring.helperOf_eq_ok_iff n).mp ⟨helper, hhelper⟩
  rcases Attempt.bind_eq_error_iff.mp h with hinputs | ⟨inputs, hinputs, h⟩
  · obtain ⟨i, s, x, hslot, hsignal, hunbound, hinfinite, rfl, hleast⟩ :=
      resolveAll_eq_error htargets hinputs
    exact .constant hformulas hslot hsignal hunbound hinfinite hleast
  · -- all inputs are there, so the kind has an expression for them
    have hlength := ((resolveAll_eq_ok_iff g _ n inputs).mp hinputs).length_eq
    have hsome := n.kind.expression?_isSome n.uid options.seedName inputs
      (hlength.trans hfits.length)
    obtain ⟨value, hvalue⟩ := Option.isSome_iff_exists.mp hsome
    rw [hvalue] at h
    cases h

end Graph

end NoiseShader
