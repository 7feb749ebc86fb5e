import NoiseShader.Proofs.Compilation
import NoiseShader.Proofs.Document.Graph

set_option autoImplicit false

/-! # What every built graph guarantees

The invariant of `Graph.WellFormed` in terms of what can be asked of a graph: nodes and slots are
found under their own UID and name, and a compilation never meets a node whose slots are not
those of its kind (`Graph.Built.representation`).
-/

namespace NoiseShader

/-! ## Slot names -/

theorem Kind.slots_names_nodup (kind : Kind) : (kind.slots.map SlotSpec.name).Nodup := by
  cases kind with
  | noise noise =>
      -- the formulas have no bearing on the slots
      show ((Noise.slots ⟨noise.family, noise.dimension, .standard⟩).map SlotSpec.name).Nodup
      cases noise.family <;> cases noise.dimension <;> decide
  | math op => cases op <;> decide
  | coordinate axis => exact List.nodup_nil

theorem Node.Fits.names_nodup {n : Node} (h : n.Fits) : (n.slots.map Slot.name).Nodup := by
  rw [h.named]
  exact n.kind.slots_names_nodup

/-- A name is found at the place of the slot that has it. -/
theorem Node.slotIndex?_eq_some {n : Node} (hn : (n.slots.map Slot.name).Nodup) {i : Nat}
    {s : Slot} (hs : n.slots[i]? = some s) : n.slotIndex? s.name = some i := by
  obtain ⟨hi, rfl⟩ := List.getElem?_eq_some_iff.mp hs
  rw [slotIndex?, List.findIdx?_eq_some_iff_getElem]
  refine ⟨hi, by simp, ?_⟩
  intro j hj
  have hdistinct : n.slots[j].name ≠ n.slots[i].name :=
    List.pairwise_iff_getElem.mp (List.pairwise_map.mp hn) j i (Nat.lt_trans hj hi) hi hj
  simpa using hdistinct

/-! ## Faults that do not occur -/

namespace Graph

theorem FirstFault.ne_slotMismatch {g : Graph} {options : Options} {f : Fault}
    (h : g.FirstFault options f) (uid : UID) (expected found : Nat) :
    f ≠ .slotMismatch uid expected found := by
  rintro rfl
  cases h with
  | node _ _ _ _ hfault => cases hfault

theorem Inputs.expression {g : Graph} {bindings : Bindings} {n : Node} (hn : n.Fits)
    {inputs : List Shading.Expr} (h : g.Inputs bindings n inputs) (seed : String) :
    inputs.length = n.kind.slots.length ∧
      ∃ value, n.kind.expression? n.uid seed inputs = some value := by
  have hlength : inputs.length = n.kind.slots.length := h.length_eq.trans hn.length
  exact ⟨hlength, Option.isSome_iff_exists.mp (n.kind.expression?_isSome n.uid seed inputs hlength)⟩

/-- Nodes have UIDs of their own below the counter and the slots that their kinds declare, under
distinct names. So a compilation never meets slots that do not fit. -/
theorem Built.representation {g : Graph} (hg : g.Built) :
    (∀ uid n, g.node? uid = some n ↔ n ∈ g.nodes ∧ n.uid = uid) ∧
    (∀ n ∈ g.nodes, n.slots.map Slot.spec = n.kind.slots ∧
      (n.slots.map Slot.name).Nodup ∧
      (∀ i s, n.slots[i]? = some s → g.slotIndex n.uid s.name = .ok i) ∧
      (n.uid < g.nextUID ∨ g.nextUID = UID.last)) ∧
    (∀ options uid expected found,
      g.compileWith options ≠ .error (.slotMismatch uid expected found)) ∧
    (∀ (options : Options) n inputs, n ∈ g.nodes → g.Inputs options.bindings n inputs →
      inputs.length = n.kind.slots.length ∧
        ∃ value, n.kind.expression? n.uid options.seedName inputs = some value) := by
  have hwell := hg.wellFormed
  refine ⟨node?_eq_some_iff hwell.nodup, ?_, ?_, ?_⟩
  · intro n hn
    have hnames := (hwell.fits n hn).names_nodup
    refine ⟨hwell.fits n hn, hnames, ?_, hwell.below n hn⟩
    intro i s hs
    have hfound : g.node? n.uid = some n := (node?_eq_some_iff hwell.nodup n.uid n).mpr ⟨hn, rfl⟩
    simp only [slotIndex, hfound, Node.slotIndex?_eq_some hnames hs]
  · intro options uid expected found h
    exact (firstFault_of_compileWith hwell.fits h).ne_slotMismatch uid expected found rfl
  · intro options n inputs hn hinputs
    exact hinputs.expression (hwell.fits n hn) options.seedName

theorem Built.representation_ramp : ramp.Built ∧ ramp.slotIndex 1 "Weight" = .ok 3 ∧
    ∀ uid expected found, ramp.compileWith {} ≠ .error (.slotMismatch uid expected found) := by
  obtain ⟨_, hnodes, hcompile, _⟩ := ramp_built.representation
  refine ⟨ramp_built, ?_, hcompile {}⟩
  exact (hnodes (Node.ofKind 1 (.noise ⟨.perlin, .two, .standard⟩)) (by decide)).2.2.1 3 _ rfl

end Graph

end NoiseShader
