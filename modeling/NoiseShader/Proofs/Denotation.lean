import NoiseShader.Proofs.Emission
import NoiseShader.Proofs.Name
import NoiseShader.Proofs.Shading.Semantics

set_option autoImplicit false

/-! # What graphs compute

The value of a node is said here in terms of the slots by their names, as the documentation of
the kinds has it. The expressions that nodes compile to have these values
(`Kind.means_expression`).
-/

namespace NoiseShader

open Shading

universe u

variable {V : Type u}

/-! ## Values of nodes -/

/-- The value of an operation on what its slots hold. -/
def Operation.value (I : Interpretation V) (slot : String → V) : Operation → V
  | add => I.add (slot "A") (slot "B")
  | subtract => I.subtract (slot "A") (slot "B")
  | multiply => I.multiply (slot "A") (slot "B")
  | divide => I.divide (slot "A") (slot "B")
  | power => I.call "pow" [slot "Base", slot "Exponent"]
  | min => I.call "min" [slot "A", slot "B"]
  | max => I.call "max" [slot "A", slot "B"]
  | modulo => I.call "fmod" [slot "A", slot "B"]
  | step => I.call "step" [slot "Edge", slot "Value"]
  | abs => I.call "abs" [slot "Value"]
  | negate => I.negate (slot "Value")
  | oneMinus => I.subtract (I.literal "1.0") (slot "Value")
  | floor => I.call "floor" [slot "Value"]
  | ceil => I.call "ceil" [slot "Value"]
  | frac => I.call "frac" [slot "Value"]
  | sqrt => I.call "sqrt" [slot "Value"]
  | sin => I.call "sin" [slot "Value"]
  | cos => I.call "cos" [slot "Value"]
  | saturate => I.call "saturate" [slot "Value"]
  | lerp => I.call "lerp" [slot "A", slot "B", slot "T"]
  | clamp => I.call "clamp" [slot "Value", slot "Min", slot "Max"]
  | smoothStep => I.call "smoothstep" [slot "Edge0", slot "Edge1", slot "Value"]
  | remap =>
    I.add (slot "To Min")
      (I.divide
        (I.multiply (I.subtract (slot "Value") (slot "From Min"))
          (I.subtract (slot "To Max") (slot "To Min")))
        (I.subtract (slot "From Max") (slot "From Min")))

/-- A position from its components: a number, or a vector. -/
def Dimension.position (I : Interpretation V) (component : Axis → V) : Dimension → V
  | one => component .x
  | two => I.call "float2" [component .x, component .y]
  | three => I.call "float3" [component .x, component .y, component .z]

/-- `Weight * F(Scale * position)`, with the variance as further argument of cellular noise. -/
def Noise.value (I : Interpretation V) (slot : String → V) (noise : Noise) (uid : UID) : V :=
  let scaled := I.multiply (slot "Scale") (noise.dimension.position I fun axis => slot axis.label)
  let variance := noise.dimension.position I fun axis => slot ("Variance " ++ axis.label)
  I.multiply (slot "Weight")
    (I.call (noise.functionName uid)
      (if noise.family = .worley then [scaled, variance] else [scaled]))

/-- The value of a node of the kind; coordinates are those of the seed. -/
def Kind.value (I : Interpretation V) (seed : V) (slot : String → V) (uid : UID) : Kind → V
  | noise n => n.value I slot uid
  | math operation => operation.value I slot
  | coordinate axis => I.component axis seed

/-- The signal has the value. A node has that of its kind on the values of its slots; nodes on a
cycle have none. -/
inductive Graph.Denotes (I : Interpretation V) (seed : V) (g : Graph) : Signal → V → Prop
  | constant {x : Binary32} (h : x.isFinite = true) : Denotes I seed g (.constant x) (I.constant x)
  | node {uid : UID} {n : Node} {slot : String → V} (hn : g.node? uid = some n)
      (hslots : ∀ s ∈ n.slots, Denotes I seed g s.signal (slot s.name)) :
      Denotes I seed g (.node uid) (n.kind.value I seed slot uid)

/-! ## One value at most -/

theorem Operation.value_congr (I : Interpretation V) {slot slot' : String → V} (op : Operation)
    (h : ∀ spec ∈ op.slots, slot spec.name = slot' spec.name) :
    op.value I slot = op.value I slot' := by
  cases op <;> simp [slots] at h <;> simp [value, h]

theorem Dimension.position_congr (I : Interpretation V) {f f' : Axis → V} (d : Dimension)
    (h : ∀ axis ∈ d.axes, f axis = f' axis) : d.position I f = d.position I f' := by
  cases d <;> simp [axes, Axis.all, count] at h <;> simp [position, h]

theorem Noise.slots_eq (noise : Noise) : noise.slots =
    noise.dimension.axes.map (fun axis => ⟨axis.label, Binary32.zero⟩) ++
      [⟨"Scale", Binary32.one⟩, ⟨"Weight", Binary32.one⟩] ++
      if noise.family = .worley then
        noise.dimension.axes.map fun axis => ⟨"Variance " ++ axis.label, Binary32.one⟩
      else [] := by
  unfold slots
  cases noise.family <;> rfl

theorem Noise.value_congr (I : Interpretation V) {slot slot' : String → V} (noise : Noise)
    (uid : UID) (h : ∀ spec ∈ noise.slots, slot spec.name = slot' spec.name) :
    noise.value I slot uid = noise.value I slot' uid := by
  have hposition : noise.dimension.position I (fun axis => slot axis.label) =
      noise.dimension.position I (fun axis => slot' axis.label) := by
    refine Dimension.position_congr I _ ?_
    intro axis haxis
    refine h ⟨axis.label, Binary32.zero⟩ ?_
    rw [slots_eq]
    exact List.mem_append_left _ (List.mem_append_left _ (List.mem_map.mpr ⟨axis, haxis, rfl⟩))
  have hscale : slot "Scale" = slot' "Scale" := h ⟨"Scale", Binary32.one⟩ (by simp [slots])
  have hweight : slot "Weight" = slot' "Weight" := h ⟨"Weight", Binary32.one⟩ (by simp [slots])
  rw [value, value, hposition, hscale, hweight]
  split
  · next hworley =>
      have hvariance : noise.dimension.position I (fun axis => slot ("Variance " ++ axis.label)) =
          noise.dimension.position I (fun axis => slot' ("Variance " ++ axis.label)) := by
        refine Dimension.position_congr I _ ?_
        intro axis haxis
        refine h ⟨"Variance " ++ axis.label, Binary32.one⟩ ?_
        rw [slots_eq, if_pos hworley]
        exact List.mem_append_right _ (List.mem_map.mpr ⟨axis, haxis, rfl⟩)
      rw [hvariance]
  · rfl

theorem Kind.value_congr (I : Interpretation V) (seed : V) {slot slot' : String → V} (kind : Kind)
    (uid : UID) (h : ∀ spec ∈ kind.slots, slot spec.name = slot' spec.name) :
    kind.value I seed slot uid = kind.value I seed slot' uid := by
  cases kind with
  | noise n => exact n.value_congr I uid h
  | math op => exact op.value_congr I h
  | coordinate axis => rfl

/-- Signals have at most one value. -/
theorem Graph.Denotes.unique {I : Interpretation V} {seed : V} {g : Graph}
    (hfits : ∀ n ∈ g.nodes, n.Fits) {s : Signal} {v w : V} (hv : g.Denotes I seed s v)
    (hw : g.Denotes I seed s w) : v = w := by
  induction hv generalizing w with
  | constant _ =>
      cases hw
      rfl
  | @node uid n slot hn _ ih =>
      cases hw with
      | @node _ m slot' hm hslots' =>
          obtain rfl : n = m := Option.some.inj (hn.symm.trans hm)
          refine n.kind.value_congr I seed uid ?_
          intro spec hspec
          rw [← hfits n (g.node?_eq_some hn).1] at hspec
          obtain ⟨s, hs, rfl⟩ := List.mem_map.mp hspec
          exact ih s hs (hslots' s hs)

/-! ## Values of expressions -/

/-- The form of the names of library functions: words without an underscore, and not the seed. -/
def IsLibraryName (f : String) : Prop :=
  Token.IsWord f.toList ∧ '_' ∉ f.toList ∧ f ≠ "pos"

instance (f : String) : Decidable (IsLibraryName f) :=
  inferInstanceAs (Decidable (Token.IsWord f.toList ∧ '_' ∉ f.toList ∧ f ≠ "pos"))

theorem NoiseFamily.isLibraryName_primitive (family : NoiseFamily) (d : Dimension) :
    IsLibraryName (family.primitive d) := by
  cases family <;> cases d <;> decide

/-- No variable hides a library function. -/
def Clear (env : Environment V) : Prop := ∀ f, IsLibraryName f → env.lookup f = none

section

variable {I : Interpretation V} {env : Environment V} {slot : String → V}
  {inputs : List Expr} {value : Expr}

theorem means_library_call (hclear : Clear env) {f : String} (hf : IsLibraryName f)
    {specs : List SlotSpec}
    (hslots : List.Forall₂ (fun spec e => e.Means I env (slot spec.name)) specs inputs) :
    (Expr.call f inputs).Means I env (I.call f (specs.map fun spec => slot spec.name)) := by
  refine Expr.means_call hf.1 (hclear f hf) ?_
  rw [List.forall₂_map_right_iff]
  exact hslots.flip

theorem Operation.means_expression (hclear : Clear env) {op : Operation}
    (hslots : List.Forall₂ (fun spec e => e.Means I env (slot spec.name)) op.slots inputs)
    (h : op.expression? inputs = some value) : value.Means I env (op.value I slot) := by
  cases op with
  | add | subtract | multiply | divide =>
      simp only [slots, List.forall₂_cons_left_iff, List.forall₂_nil_left_iff] at hslots
      obtain ⟨a, _, ha, ⟨b, _, hb, rfl, rfl⟩, rfl⟩ := hslots
      obtain rfl := Option.some.inj h
      exact ha.binary hb _
  | negate =>
      simp only [slots, List.forall₂_cons_left_iff, List.forall₂_nil_left_iff] at hslots
      obtain ⟨a, _, ha, rfl, rfl⟩ := hslots
      obtain rfl := Option.some.inj h
      exact ha.negate
  | oneMinus =>
      simp only [slots, List.forall₂_cons_left_iff, List.forall₂_nil_left_iff] at hslots
      obtain ⟨a, _, ha, rfl, rfl⟩ := hslots
      obtain rfl := Option.some.inj h
      exact (Expr.means_literal (by decide)).binary ha .subtract
  | remap =>
      simp only [slots, List.forall₂_cons_left_iff, List.forall₂_nil_left_iff] at hslots
      obtain ⟨v, _, hv, ⟨fromMin, _, hfromMin, ⟨fromMax, _, hfromMax, ⟨toMin, _, htoMin,
        ⟨toMax, _, htoMax, rfl, rfl⟩, rfl⟩, rfl⟩, rfl⟩, rfl⟩ := hslots
      obtain rfl := Option.some.inj h
      have halong := (hv.binary hfromMin .subtract).binary (htoMax.binary htoMin .subtract) .multiply
      exact htoMin.binary (halong.binary (hfromMax.binary hfromMin .subtract) .divide) .add
  | power | min | max | modulo | step | abs | floor | ceil | frac | sqrt | sin | cos | saturate
  | lerp | clamp | smoothStep =>
      obtain rfl := Option.some.inj h
      exact means_library_call hclear (by decide) hslots

theorem Dimension.means_position (hclear : Clear env) {d : Dimension} {component : Axis → V}
    {es : List Expr}
    (h : List.Forall₂ (fun axis e => e.Means I env (component axis)) d.axes es) :
    ∃ position, positionArguments d es = [position] ∧
      position.Means I env (d.position I component) := by
  have hcall : List.Forall₂ (fun e v => e.Means I env v) es (d.axes.map component) := by
    rw [List.forall₂_map_right_iff]
    exact h.flip
  cases d with
  | one =>
      obtain ⟨e, _, he, hnil, rfl⟩ := List.forall₂_cons_left_iff.mp h
      obtain rfl := List.forall₂_nil_left_iff.mp hnil
      exact ⟨e, rfl, he⟩
  | two =>
      have hname : IsLibraryName "float2" := by decide
      exact ⟨_, rfl, Expr.means_call hname.1 (hclear _ hname) hcall⟩
  | three =>
      have hname : IsLibraryName "float3" := by decide
      exact ⟨_, rfl, Expr.means_call hname.1 (hclear _ hname) hcall⟩

/-- The function of a noise node is not hidden: it is in the library, or a helper. -/
theorem Noise.functionName_clear (hclear : Clear env) (noise : Noise) {uid : UID}
    (hhelper : env.lookup (Noise.helperName uid) = none) :
    Token.IsWord (noise.functionName uid).toList ∧ env.lookup (noise.functionName uid) = none := by
  unfold functionName
  split
  · exact ⟨Noise.isWord_helperName uid, hhelper⟩
  · have hname := noise.family.isLibraryName_primitive noise.dimension
    exact ⟨hname.1, hclear _ hname⟩

theorem Noise.means_expression (hclear : Clear env) {noise : Noise} {uid : UID}
    (hhelper : env.lookup (Noise.helperName uid) = none)
    (hslots : List.Forall₂ (fun spec e => e.Means I env (slot spec.name)) noise.slots inputs)
    (h : noise.expression? uid inputs = some value) : value.Means I env (noise.value I slot uid) := by
  have hcount : noise.dimension.axes.length = noise.dimension.count := noise.dimension.length_axes
  obtain ⟨hword, hfree⟩ := functionName_clear hclear noise hhelper
  rw [slots_eq, List.append_assoc] at hslots
  -- the position, then scale and weight, then the variance
  have htake := List.forall₂_take noise.dimension.count hslots
  rw [List.take_left' (by rw [List.length_map, hcount]), List.forall₂_map_left_iff] at htake
  obtain ⟨position, hposition, hmeans⟩ := Dimension.means_position hclear htake
  have hdrop := List.forall₂_drop noise.dimension.count hslots
  rw [List.drop_left' (by rw [List.length_map, hcount])] at hdrop
  obtain ⟨scale, _, hscale, hdrop, hrest⟩ := List.forall₂_cons_left_iff.mp hdrop
  obtain ⟨weight, rest, hweight, hvariance, rfl⟩ := List.forall₂_cons_left_iff.mp hdrop
  have hscaled := hscale.binary hmeans .multiply
  simp only [expression?, hposition, hrest] at h
  by_cases hworley : noise.family = .worley
  · rw [if_pos hworley] at hvariance
    have hvariance' := List.forall₂_map_left_iff.mp hvariance
    have hlength : rest.length = noise.dimension.count := by
      rw [← hvariance'.length_eq, hcount]
    rw [← hlength, List.take_length, hworley] at h
    simp only [Nat.lt_irrefl, if_false] at h
    obtain rfl := Option.some.inj h
    obtain ⟨variance, hargument, hmeans'⟩ := Dimension.means_position hclear hvariance'
    rw [hargument, Noise.value, if_pos hworley]
    exact hweight.binary (Expr.means_call hword hfree (.cons hscaled (.cons hmeans' .nil))) .multiply
  · have hcall : value = .binary .multiply weight
        (.call (noise.functionName uid) [.binary .multiply scale position]) := by
      split at h
      · next heq => exact absurd heq hworley
      · exact (Option.some.inj h).symm
    rw [hcall, Noise.value, if_neg hworley]
    exact hweight.binary (Expr.means_call hword hfree (.cons hscaled .nil)) .multiply

/-- What a node compiles to has the value of its kind. -/
theorem Kind.means_expression (hclear : Clear env) {kind : Kind} {uid : UID} {seed : V}
    (hhelper : env.lookup (Noise.helperName uid) = none) (hseed : env.lookup "pos" = some seed)
    (hslots : List.Forall₂ (fun spec e => e.Means I env (slot spec.name)) kind.slots inputs)
    (h : kind.expression? uid "pos" inputs = some value) :
    value.Means I env (kind.value I seed slot uid) := by
  cases kind with
  | noise n => exact n.means_expression hclear hhelper hslots h
  | math op => exact op.means_expression hclear hslots h
  | coordinate axis =>
      obtain rfl := Option.some.inj h
      exact Expr.means_component (by decide) hseed axis

end

end NoiseShader
