import NoiseShader.Proofs.Emission
import NoiseShader.Proofs.Name

set_option autoImplicit false

/-! # Helpers and the nodes that they are for

A helper defines one function, that of its own node (`Worley.functionHeader_mem_lines_iff`), and the
helpers of a program are those of its nodes with formulas of their own, in order
(`Graph.forall₂_helpers`).
-/

namespace NoiseShader

open Shading

/-! ## The function of a helper -/

namespace Worley

/-- The line that begins the function of a helper. -/
def functionHeader (uid : UID) (d : Dimension) : String :=
  "float " ++ Noise.helperName uid ++ "(" ++ d.typeName ++ " p, " ++ d.typeName ++ " variance)"

theorem toList_functionHeader (uid : UID) (d : Dimension) :
    (functionHeader uid d).toList = "float ".toList ++ ((Noise.helperName uid).toList ++
      '(' :: (d.typeName.toList ++
        ' ' :: ("p, ".toList ++ d.typeName.toList ++ " variance)".toList))) := by
  simp [functionHeader]

theorem parenthesis_notMem_helperName (uid : UID) : '(' ∉ (Noise.helperName uid).toList :=
  (Noise.isWord_helperName uid).notMem rfl

/-- The header tells for which node the function is, and in which dimension. -/
theorem functionHeader_injective {u v : UID} {d e : Dimension}
    (h : functionHeader u d = functionHeader v e) : u = v ∧ d = e := by
  have hlist := congrArg String.toList h
  rw [toList_functionHeader, toList_functionHeader] at hlist
  have hrest := List.append_cancel_left hlist
  -- the name ends at the first parenthesis, and the type behind it at the first blank
  obtain ⟨hname, hrest⟩ := split_at_first (parenthesis_notMem_helperName u)
    (parenthesis_notMem_helperName v) hrest
  have hblank : ∀ dimension : Dimension, ' ' ∉ dimension.typeName.toList := by
    intro dimension
    cases dimension <;> decide
  obtain ⟨htype, _⟩ := split_at_first (hblank d) (hblank e) hrest
  refine ⟨Noise.helperName_injective (String.toList_inj.mp hname), ?_⟩
  cases d <;> cases e <;> first | rfl | exact absurd htype (by decide)

theorem head_indented {depth : Nat} (h : 0 < depth) (text : String) :
    (indented depth text).toList.head? = some ' ' := by
  obtain ⟨k, rfl⟩ := Nat.exists_eq_succ_of_ne_zero (Nat.ne_of_gt h)
  simp [indented, List.replicate_succ, String.join_cons]

theorem head_nest {depth : Nat} (h : 0 < depth) (inner : List (Nat × String))
    (headers : List String) : ∀ line ∈ nest depth inner headers, line.toList.head? = some ' ' := by
  induction headers generalizing depth with
  | nil =>
      intro line hline
      obtain ⟨⟨below, text⟩, _, rfl⟩ := List.mem_map.mp hline
      exact head_indented (by omega) text
  | cons header headers ih =>
      intro line hline
      rcases List.mem_cons.mp hline with rfl | hline
      · exact head_indented h header
      rcases List.mem_cons.mp hline with rfl | hline
      · exact head_indented h _
      rcases List.mem_append.mp hline with hline | hline
      · exact ih (by omega) line hline
      · obtain rfl := List.mem_singleton.mp hline
        exact head_indented h _

/-- A helper is for its node. The macros come first, then the function. -/
theorem helper_eq_ok {uid : UID} {d : Dimension} {formulas : CellFormulas} {h : Helper}
    (hh : helper uid d formulas = .ok h) :
    h.node = uid ∧ ∃ distance combine, h.lines = define (distanceMacro uid) distance ::
      define (combineMacro uid) combine :: functionLines uid d := by
  unfold helper at hh
  split at hh
  · cases hh
  split at hh
  · cases hh
  obtain rfl := Except.ok.inj hh
  exact ⟨rfl, _, _, rfl⟩

/-- All lines of a helper but the header of its function begin with a blank, a brace or `#`. -/
theorem head_of_mem_lines {uid : UID} {d : Dimension} {formulas : CellFormulas} {h : Helper}
    (hh : helper uid d formulas = .ok h) {line : String} (hline : line ∈ h.lines) :
    line = functionHeader uid d ∨ line.toList.head? ≠ some 'f' := by
  obtain ⟨_, distance, combine, hlines⟩ := helper_eq_ok hh
  rw [hlines] at hline
  -- the two macros
  rcases List.mem_cons.mp hline with rfl | hline
  · right
    simp [define]
  rcases List.mem_cons.mp hline with rfl | hline
  · right
    simp [define]
  unfold functionLines at hline
  rcases List.mem_append.mp hline with hline | hline
  · rcases List.mem_append.mp hline with hline | hline
    · -- the header, its brace and the first lines of the function
      simp only [List.mem_cons, List.not_mem_nil, or_false] at hline
      rcases hline with rfl | rfl | rfl | rfl | rfl
      · exact .inl rfl
      · right
        decide
      all_goals
        right
        rw [head_indented (by decide)]
        decide
    · -- the loops
      right
      rw [head_nest (by decide) _ _ line hline]
      decide
  · -- the last lines of the function, and the ends of the macros
    simp only [List.mem_cons, List.not_mem_nil, or_false] at hline
    right
    rcases hline with rfl | rfl | rfl | rfl
    · rw [head_indented (by decide)]
      decide
    · decide
    · simp
    · simp

/-- A helper defines the function of its node, in the dimension of the noise, and no other. -/
theorem functionHeader_mem_lines_iff {uid : UID} {d : Dimension} {formulas : CellFormulas}
    {h : Helper} (hh : helper uid d formulas = .ok h) (v : UID) (e : Dimension) :
    functionHeader v e ∈ h.lines ↔ v = uid ∧ e = d := by
  constructor
  · intro hmem
    rcases head_of_mem_lines hh hmem with heq | hhead
    · exact functionHeader_injective heq
    · refine absurd ?_ hhead
      rw [toList_functionHeader]
      rfl
  · rintro ⟨rfl, rfl⟩
    obtain ⟨_, distance, combine, hlines⟩ := helper_eq_ok hh
    rw [hlines]
    exact List.mem_cons_of_mem _ (List.mem_cons_of_mem _ List.mem_cons_self)

/-- The helper is the one that is generated for the node. -/
def Helper.IsFor (h : Helper) (n : Node) : Prop :=
  ∃ noise, n.kind = .noise noise ∧ noise.isCustom = true ∧
    helper n.uid noise.dimension noise.formulas = .ok h

end Worley

/-! ## The helpers of a program -/

/-- Whether the node has formulas of its own. -/
def Node.isCustom (n : Node) : Bool :=
  match n.kind with
  | .noise noise => noise.isCustom
  | _ => false

theorem Wiring.helperOf_cases {n : Node} {result : Option Worley.Helper}
    (h : helperOf n = .ok result) :
    (n.isCustom = false ∧ result = none) ∨
      ∃ helper, n.isCustom = true ∧ result = some helper ∧ helper.IsFor n := by
  unfold helperOf Kind.helper? at h
  unfold Node.isCustom Worley.Helper.IsFor
  cases hkind : n.kind with
  | noise noise =>
      rw [hkind] at h
      by_cases hcustom : noise.isCustom = true
      · right
        cases hhelper : Worley.helper n.uid noise.dimension noise.formulas with
        | error role =>
            simp only [hcustom, if_true, hhelper] at h
            cases h
        | ok helper =>
            simp only [hcustom, if_true, hhelper] at h
            exact ⟨helper, hcustom, (Except.ok.inj h).symm, noise, rfl, hcustom, hhelper⟩
      · left
        simp only [hcustom] at h
        exact ⟨by simpa using hcustom, (Except.ok.inj h).symm⟩
  | math op =>
      rw [hkind] at h
      exact .inl ⟨rfl, (Except.ok.inj h).symm⟩
  | coordinate axis =>
      rw [hkind] at h
      exact .inl ⟨rfl, (Except.ok.inj h).symm⟩

/-- There is one helper for each node with formulas of its own, in order, and no other. -/
theorem Graph.forall₂_helpers {g : Graph} {options : Options} {nodes : List Node}
    {es : List Emission} (h : List.Forall₂ (fun n e => g.wiring.emit options n = .ok e) nodes es) :
    List.Forall₂ (fun n helper => Worley.Helper.IsFor helper n) (nodes.filter Node.isCustom)
      (es.filterMap Emission.helper) := by
  induction h with
  | nil => exact .nil
  | @cons n e nodes es hemit _ ih =>
      rcases Wiring.helperOf_cases (emit_eq_ok hemit).2.1 with ⟨hcustom, hnone⟩ |
        ⟨helper, hcustom, hsome, hfor⟩
      · rw [List.filter_cons_of_neg (by simp [hcustom]), List.filterMap_cons_none hnone]
        exact ih
      · rw [List.filter_cons_of_pos hcustom, List.filterMap_cons_some hsome]
        exact .cons hfor ih

end NoiseShader
