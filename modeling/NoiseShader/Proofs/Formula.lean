import NoiseShader.Worley
import Mathlib.Data.List.DropRight

set_option autoImplicit false

/-! # Blank formulas

A formula is blank if it has no character but blanks. These are the formulas of which nothing is
left on one line, so a helper function is generated exactly for the other ones
(`Worley.helper_eq_error_iff`).
-/

namespace NoiseShader

namespace Text

theorem trim_eq_nil_iff (cs : List Char) : trim cs = [] ↔ ∀ c ∈ cs, isBlank c = true := by
  unfold trim
  rw [List.reverse_eq_nil_iff, List.dropWhile_eq_nil_iff]
  constructor
  · intro h
    -- what is left after the leading blanks would begin with something else
    have hnil : cs.dropWhile isBlank = [] := by
      by_contra hne
      have hhead := List.head_mem hne
      have hblank := h _ (List.mem_reverse.mpr hhead)
      rw [List.head_dropWhile_not isBlank hne] at hblank
      cases hblank
    exact List.dropWhile_eq_nil_iff.mp hnil
  · intro h c hc
    rw [List.dropWhile_eq_nil_iff.mpr h] at hc
    cases hc

/-- The lines of a text hold its characters in order, less the line feeds. -/
theorem flatten_splitLines (cs : List Char) :
    (splitLines cs).flatten = cs.filter (· != '\n') := by
  induction cs with
  | nil => rfl
  | cons c cs ih =>
      by_cases hc : c = '\n'
      · rw [splitLines, if_pos hc, List.flatten_cons, List.nil_append, ih,
          List.filter_cons_of_neg (by simp [hc])]
      · rw [splitLines, if_neg hc, List.filter_cons_of_pos (by simp [hc]), ← ih]
        cases splitLines cs with
        | nil => rfl
        | cons line rest => rfl

theorem isBlank_lineFeed : isBlank '\n' = true := by decide

end Text

namespace Formula

/-- The formula has no character but blanks. -/
def Blank (formula : String) : Prop := ∀ c ∈ formula.toList, Text.isBlank c = true

instance (formula : String) : Decidable (Blank formula) :=
  decidable_of_iff _ (List.all_eq_true (l := formula.toList))

/-- Parts that are not empty leave something behind when they are joined. -/
theorem intercalate_eq_nil_iff (parts : List (List Char)) (h : ∀ part ∈ parts, part ≠ []) :
    List.intercalate [' '] parts = [] ↔ parts = [] := by
  constructor
  · intro hnil
    cases parts with
    | nil => rfl
    | cons part rest =>
        have hpart : part = [] := by
          cases rest with
          | nil => simpa using hnil
          | cons next rest => simp [List.intercalate_cons_cons] at hnil
        exact absurd hpart (h part List.mem_cons_self)
  · rintro rfl
    rfl

theorem flatten_isEmpty_iff (formula : String) : (flatten formula).isEmpty = true ↔ Blank formula := by
  unfold flatten
  simp only
  rw [String.isEmpty_iff, String.ofList_eq_empty_iff, intercalate_eq_nil_iff,
    List.filter_eq_nil_iff]
  · simp only [List.mem_map, forall_exists_index, and_imp, forall_apply_eq_imp_iff₂,
      Bool.not_eq_true, Bool.not_eq_false', List.isEmpty_iff, Text.trim_eq_nil_iff]
    constructor
    · intro h c hc
      by_cases hfeed : c = '\n'
      · rw [hfeed]
        exact Text.isBlank_lineFeed
      · have hmem : c ∈ (Text.splitLines formula.toList).flatten := by
          rw [Text.flatten_splitLines]
          exact List.mem_filter.mpr ⟨hc, by simpa using hfeed⟩
        obtain ⟨line, hline, hc⟩ := List.mem_flatten.mp hmem
        exact h line hline c hc
    · intro h line hline c hc
      have hmem : c ∈ (Text.splitLines formula.toList).flatten :=
        List.mem_flatten.mpr ⟨line, hline, hc⟩
      rw [Text.flatten_splitLines] at hmem
      exact h c (List.mem_filter.mp hmem).1
  · intro part hpart
    have := (List.mem_filter.mp hpart).2
    simpa using this

end Formula

namespace Worley

theorem macroBody?_eq_none_iff (uid : UID) (role : Role) (formula : String) :
    macroBody? uid role formula = none ↔ Formula.Blank formula := by
  rw [← Formula.flatten_isEmpty_iff]
  unfold macroBody?
  simp only
  split
  · next h => simp [h]
  · next h => simp [h]

/-- A helper fails for its distance formula first. -/
theorem helper_eq_error_iff (uid : UID) (d : Dimension) (formulas : CellFormulas) (role : Role) :
    helper uid d formulas = .error role ↔
      (Formula.Blank formulas.distance ∧ role = .distance) ∨
      (¬ Formula.Blank formulas.distance ∧ Formula.Blank formulas.combine ∧ role = .combine) := by
  rw [← macroBody?_eq_none_iff uid .distance, ← macroBody?_eq_none_iff uid .combine]
  unfold helper
  cases macroBody? uid .distance formulas.distance with
  | none => simp [eq_comm]
  | some distance =>
      cases macroBody? uid .combine formulas.combine with
      | none => simp [eq_comm]
      | some combine => simp

end Worley

end NoiseShader
