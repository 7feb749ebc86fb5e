import NoiseShader.Proofs.Confinement

set_option autoImplicit false

/-! # Carriage returns in the macros of a helper

A formula is put on one line by joining what stands between its line feeds, without the blanks at the
ends. A carriage return is a blank, so it is gone if it stands at the end of a line; between two
characters that are no blanks it stays (`Formula.return_mem_flatten_iff`). Where carriage returns end a
directive too, such a formula is cut off inside its macro (`Worley.directive_whole_iff`).
-/

namespace NoiseShader

/-! ## What is left of a line -/

namespace Text

/-- Blanks are dropped no further than to the first character that is none. -/
theorem dropWhile_append_visible {c : Char} (hc : isBlank c = false) (before after : List Char) :
    (before ++ c :: after).dropWhile isBlank = before.dropWhile isBlank ++ c :: after := by
  induction before with
  | nil => rw [List.nil_append, List.dropWhile_cons_of_neg (by simp [hc])]; rfl
  | cons b before ih =>
      by_cases hb : isBlank b = true
      · rw [List.cons_append, List.dropWhile_cons_of_pos hb, List.dropWhile_cons_of_pos hb, ih]
      · rw [List.cons_append, List.dropWhile_cons_of_neg hb, List.dropWhile_cons_of_neg hb,
          List.cons_append]

/-- What stands between two characters that are no blanks is kept. -/
theorem mem_trim_of_between {c d : Char} (hc : isBlank c = false) (hd : isBlank d = false)
    (before after : List Char) {between : List Char} {x : Char} (hx : x ∈ between) :
    x ∈ trim (before ++ c :: (between ++ d :: after)) := by
  have hback : (before.dropWhile isBlank ++ c :: (between ++ d :: after)).reverse =
      after.reverse ++ d :: (between.reverse ++ c :: (before.dropWhile isBlank).reverse) := by
    simp
  rw [trim, dropWhile_append_visible hc, hback, dropWhile_append_visible hd]
  simp [hx]

/-- Behind the leading blanks of a text stands a character that is none. -/
theorem exists_first_visible {x : Char} (hx : isBlank x = true) {cs : List Char}
    (h : x ∈ cs.dropWhile isBlank) : ∃ before c after, cs = before ++ c :: after ∧
      isBlank c = false ∧ cs.dropWhile isBlank = c :: after ∧ x ∈ after := by
  induction cs with
  | nil => cases h
  | cons c cs ih =>
      by_cases hc : isBlank c = true
      · rw [List.dropWhile_cons_of_pos hc] at h ⊢
        obtain ⟨before, d, after, rfl, hrest⟩ := ih h
        exact ⟨c :: before, d, after, rfl, hrest⟩
      · rw [List.dropWhile_cons_of_neg hc] at h ⊢
        refine ⟨[], c, cs, rfl, by simpa using hc, rfl, ?_⟩
        rcases List.mem_cons.mp h with rfl | h
        · exact absurd hx hc
        · exact h

/-- A blank that is kept stands between two characters that are none. -/
theorem between_of_mem_trim {x : Char} (hx : isBlank x = true) {line : List Char}
    (h : x ∈ trim line) : ∃ before c between d after,
      line = before ++ c :: (between ++ d :: after) ∧ isBlank c = false ∧ isBlank d = false ∧
        x ∈ between := by
  unfold trim at h
  -- first from the end of the line, then from its beginning
  obtain ⟨after, d, kept, hback, hd, _, hkept⟩ := exists_first_visible hx (List.mem_reverse.mp h)
  have hfront : line.dropWhile isBlank = kept.reverse ++ d :: after.reverse := by
    rw [← List.reverse_reverse (line.dropWhile isBlank), hback]
    simp
  have hmem : x ∈ line.dropWhile isBlank := by simp [hfront, hkept]
  obtain ⟨before, c, rest, hline, hc, hdrop, _⟩ := exists_first_visible hx hmem
  rw [hfront] at hdrop
  -- what is kept begins with a character that is no blank, so the blank comes later
  cases hreverse : kept.reverse with
  | nil =>
      rw [List.reverse_eq_nil_iff.mp hreverse] at hkept
      cases hkept
  | cons c' between =>
      rw [hreverse, List.cons_append] at hdrop
      obtain ⟨rfl, rfl⟩ := List.cons.inj hdrop
      refine ⟨before, c', between, d, after.reverse, hline, hc, hd, ?_⟩
      have hbetween : x ∈ c' :: between := hreverse ▸ List.mem_reverse.mpr hkept
      rcases List.mem_cons.mp hbetween with rfl | hbetween
      · rw [hx] at hc
        cases hc
      · exact hbetween

/-! ## Lines and the text between line feeds -/

theorem exists_splitLines (cs : List Char) : ∃ line rest, splitLines cs = line :: rest := by
  cases cs with
  | nil => exact ⟨[], [], rfl⟩
  | cons c cs =>
      rw [splitLines]
      split
      · exact ⟨_, _, rfl⟩
      · split
        · exact ⟨_, _, rfl⟩
        · exact ⟨_, _, rfl⟩

theorem splitLines_lineFeed (cs : List Char) : splitLines ('\n' :: cs) = [] :: splitLines cs :=
  rfl

theorem splitLines_cons {c : Char} (hc : c ≠ '\n') {cs line : List Char} {rest : List (List Char)}
    (h : splitLines cs = line :: rest) : splitLines (c :: cs) = (c :: line) :: rest := by
  rw [splitLines, if_neg hc, h]

theorem intercalate_splitLines (cs : List Char) :
    List.intercalate ['\n'] (splitLines cs) = cs := by
  induction cs with
  | nil => rfl
  | cons c cs ih =>
      obtain ⟨line, rest, hsplit⟩ := exists_splitLines cs
      by_cases hc : c = '\n'
      · subst hc
        rw [splitLines_lineFeed, hsplit, List.intercalate_cons_cons, ← hsplit, ih]
        rfl
      · rw [splitLines_cons hc hsplit]
        rw [hsplit] at ih
        cases rest with
        | nil =>
            rw [List.intercalate_singleton] at ih ⊢
            rw [ih]
        | cons next rest =>
            rw [List.intercalate_cons_cons, List.append_assoc] at ih ⊢
            rw [List.cons_append, ih]

theorem infix_intercalate {separator part : List Char} {parts : List (List Char)} (h : part ∈ parts) :
    part <:+: List.intercalate separator parts := by
  induction parts with
  | nil => cases h
  | cons first parts ih =>
      cases parts with
      | nil =>
          obtain rfl := List.mem_singleton.mp h
          rw [List.intercalate_singleton]
      | cons next parts =>
          rw [List.intercalate_cons_cons]
          rcases List.mem_cons.mp h with rfl | h
          · rw [List.append_assoc]
            exact (List.prefix_append _ _).isInfix
          · exact (ih h).trans (List.suffix_append _ _).isInfix

/-- What begins a text, up to its first line feed at most, begins the first line. -/
theorem exists_first_line {cs part : List Char} (hpart : '\n' ∉ part) (h : part <+: cs) :
    ∃ line rest, splitLines cs = line :: rest ∧ part <+: line := by
  induction cs generalizing part with
  | nil => exact ⟨[], [], rfl, h⟩
  | cons c cs ih =>
      cases part with
      | nil =>
          obtain ⟨line, rest, hsplit⟩ := exists_splitLines (c :: cs)
          exact ⟨line, rest, hsplit, List.nil_prefix⟩
      | cons d part =>
          obtain ⟨rfl, hprefix⟩ := List.cons_prefix_cons.mp h
          rw [List.mem_cons, not_or] at hpart
          obtain ⟨line, rest, hsplit, hline⟩ := ih hpart.2 hprefix
          exact ⟨d :: line, rest, splitLines_cons (Ne.symm hpart.1) hsplit,
            List.cons_prefix_cons.mpr ⟨rfl, hline⟩⟩

/-- What holds no line feed lies within a line. -/
theorem exists_line_of_infix {cs part : List Char} (hpart : '\n' ∉ part) (h : part <:+: cs) :
    ∃ line ∈ splitLines cs, part <:+: line := by
  induction cs with
  | nil => exact ⟨[], List.mem_singleton_self [], h⟩
  | cons c cs ih =>
      rcases List.infix_cons_iff.mp h with hprefix | hinner
      · obtain ⟨line, rest, hsplit, hline⟩ := exists_first_line hpart hprefix
        exact ⟨line, hsplit ▸ List.mem_cons_self, hline.isInfix⟩
      · obtain ⟨line, hline, hin⟩ := ih hinner
        by_cases hc : c = '\n'
        · subst hc
          exact ⟨line, List.mem_cons_of_mem _ hline, hin⟩
        · obtain ⟨first, rest, hsplit⟩ := exists_splitLines cs
          rw [hsplit] at hline
          rw [splitLines_cons hc hsplit]
          rcases List.mem_cons.mp hline with rfl | hline
          · exact ⟨c :: line, List.mem_cons_self, hin.trans (List.suffix_cons c line).isInfix⟩
          · exact ⟨line, List.mem_cons_of_mem _ hline, hin⟩

end Text

/-! ## Formulas with a carriage return inside -/

namespace Formula

open Text

/-- A carriage return stands between two characters that are no blanks, with no line feed between
them. -/
def ReturnInside (formula : String) : Prop :=
  ∃ before c between d after, formula.toList = before ++ c :: (between ++ d :: after) ∧
    isBlank c = false ∧ isBlank d = false ∧ '\r' ∈ between ∧ '\n' ∉ between

theorem return_mem_flatten_iff (formula : String) :
    '\r' ∈ (flatten formula).toList ↔ ReturnInside formula := by
  unfold flatten
  rw [String.toList_ofList]
  constructor
  · intro hmem
    rcases mem_intercalate hmem with hspace | ⟨part, hpart, hmem⟩
    · exact absurd hspace (by decide)
    obtain ⟨line, hline, rfl⟩ := List.mem_map.mp (List.mem_filter.mp hpart).1
    have hfeed := notMem_of_mem_splitLines hline
    obtain ⟨before, c, between, d, after, rfl, hc, hd, hreturn⟩ :=
      between_of_mem_trim (by decide) hmem
    -- the line lies somewhere in the formula
    obtain ⟨front, back, htext⟩ := intercalate_splitLines formula.toList ▸ infix_intercalate hline
    refine ⟨front ++ before, c, between, d, after ++ back, ?_, hc, hd, hreturn, ?_⟩
    · rw [← htext]
      simp
    · intro hmem
      exact hfeed (by simp [hmem])
  · rintro ⟨before, c, between, d, after, htext, hc, hd, hreturn, hfeed⟩
    have hvisible : ∀ x, isBlank x = false → '\n' ≠ x := by
      rintro x hx rfl
      exact absurd hx (by decide)
    have hpart : '\n' ∉ c :: (between ++ [d]) := by
      simp [hfeed, hvisible c hc, hvisible d hd]
    have hinfix : c :: (between ++ [d]) <:+: formula.toList := ⟨before, after, by simp [htext]⟩
    obtain ⟨line, hline, front, back, rfl⟩ := exists_line_of_infix hpart hinfix
    have hkept : '\r' ∈ trim (front ++ (c :: (between ++ [d])) ++ back) := by
      simpa using mem_trim_of_between hc hd front back hreturn
    refine (infix_intercalate (List.mem_filter.mpr ⟨List.mem_map_of_mem hline, ?_⟩)).subset hkept
    simpa using List.ne_nil_of_mem hkept

/-- A character that is no part of a placeholder is kept when the formula is filled in. -/
theorem mem_fill_of_mem {x : Char} (hx : x ∉ ['$', '1', '2']) (first second : List Char)
    {cs : List Char} (h : x ∈ cs) : x ∈ (pieces cs).flatMap (Piece.fill first second) := by
  simp only [List.mem_cons, List.not_mem_nil, or_false, not_or] at hx
  fun_induction pieces cs with
  | case1 => cases h
  | case2 rest ih =>
      simp only [List.mem_cons, hx, false_or] at h
      exact List.mem_append_right _ (ih h)
  | case3 rest ih =>
      simp only [List.mem_cons, hx, false_or] at h
      exact List.mem_append_right _ (ih h)
  | case4 c rest _ _ ih =>
      rcases List.mem_cons.mp h with rfl | h
      · exact List.mem_append_left _ (List.mem_singleton_self x)
      · exact List.mem_append_right _ (ih h)

end Formula

/-! ## Macros -/

namespace Worley

theorem return_mem_bodyText_iff (formula : String) :
    '\r' ∈ (bodyText formula).toList ↔ Formula.ReturnInside formula := by
  rw [← Formula.return_mem_flatten_iff, bodyText, Formula.expand, String.toList_ofList]
  constructor
  · intro hmem
    rcases Formula.mem_of_mem_fill hmem with hmem | hmem | hmem
    · exact hmem
    · exact absurd hmem (by decide)
    · exact absurd hmem (by decide)
  · exact Formula.mem_fill_of_mem (by decide) _ _

def Role.formula (formulas : CellFormulas) : Role → String
  | distance => formulas.distance
  | combine => formulas.combine

/-- The line that defines the macro of a formula. -/
def macroLine (uid : UID) (formulas : CellFormulas) (role : Role) : String :=
  define (role.macroName uid) (bodyText (role.formula formulas))

theorem return_mem_macroLine_iff (uid : UID) (formulas : CellFormulas) (role : Role) :
    '\r' ∈ (macroLine uid formulas role).toList ↔
      Formula.ReturnInside (role.formula formulas) := by
  have hname : '\r' ∉ (role.macroName uid).toList := lacks_macroName (by decide) uid role
  have hdefine : '\r' ∉ "#define ".toList := lacks_literal rfl
  have hopen : '\r' ∉ "(a, b) (".toList := lacks_literal rfl
  have hclose : '\r' ∉ ")".toList := lacks_literal rfl
  delta macroLine define
  simp only [String.toList_append, List.mem_append, hname, hdefine, hopen, hclose, false_or,
    or_false, return_mem_bodyText_iff]

theorem lines_eq_macroLine {uid : UID} {d : Dimension} {formulas : CellFormulas} {h : Helper}
    (hh : helper uid d formulas = .ok h) :
    h.lines = macroLine uid formulas .distance :: macroLine uid formulas .combine ::
      functionLines uid d := by
  -- a helper that is there is the one of formulas that are not blank
  have hdistance : ¬ Formula.Blank formulas.distance := by
    intro hblank
    rw [(helper_eq_error_iff uid d formulas .distance).mpr (.inl ⟨hblank, rfl⟩)] at hh
    cases hh
  have hcombine : ¬ Formula.Blank formulas.combine := by
    intro hblank
    rw [(helper_eq_error_iff uid d formulas .combine).mpr (.inr ⟨hdistance, hblank, rfl⟩)] at hh
    cases hh
  rw [helper_of_not_blank hdistance hcombine] at hh
  obtain rfl := Except.ok.inj hh
  rfl

/-! ## The main result -/

/-- What is read as the directive at the beginning of a text if line feeds and carriage returns both
end one. -/
def directive (cs : List Char) : List Char := cs.takeWhile fun c => c != '\n' && c != '\r'

theorem directive_line_iff (line more : List Char) :
    directive (line ++ '\n' :: more) = line ↔ '\n' ∉ line ∧ '\r' ∉ line := by
  unfold directive
  constructor
  · intro h
    refine ⟨fun hmem => ?_, fun hmem => ?_⟩
    · rw [← h] at hmem
      exact absurd (List.mem_takeWhile_imp hmem) (by decide)
    · rw [← h] at hmem
      exact absurd (List.mem_takeWhile_imp hmem) (by decide)
  · rintro ⟨hfeed, hreturn⟩
    rw [List.takeWhile_append_of_pos, List.takeWhile_cons_of_neg (by decide), List.append_nil]
    intro c hc
    have hfeed : c ≠ '\n' := ne_of_mem_of_not_mem hc hfeed
    have hreturn : c ≠ '\r' := ne_of_mem_of_not_mem hc hreturn
    simp [hfeed, hreturn]

/-- The macros of a helper stand on lines without line feeds. Such a line has a carriage return exactly
if its formula has one between two characters of a line that are no blanks, and these are the macros
that are cut off where a carriage return ends a directive. -/
theorem directive_whole_iff {uid : UID} {d : Dimension} {formulas : CellFormulas} {h : Helper}
    (hh : helper uid d formulas = .ok h) :
    h.lines = macroLine uid formulas .distance :: macroLine uid formulas .combine ::
      functionLines uid d ∧
    ∀ role, '\n' ∉ (macroLine uid formulas role).toList ∧
      ('\r' ∉ (macroLine uid formulas role).toList ↔
        ¬ Formula.ReturnInside (role.formula formulas)) ∧
      ∀ more, (directive ((macroLine uid formulas role).toList ++ '\n' :: more) =
        (macroLine uid formulas role).toList ↔ ¬ Formula.ReturnInside (role.formula formulas)) := by
  have hlines := lines_eq_macroLine hh
  refine ⟨hlines, fun role => ?_⟩
  have hfeed : '\n' ∉ (macroLine uid formulas role).toList := by
    refine oneLine_of_mem_lines hh _ ?_
    rw [hlines]
    cases role <;> simp
  have hreturn := not_congr (return_mem_macroLine_iff uid formulas role)
  refine ⟨hfeed, hreturn, fun more => ?_⟩
  rw [directive_line_iff, hreturn]
  exact and_iff_right hfeed

/-- Two lines that are ended by a carriage return alone, and one with blanks at both ends. -/
def oldLineEnds : CellFormulas := ⟨"abs($1.x - $2.x)\r + abs($1.y - $2.y)", "\r$1\r\n"⟩

theorem returnInside_oldLineEnds : Formula.ReturnInside oldLineEnds.distance :=
  ⟨"abs($1.x - $2.x".toList, ')', ['\r', ' '], '+', " abs($1.y - $2.y)".toList, by decide, by decide,
    by decide, by decide, by decide⟩

/-- The carriage return stays in the macro of the distance, and is gone from the other one. -/
theorem directive_whole_iff_oldLineEnds : ∃ h, helper 3 .two oldLineEnds = .ok h ∧
    Formula.ReturnInside oldLineEnds.distance ∧ ¬ Formula.ReturnInside oldLineEnds.combine ∧
    '\r' ∈ (macroLine 3 oldLineEnds .distance).toList ∧
    directive ((macroLine 3 oldLineEnds .combine).toList ++ ['\n']) =
      "#define WORLEY_COMBINE_3(a, b) ((a))".toList := by
  have hh := @helper_of_not_blank oldLineEnds (by decide) (by decide) 3 .two
  obtain ⟨_, hmacros⟩ := directive_whole_iff hh
  have hline : macroLine 3 oldLineEnds .combine = "#define WORLEY_COMBINE_3(a, b) ((a))" := by
    decide +kernel
  obtain ⟨_, hdistance, _⟩ := hmacros .distance
  obtain ⟨_, hcombine, hwhole⟩ := hmacros .combine
  have hnone := hcombine.mp (by rw [hline]; decide)
  refine ⟨_, hh, returnInside_oldLineEnds, hnone, ?_, ?_⟩
  · by_contra hmem
    exact hdistance.mp hmem returnInside_oldLineEnds
  · rw [(hwhole []).mpr hnone, hline]

/-- So a macro does not always stay on one line. -/
theorem macro_line_broken : ∃ h, helper 3 .two oldLineEnds = .ok h ∧
    h.lines.head? =
      some "#define WORLEY_DISTANCE_3(a, b) (abs((a).x - (b).x)\r + abs((a).y - (b).y))" ∧
    ∃ line ∈ h.lines.take 2, '\r' ∈ line.toList := by
  obtain ⟨h, hh⟩ : ∃ h, helper 3 .two oldLineEnds = .ok h :=
    ⟨_, helper_of_not_blank (by decide) (by decide) 3 .two⟩
  have hline : macroLine 3 oldLineEnds .distance =
      "#define WORLEY_DISTANCE_3(a, b) (abs((a).x - (b).x)\r + abs((a).y - (b).y))" := by
    decide +kernel
  have hlines := lines_eq_macroLine hh
  refine ⟨h, hh, by rw [hlines, hline]; rfl, macroLine 3 oldLineEnds .distance, ?_, ?_⟩
  · rw [hlines]
    exact List.mem_cons_self
  · exact (return_mem_macroLine_iff 3 oldLineEnds .distance).mpr returnInside_oldLineEnds

end Worley

end NoiseShader
