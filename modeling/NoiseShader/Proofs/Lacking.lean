import NoiseShader.Proofs.Closure

set_option autoImplicit false

/-! # Characters that generated text lacks

Line feeds and carriage returns end a line, and braces open and close a block. Texts that are made
of words, literals and known pieces have none of these characters (`Shading.Expr.lacks_render`), and
neither have the lines of a helper other than its braces and macros. All lemmas are for one
character at a time, as some texts may hold one of these characters and not another.
-/

namespace NoiseShader

open Shading

/-! ## Texts without a character -/

/-- The character is not in the text. -/
def Lacks (c : Char) (text : String) : Prop := c ∉ text.toList

/-- What ends a line, and what opens and closes a block. -/
def breaks : List Char := ['\n', '\r', '\x7b', '\x7d']

section

variable {c : Char}

/-- The characters of a text that is known are looked through. -/
theorem lacks_literal {cs : List Char} (h : cs.elem c = false) : Lacks c (String.ofList cs) := by
  rw [Lacks, String.toList_ofList]
  simpa using h

theorem notMem_of_all (hc : c ∈ breaks) {cs : List Char}
    (h : (cs.all fun d => !breaks.elem d) = true) : c ∉ cs := by
  intro hmem
  have hother := List.all_eq_true.mp h c hmem
  rw [List.elem_eq_true_of_mem hc] at hother
  cases hother

theorem lacks_known (hc : c ∈ breaks) {cs : List Char}
    (h : (cs.all fun d => !breaks.elem d) = true) : Lacks c (String.ofList cs) := by
  rw [Lacks, String.toList_ofList]
  exact notMem_of_all hc h

theorem lacks_append (c : Char) (s t : String) : Lacks c (s ++ t) ↔ Lacks c s ∧ Lacks c t := by
  simp [Lacks]

theorem mem_intercalate {separator : List Char} {parts : List (List Char)}
    (h : c ∈ List.intercalate separator parts) : c ∈ separator ∨ ∃ part ∈ parts, c ∈ part := by
  induction parts with
  | nil => cases h
  | cons part parts ih =>
      cases parts with
      | nil =>
          rw [List.intercalate_singleton] at h
          exact .inr ⟨part, List.mem_cons_self, h⟩
      | cons next parts =>
          rw [List.intercalate_cons_cons] at h
          rcases List.mem_append.mp h with h | h
          · rcases List.mem_append.mp h with h | h
            · exact .inr ⟨part, List.mem_cons_self, h⟩
            · exact .inl h
          · rcases ih h with h | ⟨other, hother, h⟩
            · exact .inl h
            · exact .inr ⟨other, List.mem_cons_of_mem _ hother, h⟩

theorem lacks_intercalate {separator : String} {texts : List String}
    (hseparator : Lacks c separator) (h : ∀ text ∈ texts, Lacks c text) :
    Lacks c (String.intercalate separator texts) := by
  intro hmem
  rw [String.toList_intercalate] at hmem
  rcases mem_intercalate hmem with hmem | ⟨part, hpart, hmem⟩
  · exact hseparator hmem
  · obtain ⟨text, htext, rfl⟩ := List.mem_map.mp hpart
    exact h text htext hmem

theorem lacks_margin (hc : c ∈ breaks) (depth : Nat) :
    Lacks c (String.join (List.replicate depth "    ")) := by
  have hblanks : Lacks c "    " := lacks_known hc rfl
  rw [Lacks, String.toList_join, List.mem_flatMap]
  rintro ⟨blanks, hmem, hin⟩
  rw [(List.mem_replicate.mp hmem).2] at hin
  exact hblanks hin

theorem lacks_indented (hc : c ∈ breaks) (depth : Nat) {text : String} (h : Lacks c text) :
    Lacks c (indented depth text) :=
  (lacks_append c _ _).mpr ⟨lacks_margin hc depth, h⟩

/-! ## Words, literals and numbers -/

theorem not_isWordChar_of_mem_breaks (hc : c ∈ breaks) : Token.isWordChar c = false := by
  have hall : (breaks.all fun c => !Token.isWordChar c) = true := by decide
  simpa using List.all_eq_true.mp hall c hc

theorem not_isDigit_of_mem_breaks (hc : c ∈ breaks) : c.isDigit = false := by
  rw [← Bool.not_eq_true]
  intro hdigit
  have hword := not_isWordChar_of_mem_breaks hc
  rw [Token.isWordChar_of_isDigit hdigit] at hword
  cases hword

theorem lacks_of_isWord (hc : c ∈ breaks) {text : String} (h : Token.IsWord text.toList) :
    Lacks c text :=
  h.notMem (not_isWordChar_of_mem_breaks hc)

/-- A number goes on with none of these characters. -/
theorem notMem_of_number_absorbs (hc : c ∈ breaks) {text more : List Char}
    (h : (Token.number text).Absorbs more) : c ∉ more := by
  induction more generalizing text with
  | nil => exact List.not_mem_nil
  | cons d more ih =>
      intro hmem
      rcases List.mem_cons.mp hmem with rfl | hmem
      · have hmark : c ∉ ['.', '+', '-'] := notMem_of_all hc rfl
        have hstop : (Token.number text).continues c = false := by
          simp only [List.mem_cons, not_or] at hmark
          simp [Token.continues, not_isWordChar_of_mem_breaks hc, hmark]
        rw [h.1] at hstop
        cases hstop
      · exact ih h.2 hmem

theorem notMem_of_isLiteral (hc : c ∈ breaks) {text : List Char} (h : Token.isLiteral text = true) :
    c ∉ text := by
  obtain ⟨whole, tail, rfl, hwhole, htail⟩ := Token.isLiteral_cases h
  intro hmem
  rcases List.mem_append.mp hmem with hmem | hmem
  · have hdigit := ((Token.isDigits_iff whole).mp hwhole).2 c hmem
    rw [not_isDigit_of_mem_breaks hc] at hdigit
    cases hdigit
  · exact notMem_of_number_absorbs hc (Token.number_absorbs_literal_tail [] htail) hmem

theorem UID.lacks_text (hc : c ∈ breaks) (uid : UID) : Lacks c (UID.text uid) := by
  intro hmem
  rw [UID.toList_text] at hmem
  have hdigit := Nat.isDigit_of_mem_toDigits (by decide) (by decide) hmem
  rw [not_isDigit_of_mem_breaks hc] at hdigit
  cases hdigit

theorem Dimension.lacks_typeName (hc : c ∈ breaks) (d : Dimension) : Lacks c d.typeName := by
  cases d <;> exact lacks_known hc rfl

/-! ## Expressions -/

namespace Shading

theorem Expr.lacks_operandText (hc : c ∈ breaks) {needed : Nat} {e : Expr} {text : String}
    (h : Lacks c text) : Lacks c (operandText needed e text) := by
  unfold operandText
  split
  · simp only [parenthesize, lacks_append]
    exact ⟨⟨lacks_known hc rfl, h⟩, lacks_known hc rfl⟩
  · exact h

/-- The text of a component lacks what the name of its object lacks, be it a word or not. -/
theorem Expr.lacks_component (hc : c ∈ breaks) {object : String} (h : Lacks c object)
    (axis : Axis) : Lacks c (component object axis).render := by
  have haxis : Lacks c axis.component := by cases axis <;> exact lacks_known hc rfl
  simp only [render, lacks_append, and_assoc]
  exact ⟨h, lacks_known hc rfl, haxis⟩

mutual

/-- Where every name is a word and every number a literal, there is nothing else. -/
theorem Expr.lacks_render (hc : c ∈ breaks) (e : Expr) (h : e.Readable) : Lacks c e.render := by
  cases e with
  | atom text =>
      rcases h with hword | hliteral | ⟨magnitude, htext, hliteral⟩
      · exact lacks_of_isWord hc hword
      · exact notMem_of_isLiteral hc hliteral
      · have hminus : Lacks c "-" := lacks_known hc rfl
        intro hmem
        rw [render, htext] at hmem
        rcases List.mem_cons.mp hmem with rfl | hmem
        · exact hminus List.mem_cons_self
        · exact notMem_of_isLiteral hc hliteral hmem
  | negate operand =>
      rw [render, lacks_append]
      exact ⟨lacks_known hc rfl, lacks_operandText hc (lacks_render hc operand h)⟩
  | binary operator left right =>
      have hleft := lacks_render hc left h.1
      have hright := lacks_render hc right h.2
      have hblank : Lacks c " " := lacks_known hc rfl
      have hsymbol : Lacks c operator.symbol := by cases operator <;> exact lacks_known hc rfl
      simp only [render, lacks_append, and_assoc]
      exact ⟨lacks_operandText hc hleft, hblank, hsymbol, hblank, lacks_operandText hc hright⟩
  | call function arguments =>
      have harguments : Lacks c (String.intercalate ", " (renderAll arguments)) :=
        lacks_intercalate (lacks_known hc rfl) (lacks_renderAll hc arguments h.2)
      simp only [render, lacks_append, and_assoc]
      exact ⟨lacks_of_isWord hc h.1, lacks_known hc rfl, harguments, lacks_known hc rfl⟩
  | component object axis =>
      exact lacks_component hc (lacks_of_isWord hc h) axis

theorem Expr.lacks_renderAll (hc : c ∈ breaks) (es : List Expr) (h : AllReadable es) :
    ∀ text ∈ renderAll es, Lacks c text := by
  cases es with
  | nil =>
      intro text htext
      cases htext
  | cons e es =>
      intro text htext
      rcases List.mem_cons.mp htext with rfl | htext
      · exact lacks_render hc e h.1
      · exact lacks_renderAll hc es h.2 text htext

end

theorem Declaration.lacks_render (hc : c ∈ breaks) {d : Declaration}
    (hname : Lacks c d.variableName) (hvalue : Lacks c d.value.render) : Lacks c d.render := by
  simp only [render, lacks_append, and_assoc]
  exact ⟨lacks_known hc rfl, hname, lacks_known hc rfl, hvalue, lacks_known hc rfl⟩

end Shading

/-! ## The lines of a helper -/

namespace Worley

theorem renderAll_map_atom (texts : List String) : Expr.renderAll (texts.map .atom) = texts := by
  induction texts with
  | nil => rfl
  | cons text texts ih => rw [List.map_cons, Expr.renderAll, Expr.render, ih]

theorem lacks_position (hc : c ∈ breaks) (d : Dimension) {components : List String}
    (h : ∀ text ∈ components, Lacks c text) : Lacks c (position d components) := by
  have hcomponents : Lacks c (String.intercalate ", " components) :=
    lacks_intercalate (lacks_known hc rfl) h
  unfold position
  cases d with
  | one =>
      rw [positionArguments, renderAll_map_atom]
      exact hcomponents
  | two | three =>
      simp only [positionArguments, Expr.renderAll, Expr.render, renderAll_map_atom,
        String.intercalate_singleton, lacks_append, and_assoc]
      exact ⟨Dimension.lacks_typeName hc _, lacks_known hc rfl, hcomponents, lacks_known hc rfl⟩

theorem lacks_macroName (hc : c ∈ breaks) (uid : UID) (role : Role) :
    Lacks c (role.macroName uid) := by
  cases role <;> exact (lacks_append c _ _).mpr ⟨lacks_known hc rfl, uid.lacks_text hc⟩

theorem lacks_loopVariables (hc : c ∈ breaks) (d : Dimension) :
    ∀ name ∈ loopVariables d, Lacks c name := by
  rw [loopVariables, List.forall_mem_map]
  intro axis _
  cases axis <;> exact lacks_known hc rfl

theorem lacks_loopHeaders (hc : c ∈ breaks) (d : Dimension) :
    ∀ header ∈ loopHeaders d, Lacks c header := by
  rw [loopHeaders, List.forall_mem_map]
  intro name hname
  have hvariable := lacks_loopVariables hc d name hname
  have hfirst : toString firstOffset = "-1" := rfl
  have hlast : toString lastOffset = "1" := rfl
  unfold loopHeader
  simp only [hfirst, hlast, lacks_append, and_assoc]
  refine ⟨?_, hvariable, ?_, ?_, ?_, hvariable, ?_, ?_, ?_, hvariable, ?_⟩
  all_goals exact lacks_known hc rfl

/-- The lines of the search that have something of the node in them. -/
theorem lacks_searchTexts (hc : c ∈ breaks) (uid : UID) (d : Dimension) :
    Lacks c (d.typeName ++ " neighbor = cell + " ++ position d (loopVariables d) ++ ";") ∧
    Lacks c (d.typeName ++ " jitter = " ++ position d (d.axes.map fun axis =>
      NoiseFamily.white.primitive d ++ "(neighbor" ++ salt axis ++ ")") ++ ";") ∧
    Lacks c (d.typeName ++ " site = neighbor + 0.5 + (jitter - 0.5) * variance;") ∧
    Lacks c ("float d = " ++ distanceMacro uid ++ "(p, site);") := by
  have hvector := d.lacks_typeName hc
  have hloops := lacks_position hc d (lacks_loopVariables hc d)
  have hjitter : Lacks c (position d (d.axes.map fun axis =>
      NoiseFamily.white.primitive d ++ "(neighbor" ++ salt axis ++ ")")) := by
    refine lacks_position hc d ?_
    rw [List.forall_mem_map]
    intro axis _
    have hprimitive : Lacks c (NoiseFamily.white.primitive d) :=
      lacks_of_isWord hc (NoiseFamily.white.isLibraryName_primitive d).1
    have hsalt : Lacks c (salt axis) := by cases axis <;> exact lacks_known hc rfl
    simp only [lacks_append, and_assoc]
    exact ⟨hprimitive, lacks_known hc rfl, hsalt, lacks_known hc rfl⟩
  have hmacro : Lacks c (distanceMacro uid) := lacks_macroName hc uid .distance
  simp only [lacks_append, and_assoc]
  refine ⟨hvector, ?_, hloops, ?_, hvector, ?_, hjitter, ?_, hvector, ?_, ?_, hmacro, ?_⟩
  all_goals exact lacks_known hc rfl

theorem lacks_functionHeader (hc : c ∈ breaks) (uid : UID) (d : Dimension) :
    Lacks c (functionHeader uid d) := by
  have hname : Lacks c (Noise.helperName uid) := lacks_of_isWord hc (Noise.isWord_helperName uid)
  have hvector := d.lacks_typeName hc
  unfold functionHeader
  simp only [lacks_append, and_assoc]
  refine ⟨?_, hname, ?_, hvector, ?_, hvector, ?_⟩
  all_goals exact lacks_known hc rfl

theorem lacks_cellLine (hc : c ∈ breaks) (d : Dimension) :
    Lacks c (d.typeName ++ " cell = floor(p);") :=
  (lacks_append c _ _).mpr ⟨d.lacks_typeName hc, lacks_known hc rfl⟩

theorem lacks_returnLine (hc : c ∈ breaks) (uid : UID) :
    Lacks c ("return " ++ combineMacro uid ++ "(nearest, second);") := by
  simp only [lacks_append, and_assoc]
  exact ⟨lacks_known hc rfl, lacks_macroName hc uid .combine, lacks_known hc rfl⟩

theorem lacks_undefine (hc : c ∈ breaks) (uid : UID) (role : Role) :
    Lacks c ("#undef " ++ role.macroName uid) :=
  (lacks_append c _ _).mpr ⟨lacks_known hc rfl, lacks_macroName hc uid role⟩

end Worley

end

end NoiseShader
