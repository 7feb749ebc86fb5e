import NoiseShader.Proofs.LineStructure

set_option autoImplicit false

/-! # Where the formulas of a helper stand

A formula is put on one line, which loses nothing but blanks (`Formula.visible_flatten`), and then
into a macro of its own. All other lines of the helper are the same for every pair of formulas: they
close the braces that they open, and the search for the nearest points stands in one brace for the
function and one for each axis (`Worley.nesting_front`, `Worley.nesting_back`). So a formula has a
bearing on the line of its macro and on no other (`Worley.formulas_stay_in_macros`).
-/

namespace NoiseShader

open Shading

/-! ## What is kept of a formula -/

namespace Text

/-- The characters that are no blanks, in order. -/
def visible (cs : List Char) : List Char := cs.filter fun c => !isBlank c

theorem visible_dropWhile (cs : List Char) : visible (cs.dropWhile isBlank) = visible cs := by
  induction cs with
  | nil => rfl
  | cons c cs ih =>
      by_cases hc : isBlank c = true
      · rw [List.dropWhile_cons_of_pos hc, ih, visible, visible,
          List.filter_cons_of_neg (by simp [hc])]
      · rw [List.dropWhile_cons_of_neg hc]

theorem visible_trim (cs : List Char) : visible (trim cs) = visible cs := by
  have hreverse : ∀ cs : List Char, visible cs.reverse = (visible cs).reverse :=
    fun cs => List.filter_reverse
  rw [trim, hreverse, visible_dropWhile, hreverse, visible_dropWhile, List.reverse_reverse]

theorem visible_flatten (parts : List (List Char)) :
    visible parts.flatten = (parts.map visible).flatten :=
  List.filter_flatten

theorem visible_append (cs ds : List Char) : visible (cs ++ ds) = visible cs ++ visible ds :=
  List.filter_append cs ds

/-- The spaces between the parts of a text are not seen. -/
theorem visible_intercalate (parts : List (List Char)) :
    visible (List.intercalate [' '] parts) = visible parts.flatten := by
  induction parts with
  | nil => rfl
  | cons part parts ih =>
      cases parts with
      | nil => simp
      | cons next parts =>
          have hspace : visible [' '] = [] := by decide
          rw [List.intercalate_cons_cons, visible_append, visible_append, hspace, List.append_nil,
            ih, ← visible_append]
          rfl

end Text

namespace Formula

open Text

/-- Only blanks are lost when a formula is put on one line. -/
theorem visible_flatten (formula : String) :
    visible (flatten formula).toList = visible formula.toList := by
  have hfeed : visible (formula.toList.filter (· != '\n')) = visible formula.toList := by
    rw [visible, List.filter_filter]
    refine List.filter_congr fun c _ => ?_
    by_cases hc : c = '\n'
    · rw [hc]
      decide
    · simp [hc]
  unfold flatten
  rw [String.toList_ofList]
  calc visible (List.intercalate [' '] (((splitLines formula.toList).map trim).filter
          fun part => !part.isEmpty))
      = visible (((splitLines formula.toList).map trim).filter fun part => !part.isEmpty).flatten :=
        visible_intercalate _
    _ = visible ((splitLines formula.toList).map trim).flatten := by
        rw [List.flatten_filter_not_isEmpty]
    _ = ((splitLines formula.toList).map visible).flatten := by
        rw [Text.visible_flatten, List.map_map]
        congr 2
        exact funext visible_trim
    _ = visible formula.toList := by
        rw [← Text.visible_flatten, flatten_splitLines, hfeed]

/-! ## Placeholders -/

/-- The formula, on one line, has a placeholder in it. -/
def Mentions (formula : String) : Prop :=
  "$1".toList <:+: (flatten formula).toList ∨ "$2".toList <:+: (flatten formula).toList

instance (formula : String) : Decidable (Mentions formula) :=
  inferInstanceAs (Decidable (_ ∨ _))

/-- A placeholder is cut out wherever it is written. -/
theorem mem_pieces_iff (cs : List Char) :
    (.first ∈ pieces cs ↔ ['$', '1'] <:+: cs) ∧ (.second ∈ pieces cs ↔ ['$', '2'] <:+: cs) := by
  fun_induction pieces cs with
  | case1 => simp
  | case2 rest ih => simp [List.infix_cons_iff, ih]
  | case3 rest ih => simp [List.infix_cons_iff, ih]
  | case4 c rest hfirst hsecond ih =>
      -- no placeholder starts here, so whatever is in the text is in the rest of it
      have hother : ∀ digit, (∀ more, c = '$' → rest = digit :: more → False) →
          ¬ ['$', digit] <+: c :: rest := by
        rintro digit hdigit ⟨more, heq⟩
        obtain ⟨rfl, rfl⟩ := List.cons.inj heq
        exact hdigit more rfl rfl
      simp [List.infix_cons_iff, ih, hother '1' hfirst, hother '2' hsecond]

theorem isConstant_expand_iff (formula first second : String) :
    (expand (flatten formula) first second).isConstant = true ↔ ¬ Mentions formula := by
  obtain ⟨hfirst, hsecond⟩ := mem_pieces_iff (flatten formula).toList
  simp only [expand, Expansion.isConstant, Bool.and_eq_true, Bool.not_eq_true', Mentions, not_or,
    ← Bool.not_eq_true, List.contains_iff_mem, hfirst, hsecond]
  rfl

end Formula

/-! ## Braces -/

/-- The depth behind a character; none if it is a brace that closes what was not opened. -/
def brace? (depth : Nat) (c : Char) : Option Nat :=
  if c = '\x7b' then some (depth + 1)
  else if c = '\x7d' then (if depth = 0 then none else some (depth - 1))
  else some depth

def lineDepth (depth : Nat) (line : String) : Option Nat := line.toList.foldlM brace? depth

/-- The depth of braces behind some lines, none if a brace closes what was not opened. -/
def nesting (depth : Nat) (lines : List String) : Option Nat := lines.foldlM lineDepth depth

/-- A text without braces leaves the depth as it is. -/
theorem lineDepth_eq {text : String} (h : ∀ c ∈ breaks, Lacks c text) (depth : Nat) :
    lineDepth depth text = some depth := by
  have hopen : '\x7b' ∉ text.toList := h _ (by decide)
  have hclose : '\x7d' ∉ text.toList := h _ (by decide)
  unfold lineDepth
  generalize text.toList = cs at hopen hclose ⊢
  induction cs with
  | nil => rfl
  | cons c cs ih =>
      rw [List.mem_cons, not_or] at hopen hclose
      have hbrace : brace? depth c = some depth := by
        rw [brace?, if_neg (Ne.symm hopen.1), if_neg (Ne.symm hclose.1)]
      rw [List.foldlM_cons, hbrace]
      exact ih hopen.2 hclose.2

theorem lineDepth_indented (depth margin : Nat) (text : String) :
    lineDepth depth (indented margin text) = lineDepth depth text := by
  have hsplit : lineDepth depth (indented margin text) =
      (lineDepth depth (String.join (List.replicate margin "    "))).bind (lineDepth · text) := by
    rw [lineDepth, indented, String.toList_append, List.foldlM_append]
    rfl
  rw [hsplit, lineDepth_eq fun _ hc => lacks_margin hc margin]
  rfl

theorem lineDepth_open (depth margin : Nat) :
    lineDepth depth (indented margin "\x7b") = some (depth + 1) :=
  (lineDepth_indented depth margin _).trans rfl

theorem lineDepth_close (depth margin : Nat) :
    lineDepth (depth + 1) (indented margin "\x7d") = some depth :=
  (lineDepth_indented (depth + 1) margin _).trans rfl

theorem nesting_append (depth : Nat) (front back : List String) :
    nesting depth (front ++ back) = (nesting depth front).bind (nesting · back) :=
  List.foldlM_append

theorem nesting_cons {depth next : Nat} {line : String} (h : lineDepth depth line = some next)
    (lines : List String) : nesting depth (line :: lines) = nesting next lines := by
  rw [nesting, List.foldlM_cons, h]
  rfl

/-- The lines close the braces that they open, and no other. -/
def Balanced (lines : List String) : Prop := ∀ depth, nesting depth lines = some depth

namespace Balanced

theorem nil : Balanced [] := fun _ => rfl

theorem cons {line : String} {lines : List String} (hline : ∀ c ∈ breaks, Lacks c line)
    (hlines : Balanced lines) : Balanced (line :: lines) := fun depth =>
  (nesting_cons (lineDepth_eq hline depth) lines).trans (hlines depth)

theorem indented {margin : Nat} {line : String} {lines : List String}
    (hline : ∀ c ∈ breaks, Lacks c line) (hlines : Balanced lines) :
    Balanced (indented margin line :: lines) := fun depth =>
  (nesting_cons ((lineDepth_indented depth margin line).trans (lineDepth_eq hline depth))
    lines).trans (hlines depth)

theorem block (inner : List String) {first last : Nat} {rest : List String}
    (hinner : Balanced inner) (hrest : Balanced rest) : Balanced
      (Shading.indented first "\x7b" :: (inner ++ Shading.indented last "\x7d" :: rest)) := by
  intro depth
  rw [nesting_cons (lineDepth_open depth first), nesting_append, hinner (depth + 1)]
  exact (nesting_cons (lineDepth_close depth last) rest).trans (hrest depth)

end Balanced

namespace Worley

/-! ## Loops -/

/-- The lines that open a loop for each header. -/
def opening (depth : Nat) : List String → List String
  | [] => []
  | header :: headers =>
    indented depth header :: indented depth "\x7b" :: opening (depth + 1) headers

/-- The lines that close as many loops. -/
def closing (depth : Nat) : Nat → List String
  | 0 => []
  | loops + 1 => closing (depth + 1) loops ++ [indented depth "\x7d"]

/-- The lines of the innermost loop, at the depth of the loop. -/
def searchBlock (uid : UID) (d : Dimension) : List String :=
  (searchLines uid d).map fun entry => indented (d.count + 1 + entry.1) entry.2

theorem nest_eq (depth : Nat) (inner : List (Nat × String)) (headers : List String) :
    nest depth inner headers = opening depth headers ++
      inner.map (fun entry => indented (depth + headers.length + entry.1) entry.2) ++
      closing depth headers.length := by
  induction headers generalizing depth with
  | nil => simp [nest, opening, closing]
  | cons header headers ih =>
      rw [nest, ih]
      simp [opening, closing, Nat.add_assoc, Nat.add_comm 1]

theorem nesting_opening {headers : List String}
    (h : ∀ header ∈ headers, ∀ c ∈ breaks, Lacks c header) (depth margin : Nat) :
    nesting depth (opening margin headers) = some (depth + headers.length) := by
  induction headers generalizing depth margin with
  | nil => rfl
  | cons header headers ih =>
      obtain ⟨hheader, hheaders⟩ := List.forall_mem_cons.mp h
      have hline : lineDepth depth (indented margin header) = some depth :=
        (lineDepth_indented depth margin _).trans (lineDepth_eq hheader depth)
      rw [opening, nesting_cons hline, nesting_cons (lineDepth_open depth margin), ih hheaders,
        List.length_cons]
      congr 1
      omega

theorem nesting_closing (depth margin loops : Nat) :
    nesting (depth + loops) (closing margin loops) = some depth := by
  induction loops generalizing depth margin with
  | zero => rfl
  | succ loops ih =>
      have hinner :
          nesting (depth + (loops + 1)) (closing (margin + 1) loops) = some (depth + 1) := by
        rw [Nat.add_comm loops 1, ← Nat.add_assoc]
        exact ih (depth + 1) (margin + 1)
      rw [closing, nesting_append, hinner]
      exact nesting_cons (lineDepth_close depth margin) []

/-! ## The lines of a helper -/

/-- A text that is known is on one line, and has no brace. -/
theorem lacks_all_known {cs : List Char} (h : (cs.all fun d => !breaks.elem d) = true) :
    ∀ c ∈ breaks, Lacks c (String.ofList cs) :=
  fun _ hc => lacks_known hc h

/-- The search closes the braces that it opens. -/
theorem balanced_searchBlock (uid : UID) (d : Dimension) : Balanced (searchBlock uid d) := by
  have htexts := fun c hc => @lacks_searchTexts c hc uid d
  -- four lines, then the two branches that take a nearer point, each in braces of its own
  refine .indented (fun c hc => (htexts c hc).1) (.indented (fun c hc => (htexts c hc).2.1)
    (.indented (fun c hc => (htexts c hc).2.2.1) (.indented (fun c hc => (htexts c hc).2.2.2)
      (.indented (lacks_all_known rfl) (.block [_, _] ?_ (.indented (lacks_all_known rfl)
        (.block [_] ?_ .nil)))))))
  · exact .indented (lacks_all_known rfl) (.indented (lacks_all_known rfl) .nil)
  · exact .indented (lacks_all_known rfl) .nil

/-- The lines of a function before the search. -/
def front (uid : UID) (d : Dimension) : List String :=
  functionHeader uid d :: "\x7b" :: ([indented 1 (d.typeName ++ " cell = floor(p);"),
    indented 1 "float nearest = 1e30;", indented 1 "float second = 1e30;"] ++
    opening 1 (loopHeaders d))

/-- The lines behind the search: the ends of the loops and of the function, and those of its
macros. -/
def back (uid : UID) (d : Dimension) : List String :=
  closing 1 d.count ++
    [indented 1 ("return " ++ combineMacro uid ++ "(nearest, second);"), "\x7d",
      "#undef " ++ distanceMacro uid, "#undef " ++ combineMacro uid]

theorem length_loopHeaders (d : Dimension) : (loopHeaders d).length = d.count := by
  rw [loopHeaders, loopVariables, List.length_map, List.length_map, d.length_axes]

theorem functionLines_eq (uid : UID) (d : Dimension) :
    functionLines uid d = front uid d ++ searchBlock uid d ++ back uid d := by
  rw [functionLines, nest_eq, length_loopHeaders, Nat.add_comm 1]
  simp only [List.append_assoc]
  rfl

/-- Before the search a brace is open for the function and one for each axis. -/
theorem nesting_front (uid : UID) (d : Dimension) (depth : Nat) :
    nesting depth (front uid d) = some (depth + (d.count + 1)) := by
  have hheader : lineDepth depth (functionHeader uid d) = some depth :=
    lineDepth_eq (fun _ hc => lacks_functionHeader hc uid d) depth
  have hdeclarations : Balanced [indented 1 (d.typeName ++ " cell = floor(p);"),
      indented 1 "float nearest = 1e30;", indented 1 "float second = 1e30;"] :=
    .indented (fun _ hc => lacks_cellLine hc d)
      (.indented (lacks_all_known rfl) (.indented (lacks_all_known rfl) .nil))
  have hloops := nesting_opening (fun header hheader _ hc => lacks_loopHeaders hc d header hheader)
    (depth + 1) 1
  rw [length_loopHeaders] at hloops
  have hopen : lineDepth depth "\x7b" = some (depth + 1) := rfl
  rw [front, nesting_cons hheader, nesting_cons hopen, nesting_append, hdeclarations (depth + 1),
    Option.bind_some, hloops]
  exact congrArg some (by omega)

/-- Behind the search they are closed. -/
theorem nesting_back (uid : UID) (d : Dimension) (depth : Nat) :
    nesting (depth + (d.count + 1)) (back uid d) = some depth := by
  have hends : Balanced ["#undef " ++ distanceMacro uid, "#undef " ++ combineMacro uid] :=
    .cons (fun _ hc => lacks_undefine hc uid .distance)
      (.cons (fun _ hc => lacks_undefine hc uid .combine) .nil)
  have hloops : nesting (depth + (d.count + 1)) (closing 1 d.count) = some (depth + 1) := by
    rw [Nat.add_comm d.count 1, ← Nat.add_assoc]
    exact nesting_closing (depth + 1) 1 d.count
  have hline : lineDepth (depth + 1)
      (indented 1 ("return " ++ combineMacro uid ++ "(nearest, second);")) = some (depth + 1) :=
    (lineDepth_indented _ _ _).trans (lineDepth_eq (fun _ hc => lacks_returnLine hc uid) _)
  rw [back, nesting_append, hloops, Option.bind_some, nesting_cons hline]
  exact (nesting_cons rfl _).trans (hends depth)

theorem length_nest (depth : Nat) (inner : List (Nat × String)) (headers : List String) :
    (nest depth inner headers).length = inner.length + 3 * headers.length := by
  induction headers generalizing depth with
  | nil => simp [nest]
  | cons header headers ih =>
      simp only [nest, List.length_cons, List.length_append, ih, List.length_nil]
      omega

theorem length_functionLines (uid : UID) (d : Dimension) :
    (functionLines uid d).length = 22 + 3 * d.count := by
  have hsearch : (searchLines uid d).length = 13 := rfl
  simp only [functionLines, List.length_append, List.length_cons, List.length_nil, length_nest,
    hsearch, length_loopHeaders]
  omega

/-! ## Formulas in their macros -/

/-- The body of a macro: the formula on one line, over the operands of the macro. -/
def bodyText (formula : String) : String :=
  (Formula.expand (Formula.flatten formula) "(a)" "(b)").text

/-- What is said of a formula that uses neither operand. -/
def formulaWarnings (uid : UID) (role : Role) (formula : String) : List String :=
  if Formula.Mentions formula then [] else [neitherOperand uid role (Formula.flatten formula)]

theorem macroBody?_of_not_blank {formula : String} (h : ¬ Formula.Blank formula) (uid : UID)
    (role : Role) : macroBody? uid role formula =
      some ⟨bodyText formula, formulaWarnings uid role formula⟩ := by
  have hflat : (Formula.flatten formula).isEmpty = false := by
    rw [← Bool.not_eq_true, Formula.flatten_isEmpty_iff]
    exact h
  have hconstant := Formula.isConstant_expand_iff formula "(a)" "(b)"
  unfold macroBody? formulaWarnings
  simp only [hflat, hconstant, ite_not]
  rfl

theorem helper_of_not_blank {formulas : CellFormulas}
    (hdistance : ¬ Formula.Blank formulas.distance) (hcombine : ¬ Formula.Blank formulas.combine)
    (uid : UID) (d : Dimension) :
    helper uid d formulas = .ok {
      node := uid
      lines := define (distanceMacro uid) (bodyText formulas.distance) ::
        define (combineMacro uid) (bodyText formulas.combine) :: functionLines uid d
      warnings := formulaWarnings uid .distance formulas.distance ++
        formulaWarnings uid .combine formulas.combine } := by
  rw [helper, macroBody?_of_not_blank hdistance, macroBody?_of_not_blank hcombine]

theorem getLast?_joinLines {lines : List String} (h : lines ≠ []) :
    (joinLines lines).toList.getLast? = some '\n' := by
  obtain ⟨init, last, rfl⟩ := (List.eq_nil_or_concat' lines).resolve_left h
  have hlast : joinLines [last] = last ++ "\n" := by simp [joinLines]
  rw [joinLines_append, hlast]
  simp

/-! ## The main result -/

/-- The formulas stand in the first two lines of the helper, each in its own, and nothing else in it
depends on them. -/
structure Helper.Confines (h : Helper) (uid : UID) (d : Dimension) (formulas : CellFormulas) :
    Prop where
  /-- The text falls into the lines, with nothing behind the last line feed. -/
  splits : h.text.toList.splitOn '\n' = (h.lines ++ [""]).map String.toList
  ends : h.text.toList.getLast? = some '\n'
  count : h.lines.length = 24 + 3 * d.count
  lines : h.lines =
    ("#define WORLEY_DISTANCE_" ++ UID.text uid ++ "(a, b) (" ++ bodyText formulas.distance ++
      ")") ::
    ("#define WORLEY_COMBINE_" ++ UID.text uid ++ "(a, b) (" ++ bodyText formulas.combine ++ ")") ::
    functionLines uid d
  balanced : Balanced (functionLines uid d)
  /-- The search for the nearest points stands in as many braces as there are axes, and one more. -/
  around : ∃ before after, functionLines uid d = before ++ searchBlock uid d ++ after ∧
    nesting 0 before = some (d.count + 1) ∧ Balanced (searchBlock uid d) ∧
    nesting (d.count + 1) after = some 0
  undefines : ["#undef WORLEY_DISTANCE_" ++ UID.text uid,
    "#undef WORLEY_COMBINE_" ++ UID.text uid] <:+ functionLines uid d
  /-- Only blanks are lost when the formulas are put on one line. -/
  distance : Text.visible (Formula.flatten formulas.distance).toList =
    Text.visible formulas.distance.toList
  combine : Text.visible (Formula.flatten formulas.combine).toList =
    Text.visible formulas.combine.toList
  warnings : h.warnings = formulaWarnings uid .distance formulas.distance ++
    formulaWarnings uid .combine formulas.combine

theorem define_append (front text body : String) : define (front ++ text) body =
    "#define " ++ front ++ text ++ "(a, b) (" ++ body ++ ")" := by
  unfold define
  rw [← @String.append_assoc "#define "]

theorem undefines_functionLines (uid : UID) (d : Dimension) :
    ["#undef WORLEY_DISTANCE_" ++ UID.text uid, "#undef WORLEY_COMBINE_" ++ UID.text uid] <:+
      functionLines uid d := by
  have hends : ["#undef " ++ distanceMacro uid, "#undef " ++ combineMacro uid] =
      ["#undef WORLEY_DISTANCE_" ++ UID.text uid, "#undef WORLEY_COMBINE_" ++ UID.text uid] := by
    unfold distanceMacro combineMacro
    rw [← String.append_assoc, ← String.append_assoc]
    rfl
  rw [← hends, functionLines_eq, back]
  refine List.IsSuffix.trans ?_ (List.suffix_append _ _)
  refine List.IsSuffix.trans ?_ (List.suffix_append _ _)
  exact List.suffix_append [_, _] _

theorem balanced_functionLines (uid : UID) (d : Dimension) : Balanced (functionLines uid d) := by
  intro depth
  rw [functionLines_eq, nesting_append, nesting_append, nesting_front, Option.bind_some,
    balanced_searchBlock, Option.bind_some, nesting_back]

theorem confines_helper {uid : UID} {d : Dimension} {formulas : CellFormulas} {h : Helper}
    (hh : helper uid d formulas = .ok h) (hlines : h.lines =
      define (distanceMacro uid) (bodyText formulas.distance) ::
        define (combineMacro uid) (bodyText formulas.combine) :: functionLines uid d)
    (hwarnings : h.warnings = formulaWarnings uid .distance formulas.distance ++
      formulaWarnings uid .combine formulas.combine) : h.Confines uid d formulas where
  splits := by
    rw [Helper.text, splitOn_joinLines (oneLine_of_mem_lines hh), List.map_append]
    rfl
  ends := getLast?_joinLines (by simp [hlines])
  count := by
    rw [hlines, List.length_cons, List.length_cons, length_functionLines]
    omega
  lines := by
    unfold distanceMacro combineMacro at hlines
    rw [hlines, define_append, define_append]
    rfl
  balanced := balanced_functionLines uid d
  around := by
    refine ⟨front uid d, back uid d, functionLines_eq uid d, ?_, balanced_searchBlock uid d, ?_⟩
    · simpa using nesting_front uid d 0
    · simpa using nesting_back uid d 0
  undefines := undefines_functionLines uid d
  distance := Formula.visible_flatten formulas.distance
  combine := Formula.visible_flatten formulas.combine
  warnings := hwarnings

/-- A helper is refused exactly if a formula is blank, the distance formula first. Otherwise there
is one, and each formula has a bearing on the line of its own macro and on no other. -/
theorem formulas_stay_in_macros (uid : UID) (d : Dimension) (formulas : CellFormulas) :
    (∀ role, helper uid d formulas = .error role ↔
      (Formula.Blank formulas.distance ∧ role = .distance) ∨
      (¬ Formula.Blank formulas.distance ∧ Formula.Blank formulas.combine ∧ role = .combine)) ∧
    (¬ Formula.Blank formulas.distance → ¬ Formula.Blank formulas.combine →
      ∃ h, helper uid d formulas = .ok h ∧ h.Confines uid d formulas) := by
  refine ⟨helper_eq_error_iff uid d formulas, ?_⟩
  intro hdistance hcombine
  have hh := helper_of_not_blank hdistance hcombine uid d
  exact ⟨_, hh, confines_helper hh rfl rfl⟩

/-- A distance over three lines, one of them empty, and a combination that uses neither operand. -/
def spread : CellFormulas := ⟨" length($1\r\n\n- $2)\u3000", "0.5"⟩

/-- The blanks at the ends of the lines are gone, and the second formula is warned of. -/
theorem formulas_stay_in_macros_spread :
    (¬ Formula.Blank spread.distance ∧ ¬ Formula.Blank spread.combine) ∧
    (∃ h, helper 7 .two spread = .ok h ∧ h.lines.length = 30 ∧
      h.lines[0]? = some "#define WORLEY_DISTANCE_7(a, b) (length((a) - (b)))" ∧
      h.lines[1]? = some "#define WORLEY_COMBINE_7(a, b) (0.5)" ∧
      h.warnings = [neitherOperand 7 .combine "0.5"]) ∧
    helper 7 .two ⟨"\n\u3000", ""⟩ = .error .distance := by
  have hdistance : ¬ Formula.Blank spread.distance := by decide
  have hcombine : ¬ Formula.Blank spread.combine := by decide
  obtain ⟨h, hh, hconfines⟩ := (formulas_stay_in_macros 7 .two spread).2 hdistance hcombine
  refine ⟨⟨hdistance, hcombine⟩, ⟨h, hh, hconfines.count, ?_, ?_, ?_⟩, ?_⟩
  · rw [hconfines.lines, List.getElem?_cons_zero, Option.some.injEq]
    decide +kernel
  · rw [hconfines.lines, List.getElem?_cons_succ, List.getElem?_cons_zero, Option.some.injEq]
    decide +kernel
  · rw [hconfines.warnings]
    decide +kernel
  · exact ((formulas_stay_in_macros 7 .two _).1 .distance).mpr (.inl ⟨by decide, rfl⟩)

end Worley

end NoiseShader
