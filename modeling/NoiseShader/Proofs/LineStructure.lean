import NoiseShader.Proofs.Lacking
import NoiseShader.Proofs.ObjectText.Token

set_option autoImplicit false

/-! # The lines of shader files

Whatever is written into a shader file stays on its line: names of graphs are quoted, names of nodes
come down to letters and digits, formulas are put on one line, and numbers become literals. So the
text of a file falls into the lines that it was made of (`Graph.text_stays_on_its_lines`), and the name
of the graph is of no consequence below the header.
-/

namespace NoiseShader

open Shading

/-! ## Texts on one line -/

/-- The text holds no line feed. -/
def OneLine (text : String) : Prop := '\n' ∉ text.toList

theorem feed_mem_breaks : '\n' ∈ breaks := List.mem_cons_self

/-- Lines that are written one after the other are what the text is split into, with nothing left
behind the last line feed. -/
theorem splitOn_joinLines {lines : List String} (h : ∀ line ∈ lines, OneLine line) :
    (joinLines lines).toList.splitOn '\n' = lines.map String.toList ++ [[]] := by
  have htext : (joinLines lines).toList =
      ['\n'].intercalate (lines.map String.toList ++ [[]]) := by
    clear h
    rw [joinLines, String.toList_join]
    induction lines with
    | nil => rfl
    | cons line lines ih =>
        obtain ⟨next, rest, hnext⟩ := List.exists_cons_of_ne_nil
          (List.append_ne_nil_of_right_ne_nil (lines.map String.toList) (List.cons_ne_nil [] []))
        rw [List.map_cons, List.flatMap_cons, ih, List.map_cons, List.cons_append, hnext,
          List.intercalate_cons_cons, String.toList_append]
        rfl
  rw [htext]
  refine List.splitOn_intercalate '\n' ?_ (by simp)
  intro line hline
  rcases List.mem_append.mp hline with hline | hline
  · obtain ⟨text, htext, rfl⟩ := List.mem_map.mp hline
    exact h text htext
  · obtain rfl := List.mem_singleton.mp hline
    exact List.not_mem_nil

/-! ## Formulas -/

namespace Text

theorem mem_of_mem_trim {c : Char} {cs : List Char} (h : c ∈ trim cs) : c ∈ cs := by
  unfold trim at h
  have hfront := (List.dropWhile_sublist isBlank).subset (List.mem_reverse.mp h)
  exact (List.dropWhile_sublist isBlank).subset (List.mem_reverse.mp hfront)

theorem notMem_of_mem_splitLines {line cs : List Char} (h : line ∈ splitLines cs) : '\n' ∉ line := by
  intro hmem
  have hfeed : '\n' ∈ (splitLines cs).flatten := List.mem_flatten.mpr ⟨line, h, hmem⟩
  rw [flatten_splitLines] at hfeed
  exact absurd (List.mem_filter.mp hfeed).2 (by decide)

end Text

namespace Formula

theorem oneLine_flatten (formula : String) : OneLine (flatten formula) := by
  unfold flatten
  rw [OneLine, String.toList_ofList]
  intro hmem
  rcases mem_intercalate hmem with hmem | ⟨part, hpart, hmem⟩
  · exact absurd hmem (by decide)
  · obtain ⟨line, hline, rfl⟩ := List.mem_map.mp (List.mem_filter.mp hpart).1
    exact Text.notMem_of_mem_splitLines hline (Text.mem_of_mem_trim hmem)

/-- A formula with its placeholders filled in has its own characters and those of the operands. -/
theorem mem_of_mem_fill {c : Char} {first second cs : List Char}
    (h : c ∈ (pieces cs).flatMap (Piece.fill first second)) : c ∈ cs ∨ c ∈ first ∨ c ∈ second := by
  fun_induction pieces cs with
  | case1 => cases h
  | case2 rest ih =>
      rcases List.mem_append.mp h with h | h
      · exact .inr (.inl h)
      · exact (ih h).imp_left fun hc => List.mem_cons_of_mem _ (List.mem_cons_of_mem _ hc)
  | case3 rest ih =>
      rcases List.mem_append.mp h with h | h
      · exact .inr (.inr h)
      · exact (ih h).imp_left fun hc => List.mem_cons_of_mem _ (List.mem_cons_of_mem _ hc)
  | case4 d rest _ _ ih =>
      rcases List.mem_append.mp h with h | h
      · exact .inl (List.mem_cons.mpr (.inl (List.mem_singleton.mp h)))
      · exact (ih h).imp_left (List.mem_cons_of_mem _)

theorem lacks_expand {c : Char} {formula first second : String} (h : Lacks c formula)
    (hfirst : Lacks c first) (hsecond : Lacks c second) :
    Lacks c (expand formula first second).text := by
  unfold expand
  rw [Lacks, String.toList_ofList]
  intro hmem
  rcases mem_of_mem_fill hmem with hmem | hmem | hmem
  · exact h hmem
  · exact hfirst hmem
  · exact hsecond hmem

end Formula

/-! ## Helpers -/

namespace Worley

theorem oneLine_macroBody {uid : UID} {role : Role} {formula : String} {body : MacroBody}
    (h : macroBody? uid role formula = some body) : OneLine body.text := by
  unfold macroBody? at h
  simp only at h
  split at h
  · cases h
  · obtain rfl := Option.some.inj h
    exact Formula.lacks_expand (Formula.oneLine_flatten formula) (lacks_literal rfl)
      (lacks_literal rfl)

theorem oneLine_nest {depth : Nat} {inner : List (Nat × String)} {headers : List String}
    (hinner : ∀ entry ∈ inner, OneLine entry.2)
    (hheaders : ∀ header ∈ headers, OneLine header) :
    ∀ line ∈ nest depth inner headers, OneLine line := by
  induction headers generalizing depth with
  | nil =>
      intro line hline
      obtain ⟨entry, hentry, rfl⟩ := List.mem_map.mp hline
      exact lacks_indented feed_mem_breaks _ (hinner entry hentry)
  | cons header headers ih =>
      obtain ⟨hheader, hheaders⟩ := List.forall_mem_cons.mp hheaders
      intro line hline
      rcases List.mem_cons.mp hline with rfl | hline
      · exact lacks_indented feed_mem_breaks depth hheader
      rcases List.mem_cons.mp hline with rfl | hline
      · exact lacks_indented feed_mem_breaks depth (lacks_literal rfl)
      rcases List.mem_append.mp hline with hline | hline
      · exact ih hheaders line hline
      · obtain rfl := List.mem_singleton.mp hline
        exact lacks_indented feed_mem_breaks depth (lacks_literal rfl)

theorem oneLine_searchLines (uid : UID) (d : Dimension) :
    ∀ entry ∈ searchLines uid d, OneLine entry.2 := by
  obtain ⟨hneighbor, hjitter, hsite, hdistance⟩ := lacks_searchTexts feed_mem_breaks uid d
  unfold searchLines
  simp only [List.forall_mem_cons, List.not_mem_nil, false_implies, implies_true, and_true]
  refine ⟨hneighbor, hjitter, hsite, hdistance, ?_, ?_, ?_, ?_, ?_, ?_, ?_, ?_, ?_⟩
  all_goals exact lacks_literal rfl

theorem oneLine_functionLines (uid : UID) (d : Dimension) :
    ∀ line ∈ functionLines uid d, OneLine line := by
  have hline : ∀ {text}, Lacks '\n' text → Lacks '\n' (indented 1 text) :=
    lacks_indented feed_mem_breaks 1
  have hloops : ∀ line ∈ nest 1 (searchLines uid d) (loopHeaders d), Lacks '\n' line :=
    oneLine_nest (oneLine_searchLines uid d) (lacks_loopHeaders feed_mem_breaks d)
  unfold functionLines
  simp only [List.forall_mem_append, List.forall_mem_cons, List.not_mem_nil, false_implies,
    implies_true, and_true]
  exact ⟨⟨⟨lacks_functionHeader feed_mem_breaks uid d, lacks_literal rfl,
      hline (lacks_cellLine feed_mem_breaks d), hline (lacks_literal rfl),
      hline (lacks_literal rfl)⟩, hloops⟩,
    hline (lacks_returnLine feed_mem_breaks uid), lacks_literal rfl,
    lacks_undefine feed_mem_breaks uid .distance, lacks_undefine feed_mem_breaks uid .combine⟩

theorem oneLine_of_mem_lines {uid : UID} {d : Dimension} {formulas : CellFormulas} {h : Helper}
    (hh : helper uid d formulas = .ok h) : ∀ line ∈ h.lines, OneLine line := by
  unfold helper at hh
  split at hh
  · cases hh
  next distance hdistance =>
    split at hh
    · cases hh
    next combine hcombine =>
      obtain rfl := Except.ok.inj hh
      have hdefine : ∀ name body, Lacks '\n' name → Lacks '\n' body →
          Lacks '\n' (define name body) := by
        intro name body hname hbody
        unfold define
        simp only [lacks_append, and_assoc]
        exact ⟨lacks_literal rfl, hname, lacks_literal rfl, hbody, lacks_literal rfl⟩
      have hname := lacks_macroName feed_mem_breaks uid
      simp only [List.forall_mem_cons]
      exact ⟨hdefine _ _ (hname .distance) (oneLine_macroBody hdistance),
        hdefine _ _ (hname .combine) (oneLine_macroBody hcombine), oneLine_functionLines uid d⟩

end Worley

/-! ## Quoted text -/

theorem Text.notMem_byNumber {c : Char} (hc : c = '\n' ∨ c = '\r') (d : Char) :
    c ∉ byNumber d := by
  have hvalue : ObjectText.digitsValue? 16 0 (Nat.toDigits 16 d.toNat) = some d.toNat :=
    ObjectText.digitsValue?_toDigits (by decide) (by decide) _
  have hdigit : c ∉ Nat.toDigits 16 d.toNat := by
    intro hmem
    have hsome := ObjectText.hexValue?_of_digitsValue? hvalue c hmem
    rcases hc with rfl | rfl
    · exact absurd hsome (by decide)
    · exact absurd hsome (by decide)
  rcases hc with rfl | rfl
  · simp [byNumber, hdigit]
  · simp [byNumber, hdigit]

/-- Quotation hides what ends a line. -/
theorem Text.notMem_quote {c : Char} (hc : c = '\n' ∨ c = '\r') (text : String) :
    c ∉ (quote text).toList := by
  have hescape : ∀ d, c ∉ escape false d := by
    intro d
    by_cases hd : c = d
    · subst hd
      rcases hc with rfl | rfl <;> decide
    · unfold escape
      -- seven characters have escapes of their own
      iterate 7
        split
        · rcases hc with rfl | rfl <;> decide
      split
      · exact notMem_byNumber hc d
      · simpa using hd
  have hmark : c ≠ '\x22' := by
    rcases hc with rfl | rfl <;> decide
  simp [quote, quoteChars, hmark, hescape]

/-! ## The lines of a file -/

theorem ShaderFile.notMem_header {c : Char} (hc : c = '\n' ∨ c = '\r') (name : String) :
    c ∉ (header name).toList := by
  have hfront : c ∉ "// Generated by noisegraph from graph ".toList := by
    rcases hc with rfl | rfl <;> exact lacks_literal rfl
  unfold header
  rw [String.toList_append, List.mem_append, not_or]
  exact ⟨hfront, Text.notMem_quote hc name⟩

/-- Texts of the settings are on one line each. -/
structure Settings.OneLine (s : Settings) : Prop where
  functionName : NoiseShader.OneLine s.functionName
  outputSymbol : NoiseShader.OneLine s.outputSymbol
  seedName : NoiseShader.OneLine s.seedName
  includes : ∀ file ∈ s.includes, NoiseShader.OneLine file

namespace Graph

section

variable {g : Graph} {s : Settings} {ps : List Parameter} {p : Program}

theorem oneLine_statements (hg : g.Built) (hs : s.OneLine) (hps : g.Offered ps)
    (hp : g.compileWith (s.options ps) = .ok p) : ∀ d ∈ p.statements, OneLine d.render := by
  obtain ⟨_, _, emissions, _, hemissions, _, hstatements, _⟩ := compileWith_eq_ok hp
  intro d hd
  rw [hstatements] at hd
  obtain ⟨e, he, rfl⟩ := List.mem_map.mp hd
  obtain ⟨n, hn, hemit⟩ := Attempt.exists_of_mem hemissions.flip he
  obtain ⟨_, _, inputs, value, hinputs, hvalue, hstatement⟩ := emit_eq_ok hemit
  obtain ⟨u, _, hu⟩ := List.mem_filterMap.mp hn
  have hlength : inputs.length = n.kind.slots.length :=
    hinputs.length_eq.trans (hg.wellFormed.fits n (node?_eq_some hu).1).length
  have hreadable : ∀ e ∈ inputs, e.Readable := by
    intro e he
    obtain ⟨j, hj⟩ := List.getElem?_of_mem he
    obtain ⟨slot, _, hresolves⟩ := hinputs.exists_slot hj
    exact (hresolves.reads hps).1
  rw [hstatement]
  have hname : Lacks '\n' n.variableName := lacks_of_isWord feed_mem_breaks n.isWord_variableName
  refine Declaration.lacks_render feed_mem_breaks hname ?_
  -- a coordinate has the name of the seed as it stands in the settings, which may be no word
  by_cases hkind : ∃ axis, n.kind = .coordinate axis
  · obtain ⟨axis, hkind⟩ := hkind
    rw [hkind] at hvalue
    obtain rfl := Option.some.inj hvalue
    exact Expr.lacks_component feed_mem_breaks hs.seedName axis
  · have hread : value.Readable :=
      Kind.readable_expression (fun axis h => hkind ⟨axis, h⟩) hreadable hlength hvalue
    exact value.lacks_render feed_mem_breaks hread

theorem oneLine_output (hs : s.OneLine) (hp : g.compileWith (s.options ps) = .ok p) :
    OneLine p.output.render := by
  obtain ⟨_, _, _, value, _, _, _, hvalue, houtput⟩ := compileWith_eq_ok hp
  rw [houtput]
  refine Declaration.lacks_render feed_mem_breaks hs.outputSymbol
    (value.lacks_render feed_mem_breaks ?_)
  rcases resolve_output_cases hvalue with ⟨x, literal, _, hliteral, rfl⟩ | ⟨v, m, _, _, rfl⟩
  · exact (Expr.term_constant hliteral).1
  · exact .inl m.isWord_variableName

theorem oneLine_helpers (hp : g.compileWith (s.options ps) = .ok p) :
    ∀ h ∈ p.helpers, ∀ line ∈ h.lines, OneLine line := by
  obtain ⟨_, _, emissions, _, hemissions, hhelpers, _⟩ := compileWith_eq_ok hp
  intro h hh
  rw [hhelpers] at hh
  obtain ⟨n, _, noise, _, _, hhelper⟩ :=
    Attempt.exists_of_mem (forall₂_helpers hemissions).flip hh
  exact Worley.oneLine_of_mem_lines hhelper

theorem oneLine_signature (hs : s.OneLine) (hps : g.Offered ps) :
    OneLine (ShaderFile.signature ⟨g.name, s, ps, p⟩) := by
  have hparameter : ∀ q ∈ ps, Lacks '\n' q.label.identifier := fun q hq =>
    lacks_of_isWord feed_mem_breaks (hps.isParameter q hq).isWord
  have harguments : ∀ d : Dimension, Lacks '\n' (String.intercalate ", "
      ((d.typeName ++ " " ++ s.seedName) :: ps.map fun q => "float " ++ q.label.identifier)) := by
    intro d
    refine lacks_intercalate (lacks_literal rfl) ?_
    simp only [List.forall_mem_cons, List.forall_mem_map, lacks_append, and_assoc]
    exact ⟨d.lacks_typeName feed_mem_breaks, lacks_literal rfl, hs.seedName,
      fun q hq => ⟨lacks_literal rfl, hparameter q hq⟩⟩
  show Lacks '\n' ("float " ++ s.functionName ++ "(" ++ String.intercalate ", " _ ++ ")")
  simp only [lacks_append, and_assoc]
  exact ⟨lacks_literal rfl, hs.functionName, lacks_literal rfl, harguments _,
    lacks_literal rfl⟩

/-- No line of a file holds a line feed. -/
theorem oneLine_lines (hg : g.Built) (hs : s.OneLine) (hps : g.Offered ps)
    (hp : g.compileWith (s.options ps) = .ok p) :
    ∀ line ∈ ShaderFile.lines ⟨g.name, s, ps, p⟩, OneLine line := by
  have hheader : Lacks '\n' (ShaderFile.header g.name) := ShaderFile.notMem_header (.inl rfl) g.name
  have hincludes : ∀ file ∈ s.includes, Lacks '\n' (ShaderFile.includeLine file) := by
    intro file hfile
    unfold ShaderFile.includeLine
    simp only [lacks_append, and_assoc]
    exact ⟨lacks_literal rfl, hs.includes file hfile, lacks_literal rfl⟩
  have hdeclarations : ∀ line ∈ p.lines, Lacks '\n' line := by
    intro line hline
    obtain ⟨d, hd, rfl⟩ := List.mem_map.mp hline
    rcases List.mem_append.mp hd with hd | hd
    · exact oneLine_statements hg hs hps hp d hd
    · obtain rfl := List.mem_singleton.mp hd
      exact oneLine_output hs hp
  have hreturn : Lacks '\n' ("return " ++ s.outputSymbol ++ ";") := by
    simp only [lacks_append, and_assoc]
    exact ⟨lacks_literal rfl, hs.outputSymbol, lacks_literal rfl⟩
  have hempty : Lacks '\n' "" := List.not_mem_nil
  simp only [ShaderFile.lines, ShaderFile.bodyLines, List.forall_mem_cons, List.forall_mem_append,
    List.forall_mem_map, List.forall_mem_flatMap, List.not_mem_nil, false_implies, implies_true,
    and_true]
  refine ⟨hheader, ⟨⟨⟨⟨hincludes, hempty⟩, ?_⟩, ?_⟩, ?_⟩, ?_⟩
  · exact fun h hh => ⟨oneLine_helpers hp h hh, hempty⟩
  · exact ⟨oneLine_signature hs hps, lacks_literal rfl⟩
  · exact fun line hline => lacks_indented feed_mem_breaks 1 (hdeclarations line hline)
  · exact ⟨lacks_indented feed_mem_breaks 1 hreturn, lacks_literal rfl⟩

end

/-! ## The main result -/

/-- The text of a file falls into its lines: the header, the includes, the helpers with their own lines,
and the function with a line for each emitted node. The header has none of the characters that end a
line, and what follows it is the same for every name that the graph could have. -/
theorem text_stays_on_its_lines {g : Graph} (hg : g.Built) {s : Settings} (hs : s.OneLine)
    {f : ShaderFile} (h : g.generate s = .ok f) :
    f.text.toList.splitOn '\n' =
      ([ShaderFile.header g.name] ++ s.includes.map ShaderFile.includeLine ++ [""] ++
        (f.program.helpers.flatMap fun helper => helper.lines ++ [""]) ++
        [f.signature, "\x7b"] ++
        (f.program.statements.map fun d => "    " ++ d.render) ++
        ["    " ++ f.program.output.render, "    return " ++ s.outputSymbol ++ ";", "\x7d",
          ""]).map String.toList ∧
    (∀ helper ∈ f.program.helpers,
      helper.text.toList.splitOn '\n' = (helper.lines ++ [""]).map String.toList) ∧
    (f.program.statements.map Declaration.variableName =
        (f.program.order.filterMap g.node?).map Node.variableName ∧
      f.program.statements.length = f.program.order.length) ∧
    ("// ".toList <+: (ShaderFile.header g.name).toList ∧
      '\n' ∉ (ShaderFile.header g.name).toList ∧ '\r' ∉ (ShaderFile.header g.name).toList) ∧
    ∃ rest, ∀ name, ∃ f', ({ g with name := name }).generate s = .ok f' ∧
      f'.text = ShaderFile.header name ++ "\n" ++ rest := by
  obtain ⟨ps, p, hps, hp, rfl⟩ := (generate_eq_ok_iff g s f).mp h
  have hlines := oneLine_lines hg hs (offered_of_exposure hps) hp
  refine ⟨?_, ?_, ⟨variableNames_statements hp, length_statements hp⟩,
    ⟨?_, ShaderFile.notMem_header (.inl rfl) g.name, ShaderFile.notMem_header (.inr rfl) g.name⟩, ?_⟩
  · have hindented : indented 1 = fun text => "    " ++ text := rfl
    have hreturn : "    " ++ ("return " ++ s.outputSymbol ++ ";") =
        "    return " ++ s.outputSymbol ++ ";" := by
      rw [← String.append_assoc, ← String.append_assoc]
      rfl
    have hlast : [[]] = [""].map String.toList := rfl
    rw [ShaderFile.text, splitOn_joinLines hlines, hlast, ← List.map_append]
    congr 1
    simp [ShaderFile.lines, ShaderFile.bodyLines, Program.lines, Program.declarations, hindented,
      hreturn]
  · intro helper hhelper
    rw [Worley.Helper.text, splitOn_joinLines (oneLine_helpers hp helper hhelper), List.map_append]
    rfl
  · refine ⟨"Generated by noisegraph from graph ".toList ++ (Text.quote g.name).toList, ?_⟩
    unfold ShaderFile.header
    rw [String.toList_append, ← List.append_assoc, ← String.toList_append]
    rfl
  · refine ⟨joinLines (ShaderFile.bodyLines ⟨g.name, s, ps, p⟩), ?_⟩
    intro name
    refine ⟨⟨name, s, ps, p⟩, (generate_eq_ok_iff _ s _).mpr ⟨ps, p, hps, hp, rfl⟩, ?_⟩
    rw [ShaderFile.text, ShaderFile.lines, joinLines, List.map_cons, String.join_cons]
    rfl

/-- A graph whose texts try to get out: of the header, of a declaration and of two macros. -/
def breakout : Graph :=
  [Edit.add (.noise ⟨.worley, .two, ⟨"length($1\n- $2)\r\n#undef float", "\n$2\n- $1\n"⟩⟩),
    .rename 0 "a;\n\x7d", .setOutput (.node 0), .setName "out\r\n#error"].foldl after (.empty "")

theorem breakout_compilable : breakout.Compilable {} := by
  have hkinds : ∀ n ∈ breakout.nodes, n.kind =
      .noise ⟨.worley, .two, ⟨"length($1\n- $2)\r\n#undef float", "\n$2\n- $1\n"⟩⟩ := by decide
  refine compilable_of_descending (by decide) rfl (by decide) ?_ (by decide) ?_
  · intro target htarget
    obtain rfl : 0 = target := Signal.node.inj htarget
    decide
  · intro n hn noise hnoise _ _
    obtain rfl := Kind.noise.inj ((hkinds n hn).symm.trans hnoise)
    decide

theorem text_stays_on_its_lines_breakout :
    breakout.Built ∧ Settings.OneLine {} ∧ '\n' ∈ breakout.name.toList ∧
    ∃ f, breakout.generate {} = .ok f ∧
      (f.text.toList.splitOn '\n').head? = some (ShaderFile.header breakout.name).toList ∧
      ∃ rest, ∀ name, ∃ f', ({ breakout with name := name }).generate {} = .ok f' ∧
        f'.text = ShaderFile.header name ++ "\n" ++ rest := by
  have hbuilt : breakout.Built := (Built.empty "").edits _
  have hsettings : Settings.OneLine {} :=
    ⟨lacks_literal rfl, lacks_literal rfl, lacks_literal rfl,
      List.forall_mem_singleton.mpr (lacks_literal rfl)⟩
  obtain ⟨f, hf⟩ := (exists_file_iff hbuilt.wellFormed.fits {}).mpr breakout_compilable
  obtain ⟨hsplit, _, _, _, hrest⟩ := text_stays_on_its_lines hbuilt hsettings hf
  refine ⟨hbuilt, hsettings, by decide, f, hf, ?_, hrest⟩
  rw [hsplit]
  rfl

end Graph

end NoiseShader
