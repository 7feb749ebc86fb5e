import NoiseShader.Proofs.Shading.Parser

set_option autoImplicit false

/-! # Expressions are read as they were meant

The text of an expression is split into the tokens that it was put together from
(`Expr.reads_render`), and these are read as the term that the expression stands for
(`Expr.readAs_tokens`): the parentheses that are left out are not needed.
-/

namespace NoiseShader.Shading

namespace Expr

/-! ## What an expression stands for -/

/-- The term of a literal or a name. A minus sign in front of a literal is an operator. -/
def atomTerm (text : String) : Term :=
  match text.toList with
  | '-' :: magnitude => .negate (.literal (String.ofList magnitude))
  | c :: _ => if c.isDigit then .literal text else .reference text
  | [] => .reference text

mutual

def term : Expr → Term
  | atom text => atomTerm text
  | negate operand => .negate operand.term
  | binary operator left right => .binary operator left.term right.term
  | call function arguments => .call function (terms arguments)
  | component object axis => .member (.reference object) axis

def terms : List Expr → List Term
  | [] => []
  | e :: es => e.term :: terms es

end

def atomTokens (text : String) : List Token :=
  match text.toList with
  | '-' :: magnitude => [.mark ['-'], .number magnitude]
  | c :: rest => if c.isDigit then [.number (c :: rest)] else [.word (c :: rest)]
  | [] => []

/-- The tokens of an operand whose place asks for the given strength. -/
def operandTokens (needed : Nat) (e : Expr) (ts : List Token) : List Token :=
  if e.strength < needed then .mark ['('] :: (ts ++ [.mark [')']]) else ts

mutual

def tokens : Expr → List Token
  | atom text => atomTokens text
  | negate operand => .mark ['-'] :: operandTokens 3 operand operand.tokens
  | binary operator left right =>
    operandTokens operator.strength left left.tokens ++
      .mark operator.symbol.toList ::
        operandTokens (operator.strength + 1) right right.tokens
  | call function arguments =>
    .word function.toList :: .mark ['('] :: (argumentTokens arguments ++ [.mark [')']])
  | component object axis =>
    [.word object.toList, .mark ['.'], .word axis.component.toList]

def argumentTokens : List Expr → List Token
  | [] => []
  | [e] => e.tokens
  | e :: d :: es => e.tokens ++ .mark [','] :: argumentTokens (d :: es)

end

/-- Literals with or without a minus sign in front, and words. -/
def IsAtom (text : List Char) : Prop :=
  Token.IsWord text ∨ Token.isLiteral text = true ∨
    ∃ magnitude, text = '-' :: magnitude ∧ Token.isLiteral magnitude = true

mutual

/-- Every name and literal in the expression is one. -/
def Readable : Expr → Prop
  | atom text => IsAtom text.toList
  | negate operand => operand.Readable
  | binary _ left right => left.Readable ∧ right.Readable
  | call function arguments => Token.IsWord function.toList ∧ AllReadable arguments
  | component object _ => Token.IsWord object.toList

def AllReadable : List Expr → Prop
  | [] => True
  | e :: es => e.Readable ∧ AllReadable es

end

/-! ## Atoms -/

theorem isWordStart_ne_minus {c : Char} (h : Token.isWordStart c = true) : c ≠ '-' := by
  rintro rfl
  exact absurd h (by decide)

theorem not_isDigit_of_isWordStart {c : Char} (h : Token.isWordStart c = true) :
    c.isDigit = false := by
  cases hdigit : c.isDigit with
  | false => rfl
  | true =>
      rw [Token.isWordStart_of_isDigit hdigit] at h
      cases h

theorem head_of_isLiteral {text : List Char} (h : Token.isLiteral text = true) :
    ∃ c rest, text = c :: rest ∧ c.isDigit = true := by
  obtain ⟨whole, tail, rfl, hwhole, _⟩ := Token.isLiteral_cases h
  obtain ⟨hne, hdigits⟩ := (Token.isDigits_iff whole).mp hwhole
  obtain ⟨c, whole, rfl⟩ := List.exists_cons_of_ne_nil hne
  exact ⟨c, whole ++ tail, rfl, hdigits c List.mem_cons_self⟩

theorem atomTerm_word {text : String} (h : Token.IsWord text.toList) :
    atomTerm text = .reference text := by
  obtain ⟨c, more, htext, hc, _⟩ := h
  have hminus := isWordStart_ne_minus hc
  simp [atomTerm, htext, not_isDigit_of_isWordStart hc]

theorem atomTerm_literal {text : String} (h : Token.isLiteral text.toList = true) :
    atomTerm text = .literal text := by
  obtain ⟨c, rest, htext, hc⟩ := head_of_isLiteral h
  have hminus : c ≠ '-' := by
    rintro rfl
    exact absurd hc (by decide)
  simp [atomTerm, htext, hc]

theorem atomTerm_minus {text : String} {magnitude : List Char}
    (h : text.toList = '-' :: magnitude) :
    atomTerm text = .negate (.literal (String.ofList magnitude)) := by
  simp [atomTerm, h]

/-- What is known of an atom by the kind of its text. -/
theorem atom_cases {text : String} (h : IsAtom text.toList) :
    (Token.IsWord text.toList ∧ atomTerm text = .reference text ∧
      atomTokens text = [.word text.toList] ∧ beginsWithMinus text = false) ∨
    (Token.isLiteral text.toList = true ∧ atomTerm text = .literal text ∧
      atomTokens text = [.number text.toList] ∧ beginsWithMinus text = false) ∨
    ∃ magnitude, text.toList = '-' :: magnitude ∧ Token.isLiteral magnitude = true ∧
      atomTerm text = .negate (.literal (String.ofList magnitude)) ∧
      atomTokens text = [.mark ['-'], .number magnitude] ∧ beginsWithMinus text = true := by
  rcases h with h | h | ⟨magnitude, htext, h⟩
  · obtain ⟨c, more, htext, hc, _⟩ := id h
    have hminus := isWordStart_ne_minus hc
    have hdigit := not_isDigit_of_isWordStart hc
    refine .inl ⟨h, atomTerm_word h, ?_, ?_⟩
    · simp [atomTokens, htext, hdigit]
    · simp [beginsWithMinus, htext, hminus]
  · obtain ⟨c, rest, htext, hc⟩ := head_of_isLiteral h
    have hminus : c ≠ '-' := by
      rintro rfl
      exact absurd hc (by decide)
    refine .inr (.inl ⟨h, atomTerm_literal h, ?_, ?_⟩)
    · simp [atomTokens, htext, hc]
    · simp [beginsWithMinus, htext, hminus]
  · refine .inr (.inr ⟨magnitude, htext, h, atomTerm_minus htext, ?_, ?_⟩)
    · simp [atomTokens, htext]
    · simp [beginsWithMinus, htext]

/-! ## Reading the tokens -/

open Reading

/-- Behind the tokens an operand is complete. It may still lie on the stack in parts, which come
together once something follows that binds no more tightly than the strength. -/
def ReadAs (ts : List Token) (strength : Nat) (t : Term) (stack : List Frame) : Prop :=
  ∃ stack' t', run ⟨stack, .due⟩ ts = some ⟨stack', .behind t'⟩ ∧
    ∀ needed, needed ≤ strength → settle needed stack' t' = settle needed stack t

/-- In parentheses an operand holds together. -/
theorem readAs_group {ts : List Token} {strength : Nat} {t : Term} {stack : List Frame}
    (h : ReadAs ts strength t (.group :: stack)) (any : Nat) :
    ReadAs (.mark ['('] :: (ts ++ [.mark [')']])) any t stack := by
  obtain ⟨stack', t', hrun, hsettle⟩ := h
  refine ⟨stack, t, ?_, fun _ _ => rfl⟩
  show run ⟨.group :: stack, .due⟩ (ts ++ [.mark [')']]) = _
  rw [run_append, hrun]
  have hclose : settle 0 stack' t' = (.group :: stack, t) := hsettle 0 (Nat.zero_le _)
  show stepBehind stack' t' [')'] >>= _ = _
  simp only [stepBehind, hclose]
  rfl

theorem readAs_operand {e : Expr} {needed : Nat} {stack : List Frame}
    (he : ∀ stack, Admits stack e.strength → ReadAs e.tokens e.strength e.term stack)
    (hstack : Admits stack needed) :
    ReadAs (operandTokens needed e e.tokens) needed e.term stack := by
  unfold operandTokens
  split
  · exact readAs_group (he (.group :: stack) trivial) needed
  · next hstrength =>
      have hle : needed ≤ e.strength := by omega
      obtain ⟨stack', t', hrun, hsettle⟩ := he stack (hstack.mono hle)
      exact ⟨stack', t', hrun, fun n hn => hsettle n (Nat.le_trans hn hle)⟩

/-- The operator behind its left operand. -/
theorem step_operator {operator : Operator} {stack stack' : List Frame} {t t' : Term}
    (h : settle operator.strength stack' t' = (stack, t)) :
    step ⟨stack', .behind t'⟩ (.mark operator.symbol.toList) =
      some ⟨.leftOf operator t :: stack, .due⟩ := by
  have hoperate : operate operator stack' t' = ⟨.leftOf operator t :: stack, .due⟩ := by
    rw [operate, h]
  cases operator <;> exact congrArg some hoperate

theorem readAs_binary {operator : Operator} {left right : Expr} {stack : List Frame}
    (hleft : ReadAs (operandTokens operator.strength left left.tokens) operator.strength
      left.term stack)
    (hright : ReadAs (operandTokens (operator.strength + 1) right right.tokens)
      (operator.strength + 1) right.term (.leftOf operator left.term :: stack))
    (hstack : Admits stack operator.strength) :
    ReadAs (binary operator left right).tokens operator.strength
      (binary operator left right).term stack := by
  obtain ⟨stack₁, t₁, hrun₁, hsettle₁⟩ := hleft
  obtain ⟨stack₂, t₂, hrun₂, hsettle₂⟩ := hright
  refine ⟨stack₂, t₂, ?_, ?_⟩
  · have hdone : settle operator.strength stack₁ t₁ = (stack, left.term) := by
      rw [hsettle₁ _ (Nat.le_refl _), settle_of_admits hstack]
    rw [tokens, run_append, hrun₁, Option.bind_some, run_cons, step_operator hdone,
      Option.bind_some, hrun₂]
  · intro needed hneeded
    rw [hsettle₂ needed (by omega), settle, if_pos hneeded]
    rfl

theorem readAs_atom {text : String} (h : IsAtom text.toList) (stack : List Frame) :
    ReadAs (atom text).tokens (atom text).strength (atom text).term stack := by
  rw [tokens, term]
  rcases atom_cases h with ⟨_, hterm, htokens, _⟩ | ⟨hliteral, hterm, htokens, _⟩ |
    ⟨magnitude, _, hliteral, hterm, htokens, _⟩
  · rw [hterm, htokens]
    refine ⟨stack, _, rfl, fun _ _ => ?_⟩
    rw [String.ofList_toList]
  · rw [hterm, htokens]
    refine ⟨stack, .literal text, ?_, fun _ _ => rfl⟩
    simp [run, step, hliteral]
  · rw [hterm, htokens]
    refine ⟨.negation :: stack, .literal (String.ofList magnitude), ?_, fun _ _ => rfl⟩
    simp [run, step, stepDue, hliteral]

theorem axis?_component (axis : Axis) : axis? axis.component.toList = some axis := by
  cases axis <;> rfl

theorem readAs_component (object : String) (axis : Axis) (stack : List Frame) :
    ReadAs (component object axis).tokens (component object axis).strength
      (component object axis).term stack := by
  refine ⟨stack, _, ?_, fun _ _ => rfl⟩
  simp [tokens, term, run, step, stepBehind, axis?_component]

/-- The arguments up to the parenthesis that closes the call. -/
def ArgumentsReadAs (es : List Expr) : Prop :=
  ∀ function done stack, es ≠ [] ∨ done = [] →
    run ⟨.arguments function done :: stack, .due⟩ (argumentTokens es ++ [.mark [')']]) =
      some ⟨stack, .behind (.call function (done ++ terms es))⟩

theorem argumentsReadAs_nil : ArgumentsReadAs [] := by
  rintro function done stack (h | rfl)
  · exact absurd rfl h
  · rfl

theorem argumentsReadAs_cons {e : Expr} {es : List Expr}
    (he : ∀ stack, Admits stack e.strength → ReadAs e.tokens e.strength e.term stack)
    (hes : ArgumentsReadAs es) : ArgumentsReadAs (e :: es) := by
  intro function done stack _
  obtain ⟨stack', t', hrun, hsettle⟩ := he (.arguments function done :: stack) trivial
  have hdone : settle 0 stack' t' = (.arguments function done :: stack, e.term) :=
    hsettle 0 (Nat.zero_le _)
  cases es with
  | nil =>
      rw [argumentTokens, run_append, hrun]
      simp [run, step, stepBehind, hdone, terms]
  | cons d es =>
      have hrest := hes function (done ++ [e.term]) stack (.inl (by simp))
      rw [argumentTokens, List.append_assoc, run_append, hrun, Option.bind_some, List.cons_append,
        run_cons]
      simp only [step, stepBehind, hdone, Option.bind_some]
      rw [hrest, List.append_assoc]
      rfl

mutual

/-- The tokens of an expression are read as its term. -/
theorem readAs_tokens (e : Expr) (h : e.Readable) (stack : List Frame)
    (hstack : Admits stack e.strength) : ReadAs e.tokens e.strength e.term stack := by
  match e with
  | atom text => exact readAs_atom h stack
  | negate operand =>
      have hadmits : Admits (.negation :: stack) 3 := Nat.le_refl 3
      obtain ⟨stack', t', hrun, hsettle⟩ := readAs_operand (readAs_tokens operand h) hadmits
      refine ⟨stack', t', hrun, ?_⟩
      intro needed hneeded
      exact hsettle needed (Nat.le_trans hneeded (Nat.zero_le 3))
  | binary operator left right =>
      refine readAs_binary (readAs_operand (readAs_tokens left h.1) hstack) ?_ hstack
      exact readAs_operand (readAs_tokens right h.2) (Nat.lt_succ_self _)
  | call function arguments =>
      have harguments := argumentsReadAs_all arguments h.2 function [] stack (.inr rfl)
      refine ⟨stack, (call function arguments).term, ?_, fun _ _ => rfl⟩
      rw [tokens, run_cons]
      simp only [step, Option.bind_some, String.ofList_toList]
      exact harguments
  | component object axis => exact readAs_component object axis stack

theorem argumentsReadAs_all (es : List Expr) (h : AllReadable es) : ArgumentsReadAs es := by
  match es with
  | [] => exact argumentsReadAs_nil
  | e :: es => exact argumentsReadAs_cons (readAs_tokens e h.1) (argumentsReadAs_all es h.2)

end

/-- With a semicolon behind them, they are read as just that. -/
theorem parse_tokens {e : Expr} (h : e.Readable) :
    parse (e.tokens ++ [.mark [';']]) = some e.term := by
  obtain ⟨stack', t', hrun, hsettle⟩ := readAs_tokens e h [] trivial
  have hdone : settle 0 stack' t' = ([], e.term) := hsettle 0 (Nat.zero_le _)
  rw [parse, run_append, hrun]
  simp [run, step, stepBehind, hdone, result?]

/-! ## Splitting the text -/

open Token

/-- The text ends there, or goes on with something that ends words and numbers. -/
def Ends (rest : List Char) : Prop := ∀ c, rest.head? = some c → c ∈ [' ', ')', ',', ';']

theorem ends_cons {c : Char} (h : c ∈ [' ', ')', ',', ';']) (rest : List Char) :
    Ends (c :: rest) := by
  intro d hd
  obtain rfl := Option.some.inj hd
  exact h

theorem stops_of_ends {t : Token} (ht : ∀ text, t ≠ .mark text) {rest : List Char}
    (h : Ends rest) : t.Stops rest := by
  intro c hc
  have hword : isWordChar c = false ∧ c ≠ '.' ∧ c ≠ '+' ∧ c ≠ '-' := by
    have hmem := h c hc
    simp only [List.mem_cons, List.not_mem_nil, or_false] at hmem
    rcases hmem with rfl | rfl | rfl | rfl <;> decide
  cases t with
  | word text => exact hword.1
  | number text => simp [continues, hword]
  | mark text => exact absurd rfl (ht text)

theorem word_stops {text : List Char} {c : Char} (h : isWordChar c = false) {rest : List Char} :
    (word text).Stops (c :: rest) := by
  intro d hd
  obtain rfl := Option.some.inj hd
  exact h

theorem mark_stops {c : Char} {rest : List Char}
    (h : ∀ d, rest.head? = some d → [c, d] ∉ doubleMarks) : (mark [c]).Stops rest := by
  intro d hd
  simp only [continues, List.cons_append, List.nil_append]
  simpa using h d hd

/-- Parentheses and commas go with nothing. -/
theorem reads_single {c : Char} (h : c ∈ ['(', ')', ',', '.', ';']) (rest : List Char) :
    Reads [c] [.mark [c]] rest := by
  have hmark : begin? c = some (some (.mark [c])) ∧
      ∀ pair ∈ doubleMarks, pair.head? ≠ some c := by
    simp only [List.mem_cons, List.not_mem_nil, or_false] at h
    rcases h with rfl | rfl | rfl | rfl | rfl <;> decide
  refine reads_mark hmark.1 (mark_stops ?_)
  intro d _ hmem
  exact hmark.2 [c, d] hmem rfl

/-- Operators and the equals sign have blanks around them. -/
theorem reads_spaced {c : Char} (h : c ∈ ['+', '-', '*', '/', '=']) (rest : List Char) :
    Reads [' ', c, ' '] [.mark [c]] rest := by
  have hspaced : begin? c = some (some (.mark [c])) ∧ [c, ' '] ∉ doubleMarks := by
    simp only [List.mem_cons, List.not_mem_nil, or_false] at h
    rcases h with rfl | rfl | rfl | rfl | rfl <;> decide
  have hmark : Reads [c] [.mark [c]] (' ' :: rest) := by
    refine reads_mark hspaced.1 (mark_stops ?_)
    intro d hd
    obtain rfl := Option.some.inj hd
    exact hspaced.2
  exact (reads_blank _).append (hmark.append (reads_blank rest))

theorem reads_operator (operator : Operator) (rest : List Char) :
    Reads (' ' :: (operator.symbol.toList ++ [' '])) [.mark operator.symbol.toList] rest := by
  cases operator <;> exact reads_spaced (by decide) rest

/-- A minus sign in front of something else than another one. -/
theorem reads_minus {rest : List Char} (h : ∀ c, rest.head? = some c → c ≠ '-' ∧ c ≠ '=') :
    Reads ['-'] [.mark ['-']] rest := by
  refine reads_mark (by decide) (mark_stops ?_)
  intro d hd
  simp [doubleMarks, h d hd]

theorem ne_minus_of_head {c : Char} (h : isWordStart c = true ∨ c.isDigit = true) :
    c ≠ '-' ∧ c ≠ '=' := by
  constructor
  · rintro rfl
    exact absurd h (by decide)
  · rintro rfl
    exact absurd h (by decide)

theorem reads_atom {text : String} (h : IsAtom text.toList) {rest : List Char}
    (hrest : Ends rest) : Reads text.toList (atomTokens text) rest := by
  rcases atom_cases h with ⟨hword, _, htokens, _⟩ | ⟨hliteral, _, htokens, _⟩ |
    ⟨magnitude, htext, hliteral, _, htokens, _⟩
  · rw [htokens]
    exact hword.reads (stops_of_ends (by simp) hrest)
  · rw [htokens]
    exact reads_literal hliteral (stops_of_ends (by simp) hrest)
  · rw [htokens, htext]
    obtain ⟨c, more, rfl, hc⟩ := head_of_isLiteral hliteral
    have hminus : Reads ['-'] [.mark ['-']] (c :: more ++ rest) := by
      refine reads_minus ?_
      intro d hd
      obtain rfl := Option.some.inj hd
      exact ne_minus_of_head (.inr hc)
    exact hminus.append (reads_literal hliteral (stops_of_ends (by simp) hrest))

/-- An operand that needs no parentheses begins with a letter or a digit. -/
theorem head_render {e : Expr} (h : e.Readable) (hstrength : 3 ≤ e.strength) :
    ∃ c, e.render.toList.head? = some c ∧ (isWordStart c = true ∨ c.isDigit = true) := by
  cases e with
  | atom text =>
      rcases atom_cases h with ⟨⟨c, more, htext, hc, _⟩, _⟩ | ⟨hliteral, _⟩ |
        ⟨_, _, _, _, _, hminus⟩
      · exact ⟨c, by rw [render, htext]; rfl, .inl hc⟩
      · obtain ⟨c, more, htext, hc⟩ := head_of_isLiteral hliteral
        exact ⟨c, by rw [render, htext]; rfl, .inr hc⟩
      · simp [strength, hminus] at hstrength
  | negate operand => simp [strength] at hstrength
  | binary operator left right => cases operator <;> simp [strength, Operator.strength] at hstrength
  | call function arguments =>
      obtain ⟨c, more, htext, hc, _⟩ := h.1
      refine ⟨c, ?_, .inl hc⟩
      rw [render, String.toList_append, String.toList_append, String.toList_append, htext]
      rfl
  | component object axis =>
      obtain ⟨c, more, htext, hc, _⟩ := h
      refine ⟨c, ?_, .inl hc⟩
      rw [render, String.toList_append, String.toList_append, htext]
      rfl

theorem toList_parenthesize (text : String) :
    (parenthesize text).toList = ['('] ++ (text.toList ++ [')']) := by
  simp [parenthesize]

theorem reads_operand {e : Expr} (he : ∀ rest, Ends rest → Reads e.render.toList e.tokens rest)
    (needed : Nat) {rest : List Char} (hrest : Ends rest) :
    Reads (operandText needed e e.render).toList (operandTokens needed e e.tokens) rest := by
  unfold operandText operandTokens
  split
  · rw [toList_parenthesize]
    have hclose := reads_single (c := ')') (by decide) rest
    exact (reads_single (by decide) _).append
      ((he _ (ends_cons (by decide) _)).append hclose)
  · exact he rest hrest

theorem head_operand {e : Expr} (h : e.Readable) (rest : List Char) :
    ∀ c, ((operandText 3 e e.render).toList ++ rest).head? = some c → c ≠ '-' ∧ c ≠ '=' := by
  intro c hc
  unfold operandText at hc
  split at hc
  · rw [toList_parenthesize] at hc
    obtain rfl := Option.some.inj hc
    decide
  · next hstrength =>
      obtain ⟨d, htext, hd⟩ := head_render h (Nat.le_of_not_lt hstrength)
      rw [List.head?_append, htext] at hc
      obtain rfl := Option.some.inj hc
      exact ne_minus_of_head hd

mutual

/-- The text of an expression is split into its tokens. -/
theorem reads_render (e : Expr) (h : e.Readable) (rest : List Char) (hrest : Ends rest) :
    Reads e.render.toList e.tokens rest := by
  match e with
  | atom text => exact reads_atom h hrest
  | negate operand =>
      have hminus := reads_minus (head_operand (e := operand) h rest)
      have hread := hminus.append (reads_operand (reads_render operand h) 3 hrest)
      rw [render, String.toList_append]
      exact hread
  | binary operator left right =>
      have hright := reads_operand (reads_render right h.2) (operator.strength + 1) hrest
      have hoperator := (reads_operator operator _).append hright
      have hread := (reads_operand (reads_render left h.1) operator.strength
        (ends_cons (by decide) _)).append hoperator
      simpa [render, tokens] using hread
  | call function arguments =>
      have hclose := reads_single (c := ')') (by decide) rest
      have harguments := (reads_arguments arguments h.2 _ (ends_cons (by decide) rest)).append hclose
      have hopen := (reads_single (c := '(') (by decide) _).append harguments
      have hread := (h.1.reads (word_stops (by decide))).append hopen
      simpa [render, tokens] using hread
  | component object axis =>
      have haxis : IsWord axis.component.toList := by
        cases axis <;> exact ⟨_, [], rfl, by decide, by simp⟩
      have hfield := haxis.reads (stops_of_ends (by simp) hrest)
      have hpoint := (reads_single (c := '.') (by decide) _).append hfield
      have hread := (h.reads (word_stops (by decide))).append hpoint
      simpa [render, tokens] using hread

theorem reads_arguments (es : List Expr) (h : AllReadable es) (rest : List Char)
    (hrest : Ends rest) :
    Reads (String.intercalate ", " (renderAll es)).toList (argumentTokens es) rest := by
  match es with
  | [] => simp [renderAll, argumentTokens, Reads]
  | [e] => simpa [renderAll, argumentTokens] using reads_render e h.1 rest hrest
  | e :: d :: es =>
      have hrest' := reads_arguments (d :: es) h.2 rest hrest
      have hcomma := (reads_single (c := ',') (by decide) _).append
        ((reads_blank _).append hrest')
      have hread := (reads_render e h.1 _ (ends_cons (by decide) _)).append hcomma
      simpa [renderAll, argumentTokens, String.intercalate_cons_cons] using hread

end

end Expr

/-! ## Declarations -/

/-- What the text of a declaration is read as. -/
def readDeclaration (text : String) : Option (String × Term) :=
  (tokens text).bind parseDeclaration

theorem tokens_of_reads {text : String} {ts : List Token} (h : Token.Reads text.toList ts []) :
    tokens text = some ts := by
  have hread : Token.lexFrom none (text.toList ++ []) = some (ts ++ []) := h
  rwa [List.append_nil, List.append_nil] at hread

/-- The text of a declaration is read as its name and the term of its value. -/
theorem readDeclaration_render (d : Declaration) (hname : Token.IsWord d.variableName.toList)
    (hvalue : d.value.Readable) : readDeclaration d.render = some (d.variableName, d.value.term) := by
  have hkeyword : Token.IsWord "float".toList := by decide
  have htokens : tokens d.render = some (.word "float".toList :: .word d.variableName.toList ::
      .mark "=".toList :: (d.value.tokens ++ [.mark [';']])) := by
    have hend := Expr.reads_single (c := ';') (by decide) []
    have hread := (Expr.reads_render d.value hvalue _ (Expr.ends_cons (by decide) [])).append hend
    have hequals := (Expr.reads_spaced (c := '=') (by decide) _).append hread
    have hdeclared := (hname.reads (Expr.word_stops (by decide))).append hequals
    have hall := (hkeyword.reads (Expr.word_stops (by decide))).append
      ((Token.reads_blank _).append hdeclared)
    apply tokens_of_reads
    simpa [Declaration.render] using hall
  rw [readDeclaration, htokens, Option.bind_some, parseDeclaration, if_pos ⟨rfl, rfl⟩,
    Expr.parse_tokens hvalue, Option.map_some, String.ofList_toList]

end NoiseShader.Shading
