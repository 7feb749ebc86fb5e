import NoiseShader.Proofs.ObjectText.Number
import NoiseShader.ObjectText.Writer

set_option autoImplicit false

/-! # Tokens of written text

`Lexes bound cs ts rest` says that the text `cs` begins with the tokens `ts` and goes on with
`rest`. Each piece that the writer puts down is one token: a mark, a name, the spelling of a number
or a quoted text, whatever characters that text holds (`textBody_escape`). A name and a number
end where a mark follows.
-/

namespace NoiseShader.ObjectText

/-! ## Quoted text -/

theorem hexValue?_of_digitsValue? {base value n : Nat} {cs : List Char}
    (h : digitsValue? base value cs = some n) : ∀ c ∈ cs, (hexValue? c).isSome := by
  induction cs generalizing value with
  | nil => simp
  | cons c cs ih =>
    rw [digitsValue?] at h
    cases hc : hexValue? c with
    | none => simp [hc] at h
    | some digit =>
      simp only [hc] at h
      split at h
      · simp only [List.forall_mem_cons, hc, Option.isSome_some, true_and]
        exact ih h
      · cases h

/-- A character is read back from its number. -/
theorem textEscape?_byNumber (c : Char) (rest : List Char) :
    textEscape? ('u' :: '\x7b' :: (Nat.toDigits 16 c.toNat ++ '\x7d' :: rest)) =
      some (c, rest) := by
  have hvalue : digitsValue? 16 0 (Nat.toDigits 16 c.toNat) = some c.toNat :=
    digitsValue?_toDigits (by decide) (by decide) _
  have hchars : ∀ d ∈ Nat.toDigits 16 c.toNat, (d != '\x7d') = true := by
    intro d hd
    have := hexValue?_of_digitsValue? hvalue d hd
    simp only [bne_iff_ne]
    rintro rfl
    exact absurd this (by decide)
  have hvalid : c.toNat.isValidChar := c.valid
  have hlength : ¬ 6 < (Nat.toDigits 16 c.toNat).length := by
    rw [Nat.not_lt, Nat.length_toDigits_le_iff (by decide) (by decide)]
    rcases hvalid with hlow | hhigh <;> omega
  have hne : Nat.toDigits 16 c.toNat ≠ [] := Nat.toDigits_ne_nil
  simp only [textEscape?, escaped?, numberedChar?, List.takeWhile_append_of_pos hchars,
    List.dropWhile_append_of_pos hchars]
  simp [hvalue, hne, hlength, hvalid]

/-- A character of quoted text stands for itself, or a backslash and an escape stand for it. -/
theorem escape_cases (c : Char) :
    (Text.escape true c = [c] ∧ c ≠ '\x22' ∧ c ≠ '\\') ∨
    ∃ e, Text.escape true c = '\\' :: e ∧ ∀ rest, textEscape? (e ++ rest) = some (c, rest) := by
  unfold Text.escape
  split
  next h => exact Or.inr ⟨['0'], rfl, fun rest => by rw [h]; rfl⟩
  split
  next h => exact Or.inr ⟨['t'], rfl, fun rest => by rw [h]; rfl⟩
  split
  next h => exact Or.inr ⟨['r'], rfl, fun rest => by rw [h]; rfl⟩
  split
  next h => exact Or.inr ⟨['n'], rfl, fun rest => by rw [h]; rfl⟩
  split
  next h => exact Or.inr ⟨['\x22'], rfl, fun rest => by rw [h]; rfl⟩
  split
  next h => exact Or.inr ⟨['\\'], rfl, fun rest => by rw [h]; rfl⟩
  split
  next h => exact Or.inr ⟨['\x27'], rfl, fun rest => by rw [(by simpa using h : c = '\x27')]; rfl⟩
  split
  next => exact Or.inr ⟨_, rfl, fun rest => by simpa using textEscape?_byNumber c rest⟩
  next => exact Or.inl ⟨rfl, by assumption, by assumption⟩

/-- Quoted text is read back, and its quote is the first that is not escaped. -/
theorem textBody_escape (s rest : List Char) {fuel : Nat} (h : s.length < fuel) :
    textBody fuel (s.flatMap (Text.escape true) ++ '\x22' :: rest) = some (s, rest) := by
  induction s generalizing fuel with
  | nil =>
    obtain ⟨fuel, rfl⟩ := Nat.exists_eq_succ_of_ne_zero (Nat.ne_zero_of_lt h)
    rfl
  | cons c s ih =>
    obtain ⟨fuel, rfl⟩ := Nat.exists_eq_succ_of_ne_zero (Nat.ne_zero_of_lt h)
    have ih := ih (Nat.lt_of_succ_lt_succ h)
    rw [List.flatMap_cons, List.append_assoc]
    rcases escape_cases c with ⟨htext, hquote, hslash⟩ | ⟨e, htext, hread⟩
    · rw [htext, List.singleton_append, textBody, if_neg hquote, if_neg hslash, ih]
      rfl
    · rw [htext, List.cons_append, textBody, if_neg (by decide), if_pos rfl]
      simp only [hread, ih, Option.map_some]

theorem length_le_escape (cs : List Char) :
    cs.length ≤ (cs.flatMap (Text.escape true)).length := by
  induction cs with
  | nil => simp
  | cons c cs ih =>
    have hc : 0 < (Text.escape true c).length := by
      rcases escape_cases c with ⟨htext, -⟩ | ⟨e, htext, -⟩ <;> simp [htext]
    rw [List.flatMap_cons, List.length_append, List.length_cons]
    omega

/-- A text is shorter than its quoted form, so the length of a document bounds all of its texts. -/
theorem length_lt_writeText (s : String) : s.toList.length < (writeText s).length := by
  have hescape := length_le_escape s.toList
  simp only [writeText, Text.quoteChars, List.length_cons, List.length_append]
  omega

/-! ## Where names and numbers end -/

/-- A text that ends, or goes on with a mark that can follow a value or a name. -/
def Stops (rest : List Char) : Prop := ∀ c ∈ rest.head?, isMark c = true ∧ c ≠ '#'

/-- There are ten marks, so a property of them is checked. -/
theorem of_isMark {p : Char → Bool}
    (hp : ['(', ')', '[', ']', '\x7b', '\x7d', ':', ',', '#', '!'].all p = true) {c : Char}
    (h : isMark c = true) : p c = true :=
  List.all_eq_true.1 hp c (by simpa [isMark, or_assoc] using h)

theorem not_isWordChar_of_isMark {c : Char} (h : isMark c = true) : Text.isWordChar c = false := by
  simpa using of_isMark (p := fun c => !Text.isWordChar c) (by decide) h

theorem not_isRawChar_of_isMark {c : Char} (h : isMark c = true) : isRawChar c = false := by
  simpa using of_isMark (p := fun c => !isRawChar c) (by decide) h

theorem not_startsNumber_of_isMark {c : Char} (h : isMark c = true) : startsNumber c = false := by
  simpa using of_isMark (p := fun c => !startsNumber c) (by decide) h

theorem isWordChar_of_isWordStart {c : Char} (h : Text.isWordStart c = true) :
    Text.isWordChar c = true := by
  rcases Bool.or_eq_true_iff.1 h with hline | hletter
  · rw [beq_iff_eq.1 hline]
    decide
  · simp [Text.isWordChar, hletter]

/-- A run of characters of one kind ends where a character of another kind follows. -/
theorem span_run {p : Char → Bool} {cs rest : List Char} (hcs : ∀ c ∈ cs, p c = true)
    (hrest : ∀ c ∈ rest.head?, p c = false) :
    (cs ++ rest).takeWhile p = cs ∧ (cs ++ rest).dropWhile p = rest := by
  have hhead : rest.takeWhile p = [] ∧ rest.dropWhile p = rest := by
    cases rest with
    | nil => exact ⟨rfl, rfl⟩
    | cons c rest => simp [hrest c rfl]
  rw [List.takeWhile_append_of_pos hcs, List.dropWhile_append_of_pos hcs, hhead.1, hhead.2,
    List.append_nil]
  exact ⟨rfl, rfl⟩

/-- What follows word characters, in a word with a text behind it that stops, is one more of them
or a mark. -/
theorem mark_of_append_eq {w rest p tail : List Char} {q : Char}
    (hw : ∀ c ∈ w, Text.isWordChar c = true) (hrest : Stops rest)
    (hp : ∀ c ∈ p, Text.isWordChar c = true) (h : w ++ rest = p ++ q :: tail) :
    Text.isWordChar q = true ∨ isMark q = true ∧ q ≠ '#' := by
  by_cases hq : Text.isWordChar q = true
  · exact Or.inl hq
  · have hdrop := (span_run hw fun c hc => not_isWordChar_of_isMark (hrest c hc).1).2
    have hdrop' : (p ++ q :: tail).dropWhile Text.isWordChar = q :: tail :=
      (span_run hp (by simpa using hq)).2
    rw [h, hdrop'] at hdrop
    exact Or.inr (hrest q (hdrop ▸ rfl))

/-- Whether a text is a name. -/
def isName : List Char → Bool
  | [] => false
  | c :: cs => Text.isWordStart c && cs.all Text.isWordChar

theorem isWordChar_of_isName {w : List Char} (h : isName w = true) :
    ∀ c ∈ w, Text.isWordChar c = true := by
  cases w with
  | nil => simp
  | cons c cs =>
    simp only [isName, Bool.and_eq_true, List.all_eq_true] at h
    exact List.forall_mem_cons.2 ⟨isWordChar_of_isWordStart h.1, h.2⟩

theorem toNat_of_isDigit {c : Char} (h : c.isDigit = true) : 0x30 ≤ c.toNat ∧ c.toNat ≤ 0x39 := by
  have hval : (decide (c.val ≥ 48) && decide (c.val ≤ 57)) = true := h
  simp only [Bool.and_eq_true, decide_eq_true_eq, UInt32.le_iff_toNat_le] at hval
  exact hval

theorem isRawChar_of_isDigit {c : Char} (h : c.isDigit = true) : isRawChar c = true := by
  obtain ⟨hlow, hhigh⟩ := toNat_of_isDigit h
  have hrange : Text.inRanges c.toNat Text.nonInitialRanges = true :=
    (if_neg (Nat.not_lt.2 hlow)).trans (if_pos hhigh)
  simp [isRawChar, Text.isWordChar, hrange]

theorem startsNumber_of_isWordStart {c : Char} (h : Text.isWordStart c = true) :
    startsNumber c = false := by
  by_contra hstart
  simp only [startsNumber, Bool.not_eq_false, Bool.or_eq_true, beq_iff_eq] at hstart
  rcases hstart with ((hdigit | rfl) | rfl) | rfl
  · have hlt : c.toNat < 0x41 := Nat.lt_of_le_of_lt (toNat_of_isDigit hdigit).2 (by decide)
    have hline : c ≠ '_' := by
      rintro rfl
      exact absurd hdigit (by decide)
    have hletter : Text.inRanges c.toNat Text.letterRanges = false := if_pos hlt
    simp [Text.isWordStart, hline, hletter] at h
  all_goals exact absurd h (by decide)

/-- What can stand before the quote or the number sign of a literal. -/
def literalFronts : List (List Char) := [[], ['b'], ['b', 'r'], ['r']]

theorem isWordChar_literalFronts {p : List Char} (hp : p ∈ literalFronts) :
    ∀ c ∈ p, Text.isWordChar c = true := by
  have hall : (literalFronts.all fun p => p.all Text.isWordChar) = true := by decide
  exact List.all_eq_true.1 (List.all_eq_true.1 hall p hp)

theorem not_startsNumber_literalFronts {p : List Char} (hp : p ∈ literalFronts) :
    ∀ c ∈ p, startsNumber c = false := by
  have hall : (literalFronts.all fun p => p.all fun c => !startsNumber c) = true := by decide
  simpa using List.all_eq_true.1 (List.all_eq_true.1 hall p hp)

/-- The first token of a text that does not begin with a literal. -/
theorem token?_plain {bound : Nat} {c : Char} {cs : List Char}
    (h : ∀ p ∈ literalFronts, ∀ q tail, c :: cs = p ++ q :: tail →
      q ≠ '\x22' ∧ q ≠ '\x27' ∧ q ≠ '#') :
    token? bound (c :: cs) =
      if isMark c then some (.mark c, cs)
      else if startsNumber c then
        some (.number (c :: cs.takeWhile isRawChar), cs.dropWhile isRawChar)
      else if Text.isWordStart c then
        some (.name false (String.ofList (c :: cs.takeWhile Text.isWordChar)),
          cs.dropWhile Text.isWordChar)
      else none := by
  unfold token?
  split
  next heq => cases heq
  next heq => exact absurd rfl (h ['b'] (by decide) _ _ heq).1
  next heq => exact absurd rfl (h ['b'] (by decide) _ _ heq).2.1
  next heq => exact absurd rfl (h ['b', 'r'] (by decide) _ _ heq).1
  next heq => exact absurd rfl (h ['b', 'r'] (by decide) _ _ heq).2.2
  next heq => exact absurd rfl (h ['r'] (by decide) _ _ heq).1
  next heq => exact absurd rfl (h ['r'] (by decide) _ _ heq).2.2
  next heq => exact absurd rfl (h ['r'] (by decide) _ _ heq).2.2
  next heq => exact absurd rfl (h ['r'] (by decide) _ _ heq).2.2
  next heq => exact absurd rfl (h [] (by decide) _ _ heq).1
  next heq => exact absurd rfl (h [] (by decide) _ _ heq).2.1
  next heq =>
    cases heq
    rfl

/-- A name is one token: the letters `b` and `r` begin a literal only if a quote or a number sign
follows. -/
theorem token?_name {w rest : List Char} (hw : isName w = true) (hrest : Stops rest) (bound : Nat) :
    token? bound (w ++ rest) = some (.name false (String.ofList w), rest) := by
  have hchars := isWordChar_of_isName hw
  cases w with
  | nil => cases hw
  | cons c cs =>
    obtain ⟨hc, hcs⟩ := List.forall_mem_cons.1 hchars
    obtain ⟨htake, hdrop⟩ :=
      span_run hcs fun c hc => not_isWordChar_of_isMark (hrest c hc).1
    have hstart : Text.isWordStart c = true := (Bool.and_eq_true_iff.1 hw).1
    have hmark : isMark c = false := by
      by_contra hmark
      simp [not_isWordChar_of_isMark (Bool.not_eq_false _ ▸ hmark)] at hc
    rw [List.cons_append, token?_plain, hmark, startsNumber_of_isWordStart hstart, hstart, htake,
      hdrop]
    · rfl
    · intro p hp q tail heq
      have hq := mark_of_append_eq (w := c :: cs) hchars hrest (isWordChar_literalFronts hp) heq
      refine ⟨?_, ?_, ?_⟩ <;> rintro rfl <;> exact absurd hq (by decide)

/-- What the lexer takes for the spelling of one number. -/
def isSpelling : List Char → Bool
  | [] => false
  | c :: cs => startsNumber c && cs.all isRawChar

/-- Digits and points, with a sign in front of them or not. -/
theorem isSpelling_of_chars {cs : List Char} (hne : cs ≠ [])
    (h : ∀ c ∈ cs, c = '-' ∨ c = '.' ∨ c.isDigit = true) : isSpelling cs = true := by
  have hstart : ∀ c ∈ cs, startsNumber c = true := by
    intro c hc
    rcases h c hc with rfl | rfl | hdigit
    · decide
    · decide
    · simp [startsNumber, hdigit]
  have hraw : ∀ c ∈ cs, isRawChar c = true := by
    intro c hc
    rcases h c hc with rfl | rfl | hdigit
    · decide
    · decide
    · exact isRawChar_of_isDigit hdigit
  cases cs with
  | nil => exact absurd rfl hne
  | cons c cs =>
    obtain ⟨-, hcs⟩ := List.forall_mem_cons.1 hraw
    simp only [isSpelling, hstart c List.mem_cons_self, Bool.true_and, List.all_eq_true]
    exact hcs

theorem token?_number {w rest : List Char} (hw : isSpelling w = true) (hrest : Stops rest)
    (bound : Nat) : token? bound (w ++ rest) = some (.number w, rest) := by
  cases w with
  | nil => cases hw
  | cons c cs =>
    obtain ⟨hstart, hcs⟩ := Bool.and_eq_true_iff.1 hw
    obtain ⟨htake, hdrop⟩ :=
      span_run (List.all_eq_true.1 hcs) fun c hc => not_isRawChar_of_isMark (hrest c hc).1
    have hmark : isMark c = false := by
      by_contra hmark
      simp [not_startsNumber_of_isMark (Bool.not_eq_false _ ▸ hmark)] at hstart
    rw [List.cons_append, token?_plain, hmark, hstart, htake, hdrop]
    · rfl
    · intro p hp q tail heq
      cases p with
      | nil =>
        obtain ⟨rfl, -⟩ := List.cons.inj heq
        refine ⟨?_, ?_, ?_⟩ <;> rintro rfl <;> exact absurd hstart (by decide)
      | cons d p =>
        obtain ⟨rfl, -⟩ := List.cons.inj heq
        simp [not_startsNumber_literalFronts hp] at hstart

theorem token?_text (s : String) (rest : List Char) {bound : Nat} (h : s.toList.length < bound) :
    token? bound (writeText s ++ rest) = some (.text s, rest) := by
  have hbody := textBody_escape s.toList rest h
  rw [writeText, Text.quoteChars, List.cons_append, List.append_assoc, List.singleton_append]
  show (textBody bound (s.toList.flatMap (Text.escape true) ++ '\x22' :: rest)).map _ = _
  rw [hbody]
  exact congrArg (fun s => some (Token.text s, rest)) String.ofList_toList

/-! ## Tokens in a row -/

/-- There are eleven blanks, so a property of them is checked. -/
theorem of_isSpace {p : Char → Bool}
    (hp : [' ', '\t', '\n', '\r', '\x0b', '\x0c', '\u0085', '\u200e', '\u200f', '\u2028',
      '\u2029'].all p = true) {c : Char} (h : isSpace c = true) : p c = true :=
  List.all_eq_true.1 hp c (by simpa [isSpace, or_assoc] using h)

theorem not_isWordStart_of_isSpace {c : Char} (h : isSpace c = true) :
    Text.isWordStart c = false := by
  simpa using of_isSpace (p := fun c => !Text.isWordStart c) (by decide +kernel) h

theorem not_startsNumber_of_isSpace {c : Char} (h : isSpace c = true) : startsNumber c = false := by
  simpa using of_isSpace (p := fun c => !startsNumber c) (by decide) h

/-- A character of a kind that neither a blank nor a slash is of. -/
theorem not_blank {p : Char → Bool} (hspace : ∀ c, isSpace c = true → p c = false)
    (hslash : p '/' = false) {c : Char} (hc : p c = true) : isSpace c = false ∧ c ≠ '/' := by
  constructor
  · by_contra h
    simp [hspace c (Bool.not_eq_false _ ▸ h)] at hc
  · rintro rfl
    exact Bool.false_ne_true (hslash.symm.trans hc)

theorem skipBlanks_cons {c : Char} (h : c ≠ '/') (cs : List Char) :
    skipBlanks .plain (c :: cs) = if isSpace c then skipBlanks .plain cs else some (c :: cs) := by
  conv_lhs => unfold skipBlanks
  split <;> simp_all

/-- A text begins with some tokens, each of them not empty, and goes on with `rest`. -/
inductive Lexes (bound : Nat) : List Char → List Lexeme → List Char → Prop
  | done (rest : List Char) : Lexes bound rest [] rest
  | step {cs front mid rest : List Char} {c : Char} {t : Token} {ts : List Lexeme}
      (blank : skipBlanks .plain cs = some (c :: front))
      (token : token? bound (c :: front) = some (t, mid)) (shorter : mid.length < cs.length)
      (more : Lexes bound mid ts rest) : Lexes bound cs (⟨t, mid⟩ :: ts) rest

namespace Lexes

variable {bound : Nat} {cs mid rest : List Char} {ts us : List Lexeme}

theorem append (h : Lexes bound cs ts mid) (h' : Lexes bound mid us rest) :
    Lexes bound cs (ts ++ us) rest := by
  induction h with
  | done => exact h'
  | step blank token shorter _ ih => exact .step blank token shorter (ih h')

theorem length_le (h : Lexes bound cs ts rest) : ts.length + rest.length ≤ cs.length := by
  induction h with
  | done => simp
  | step _ _ shorter _ ih =>
    rw [List.length_cons]
    omega

/-- Blanks before the first token are dropped. -/
theorem blank (h : Lexes bound cs ts rest) (hne : ts ≠ []) {c : Char} (hc : isSpace c = true) :
    Lexes bound (c :: cs) ts rest := by
  have hslash : c ≠ '/' := by
    rintro rfl
    exact absurd hc (by decide)
  cases h with
  | done => exact absurd rfl hne
  | step blank token shorter more =>
    refine .step ?_ token (Nat.lt_succ_of_lt shorter) more
    rw [skipBlanks_cons hslash, if_pos hc, blank]

theorem newLine (h : Lexes bound cs ts rest) (hne : ts ≠ []) (depth : Nat) :
    Lexes bound (newLine depth ++ cs) ts rest := by
  have hspaces : ∀ n, Lexes bound (List.replicate n ' ' ++ cs) ts rest := by
    intro n
    induction n with
    | zero => exact h
    | succ n ih => exact ih.blank hne rfl
  exact (hspaces _).blank hne rfl

/-- One token that begins with neither a blank nor a comment. -/
theorem token {c : Char} (front : List Char) {t : Token} (hspace : isSpace c = false)
    (hslash : c ≠ '/') (h : token? bound (c :: front ++ rest) = some (t, rest)) :
    Lexes bound (c :: front ++ rest) [⟨t, rest⟩] rest := by
  have hshorter : rest.length < (c :: front ++ rest).length := by
    rw [List.length_append, List.length_cons]
    omega
  refine .step ?_ h hshorter (.done rest)
  rw [List.cons_append, skipBlanks_cons hslash, hspace]
  rfl

theorem mark {c : Char} (hc : c ∈ ['(', ')', '[', ']', ':', ',']) :
    Lexes bound (c :: rest) [⟨.mark c, rest⟩] rest := by
  simp only [List.mem_cons, List.not_mem_nil, or_false] at hc
  rcases hc with rfl | rfl | rfl | rfl | rfl | rfl <;>
    exact .token [] rfl (by decide) rfl

theorem name {w : List Char} (hw : isName w = true) (hrest : Stops rest) :
    Lexes bound (w ++ rest) [⟨.name false (String.ofList w), rest⟩] rest := by
  have htoken := token?_name hw hrest bound
  cases w with
  | nil => cases hw
  | cons c w =>
    obtain ⟨hspace, hslash⟩ := not_blank (fun _ => not_isWordStart_of_isSpace) (by decide)
      (Bool.and_eq_true_iff.1 hw).1
    exact .token w hspace hslash htoken

theorem number {w : List Char} (hw : isSpelling w = true) (hrest : Stops rest) :
    Lexes bound (w ++ rest) [⟨.number w, rest⟩] rest := by
  have htoken := token?_number hw hrest bound
  cases w with
  | nil => cases hw
  | cons c w =>
    obtain ⟨hspace, hslash⟩ := not_blank (fun _ => not_startsNumber_of_isSpace) (by decide)
      (Bool.and_eq_true_iff.1 hw).1
    exact .token w hspace hslash htoken

theorem text {s : String} (h : s.toList.length < bound) :
    Lexes bound (writeText s ++ rest) [⟨.text s, rest⟩] rest :=
  .token _ rfl (by decide) (token?_text s rest h)

/-- Tokens that a whole text begins with are the first that the lexer finds. -/
theorem lexemesFrom (h : Lexes bound cs ts rest) (found : List Lexeme) (fuel : Nat) :
    lexemesFrom bound found (ts.length + fuel) cs =
      lexemesFrom bound (ts.reverse ++ found) fuel rest := by
  induction h generalizing found with
  | done => simp
  | step blank token _ _ ih =>
    rw [List.length_cons, Nat.succ_add, ObjectText.lexemesFrom]
    simp only [blank, token, ih, List.reverse_cons, List.append_assoc, List.singleton_append]

/-- A text of tokens is split into them. -/
theorem lexemes? (h : Lexes bound cs ts []) (hbound : cs.length < bound) :
    lexemes? bound cs = some ts := by
  have hlength := h.length_le
  obtain ⟨fuel, rfl⟩ : ∃ fuel, bound = ts.length + (fuel + 1) :=
    ⟨bound - ts.length - 1, by omega⟩
  have hend : skipBlanks .plain [] = some [] := rfl
  rw [ObjectText.lexemes?, h.lexemesFrom, ObjectText.lexemesFrom, hend]
  simp

end Lexes

end NoiseShader.ObjectText
