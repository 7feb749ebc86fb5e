import NoiseShader.Shading.Expr

set_option autoImplicit false

/-! # Tokens of the shading language

Text is split into words, numbers and marks, each as long as it can be made: `a--b` has the mark
`--` and not two minus signs, and `1e-5` is one number. `Reads` says that a piece of text is
split by itself, whatever was read before it; it is how the tokens of a longer text are put
together from those of its parts.
-/

namespace NoiseShader.Shading

inductive Token
  | word (text : List Char)
  | number (text : List Char)
  | mark (text : List Char)
deriving DecidableEq, Repr

namespace Token

def isWordStart (c : Char) : Bool := c.isAlpha || c == '_'

def isWordChar (c : Char) : Bool := c.isAlphanum || c == '_'

def marks : List Char := ['+', '-', '*', '/', '(', ')', ',', '.', '=', ';']

/-- Marks that are read as one: operators that are not used here, and what begins a comment. -/
def doubleMarks : List (List Char) :=
  [['+', '+'], ['-', '-'], ['+', '='], ['-', '='], ['*', '='], ['/', '='], ['=', '='],
    ['/', '/'], ['/', '*']]

/-- The token with more characters at its end. -/
def append : Token → List Char → Token
  | word text, more => word (text ++ more)
  | number text, more => number (text ++ more)
  | mark text, more => mark (text ++ more)

/-- Whether a character still belongs to the token. Numbers take in letters and points, and
signs after the letter of an exponent. -/
def continues : Token → Char → Bool
  | word _, c => isWordChar c
  | number text, c =>
    isWordChar c || c == '.' || ((c == '+' || c == '-') && text.getLast? == some 'e')
  | mark text, c => doubleMarks.contains (text ++ [c])

/-- The token that a character begins; a blank begins none. -/
def begin? (c : Char) : Option (Option Token) :=
  if isWordStart c then some (some (word [c]))
  else if c.isDigit then some (some (number [c]))
  else if c.isWhitespace then some none
  else if marks.contains c then some (some (mark [c]))
  else none

/-- Splits text that follows a token which may go on. -/
def lexFrom (pending : Option Token) : List Char → Option (List Token)
  | [] => some pending.toList
  | c :: rest =>
    match pending.filter (continues · c) with
    | some t => lexFrom (some (t.append [c])) rest
    | none =>
      match begin? c with
      | none => none
      | some next => (lexFrom next rest).map (pending.toList ++ ·)

end Token

/-- The tokens of a text; there are none if it has a character of no use. -/
def tokens (text : String) : Option (List Token) := Token.lexFrom none text.toList

example : tokens "x_1 = -2.5e-7;" = some [.word ['x', '_', '1'], .mark ['='], .mark ['-'],
    .number ['2', '.', '5', 'e', '-', '7'], .mark [';']] := by decide

namespace Token

/-! ## Where tokens end -/

/-- The text does not go on with the token. -/
def Stops (t : Token) (rest : List Char) : Prop := ∀ c, rest.head? = some c → t.continues c = false

theorem lexFrom_of_continues {t : Token} {c : Char} (h : t.continues c = true)
    (rest : List Char) : lexFrom (some t) (c :: rest) = lexFrom (some (t.append [c])) rest := by
  rw [lexFrom, Option.filter_some, if_pos h]

theorem lexFrom_of_stops {t : Token} {rest : List Char} (h : t.Stops rest) :
    lexFrom (some t) rest = (lexFrom none rest).map (t :: ·) := by
  cases rest with
  | nil => rfl
  | cons c rest =>
      have hc : ¬ t.continues c = true := by simp [h c rfl]
      rw [lexFrom, lexFrom, Option.filter_some, if_neg hc, Option.filter_none]
      cases begin? c with
      | none => rfl
      | some next =>
          show (lexFrom next rest).map _ = ((lexFrom next rest).map _).map _
          rw [Option.map_map]
          rfl

/-- All of the text belongs to the token. -/
def Absorbs : Token → List Char → Prop
  | _, [] => True
  | t, c :: rest => t.continues c = true ∧ (t.append [c]).Absorbs rest

theorem append_append (t : Token) (xs ys : List Char) :
    (t.append xs).append ys = t.append (xs ++ ys) := by
  cases t <;> simp [append]

theorem append_nil (t : Token) : t.append [] = t := by
  cases t <;> simp [append]

theorem absorbs_append {t : Token} {xs ys : List Char} (hxs : t.Absorbs xs)
    (hys : (t.append xs).Absorbs ys) : t.Absorbs (xs ++ ys) := by
  induction xs generalizing t with
  | nil => rwa [append_nil] at hys
  | cons c xs ih =>
      refine ⟨hxs.1, ih hxs.2 ?_⟩
      rwa [append_append]

theorem lexFrom_of_absorbs {t : Token} {text : List Char} (h : t.Absorbs text)
    (rest : List Char) : lexFrom (some t) (text ++ rest) = lexFrom (some (t.append text)) rest := by
  induction text generalizing t with
  | nil => rw [List.nil_append, append_nil]
  | cons c text ih =>
      rw [List.cons_append, lexFrom_of_continues h.1, ih h.2, append_append]
      rfl

/-! ## Text that is split by itself -/

/-- With `rest` after it, the text is split into the tokens `ts`, and `rest` is split as if it
stood alone. -/
def Reads (text : List Char) (ts : List Token) (rest : List Char) : Prop :=
  lexFrom none (text ++ rest) = (lexFrom none rest).map (ts ++ ·)

theorem Reads.append {xs ys : List Char} {ts us : List Token} {rest : List Char}
    (hxs : Reads xs ts (ys ++ rest)) (hys : Reads ys us rest) :
    Reads (xs ++ ys) (ts ++ us) rest := by
  unfold Reads at *
  rw [List.append_assoc, hxs, hys, Option.map_map]
  congr 1
  funext more
  simp

theorem reads_blank (rest : List Char) : Reads [' '] [] rest := by
  show (lexFrom none rest).map _ = (lexFrom none rest).map _
  rfl

theorem reads_token {c : Char} {t : Token} (hc : begin? c = some (some t)) {more : List Char}
    (hmore : t.Absorbs more) {rest : List Char} (hrest : (t.append more).Stops rest) :
    Reads (c :: more) [t.append more] rest := by
  unfold Reads
  rw [List.cons_append, lexFrom, Option.filter_none, hc]
  show (lexFrom (some t) (more ++ rest)).map _ = _
  rw [lexFrom_of_absorbs hmore, lexFrom_of_stops hrest, Option.map_map]
  rfl

theorem reads_mark {c : Char} (hc : begin? c = some (some (mark [c])))
    {rest : List Char} (hrest : (mark [c]).Stops rest) : Reads [c] [mark [c]] rest := by
  have hnothing : (mark [c]).Absorbs [] := trivial
  exact reads_token hc hnothing hrest

/-! ## Words -/

/-- Words and numbers take in letters, digits and underscores. -/
theorem absorbs_of_wordChars {t : Token} (ht : ∀ text, t ≠ mark text) {more : List Char}
    (h : ∀ d ∈ more, isWordChar d = true) : t.Absorbs more := by
  induction more generalizing t with
  | nil => trivial
  | cons d more ih =>
      have hd : isWordChar d = true := h d List.mem_cons_self
      have hmore : ∀ e ∈ more, isWordChar e = true := fun e he => h e (List.mem_cons_of_mem _ he)
      cases t with
      | word text => exact ⟨hd, ih (fun _ heq => by cases heq) hmore⟩
      | number text => exact ⟨by simp [continues, hd], ih (fun _ heq => by cases heq) hmore⟩
      | mark text => exact absurd rfl (ht text)

/-- A letter or an underscore, then letters, digits and underscores. -/
def IsWord (text : List Char) : Prop :=
  ∃ c more, text = c :: more ∧ isWordStart c = true ∧ ∀ d ∈ more, isWordChar d = true

theorem isWord_iff (text : List Char) : IsWord text ↔
    text.head?.any isWordStart = true ∧ text.tail.all isWordChar = true := by
  cases text with
  | nil => simp [IsWord]
  | cons c more =>
      rw [List.tail_cons, List.all_eq_true]
      constructor
      · rintro ⟨d, rest, heq, hd, hrest⟩
        obtain ⟨rfl, rfl⟩ := List.cons.inj heq
        exact ⟨hd, hrest⟩
      · rintro ⟨hc, hmore⟩
        exact ⟨c, more, rfl, hc, hmore⟩

instance (text : List Char) : Decidable (IsWord text) := decidable_of_iff' _ (isWord_iff text)

/-- A word holds only what words are made of. -/
theorem IsWord.notMem {text : List Char} (h : IsWord text) {c : Char} (hc : isWordChar c = false) :
    c ∉ text := by
  obtain ⟨d, more, rfl, hd, hmore⟩ := h
  intro hmem
  rcases List.mem_cons.mp hmem with rfl | hmem
  · have hstart : isWordChar c = true := by
      simp only [isWordStart, isWordChar, Char.isAlphanum, Bool.or_eq_true] at hd ⊢
      exact hd.imp_left .inl
    rw [hc] at hstart
    cases hstart
  · rw [hmore c hmem] at hc
    cases hc

theorem IsWord.reads {text rest : List Char} (h : IsWord text) (hrest : (word text).Stops rest) :
    Reads text [word text] rest := by
  obtain ⟨c, more, rfl, hc, hmore⟩ := h
  have hbegin : begin? c = some (some (word [c])) := by rw [begin?, if_pos hc]
  exact reads_token hbegin (absorbs_of_wordChars (by simp) hmore) hrest

/-! ## Literals -/

def isDigits (text : List Char) : Bool := !text.isEmpty && text.all Char.isDigit

def isExponent : List Char → Bool
  | 'e' :: '-' :: digits => isDigits digits
  | 'e' :: '+' :: digits => isDigits digits
  | 'e' :: digits => isDigits digits
  | _ => false

/-- Digits with a fraction, an exponent or both. -/
def isLiteral (text : List Char) : Bool :=
  isDigits (text.takeWhile Char.isDigit) &&
    match text.dropWhile Char.isDigit with
    | '.' :: rest =>
      isDigits (rest.takeWhile Char.isDigit) &&
        ((rest.dropWhile Char.isDigit).isEmpty || isExponent (rest.dropWhile Char.isDigit))
    | rest => isExponent rest

theorem isDigits_iff (text : List Char) :
    isDigits text = true ↔ text ≠ [] ∧ ∀ c ∈ text, c.isDigit = true := by
  simp [isDigits]

theorem isWordChar_of_isDigit {c : Char} (h : c.isDigit = true) : isWordChar c = true := by
  simp [isWordChar, Char.isAlphanum, h]

theorem isWordStart_of_isDigit {c : Char} (h : c.isDigit = true) : isWordStart c = false := by
  have hdigit : (decide (c.val ≥ 48) && decide (c.val ≤ 57)) = true := h
  have hletter : c.isAlpha = false := by
    show (decide (c.val ≥ 65 ∧ c.val ≤ 90) ||
      (decide (c.val ≥ 97) && decide (c.val ≤ 122))) = false
    grind
  have hunderscore : c ≠ '_' := by
    rintro rfl
    exact absurd h (by decide)
  simp [isWordStart, hletter, hunderscore]

theorem number_absorbs_digits {digits : List Char} (h : isDigits digits = true)
    (text : List Char) : (number text).Absorbs digits := by
  refine absorbs_of_wordChars (by simp) ?_
  intro d hd
  exact isWordChar_of_isDigit (((isDigits_iff digits).mp h).2 d hd)

theorem number_absorbs_exponent {tail : List Char} (h : isExponent tail = true)
    (text : List Char) : (number text).Absorbs tail := by
  -- the letter is taken in like a digit, and then a sign may follow it
  have hsign : ∀ c, c = '-' ∨ c = '+' → (number (text ++ ['e'])).continues c = true := by
    rintro c (rfl | rfl) <;> simp [continues]
  unfold isExponent at h
  split at h
  · exact ⟨rfl, hsign _ (.inl rfl), number_absorbs_digits h _⟩
  · exact ⟨rfl, hsign _ (.inr rfl), number_absorbs_digits h _⟩
  · exact ⟨rfl, number_absorbs_digits h _⟩
  · cases h

/-- Behind its whole digits, a literal goes on with a fraction, an exponent or both. -/
theorem isLiteral_cases {text : List Char} (h : isLiteral text = true) :
    ∃ whole tail, text = whole ++ tail ∧ isDigits whole = true ∧
      (isExponent tail = true ∨ ∃ fraction exponent, tail = '.' :: (fraction ++ exponent) ∧
        isDigits fraction = true ∧ (exponent = [] ∨ isExponent exponent = true)) := by
  rw [isLiteral, Bool.and_eq_true] at h
  refine ⟨_, _, List.takeWhile_append_dropWhile.symm, h.1, ?_⟩
  have htail := h.2
  split at htail
  · next rest hrest =>
      simp only [Bool.and_eq_true, Bool.or_eq_true, List.isEmpty_iff] at htail
      refine .inr ⟨_, _, ?_, htail.1, htail.2⟩
      rw [hrest, List.takeWhile_append_dropWhile]
  · exact .inl htail

theorem number_absorbs_literal_tail {tail : List Char} (text : List Char)
    (h : isExponent tail = true ∨ ∃ fraction exponent, tail = '.' :: (fraction ++ exponent) ∧
      isDigits fraction = true ∧ (exponent = [] ∨ isExponent exponent = true)) :
    (number text).Absorbs tail := by
  rcases h with h | ⟨fraction, exponent, rfl, hfraction, hexponent⟩
  · exact number_absorbs_exponent h text
  · refine ⟨by simp [continues], absorbs_append (number_absorbs_digits hfraction _) ?_⟩
    rcases hexponent with rfl | hexponent
    · trivial
    · exact number_absorbs_exponent hexponent _

/-- Literals are read as one number. -/
theorem reads_literal {text rest : List Char} (h : isLiteral text = true)
    (hrest : (number text).Stops rest) : Reads text [number text] rest := by
  obtain ⟨whole, tail, rfl, hwhole, htail⟩ := isLiteral_cases h
  obtain ⟨hne, hdigits⟩ := (isDigits_iff whole).mp hwhole
  obtain ⟨c, whole, rfl⟩ := List.exists_cons_of_ne_nil hne
  have hc : c.isDigit = true := hdigits c List.mem_cons_self
  have hbegin : begin? c = some (some (number [c])) := by
    simp [begin?, isWordStart_of_isDigit hc, hc]
  refine reads_token hbegin (absorbs_append (absorbs_of_wordChars (by simp) ?_)
    (number_absorbs_literal_tail _ htail)) hrest
  intro d hd
  exact isWordChar_of_isDigit (hdigits d (List.mem_cons_of_mem _ hd))

/-! ### Literals from their parts -/

theorem takeWhile_digits {digits rest : List Char} (h : ∀ c ∈ digits, c.isDigit = true)
    (hrest : ∀ c, rest.head? = some c → c.isDigit = false) :
    (digits ++ rest).takeWhile Char.isDigit = digits ∧
      (digits ++ rest).dropWhile Char.isDigit = rest := by
  rw [List.takeWhile_append_of_pos h, List.dropWhile_append_of_pos h]
  cases rest with
  | nil => simp
  | cons c rest => simp [hrest c rfl]

theorem not_isDigit_head {c : Char} (hc : c.isDigit = false) {cs : List Char}
    (h : cs.head? = some c) : ∀ d, cs.head? = some d → d.isDigit = false := by
  intro d hd
  rw [h] at hd
  obtain rfl := Option.some.inj hd
  exact hc

theorem head_of_isExponent {tail : List Char} (h : isExponent tail = true) :
    tail.head? = some 'e' := by
  unfold isExponent at h
  split at h
  · rfl
  · rfl
  · rfl
  · cases h

theorem isLiteral_of_exponent {whole tail : List Char} (hwhole : isDigits whole = true)
    (htail : isExponent tail = true) : isLiteral (whole ++ tail) = true := by
  have hhead : ∀ c, tail.head? = some c → c.isDigit = false :=
    not_isDigit_head (by decide) (head_of_isExponent htail)
  obtain ⟨htake, hdrop⟩ := takeWhile_digits ((isDigits_iff whole).mp hwhole).2 hhead
  rw [isLiteral, htake, hdrop, hwhole]
  split
  · next rest =>
      have := head_of_isExponent htail
      cases this
  · exact htail

theorem isLiteral_of_fraction {whole fraction tail : List Char} (hwhole : isDigits whole = true)
    (hfraction : isDigits fraction = true) (htail : tail = [] ∨ isExponent tail = true) :
    isLiteral (whole ++ '.' :: (fraction ++ tail)) = true := by
  have hhead : ∀ c, tail.head? = some c → c.isDigit = false := by
    rcases htail with rfl | htail
    · intro c hc
      cases hc
    · exact not_isDigit_head (by decide) (head_of_isExponent htail)
  have hpoint : ∀ c, ('.' :: (fraction ++ tail)).head? = some c → c.isDigit = false :=
    not_isDigit_head (by decide) rfl
  obtain ⟨htake, hdrop⟩ := takeWhile_digits ((isDigits_iff whole).mp hwhole).2 hpoint
  obtain ⟨htake', hdrop'⟩ := takeWhile_digits ((isDigits_iff fraction).mp hfraction).2 hhead
  rw [isLiteral, htake, hdrop, hwhole]
  show (isDigits ((fraction ++ tail).takeWhile Char.isDigit) && _) = true
  rw [htake', hdrop', hfraction]
  rcases htail with rfl | htail
  · rfl
  · simp [htail]

end Token

end NoiseShader.Shading
