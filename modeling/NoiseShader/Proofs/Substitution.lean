import NoiseShader.Proofs.Confinement

set_option autoImplicit false

/-! # Filling in the placeholders of a formula

There is one way to cut a formula into placeholders and texts without placeholders
(`Formula.Cut.eq_of_isOf`). Filling it in puts an operand in the place of each placeholder and keeps
the texts, whatever stands in the operands (`Formula.expand_is_substitution`). It goes through two
formulas one after the other as through one, unless a placeholder would come together where they meet
(`Formula.pieces_append`).
-/

namespace NoiseShader.Formula

/-! ## Cuts -/

/-- What a placeholder stands for. -/
inductive Operand
  | first
  | second
deriving DecidableEq, Repr

namespace Operand

/-- The placeholder as it is written. -/
def mark : Operand → List Char
  | first => ['$', '1']
  | second => ['$', '2']

def piece : Operand → Piece
  | first => .first
  | second => .second

/-- One text for each operand. -/
def pick {α : Type} (a b : α) : Operand → α
  | first => a
  | second => b

theorem pieces_mark_append (p : Operand) (cs : List Char) :
    pieces (p.mark ++ cs) = p.piece :: pieces cs := by
  cases p <;> rfl

end Operand

/-- A text and, behind it, placeholders with a text behind each. -/
structure Cut where
  start : List Char
  rest : List (Operand × List Char)
deriving DecidableEq, Repr

/-- No placeholder is written in the text. -/
def Unmarked (cs : List Char) : Prop := ∀ p : Operand, ¬ p.mark <:+: cs

namespace Cut

/-- The texts of a cut, with something in the place of each placeholder. -/
def fill (texts : Operand → List Char) (cut : Cut) : List Char :=
  cut.start ++ cut.rest.flatMap fun part => texts part.1 ++ part.2

/-- The cut divides the formula at its placeholders. -/
structure IsOf (cut : Cut) (cs : List Char) : Prop where
  fill_mark : cut.fill Operand.mark = cs
  start : Unmarked cut.start
  rest : ∀ part ∈ cut.rest, Unmarked part.2

theorem fill_nil (texts : Operand → List Char) (start : List Char) :
    fill texts ⟨start, []⟩ = start :=
  List.append_nil start

theorem fill_cons (texts : Operand → List Char) (start : List Char) (p : Operand) (next : List Char)
    (rest : List (Operand × List Char)) :
    fill texts ⟨start, (p, next) :: rest⟩ = start ++ (texts p ++ fill texts ⟨next, rest⟩) := by
  simp [fill]

/-- The cut with one more character in front. -/
def push (c : Char) (cut : Cut) : Cut := ⟨c :: cut.start, cut.rest⟩

/-- The cut with a placeholder in front. -/
def lead (p : Operand) (cut : Cut) : Cut := ⟨[], (p, cut.start) :: cut.rest⟩

/-- The cut that has these pieces. -/
def ofPieces : List Piece → Cut
  | [] => ⟨[], []⟩
  | .char c :: ps => (ofPieces ps).push c
  | .first :: ps => (ofPieces ps).lead .first
  | .second :: ps => (ofPieces ps).lead .second

theorem ofPieces_piece (p : Operand) (ps : List Piece) :
    ofPieces (p.piece :: ps) = (ofPieces ps).lead p := by
  cases p <;> rfl

theorem fill_push (texts : Operand → List Char) (c : Char) (cut : Cut) :
    (cut.push c).fill texts = c :: cut.fill texts :=
  rfl

theorem fill_lead (texts : Operand → List Char) (p : Operand) (cut : Cut) :
    (cut.lead p).fill texts = texts p ++ cut.fill texts :=
  fill_cons texts [] p cut.start cut.rest

/-- Pieces are filled in one by one. -/
theorem fill_ofPieces (a b : List Char) (ps : List Piece) :
    (ofPieces ps).fill (Operand.pick a b) = ps.flatMap (Piece.fill a b) := by
  induction ps with
  | nil => rfl
  | cons p ps ih =>
      rw [List.flatMap_cons, ← ih]
      cases p with
      | char c => exact fill_push _ c _
      | first => exact fill_lead _ .first _
      | second => exact fill_lead _ .second _

end Cut

/-! ## Two formulas in a row -/

/-- Where two texts meet, no placeholder comes together: unless the first ends with a dollar sign and
the second begins with one of the two digits. -/
theorem pieces_append {cs ds : List Char}
    (h : ¬ (cs.getLast? = some '$' ∧ (ds.head? = some '1' ∨ ds.head? = some '2'))) :
    pieces (cs ++ ds) = pieces cs ++ pieces ds := by
  fun_induction pieces cs with
  | case1 => rfl
  | case2 rest ih =>
      have hrest := ih fun hmeet => h ⟨by simp [List.getLast?_cons, hmeet.1], hmeet.2⟩
      rw [List.cons_append, List.cons_append, pieces, hrest, List.cons_append]
  | case3 rest ih =>
      have hrest := ih fun hmeet => h ⟨by simp [List.getLast?_cons, hmeet.1], hmeet.2⟩
      rw [List.cons_append, List.cons_append, pieces, hrest, List.cons_append]
  | case4 c rest hfirst hsecond ih =>
      have hrest := ih fun hmeet => h ⟨by simp [List.getLast?_cons, hmeet.1], hmeet.2⟩
      have hother : ∀ digit, (∀ more, c = '$' → rest = digit :: more → False) →
          (digit = '1' ∨ digit = '2') → ∀ more, c = '$' → rest ++ ds = digit :: more → False := by
        rintro digit hdigit hcase more rfl heq
        cases rest with
        | nil =>
            -- the dollar sign is the last character, and the digit begins the second text
            rw [List.nil_append] at heq
            refine h ⟨rfl, ?_⟩
            rw [heq]
            exact hcase.imp (congrArg some) (congrArg some)
        | cons d rest => exact hdigit rest rfl (by rw [(List.cons.inj heq).1])
      rw [List.cons_append, pieces.eq_4 c (rest ++ ds) (hother '1' hfirst (.inl rfl))
        (hother '2' hsecond (.inr rfl)), hrest, List.cons_append]

/-! ## There is one cut -/

theorem unmarked_nil : Unmarked [] := by
  intro p
  cases p <;> decide

theorem Unmarked.tail {c : Char} {cs : List Char} (h : Unmarked (c :: cs)) : Unmarked cs :=
  fun p hp => h p (hp.trans (List.suffix_cons c cs).isInfix)

/-- A text without placeholders has no pieces but its characters. -/
theorem pieces_of_unmarked {cs : List Char} (h : Unmarked cs) : pieces cs = cs.map .char := by
  fun_induction pieces cs with
  | case1 => rfl
  | case2 rest _ => exact absurd (List.prefix_append ['$', '1'] rest).isInfix (h .first)
  | case3 rest _ => exact absurd (List.prefix_append ['$', '2'] rest).isInfix (h .second)
  | case4 c rest _ _ ih => rw [ih h.tail, List.map_cons]

namespace Cut

theorem ofPieces_map_char (cs : List Char) (ps : List Piece) :
    ofPieces (cs.map .char ++ ps) = ⟨cs ++ (ofPieces ps).start, (ofPieces ps).rest⟩ := by
  induction cs with
  | nil => rfl
  | cons c cs ih =>
      rw [List.map_cons, List.cons_append, ofPieces, ih]
      rfl

/-- A cut is found again in the pieces of the formula that it divides. -/
theorem ofPieces_pieces_fill {rest : List (Operand × List Char)} :
    ∀ {start : List Char}, Unmarked start → (∀ part ∈ rest, Unmarked part.2) →
      ofPieces (pieces (fill Operand.mark ⟨start, rest⟩)) = ⟨start, rest⟩ := by
  induction rest with
  | nil =>
      intro start hstart _
      have hpieces := ofPieces_map_char start []
      rw [List.append_nil] at hpieces
      rw [fill_nil, pieces_of_unmarked hstart, hpieces]
      simp [ofPieces]
  | cons part rest ih =>
      obtain ⟨p, next⟩ := part
      intro start hstart hrest
      obtain ⟨hnext, hrest⟩ := List.forall_mem_cons.mp hrest
      -- the text before a placeholder is followed by a dollar sign
      have hmeet : ¬ (start.getLast? = some '$' ∧
          ((p.mark ++ fill Operand.mark ⟨next, rest⟩).head? = some '1' ∨
            (p.mark ++ fill Operand.mark ⟨next, rest⟩).head? = some '2')) := by
        have hdollar : (p.mark ++ fill Operand.mark ⟨next, rest⟩).head? = some '$' := by
          cases p <;> rfl
        rw [hdollar]
        rintro ⟨_, hdigit⟩
        exact absurd hdigit (by decide)
      rw [fill_cons, pieces_append hmeet, pieces_of_unmarked hstart, ofPieces_map_char,
        Operand.pieces_mark_append, ofPieces_piece, ih hnext hrest, lead, List.append_nil]

theorem eq_of_isOf {cut : Cut} {cs : List Char} (h : cut.IsOf cs) : cut = ofPieces (pieces cs) := by
  obtain ⟨start, rest⟩ := cut
  rw [← h.fill_mark, ofPieces_pieces_fill h.start h.rest]

theorem fill_mark_ofPieces (cs : List Char) : (ofPieces (pieces cs)).fill Operand.mark = cs := by
  fun_induction pieces cs with
  | case1 => rfl
  | case2 rest ih => rw [ofPieces, fill_lead, ih]; rfl
  | case3 rest ih => rw [ofPieces, fill_lead, ih]; rfl
  | case4 c rest _ _ ih => rw [ofPieces, fill_push, ih]

/-- The pieces of a formula divide it at its placeholders. -/
theorem isOf_ofPieces (cs : List Char) : (ofPieces (pieces cs)).IsOf cs := by
  have hfill := fill_mark_ofPieces cs
  fun_induction pieces cs with
  | case1 => exact ⟨hfill, unmarked_nil, fun _ hpart => by cases hpart⟩
  | case2 rest ih =>
      obtain ⟨_, hstart, hrest⟩ := ih (fill_mark_ofPieces rest)
      exact ⟨hfill, unmarked_nil, List.forall_mem_cons.mpr ⟨hstart, hrest⟩⟩
  | case3 rest ih =>
      obtain ⟨_, hstart, hrest⟩ := ih (fill_mark_ofPieces rest)
      exact ⟨hfill, unmarked_nil, List.forall_mem_cons.mpr ⟨hstart, hrest⟩⟩
  | case4 c rest hfirst hsecond ih =>
      obtain ⟨hmark, hstart, hrest⟩ := ih (fill_mark_ofPieces rest)
      refine ⟨hfill, ?_, hrest⟩
      intro p hp
      rcases List.infix_cons_iff.mp hp with ⟨more, heq⟩ | hinner
      · -- the character and the digit behind it would be cut out as a placeholder
        have hfound : p.mark ++ (more ++ (ofPieces (pieces rest)).rest.flatMap
            fun part => part.1.mark ++ part.2) = c :: rest := by
          rw [← List.append_assoc, heq, List.cons_append]
          exact congrArg (c :: ·) hmark
        cases p with
        | first =>
            obtain ⟨hc, hrest⟩ := List.cons.inj hfound
            exact hfirst _ hc.symm hrest.symm
        | second =>
            obtain ⟨hc, hrest⟩ := List.cons.inj hfound
            exact hsecond _ hc.symm hrest.symm
      · exact hstart p hinner

end Cut

/-! ## The main result -/

theorem toList_expand_text (formula first second : String) :
    (expand formula first second).text.toList =
      (Cut.ofPieces (pieces formula.toList)).fill (Operand.pick first.toList second.toList) := by
  rw [expand, String.toList_ofList, Cut.fill_ofPieces]

/-- The formula falls into placeholders and texts without placeholders in one way. To fill it in puts
the operands in the place of the placeholders and keeps the texts, and it says which placeholders are
written in the formula. To put the placeholders in for themselves changes nothing, and
two formulas in a row are filled in one by one unless a placeholder comes together between them. -/
theorem expand_is_substitution (formula first second : String) :
    (∃ cut : Cut, cut.IsOf formula.toList ∧
      (∀ other : Cut, other.IsOf formula.toList → other = cut) ∧
      (expand formula first second).text.toList =
        cut.fill (Operand.pick first.toList second.toList)) ∧
    ((expand formula first second).usesFirst = true ↔ "$1".toList <:+: formula.toList) ∧
    ((expand formula first second).usesSecond = true ↔ "$2".toList <:+: formula.toList) ∧
    (expand formula "$1" "$2").text = formula ∧
    (∀ more : String, ¬ (formula.toList.getLast? = some '$' ∧
        (more.toList.head? = some '1' ∨ more.toList.head? = some '2')) →
      expand (formula ++ more) first second =
        ⟨(expand formula first second).text ++ (expand more first second).text,
          (expand formula first second).usesFirst || (expand more first second).usesFirst,
          (expand formula first second).usesSecond || (expand more first second).usesSecond⟩) := by
  obtain ⟨hfirst, hsecond⟩ := mem_pieces_iff formula.toList
  refine ⟨⟨_, Cut.isOf_ofPieces _, fun other hother => Cut.eq_of_isOf hother,
    toList_expand_text formula first second⟩, ?_, ?_, ?_, ?_⟩
  · exact List.contains_iff_mem.trans hfirst
  · exact List.contains_iff_mem.trans hsecond
  · have hmark : Operand.pick "$1".toList "$2".toList = Operand.mark := by
      funext p
      cases p <;> rfl
    rw [← String.toList_inj, toList_expand_text, hmark, Cut.fill_mark_ofPieces]
  · intro more hmeet
    simp only [expand, String.toList_append, pieces_append hmeet, List.flatMap_append,
      String.ofList_append, List.contains_append]

-- the exception is one: here the placeholder comes together
example : (expand ("$" ++ "1") "a" "b").text = "a" := by decide

/-- Only the dollar signs with a `1` or a `2` behind them are looked at, and not those of the operand. -/
theorem expand_is_substitution_dollars :
    ¬ ("$$1$".toList.getLast? = some '$' ∧
      ("3$2".toList.head? = some '1' ∨ "3$2".toList.head? = some '2')) ∧
    expand ("$$1$" ++ "3$2") "$2" "b" = ⟨"$$2$3b", true, true⟩ ∧
    "$1".toList <:+: "$$1$".toList := by
  have hmeet : ¬ ("$$1$".toList.getLast? = some '$' ∧
      ("3$2".toList.head? = some '1' ∨ "3$2".toList.head? = some '2')) := by decide
  obtain ⟨_, hfirst, _, _, happend⟩ := expand_is_substitution "$$1$" "$2" "b"
  exact ⟨hmeet, (happend "3$2" hmeet).trans (by decide), hfirst.mp (by decide)⟩

end NoiseShader.Formula
