import NoiseShader.ObjectText.Record
import NoiseShader.Proofs.ObjectText.Token

set_option autoImplicit false

/-! # Values read back as they were written

`Value.Writable` describes the values that have a text of their own: every name in them is one,
numbers are spelled as numbers, and parentheses have a name in front of them. Written at any depth,
such a value lexes to tokens that are read as the value, whatever follows (`readAs_write`); so a
whole text is read as the value that it was rendered from (`read?_render`).
-/

namespace NoiseShader.ObjectText

/-- Names that stand for something else than themselves. -/
def isKeyword (name : String) : Bool :=
  name == "true" || name == "false" || name == "None" || isNumberName name || name == "Some"

/-- A name that a value can be written under. -/
def isFreeName (name : String) : Bool := isName name.toList && !isKeyword name

/-- Whether characters are read as a number. -/
def isNumberText (cs : List Char) : Bool :=
  isSpelling cs && (isInteger cs || isDecimal cs) || isNumberName (String.ofList cs)

theorem isNumberText_spellWord (n : UInt32) : isNumberText (spellWord n) = true := by
  have hspelling : isSpelling (spellWord n) = true :=
    isSpelling_of_chars Nat.toDigits_ne_nil fun c hc => Or.inr (Or.inr (isDigit_of_mem_digits c hc))
  simp [isNumberText, hspelling, isInteger_spellWord]

theorem isNumberText_spellNumber (x : Binary32) : isNumberText (spellNumber x) = true := by
  by_cases hfinite : x.isFinite = true
  · obtain ⟨whole, fraction, d, htext, hne, hdigits, -⟩ := spellNumber_of_isFinite hfinite
    have hspelling : isSpelling (spellNumber x) = true := by
      rw [htext]
      exact isSpelling_of_chars (by simp [hne]) fun c hc => mem_signed hdigits hc
    simp [isNumberText, hspelling, isDecimal, number?_spellNumber]
  · rw [(spellNumber_of_not_isFinite (Bool.eq_false_iff.2 hfinite)).1]
    cases x.negative <;> cases x.isNaN <;> decide

namespace Value

mutual

/-- A value that can be written and read. -/
def Writable : Value → Prop
  | bool _ => True
  | number spelling => isNumberText spelling = true
  | text _ => True
  | foreign => False
  | unit => False
  | none => True
  | some content => Writable content
  | list items => AllWritable items
  | map _ => False
  | bare name => isFreeName name = true
  | tuple name items => (∃ n ∈ name, isFreeName n = true) ∧ AllWritable items
  | record name fields =>
    (∃ n ∈ name, isFreeName n = true) ∧ fields ≠ [] ∧ FieldsWritable fields

def AllWritable : List Value → Prop
  | [] => True
  | v :: vs => Writable v ∧ AllWritable vs

def FieldsWritable : List (String × Value) → Prop
  | [] => True
  | (name, v) :: fields => isName name.toList = true ∧ Writable v ∧ FieldsWritable fields

end

theorem allWritable_map {α : Type} {f : α → Value} (hf : ∀ x, (f x).Writable) (xs : List α) :
    AllWritable (xs.map f) := by
  induction xs with
  | nil => trivial
  | cons x xs ih => exact ⟨hf x, ih⟩

theorem heights_le_iff {vs : List Value} {n : Nat} :
    heights vs ≤ n ↔ ∀ v ∈ vs, v.height + 1 ≤ n := by
  induction vs with
  | nil => simp [heights]
  | cons v vs ih => simp only [heights, Nat.max_le, ih, List.forall_mem_cons]

theorem fieldHeights_le_iff {fields : List (String × Value)} {n : Nat} :
    fieldHeights fields ≤ n ↔ ∀ field ∈ fields, field.2.height + 1 ≤ n := by
  induction fields with
  | nil => simp [fieldHeights]
  | cons field fields ih => simp only [fieldHeights, Nat.max_le, ih, List.forall_mem_cons]

end Value

/-! ## Tokens that are read as a value -/

/-- What may follow a value. -/
def Follows (tokens : List Lexeme) : Prop :=
  ∀ l ∈ tokens.head?, l.token = .mark ',' ∨ l.token = .mark ')'

/-- Some tokens are read as a value, whatever may follow. They are not taken for the end of a list,
for an attribute or for a field. -/
structure ReadAs (bound : Nat) (v : Value) (ts : List Lexeme) : Prop where
  front : ∃ l us, ts = l :: us ∧ ∀ c ∈ [')', ']', '#'], l.token ≠ .mark c
  notField : ∀ {more}, Follows more → beginsWithField (ts ++ more) = false
  read : ∀ {room more}, v.height ≤ room → Follows more →
    value bound {} room (ts ++ more) = some (v, more)

section Leaves

variable {bound room : Nat} {after : List Char} {more : List Lexeme}

theorem notField_single (l : Lexeme) (h : Follows more) : beginsWithField (l :: more) = false := by
  unfold beginsWithField
  split
  next heq =>
    cases heq
    simpa using h _ rfl
  next => rfl

theorem value_keyword {name : String} {v : Value}
    (h : (name, v) ∈ [("true", Value.bool true), ("false", .bool false), ("None", .none)]) :
    value bound {} room (⟨.name false name, after⟩ :: more) = some (v, more) := by
  simp only [List.mem_cons, List.not_mem_nil, or_false, Prod.mk.injEq] at h
  rcases h with ⟨rfl, rfl⟩ | ⟨rfl, rfl⟩ | ⟨rfl, rfl⟩ <;> unfold value <;> rfl

theorem value_numberName {name : String} (h : isNumberName name = true) :
    value bound {} room (⟨.name false name, after⟩ :: more) = some (.number name.toList, more) := by
  simp only [isNumberName, Bool.or_eq_true, beq_iff_eq, or_assoc] at h
  rcases h with rfl | rfl | rfl | rfl | rfl | rfl <;> unfold value <;> rfl

theorem value_bare {name : String} (h : isFreeName name = true) (hmore : Follows more) :
    value bound {} room (⟨.name false name, after⟩ :: more) = some (.bare name, more) := by
  simp only [isFreeName, isKeyword, Bool.and_eq_true, Bool.not_eq_true', Bool.or_eq_false_iff] at h
  unfold value
  simp only [h, Bool.not_false, Bool.and_false, Bool.false_eq_true, if_false]
  split
  · simpa using hmore _ rfl
  · rfl

theorem value_parenthesized {name : String} (h : isFreeName name = true) (after' : List Char) :
    value bound {} (room + 1) (⟨.name false name, after⟩ :: ⟨.mark '(', after'⟩ :: more) =
      parenthesized bound (some name) (value bound {} room) more := by
  simp only [isFreeName, isKeyword, Bool.and_eq_true, Bool.not_eq_true', Bool.or_eq_false_iff] at h
  conv_lhs => unfold value
  simp only [h, Bool.not_false, Bool.and_false, Bool.false_eq_true, if_false]

theorem value_some (after' : List Char) :
    value bound {} (room + 1) (⟨.name false "Some", after⟩ :: ⟨.mark '(', after'⟩ :: more) =
      (single bound (value bound {} room) more).map fun (v, rest) => (.some v, rest) := by
  rfl

theorem value_number {spelling : List Char}
    (h : (isInteger spelling || isDecimal spelling) = true) :
    value bound {} room (⟨.number spelling, after⟩ :: more) = some (.number spelling, more) := by
  unfold value
  rw [if_pos h]

theorem value_text (content : String) :
    value bound {} room (⟨.text content, after⟩ :: more) = some (.text content, more) := by
  cases room <;> rfl

theorem value_list :
    value bound {} (room + 1) (⟨.mark '[', after⟩ :: more) =
      (items bound (value bound {} room) ']' more).map fun (vs, rest) => (.list vs, rest) := by
  rfl

end Leaves

/-- A single token that is read as a value. -/
theorem ReadAs.single {bound : Nat} {v : Value} {l : Lexeme}
    (hfront : ∀ c, l.token ≠ .mark c)
    (hread : ∀ {room more}, Follows more → value bound {} room (l :: more) = some (v, more)) :
    ReadAs bound v [l] where
  front := ⟨l, [], rfl, fun c _ => hfront c⟩
  notField h := notField_single l h
  read _ h := hread h

/-! ## Items -/

section Items

variable {α : Type} {item : Reader α} {closing : Char} {found : List α} {fuel : Nat}
  {l : Lexeme} {ts more : List Lexeme} {x : α} {after : List Char}

theorem itemsUntil_close :
    itemsUntil item closing found (fuel + 1) (⟨.mark closing, after⟩ :: more) =
      some (found.reverse, more) := by
  simp [itemsUntil]

theorem itemsUntil_comma (hfront : l.token ≠ .mark closing)
    (hread : item (l :: ts) = some (x, ⟨.mark ',', after⟩ :: more)) :
    itemsUntil item closing found (fuel + 1) (l :: ts) =
      itemsUntil item closing (x :: found) fuel more := by
  simp [itemsUntil, hfront, hread]

theorem itemsUntil_last (hfront : l.token ≠ .mark closing) (hcomma : closing ≠ ',')
    (hread : item (l :: ts) = some (x, ⟨.mark closing, after⟩ :: more)) :
    itemsUntil item closing found (fuel + 1) (l :: ts) = some ((x :: found).reverse, more) := by
  simp [itemsUntil, hfront, hread]

end Items

/-- Some tokens are read as values up to a closing mark. There are fewer values than `size`
says. -/
def ItemsReadAs (bound size : Nat) (closing : Char) (vs : List Value) (ts : List Lexeme) : Prop :=
  ∀ ⦃room fuel : Nat⦄ ⦃found : List Value⦄ ⦃after : List Char⦄ ⦃more : List Lexeme⦄,
    (∀ v ∈ vs, v.height ≤ room) → size < fuel →
    itemsUntil (value bound {} room) closing found fuel (ts ++ ⟨.mark closing, after⟩ :: more) =
      some (found.reverse ++ vs, more)

/-- Some tokens are read as fields up to a closing parenthesis. -/
def FieldsReadAs (bound size : Nat) (fields : List (String × Value)) (ts : List Lexeme) : Prop :=
  ∀ ⦃room fuel : Nat⦄ ⦃found : List (String × Value)⦄ ⦃after : List Char⦄ ⦃more : List Lexeme⦄,
    (∀ field ∈ fields, field.2.height ≤ room) → size < fuel →
    itemsUntil (entry fieldName (value bound {} room)) ')' found fuel
      (ts ++ ⟨.mark ')', after⟩ :: more) = some (found.reverse ++ fields, more)

section Containers

variable {bound size size' : Nat} {v : Value} {vs : List Value} {name : String}
  {fields : List (String × Value)} {ts us : List Lexeme} {after after' after'' : List Char}

theorem follows_comma (after : List Char) (more : List Lexeme) :
    Follows (⟨.mark ',', after⟩ :: more) := by
  simp [Follows]

theorem follows_close (after : List Char) (more : List Lexeme) :
    Follows (⟨.mark ')', after⟩ :: more) := by
  simp [Follows]

theorem itemsReadAs_nil {closing : Char} : ItemsReadAs bound size closing [] [] := by
  intro room fuel found after more _ hfuel
  obtain ⟨fuel, rfl⟩ := Nat.exists_eq_succ_of_ne_zero (Nat.ne_zero_of_lt hfuel)
  rw [List.nil_append, itemsUntil_close, List.append_nil]

theorem itemsReadAs_cons {closing : Char} (hclosing : closing ∈ [')', ']', '#'])
    (hv : ReadAs bound v ts) (hvs : ItemsReadAs bound size closing vs us) (hsize : size < size') :
    ItemsReadAs bound size' closing (v :: vs) (ts ++ ⟨.mark ',', after⟩ :: us) := by
  intro room fuel found close more hroom hfuel
  obtain ⟨fuel, rfl⟩ := Nat.exists_eq_succ_of_ne_zero (Nat.ne_zero_of_lt hfuel)
  obtain ⟨hheight, hroom⟩ := List.forall_mem_cons.1 hroom
  have hread := hv.read hheight (follows_comma after (us ++ ⟨.mark closing, close⟩ :: more))
  obtain ⟨l, tail, rfl, hfront⟩ := hv.front
  rw [List.append_assoc, List.cons_append, List.cons_append]
  rw [List.cons_append] at hread
  rw [itemsUntil_comma (hfront closing hclosing) hread, hvs hroom (by omega)]
  simp

theorem itemsReadAs_last (hv : ReadAs bound v ts) : ItemsReadAs bound size ')' [v] ts := by
  intro room fuel found close more hroom hfuel
  obtain ⟨fuel, rfl⟩ := Nat.exists_eq_succ_of_ne_zero (Nat.ne_zero_of_lt hfuel)
  have hread := hv.read (hroom v (by simp)) (follows_close close more)
  obtain ⟨l, tail, rfl, hfront⟩ := hv.front
  rw [List.cons_append] at hread ⊢
  rw [itemsUntil_last (hfront ')' (by simp)) (by decide) hread]
  simp

theorem fieldsReadAs_nil : FieldsReadAs bound size [] [] := by
  intro room fuel found close more _ hfuel
  obtain ⟨fuel, rfl⟩ := Nat.exists_eq_succ_of_ne_zero (Nat.ne_zero_of_lt hfuel)
  rw [List.nil_append, itemsUntil_close, List.append_nil]

theorem fieldsReadAs_cons (hv : ReadAs bound v ts) (hfields : FieldsReadAs bound size fields us)
    (hsize : size < size') :
    FieldsReadAs bound size' ((name, v) :: fields)
      (⟨.name false name, after⟩ :: ⟨.mark ':', after'⟩ :: (ts ++ ⟨.mark ',', after''⟩ :: us)) := by
  intro room fuel found close more hroom hfuel
  obtain ⟨fuel, rfl⟩ := Nat.exists_eq_succ_of_ne_zero (Nat.ne_zero_of_lt hfuel)
  obtain ⟨hheight, hroom⟩ := List.forall_mem_cons.1 hroom
  have hread := hv.read hheight (follows_comma after'' (us ++ ⟨.mark ')', close⟩ :: more))
  have hentry : entry fieldName (value bound {} room) (⟨.name false name, after⟩ ::
      ⟨.mark ':', after'⟩ :: (ts ++ ⟨.mark ',', after''⟩ :: (us ++ ⟨.mark ')', close⟩ :: more))) =
      some ((name, v), ⟨.mark ',', after''⟩ :: (us ++ ⟨.mark ')', close⟩ :: more)) := by
    simp only [entry, fieldName, hread, Option.map_some]
  rw [List.cons_append, List.cons_append, List.append_assoc, List.cons_append,
    itemsUntil_comma (by simp) hentry, hfields hroom (by omega)]
  simp

/-! ## Containers -/

theorem readAs_some (hv : ReadAs bound v ts) (hbound : 0 < bound) :
    ReadAs bound (.some v)
      (⟨.name false "Some", after⟩ :: ⟨.mark '(', after'⟩ :: (ts ++ [⟨.mark ')', after''⟩])) where
  front := ⟨_, _, rfl, by simp⟩
  notField _ := rfl
  read {room more} hroom _ := by
    obtain ⟨room, rfl⟩ := Nat.exists_eq_succ_of_ne_zero (Nat.ne_zero_of_lt hroom)
    have hitems : items bound (value bound {} room) ')' (ts ++ ⟨.mark ')', after''⟩ :: more) =
        some ([v], more) :=
      itemsReadAs_last hv (by simpa using Nat.le_of_succ_le_succ hroom) hbound
    simp only [List.cons_append, List.append_assoc, List.nil_append]
    rw [value_some, single, hitems]
    rfl

theorem readAs_list (hvs : ItemsReadAs bound size ']' vs ts) (hsize : size < bound) :
    ReadAs bound (.list vs) (⟨.mark '[', after⟩ :: (ts ++ [⟨.mark ']', after'⟩])) where
  front := ⟨_, _, rfl, by simp⟩
  notField _ := rfl
  read {room more} hroom _ := by
    obtain ⟨room, rfl⟩ := Nat.exists_eq_succ_of_ne_zero (Nat.ne_zero_of_lt hroom)
    have hheights := Value.heights_le_iff.1 (Nat.le_of_succ_le_succ hroom)
    simp only [List.cons_append, List.append_assoc, List.nil_append]
    rw [value_list, items, hvs (fun v hv => Nat.le_of_succ_le (hheights v hv)) hsize]
    rfl

theorem readAs_tuple (hname : isFreeName name = true) (hvs : ItemsReadAs bound size ')' vs ts)
    (hfield : ∀ after more, beginsWithField (ts ++ ⟨.mark ')', after⟩ :: more) = false)
    (hsize : size < bound) :
    ReadAs bound (.tuple (some name) vs)
      (⟨.name false name, after⟩ :: ⟨.mark '(', after'⟩ :: (ts ++ [⟨.mark ')', after''⟩])) where
  front := ⟨_, _, rfl, by simp⟩
  notField _ := rfl
  read {room more} hroom _ := by
    obtain ⟨room, rfl⟩ := Nat.exists_eq_succ_of_ne_zero (Nat.ne_zero_of_lt hroom)
    have hheights := Value.heights_le_iff.1 (Nat.le_of_succ_le_succ hroom)
    simp only [List.cons_append, List.append_assoc, List.nil_append]
    rw [value_parenthesized hname, parenthesized, if_neg (by simp [hfield]), tupleBody, items,
      hvs (fun v hv => Nat.le_of_succ_le (hheights v hv)) hsize]
    rfl

theorem readAs_record (hname : isFreeName name = true) (hfields : FieldsReadAs bound size fields ts)
    (hfield : ∀ more, beginsWithField (ts ++ more) = true) (hsize : size < bound) :
    ReadAs bound (.record (some name) fields)
      (⟨.name false name, after⟩ :: ⟨.mark '(', after'⟩ :: (ts ++ [⟨.mark ')', after''⟩])) where
  front := ⟨_, _, rfl, by simp⟩
  notField _ := rfl
  read {room more} hroom _ := by
    obtain ⟨room, rfl⟩ := Nat.exists_eq_succ_of_ne_zero (Nat.ne_zero_of_lt hroom)
    have hheights := Value.fieldHeights_le_iff.1 (Nat.le_of_succ_le_succ hroom)
    simp only [List.cons_append, List.append_assoc, List.nil_append]
    rw [value_parenthesized hname, parenthesized, if_pos (hfield _), recordBody, items,
      hfields (fun field hf => Nat.le_of_succ_le (hheights field hf)) hsize]
    rfl

end Containers

/-! ## Writing and reading -/

theorem stops_mark {c : Char} (hc : isMark c = true) (hhash : c ≠ '#') (rest : List Char) :
    Stops (c :: rest) := by
  simpa [Stops] using ⟨hc, hhash⟩

section Pieces

variable (bound : Nat) {rest : List Char}

/-- A name alone, if it is read as a value. -/
theorem readAs_name {name : String} {v : Value} (hname : isName name.toList = true)
    (hrest : Stops rest)
    (hread : ∀ {room after more}, Follows more →
      value bound {} room (⟨.name false name, after⟩ :: more) = some (v, more)) :
    ∃ ts, Lexes bound (name.toList ++ rest) ts rest ∧ ReadAs bound v ts := by
  refine ⟨_, .name hname hrest, .single (by simp) ?_⟩
  rw [String.ofList_toList]
  exact hread

theorem isName_of_isNumberName {name : String} (h : isNumberName name = true) :
    isName name.toList = true := by
  simp only [isNumberName, Bool.or_eq_true, beq_iff_eq, or_assoc] at h
  rcases h with rfl | rfl | rfl | rfl | rfl | rfl <;> decide

theorem readAs_number {w : List Char} (hw : isNumberText w = true) (hrest : Stops rest) :
    ∃ ts, Lexes bound (w ++ rest) ts rest ∧ ReadAs bound (.number w) ts := by
  rcases Bool.or_eq_true_iff.1 hw with hspelling | hname
  · obtain ⟨hspelling, hnumber⟩ := Bool.and_eq_true_iff.1 hspelling
    exact ⟨_, .number hspelling hrest, .single (by simp) fun _ => value_number hnumber⟩
  · -- infinities and what is not a number have names, if there is no sign in front of them
    have := readAs_name bound (isName_of_isNumberName hname) hrest fun _ => value_numberName hname
    rwa [String.toList_ofList] at this

variable {bound}

/-- The tokens of a name with parentheses behind it. -/
theorem lexes_parenthesized {name : String} {inner mid : List Char} {ts : List Lexeme}
    (hname : isName name.toList = true) (hinner : Lexes bound inner ts mid)
    (hclose : Lexes bound mid [⟨.mark ')', rest⟩] rest) :
    Lexes bound (name.toList ++ '(' :: inner)
      (⟨.name false name, '(' :: inner⟩ :: ⟨.mark '(', inner⟩ :: (ts ++ [⟨.mark ')', rest⟩]))
      rest := by
  have hfront : Lexes bound (name.toList ++ '(' :: inner)
      [⟨.name false (String.ofList name.toList), '(' :: inner⟩] ('(' :: inner) :=
    .name hname (stops_mark rfl (by decide) inner)
  rw [String.ofList_toList] at hfront
  exact hfront.append ((Lexes.mark (by simp)).append (hinner.append hclose))

end Pieces

-- The induction follows the writer, one case for each kind of value. The text behind a value is
-- quantified, since a name or a number goes on until a mark stops it.
mutual

/-- A written value is read as it was. -/
theorem readAs_write (bound : Nat) : ∀ (v : Value) (depth : Nat) (rest : List Char), v.Writable →
    Stops rest → (write depth v ++ rest).length < bound →
    ∃ ts, Lexes bound (write depth v ++ rest) ts rest ∧ ReadAs bound v ts
  | .bool b, _, _, _, hrest, _ => by
    cases b with
    | true =>
      have hname : isName "true".toList = true := by decide
      exact readAs_name bound hname hrest fun _ => value_keyword (by simp)
    | false =>
      have hname : isName "false".toList = true := by decide
      exact readAs_name bound hname hrest fun _ => value_keyword (by simp)
  | .number _, _, _, hv, hrest, _ => readAs_number bound hv hrest
  | .text s, _, _, _, _, hbound => by
    refine ⟨_, .text ?_, .single (by simp) fun _ => value_text s⟩
    have hlength := length_lt_writeText s
    simp only [write, List.length_append] at hbound
    omega
  | .foreign, _, _, hv, _, _ => hv.elim
  | .unit, _, _, hv, _, _ => hv.elim
  | .none, _, _, _, hrest, _ => by
    have hname : isName "None".toList = true := by decide
    exact readAs_name bound hname hrest fun _ => value_keyword (by simp)
  | .some v, depth, rest, hv, _, hbound => by
    simp only [write, List.cons_append, List.append_assoc, List.nil_append] at hbound ⊢
    obtain ⟨ts, hlex, hread⟩ := readAs_write bound v depth (')' :: rest) hv
      (stops_mark rfl (by decide) rest) (by simp only [List.length_cons] at hbound ⊢; omega)
    have hname : isName "Some".toList = true := by decide
    exact ⟨_, lexes_parenthesized hname hlex (.mark (by simp)),
      readAs_some hread (Nat.zero_lt_of_lt hbound)⟩
  | .list vs, depth, rest, hv, _, hbound => by
    by_cases hvs : vs = []
    · subst hvs
      exact ⟨_, (Lexes.mark (by simp)).append (.mark (by simp)),
        readAs_list itemsReadAs_nil (Nat.zero_lt_of_lt hbound)⟩
    · simp only [write, List.isEmpty_iff, hvs, if_false, List.cons_append, List.append_assoc,
        List.nil_append] at hbound ⊢
      obtain ⟨ts, hlex, hread⟩ := readAs_writeItems bound vs (depth + 1)
        (newLine depth ++ ']' :: rest) hv (by simp only [List.length_cons] at hbound ⊢; omega)
      refine ⟨_, (Lexes.mark (by simp)).append (hlex.append
        ((Lexes.mark (by simp)).newLine (by simp) depth)), readAs_list hread ?_⟩
      simp only [List.length_cons, List.length_append] at hbound
      omega
  | .map _, _, _, hv, _, _ => hv.elim
  | .bare name, _, _, hv, hrest, _ =>
    readAs_name bound (Bool.and_eq_true_iff.1 hv).1 hrest fun hmore => value_bare hv hmore
  | .tuple name vs, depth, rest, ⟨⟨n, hn, hfree⟩, hvs⟩, _, hbound => by
    obtain rfl := hn
    simp only [write, Option.map_some, Option.getD_some, List.cons_append, List.append_assoc,
      List.nil_append] at hbound ⊢
    obtain ⟨ts, hlex, hread, -, hfield⟩ := readAs_writeInline bound vs depth (')' :: rest) hvs
      (stops_mark rfl (by decide) rest)
      (by simp only [List.length_cons, List.length_append] at hbound ⊢; omega)
    refine ⟨_, lexes_parenthesized (Bool.and_eq_true_iff.1 hfree).1 hlex (.mark (by simp)),
      readAs_tuple hfree hread hfield ?_⟩
    simp only [List.length_cons, List.length_append] at hbound
    omega
  | .record name fields, depth, rest, ⟨⟨n, hn, hfree⟩, hne, hfields⟩, _, hbound => by
    obtain rfl := hn
    simp only [write, Option.map_some, Option.getD_some, List.cons_append, List.append_assoc,
      List.nil_append] at hbound ⊢
    obtain ⟨ts, hlex, hread, hfield⟩ := readAs_writeFields bound fields (depth + 1)
      (newLine depth ++ ')' :: rest) hfields
      (by simp only [List.length_cons, List.length_append] at hbound ⊢; omega)
    refine ⟨_, lexes_parenthesized (Bool.and_eq_true_iff.1 hfree).1 hlex
      ((Lexes.mark (by simp)).newLine (by simp) depth), readAs_record hfree hread (hfield hne) ?_⟩
    simp only [List.length_cons, List.length_append] at hbound
    omega

theorem readAs_writeItems (bound : Nat) : ∀ (vs : List Value) (depth : Nat) (rest : List Char),
    Value.AllWritable vs → (writeItems depth vs ++ rest).length < bound →
    ∃ ts, Lexes bound (writeItems depth vs ++ rest) ts rest ∧
      ItemsReadAs bound (writeItems depth vs).length ']' vs ts
  | [], _, _, _, _ => ⟨[], .done _, itemsReadAs_nil⟩
  | v :: vs, depth, rest, ⟨hv, hvs⟩, hbound => by
    simp only [writeItems, List.cons_append, List.append_assoc] at hbound ⊢
    obtain ⟨ts, hlex, hread⟩ := readAs_write bound v depth (',' :: (writeItems depth vs ++ rest))
      hv (stops_mark rfl (by decide) _) (by simp only [List.length_append] at hbound ⊢; omega)
    obtain ⟨us, hlex', hread'⟩ := readAs_writeItems bound vs depth rest hvs
      (by simp only [List.length_append, List.length_cons] at hbound ⊢; omega)
    obtain ⟨l, tail, rfl, -⟩ := hread.front
    refine ⟨_, (hlex.newLine (by simp) depth).append ((Lexes.mark (by simp)).append hlex'),
      itemsReadAs_cons (by simp) hread hread' ?_⟩
    simp only [List.length_append, List.length_cons]
    omega

theorem readAs_writeInline (bound : Nat) : ∀ (vs : List Value) (depth : Nat) (rest : List Char),
    Value.AllWritable vs → Stops rest → (writeInline depth vs ++ rest).length < bound →
    ∃ ts, Lexes bound (writeInline depth vs ++ rest) ts rest ∧
      ItemsReadAs bound (writeInline depth vs).length ')' vs ts ∧ (vs ≠ [] → ts ≠ []) ∧
      ∀ after more, beginsWithField (ts ++ ⟨.mark ')', after⟩ :: more) = false
  | [], _, _, _, _, _ => ⟨[], .done _, itemsReadAs_nil, fun h => absurd rfl h, fun _ _ => rfl⟩
  | [v], depth, rest, ⟨hv, _⟩, hrest, hbound => by
    obtain ⟨ts, hlex, hread⟩ := readAs_write bound v depth rest hv hrest hbound
    obtain ⟨l, tail, rfl, -⟩ := hread.front
    exact ⟨_, hlex, itemsReadAs_last hread, by simp,
      fun after more => hread.notField (follows_close after more)⟩
  | v :: w :: vs, depth, rest, ⟨hv, hvs⟩, hrest, hbound => by
    simp only [writeInline, List.cons_append, List.append_assoc] at hbound ⊢
    obtain ⟨ts, hlex, hread⟩ := readAs_write bound v depth
      (',' :: ' ' :: (writeInline depth (w :: vs) ++ rest)) hv (stops_mark rfl (by decide) _) hbound
    obtain ⟨us, hlex', hread', hne, -⟩ := readAs_writeInline bound (w :: vs) depth rest hvs hrest
      (by simp only [List.length_append, List.length_cons] at hbound ⊢; omega)
    refine ⟨_, hlex.append ((Lexes.mark (by simp)).append (hlex'.blank (hne (by simp)) rfl)),
      itemsReadAs_cons (by simp) hread hread' ?_, by simp, fun after more => ?_⟩
    · simp only [List.length_append, List.length_cons]
      omega
    · rw [List.append_assoc]
      exact hread.notField (follows_comma _ _)

theorem readAs_writeFields (bound : Nat) : ∀ (fields : List (String × Value)) (depth : Nat)
    (rest : List Char), Value.FieldsWritable fields →
    (writeFields depth fields ++ rest).length < bound →
    ∃ ts, Lexes bound (writeFields depth fields ++ rest) ts rest ∧
      FieldsReadAs bound (writeFields depth fields).length fields ts ∧
      (fields ≠ [] → ∀ more, beginsWithField (ts ++ more) = true)
  | [], _, _, _, _ => ⟨[], .done _, fieldsReadAs_nil, fun h => absurd rfl h⟩
  | (name, v) :: fields, depth, rest, ⟨hname, hv, hfields⟩, hbound => by
    simp only [writeFields, List.cons_append, List.append_assoc] at hbound ⊢
    obtain ⟨ts, hlex, hread⟩ := readAs_write bound v depth
      (',' :: (writeFields depth fields ++ rest)) hv (stops_mark rfl (by decide) _)
      (by simp only [List.length_append, List.length_cons] at hbound ⊢; omega)
    obtain ⟨us, hlex', hread', -⟩ := readAs_writeFields bound fields depth rest hfields
      (by simp only [List.length_append, List.length_cons] at hbound ⊢; omega)
    obtain ⟨l, tail, rfl, -⟩ := hread.front
    -- the name ends at its colon, and the blank behind that belongs to the value
    have hblank : isSpace ' ' = true := rfl
    have hvalue := (hlex.blank (by simp) hblank).append ((Lexes.mark (by simp)).append hlex')
    refine ⟨_, ((Lexes.name hname (stops_mark rfl (by decide) _)).newLine (by simp) depth).append
      ((Lexes.mark (by simp)).append hvalue), ?_, fun _ _ => rfl⟩
    rw [String.ofList_toList]
    refine fieldsReadAs_cons hread hread' ?_
    simp only [List.length_append, List.length_cons]
    omega

end

/-- A text that does not begin with an attribute has no extensions. -/
theorem attributes_front {bound fuel : Nat} {l : Lexeme} {ts : List Lexeme}
    (h : l.token ≠ .mark '#') : attributes bound {} fuel (l :: ts) = some ({}, l :: ts) := by
  unfold attributes
  split
  next heq =>
    cases heq
    exact absurd rfl h
  next => rfl

/-- A text whose tokens are read as a value holds the value, if that is not nested too deep. -/
theorem read?_of_readAs {cs : List Char} {ts : List Lexeme} {v : Value}
    (hlex : Lexes (cs.length + 1) cs ts []) (hread : ReadAs (cs.length + 1) v ts)
    (hheight : v.height ≤ maxDepth) : read? (String.ofList cs) = some ({}, v) := by
  have hend : Follows [] := by simp [Follows]
  have hvalue := hread.read hheight hend
  rw [List.append_nil] at hvalue
  obtain ⟨l, tail, rfl, hfront⟩ := hread.front
  simp only [read?, String.toList_ofList, hlex.lexemes? (Nat.lt_succ_self _),
    attributes_front (hfront '#' (by simp)), hvalue]

/-- A value is read back from its text, if it is not nested too deep. -/
theorem read?_render {v : Value} (hv : v.Writable) (hheight : v.height ≤ maxDepth) :
    read? (render v) = some ({}, v) := by
  obtain ⟨ts, hlex, hread⟩ := readAs_write ((write 0 v).length + 1) v 0 [] hv (by simp [Stops])
    (by simp)
  rw [List.append_nil] at hlex
  exact read?_of_readAs hlex hread hheight

/-- A record without fields cannot be told from a tuple without items. -/
theorem read?_render_noFields {name : String} (hname : isFreeName name = true) :
    read? (render (.record (some name) [])) = some ({}, .tuple (some name) []) := by
  let bound := (write 0 (.record (some name) [])).length + 1
  have hclose : Lexes bound (newLine 0 ++ [')']) [⟨.mark ')', []⟩] [] :=
    (Lexes.mark (by simp)).newLine (by simp) 0
  have hempty : ItemsReadAs bound 0 ')' [] [] := itemsReadAs_nil
  exact read?_of_readAs
    (lexes_parenthesized (Bool.and_eq_true_iff.1 hname).1 (.done _) hclose)
    (readAs_tuple hname hempty (fun _ _ => rfl) (Nat.succ_pos _)) (Nat.le_of_ble_eq_true rfl)

/-! ## Records and lists -/

namespace Fields

/-- Fields that are known and have different names are all taken in. -/
theorem foldlM_insert? {known : List String} (room : Nat) {fields found : List (String × Value)}
    (hknown : ∀ field ∈ fields, field.1 ∈ known)
    (hnodup : ((fields.reverse ++ found).map Prod.fst).Nodup) :
    fields.foldlM (insert? known room) ⟨found⟩ = some ⟨fields.reverse ++ found⟩ := by
  induction fields generalizing found with
  | nil => rfl
  | cons field fields ih =>
    obtain ⟨hfield, hknown⟩ := List.forall_mem_cons.1 hknown
    rw [List.reverse_cons, List.append_assoc, List.singleton_append] at hnodup ⊢
    have hnew : field.1 ∉ found.map Prod.fst := by
      rw [List.map_append, List.map_cons, List.nodup_append] at hnodup
      exact (List.nodup_cons.1 hnodup.2.1).1
    have hinsert : insert? known room ⟨found⟩ field = some ⟨field :: found⟩ := by
      simpa [insert?, hfield] using hnew
    rw [List.foldlM_cons, hinsert]
    exact ih hknown hnodup

end Fields

/-- A record whose fields are known and have different names is taken in whole. -/
theorem asFields_record (expected : String) {known : List String} (depth : Nat)
    {fields : List (String × Value)} (hknown : ∀ field ∈ fields, field.1 ∈ known)
    (hnodup : (fields.map Prod.fst).Nodup) :
    asFields expected known depth {} (.record (some expected) fields) = some ⟨fields.reverse⟩ := by
  have hreverse : ((fields.reverse ++ []).map Prod.fst).Nodup := by
    rwa [List.append_nil, List.map_reverse, List.nodup_reverse]
  have hfold := Fields.foldlM_insert? (maxDepth - depth - 2) hknown hreverse
  rw [List.append_nil] at hfold
  simpa [asFields, acceptsName, Fields.ofList?] using hfold

theorem asList_map {α β : Type} {f : α → Value} {item : Decode β} {h : α → β}
    (hitem : ∀ x, item {} (f x) = some (h x)) (xs : List α) :
    asList item {} (.list (xs.map f)) = some (xs.map h) := by
  rw [asList]
  induction xs with
  | nil => rfl
  | cons x xs ih => simp [hitem, ih]

end NoiseShader.ObjectText
