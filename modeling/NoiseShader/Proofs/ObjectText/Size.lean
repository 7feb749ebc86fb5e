import NoiseShader.Proofs.ObjectText.Reading

set_option autoImplicit false

/-! # Nothing that is read is larger than its text

Escapes are never shorter than what they stand for, so a text token has no more bytes than the text
that it was read from (`token?_sized`). Every item of a list takes a token, and every token a character.
So a value has no text with more bytes, and no list with more items, than its text has bytes
(`read?_sized`).
-/

namespace NoiseShader.ObjectText

/-! ## Bytes -/

/-- The number of bytes in the UTF-8 form of some characters. -/
def byteCount (cs : List Char) : Nat := (cs.map Char.utf8Size).sum

@[simp]
theorem byteCount_nil : byteCount [] = 0 := rfl

@[simp]
theorem byteCount_cons (c : Char) (cs : List Char) :
    byteCount (c :: cs) = c.utf8Size + byteCount cs := by
  simp [byteCount]

theorem byteCount_append (cs ds : List Char) :
    byteCount (cs ++ ds) = byteCount cs + byteCount ds := by
  simp [byteCount]

theorem size_ofList (cs : List Char) : (String.ofList cs).toUTF8.size = byteCount cs := by
  rw [String.toUTF8_eq_toByteArray, String.size_toByteArray]
  induction cs with
  | nil => rfl
  | cons c cs ih =>
      rw [String.ofList_cons, String.utf8ByteSize_append, String.utf8ByteSize_singleton, ih,
        byteCount_cons]

theorem length_le_byteCount (cs : List Char) : cs.length ≤ byteCount cs := by
  induction cs with
  | nil => exact Nat.le_refl 0
  | cons c cs ih =>
      have hpos := c.utf8Size_pos
      rw [List.length_cons, byteCount_cons]
      omega

theorem byteCount_le {cs ds : List Char} (h : cs.Sublist ds) : byteCount cs ≤ byteCount ds := by
  induction h with
  | slnil => exact Nat.le_refl 0
  | cons c _ ih =>
      rw [byteCount_cons]
      omega
  | cons_cons c _ ih =>
      rw [byteCount_cons, byteCount_cons]
      omega

theorem byteCount_dropWhile_le (p : Char → Bool) (cs : List Char) :
    byteCount (cs.dropWhile p) ≤ byteCount cs :=
  byteCount_le (List.dropWhile_sublist p)

/-! ## Escapes -/

theorem hexByte?_sized {cs rest : List Char} {b : UInt8} (h : hexByte? cs = some (b, rest)) :
    byteCount rest + 2 ≤ byteCount cs := by
  unfold hexByte? at h
  split at h
  · next x y cs =>
      split at h
      · obtain ⟨_, rfl⟩ := Prod.mk.inj (Option.some.inj h)
        have hx := x.utf8Size_pos
        have hy := y.utf8Size_pos
        rw [byteCount_cons, byteCount_cons]
        omega
      · cases h
  · cases h

theorem byteChar?_sized {bytes : List UInt8} {more : Nat} {cs rest : List Char} {c : Char}
    (h : byteChar? bytes more cs = some (c, rest)) : byteCount rest ≤ byteCount cs := by
  induction more generalizing bytes cs with
  | zero =>
      unfold byteChar? at h
      split at h
      · obtain ⟨_, rfl⟩ := Prod.mk.inj (Option.some.inj h)
        exact Nat.le_refl _
      · cases h
  | succ more ih =>
      unfold byteChar? at h
      split at h
      · obtain ⟨_, rfl⟩ := Prod.mk.inj (Option.some.inj h)
        exact Nat.le_refl _
      · split at h
        · next hmore =>
            obtain rfl := Nat.succ.inj hmore
            split at h
            · next hbyte =>
                have hhex := hexByte?_sized hbyte
                have hrest := ih h
                rw [byteCount_cons, byteCount_cons]
                omega
            · cases h
        · cases h

theorem numberedChar?_sized {cs rest : List Char} {c : Char} (h : numberedChar? cs = some (c, rest)) :
    byteCount rest + 3 ≤ byteCount cs := by
  unfold numberedChar? at h
  split at h
  · next cs =>
      simp only at h
      split at h
      · next d rest hvalue hdrop =>
          split at h
          · cases h
          · next hdigits =>
              split at h
              · obtain ⟨_, rfl⟩ := Prod.mk.inj (Option.some.inj h)
                -- at least one digit stands between the braces
                have hsplit := congrArg byteCount (cs.takeWhile_append_dropWhile (p := (· != '\x7d')))
                rw [hdrop, byteCount_append, byteCount_cons] at hsplit
                have hdigit : 0 < (cs.takeWhile (· != '\x7d')).length := by
                  simp only [Bool.or_eq_true, not_or, List.isEmpty_iff] at hdigits
                  exact List.length_pos_of_ne_nil hdigits.1
                have hcount := length_le_byteCount (cs.takeWhile (· != '\x7d'))
                have hd := d.utf8Size_pos
                have hbrace := Char.utf8Size_pos '\x7b'
                rw [byteCount_cons]
                omega
              · cases h
      · cases h
  · cases h

theorem plainEscape?_sized {c d : Char} (h : plainEscape? c = some d) : d.utf8Size = 1 := by
  unfold plainEscape? at h
  split at h
  all_goals cases h
  all_goals rfl

/-- The most bytes that an escape can stand for. -/
def Escaped.worth : Escaped → Nat
  | char c => c.utf8Size
  | byte _ => 4

/-- An escape and its backslash have as many bytes as what they stand for. -/
theorem escaped?_sized {cs rest : List Char} {e : Escaped} (h : escaped? cs = some (e, rest)) :
    e.worth + byteCount rest ≤ byteCount cs + 1 := by
  unfold escaped? at h
  split at h
  · next cs =>
      obtain ⟨⟨b, r⟩, hbyte, heq⟩ := Option.map_eq_some_iff.mp h
      obtain ⟨rfl, rfl⟩ := Prod.mk.inj heq
      have hhex := hexByte?_sized hbyte
      have hx := Char.utf8Size_pos 'x'
      rw [byteCount_cons, Escaped.worth]
      omega
  · next cs =>
      obtain ⟨⟨c, r⟩, hchar, heq⟩ := Option.map_eq_some_iff.mp h
      obtain ⟨rfl, rfl⟩ := Prod.mk.inj heq
      have hnumber := numberedChar?_sized hchar
      have hu := Char.utf8Size_pos 'u'
      have hc := c.utf8Size_le_four
      rw [byteCount_cons, Escaped.worth]
      omega
  · next c cs _ _ =>
      obtain ⟨d, hplain, heq⟩ := Option.map_eq_some_iff.mp h
      obtain ⟨rfl, rfl⟩ := Prod.mk.inj heq
      have hd := plainEscape?_sized hplain
      rw [byteCount_cons, Escaped.worth]
      omega
  · cases h

theorem textEscape?_sized {cs rest : List Char} {c : Char} (h : textEscape? cs = some (c, rest)) :
    c.utf8Size + byteCount rest ≤ byteCount cs + 1 := by
  unfold textEscape? at h
  split at h
  · cases h
  · next hescaped =>
      obtain ⟨rfl, rfl⟩ := Prod.mk.inj (Option.some.inj h)
      exact escaped?_sized hescaped
  · next hescaped =>
      have hbyte := escaped?_sized hescaped
      have hrest := byteChar?_sized h
      have hc := c.utf8Size_le_four
      rw [Escaped.worth] at hbyte
      omega

/-! ## Literals -/

theorem textBody_sized {fuel : Nat} {cs content rest : List Char}
    (h : textBody fuel cs = some (content, rest)) :
    byteCount content + byteCount rest ≤ byteCount cs := by
  induction fuel generalizing cs content with
  | zero => cases h
  | succ fuel ih =>
      cases cs with
      | nil => cases h
      | cons c cs =>
          rw [textBody] at h
          have hc := c.utf8Size_pos
          split at h
          · obtain ⟨rfl, rfl⟩ := Prod.mk.inj (Option.some.inj h)
            rw [byteCount_nil, byteCount_cons]
            omega
          · split at h
            · split at h
              · cases h
              · next d after hescape =>
                  obtain ⟨⟨tail, r⟩, htail, heq⟩ := Option.map_eq_some_iff.mp h
                  obtain ⟨rfl, rfl⟩ := Prod.mk.inj heq
                  have hrest := ih htail
                  have hd := textEscape?_sized hescape
                  rw [byteCount_cons, byteCount_cons]
                  omega
            · obtain ⟨⟨tail, r⟩, htail, heq⟩ := Option.map_eq_some_iff.mp h
              obtain ⟨rfl, rfl⟩ := Prod.mk.inj heq
              have hrest := ih htail
              rw [byteCount_cons, byteCount_cons]
              omega

theorem bytesBody_sized {fuel : Nat} {cs rest : List Char} (h : bytesBody fuel cs = some rest) :
    byteCount rest ≤ byteCount cs := by
  induction fuel generalizing cs with
  | zero => cases h
  | succ fuel ih =>
      cases cs with
      | nil => cases h
      | cons c cs =>
          rw [bytesBody] at h
          have hc := c.utf8Size_pos
          rw [byteCount_cons]
          split at h
          · obtain rfl := Option.some.inj h
            omega
          · split at h
            · split at h
              · cases h
              · next e after hescape =>
                  have hrest := ih h
                  have hafter := escaped?_sized hescape
                  omega
            · have hrest := ih h
              omega

theorem rawBody_sized {closing cs content rest : List Char}
    (h : rawBody closing cs = some (content, rest)) :
    byteCount content + byteCount rest ≤ byteCount cs := by
  induction cs generalizing content with
  | nil => cases h
  | cons c cs ih =>
      rw [rawBody] at h
      split at h
      · obtain ⟨rfl, rfl⟩ := Prod.mk.inj (Option.some.inj h)
        have hdrop := byteCount_le (List.drop_sublist closing.length (c :: cs))
        rw [byteCount_nil]
        omega
      · obtain ⟨⟨tail, r⟩, htail, heq⟩ := Option.map_eq_some_iff.mp h
        obtain ⟨rfl, rfl⟩ := Prod.mk.inj heq
        have hrest := ih htail
        rw [byteCount_cons, byteCount_cons]
        omega

theorem rawText?_sized {cs content rest : List Char} (h : rawText? cs = some (content, rest)) :
    byteCount content + byteCount rest ≤ byteCount cs := by
  unfold rawText? at h
  simp only at h
  split at h
  · next after hafter =>
      have hdrop := byteCount_dropWhile_le (· == '#') cs
      rw [hafter, byteCount_cons] at hdrop
      have hraw := rawBody_sized h
      omega
  · cases h

/-- Behind an escape, an apostrophe ends a literal. -/
theorem skipEscaped_sized {cs rest : List Char} {e : Escaped} (backslash : Char)
    (h : escaped? cs = some (e, '\x27' :: rest)) :
    byteCount rest ≤ byteCount (backslash :: cs) := by
  have hafter := escaped?_sized h
  have hquote := Char.utf8Size_pos '\x27'
  rw [byteCount_cons] at hafter ⊢
  omega

theorem skipChar?_sized {cs rest : List Char} (h : skipChar? cs = some rest) :
    byteCount rest ≤ byteCount cs := by
  unfold skipChar? at h
  split at h
  · next cs =>
      split at h
      · next hescape =>
          obtain rfl := Option.some.inj h
          exact skipEscaped_sized _ hescape
      · next hescape =>
          split at h
          · obtain rfl := Option.some.inj h
            exact skipEscaped_sized _ hescape
          · cases h
      · cases h
  · obtain rfl := Option.some.inj h
    rw [byteCount_cons, byteCount_cons]
    omega
  · cases h

theorem skipByte?_sized {cs rest : List Char} (h : skipByte? cs = some rest) :
    byteCount rest ≤ byteCount cs := by
  unfold skipByte? at h
  split at h
  · cases h
  · next cs _ =>
      split at h
      · next hescape =>
          obtain rfl := Option.some.inj h
          exact skipEscaped_sized _ hescape
      · cases h
  · split at h
    · obtain rfl := Option.some.inj h
      rw [byteCount_cons, byteCount_cons]
      omega
    · cases h
  · cases h

/-! ## Tokens -/

/-- A text has at most so many bytes. -/
def Token.Sized (limit : Nat) : Token → Prop
  | text content => content.toUTF8.size ≤ limit
  | _ => True

theorem Token.sized_text {content rest : List Char} {limit : Nat}
    (h : byteCount content + byteCount rest ≤ limit) :
    (Token.text (String.ofList content)).Sized limit ∧ byteCount rest ≤ limit := by
  rw [Sized, size_ofList]
  omega

theorem rawName?_sized {cs rest : List Char} {t : Token} {limit : Nat}
    (h : rawName? cs = some (t, rest)) : t.Sized limit ∧ byteCount rest ≤ byteCount cs := by
  unfold rawName? at h
  simp only at h
  split at h
  · cases h
  · obtain ⟨rfl, rfl⟩ := Prod.mk.inj (Option.some.inj h)
    exact ⟨trivial, byteCount_dropWhile_le _ cs⟩

/-- A token and the text behind it have no more bytes than the text that the token was read from. -/
theorem token?_sized {bound : Nat} {cs rest : List Char} {t : Token}
    (h : token? bound cs = some (t, rest)) :
    t.Sized (byteCount cs) ∧ byteCount rest ≤ byteCount cs := by
  unfold token? at h
  split at h
  · cases h
  · -- a string of bytes
    obtain ⟨_, hbody, heq⟩ := Option.map_eq_some_iff.mp h
    obtain ⟨rfl, rfl⟩ := Prod.mk.inj heq
    have hrest := bytesBody_sized hbody
    rw [byteCount_cons, byteCount_cons]
    exact ⟨trivial, by omega⟩
  · -- a byte
    obtain ⟨_, hbyte, heq⟩ := Option.map_eq_some_iff.mp h
    obtain ⟨rfl, rfl⟩ := Prod.mk.inj heq
    have hrest := skipByte?_sized hbyte
    rw [byteCount_cons, byteCount_cons]
    exact ⟨trivial, by omega⟩
  iterate 2
    · -- a raw string of bytes
      obtain ⟨_, hraw, heq⟩ := Option.map_eq_some_iff.mp h
      obtain ⟨rfl, rfl⟩ := Prod.mk.inj heq
      have hrest := rawText?_sized hraw
      rw [byteCount_cons, byteCount_cons]
      exact ⟨trivial, by omega⟩
  iterate 3
    · -- a raw text
      obtain ⟨_, hraw, heq⟩ := Option.map_eq_some_iff.mp h
      obtain ⟨rfl, rfl⟩ := Prod.mk.inj heq
      have hrest := rawText?_sized hraw
      refine Token.sized_text ?_
      rw [byteCount_cons]
      omega
  · -- a raw name
    obtain ⟨hsized, hrest⟩ := rawName?_sized h
    rw [byteCount_cons, byteCount_cons]
    exact ⟨hsized, by omega⟩
  · -- a text
    obtain ⟨_, hbody, heq⟩ := Option.map_eq_some_iff.mp h
    obtain ⟨rfl, rfl⟩ := Prod.mk.inj heq
    have hrest := textBody_sized hbody
    refine Token.sized_text ?_
    rw [byteCount_cons]
    omega
  · -- a character
    obtain ⟨_, hchar, heq⟩ := Option.map_eq_some_iff.mp h
    obtain ⟨rfl, rfl⟩ := Prod.mk.inj heq
    have hrest := skipChar?_sized hchar
    rw [byteCount_cons]
    exact ⟨trivial, by omega⟩
  · next c cs _ _ _ _ _ _ _ _ _ _ =>
      have hraw := byteCount_dropWhile_le isRawChar cs
      have hword := byteCount_dropWhile_le Text.isWordChar cs
      rw [byteCount_cons]
      split at h
      · obtain ⟨rfl, rfl⟩ := Prod.mk.inj (Option.some.inj h)
        exact ⟨trivial, by omega⟩
      · split at h
        · obtain ⟨rfl, rfl⟩ := Prod.mk.inj (Option.some.inj h)
          exact ⟨trivial, by omega⟩
        · split at h
          · obtain ⟨rfl, rfl⟩ := Prod.mk.inj (Option.some.inj h)
            exact ⟨trivial, by omega⟩
          · cases h

theorem skipBlanks_sized {blank : Blank} {cs rest : List Char}
    (h : skipBlanks blank cs = some rest) : byteCount rest ≤ byteCount cs := by
  have hone : ∀ (c : Char) (ds : List Char), byteCount ds ≤ byteCount (c :: ds) := by
    intro c ds
    rw [byteCount_cons]
    omega
  have htwo : ∀ (c d : Char) (ds : List Char), byteCount ds ≤ byteCount (c :: d :: ds) :=
    fun c d ds => Nat.le_trans (hone d ds) (hone c (d :: ds))
  fun_induction skipBlanks blank cs with
  | case1 cs ih | case2 cs ih | case10 cs ih => exact Nat.le_trans (ih h) (htwo _ _ cs)
  | case8 depth cs ih | case9 depth cs ih => exact Nat.le_trans (ih h) (htwo _ _ cs)
  | case4 c cs _ _ _ _ ih => exact Nat.le_trans (ih h) (hone c cs)
  | case6 cs ih => exact Nat.le_trans (ih h) (hone _ cs)
  | case7 c cs _ ih => exact Nat.le_trans (ih h) (hone c cs)
  | case11 depth c cs _ _ _ ih => exact Nat.le_trans (ih h) (hone c cs)
  | case3 | case12 => cases h
  | case5 | case13 =>
      obtain rfl := Option.some.inj h
      exact Nat.le_refl _

theorem Token.Sized.mono {t : Token} {limit limit' : Nat} (h : t.Sized limit) (hle : limit ≤ limit') :
    t.Sized limit' := by
  cases t with
  | text content => exact Nat.le_trans h hle
  | mark _ | name _ _ | number _ | foreign => trivial

/-- There are no more tokens than the limit, and no text is larger. -/
structure Bounded (limit : Nat) (tokens : List Lexeme) : Prop where
  count : tokens.length ≤ limit
  sized : ∀ l ∈ tokens, l.token.Sized limit

theorem Bounded.suffix {limit : Nat} {tokens rest : List Lexeme} (h : Bounded limit tokens)
    (hrest : rest <:+ tokens) : Bounded limit rest :=
  ⟨Nat.le_trans hrest.length_le h.count, fun l hl => h.sized l (hrest.subset hl)⟩

/-- Each token takes one from the number, and so does the end. -/
theorem lexemesFrom_sized {bound limit fuel : Nat} {found tokens : List Lexeme} {cs : List Char}
    (h : lexemesFrom bound found fuel cs = some tokens)
    (hfound : ∀ l ∈ found, l.token.Sized limit) (hcs : byteCount cs ≤ limit) :
    tokens.length < found.length + fuel ∧ ∀ l ∈ tokens, l.token.Sized limit := by
  induction fuel generalizing found cs with
  | zero => cases h
  | succ fuel ih =>
      rw [lexemesFrom] at h
      split at h
      · cases h
      · obtain rfl := Option.some.inj h
        rw [List.length_reverse]
        exact ⟨by omega, fun l hl => hfound l (List.mem_reverse.mp hl)⟩
      · next c cs hblanks =>
          have hrest := skipBlanks_sized hblanks
          split at h
          · next t after htoken =>
              obtain ⟨hsized, hafter⟩ := token?_sized htoken
              have hmore : ∀ l ∈ ⟨t, after⟩ :: found, l.token.Sized limit :=
                List.forall_mem_cons.mpr ⟨hsized.mono (by omega), hfound⟩
              obtain ⟨hcount, hall⟩ := ih h hmore (by omega)
              rw [List.length_cons] at hcount
              exact ⟨by omega, hall⟩
          · cases h

/-! ## Values -/

namespace Value

mutual

/-- Texts have at most so many bytes, and lists at most so many items. -/
def Sized (limit : Nat) : Value → Prop
  | text content => content.toUTF8.size ≤ limit
  | some content => content.Sized limit
  | list items => items.length ≤ limit ∧ ItemsSized limit items
  | tuple _ items => ItemsSized limit items
  | record _ fields => FieldsSized limit fields
  | _ => True

def ItemsSized (limit : Nat) : List Value → Prop
  | [] => True
  | v :: vs => v.Sized limit ∧ ItemsSized limit vs

def FieldsSized (limit : Nat) : List (String × Value) → Prop
  | [] => True
  | (_, v) :: fields => v.Sized limit ∧ FieldsSized limit fields

end

theorem itemsSized_iff {limit : Nat} {vs : List Value} :
    ItemsSized limit vs ↔ ∀ v ∈ vs, v.Sized limit := by
  induction vs with
  | nil => simp [ItemsSized]
  | cons v vs ih => simp only [ItemsSized, ih, List.forall_mem_cons]

theorem fieldsSized_iff {limit : Nat} {fields : List (String × Value)} :
    FieldsSized limit fields ↔ ∀ field ∈ fields, field.2.Sized limit := by
  induction fields with
  | nil => simp [FieldsSized]
  | cons field fields ih => simp only [FieldsSized, ih, List.forall_mem_cons]

end Value

/-- From bounded tokens, the reader takes what has the property, and it leaves the last of them. -/
def Reader.Keeps {α : Type} (r : Reader α) (limit : Nat) (P : α → Prop) : Prop :=
  ∀ tokens x rest, Bounded limit tokens → r tokens = some (x, rest) → P x ∧ rest <:+ tokens

section

variable {α : Type} {limit bound : Nat} {P : α → Prop} {item : Reader α} {closing : Char}

/-- Each item takes at least the token behind it. -/
theorem itemsUntil_keeps (hitem : item.Keeps limit P) {fuel : Nat} {found xs : List α}
    {tokens rest : List Lexeme} (h : itemsUntil item closing found fuel tokens = some (xs, rest))
    (hfound : ∀ x ∈ found, P x) (htokens : Bounded limit tokens) :
    (xs.length ≤ found.length + tokens.length ∧ ∀ x ∈ xs, P x) ∧ rest <:+ tokens := by
  induction fuel generalizing found tokens with
  | zero => cases h
  | succ fuel ih =>
      unfold itemsUntil at h
      split at h
      · cases h
      · next first after =>
          split at h
          · obtain ⟨rfl, rfl⟩ := Prod.mk.inj (Option.some.inj h)
            rw [List.length_reverse]
            exact ⟨⟨by omega, fun x hx => hfound x (List.mem_reverse.mp hx)⟩, List.suffix_cons _ _⟩
          · split at h
            · cases h
            · next x _ after' hx =>
                obtain ⟨hP, hafter⟩ := hitem _ _ _ htokens hx
                have hmore : ∀ y ∈ x :: found, P y := List.forall_mem_cons.mpr ⟨hP, hfound⟩
                have hsuffix := (List.suffix_cons _ after').trans hafter
                obtain ⟨⟨hcount, hall⟩, hrest⟩ := ih h hmore (htokens.suffix hsuffix)
                have hlength := hafter.length_le
                rw [List.length_cons] at hcount hlength
                exact ⟨⟨by omega, hall⟩, hrest.trans hsuffix⟩
            · next x c _ after' _ hx =>
                obtain ⟨hP, hafter⟩ := hitem _ _ _ htokens hx
                have hmore : ∀ y ∈ x :: found, P y := List.forall_mem_cons.mpr ⟨hP, hfound⟩
                split at h
                · obtain ⟨rfl, rfl⟩ := Prod.mk.inj (Option.some.inj h)
                  rw [List.length_reverse, List.length_cons, List.length_cons]
                  exact ⟨⟨by omega, fun y hy => hmore y (List.mem_reverse.mp hy)⟩,
                    (List.suffix_cons _ after').trans hafter⟩
                · cases h
            · cases h

theorem items_keeps (hitem : item.Keeps limit P) :
    Reader.Keeps (items bound item closing) limit fun xs => xs.length ≤ limit ∧ ∀ x ∈ xs, P x := by
  intro tokens xs rest htokens h
  obtain ⟨⟨hcount, hall⟩, hrest⟩ := itemsUntil_keeps hitem h (by simp) htokens
  have hlimit := htokens.count
  rw [List.length_nil] at hcount
  exact ⟨⟨by omega, hall⟩, hrest⟩

end

theorem fieldName_keeps (limit : Nat) : Reader.Keeps fieldName limit fun _ => True := by
  intro tokens x rest htokens h
  unfold fieldName at h
  split at h
  · obtain ⟨_, rfl⟩ := Prod.mk.inj (Option.some.inj h)
    exact ⟨trivial, List.suffix_cons _ _⟩
  · cases h

section

variable {limit bound : Nat} {read : Reader Value}

theorem entry_keeps {α : Type} {key : Reader α} (hkey : key.Keeps limit fun _ => True)
    (hread : read.Keeps limit (Value.Sized limit)) :
    Reader.Keeps (entry key read) limit fun field => field.2.Sized limit := by
  intro tokens x rest htokens h
  unfold entry at h
  split at h
  · next k _ after hk =>
      obtain ⟨⟨v, r⟩, hv, heq⟩ := Option.map_eq_some_iff.mp h
      obtain ⟨rfl, rfl⟩ := Prod.mk.inj heq
      have hsuffix := (List.suffix_cons _ after).trans (hkey _ _ _ htokens hk).2
      obtain ⟨hsized, hrest⟩ := hread _ _ _ (htokens.suffix hsuffix) hv
      exact ⟨hsized, hrest.trans hsuffix⟩
  · cases h

theorem recordBody_keeps (hread : read.Keeps limit (Value.Sized limit))
    (name : Option String) :
    Reader.Keeps (recordBody bound name read) limit (Value.Sized limit) := by
  intro tokens x rest htokens h
  obtain ⟨⟨fields, r⟩, hfields, heq⟩ := Option.map_eq_some_iff.mp h
  obtain ⟨rfl, rfl⟩ := Prod.mk.inj heq
  obtain ⟨⟨_, hall⟩, hrest⟩ :=
    items_keeps (entry_keeps (fieldName_keeps limit) hread) _ _ _ htokens hfields
  exact ⟨Value.fieldsSized_iff.mpr hall, hrest⟩

theorem tupleBody_keeps (hread : read.Keeps limit (Value.Sized limit))
    (name : Option String) :
    Reader.Keeps (tupleBody bound name read) limit (Value.Sized limit) := by
  intro tokens x rest htokens h
  obtain ⟨⟨vs, r⟩, hvs, heq⟩ := Option.map_eq_some_iff.mp h
  obtain ⟨rfl, rfl⟩ := Prod.mk.inj heq
  obtain ⟨⟨_, hall⟩, hrest⟩ := items_keeps hread _ _ _ htokens hvs
  exact ⟨Value.itemsSized_iff.mpr hall, hrest⟩

theorem parenthesized_keeps (hread : read.Keeps limit (Value.Sized limit))
    (name : Option String) :
    Reader.Keeps (parenthesized bound name read) limit (Value.Sized limit) := by
  intro tokens x rest htokens h
  unfold parenthesized at h
  split at h
  · exact recordBody_keeps hread name _ _ _ htokens h
  · exact tupleBody_keeps hread name _ _ _ htokens h

theorem single_keeps (hread : read.Keeps limit (Value.Sized limit)) :
    Reader.Keeps (single bound read) limit (Value.Sized limit) := by
  intro tokens x rest htokens h
  unfold single at h
  split at h
  · next v after hv =>
      obtain ⟨rfl, rfl⟩ := Prod.mk.inj (Option.some.inj h)
      obtain ⟨⟨_, hall⟩, hrest⟩ := items_keeps hread _ _ _ htokens hv
      exact ⟨hall v (List.mem_singleton_self v), hrest⟩
  · cases h

theorem optionContent_keeps (hread : read.Keeps limit (Value.Sized limit))
    (e : Extensions) (after : List Char) :
    Reader.Keeps (optionContent bound e read after) limit (Value.Sized limit) := by
  intro tokens x rest htokens h
  unfold optionContent at h
  split at h
  · split at h
    · cases h
    · obtain ⟨rfl, rfl⟩ := Prod.mk.inj (Option.some.inj h)
      exact ⟨trivial, List.tail_suffix _⟩
    · exact recordBody_keeps hread none _ _ _ htokens h
    · exact single_keeps hread _ _ _ htokens h
    · exact tupleBody_keeps hread none _ _ _ htokens h
  · exact single_keeps hread _ _ _ htokens h

end

/-- A value that is read has no text and no list beyond the limit. The induction is on the room for
containers, which every container and every option makes smaller. -/
theorem value_keeps {limit bound : Nat} (e : Extensions) (room : Nat) :
    Reader.Keeps (value bound e room) limit (Value.Sized limit) := by
  induction room using Nat.strongRecOn with
  | ind room ih =>
      intro tokens x rest htokens h
      have hone {l : Lexeme} {after : List Lexeme} : after <:+ l :: after := List.suffix_cons _ _
      have htwo {k l : Lexeme} {after : List Lexeme} : after <:+ k :: l :: after := hone.trans hone
      unfold value at h
      split at h
      · next room raw name _ after =>
          -- four names stand for something else
          iterate 4
            split at h
            · obtain ⟨rfl, rfl⟩ := Prod.mk.inj (Option.some.inj h)
              exact ⟨trivial, hone⟩
          split at h
          · -- an option
            split at h
            · next room _ after =>
                obtain ⟨⟨v, r⟩, hv, heq⟩ := Option.map_eq_some_iff.mp h
                obtain ⟨rfl, rfl⟩ := Prod.mk.inj heq
                obtain ⟨hsized, hrest⟩ := optionContent_keeps (ih room (Nat.lt_succ_self room)) e _ _ _ _
                  (htokens.suffix htwo) hv
                exact ⟨hsized, hrest.trans htwo⟩
            · next room _ =>
                split at h
                · obtain ⟨⟨v, r⟩, hv, heq⟩ := Option.map_eq_some_iff.mp h
                  obtain ⟨rfl, rfl⟩ := Prod.mk.inj heq
                  obtain ⟨hsized, hrest⟩ :=
                    ih room (Nat.lt_succ_self room) _ _ _ (htokens.suffix hone) hv
                  exact ⟨hsized, hrest.trans hone⟩
                · cases h
            · cases h
          · -- a name, with or without content
            split at h
            · next room _ after =>
                obtain ⟨hsized, hrest⟩ := parenthesized_keeps (ih room (Nat.lt_succ_self room)) _ _ _ _
                  (htokens.suffix htwo) h
                exact ⟨hsized, hrest.trans htwo⟩
            · obtain ⟨rfl, rfl⟩ := Prod.mk.inj (Option.some.inj h)
              exact ⟨trivial, hone⟩
      · -- a number
        split at h
        · obtain ⟨rfl, rfl⟩ := Prod.mk.inj (Option.some.inj h)
          exact ⟨trivial, hone⟩
        · cases h
      · -- a text
        obtain ⟨rfl, rfl⟩ := Prod.mk.inj (Option.some.inj h)
        exact ⟨htokens.sized _ List.mem_cons_self, hone⟩
      · -- a literal of no use
        obtain ⟨rfl, rfl⟩ := Prod.mk.inj (Option.some.inj h)
        exact ⟨trivial, hone⟩
      · -- nothing in parentheses
        obtain ⟨rfl, rfl⟩ := Prod.mk.inj (Option.some.inj h)
        exact ⟨trivial, (List.tail_suffix _).trans hone⟩
      · next room _ _ _ =>
          obtain ⟨hsized, hrest⟩ := parenthesized_keeps (ih room (Nat.lt_succ_self room)) _ _ _ _
            (htokens.suffix hone) h
          exact ⟨hsized, hrest.trans hone⟩
      · next room _ _ =>
          -- a list
          obtain ⟨⟨vs, r⟩, hvs, heq⟩ := Option.map_eq_some_iff.mp h
          obtain ⟨rfl, rfl⟩ := Prod.mk.inj heq
          obtain ⟨⟨hcount, hall⟩, hrest⟩ :=
            items_keeps (ih room (Nat.lt_succ_self room)) _ _ _ (htokens.suffix hone) hvs
          exact ⟨⟨hcount, Value.itemsSized_iff.mpr hall⟩, hrest.trans hone⟩
      · next room _ _ =>
          -- a map
          have hitem := ih room (Nat.lt_succ_self room)
          have hkey : Reader.Keeps (value bound e room) limit fun _ => True :=
            fun tokens x rest htokens h => ⟨trivial, (hitem tokens x rest htokens h).2⟩
          obtain ⟨⟨entries, r⟩, hentries, heq⟩ := Option.map_eq_some_iff.mp h
          obtain ⟨rfl, rfl⟩ := Prod.mk.inj heq
          obtain ⟨_, hrest⟩ :=
            items_keeps (entry_keeps hkey hitem) _ _ _ (htokens.suffix hone) hentries
          exact ⟨trivial, hrest.trans hone⟩
      · cases h

/-! ## Whole texts -/

theorem attributes_suffix {bound limit fuel : Nat} {e e' : Extensions} {tokens rest : List Lexeme}
    (h : attributes bound e fuel tokens = some (e', rest)) (htokens : Bounded limit tokens) :
    rest <:+ tokens := by
  induction fuel generalizing e tokens with
  | zero =>
      obtain ⟨_, rfl⟩ := Prod.mk.inj (Option.some.inj h)
      exact List.suffix_rfl
  | succ fuel ih =>
      unfold attributes at h
      split at h
      · next heq =>
          obtain rfl := Nat.succ.inj heq
          split at h
          · next names =>
              have hfive {j k l m n : Lexeme} : names <:+ j :: k :: l :: m :: n :: names :=
                ⟨[j, k, l, m, n], rfl⟩
              split at h
              · next after hitems =>
                  obtain ⟨_, hsuffix⟩ := items_keeps (fieldName_keeps limit) _ _ _
                    (htokens.suffix hfive) hitems
                  have hafter := (List.suffix_cons _ after).trans hsuffix
                  split at h
                  · cases h
                  · split at h
                    · exact (ih h (htokens.suffix (hafter.trans hfive))).trans (hafter.trans hfive)
                    · cases h
              · cases h
          · cases h
      · obtain ⟨_, rfl⟩ := Prod.mk.inj (Option.some.inj h)
        exact List.suffix_rfl

/-- What is read from a text has no text with more bytes, and no list with more items than that. -/
theorem read?_sized {text : String} {e : Extensions} {v : Value} (h : read? text = some (e, v)) :
    v.Sized text.toUTF8.size := by
  have hsize : text.toUTF8.size = byteCount text.toList := by
    rw [← size_ofList, String.ofList_toList]
  have hlength := length_le_byteCount text.toList
  rw [hsize]
  unfold read? at h
  simp only at h
  split at h
  · cases h
  · next tokens htokens =>
      obtain ⟨hcount, hall⟩ := lexemesFrom_sized htokens (fun l hl => by cases hl) (Nat.le_refl _)
      rw [List.length_nil] at hcount
      have hbounded : Bounded (byteCount text.toList) tokens := ⟨by omega, hall⟩
      split at h
      · cases h
      · next extensions rest hattributes =>
          have hrest := hbounded.suffix (attributes_suffix hattributes hbounded)
          split at h
          · next v' hvalue =>
              obtain ⟨rfl, rfl⟩ := Prod.mk.inj (Option.some.inj h)
              exact (value_keeps _ _ _ _ _ hrest hvalue).1
          · cases h

end NoiseShader.ObjectText
