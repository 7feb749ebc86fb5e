import NoiseShader.Node
import NoiseShader.Proofs.Shading.Token

set_option autoImplicit false

/-! # Names of variables

A variable's name is letters and digits, an underscore, and the UID of its node. So nodes have
different variables, whatever their names, and no variable has the name of a library function or
a helper.
-/

namespace NoiseShader

open Shading

theorem UID.toList_text (uid : UID) : (UID.text uid).toList = Nat.toDigits 10 uid.toNat := by
  rw [UID.text, Nat.toString_eq_ofList_toDigits, String.toList_ofList]

theorem toDigits_injective {m n : Nat} (h : Nat.toDigits 10 m = Nat.toDigits 10 n) : m = n := by
  calc m
      = Nat.ofDigitChars 10 (Nat.toDigits 10 m) 0 := Nat.ofDigitChars_ten_toDigits.symm
    _ = Nat.ofDigitChars 10 (Nat.toDigits 10 n) 0 := by rw [h]
    _ = n := Nat.ofDigitChars_ten_toDigits

theorem UID.toDigits_injective {u v : UID}
    (h : Nat.toDigits 10 u.toNat = Nat.toDigits 10 v.toNat) : u = v :=
  UInt32.toNat_inj.mp (NoiseShader.toDigits_injective h)

theorem underscore_notMem_toDigits (n : Nat) : '_' ∉ Nat.toDigits 10 n := by
  intro hmem
  exact absurd (Nat.isDigit_of_mem_toDigits (by decide) (by decide) hmem) (by decide)

/-- The first place of a character parts a text in one way. -/
theorem split_at_first {mark : Char} {xs ys xs' ys' : List Char} (hxs : mark ∉ xs)
    (hxs' : mark ∉ xs') (h : xs ++ mark :: ys = xs' ++ mark :: ys') : xs = xs' ∧ ys = ys' := by
  induction xs generalizing xs' with
  | nil =>
      cases xs' with
      | nil => exact ⟨rfl, (List.cons.inj h).2⟩
      | cons c xs' =>
          rw [(List.cons.inj h).1] at hxs'
          exact absurd List.mem_cons_self hxs'
  | cons c xs ih =>
      cases xs' with
      | nil =>
          rw [(List.cons.inj h).1] at hxs
          exact absurd List.mem_cons_self hxs
      | cons d xs' =>
          obtain ⟨rfl, htail⟩ := List.cons.inj h
          have hrest := ih (fun hm => hxs (List.mem_cons_of_mem _ hm))
            (fun hm => hxs' (List.mem_cons_of_mem _ hm)) htail
          exact ⟨by rw [hrest.1], hrest.2⟩

/-! ## Stems -/

/-- Letters and digits, beginning with a letter. -/
structure IsStem (text : List Char) : Prop where
  letter : ∃ c rest, text = c :: rest ∧ c.isAlpha = true
  alphanumeric : ∀ c ∈ text, c.isAlphanum = true

theorem IsStem.underscore_notMem {text : List Char} (h : IsStem text) : '_' ∉ text := by
  intro hmem
  exact absurd (h.alphanumeric '_' hmem) (by decide)

theorem IsStem.cons {text : List Char} (h : ∀ c ∈ text, c.isAlphanum = true) :
    IsStem ('n' :: text) := by
  refine ⟨⟨'n', text, rfl, by decide⟩, ?_⟩
  intro c hc
  rcases List.mem_cons.mp hc with rfl | hc
  · decide
  · exact h c hc

theorem IsStem.isWord_numbered {stem : List Char} (h : IsStem stem) (uid : UID) :
    Token.IsWord (stem ++ '_' :: Nat.toDigits 10 uid.toNat) := by
  obtain ⟨⟨c, rest, rfl, hc⟩, halphanumeric⟩ := h
  refine ⟨c, rest ++ '_' :: Nat.toDigits 10 uid.toNat, rfl, ?_, ?_⟩
  · simp [Token.isWordStart, hc]
  · intro d hd
    rcases List.mem_append.mp hd with hd | hd
    · simp [Token.isWordChar, halphanumeric d (List.mem_cons_of_mem _ hd)]
    · rcases List.mem_cons.mp hd with rfl | hd
      · rfl
      · exact Token.isWordChar_of_isDigit
          (Nat.isDigit_of_mem_toDigits (by decide) (by decide) hd)

theorem isStem_identifier (name : String) : IsStem (identifier name).toList := by
  have hkept : ∀ c ∈ name.toList.filter Char.isAlphanum, c.isAlphanum = true := by
    intro c hc
    exact (List.mem_filter.mp hc).2
  cases hcons : name.toList.filter Char.isAlphanum with
  | nil =>
      simp only [identifier, hcons]
      exact .cons (by simp)
  | cons c rest =>
      rw [hcons] at hkept
      simp only [identifier, hcons, String.toList_ofList]
      split
      · exact .cons hkept
      · next hdigit =>
          have hletter : c.isAlpha = true := by
            have hc := hkept c List.mem_cons_self
            simpa [Char.isAlphanum, hdigit] using hc
          exact ⟨⟨c, rest, rfl, hletter⟩, hkept⟩

theorem Noise.isStem_helperStem : IsStem Noise.helperStem.toList := by
  have hall : Noise.helperStem.toList.all Char.isAlphanum = true := by decide
  exact ⟨⟨'W', _, rfl, by decide⟩, List.all_eq_true.mp hall⟩

theorem Noise.toList_helperName (uid : UID) : (Noise.helperName uid).toList =
    Noise.helperStem.toList ++ '_' :: Nat.toDigits 10 uid.toNat := by
  simp [Noise.helperName, UID.toList_text]

theorem Noise.helperName_injective {u v : UID} (h : Noise.helperName u = Noise.helperName v) :
    u = v := by
  have hlist := congrArg String.toList h
  rw [toList_helperName, toList_helperName] at hlist
  exact UID.toDigits_injective (split_at_first (by decide) (by decide) hlist).2

/-! ## Variables -/

namespace Node

/-- The part of a variable's name before its underscore is never that of the helpers. -/
theorem variableName_eq (n : Node) :
    ∃ stem, n.variableName.toList = stem ++ '_' :: Nat.toDigits 10 n.uid.toNat ∧ IsStem stem ∧
      stem ≠ Noise.helperStem.toList := by
  by_cases hhelper : identifier n.name = Noise.helperStem
  · refine ⟨'n' :: Noise.helperStem.toList, ?_, .cons Noise.isStem_helperStem.alphanumeric, by decide⟩
    simp [variableName, hhelper, UID.toList_text]
  · refine ⟨(identifier n.name).toList, ?_, isStem_identifier n.name, ?_⟩
    · simp [variableName, hhelper, UID.toList_text]
    · intro heq
      exact hhelper (String.toList_inj.mp heq)

theorem variableName_injective {n m : Node} (h : n.variableName = m.variableName) :
    n.uid = m.uid := by
  obtain ⟨stem, hn, hstem, _⟩ := n.variableName_eq
  obtain ⟨stem', hm, hstem', _⟩ := m.variableName_eq
  rw [h, hm] at hn
  exact (UID.toDigits_injective
    (split_at_first hstem'.underscore_notMem hstem.underscore_notMem hn).2).symm

theorem underscore_mem_variableName (n : Node) : '_' ∈ n.variableName.toList := by
  obtain ⟨stem, hn, _⟩ := n.variableName_eq
  rw [hn]
  simp

theorem variableName_ne {n : Node} {x : String} (h : '_' ∉ x.toList) : n.variableName ≠ x := by
  rintro rfl
  exact h n.underscore_mem_variableName

theorem variableName_ne_helperName (n : Node) (uid : UID) :
    n.variableName ≠ Noise.helperName uid := by
  intro h
  obtain ⟨stem, hn, hstem, hne⟩ := n.variableName_eq
  rw [h, Noise.toList_helperName] at hn
  exact hne (split_at_first (by decide) hstem.underscore_notMem hn).1.symm

theorem isWord_variableName (n : Node) : Token.IsWord n.variableName.toList := by
  obtain ⟨stem, hn, hstem, _⟩ := n.variableName_eq
  rw [hn]
  exact hstem.isWord_numbered n.uid

end Node

theorem Noise.isWord_helperName (uid : UID) : Token.IsWord (Noise.helperName uid).toList := by
  rw [toList_helperName]
  exact isStem_helperStem.isWord_numbered uid

end NoiseShader
