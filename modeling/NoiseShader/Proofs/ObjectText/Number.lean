import NoiseShader.ObjectText.Number
import NoiseShader.Proofs.Decimal.Shortest
import NoiseShader.Proofs.Shading.Literal
import Mathlib.Data.List.TakeWhile

set_option autoImplicit false

/-! # Numbers read back as they were spelled

An integer is read back from its digits (`word?_spellWord`). A single-precision number is read
back from the shortest digits that stand for it, bit for bit; what is not a number comes back as
the quiet one with its sign (`number?_spellNumber`).
-/

namespace NoiseShader

namespace Binary32

/-- What the spelling of a number keeps of it: all of it, except for the payload of what is not a
number. -/
def quiet (x : Binary32) : Binary32 := if x.isNaN then ofCode x.negative quietCode else x

theorem ofCode_negative_code (x : Binary32) : ofCode x.negative x.code = x := by
  have hlt := x.bits.toNat_lt
  have hsum : x.code + (if x.negative then signWeight else 0) = x.bits.toNat := by
    by_cases h : signWeight ≤ x.bits.toNat <;> simp only [code, negative, h, decide_true,
      decide_false, if_true, Bool.false_eq_true, if_false] <;> simp only [signWeight] at * <;> omega
  rw [ofCode, hsum, UInt32.ofNat_toNat]

theorem quiet_of_not_isNaN {x : Binary32} (h : x.isNaN = false) : x.quiet = x := by
  simp [quiet, h]

theorem not_isNaN_of_isFinite {x : Binary32} (h : x.isFinite = true) : x.isNaN = false := by
  simp only [isFinite, isNaN, decide_eq_true_eq, decide_eq_false_iff_not] at *
  omega

theorem isNaN_quiet (x : Binary32) : x.quiet.isNaN = x.isNaN := by
  unfold quiet
  split
  next h =>
    rw [h]
    cases x.negative <;> decide
  next => rfl

theorem negative_quiet (x : Binary32) : x.quiet.negative = x.negative := by
  unfold quiet
  split
  · cases x.negative <;> decide
  · rfl

end Binary32

namespace ObjectText

/-! ## Digits -/

theorem hexValue?_digitChar : ∀ {n : Nat}, n < 16 → hexValue? n.digitChar = some n := by
  decide

theorem digitsValue?_append (base value : Nat) (xs ys : List Char) :
    digitsValue? base value (xs ++ ys) =
      (digitsValue? base value xs).bind fun v => digitsValue? base v ys := by
  induction xs generalizing value with
  | nil => rfl
  | cons c xs ih =>
    simp only [List.cons_append, digitsValue?]
    cases hexValue? c with
    | none => rfl
    | some digit =>
      simp only
      split
      · exact ih _
      · rfl

/-- The digits of a number have that number as their value. -/
theorem digitsValue?_toDigits {base : Nat} (hbase : 1 < base) (hsmall : base ≤ 16) (n : Nat) :
    digitsValue? base 0 (Nat.toDigits base n) = some n := by
  induction n using Nat.strongRecOn with
  | ind n ih =>
    rcases Nat.lt_or_ge n base with hlt | hge
    · rw [Nat.toDigits_of_lt_base hlt]
      simp [digitsValue?, hexValue?_digitChar (Nat.lt_of_lt_of_le hlt hsmall), hlt]
    · have hmod : n % base < base := Nat.mod_lt n (by omega)
      rw [Nat.toDigits_of_base_le hbase hge, digitsValue?_append,
        ih (n / base) (Nat.div_lt_self (by omega) hbase)]
      simp [digitsValue?, hexValue?_digitChar (Nat.lt_of_lt_of_le hmod hsmall), hmod,
        Nat.div_add_mod']

theorem digitsValue?_zeros (value count : Nat) :
    digitsValue? 10 value (List.replicate count '0') = some (value * 10 ^ count) := by
  induction count generalizing value with
  | zero => simp [digitsValue?]
  | succ count ih =>
    rw [List.replicate_succ, digitsValue?, show hexValue? '0' = some 0 from rfl]
    simp only [Nat.zero_lt_succ, if_true, Nat.add_zero, ih]
    rw [Nat.pow_succ', Nat.mul_assoc]

theorem isDigit_of_mem_digits {n : Nat} : ∀ c ∈ Decimal.digits n, c.isDigit = true :=
  fun _ hc => Nat.isDigit_of_mem_toDigits (by decide) (by decide) hc

/-! ## Decimals -/

/-- The plain text of a decimal is two runs of digits with a point between them, and has the value
of the decimal. -/
theorem plain_eq (d : Decimal) : ∃ whole fraction c,
    Layout.plain (Decimal.digits d.coefficient) d.point = whole ++ '.' :: fraction ∧
    whole ≠ [] ∧ (∀ c ∈ whole ++ fraction, c.isDigit = true) ∧
    digitsValue? 10 0 (whole ++ fraction) = some c ∧
    Decimal.value ⟨c, -(fraction.length : Int)⟩ = d.value := by
  have hvalue : digitsValue? 10 0 (Decimal.digits d.coefficient) = some d.coefficient :=
    digitsValue?_toDigits (by decide) (by decide) _
  have hdigits := isDigit_of_mem_digits (n := d.coefficient)
  have hne : Decimal.digits d.coefficient ≠ [] := Nat.toDigits_ne_nil
  have hpoint : d.point = d.exponent + (Decimal.digits d.coefficient).length := rfl
  generalize Decimal.digits d.coefficient = ds at *
  simp only [Layout.plain]
  split
  next hle =>
    -- all digits stand behind the point, after zeros
    refine ⟨['0'], List.replicate (-d.point).toNat '0' ++ ds, d.coefficient, rfl, by simp, ?_, ?_,
      ?_⟩
    · simp only [List.forall_mem_append, List.forall_mem_singleton]
      exact ⟨by decide, Layout.isDigit_of_mem_zeros, hdigits⟩
    · rw [digitsValue?_append, show digitsValue? 10 0 ['0'] = some 0 from rfl, Option.bind_some,
        digitsValue?_append, digitsValue?_zeros, Option.bind_some, Nat.zero_mul]
      exact hvalue
    · have hexponent :
          -((List.replicate (-d.point).toNat '0' ++ ds).length : Int) = d.exponent := by
        rw [List.length_append, List.length_replicate]
        omega
      rw [hexponent]
  next hgt =>
    obtain ⟨whole, hwhole⟩ := Int.eq_ofNat_of_zero_le (Int.le_of_not_le hgt)
    simp only [hwhole, Int.toNat_natCast]
    rcases Nat.lt_or_ge whole ds.length with hlt | hge
    · -- the point stands between digits
      have hdrop : ds.drop whole ≠ [] := by
        rw [Ne, List.drop_eq_nil_iff]
        omega
      refine ⟨ds.take whole, ds.drop whole, d.coefficient, ?_, ?_, ?_, ?_, ?_⟩
      · simp [hdrop, Nat.sub_eq_zero_of_le hlt.le]
      · exact Layout.take_ne_nil hne (by omega)
      · rwa [List.take_append_drop]
      · rwa [List.take_append_drop]
      · have hexponent : -((ds.drop whole).length : Int) = d.exponent := by
          rw [List.length_drop]
          omega
        rw [hexponent]
    · -- zeros fill up to the point, and one stands behind it
      refine ⟨ds ++ List.replicate (whole - ds.length) '0', ['0'],
        d.coefficient * 10 ^ (whole - ds.length) * 10, ?_, ?_, ?_, ?_, ?_⟩
      · simp [hge, List.take_of_length_le]
      · simp [hne]
      · simp only [List.forall_mem_append, List.forall_mem_singleton]
        exact ⟨⟨hdigits, Layout.isDigit_of_mem_zeros⟩, by decide⟩
      · rw [digitsValue?_append, digitsValue?_append, hvalue, Option.bind_some, digitsValue?_zeros]
        rfl
      · have hexponent : d.exponent = ((whole - ds.length : Nat) : Int) := by omega
        simp only [Decimal.value, hexponent]
        push_cast
        simp

/-- Two runs of digits with a point between them, before an exponent. -/
theorem decimal?_fraction {whole fraction tail : List Char} {c : Nat} {e : Int} (hne : whole ≠ [])
    (hdigits : ∀ c ∈ whole ++ fraction, c.isDigit = true)
    (htail : ∀ d, tail.head? = some d → d.isDigit = false)
    (hvalue : digitsValue? 10 0 (whole ++ fraction) = some c) (hexponent : exponent? tail = some e) :
    decimal? (whole ++ '.' :: (fraction ++ tail)) = some ⟨c, e - fraction.length⟩ := by
  obtain ⟨hwhole, hfraction⟩ := List.forall_mem_append.1 hdigits
  have hpoint : ∀ d, ('.' :: (fraction ++ tail)).head? = some d → d.isDigit = false :=
    Shading.Token.not_isDigit_head (by decide) rfl
  obtain ⟨htake, hdrop⟩ := Shading.Token.takeWhile_digits hwhole hpoint
  obtain ⟨htake', hdrop'⟩ := Shading.Token.takeWhile_digits hfraction htail
  simp [decimal?, htake, hdrop, splitFraction, htake', hdrop', hne, hvalue, hexponent]

/-- A decimal of two runs of digits is their value. -/
theorem decimal?_digits {whole fraction : List Char} {c : Nat} (hne : whole ≠ [])
    (hdigits : ∀ c ∈ whole ++ fraction, c.isDigit = true)
    (hvalue : digitsValue? 10 0 (whole ++ fraction) = some c) :
    decimal? (whole ++ '.' :: fraction) = some ⟨c, -(fraction.length : Int)⟩ := by
  have hend : ∀ d, ([] : List Char).head? = some d → d.isDigit = false := fun d hd => by cases hd
  have hdecimal := decimal?_fraction hne hdigits hend hvalue (show exponent? [] = some 0 from rfl)
  rwa [List.append_nil, Int.zero_sub] at hdecimal

theorem dropUnderscores_eq {cs : List Char} (h : ∀ c ∈ cs, c ≠ '_') (allowed : Bool) :
    dropUnderscores allowed cs = some cs := by
  induction cs generalizing allowed with
  | nil => rfl
  | cons c cs ih =>
    rw [dropUnderscores, if_neg (h c List.mem_cons_self)]
    simp only [ih (fun d hd => h d (List.mem_cons_of_mem c hd)), Option.map_some]

theorem dropSuffix_eq {suffix cs : List Char} {c : Char} (hc : c ∈ suffix) (h : c ∉ cs) :
    dropSuffix suffix cs = cs := by
  rw [dropSuffix, if_neg]
  intro hsuffix
  exact h ((List.isSuffixOf_iff_suffix.1 hsuffix).subset hc)

theorem namedCode?_of_head {cs : List Char} (h : ∀ c ∈ cs.head?, c.isDigit = true) :
    namedCode? cs = none := by
  unfold namedCode?
  split
  next heq =>
    obtain rfl := String.ofList_injective (heq.trans (String.ofList_toList).symm)
    exact absurd (h 'i' rfl) (by decide)
  next heq =>
    obtain rfl := String.ofList_injective (heq.trans (String.ofList_toList).symm)
    exact absurd (h 'N' rfl) (by decide)
  next => rfl

/-- A sign is cut off; a digit is not taken for one. -/
theorem splitSign_append {cs : List Char} (h : ∀ c ∈ cs.head?, c.isDigit = true) (negative : Bool) :
    splitSign ((if negative then ['-'] else []) ++ cs) = (negative, cs) := by
  cases negative with
  | true => rfl
  | false =>
    rw [if_neg Bool.false_ne_true, List.nil_append]
    unfold splitSign
    split
    next => exact absurd (h '-' rfl) (by decide)
    next => exact absurd (h '+' rfl) (by decide)
    next => rfl

/-- A finite magnitude is spelled by two runs of digits, and is the one nearest to them. -/
theorem magnitude_eq {code : Nat} (hfinite : code < Binary32.infinityCode) :
    ∃ whole fraction d, numberLayout.magnitude code = whole ++ '.' :: fraction ∧
      whole ≠ [] ∧ (∀ c ∈ whole ++ fraction, c.isDigit = true) ∧
      decimal? (whole ++ '.' :: fraction) = some d ∧ d.nearestCode = code := by
  by_cases hzero : code = 0
  · subst hzero
    exact ⟨['0'], ['0'], ⟨0, -1⟩, rfl, by simp, List.all_eq_true.1 (by decide), rfl, rfl⟩
  · have hpos : 0 < code := Nat.pos_of_ne_zero hzero
    obtain ⟨whole, fraction, c, htext, hne, hdigits, hvalue, hsame⟩ :=
      plain_eq (Decimal.shortest numberLayout.tie code)
    refine ⟨whole, fraction, _, ?_, hne, hdigits, decimal?_digits hne hdigits hvalue, ?_⟩
    · rw [Layout.magnitude, if_neg hzero]
      exact htext
    · refine Decimal.nearestCode_eq hpos hfinite ?_
      rw [hsame]
      exact Decimal.rounds_shortest _ hpos

/-! ## Spellings -/

/-- Finite numbers are spelled with a sign, digits and a point. -/
theorem spellNumber_of_isFinite {x : Binary32} (h : x.isFinite = true) :
    ∃ whole fraction d,
      spellNumber x = (if x.negative then ['-'] else []) ++ (whole ++ '.' :: fraction) ∧
      whole ≠ [] ∧ (∀ c ∈ whole ++ fraction, c.isDigit = true) ∧
      decimal? (whole ++ '.' :: fraction) = some d ∧ d.nearestCode = x.code := by
  have hcode : x.code < Binary32.infinityCode := by simpa [Binary32.isFinite] using h
  obtain ⟨whole, fraction, d, htext, hrest⟩ := magnitude_eq hcode
  refine ⟨whole, fraction, d, ?_, hrest⟩
  simp [spellNumber, Binary32.not_isNaN_of_isFinite h, h, htext]

/-- All other numbers are spelled with a sign and a name. -/
theorem spellNumber_of_not_isFinite {x : Binary32} (h : x.isFinite = false) :
    spellNumber x = (if x.negative then ['-'] else []) ++
      (if x.isNaN then ['N', 'a', 'N'] else ['i', 'n', 'f']) ∧
    x.quiet = .ofCode x.negative
      (if x.isNaN then Binary32.quietCode else Binary32.infinityCode) := by
  refine ⟨by simp [spellNumber, h], ?_⟩
  unfold Binary32.quiet
  split
  next => rfl
  next hnumber =>
    have hcode : x.code = Binary32.infinityCode := by
      simp only [Binary32.isFinite, Binary32.isNaN, decide_eq_true_eq, decide_eq_false_iff_not] at *
      omega
    rw [← hcode, Binary32.ofCode_negative_code]

theorem mem_signed {negative : Bool} {whole fraction : List Char} {c : Char}
    (hdigits : ∀ c ∈ whole ++ fraction, c.isDigit = true)
    (hc : c ∈ (if negative then ['-'] else []) ++ (whole ++ '.' :: fraction)) :
    c = '-' ∨ c = '.' ∨ c.isDigit = true := by
  simp only [List.mem_append, List.mem_cons] at hc hdigits
  rcases hc with hsign | hwhole | hpoint | hfraction
  · cases negative with
    | true => exact Or.inl (by simpa using hsign)
    | false => simp at hsign
  · exact Or.inr (Or.inr (hdigits c (Or.inl hwhole)))
  · exact Or.inr (Or.inl hpoint)
  · exact Or.inr (Or.inr (hdigits c (Or.inr hfraction)))

/-- A sign and a decimal are read as the number that is nearest to the decimal. -/
theorem number?_of_decimal? {x : Binary32} {cs : List Char} {d : Decimal}
    (hchars : ∀ c ∈ cs, c ∈ ['.', 'e', '-'] ∨ c.isDigit = true)
    (hhead : ∀ c ∈ cs.head?, c.isDigit = true) (hdecimal : decimal? cs = some d)
    (hcode : d.nearestCode = x.code) :
    number? ((if x.negative then ['-'] else []) ++ cs) = some x := by
  have hsigned : ∀ c ∈ (if x.negative then ['-'] else []) ++ cs,
      c ∈ ['.', 'e', '-'] ∨ c.isDigit = true := by
    intro c hc
    rcases List.mem_append.1 hc with hsign | hc
    · split at hsign
      · obtain rfl := List.mem_singleton.1 hsign
        exact .inl (by decide)
      · cases hsign
    · exact hchars c hc
  have hsuffix : 'f' ∉ (if x.negative then ['-'] else []) ++ cs :=
    fun h => absurd (hsigned _ h) (by decide)
  have hplain : ∀ c ∈ (if x.negative then ['-'] else []) ++ cs, c ≠ '_' := by
    rintro c hc rfl
    exact absurd (hsigned _ hc) (by decide)
  rw [number?, dropSuffix_eq (by decide) hsuffix]
  simp only [unsuffixed?, dropUnderscores_eq hplain, splitSign_append hhead, namedCode?_of_head hhead,
    hdecimal, Option.map_some, hcode]
  rw [Binary32.ofCode_negative_code]

/-- A number is read back as it was, except for what is not a number. -/
theorem number?_spellNumber (x : Binary32) : number? (spellNumber x) = some x.quiet := by
  by_cases hfinite : x.isFinite = true
  · obtain ⟨whole, fraction, d, htext, hne, hdigits, hdecimal, hcode⟩ :=
      spellNumber_of_isFinite hfinite
    rw [Binary32.quiet_of_not_isNaN (Binary32.not_isNaN_of_isFinite hfinite), htext]
    refine number?_of_decimal? ?_ ?_ hdecimal hcode
    · intro c hc
      rcases List.mem_append.1 hc with hc | hc
      · exact .inr (hdigits c (List.mem_append_left _ hc))
      · rcases List.mem_cons.1 hc with rfl | hc
        · exact .inl (by decide)
        · exact .inr (hdigits c (List.mem_append_right _ hc))
    · cases whole with
      | nil => exact absurd rfl hne
      | cons c whole => simpa using hdigits c (by simp)
  · obtain ⟨htext, hquiet⟩ := spellNumber_of_not_isFinite (Bool.eq_false_iff.2 hfinite)
    rw [htext, hquiet]
    cases x.negative <;> cases x.isNaN <;> rfl

/-! ## Words -/

theorem splitSign_digits (n : Nat) : splitSign (Decimal.digits n) = (false, Decimal.digits n) :=
  splitSign_append (fun c hc => isDigit_of_mem_digits c (List.mem_of_mem_head? hc)) false

theorem notMem_digits {n : Nat} {c : Char} (h : c.isDigit = false) : c ∉ Decimal.digits n :=
  fun hc => Bool.false_ne_true (h.symm.trans (isDigit_of_mem_digits c hc))

theorem digitsOf?_digits (n : Nat) : digitsOf? 10 (Decimal.digits n) = some n := by
  have hne : Decimal.digits n ≠ [] := Nat.toDigits_ne_nil
  have hunderscore : '_' ∉ Decimal.digits n := notMem_digits (by decide)
  have hfilter : (Decimal.digits n).filter (· != '_') = Decimal.digits n := by
    rw [List.filter_eq_self]
    rintro c hc
    simpa using ne_of_mem_of_not_mem hc hunderscore
  unfold digitsOf?
  split
  next heq => exact absurd heq hne
  next heq => exact absurd (heq ▸ List.mem_cons_self) hunderscore
  next =>
    rw [hfilter]
    exact digitsValue?_toDigits (by decide) (by decide) n

/-- Digits are not taken for the prefix of a base. -/
theorem magnitude?_digits (n : Nat) : magnitude? (Decimal.digits n) = some n := by
  unfold magnitude?
  split
  next heq => exact absurd (heq ▸ by simp) (notMem_digits (n := n) (c := 'b') (by decide))
  next heq => exact absurd (heq ▸ by simp) (notMem_digits (n := n) (c := 'o') (by decide))
  next heq => exact absurd (heq ▸ by simp) (notMem_digits (n := n) (c := 'x') (by decide))
  next => exact digitsOf?_digits n

theorem read?_digits (n : Nat) :
    IntegerSpelling.read? (Decimal.digits n) = some ⟨false, n, none⟩ := by
  have hchars : ∀ c ∈ Decimal.digits n, isIntegerChar c = true := by
    intro c hc
    simp [isIntegerChar, hexValue?, isDigit_of_mem_digits c hc]
  have hdrop : (Decimal.digits n).dropWhile isIntegerChar = [] :=
    List.dropWhile_eq_nil_iff.2 hchars
  have hsuffix : IntegerType.ofSuffix? [] = none := by decide
  simp only [IntegerSpelling.read?, splitSign_digits, hdrop, hsuffix, magnitude?_digits,
    Option.map_some]

/-- A word is read back as it was. -/
theorem word?_spellWord (n : UInt32) : word? (spellWord n) = some n := by
  have hlt : n.toNat < Nat.pow 2 32 := n.toNat_lt
  simp [word?, spellWord, read?_digits, IntegerType.holds, hlt]

theorem isInteger_spellWord (n : UInt32) : isInteger (spellWord n) = true := by
  have hlt : n.toNat < Nat.pow 2 64 := Nat.lt_trans n.toNat_lt (by decide)
  simp [isInteger, spellWord, read?_digits, IntegerType.holds, hlt]

end ObjectText

end NoiseShader
