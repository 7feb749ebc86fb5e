import NoiseShader.Proofs.Decimal.Fewest
import NoiseShader.Proofs.ObjectText.Number

set_option autoImplicit false

/-! # Literals say exactly which number they stand for

A literal is a decimal in one of two forms, with a point or an exponent in it. Read as a decimal, it
is nearest to the number that it was written for, and no decimal with fewer digits is
(`Shading.literal_exact`). So the bits of the number are found again in its literal.
-/

namespace NoiseShader

open Shading Token

namespace ObjectText

/-! ## Reading the parts of a decimal -/

theorem isDigit_of_isDigits {digits : List Char} (h : isDigits digits = true) :
    ∀ c ∈ digits, c.isDigit = true :=
  ((isDigits_iff digits).mp h).2

/-- Digits before an exponent, without a point. -/
theorem decimal?_whole {whole tail : List Char} {c : Nat} {e : Int} (hwhole : isDigits whole = true)
    (htail : tail.head? = some 'e') (hvalue : digitsValue? 10 0 whole = some c)
    (hexponent : exponent? tail = some e) : decimal? (whole ++ tail) = some ⟨c, e⟩ := by
  have hhead : ∀ d, tail.head? = some d → d.isDigit = false := not_isDigit_head (by decide) htail
  obtain ⟨htake, hdrop⟩ := takeWhile_digits (isDigit_of_isDigits hwhole) hhead
  have hne : whole.isEmpty = false := by
    simpa [List.isEmpty_iff] using ((isDigits_iff whole).mp hwhole).1
  have hsplit : splitFraction tail = ([], tail) := by
    unfold splitFraction
    split
    · cases htail
    · rfl
  simp [decimal?, htake, hdrop, hsplit, hne, hvalue, hexponent]

/-- An exponent is read back as it was. -/
theorem exponent?_exponent {layout : Layout} (hplus : layout.plusSign = false) (e : Int) :
    exponent? (layout.exponent e) = some e := by
  have hdigits := Decimal.isDigits_digits e.natAbs
  have hhead : ∀ c ∈ (Decimal.digits e.natAbs).head?, c.isDigit = true :=
    fun c hc => isDigit_of_isDigits hdigits c (List.mem_of_mem_head? hc)
  have hsign : layout.exponent e =
      'e' :: ((if decide (e < 0) then ['-'] else []) ++ Decimal.digits e.natAbs) := by
    simp [Layout.exponent, hplus]
  have hempty : (Decimal.digits e.natAbs).isEmpty = false := by
    simpa [List.isEmpty_iff] using ((isDigits_iff _).mp hdigits).1
  have hall : (Decimal.digits e.natAbs).all Char.isDigit = true :=
    List.all_eq_true.2 (isDigit_of_isDigits hdigits)
  have hvalue : digitsValue? 10 0 (Decimal.digits e.natAbs) = some e.natAbs :=
    digitsValue?_toDigits (by decide) (by decide) _
  have hsplit := splitSign_append hhead (decide (e < 0))
  rw [hsign]
  simp only [exponent?, true_or, if_true, hsplit, hempty, hall, Bool.not_true, Bool.or_self,
    Bool.false_eq_true, if_false, hvalue]
  by_cases hneg : e < 0
  · simp [hneg, Int.ofNat_natAbs_of_nonpos hneg.le]
  · simp [hneg, Int.natAbs_of_nonneg (Int.not_lt.1 hneg)]

end ObjectText

/-! ## The two forms of a literal -/

namespace Shading

/-- Digits, a point and digits. -/
def IsPlain (cs : List Char) : Prop :=
  ∃ whole fraction, cs = whole ++ '.' :: fraction ∧ isDigits whole = true ∧ isDigits fraction = true

/-- One digit, a point and digits if there are more, and a whole exponent. -/
def IsScientific (cs : List Char) : Prop :=
  ∃ digit fraction sign exponent, cs = digit :: (fraction ++ 'e' :: (sign ++ exponent)) ∧
    digit.isDigit = true ∧ (fraction = [] ∨ ∃ more, fraction = '.' :: more ∧ isDigits more = true) ∧
    (sign = [] ∨ sign = ['-']) ∧ isDigits exponent = true

theorem isPlain_plain (d : Decimal) :
    IsPlain (Layout.plain (Decimal.digits d.coefficient) d.point) := by
  have hliteral := Layout.isLiteral_plain (Decimal.isDigits_digits d.coefficient) d.point
  obtain ⟨whole, fraction, _, htext, hne, hdigits, _⟩ := ObjectText.plain_eq d
  obtain ⟨hwhole, hfraction⟩ := List.forall_mem_append.1 hdigits
  have hpoint : ∀ c, ('.' :: fraction).head? = some c → c.isDigit = false :=
    not_isDigit_head (by decide) rfl
  obtain ⟨htake, hdrop⟩ := takeWhile_digits hwhole hpoint
  -- there is a digit behind the point because the text is a literal
  rw [htext, isLiteral, htake, hdrop, Bool.and_eq_true] at hliteral
  have hmore : isDigits (fraction.takeWhile Char.isDigit) = true :=
    ((Bool.and_eq_true _ _).mp hliteral.2).1
  rw [List.takeWhile_eq_self_iff.2 hfraction] at hmore
  exact ⟨whole, fraction, htext, hliteral.1, hmore⟩

theorem decimal?_plain (d : Decimal) :
    ∃ e, ObjectText.decimal? (Layout.plain (Decimal.digits d.coefficient) d.point) = some e ∧
      e.value = d.value := by
  obtain ⟨whole, fraction, c, htext, hne, hdigits, hvalue, hsame⟩ := ObjectText.plain_eq d
  exact ⟨_, htext ▸ ObjectText.decimal?_digits hne hdigits hvalue, hsame⟩

theorem exists_first_digit (n : Nat) : ∃ first more, Decimal.digits n = first :: more ∧
    first.isDigit = true ∧ (more = [] ∨ isDigits more = true) := by
  obtain ⟨hne, hall⟩ := (isDigits_iff _).mp (Decimal.isDigits_digits n)
  obtain ⟨first, more, hcons⟩ := List.exists_cons_of_ne_nil hne
  rw [hcons, List.forall_mem_cons] at hall
  refine ⟨first, more, hcons, hall.1, ?_⟩
  by_cases hmore : more = []
  · exact .inl hmore
  · exact .inr ((isDigits_iff more).mpr ⟨hmore, hall.2⟩)

/-- The first digit stands alone before the point. -/
theorem scientific_cons (layout : Layout) (first : Char) (more : List Char) (point : Int) :
    layout.scientific (first :: more) point =
      first :: ((if more.isEmpty then [] else '.' :: more) ++ layout.exponent (point - 1)) := by
  simp [Layout.scientific]

theorem isScientific_scientific {layout : Layout} (hplus : layout.plusSign = false) (d : Decimal) :
    IsScientific (layout.scientific (Decimal.digits d.coefficient) d.point) := by
  obtain ⟨first, more, hcons, hfirst, hmore⟩ := exists_first_digit d.coefficient
  rw [hcons, scientific_cons]
  refine ⟨first, if more.isEmpty then [] else '.' :: more,
    if d.point - 1 < 0 then ['-'] else [], Decimal.digits (d.point - 1).natAbs, ?_, hfirst, ?_, ?_,
    Decimal.isDigits_digits _⟩
  · simp [Layout.exponent, hplus]
  · rcases hmore with rfl | hmore
    · exact .inl rfl
    · rw [if_neg (by simpa [List.isEmpty_iff] using ((isDigits_iff more).mp hmore).1)]
      exact .inr ⟨more, rfl, hmore⟩
  · split
    · exact .inr rfl
    · exact .inl rfl

theorem decimal?_scientific {layout : Layout} (hplus : layout.plusSign = false) (d : Decimal) :
    ObjectText.decimal? (layout.scientific (Decimal.digits d.coefficient) d.point) = some d := by
  have hvalue : ObjectText.digitsValue? 10 0 (Decimal.digits d.coefficient) = some d.coefficient :=
    ObjectText.digitsValue?_toDigits (by decide) (by decide) _
  have hpoint : d.point = d.exponent + (Decimal.digits d.coefficient).length := rfl
  have hexponent := ObjectText.exponent?_exponent hplus (d.point - 1)
  obtain ⟨first, more, hcons, hfirst, hmore⟩ := exists_first_digit d.coefficient
  rw [hcons] at hvalue hpoint ⊢
  rw [List.length_cons] at hpoint
  rw [scientific_cons]
  rcases hmore with rfl | hmore
  · -- a single digit has no point behind it, and the exponent is its own
    have hlast : d.point - 1 = d.exponent := by
      rw [hpoint, List.length_nil]
      omega
    have hone : isDigits [first] = true := by simp [isDigits, hfirst]
    exact (ObjectText.decimal?_whole hone rfl hvalue hexponent).trans (by rw [hlast])
  · -- the digits behind the point are counted off the exponent again
    have hhead : ∀ c, (layout.exponent (d.point - 1)).head? = some c → c.isDigit = false :=
      not_isDigit_head (by decide) rfl
    have hlast : d.point - 1 - (more.length : Nat) = d.exponent := by omega
    obtain ⟨hne, hmore⟩ := (isDigits_iff more).mp hmore
    have hdigits : ∀ c ∈ [first] ++ more, c.isDigit = true := List.forall_mem_cons.2 ⟨hfirst, hmore⟩
    rw [if_neg (by simpa [List.isEmpty_iff] using hne)]
    exact (ObjectText.decimal?_fraction (by simp) hdigits hhead hvalue hexponent).trans
      (by rw [hlast])

theorem IsScientific.not_isPlain {cs : List Char} (h : IsScientific cs) : ¬ IsPlain cs := by
  rintro ⟨whole, fraction, rfl, hwhole, hfraction⟩
  obtain ⟨digit, front, sign, exponent, heq, _⟩ := h
  -- the exponent has no place among digits and a point
  have hmem : 'e' ∈ whole ++ '.' :: fraction := by simp [heq]
  rcases List.mem_append.1 hmem with hmem | hmem
  · exact absurd (ObjectText.isDigit_of_isDigits hwhole _ hmem) (by decide)
  · rcases List.mem_cons.1 hmem with hmem | hmem
    · exact absurd hmem (by decide)
    · exact absurd (ObjectText.isDigit_of_isDigits hfraction _ hmem) (by decide)

/-- Either form begins with a digit, and has a point or an exponent in it. -/
theorem isForm_chars {cs : List Char} (h : IsPlain cs ∨ IsScientific cs) :
    (∀ c ∈ cs, c ∈ ['.', 'e', '-'] ∨ c.isDigit = true) ∧ (∀ c ∈ cs.head?, c.isDigit = true) ∧
      ('.' ∈ cs ∨ 'e' ∈ cs) := by
  rcases h with ⟨whole, fraction, rfl, hwhole, hfraction⟩ |
    ⟨digit, front, sign, exponent, rfl, hdigit, hfront, hsign, hexponent⟩
  · obtain ⟨hne, hwhole⟩ := (isDigits_iff whole).mp hwhole
    have hfraction := ObjectText.isDigit_of_isDigits hfraction
    refine ⟨?_, ?_, .inl (by simp)⟩
    · simp only [List.forall_mem_append, List.forall_mem_cons]
      exact ⟨fun c hc => .inr (hwhole c hc), .inl (by decide), fun c hc => .inr (hfraction c hc)⟩
    · intro c hc
      rw [List.head?_append_of_ne_nil _ hne] at hc
      exact hwhole c (List.mem_of_mem_head? hc)
  · have hexponent := ObjectText.isDigit_of_isDigits hexponent
    refine ⟨?_, ?_, .inr (by simp)⟩
    · simp only [List.forall_mem_append, List.forall_mem_cons]
      refine ⟨.inr hdigit, ?_, .inl (by decide), ?_, fun c hc => .inr (hexponent c hc)⟩
      · rcases hfront with rfl | ⟨more, rfl, hmore⟩
        · simp
        · have hmore := ObjectText.isDigit_of_isDigits hmore
          simp only [List.forall_mem_cons]
          exact ⟨.inl (by decide), fun c hc => .inr (hmore c hc)⟩
      · rcases hsign with rfl | rfl <;> simp
    · intro c hc
      obtain rfl := Option.some.inj hc
      exact hdigit

/-! ## Which form is taken -/

end Shading

namespace Decimal

/-- The point stands behind a power of ten that is not greater than the decimal. -/
theorem lt_point_iff {d : Decimal} (hne : d.coefficient ≠ 0) (k : Int) :
    k < d.point ↔ value ⟨1, k⟩ ≤ d.value := by
  have hten : value ⟨1, k⟩ = 10 ^ k := by rw [value, Nat.cast_one, one_mul]
  rw [hten]
  constructor
  · intro hlt
    calc (10 : ℚ) ^ k ≤ 10 ^ (d.point - 1) := zpow_le_zpow_right₀ (by norm_num) (by omega)
      _ ≤ d.value := le_value hne
  · intro hle
    by_contra hge
    have hpow : (10 : ℚ) ^ d.point ≤ 10 ^ k := zpow_le_zpow_right₀ (by norm_num) (by omega)
    exact absurd (d.value_lt.trans_le hpow) (not_lt.2 hle)

theorem coefficient_shortest_ne_zero (tie : Tie) {code : Nat} (hpos : 0 < code) :
    (shortest tie code).coefficient ≠ 0 := by
  intro hzero
  have hvalue := (rounds_shortest tie hpos).one_le hpos
  rw [(value_eq_zero_iff _).2 hzero] at hvalue
  norm_num at hvalue

/-- Magnitudes are ordered as their shortest decimals. -/
theorem value_shortest_le_iff (tie : Tie) {code code' : Nat} (hpos : 0 < code) (hpos' : 0 < code') :
    (shortest tie code).value ≤ (shortest tie code').value ↔ code ≤ code' := by
  have hle : ∀ {code code' : Nat}, 0 < code → 0 < code' →
      (shortest tie code).value ≤ (shortest tie code').value → code ≤ code' := by
    intro code code' hpos hpos' h
    refine (rounds_shortest tie hpos).le_of_le (rounds_shortest tie hpos') ?_
    exact mul_le_mul_of_nonneg_right h (by positivity)
  refine ⟨hle hpos hpos', fun h => ?_⟩
  -- decimals in the other order would be those of one magnitude
  by_contra hlt
  obtain rfl : code = code' := Nat.le_antisymm h (hle hpos' hpos (not_le.1 hlt).le)
  exact hlt le_rfl

/-- The powers of ten where the form changes are the shortest decimals of the magnitudes nearest to
them, although neither is a magnitude itself. -/
theorem shortest_form_bounds : shortest .up (nearestCode ⟨1, -4⟩) = ⟨1, -4⟩ ∧
    shortest .up (nearestCode ⟨1, 16⟩) = ⟨1, 16⟩ ∧ 0 < nearestCode ⟨1, -4⟩ ∧
    0 < nearestCode ⟨1, 16⟩ := by
  decide +kernel

end Decimal

namespace Shading

/-- The codes whose magnitude is zero, or from `10 ^ -4` to below `10 ^ 16` as these are rounded. -/
def TakesPlain (code : Nat) : Prop :=
  code = 0 ∨ Decimal.nearestCode ⟨1, -4⟩ ≤ code ∧ code < Decimal.nearestCode ⟨1, 16⟩

theorem isPlain_point_iff {code : Nat} (hpos : 0 < code) :
    literalLayout.isPlain (Decimal.shortest .up code).point = true ↔ TakesPlain code := by
  obtain ⟨hlow, hhigh, hlow_pos, hhigh_pos⟩ := Decimal.shortest_form_bounds
  have hne := Decimal.coefficient_shortest_ne_zero .up hpos
  calc literalLayout.isPlain (Decimal.shortest .up code).point = true
      ↔ -3 ≤ (Decimal.shortest .up code).point ∧ (Decimal.shortest .up code).point ≤ 16 :=
        decide_eq_true_iff
    _ ↔ -4 < (Decimal.shortest .up code).point ∧ ¬ 16 < (Decimal.shortest .up code).point := by omega
    _ ↔ Decimal.nearestCode ⟨1, -4⟩ ≤ code ∧ ¬ Decimal.nearestCode ⟨1, 16⟩ ≤ code := by
        rw [Decimal.lt_point_iff hne, Decimal.lt_point_iff hne, ← hlow, ← hhigh,
          Decimal.value_shortest_le_iff .up hlow_pos hpos,
          Decimal.value_shortest_le_iff .up hhigh_pos hpos, hlow, hhigh]
    _ ↔ TakesPlain code := by
        rw [TakesPlain, Nat.not_le, or_iff_right hpos.ne']

theorem magnitude_of_pos {code : Nat} (hpos : 0 < code) :
    literalLayout.magnitude code = literalLayout.decimal (Decimal.shortest .up code) := by
  rw [Layout.magnitude, if_neg hpos.ne']
  rfl

theorem magnitude_form (code : Nat) :
    (TakesPlain code ∧ IsPlain (literalLayout.magnitude code)) ∨
      (¬ TakesPlain code ∧ IsScientific (literalLayout.magnitude code)) := by
  rcases Nat.eq_zero_or_pos code with rfl | hpos
  · exact .inl ⟨.inl rfl, ['0'], ['0'], rfl, rfl, rfl⟩
  · rw [magnitude_of_pos hpos, Layout.decimal]
    by_cases hplain : literalLayout.isPlain (Decimal.shortest .up code).point = true
    · rw [if_pos hplain]
      exact .inl ⟨(isPlain_point_iff hpos).1 hplain, isPlain_plain _⟩
    · rw [if_neg hplain]
      exact .inr ⟨fun h => hplain ((isPlain_point_iff hpos).2 h), isScientific_scientific rfl _⟩

/-! ## What a literal reads as -/

theorem decimal?_decimal {layout : Layout} (hplus : layout.plusSign = false) (d : Decimal) :
    ∃ e, ObjectText.decimal? (layout.decimal d) = some e ∧ e.value = d.value := by
  unfold Layout.decimal
  split
  · exact decimal?_plain d
  · exact ⟨d, decimal?_scientific hplus d, rfl⟩

/-- The decimal of a magnitude rounds to it, with the fewest digits. -/
theorem exists_decimal_magnitude {code : Nat} (hfinite : code < Binary32.infinityCode) :
    ∃ d, ObjectText.decimal? (literalLayout.magnitude code) = some d ∧ d.nearestCode = code ∧
      Binary32.Rounds code (d.value * 2 ^ 149) ∧
      ∀ other : Decimal, Binary32.Rounds code (other.value * 2 ^ 149) →
        d.significant ≤ other.significant := by
  rcases Nat.eq_zero_or_pos code with rfl | hpos
  · have hzero : Decimal.value ⟨0, -1⟩ = 0 := (Decimal.value_eq_zero_iff _).2 rfl
    refine ⟨⟨0, -1⟩, rfl, rfl, ?_, fun other _ => ?_⟩
    · rw [hzero, zero_mul]
      exact Binary32.Rounds.zero
    · rw [Decimal.significant_zero]
      exact Nat.zero_le _
  · have hrounds := Decimal.rounds_shortest .up hpos
    have hplus : literalLayout.plusSign = false := rfl
    obtain ⟨d, hd, hvalue⟩ := decimal?_decimal hplus (Decimal.shortest .up code)
    rw [← hvalue] at hrounds
    refine ⟨d, ?_, Decimal.nearestCode_eq hpos hfinite hrounds, hrounds, fun other hother => ?_⟩
    · rw [magnitude_of_pos hpos, hd]
    · rw [Decimal.significant_congr hvalue]
      exact Decimal.significant_shortest_le .up hpos hother

/-- The text of a number is a sign and a decimal that says exactly which number it is. -/
structure Exact (x : Binary32) (text : String) (body : List Char) (d : Decimal) : Prop where
  /-- There is a minus sign if and only if the sign bit is set. -/
  sign : text.toList = (if x.negative then ['-'] else []) ++ body
  form : IsPlain body ∨ IsScientific body
  plain : IsPlain body ↔ TakesPlain x.code
  marked : '.' ∈ body ∨ 'e' ∈ body
  reads : ObjectText.decimal? body = some d
  /-- The decimal rounds to the magnitude of the number and to no other one. -/
  nearest : ∀ code, Binary32.IsNearest code d.value ↔ code = x.code
  fewest : ∀ other : Decimal, Binary32.IsNearest x.code other.value →
    d.significant ≤ other.significant
  /-- With its sign, the text is read as the bits of the number. -/
  bits : ObjectText.number? text.toList = some x

theorem exact_of_isFinite {x : Binary32} (h : x.isFinite = true) :
    ∃ d, Exact x (literalLayout.finite x) (literalLayout.magnitude x.code) d := by
  have hfinite : x.code < Binary32.infinityCode := by simpa [Binary32.isFinite] using h
  have hform : IsPlain (literalLayout.magnitude x.code) ∨
      IsScientific (literalLayout.magnitude x.code) :=
    (magnitude_form x.code).imp And.right And.right
  have hsign : (literalLayout.finite x).toList =
      (if x.negative then ['-'] else []) ++ literalLayout.magnitude x.code := by
    rw [Layout.finite, String.toList_ofList]
  obtain ⟨hchars, hhead, hmarked⟩ := isForm_chars hform
  obtain ⟨d, hreads, hcode, hrounds, hfewest⟩ := exists_decimal_magnitude hfinite
  -- from here on distances to magnitudes are compared by midpoints
  refine ⟨d, hsign, hform, ?_, hmarked, hreads, ?_, ?_, ?_⟩
  · rcases magnitude_form x.code with ⟨htakes, hplain⟩ | ⟨htakes, hscientific⟩
    · exact iff_of_true hplain htakes
    · exact iff_of_false hscientific.not_isPlain htakes
  · intro code
    rw [Binary32.isNearest_iff_rounds d.value_nonneg]
    constructor
    · exact fun hother => hother.unique hrounds
    · rintro rfl
      exact hrounds
  · intro other hother
    exact hfewest other ((Binary32.isNearest_iff_rounds other.value_nonneg _).1 hother)
  · rw [hsign]
    exact ObjectText.number?_of_decimal? hchars hhead hreads hcode

/-- Exactly the finite numbers have a literal. It is a decimal that rounds to the number it was
written for, none with fewer digits does, and it is the literal of no other number. -/
theorem literal_exact (x : Binary32) :
    (literal? x = none ↔ x.isNaN = true ∨ x.code = Binary32.infinityCode) ∧
    ∀ text, literal? x = some text →
      (∃ body d, Exact x text body d) ∧ ∀ y, literal? y = some text → y = x := by
  have hexact : ∀ {z text}, literal? z = some text → ∃ body d, Exact z text body d := by
    intro z text h
    unfold literal? at h
    split at h
    next hfinite =>
      obtain rfl := Option.some.inj h
      exact ⟨_, exact_of_isFinite hfinite⟩
    next => cases h
  refine ⟨?_, fun text htext => ⟨hexact htext, fun y hy => ?_⟩⟩
  · simp only [literal?, Binary32.isFinite, Binary32.isNaN, decide_eq_true_eq, ite_eq_right_iff,
      reduceCtorEq, imp_false]
    omega
  · -- both are what the text is read as
    obtain ⟨_, _, hx⟩ := hexact htext
    obtain ⟨_, _, hy⟩ := hexact hy
    exact Option.some.inj (hy.bits.symm.trans hx.bits)

/-- The negative number next to zero, whose neighbours are as far from it as it is from zero. -/
theorem literal_exact_least : literal? ⟨0x80000001⟩ = some "-1e-45" ∧
    (∃ body d, Exact ⟨0x80000001⟩ "-1e-45" body d) ∧
    ∀ y, literal? y = some "-1e-45" → y = ⟨0x80000001⟩ := by
  have htext : literal? ⟨0x80000001⟩ = some "-1e-45" := by decide +kernel
  exact ⟨htext, (literal_exact ⟨0x80000001⟩).2 _ htext⟩

end Shading

end NoiseShader
