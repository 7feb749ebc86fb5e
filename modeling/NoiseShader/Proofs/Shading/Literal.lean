import NoiseShader.Proofs.Shading.Token

set_option autoImplicit false

/-! # The text of numbers

Every finite number is written as a literal of the shading language, with a minus sign in front
of it if the number has its sign bit set (`Shading.literal?_eq_some`).
-/

namespace NoiseShader

open Shading Token

theorem Decimal.isDigits_digits (n : Nat) : isDigits (Decimal.digits n) = true := by
  rw [isDigits_iff]
  exact ⟨Nat.toDigits_ne_nil, fun c hc => Nat.isDigit_of_mem_toDigits (by decide) (by decide) hc⟩

namespace Layout

/-! ## Runs of digits -/

theorem isDigits_append {xs ys : List Char} (hne : xs ≠ [] ∨ ys ≠ [])
    (hxs : ∀ c ∈ xs, c.isDigit = true) (hys : ∀ c ∈ ys, c.isDigit = true) :
    isDigits (xs ++ ys) = true := by
  rw [isDigits_iff]
  refine ⟨?_, ?_⟩
  · intro hnil
    obtain ⟨hx, hy⟩ := List.append_eq_nil_iff.mp hnil
    exact hne.elim (· hx) (· hy)
  · intro c hc
    rcases List.mem_append.mp hc with hc | hc
    · exact hxs c hc
    · exact hys c hc

theorem isDigit_of_mem_zeros {count : Nat} : ∀ c ∈ List.replicate count '0', c.isDigit = true := by
  intro c hc
  obtain ⟨_, rfl⟩ := List.mem_replicate.mp hc
  decide

theorem take_ne_nil {digits : List Char} (h : digits ≠ []) {count : Nat} (hcount : 0 < count) :
    digits.take count ≠ [] := by
  rw [Ne, List.take_eq_nil_iff]
  rintro (hzero | hnil)
  · omega
  · exact h hnil

/-- Digits that are left over are digits. -/
theorem isDigits_drop {digits : List Char} (h : isDigits digits = true) {count : Nat}
    (hrest : ¬ (digits.drop count).isEmpty = true) : isDigits (digits.drop count) = true := by
  rw [isDigits_iff] at *
  refine ⟨?_, fun c hc => h.2 c (List.mem_of_mem_drop hc)⟩
  rwa [List.isEmpty_iff] at hrest

/-! ## Layouts -/

theorem isLiteral_plain {digits : List Char} (h : isDigits digits = true) (point : Int) :
    isLiteral (plain digits point) = true := by
  obtain ⟨hne, hdigits⟩ := (isDigits_iff digits).mp h
  unfold plain
  split
  · -- all digits stand behind the point, after zeros
    have hfraction : isDigits (List.replicate (-point).toNat '0' ++ digits) = true :=
      isDigits_append (.inr hne) isDigit_of_mem_zeros hdigits
    have hwhole : isDigits ['0'] = true := rfl
    simpa using isLiteral_of_fraction hwhole hfraction (.inl rfl)
  · next hpoint =>
      have hwhole : isDigits (digits.take point.toNat ++
          List.replicate (point.toNat - digits.length) '0') = true := by
        refine isDigits_append (.inl (take_ne_nil hne (by omega))) ?_ isDigit_of_mem_zeros
        exact fun c hc => hdigits c (List.mem_of_mem_take hc)
      have hfraction : isDigits (if (digits.drop point.toNat).isEmpty then ['0']
          else digits.drop point.toNat) = true := by
        split
        · rfl
        · next hrest => exact isDigits_drop h hrest
      simpa using isLiteral_of_fraction hwhole hfraction (.inl rfl)

/-- Without a sign, the first digit is not taken for one. -/
theorem isExponent_unsigned {digits : List Char} (h : isDigits digits = true) :
    isExponent ('e' :: digits) = true := by
  have hdigits := ((isDigits_iff digits).mp h).2
  unfold isExponent
  split
  · next rest heq =>
      obtain rfl := (List.cons.inj heq).2
      exact absurd (hdigits '-' List.mem_cons_self) (by decide)
  · next rest heq =>
      obtain rfl := (List.cons.inj heq).2
      exact absurd (hdigits '+' List.mem_cons_self) (by decide)
  · next heq =>
      obtain rfl := (List.cons.inj heq).2
      exact h
  · next hother => exact absurd rfl (hother digits)

theorem isExponent_exponent (layout : Layout) (e : Int) :
    isExponent (layout.exponent e) = true := by
  have hdigits := Decimal.isDigits_digits e.natAbs
  unfold exponent
  split
  · exact hdigits
  · split
    · exact hdigits
    · exact isExponent_unsigned hdigits

theorem isLiteral_scientific (layout : Layout) {digits : List Char} (h : isDigits digits = true)
    (point : Int) : isLiteral (layout.scientific digits point) = true := by
  obtain ⟨hne, hdigits⟩ := (isDigits_iff digits).mp h
  have hexponent := isExponent_exponent layout (point - 1)
  have hwhole : isDigits (digits.take 1) = true := by
    rw [isDigits_iff]
    exact ⟨take_ne_nil hne Nat.one_pos, fun c hc => hdigits c (List.mem_of_mem_take hc)⟩
  show isLiteral (digits.take 1 ++
    (if (digits.drop 1).isEmpty then [] else '.' :: digits.drop 1) ++ layout.exponent _) = true
  split
  · simpa using isLiteral_of_exponent hwhole hexponent
  · next hrest =>
      simpa using isLiteral_of_fraction hwhole (isDigits_drop h hrest) (.inr hexponent)

/-- Magnitudes are written as literals in every layout. -/
theorem isLiteral_magnitude (layout : Layout) (code : Nat) :
    isLiteral (layout.magnitude code) = true := by
  unfold magnitude
  split
  · decide
  · unfold decimal
    have hdigits := Decimal.isDigits_digits (Decimal.shortest layout.tie code).coefficient
    split
    · exact isLiteral_plain hdigits _
    · exact isLiteral_scientific layout hdigits _

end Layout

/-- The literal of a number is that of its magnitude, behind a minus sign if there is one. -/
theorem Shading.literal?_eq_some {x : Binary32} {text : String} (h : literal? x = some text) :
    x.isFinite = true ∧
      text.toList = (if x.negative then ['-'] else []) ++ literalLayout.magnitude x.code := by
  unfold literal? at h
  split at h
  · next hfinite =>
      obtain rfl := Option.some.inj h
      exact ⟨hfinite, by rw [Layout.finite, String.toList_ofList]⟩
  · cases h

end NoiseShader
