import NoiseShader.Proofs.Decimal.Shortest
import Mathlib.Data.Nat.Digits.Lemmas
import Mathlib.Data.Nat.Factorization.Basic

set_option autoImplicit false

/-! # No decimal with fewer digits reads back

The digits of a decimal that count are those from the first to the last that is not zero. If
a decimal rounds to a magnitude, then so does one of the two neighbours of the magnitude on the grid
that the decimal stands on (`Decimal.isSome_onGrid_of_rounds`). The shortest decimal comes from the
coarsest grid with such a neighbour, so it has the fewest digits
(`Decimal.significant_shortest_le`).
-/

namespace NoiseShader

namespace Decimal

/-! ## Digits that count -/

/-- The number of digits from the first to the last that is not zero. -/
def significant (d : Decimal) : Nat :=
  ((Nat.digits 10 d.coefficient).dropWhile fun digit => digit == 0).length

/-- Zeros at the end of the coefficient do not count. -/
theorem significant_of_trailing {k m : Nat} (hm : ¬ 10 ∣ m) (e : Int) :
    significant ⟨10 ^ k * m, e⟩ = (Nat.digits 10 m).length := by
  have hpos : 0 < m := Nat.pos_of_ne_zero fun h => hm (h ▸ dvd_zero 10)
  have hdigits : Nat.digits 10 m = m % 10 :: Nat.digits 10 (m / 10) :=
    Nat.digits_eq_cons_digits_div (by decide) hpos.ne'
  have hlast : ¬ ((m % 10 == 0) = true) := by simpa [Nat.dvd_iff_mod_eq_zero] using hm
  have hzeros : ∀ c ∈ List.replicate k 0, (c == 0) = true := by
    intro c hc
    rw [(List.mem_replicate.1 hc).2]
    rfl
  rw [significant, Nat.digits_base_pow_mul (by decide) hpos, List.dropWhile_append_of_pos hzeros,
    hdigits, List.dropWhile_cons, if_neg hlast]

/-- Without the zeros at its end, a coefficient has the digits that count. -/
theorem exists_significant {d : Decimal} (h : d.coefficient ≠ 0) :
    ∃ (m : Nat) (e : Int), ¬ 10 ∣ m ∧ d.value = m * 10 ^ e ∧
      d.significant = (Nat.digits 10 m).length := by
  obtain ⟨c, e⟩ := d
  obtain ⟨k, m, hm, rfl⟩ := Nat.exists_eq_pow_mul_and_not_dvd h 10 (by decide)
  refine ⟨m, e + k, hm, ?_, significant_of_trailing hm e⟩
  rw [value, zpow_add₀ (by norm_num), zpow_natCast]
  push_cast
  ring

/-- Of two coefficients of one value, that of the finer grid has more zeros at its end. -/
theorem eq_mul_pow_of_value_eq {m c k : Nat} {e : Int}
    (h : (m : ℚ) * 10 ^ (e + k) = c * 10 ^ e) : c = m * 10 ^ k := by
  have hpos : (10 : ℚ) ^ e ≠ 0 := zpow_ne_zero _ (by norm_num)
  have hc : (c : ℚ) = m * 10 ^ k := by
    refine mul_right_cancel₀ hpos ?_
    rw [← h, zpow_add₀ (by norm_num), zpow_natCast]
    ring
  exact_mod_cast hc

/-- A coefficient that does not end with zero is the least for its value. -/
theorem le_of_value_eq {m c : Nat} {f e : Int} (hm : ¬ 10 ∣ m)
    (h : (m : ℚ) * 10 ^ f = c * 10 ^ e) : m ≤ c := by
  rcases le_total e f with hle | hge
  · obtain ⟨k, rfl⟩ := Int.le.dest hle
    rw [eq_mul_pow_of_value_eq h]
    exact Nat.le_mul_of_pos_right m (Nat.pow_pos (by decide))
  · obtain ⟨k, rfl⟩ := Int.le.dest hge
    have hm_eq := eq_mul_pow_of_value_eq h.symm
    -- no zeros can be left over on this side
    cases k with
    | zero => rw [hm_eq, Nat.pow_zero, Nat.mul_one]
    | succ k =>
        refine absurd ⟨c * 10 ^ k, ?_⟩ hm
        rw [hm_eq, Nat.pow_succ]
        ring

theorem value_eq_zero_iff (d : Decimal) : d.value = 0 ↔ d.coefficient = 0 := by
  rw [value, mul_eq_zero, Nat.cast_eq_zero]
  exact or_iff_left (zpow_ne_zero _ (by norm_num))

theorem significant_zero (e : Int) : significant ⟨0, e⟩ = 0 := by
  rw [significant, Nat.digits_zero]
  rfl

/-- However a number is written, it takes at least its digits that count. -/
theorem significant_le {d : Decimal} {c n : Nat} {e : Int} (hvalue : d.value = c * 10 ^ e)
    (hc : c < 10 ^ n) : d.significant ≤ n := by
  by_cases hzero : d.coefficient = 0
  · obtain ⟨_, f⟩ := d
    obtain rfl : _ = 0 := hzero
    rw [significant_zero]
    exact Nat.zero_le n
  · obtain ⟨m, f, hm, hm_value, hcount⟩ := exists_significant hzero
    have hle : m ≤ c := le_of_value_eq hm (hm_value.symm.trans hvalue)
    rw [hcount, Nat.digits_length_le_iff (by decide)]
    exact Nat.lt_of_le_of_lt hle hc

/-- What counts depends on the value alone. -/
theorem significant_congr {d d' : Decimal} (h : d.value = d'.value) :
    d.significant = d'.significant := by
  have hle : ∀ {d d' : Decimal}, d.value = d'.value → d.significant ≤ d'.significant := by
    intro d d' h
    by_cases hzero : d'.coefficient = 0
    · rw [(value_eq_zero_iff d').2 hzero] at h
      refine significant_le (c := 0) (e := 0) ?_ (Nat.pow_pos (by decide))
      rw [h, Nat.cast_zero, zero_mul]
    · obtain ⟨m, f, _, hvalue, hcount⟩ := exists_significant hzero
      rw [hcount]
      exact significant_le (h.trans hvalue) (Nat.lt_base_pow_length_digits (by decide))
  exact Nat.le_antisymm (hle h) (hle h.symm)

/-! ## Neighbours on a grid -/

theorem value_le_value {c c' : Nat} (h : c ≤ c') (e : Int) : value ⟨c, e⟩ ≤ value ⟨c', e⟩ := by
  refine mul_le_mul_of_nonneg_right ?_ (zpow_nonneg (by norm_num) e)
  exact_mod_cast h

/-- Decimals of a grid and magnitudes are compared in steps. -/
theorem value_le_units_iff (c place code : Nat) :
    (value ⟨c, (place : Int) - finest⟩ * 2 ^ 149 ≤ Binary32.units code ↔
      c * gridStep place ≤ steps code) ∧
    (Binary32.units code ≤ value ⟨c, (place : Int) - finest⟩ * 2 ^ 149 ↔
      steps code ≤ c * gridStep place) := by
  have hten : (0 : ℚ) < 10 ^ 60 := by positivity
  have hsteps : (2 * Binary32.units code * 10 ^ 60 : ℚ) = (steps code : Nat) := by
    rw [show steps code = 2 * Binary32.units code * 10 ^ 60 from rfl]
    push_cast
    rfl
  constructor
  · rw [← mul_le_mul_iff_of_pos_left two_pos, ← mul_le_mul_iff_of_pos_right hten, value_onGrid, hsteps,
      Nat.cast_le]
  · rw [← mul_le_mul_iff_of_pos_left two_pos, ← mul_le_mul_iff_of_pos_right hten, value_onGrid, hsteps,
      Nat.cast_le]

theorem isSome_onGrid_iff (tie : Tie) (code place : Nat) : (onGrid tie code place).isSome = true ↔
    readsBack code (steps code / gridStep place * gridStep place) = true ∨
      readsBack code ((steps code / gridStep place + 1) * gridStep place) = true := by
  simp only [onGrid]
  cases readsBack code (steps code / gridStep place * gridStep place) <;>
    cases readsBack code ((steps code / gridStep place + 1) * gridStep place) <;> simp

theorem gridStep_pos (place : Nat) : 0 < gridStep place :=
  Nat.mul_pos (Nat.two_pow_pos _) (Nat.pow_pos (by decide))

/-- If any decimal of a grid rounds to the magnitude, then so does a neighbour of the magnitude: it
lies between the decimal and the magnitude, or is the decimal. -/
theorem isSome_onGrid_of_rounds (tie : Tie) {code c place : Nat} (hpos : 0 < code)
    (h : Binary32.Rounds code (value ⟨c, (place : Int) - finest⟩ * 2 ^ 149)) :
    (onGrid tie code place).isSome = true := by
  have hself := Binary32.Rounds.self hpos
  have hmono : ∀ {a b : Nat}, a ≤ b → value ⟨a, (place : Int) - finest⟩ * 2 ^ 149 ≤
      value ⟨b, (place : Int) - finest⟩ * 2 ^ 149 :=
    fun hab => mul_le_mul_of_nonneg_right (value_le_value hab _) (by positivity)
  rw [isSome_onGrid_iff, ← rounds_iff_readsBack, ← rounds_iff_readsBack]
  rcases Nat.lt_or_ge (steps code / gridStep place) c with hlt | hge
  · right
    have hupper : steps code ≤ (steps code / gridStep place + 1) * gridStep place := by
      rw [Nat.mul_comm]
      exact (Nat.lt_mul_div_succ _ (gridStep_pos place)).le
    exact hself.between h ((value_le_units_iff _ _ _).2.2 hupper) (hmono hlt)
  · left
    exact h.between hself (hmono hge) ((value_le_units_iff _ _ _).1.2 (Nat.div_mul_le_self _ _))

/-! ## The coarsest grid -/

theorem gridStep_add (place n : Nat) : gridStep (place + n) = 10 ^ n * gridStep place := by
  rw [show gridStep (place + n) = 2 ^ 150 * 10 ^ (place + n) from rfl,
    show gridStep place = 2 ^ 150 * 10 ^ place from rfl, Nat.pow_add]
  ring

theorem nine_lt_places_of_pos {code : Nat} (hpos : 0 < code) : 9 < places code := by
  obtain ⟨code, rfl⟩ := Nat.exists_eq_succ_of_ne_zero hpos.ne'
  exact nine_lt_places code

/-- The places of a magnitude are those of its whole part on the finest grid. -/
theorem places_bounds {code : Nat} (hpos : 0 < code) :
    gridStep (places code - 1) ≤ steps code ∧ steps code < gridStep (places code) := by
  have hnine := nine_lt_places_of_pos hpos
  have hzero := gridStep_pos 0
  constructor
  · rw [← Nat.zero_add (places code - 1), gridStep_add, ← Nat.le_div_iff_mul_le hzero,
      ← Nat.not_lt, ← Nat.length_toDigits_le_iff (by decide) (by omega)]
    exact Nat.not_le.2 (Nat.sub_lt (by omega) Nat.one_pos)
  · rw [← Nat.zero_add (places code), gridStep_add, ← Nat.div_lt_iff_lt_mul hzero,
      ← Nat.length_toDigits_le_iff (by decide) (by omega)]
    exact le_rfl

theorem onGrid_cases {tie : Tie} {code place c : Nat} (h : onGrid tie code place = some c) :
    c = steps code / gridStep place ∨ c = steps code / gridStep place + 1 := by
  simp only [onGrid] at h
  split at h
  · obtain rfl := Option.some.inj h
    split
    · exact .inr rfl
    · exact .inl rfl
  · split at h
    · exact .inl (Option.some.inj h).symm
    · split at h
      · exact .inr (Option.some.inj h).symm
      · cases h

/-- On the grid that has `n` places of the magnitude, candidates have `n` digits that count, or one. -/
theorem significant_onGrid {tie : Tie} {code n c : Nat} (hpos : 0 < code) (hn : n ≤ places code)
    (h : onGrid tie code (places code - n) = some c) (e : Int) : significant ⟨c, e⟩ ≤ max n 1 := by
  have hlower : steps code / gridStep (places code - n) < 10 ^ n := by
    rw [Nat.div_lt_iff_lt_mul (gridStep_pos _), ← gridStep_add, Nat.sub_add_cancel hn]
    exact (places_bounds hpos).2
  rcases Nat.lt_or_ge c (10 ^ n) with hlt | hge
  · exact (significant_le rfl hlt).trans (Nat.le_max_left n 1)
  · -- only the upper neighbour can be this power of ten
    have hc : c = 10 ^ n := by
      rcases onGrid_cases h with rfl | rfl <;> omega
    have hvalue : value ⟨c, e⟩ = (1 : Nat) * 10 ^ ((n : Int) + e) := by
      rw [value, hc, zpow_add₀ (by norm_num), zpow_natCast]
      push_cast
      ring
    exact (significant_le hvalue (by decide : 1 < 10 ^ 1)).trans (Nat.le_max_right n 1)

/-- The first grid with a candidate gives the shortest decimal. -/
theorem exists_coarsest {tie : Tie} {code k : Nat} (hk : k ≤ 9)
    (h : (onGrid tie code (places code - k)).isSome = true) :
    ∃ n ≤ k, ∃ c, onGrid tie code (places code - n) = some c ∧
      shortest tie code = ⟨c, ((places code - n : Nat) : Int) - finest⟩ := by
  obtain ⟨c, hc⟩ := Option.isSome_iff_exists.1 h
  simp only [shortest]
  split
  next coefficient place hfound =>
    obtain ⟨before, place', after, hgrids, hplace, hbefore⟩ := List.findSome?_eq_some_iff.1 hfound
    obtain ⟨c', hc', ⟨⟩⟩ := Option.map_eq_some_iff.1 hplace
    have hget : ∀ i, i < 10 → (before ++ place :: after)[i]? = some (places code - i) := by
      intro i hi
      rw [← hgrids, List.getElem?_map, List.getElem?_range hi]
      rfl
    have hlength : before.length < 10 := by
      have := congrArg List.length hgrids
      simp only [List.length_map, List.length_range, List.length_append, List.length_cons] at this
      omega
    have hhere : place = places code - before.length := by
      have := hget before.length hlength
      rw [List.getElem?_append_right le_rfl, Nat.sub_self] at this
      exact Option.some.inj this
    refine ⟨before.length, ?_, coefficient, hhere ▸ hc', by rw [hhere]⟩
    -- a grid before it would have given a candidate earlier
    by_contra hlt
    have hmem := hget k (by omega)
    rw [List.getElem?_append_left (by omega)] at hmem
    have := hbefore _ (List.mem_of_getElem? hmem)
    rw [hc] at this
    cases this
  next hnone =>
    have := List.findSome?_eq_none_iff.1 hnone _ (List.mem_map.2 ⟨k, List.mem_range.2 (by omega), rfl⟩)
    rw [hc] at this
    cases this

/-- Nine digits are always enough. -/
theorem significant_shortest_le_nine (tie : Tie) {code : Nat} (hpos : 0 < code) :
    (shortest tie code).significant ≤ 9 := by
  obtain ⟨code, rfl⟩ := Nat.exists_eq_succ_of_ne_zero hpos.ne'
  obtain ⟨n, hn, c, hc, hshortest⟩ := exists_coarsest le_rfl (isSome_onGrid tie (gridStep_nine_le code))
  have hplaces := nine_lt_places_of_pos hpos
  rw [hshortest]
  exact (significant_onGrid hpos (by omega) hc _).trans (max_le hn (by decide))

/-- A decimal with at most nine digits that rounds to the magnitude stands on a grid that has at most
as many places of the magnitude, or there is a power of ten that rounds to it as well. -/
theorem exists_grid_of_rounds (tie : Tie) {code c m : Nat} {e : Int} (hpos : 0 < code) (hm : 0 < m)
    (hnine : m ≤ 9) (hc : c < 10 ^ m) (h : Binary32.Rounds code (c * 10 ^ e * 2 ^ 149)) :
    ∃ n ≤ m, (onGrid tie code (places code - n)).isSome = true := by
  have hplaces := nine_lt_places_of_pos hpos
  rcases Int.lt_or_le (e + finest) ((places code - m : Nat) : Int) with hfine | hcoarse
  · -- the decimal is less than the power of ten that begins the places of the magnitude
    refine ⟨1, hm, isSome_onGrid_of_rounds tie (c := 1) hpos (h.between (.self hpos) ?_ ?_)⟩
    · refine mul_le_mul_of_nonneg_right ?_ (by positivity)
      calc (c : ℚ) * 10 ^ e ≤ 10 ^ m * 10 ^ e := by
            refine mul_le_mul_of_nonneg_right ?_ (by positivity)
            exact_mod_cast hc.le
        _ = 10 ^ ((m : Int) + e) := by rw [zpow_add₀ (by norm_num), zpow_natCast]
        _ ≤ 10 ^ (((places code - 1 : Nat) : Int) - finest) :=
            zpow_le_zpow_right₀ (by norm_num) (by omega)
        _ = value ⟨1, ((places code - 1 : Nat) : Int) - finest⟩ := by
            rw [value, Nat.cast_one, one_mul]
    · refine (value_le_units_iff _ _ _).1.2 ?_
      rw [Nat.one_mul]
      exact (places_bounds hpos).1
  · obtain ⟨k, hk⟩ := Int.le.dest hcoarse
    refine ⟨m, le_rfl, isSome_onGrid_of_rounds tie (c := c * 10 ^ k) hpos ?_⟩
    have hvalue : value ⟨c * 10 ^ k, ((places code - m : Nat) : Int) - finest⟩ = c * 10 ^ e := by
      have he : e = k + (((places code - m : Nat) : Int) - finest) := by omega
      rw [value, he, zpow_add₀ (by norm_num), zpow_natCast]
      push_cast
      ring
    rw [hvalue]
    exact h

/-- No decimal with fewer digits that count rounds to the magnitude. -/
theorem significant_shortest_le (tie : Tie) {code : Nat} (hpos : 0 < code) {d : Decimal}
    (h : Binary32.Rounds code (d.value * 2 ^ 149)) :
    (shortest tie code).significant ≤ d.significant := by
  have hne : d.coefficient ≠ 0 := by
    intro hzero
    have hvalue := h.one_le hpos
    rw [(value_eq_zero_iff d).2 hzero] at hvalue
    norm_num at hvalue
  obtain ⟨c, e, hc, hvalue, hcount⟩ := exists_significant hne
  have hlt : c < 10 ^ d.significant := hcount ▸ Nat.lt_base_pow_length_digits (by decide)
  have hsome : 0 < d.significant := by
    rw [hcount, List.length_pos_iff, Nat.digits_ne_nil_iff_ne_zero]
    rintro rfl
    exact hc (dvd_zero 10)
  rcases Nat.lt_or_ge 9 d.significant with hmany | hfew
  · exact (significant_shortest_le_nine tie hpos).trans hmany.le
  · rw [hvalue] at h
    obtain ⟨k, hk, hgrid⟩ := exists_grid_of_rounds tie hpos hsome hfew hlt h
    obtain ⟨n, hn, c', hc', hshortest⟩ := exists_coarsest (hk.trans hfew) hgrid
    have hplaces := nine_lt_places_of_pos hpos
    rw [hshortest]
    exact (significant_onGrid hpos (by omega) hc' _).trans (max_le (hn.trans hk) hsome)

end Decimal

end NoiseShader
