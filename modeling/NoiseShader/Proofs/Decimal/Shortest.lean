import NoiseShader.Decimal.Shortest
import NoiseShader.Proofs.Decimal.Nearest

set_option autoImplicit false

/-! # The shortest digits read back

Whatever `Decimal.onGrid` finds reads back, and on the grid of nine places it finds something: there
the width of the grid is less than the distance of the magnitude from its lower neighbour. So
the shortest decimal of a magnitude rounds to that magnitude (`Decimal.rounds_shortest`).
-/

namespace NoiseShader

/-- The distance between a magnitude and its lower neighbour keeps 24 bits of the magnitude. -/
theorem Binary32.units_succ_le (code : Nat) :
    units (code + 1) ≤ 2 ^ 24 * (units (code + 1) - units code) := by
  obtain ⟨e, m, rfl, hm, hlt⟩ := exists_block code
  have hsucc : units (e * blockSize + (m + 1)) = (m + 1) * 2 ^ e :=
    units_block (hm.imp_right (by omega)) hlt
  have hsize : 2 * blockSize = 2 ^ 24 := by decide
  rw [Nat.add_assoc, hsucc, units_block hm hlt.le, ← Nat.sub_mul, Nat.add_sub_cancel_left,
    Nat.one_mul]
  exact Nat.mul_le_mul_right _ (hsize ▸ hlt)

namespace Decimal

theorem readsBack_iff (code s : Nat) : readsBack code s = true ↔
    (Binary32.units (code - 1) + Binary32.units code) * 10 ^ 60 ≤ s ∧
    s ≤ (Binary32.units code + Binary32.units (code + 1)) * 10 ^ 60 ∧
    (code % 2 = 1 → (Binary32.units (code - 1) + Binary32.units code) * 10 ^ 60 < s ∧
      s < (Binary32.units code + Binary32.units (code + 1)) * 10 ^ 60) := by
  rw [show 10 ^ 60 = Nat.pow 10 finest from rfl]
  simp only [readsBack]
  split <;> simp only [decide_eq_true_eq] <;> omega

/-- A decimal of a grid in steps. -/
theorem value_onGrid (c place : Nat) :
    2 * (value ⟨c, (place : Int) - finest⟩ * 2 ^ 149) * 10 ^ 60 = ((c * gridStep place : Nat) : ℚ) := by
  have hscale : (10 : ℚ) ^ ((place : Int) - finest) * 10 ^ 60 = 10 ^ place := by
    rw [← zpow_natCast 10 60, ← zpow_natCast 10 place, ← zpow_add₀ (by norm_num)]
    exact congrArg _ (Int.sub_add_cancel _ _)
  rw [show gridStep place = 2 ^ 150 * 10 ^ place from rfl]
  push_cast
  rw [← hscale, value]
  ring

theorem rounds_iff_readsBack (code c place : Nat) :
    Binary32.Rounds code (value ⟨c, (place : Int) - finest⟩ * 2 ^ 149) ↔
      readsBack code (c * gridStep place) = true := by
  have hten : (0 : ℚ) < 10 ^ 60 := by positivity
  have hle : ∀ n : Nat, (n : ℚ) ≤ 2 * (value ⟨c, (place : Int) - finest⟩ * 2 ^ 149) ↔
      n * 10 ^ 60 ≤ c * gridStep place := by
    intro n
    rw [← mul_le_mul_iff_of_pos_right hten, value_onGrid]
    exact_mod_cast Iff.rfl
  have hge : ∀ n : Nat, 2 * (value ⟨c, (place : Int) - finest⟩ * 2 ^ 149) ≤ (n : ℚ) ↔
      c * gridStep place ≤ n * 10 ^ 60 := by
    intro n
    rw [← mul_le_mul_iff_of_pos_right hten, value_onGrid]
    exact_mod_cast Iff.rfl
  rw [readsBack_iff, ← hle, ← hge, ← Nat.not_le, ← Nat.not_le, ← hle, ← hge, not_le, not_le]
  push_cast
  constructor
  · rintro ⟨hlow, hhigh, hstrict⟩
    exact ⟨hlow, hhigh, hstrict⟩
  · rintro ⟨hlow, hhigh, hstrict⟩
    exact ⟨hlow, hhigh, hstrict⟩

theorem readsBack_onGrid {tie : Tie} {code place c : Nat} (h : onGrid tie code place = some c) :
    readsBack code (c * gridStep place) = true := by
  simp only [onGrid] at h
  split at h
  next hboth =>
    obtain ⟨hlower, hupper⟩ := Bool.and_eq_true_iff.1 hboth
    cases h
    split
    · exact hupper
    · exact hlower
  next =>
    split at h
    next hlower =>
      cases h
      exact hlower
    next =>
      split at h
      next hupper =>
        cases h
        exact hupper
      next => cases h

/-- A grid that is finer than the distance to the lower neighbour has a decimal: the lower
candidate is within that distance. -/
theorem isSome_onGrid {code place : Nat} (tie : Tie)
    (h : gridStep place ≤ (Binary32.units (code + 1) - Binary32.units code) * 10 ^ 60) :
    (onGrid tie (code + 1) place).isSome := by
  have hwidth : 0 < gridStep place := Nat.mul_pos (Nat.two_pow_pos _) (Nat.pow_pos (by decide))
  have hdiv := Nat.div_add_mod (steps (code + 1)) (gridStep place)
  have hmod := Nat.mod_lt (steps (code + 1)) hwidth
  have hsteps : steps (code + 1) = 2 * (Binary32.units (code + 1) * 10 ^ 60) := Nat.mul_assoc ..
  have hlt : Binary32.units (code + 1) * 10 ^ 60 < Binary32.units (code + 1 + 1) * 10 ^ 60 :=
    Nat.mul_lt_mul_of_pos_right (Binary32.units_lt_succ (code + 1)) (by decide)
  have hlower : readsBack (code + 1) (steps (code + 1) / gridStep place * gridStep place) := by
    rw [readsBack_iff, Nat.add_sub_cancel, Nat.mul_comm _ (gridStep place), Nat.add_mul,
      Nat.add_mul]
    rw [Nat.sub_mul] at h
    omega
  simp only [onGrid, hlower, Bool.true_and, if_true]
  split <;> rfl

/-- Magnitudes have more than nine places on the finest grid. -/
theorem nine_lt_places (code : Nat) : 9 < places (code + 1) := by
  have hunits : 1 ≤ Binary32.units (code + 1) := Nat.zero_lt_of_lt (Binary32.units_lt_succ code)
  have hle : 10 ^ 9 ≤ steps (code + 1) / gridStep 0 := by
    rw [Nat.le_div_iff_mul_le (by decide)]
    calc 10 ^ 9 * gridStep 0 ≤ 1 * (2 * 10 ^ 60) := by decide
      _ ≤ Binary32.units (code + 1) * (2 * 10 ^ 60) := Nat.mul_le_mul_right _ hunits
      _ = 2 * Binary32.units (code + 1) * 10 ^ 60 := by ring
  rw [← Nat.not_le, places, digits, Nat.length_toDigits_le_iff (by decide) (by decide)]
  exact Nat.not_lt.2 hle

/-- With nine places the grid is fine enough for every magnitude. -/
theorem gridStep_nine_le (code : Nat) : gridStep (places (code + 1) - 9) ≤
    (Binary32.units (code + 1) - Binary32.units code) * 10 ^ 60 := by
  obtain ⟨k, hk⟩ : ∃ k, places (code + 1) = k + 9 + 1 :=
    ⟨places (code + 1) - 10, by have := nine_lt_places code; omega⟩
  have hplaces : 10 ^ (k + 9) ≤ steps (code + 1) / gridStep 0 := by
    rw [← Nat.not_lt, ← Nat.length_toDigits_le_iff (by decide) (by omega)]
    exact Nat.not_le.2 (Nat.lt_of_lt_of_eq (Nat.lt_succ_self _) hk.symm)
  rw [Nat.le_div_iff_mul_le (by decide)] at hplaces
  rw [hk, show k + 9 + 1 - 9 = k + 1 by omega]
  -- a magnitude of nine or more places is at least `10 ^ 8` times the width of this grid, and
  -- less than `2 ^ 25` times the distance to its neighbour
  refine Nat.le_of_mul_le_mul_left ?_ (show 0 < 10 ^ 8 by decide)
  calc 10 ^ 8 * gridStep (k + 1) = 10 ^ (k + 9) * gridStep 0 := by
        rw [show gridStep (k + 1) = 2 ^ 150 * 10 ^ (k + 1) from rfl,
          show gridStep 0 = 2 ^ 150 * 10 ^ 0 from rfl]
        ring
    _ ≤ 2 * Binary32.units (code + 1) * 10 ^ 60 := hplaces
    _ ≤ 2 * (2 ^ 24 * (Binary32.units (code + 1) - Binary32.units code)) * 10 ^ 60 :=
        Nat.mul_le_mul_right _ (Nat.mul_le_mul_left _ (Binary32.units_succ_le code))
    _ = 2 ^ 25 * ((Binary32.units (code + 1) - Binary32.units code) * 10 ^ 60) := by ring
    _ ≤ 10 ^ 8 * ((Binary32.units (code + 1) - Binary32.units code) * 10 ^ 60) :=
        Nat.mul_le_mul_right _ (by decide)

/-- The shortest decimal of a magnitude rounds to it. -/
theorem rounds_shortest (tie : Tie) {code : Nat} (hpos : 0 < code) :
    Binary32.Rounds code ((shortest tie code).value * 2 ^ 149) := by
  obtain ⟨code, rfl⟩ := Nat.exists_eq_succ_of_ne_zero hpos.ne'
  simp only [shortest]
  split
  next c place hfound =>
    obtain ⟨place, _, hc⟩ := List.exists_of_findSome?_eq_some hfound
    obtain ⟨c, hgrid, ⟨⟩⟩ := Option.map_eq_some_iff.1 hc
    exact (rounds_iff_readsBack _ _ _).2 (readsBack_onGrid hgrid)
  next hnone =>
    have hnine := isSome_onGrid tie (gridStep_nine_le code)
    have := List.findSome?_eq_none_iff.1 hnone (places (code + 1) - 9)
      (List.mem_map.2 ⟨9, by decide, rfl⟩)
    rw [Option.map_eq_none_iff] at this
    simp [this] at hnine

end Decimal

end NoiseShader
