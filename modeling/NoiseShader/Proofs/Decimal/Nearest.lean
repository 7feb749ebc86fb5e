import NoiseShader.Decimal
import Mathlib.Algebra.Order.Field.Power
import Mathlib.Algebra.Order.Ring.Rat
import Mathlib.Data.Nat.Log
import Mathlib.Tactic.Linarith
import Mathlib.Tactic.NormNum
import Mathlib.Tactic.Positivity
import Mathlib.Tactic.Ring

set_option autoImplicit false

/-! # The magnitude nearest to a decimal

A number rounds to a magnitude if it lies between the midpoints to the two neighbours of the
magnitude, or on one of them if the code of the magnitude is even. `Binary32.nearestCode` finds the
code that a quotient rounds to (`Binary32.nearestCode_eq`), and so does `Decimal.nearestCode` for
a decimal (`Decimal.nearestCode_eq`).
-/

namespace NoiseShader

/-- What lies within half a step of a whole number is rounded to it, from the midpoints only if
the number is even. -/
theorem roundHalfEven_eq {num den m : Nat} (hden : 0 < den)
    (hlow : 2 * (den * m) ≤ 2 * num + den) (hhigh : 2 * num ≤ 2 * (den * m) + den)
    (hodd : m % 2 = 1 → 2 * (den * m) < 2 * num + den ∧ 2 * num < 2 * (den * m) + den) :
    roundHalfEven num den = m := by
  have hdiv := Nat.div_add_mod num den
  have hmod := Nat.mod_lt num hden
  simp only [roundHalfEven]
  generalize num / den = q at hdiv ⊢
  generalize num % den = r at hdiv hmod ⊢
  -- the quotient is the number itself or the one below it
  have hq : q = m ∨ q + 1 = m := by
    have hle : q ≤ m := by
      by_contra hgt
      have := Nat.mul_le_mul_left den (Nat.lt_of_not_le hgt)
      rw [Nat.mul_succ] at this
      omega
    have hge : m ≤ q + 1 := by
      by_contra hlt
      have := Nat.mul_le_mul_left den (Nat.lt_of_not_le hlt)
      rw [Nat.mul_succ, Nat.mul_succ] at this
      omega
    omega
  rcases hq with rfl | rfl
  · split <;> omega
  · rw [Nat.mul_succ] at hlow hhigh hodd
    split <;> omega

namespace Binary32

/-! ## Magnitudes in blocks -/

/-- Every code is an exponent times the block size and a significand, which has its leading bit
set unless the exponent is zero. -/
theorem exists_block (code : Nat) :
    ∃ e m, code = e * blockSize + m ∧ (e = 0 ∨ blockSize ≤ m) ∧ m < 2 * blockSize := by
  refine ⟨code / blockSize - 1, code - (code / blockSize - 1) * blockSize, ?_⟩
  have := Nat.div_add_mod code blockSize
  have := Nat.mod_lt code (show 0 < blockSize by decide)
  simp only [blockSize] at *
  omega

/-- The significand can also be one past its range. -/
theorem units_block {e m : Nat} (hlow : e = 0 ∨ blockSize ≤ m) (hhigh : m ≤ 2 * blockSize) :
    units (e * blockSize + m) = m * 2 ^ e := by
  have hsize : 0 < blockSize := by decide
  simp only [units, Nat.pow_eq]
  split
  next hlt =>
    obtain rfl : e = 0 := by
      rcases hlow with he | hm
      · exact he
      · omega
    simp
  next hge =>
    rcases Nat.lt_or_eq_of_le hhigh with hm | rfl
    · have hle : blockSize ≤ m := by
        rcases hlow with rfl | hm
        · omega
        · exact hm
      have hdiv : (e * blockSize + m) / blockSize = e + 1 := by
        rw [Nat.div_eq_iff hsize]
        constructor <;> rw [Nat.add_mul] <;> omega
      have hmod : (e * blockSize + m) % blockSize = m - blockSize := by
        rw [Nat.mul_add_mod_self_right, Nat.mod_eq_sub_mod hle, Nat.mod_eq_of_lt (by omega)]
      rw [hdiv, hmod, Nat.add_sub_cancel' hle, Nat.add_sub_cancel]
    · rw [show e * blockSize + 2 * blockSize = (e + 2) * blockSize by ring,
        Nat.mul_mod_left, Nat.mul_div_cancel _ hsize, Nat.add_zero, show e + 2 - 1 = e + 1 by rfl,
        Nat.pow_succ]
      ring

theorem units_lt_succ (code : Nat) : units code < units (code + 1) := by
  obtain ⟨e, m, rfl, hlow, hhigh⟩ := exists_block code
  rw [units_block hlow hhigh.le, Nat.add_assoc, units_block (hlow.imp_right (by omega)) hhigh]
  exact Nat.mul_lt_mul_of_pos_right (Nat.lt_succ_self m) (Nat.two_pow_pos e)

theorem units_strictMono : StrictMono units := strictMono_nat_of_lt_succ units_lt_succ

/-! ## Rounding -/

/-- A number of units of `2 ^ -149` rounds to the magnitude with this code. -/
structure Rounds (code : Nat) (x : ℚ) : Prop where
  low : (units (code - 1) + units code : ℚ) ≤ 2 * x
  high : 2 * x ≤ units code + units (code + 1)
  strict : code % 2 = 1 →
    (units (code - 1) + units code : ℚ) < 2 * x ∧ 2 * x < units code + units (code + 1)

/-- The block that a quotient falls into. -/
theorem block_eq {n e : Nat} (hlow : e = 0 ∨ blockSize * 2 ^ e ≤ n)
    (hhigh : n < 2 * blockSize * 2 ^ e) : Nat.log2 n - 23 = e := by
  have hsize : blockSize = 2 ^ 23 := by decide
  rw [hsize, ← Nat.pow_succ', ← Nat.pow_add] at hhigh
  rcases Nat.eq_zero_or_pos n with rfl | hn
  · rcases hlow with rfl | hlow
    · rfl
    · exact absurd hlow (by have := Nat.two_pow_pos e; rw [hsize]; omega)
  · have hlt : Nat.log2 n < 23 + 1 + e := (Nat.log2_lt hn.ne').2 hhigh
    rcases hlow with rfl | hlow
    · omega
    · rw [hsize, ← Nat.pow_add] at hlow
      have hle : 23 + e ≤ Nat.log2 n := (Nat.le_log2 hn.ne').2 hlow
      omega

/-- Rounding within a block, whose width in the quotient is `den * 2 ^ e`. -/
theorem nearestCode_block {num den e m : Nat} (hden : 0 < den)
    (hcode : e * blockSize + m ≤ infinityCode)
    (hblock : e = 0 ∨ blockSize * (den * 2 ^ e) ≤ num * 2 ^ 149)
    (hend : num * 2 ^ 149 < 2 * blockSize * (den * 2 ^ e))
    (hlow : 2 * (den * 2 ^ e * m) ≤ 2 * (num * 2 ^ 149) + den * 2 ^ e)
    (hhigh : 2 * (num * 2 ^ 149) ≤ 2 * (den * 2 ^ e * m) + den * 2 ^ e)
    (hodd : m % 2 = 1 → 2 * (den * 2 ^ e * m) < 2 * (num * 2 ^ 149) + den * 2 ^ e ∧
      2 * (num * 2 ^ 149) < 2 * (den * 2 ^ e * m) + den * 2 ^ e) :
    nearestCode num den = e * blockSize + m := by
  have hpos : 0 < den * 2 ^ e := Nat.mul_pos hden (Nat.two_pow_pos e)
  have hbl : Nat.log2 (num * 2 ^ 149 / den) - 23 = e := by
    refine block_eq (hblock.imp_right fun h => ?_) ?_
    · rw [Nat.le_div_iff_mul_le hden]
      calc blockSize * 2 ^ e * den = blockSize * (den * 2 ^ e) := by ring
        _ ≤ _ := h
    · rw [Nat.div_lt_iff_lt_mul hden]
      calc num * 2 ^ 149 < _ := hend
        _ = 2 * blockSize * 2 ^ e * den := by ring
  simp only [nearestCode, Nat.pow_eq, hbl]
  rw [roundHalfEven_eq hpos hlow hhigh hodd, Nat.min_eq_right hcode]

/-- The bounds of `Rounds` for a quotient, without denominators. -/
theorem Rounds.of_quotient {code num den : Nat} (hden : 0 < den)
    (h : Rounds code ((num / den : ℚ) * 2 ^ 149)) :
    (units (code - 1) + units code) * den ≤ 2 * (num * 2 ^ 149) ∧
    2 * (num * 2 ^ 149) ≤ (units code + units (code + 1)) * den ∧
    (code % 2 = 1 → (units (code - 1) + units code) * den < 2 * (num * 2 ^ 149) ∧
      2 * (num * 2 ^ 149) < (units code + units (code + 1)) * den) := by
  have hd : (0 : ℚ) < den := by exact_mod_cast hden
  have hx : (2 * ((num / den : ℚ) * 2 ^ 149)) = (2 * (num * 2 ^ 149) : ℚ) / den := by ring
  obtain ⟨hlow, hhigh, hodd⟩ := h
  rw [hx] at hlow hhigh hodd
  rw [le_div_iff₀ hd] at hlow
  rw [div_le_iff₀ hd] at hhigh
  rw [lt_div_iff₀ hd, div_lt_iff₀ hd] at hodd
  exact ⟨by exact_mod_cast hlow, by exact_mod_cast hhigh, fun h => by exact_mod_cast hodd h⟩

/-- The midpoint above a magnitude, as part of a quotient. -/
theorem midpoint_above {e m : Nat} (den : Nat) (hm : e = 0 ∨ blockSize ≤ m)
    (hlt : m < 2 * blockSize) :
    (units (e * blockSize + m) + units (e * blockSize + m + 1)) * den =
      2 * (den * 2 ^ e * m) + den * 2 ^ e := by
  have hsucc : units (e * blockSize + (m + 1)) = (m + 1) * 2 ^ e :=
    units_block (hm.imp_right (by omega)) hlt
  rw [units_block hm hlt.le, Nat.add_assoc, hsucc]
  ring

/-- The midpoint below a magnitude, if its lower neighbour is in the same block. -/
theorem midpoint_below {e m : Nat} (den : Nat) (hm : e = 0 ∨ blockSize ≤ m)
    (hlt : m < 2 * blockSize) :
    (units (e * blockSize + m) + units (e * blockSize + (m + 1))) * den + den * 2 ^ e =
      2 * (den * 2 ^ e * (m + 1)) := by
  rw [← Nat.add_assoc (e * blockSize), midpoint_above den hm hlt]
  ring

/-- The midpoint below the first magnitude of a block: there the step of the block before
counts. -/
theorem midpoint_below_first (e den : Nat) :
    (units ((e + 1) * blockSize + blockSize - 1) + units ((e + 1) * blockSize + blockSize)) * den +
      den * 2 ^ e = 2 * (den * 2 ^ e * (2 * blockSize)) := by
  have hsize : 0 < blockSize := by decide
  have hcode : (e + 1) * blockSize + blockSize = e * blockSize + (2 * blockSize - 1 + 1) := by
    rw [Nat.add_mul]
    omega
  rw [hcode, ← Nat.add_assoc, Nat.add_sub_cancel, Nat.add_assoc,
    midpoint_below den (Or.inr (by omega)) (by omega), Nat.sub_add_cancel (by omega)]

/-- A quotient is nearest to the magnitude that it rounds to. -/
theorem nearestCode_eq {code num den : Nat} (hden : 0 < den) (hpos : 0 < code)
    (hfinite : code < infinityCode) (h : Rounds code ((num / den : ℚ) * 2 ^ 149)) :
    nearestCode num den = code := by
  obtain ⟨hlow, hhigh, hodd⟩ := h.of_quotient hden
  obtain ⟨e, m, rfl, hm, hlt⟩ := exists_block code
  have heven : blockSize % 2 = 0 := by decide
  have hparity : (e * blockSize + m) % 2 = m % 2 := by
    rw [Nat.add_mod, Nat.mul_mod, heven]
    simp
  rw [midpoint_above den hm hlt] at hhigh hodd
  rw [hparity] at hodd
  have hwidth : 0 < den * 2 ^ e := Nat.mul_pos hden (Nat.two_pow_pos e)
  have hend : num * 2 ^ 149 < 2 * blockSize * (den * 2 ^ e) := by
    have := Nat.mul_le_mul_right (den * 2 ^ e) hlt
    rw [Nat.succ_mul, Nat.mul_comm m] at this
    omega
  by_cases hinner : e = 0 ∨ blockSize < m
  · -- the lower neighbour is in the same block, and so is the quotient
    have hne : m ≠ 0 := by
      rintro rfl
      rcases hinner with rfl | hlt <;> omega
    obtain ⟨k, rfl⟩ : ∃ k, m = k + 1 := Nat.exists_eq_succ_of_ne_zero hne
    have hmid := midpoint_below (e := e) (m := k) den (hinner.imp_right (by omega)) (by omega)
    rw [← Nat.add_assoc, Nat.add_sub_cancel, Nat.add_assoc] at hlow hodd
    refine nearestCode_block hden hfinite.le (hinner.imp_right fun hlt => ?_) hend
      (by omega) hhigh (by omega)
    have := Nat.mul_le_mul_right (den * 2 ^ e) hlt
    rw [Nat.succ_mul, Nat.mul_comm (k + 1)] at this
    omega
  · obtain ⟨e, rfl⟩ : ∃ k, e = k + 1 := Nat.exists_eq_succ_of_ne_zero fun he => hinner (Or.inl he)
    -- the magnitude is the first of its block, so the quotient can fall into the one before
    obtain rfl : m = blockSize := by omega
    have hmid := midpoint_below_first e den
    have hdouble : den * 2 ^ (e + 1) = 2 * (den * 2 ^ e) := by ring
    rcases Nat.lt_or_ge (num * 2 ^ 149) (blockSize * (den * 2 ^ (e + 1))) with hbelow | hstart
    · -- rounded up to the end of the block before
      have hcode : (e + 1) * blockSize + blockSize = e * blockSize + 2 * blockSize := by ring
      rw [hcode] at hfinite ⊢
      have hcomm : den * 2 ^ e * (2 * blockSize) = 2 * blockSize * (den * 2 ^ e) := by ring
      rw [hdouble, ← Nat.mul_assoc, Nat.mul_comm blockSize 2] at hbelow
      refine nearestCode_block hden hfinite.le (Or.inr ?_) hbelow (by omega) (by omega) (by omega)
      have hle : den * 2 ^ e ≤ blockSize * (den * 2 ^ e) := Nat.le_mul_of_pos_left _ (by decide)
      rw [Nat.mul_assoc 2 blockSize] at hcomm
      omega
    · refine nearestCode_block hden hfinite.le (Or.inr hstart) hend ?_ hhigh (by omega)
      have hcomm := Nat.mul_comm blockSize (den * 2 ^ (e + 1))
      omega

/-- What rounds to a magnitude other than zero is at least half a unit. -/
theorem Rounds.one_le {code : Nat} {x : ℚ} (hpos : 0 < code) (h : Rounds code x) : 1 ≤ 2 * x := by
  have hunits : 1 ≤ units code := Nat.succ_le_of_lt (Nat.zero_lt_of_lt (units_strictMono hpos))
  calc (1 : ℚ) ≤ units code := by exact_mod_cast hunits
    _ ≤ units (code - 1) + units code := le_add_of_nonneg_left (Nat.cast_nonneg _)
    _ ≤ 2 * x := h.low

/-- What rounds to a finite magnitude is at most `2 ^ 128`. -/
theorem Rounds.le_infinity {code : Nat} {x : ℚ} (hfinite : code < infinityCode)
    (h : Rounds code (x * 2 ^ 149)) : x ≤ 2 ^ 128 := by
  have hinf : units infinityCode = 2 ^ 128 * 2 ^ 149 := by
    rw [show infinityCode = (105 + 149) * blockSize + blockSize by decide,
      units_block (Or.inr le_rfl) (by decide), show blockSize = 2 ^ 23 by decide, Nat.pow_add 2 105,
      ← Nat.mul_assoc, ← Nat.pow_add]
  have hcode : units code ≤ 2 ^ 128 * 2 ^ 149 := hinf ▸ units_strictMono.monotone hfinite.le
  have hsucc : units (code + 1) ≤ 2 ^ 128 * 2 ^ 149 := hinf ▸ units_strictMono.monotone hfinite
  have hsum : (units code + units (code + 1) : ℚ) ≤ 2 * (2 ^ 128 * 2 ^ 149) := by
    rw [two_mul]
    exact_mod_cast Nat.add_le_add hcode hsucc
  have hle := le_of_mul_le_mul_left (h.high.trans hsum) two_pos
  exact le_of_mul_le_mul_right hle (by positivity)

/-! ## The nearest magnitude -/

/-- A magnitude rounds to its own code. -/
theorem Rounds.self {code : Nat} (hpos : 0 < code) : Rounds code (units code) := by
  have hbelow : (units (code - 1) : ℚ) < units code := by
    exact_mod_cast units_strictMono (Nat.sub_lt hpos Nat.one_pos)
  have habove : (units code : ℚ) < units (code + 1) := by exact_mod_cast units_lt_succ code
  exact ⟨by linarith, by linarith, fun _ => ⟨by linarith, by linarith⟩⟩

theorem Rounds.zero : Rounds 0 0 where
  low := by simp [units, blockSize]
  high := by rw [mul_zero]; positivity
  strict hodd := absurd hodd (by decide)

theorem Rounds.between {code : Nat} {x y z : ℚ} (hx : Rounds code x) (hz : Rounds code z)
    (hxy : x ≤ y) (hyz : y ≤ z) : Rounds code y where
  low := hx.low.trans (mul_le_mul_of_nonneg_left hxy zero_le_two)
  high := (mul_le_mul_of_nonneg_left hyz zero_le_two).trans hz.high
  strict hodd := ⟨(hx.strict hodd).1.trans_le (mul_le_mul_of_nonneg_left hxy zero_le_two),
    (mul_le_mul_of_nonneg_left hyz zero_le_two).trans_lt (hz.strict hodd).2⟩

/-- Greater numbers round to greater codes. -/
theorem Rounds.le_of_le {code code' : Nat} {x y : ℚ} (hx : Rounds code x) (hy : Rounds code' y)
    (hxy : x ≤ y) : code ≤ code' := by
  by_contra hlt
  obtain ⟨k, rfl⟩ : ∃ k, code = code' + 1 + k := ⟨code - (code' + 1), by omega⟩
  have hlow := hx.low
  have hhigh := hy.high
  have hstep : (units (code' + 1) : ℚ) ≤ units (code' + 1 + k) := by
    exact_mod_cast units_strictMono.monotone (Nat.le_add_right _ k)
  cases k with
  | zero =>
      -- neighbours: one of the two codes is odd, and does not get the midpoint
      rw [Nat.add_zero, Nat.add_sub_cancel] at hlow
      rcases Nat.mod_two_eq_zero_or_one code' with heven | hodd
      · have hstrict := (hx.strict (by omega)).1
        rw [Nat.add_zero, Nat.add_sub_cancel] at hstrict
        linarith
      · have hstrict := (hy.strict hodd).2
        linarith
  | succ k =>
      have hbelow : (units code' : ℚ) < units (code' + 1 + (k + 1) - 1) := by
        exact_mod_cast units_strictMono (by omega)
      linarith

theorem Rounds.unique {code code' : Nat} {x : ℚ} (h : Rounds code x) (h' : Rounds code' x) :
    code = code' :=
  Nat.le_antisymm (h.le_of_le h' le_rfl) (h'.le_of_le h le_rfl)

/-- The magnitude with a code. Codes past the infinite one go on as if exponents had no end. -/
def magnitude (code : Nat) : ℚ := units code / 2 ^ 149

/-- No magnitude is nearer to the number than the one with this code, and none is as near unless the
code is even. -/
def IsNearest (code : Nat) (x : ℚ) : Prop :=
  ∀ other, other ≠ code → |x - magnitude code| < |x - magnitude other| ∨
    |x - magnitude code| = |x - magnitude other| ∧ code % 2 = 0

/-- Which of two magnitudes is nearer is a matter of the midpoint between them. -/
theorem distance_lt_iff {a b : Nat} (hab : a < b) (x : ℚ) :
    (|x - magnitude b| < |x - magnitude a| ↔ (units a + units b : ℚ) < 2 * (x * 2 ^ 149)) ∧
    (|x - magnitude a| < |x - magnitude b| ↔ 2 * (x * 2 ^ 149) < (units a + units b : ℚ)) := by
  have hscale : (0 : ℚ) < 2 ^ 149 := by positivity
  have hlt : magnitude a < magnitude b := by
    refine div_lt_div_of_pos_right ?_ hscale
    exact_mod_cast units_strictMono hab
  have ha : (units a : ℚ) = magnitude a * 2 ^ 149 := by rw [magnitude, div_mul_cancel₀ _ hscale.ne']
  have hb : (units b : ℚ) = magnitude b * 2 ^ 149 := by rw [magnitude, div_mul_cancel₀ _ hscale.ne']
  have hsum : (units a + units b : ℚ) = (magnitude a + magnitude b) * 2 ^ 149 := by
    rw [ha, hb]
    ring
  have htwo : 2 * (x * 2 ^ 149) = 2 * x * 2 ^ 149 := by ring
  rw [hsum, htwo, mul_lt_mul_iff_left₀ hscale, mul_lt_mul_iff_left₀ hscale]
  constructor
  · rw [← sq_lt_sq]
    constructor <;> intro h <;> nlinarith
  · rw [← sq_lt_sq]
    constructor <;> intro h <;> nlinarith

/-- A tie is for the even code, so an odd one has to be the nearer. -/
theorem nearer_iff {a b : ℚ} {n : Nat} :
    (a < b ∨ a = b ∧ n % 2 = 0) ↔ ¬ b < a ∧ (n % 2 = 1 → a < b) := by
  constructor
  · rintro (hlt | ⟨rfl, heven⟩)
    · exact ⟨hlt.not_gt, fun _ => hlt⟩
    · exact ⟨lt_irrefl a, fun hodd => by omega⟩
  · rintro ⟨hle, hodd⟩
    rcases (not_lt.1 hle).lt_or_eq with hlt | heq
    · exact .inl hlt
    · rcases Nat.mod_two_eq_zero_or_one n with heven | hone
      · exact .inr ⟨heq, heven⟩
      · exact .inl (hodd hone)

/-- The nearest magnitude is the one that the number rounds to. -/
theorem isNearest_iff_rounds {x : ℚ} (hx : 0 ≤ x) (code : Nat) :
    IsNearest code x ↔ Rounds code (x * 2 ^ 149) := by
  have hmono : ∀ {a b : Nat}, a ≤ b → (units a : ℚ) ≤ units b :=
    fun h => by exact_mod_cast units_strictMono.monotone h
  unfold IsNearest
  simp only [nearer_iff]
  constructor
  · intro h
    -- the neighbours on both sides give the bounds
    obtain ⟨habove, habove'⟩ := h (code + 1) (Nat.succ_ne_self code)
    rw [(distance_lt_iff (Nat.lt_succ_self code) x).1, not_lt] at habove
    rw [(distance_lt_iff (Nat.lt_succ_self code) x).2] at habove'
    rcases Nat.eq_zero_or_pos code with rfl | hpos
    · have hzero : (units (0 - 1) + units 0 : ℚ) = 0 := by simp [units, blockSize]
      exact ⟨by rw [hzero]; positivity, habove, fun hodd => by omega⟩
    · have hlt : code - 1 < code := Nat.sub_lt hpos Nat.one_pos
      obtain ⟨hbelow, hbelow'⟩ := h (code - 1) hlt.ne
      rw [(distance_lt_iff hlt x).2, not_lt] at hbelow
      rw [(distance_lt_iff hlt x).1] at hbelow'
      exact ⟨hbelow, habove, fun hodd => ⟨hbelow' hodd, habove' hodd⟩⟩
  · rintro ⟨hlow, hhigh, hstrict⟩ other hne
    rcases Nat.lt_or_gt_of_ne hne with hlt | hgt
    · have hother := hmono (Nat.le_sub_one_of_lt hlt)
      rw [(distance_lt_iff hlt x).1, (distance_lt_iff hlt x).2, not_lt]
      exact ⟨by linarith, fun hodd => by linarith [(hstrict hodd).1]⟩
    · have hother := hmono (Nat.succ_le_of_lt hgt)
      rw [(distance_lt_iff hgt x).1, (distance_lt_iff hgt x).2, not_lt]
      exact ⟨by linarith, fun hodd => by linarith [(hstrict hodd).2]⟩

end Binary32

namespace Decimal

/-- The number that a decimal stands for. -/
def value (d : Decimal) : ℚ := d.coefficient * 10 ^ d.exponent

theorem value_nonneg (d : Decimal) : 0 ≤ d.value :=
  mul_nonneg (Nat.cast_nonneg _) (zpow_nonneg (by norm_num) _)

theorem value_lt (d : Decimal) : d.value < 10 ^ d.point := by
  have hlength : d.coefficient < 10 ^ (digits d.coefficient).length :=
    (Nat.length_toDigits_le_iff (by decide) Nat.length_toDigits_pos).1 le_rfl
  rw [value, point, zpow_add₀ (by norm_num), mul_comm]
  refine mul_lt_mul_of_pos_left ?_ (by positivity)
  exact_mod_cast hlength

theorem le_value {d : Decimal} (h : d.coefficient ≠ 0) : 10 ^ (d.point - 1) ≤ d.value := by
  obtain ⟨k, hk⟩ : ∃ k, (digits d.coefficient).length = k + 1 :=
    Nat.exists_eq_succ_of_ne_zero Nat.length_toDigits_pos.ne'
  have hlength : 10 ^ k ≤ d.coefficient := by
    rcases Nat.eq_zero_or_pos k with rfl | hpos
    · exact Nat.one_le_iff_ne_zero.2 h
    · rw [← Nat.not_lt, ← Nat.length_toDigits_le_iff (by decide) hpos]
      exact Nat.not_le.2 (hk ▸ Nat.lt_succ_self k)
  have hpoint : d.point - 1 = k + d.exponent := by
    rw [point, hk]
    push_cast
    ring
  rw [value, hpoint, zpow_add₀ (by norm_num)]
  refine mul_le_mul_of_nonneg_right ?_ (by positivity)
  exact_mod_cast hlength

/-- A decimal is nearest to the magnitude that it rounds to. -/
theorem nearestCode_eq {code : Nat} {d : Decimal} (hpos : 0 < code)
    (hfinite : code < Binary32.infinityCode) (h : Binary32.Rounds code (d.value * 2 ^ 149)) :
    d.nearestCode = code := by
  have hvalue := h.one_le hpos
  have hne : d.coefficient ≠ 0 := by
    intro hzero
    simp only [value, hzero, Nat.cast_zero, zero_mul, mul_zero] at hvalue
    norm_num at hvalue
  have hlow : ¬ d.point ≤ -46 := by
    intro hpoint
    have hlt : d.value < 10 ^ (-46 : ℤ) :=
      d.value_lt.trans_le (zpow_le_zpow_right₀ (by norm_num) hpoint)
    norm_num at hlt
    linarith
  have hhigh : ¬ 41 ≤ d.point := by
    intro hpoint
    have hle : 10 ^ (40 : ℤ) ≤ d.value :=
      (zpow_le_zpow_right₀ (by norm_num) (by omega)).trans (le_value hne)
    have := h.le_infinity hfinite
    norm_num at hle
    linarith
  rw [nearestCode, if_neg (by simp [hne, hlow]), if_neg hhigh]
  split
  next hexp =>
    refine Binary32.nearestCode_eq Nat.one_pos hpos hfinite ?_
    obtain ⟨k, hk⟩ := Int.eq_ofNat_of_zero_le hexp
    simpa [value, hk, Nat.pow_eq] using h
  next hexp =>
    refine Binary32.nearestCode_eq (Nat.pow_pos (by decide)) hpos hfinite ?_
    obtain ⟨k, hk⟩ := Int.exists_eq_neg_ofNat (Int.le_of_not_le hexp)
    simpa [value, hk, Nat.pow_eq, div_eq_mul_inv] using h

end Decimal

end NoiseShader
