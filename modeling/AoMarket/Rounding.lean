import AoMarket.PyNumber
import Mathlib.Algebra.Order.Field.Power
import Mathlib.Tactic.Linarith
import Mathlib.Tactic.Positivity

/-!
How far `double` moves a number. A normal number moves by at most its 2^53rd part,
and never past an integer that has a double of its own.
-/

namespace AoMarket.Rounding

open PyNumber

theorem pow2_eq (z : ℤ) : pow2 z = (2 : ℚ) ^ z := by
  cases z with
  | ofNat n => simp [pow2]
  | negSucc n => simp [pow2, zpow_negSucc]

theorem pow2_pos (z : ℤ) : 0 < pow2 z := by
  rw [pow2_eq]
  positivity

theorem pow2_mono {a b : ℤ} (h : a ≤ b) : pow2 a ≤ pow2 b := by
  rw [pow2_eq, pow2_eq]
  exact zpow_le_zpow_right₀ (by norm_num) h

theorem lt_of_pow2_lt {a b : ℤ} (h : pow2 a < pow2 b) : a < b := by
  by_contra hle
  exact absurd h (not_lt.mpr (pow2_mono (not_lt.mp hle)))

theorem pow2_sub (a : ℤ) (n : ℕ) : pow2 (a - n) = pow2 a / 2 ^ n := by
  rw [pow2_eq, pow2_eq, zpow_sub₀ (by norm_num), zpow_natCast]

/-! The nearest integer -/

theorem roundHalfEven_le {q : ℚ} {k : ℤ} (h : q ≤ k) : roundHalfEven q ≤ k := by
  have hfloor : ⌊q⌋ ≤ k := by
    have hk : (⌊q⌋ : ℚ) ≤ k := (Int.floor_le q).trans h
    exact_mod_cast hk
  unfold roundHalfEven
  by_cases hexact : ⌊q⌋ = k
  · have hq : q - ⌊q⌋ = 0 := by
      have hle := Int.floor_le q
      have hk : (⌊q⌋ : ℚ) = k := by exact_mod_cast hexact
      linarith
    simp only [hq]
    norm_num
    exact hfloor
  · have hlt : ⌊q⌋ + 1 ≤ k := by omega
    dsimp only
    split
    · exact hfloor
    · split
      · exact hlt
      · split
        · exact hfloor
        · exact hlt

theorem roundHalfEven_near (q : ℚ) : |(roundHalfEven q : ℚ) - q| ≤ 1 / 2 := by
  have hle := Int.floor_le q
  have hlt := Int.lt_floor_add_one q
  unfold roundHalfEven
  dsimp only
  rw [abs_le]
  split
  · next hlow => constructor <;> linarith
  · next hlow =>
    have hhalf := not_lt.mp hlow
    split
    · push_cast
      constructor <;> linarith
    · next hhigh =>
      have hhalf' := not_lt.mp hhigh
      split
      · constructor <;> linarith
      · push_cast
        constructor <;> linarith

/-! The exponent -/

theorem pow2_exponent_le {q : ℚ} (hq : 0 < q) : pow2 (exponent q) ≤ q := by
  unfold exponent
  dsimp only
  split
  · next h => exact h
  have hnum : q.num ≠ 0 := (Rat.num_pos.mpr hq).ne'
  have hlow : 2 ^ q.num.natAbs.log2 ≤ q.num.natAbs := Nat.log2_self_le (by omega)
  have hhigh : q.den < 2 ^ (q.den.log2 + 1) := Nat.lt_log2_self
  generalize q.num.natAbs.log2 = a at *
  generalize hb : q.den.log2 = b at *
  have hsplit : ((a : ℤ) - (b : ℤ) - 1) = (a : ℤ) - ((b + 1 : ℕ) : ℤ) := by omega
  rw [hsplit, pow2_sub, pow2_eq, zpow_natCast]
  have hvalue : q = (q.num.natAbs : ℚ) / q.den := by
    have habs : ((q.num.natAbs : ℤ) : ℚ) = q.num := by
      have hpos := Rat.num_pos.mpr hq
      exact_mod_cast Int.natAbs_of_nonneg hpos.le
    rw [← Int.cast_natCast q.num.natAbs, habs]
    exact (Rat.num_div_den q).symm
  have hnum' : (2 : ℚ) ^ a ≤ q.num.natAbs := by exact_mod_cast hlow
  have hden' : (q.den : ℚ) ≤ 2 ^ (b + 1) := by exact_mod_cast hhigh.le
  have hden : (0 : ℚ) < q.den := by exact_mod_cast q.den_pos
  rw [hvalue]
  exact div_le_div₀ (by positivity) hnum' hden hden'

/-! Doubles -/

/-- The value of a double of a positive number: a rounded multiple of the last place. -/
theorem double_eq_some {q x : ℚ} (hq : 0 < q) (h : double q = some x) :
    x = roundHalfEven (q / pow2 (max (exponent q) (-1022) - 52)) *
      pow2 (max (exponent q) (-1022) - 52) := by
  unfold double at h
  rw [if_neg hq.ne'] at h
  simp only [abs_of_pos hq] at h
  split at h
  · rw [if_neg (not_lt.mpr hq.le)] at h
    exact (Option.some.inj h).symm
  · cases h

/-- A normal double is within half a unit of its last place. -/
theorem double_near {q x : ℚ} (hq : pow2 (-1022) ≤ q) (h : double q = some x) :
    |x - q| ≤ q / 2 ^ 53 := by
  have hpos : 0 < q := (pow2_pos _).trans_le hq
  have hmax : pow2 (max (exponent q) (-1022)) ≤ q := by
    rcases max_choice (exponent q) (-1022) with hm | hm
    · rw [hm]
      exact pow2_exponent_le hpos
    · rw [hm]
      exact hq
  rw [double_eq_some hpos h]
  have hulp : pow2 (max (exponent q) (-1022) - 52) = pow2 (max (exponent q) (-1022)) / 2 ^ 52 :=
    pow2_sub _ 52
  have hulp_pos := pow2_pos (max (exponent q) (-1022) - 52)
  generalize pow2 (max (exponent q) (-1022) - 52) = u at *
  have hnear := roundHalfEven_near (q / u)
  have hscale : (roundHalfEven (q / u) : ℚ) * u - q = (roundHalfEven (q / u) - q / u) * u := by
    field_simp
  rw [hscale, abs_mul, abs_of_pos hulp_pos]
  calc |(roundHalfEven (q / u) : ℚ) - q / u| * u ≤ 1 / 2 * u :=
        mul_le_mul_of_nonneg_right hnear hulp_pos.le
    _ ≤ q / 2 ^ 53 := by
      rw [hulp]
      linarith

/-- Rounding does not pass an integer that is itself a double. -/
theorem double_le {q x : ℚ} {k : ℕ} (hq : 0 < q) (hk : q ≤ k) (hsmall : k < 2 ^ 53)
    (h : double q = some x) : x ≤ k := by
  have hexp : exponent q ≤ 52 := by
    have hlt : pow2 (exponent q) < pow2 53 := by
      refine ((pow2_exponent_le hq).trans hk).trans_lt ?_
      rw [pow2_eq]
      exact_mod_cast hsmall
    have := lt_of_pow2_lt hlt
    omega
  have hplace : ∃ n : ℕ, max (exponent q) (-1022) - 52 = 0 - (n : ℤ) :=
    ⟨(52 - max (exponent q) (-1022)).toNat, by omega⟩
  obtain ⟨n, hn⟩ := hplace
  rw [double_eq_some hq h, hn, pow2_sub]
  have hone : pow2 0 = 1 := by simp [pow2_eq]
  rw [hone]
  have hround : roundHalfEven (q / (1 / 2 ^ n)) ≤ (k * 2 ^ n : ℤ) := by
    apply roundHalfEven_le
    push_cast
    rw [div_div_eq_mul_div, div_one]
    exact mul_le_mul_of_nonneg_right hk (by positivity)
  have hcast : (roundHalfEven (q / (1 / 2 ^ n)) : ℚ) ≤ k * 2 ^ n := by exact_mod_cast hround
  rw [mul_one_div, div_le_iff₀ (by positivity)]
  exact hcast

/-- A number far below the largest double has one. -/
theorem double_isSome {q : ℚ} (h : |q| ≤ 2 ^ 100) : ∃ x, double q = some x := by
  unfold double
  by_cases hzero : q = 0
  · exact ⟨0, if_pos hzero⟩
  rw [if_neg hzero]
  have hpos : 0 < |q| := abs_pos.mpr hzero
  have hplace : pow2 (max (exponent |q|) (-1022)) ≤ |q| + 1 := by
    rcases max_choice (exponent |q|) (-1022) with hm | hm
    · rw [hm]
      linarith [pow2_exponent_le hpos]
    · have hone : pow2 (-1022) ≤ pow2 0 := pow2_mono (by norm_num)
      have hvalue : pow2 0 = 1 := by simp [pow2_eq]
      rw [hm]
      linarith
  have hulp : pow2 (max (exponent |q|) (-1022) - 52) = pow2 (max (exponent |q|) (-1022)) / 2 ^ 52 :=
    pow2_sub _ 52
  have hulp_pos := pow2_pos (max (exponent |q|) (-1022) - 52)
  have hulp_le : pow2 (max (exponent |q|) (-1022) - 52) ≤ |q| + 1 := by
    rw [hulp]
    linarith
  dsimp only
  generalize pow2 (max (exponent |q|) (-1022) - 52) = u at *
  have hround : (roundHalfEven (|q| / u) : ℚ) * u ≤ 2 * |q| + 1 := by
    have hnear := (abs_le.mp (roundHalfEven_near (|q| / u))).2
    have hle : (roundHalfEven (|q| / u) : ℚ) ≤ |q| / u + 1 / 2 := by linarith
    calc (roundHalfEven (|q| / u) : ℚ) * u ≤ (|q| / u + 1 / 2) * u :=
          mul_le_mul_of_nonneg_right hle hulp_pos.le
      _ = |q| + u / 2 := by field_simp
      _ ≤ 2 * |q| + 1 := by linarith
  have hsmall : (roundHalfEven (|q| / u) : ℚ) * u < pow2 1024 := by
    have hmono : pow2 102 ≤ pow2 1024 := pow2_mono (by norm_num)
    have hbig : (2 : ℚ) * 2 ^ 100 + 1 < pow2 102 := by
      rw [pow2_eq]
      norm_num
    linarith
  rw [if_pos hsmall]
  exact ⟨_, rfl⟩

end AoMarket.Rounding
