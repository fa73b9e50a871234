/-
The integers that a float can hold (`float` of an `int`).

An integer is converted by rounding to 53 bits, half to even, and the conversion fails where
that comes to two to the power of 1024 or more.
-/
import PcCheck.Python
import Mathlib.Algebra.Order.Field.Power
import Mathlib.Algebra.Order.Field.Rat
import Mathlib.Tactic.FieldSimp
import Mathlib.Tactic.Linarith
import Mathlib.Tactic.Ring

namespace PcCheck
namespace PyFloat

/-! ## Rounding to an integer -/

theorem roundEven_le {q : ℚ} {k : ℤ} (h : q < k + 1 / 2) : roundEven q ≤ k := by
  have hfloor := Int.floor_le q
  have hlow : ⌊q⌋ ≤ k := by
    have hlt : (⌊q⌋ : ℚ) < ((k + 1 : ℤ) : ℚ) := by push_cast; linarith
    exact Int.lt_add_one_iff.mp (by exact_mod_cast hlt)
  have hup (hr : ¬ q - ⌊q⌋ < 1 / 2) : ⌊q⌋ + 1 ≤ k := by
    have hlt : (⌊q⌋ : ℚ) < (k : ℚ) := by linarith [not_lt.mp hr]
    exact_mod_cast hlt
  unfold roundEven
  dsimp only
  split
  · exact hlow
  next hr =>
    split
    · exact hup hr
    · split
      · exact hlow
      · exact hup hr

theorem le_roundEven {q : ℚ} {k : ℤ} (h : (k : ℚ) ≤ q) : k ≤ roundEven q := by
  have hk : k ≤ ⌊q⌋ := Int.le_floor.mpr h
  unfold roundEven
  dsimp only
  split
  · exact hk
  · split
    · omega
    · split <;> omega

theorem roundEven_le_double {q : ℚ} (h : 0 ≤ q) : (roundEven q : ℚ) ≤ 2 * q := by
  by_cases hhalf : q < 1 / 2
  · have hzero : roundEven q ≤ 0 := roundEven_le (by push_cast; linarith)
    have hcast : (roundEven q : ℚ) ≤ 0 := by exact_mod_cast hzero
    linarith
  · have hup : roundEven q ≤ ⌊q⌋ + 1 :=
      roundEven_le (by push_cast; linarith [Int.lt_floor_add_one q])
    have hcast : (roundEven q : ℚ) ≤ (⌊q⌋ : ℚ) + 1 := by exact_mod_cast hup
    by_cases hone : q < 1
    · have hfloor : ⌊q⌋ = 0 := Int.floor_eq_iff.mpr (by push_cast; constructor <;> linarith)
      rw [hfloor] at hcast
      push_cast at hcast
      linarith
    · linarith [Int.floor_le q]

/-- A float that a number is rounded to is no more than twice the number. -/
theorem ofRat_le_double {q r : ℚ} (h : 0 ≤ q) (hr : ofRat q = finite r) : 0 ≤ r ∧ r ≤ 2 * q := by
  unfold ofRat at hr
  split at hr
  next hzero =>
    obtain rfl := finite.inj hr
    exact ⟨le_refl 0, by linarith⟩
  next hne =>
    generalize hulp : (2 : ℚ) ^ (max (exponent |q|) (-1022) - 52) = ulp at hr
    have hpos : 0 < ulp := by rw [← hulp]; positivity
    dsimp only at hr
    split at hr
    · cases hr
    · rw [if_neg (not_lt.mpr h), abs_of_nonneg h] at hr
      obtain rfl := finite.inj hr
      have hq : 0 ≤ q / ulp := div_nonneg h hpos.le
      have hlow : (0 : ℤ) ≤ roundEven (q / ulp) := le_roundEven (by push_cast; exact hq)
      refine ⟨mul_nonneg (by exact_mod_cast hlow) hpos.le, ?_⟩
      calc (roundEven (q / ulp) : ℚ) * ulp ≤ 2 * (q / ulp) * ulp :=
            mul_le_mul_of_nonneg_right (roundEven_le_double hq) hpos.le
        _ = 2 * q := by field_simp

/-- Half way below an even integer the rounding goes up. -/
theorem le_roundEven_of_even {q : ℚ} {k : ℤ} (hk : k % 2 = 0) (h : (k : ℚ) - 1 / 2 ≤ q) :
    k ≤ roundEven q := by
  by_cases hkq : (k : ℚ) ≤ q
  · exact le_roundEven hkq
  have hfloor : ⌊q⌋ = k - 1 := by
    rw [Int.floor_eq_iff]
    push_cast
    constructor <;> linarith
  unfold roundEven
  dsimp only
  rw [hfloor]
  push_cast
  rw [if_neg (by linarith)]
  split
  · omega
  · rw [if_neg (by omega)]
    omega

/-! ## Rounding an integer to a float -/

theorem exponent_natCast {m : ℕ} (hm : m ≠ 0) : exponent (m : ℚ) = (m.log2 : ℤ) := by
  have hlog : (2 : ℚ) ^ (m.log2 : ℤ) ≤ (m : ℚ) := by
    rw [zpow_natCast]
    exact_mod_cast Nat.log2_self_le hm
  have hone : Nat.log2 1 = 0 := by decide
  unfold exponent
  dsimp only
  rw [Rat.num_natCast, Rat.den_natCast, Int.natAbs_natCast, hone, Nat.cast_zero, sub_zero,
    if_neg (not_lt.mpr hlog)]

/-- The unit in the last of the 53 places of an integer. -/
def unitOf (m : ℕ) : ℚ := (2 : ℚ) ^ ((m.log2 : ℤ) - 52)

theorem unitOf_pos (m : ℕ) : 0 < unitOf m := zpow_pos (by norm_num) _

theorem unitOf_mul (m : ℕ) : 2 ^ 52 * unitOf m = 2 ^ m.log2 := by
  unfold unitOf
  rw [← zpow_natCast, ← zpow_natCast, ← zpow_add₀ (by norm_num)]
  congr 1
  push_cast
  ring

def rounded (m : ℕ) : ℚ := roundEven (m / unitOf m) * unitOf m

theorem ofInt_ok_iff_rounded {n : ℤ} (hn : n ≠ 0) :
    (∃ x, ofInt n = .ok x) ↔ rounded n.natAbs < 2 ^ 1024 := by
  have hm : n.natAbs ≠ 0 := Int.natAbs_ne_zero.mpr hn
  have habs : |(n : ℚ)| = (n.natAbs : ℚ) := by rw [Nat.cast_natAbs, Int.cast_abs]
  have hmax : max ((n.natAbs.log2 : ℤ)) (-1022) = n.natAbs.log2 := max_eq_left (by omega)
  have hrat : ofRat n = if (2 : ℚ) ^ 1024 ≤ rounded n.natAbs then inf (decide ((n : ℚ) < 0))
      else finite (if (n : ℚ) < 0 then -rounded n.natAbs else rounded n.natAbs) := by
    unfold ofRat rounded unitOf
    rw [if_neg (Int.cast_ne_zero.mpr hn), habs, exponent_natCast hm, hmax]
  unfold ofInt
  rw [hrat]
  by_cases h : (2 : ℚ) ^ 1024 ≤ rounded n.natAbs
  · rw [if_pos h]
    exact iff_of_false (fun ⟨_, hx⟩ => nomatch hx) (not_lt.mpr h)
  · rw [if_neg h]
    exact iff_of_true ⟨_, rfl⟩ (not_le.mp h)

section Rounded

variable {m : ℕ}

/-- An integer has 53 places before its unit. -/
theorem div_unitOf_lt (m : ℕ) : (m : ℚ) / unitOf m < 2 ^ 53 := by
  have hlt : (m : ℚ) < 2 ^ (m.log2 + 1) := by exact_mod_cast Nat.lt_log2_self
  have htop : (2 : ℚ) ^ 53 * unitOf m = 2 ^ (m.log2 + 1) := by
    have hmul := unitOf_mul m
    rw [pow_succ (2 : ℚ) m.log2, ← hmul]
    ring
  rw [div_lt_iff₀ (unitOf_pos m), htop]
  exact hlt

theorem le_div_unitOf (hm : m ≠ 0) : 2 ^ 52 ≤ (m : ℚ) / unitOf m := by
  have hle : (2 : ℚ) ^ m.log2 ≤ m := by exact_mod_cast Nat.log2_self_le hm
  rw [le_div_iff₀ (unitOf_pos m), unitOf_mul]
  exact hle

/-- With fewer than 1024 places the rounding stays below. -/
theorem rounded_lt_of_short (h : m.log2 < 1023) : rounded m < 2 ^ 1024 := by
  have hround : roundEven (m / unitOf m) ≤ 2 ^ 53 := by
    apply roundEven_le
    have hlt := div_unitOf_lt m
    push_cast
    linarith
  have hcast : ((roundEven (m / unitOf m) : ℤ) : ℚ) ≤ 2 ^ 53 := by exact_mod_cast hround
  calc rounded m ≤ 2 ^ 53 * unitOf m := mul_le_mul_of_nonneg_right hcast (unitOf_pos m).le
    _ = 2 ^ (m.log2 + 1) := by rw [pow_succ (2 : ℚ) m.log2, ← unitOf_mul m]; ring
    _ < 2 ^ 1024 := pow_lt_pow_right₀ (by norm_num) (by omega)

/-- With more than 1024 places it does not. -/
theorem le_rounded_of_long (hm : m ≠ 0) (h : 1024 ≤ m.log2) : 2 ^ 1024 ≤ rounded m := by
  have hround : 2 ^ 52 ≤ roundEven (m / unitOf m) := by
    apply le_roundEven
    push_cast
    exact le_div_unitOf hm
  have hcast : (2 : ℚ) ^ 52 ≤ ((roundEven (m / unitOf m) : ℤ) : ℚ) := by exact_mod_cast hround
  calc (2 : ℚ) ^ 1024 ≤ 2 ^ m.log2 := pow_le_pow_right₀ (by norm_num) h
    _ = 2 ^ 52 * unitOf m := (unitOf_mul m).symm
    _ ≤ rounded m := mul_le_mul_of_nonneg_right hcast (unitOf_pos m).le

/-- The bound, in units of the last place of the numbers of 1024 places. -/
theorem bound_eq (u : ℚ) (hu : 2 ^ 52 * u = 2 ^ 1023) :
    (2 : ℚ) ^ 1024 = 2 ^ 53 * u ∧ (2 : ℚ) ^ 1024 - 2 ^ 970 = (2 ^ 53 - 1 / 2) * u := by
  have hsplit : (2 : ℚ) ^ 1023 = 2 ^ 53 * 2 ^ 970 := by rw [← pow_add]
  have hdouble : (2 : ℚ) ^ 1024 = 2 * 2 ^ 1023 := by rw [← pow_succ']
  have htop : (2 : ℚ) ^ 1024 = 2 ^ 53 * u := by
    rw [hdouble, ← hu]
    ring
  have hhalf : (2 : ℚ) ^ 970 = 1 / 2 * u := by
    have heq : (2 : ℚ) ^ 52 * u = 2 ^ 52 * (2 * 2 ^ 970) := by
      rw [hu, hsplit, ← mul_assoc, ← pow_succ]
    have hcancel := mul_left_cancel₀ (by norm_num) heq
    rw [hcancel, one_div, inv_mul_cancel_left₀ two_ne_zero]
  refine ⟨htop, ?_⟩
  rw [htop, hhalf]
  ring

theorem rounded_lt_iff (hm : m ≠ 0) : rounded m < 2 ^ 1024 ↔ (m : ℚ) < 2 ^ 1024 - 2 ^ 970 := by
  have hpos := unitOf_pos m
  rcases Nat.lt_trichotomy m.log2 1023 with hshort | hexact | hlong
  · refine iff_of_true (rounded_lt_of_short hshort) ?_
    have hlt : (m : ℚ) < 2 ^ (m.log2 + 1) := by exact_mod_cast Nat.lt_log2_self
    have htop : (2 : ℚ) ^ (m.log2 + 1) ≤ 2 ^ 1023 := pow_le_pow_right₀ (by norm_num) (by omega)
    have hdouble : (2 : ℚ) ^ 1024 = 2 ^ 1023 + 2 ^ 1023 := by rw [← two_mul, ← pow_succ']
    have hsmall : (2 : ℚ) ^ 970 ≤ 2 ^ 1023 := pow_le_pow_right₀ (by norm_num) (by norm_num)
    have hroom : (2 : ℚ) ^ 1023 ≤ 2 ^ 1024 - 2 ^ 970 := by
      rw [le_sub_iff_add_le, hdouble]
      exact add_le_add_right hsmall _
    exact (hlt.trans_le htop).trans_le hroom
  · obtain ⟨htop, hbound⟩ := bound_eq (unitOf m) (by rw [unitOf_mul, hexact])
    unfold rounded
    rw [hbound, htop, mul_lt_mul_iff_of_pos_right hpos, ← div_lt_iff₀ hpos]
    constructor
    · intro h
      by_contra hge
      have hround : 2 ^ 53 ≤ roundEven (m / unitOf m) := by
        apply le_roundEven_of_even (by norm_num)
        push_cast
        exact not_lt.mp hge
      have hcast : (2 : ℚ) ^ 53 ≤ ((roundEven (m / unitOf m) : ℤ) : ℚ) := by
        exact_mod_cast hround
      exact absurd h (not_lt.mpr hcast)
    · intro h
      have hround : roundEven (m / unitOf m) ≤ 2 ^ 53 - 1 := by
        apply roundEven_le
        push_cast
        linarith
      have hcast : ((roundEven (m / unitOf m) : ℤ) : ℚ) ≤ 2 ^ 53 - 1 := by
        exact_mod_cast hround
      linarith
  · refine iff_of_false (not_lt.mpr (le_rounded_of_long hm hlong)) (not_lt.mpr ?_)
    have hle : (2 : ℚ) ^ m.log2 ≤ m := by exact_mod_cast Nat.log2_self_le hm
    have htop : (2 : ℚ) ^ 1024 ≤ 2 ^ m.log2 := pow_le_pow_right₀ (by norm_num) hlong
    exact (sub_le_self _ (by positivity)).trans (htop.trans hle)

end Rounded

/-- Which integers a float can hold. -/
theorem ofInt_ok_iff (n : ℤ) :
    (∃ x, ofInt n = .ok x) ↔ |n| < 2 ^ 1024 - 2 ^ 970 := by
  by_cases hn : n = 0
  · subst hn
    refine iff_of_true ⟨.finite 0, by decide⟩ ?_
    rw [abs_zero, sub_pos]
    exact pow_lt_pow_right₀ (by norm_num) (by norm_num)
  · rw [ofInt_ok_iff_rounded hn, rounded_lt_iff (Int.natAbs_ne_zero.mpr hn), Nat.cast_natAbs]
    exact_mod_cast Iff.rfl

end PyFloat
end PcCheck
