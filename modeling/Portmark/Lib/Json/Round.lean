/-
Rounding to doubles. A double is an integer of at most 53 bits times a power of two that is not too
small; rounding gives one, and leaves every one as it is, so rounding twice is rounding once.
-/
import Mathlib.Data.Int.Log
import Mathlib.Data.Rat.Floor
import Mathlib.Tactic.Linarith
import Portmark.Lib.Json.Basic

namespace Portmark.Lib.Json

theorem roundHalfEven_intCast (n : Int) : roundHalfEven n = n := by
  unfold roundHalfEven
  simp

theorem floor_le_roundHalfEven (q : ℚ) : ⌊q⌋ ≤ roundHalfEven q := by
  unfold roundHalfEven
  simp only
  split_ifs <;> omega

theorem roundHalfEven_le_ceil (q : ℚ) : roundHalfEven q ≤ ⌈q⌉ := by
  have hceil : ⌊q⌋ ≤ ⌈q⌉ := Int.floor_le_ceil q
  -- rounding up means that there is a fraction
  have hup : ¬ q - ⌊q⌋ < 1 / 2 → ⌊q⌋ + 1 ≤ ⌈q⌉ := by
    intro hfraction
    rw [Int.add_one_le_iff, Int.lt_ceil]
    linarith [not_lt.1 hfraction]
  unfold roundHalfEven
  simp only
  split_ifs with h1 h2 h3
  · exact hceil
  · exact hup h1
  · exact hceil
  · exact hup h1

theorem abs_roundHalfEven_le {q : ℚ} {n : Int} (h : |q| ≤ n) : |roundHalfEven q| ≤ n := by
  obtain ⟨hlow, hhigh⟩ := abs_le.1 h
  refine abs_le.2 ⟨?_, (roundHalfEven_le_ceil q).trans (Int.ceil_le.2 hhigh)⟩
  refine le_trans ?_ (floor_le_roundHalfEven q)
  rw [Int.le_floor]
  exact hlow

def Scaled (r : ℚ) : Prop := ∃ (m e : Int), r = m * 2 ^ e ∧ |m| ≤ 2 ^ 53 ∧ -1074 ≤ e

/-- Rounding gives a scaled integer below the largest double. -/
theorem scaled_of_toDouble {q r : ℚ} (h : toDouble q = .finite r) : Scaled r ∧ -2 ^ 1024 < r ∧ r < 2 ^ 1024 := by
  unfold toDouble at h
  simp only at h
  split_ifs at h with hbig hsmall
  obtain rfl := PyFloat.finite.inj h
  refine ⟨⟨_, _, rfl, ?_, le_max_right _ _⟩, not_le.1 hsmall, not_le.1 hbig⟩
  refine abs_roundHalfEven_le ?_
  have hpos : (0 : ℚ) < 2 ^ max (Int.log 2 |q| - 52) (-1074) := zpow_pos (by norm_num) _
  rw [abs_div, abs_of_pos hpos, div_le_iff₀ hpos]
  have hlog : |q| < ((2 : ℕ) : ℚ) ^ (Int.log 2 |q| + 1) := Int.lt_zpow_succ_log_self (by norm_num) _
  have hexp : Int.log 2 |q| + 1 ≤ 53 + max (Int.log 2 |q| - 52) (-1074) := by omega
  refine hlog.le.trans ?_
  calc (2 : ℚ) ^ (Int.log 2 |q| + 1) ≤ 2 ^ (53 + max (Int.log 2 |q| - 52) (-1074)) :=
        zpow_le_zpow_right₀ (by norm_num) hexp
    _ = 2 ^ 53 * 2 ^ max (Int.log 2 |q| - 52) (-1074) := by
        rw [zpow_add₀ (by norm_num)]
        norm_num

theorem Scaled.integer {r : ℚ} (h : Scaled r) : ∃ n : Int, r / 2 ^ max (Int.log 2 |r| - 52) (-1074) = n := by
  obtain ⟨m, e, rfl, hm, he⟩ := h
  by_cases hm0 : m = 0
  · exact ⟨0, by simp [hm0]⟩
  generalize hd : max (Int.log 2 |(m : ℚ) * 2 ^ e| - 52) (-1074) = d
  have htwo : (2 : ℚ) ≠ 0 := by norm_num
  by_cases hle : d ≤ e
  · obtain ⟨k, hk⟩ := Int.eq_ofNat_of_zero_le (sub_nonneg.2 hle)
    refine ⟨m * 2 ^ k, ?_⟩
    rw [div_eq_iff (zpow_ne_zero _ htwo)]
    have : e = k + d := by omega
    rw [this, zpow_add₀ htwo]
    push_cast
    rw [zpow_natCast]
    ring
  · -- only the largest integer is rounded at the next exponent
    have hpos : (0 : ℚ) < |(m : ℚ) * 2 ^ e| := abs_pos.2 (mul_ne_zero (by exact_mod_cast hm0) (zpow_ne_zero _ htwo))
    have hlow : ((2 : ℕ) : ℚ) ^ Int.log 2 |(m : ℚ) * 2 ^ e| ≤ |(m : ℚ) * 2 ^ e| :=
      Int.zpow_log_le_self (by norm_num) hpos
    have hepos : (0 : ℚ) < 2 ^ e := zpow_pos (by norm_num) _
    have hmle : |(m : ℚ)| ≤ 2 ^ 53 := by exact_mod_cast hm
    have hbound : (2 : ℚ) ^ (d + 52 - e) ≤ |(m : ℚ)| := by
      rw [zpow_sub₀ htwo, div_le_iff₀ hepos]
      have : Int.log 2 |(m : ℚ) * 2 ^ e| = d + 52 := by omega
      rw [this, abs_mul, abs_of_pos hepos] at hlow
      exact_mod_cast hlow
    have hexp : d + 52 - e ≤ 53 := by
      have hpow : (2 : ℚ) ^ (d + 52 - e) ≤ 2 ^ (53 : ℤ) := hbound.trans (by exact_mod_cast hmle)
      exact (zpow_le_zpow_iff_right₀ (by norm_num)).1 hpow
    have hd' : d = e + 1 := by omega
    have habs : |m| = 2 ^ 53 := by
      refine le_antisymm hm ?_
      have : d + 52 - e = (53 : ℕ) := by omega
      rw [this, zpow_natCast] at hbound
      exact_mod_cast hbound
    have hvalue : (m : ℚ) * 2 ^ e / 2 ^ d = m / 2 := by
      rw [hd', zpow_add_one₀ htwo]
      field_simp
    rcases abs_eq (by norm_num : (0 : ℤ) ≤ 2 ^ 53) |>.1 habs with rfl | rfl
    · exact ⟨2 ^ 52, by rw [hvalue]; norm_num⟩
    · exact ⟨-2 ^ 52, by rw [hvalue]; norm_num⟩

theorem toDouble_idem {q r : ℚ} (h : toDouble q = .finite r) : toDouble r = .finite r := by
  obtain ⟨hscaled, hsmall, hbig⟩ := scaled_of_toDouble h
  obtain ⟨n, hn⟩ := hscaled.integer
  have hround : (roundHalfEven (r / 2 ^ max (Int.log 2 |r| - 52) (-1074)) : ℚ) * 2 ^ max (Int.log 2 |r| - 52) (-1074) =
    r := by
    rw [hn, roundHalfEven_intCast, ← hn]
    exact div_mul_cancel₀ _ (zpow_ne_zero _ (by norm_num))
  unfold toDouble
  simp only [hround]
  rw [if_neg (not_le.2 hbig), if_neg (not_le.2 hsmall)]

end Portmark.Lib.Json
