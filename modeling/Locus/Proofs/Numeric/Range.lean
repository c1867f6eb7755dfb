import Mathlib
import Locus.Proofs.Numeric.Nearest

/-! The range of the doubles. A number is rounded to zero if it is no greater than half the least
double (`nearestRank_eq_zero_iff`), and it overflows from half a step beyond the greatest double
(`rankCount_le_nearestRank_iff`). -/

namespace Locus
set_option autoImplicit false

/-! ## Integers -/

section

variable {v : Rat} {n : Nat}

theorem roundEven_eq_zero_iff (hv : 0 ≤ v) : roundEven v = 0 ↔ v ≤ 1 / 2 := by
  obtain ⟨k, hle, hlt, hround⟩ := roundEven_cases hv
  constructor
  · intro hzero
    have hk : k = 0 := by omega
    rw [hk, Nat.cast_zero, sub_zero] at hround
    rcases hround with ⟨hbelow, -⟩ | ⟨-, hone⟩ | ⟨hhalf, -⟩
    · exact hbelow.le
    · omega
    · exact hhalf.le
  · intro hhalf
    have hk : k = 0 := by
      have hone : (k : Rat) < 1 := by linarith
      have hone' : k < 1 := by exact_mod_cast hone
      omega
    rw [hk, Nat.cast_zero, sub_zero] at hround
    rcases hround with ⟨-, hzero⟩ | ⟨hbeyond, -⟩ | ⟨-, hzero⟩
    · exact hzero
    · linarith
    · exact hzero

/-- Half a step below an even integer, a number is rounded up to it. -/
theorem le_roundEven_iff (hv : 0 ≤ v) (heven : 2 ∣ n) : n ≤ roundEven v ↔ (n : Rat) - 1 / 2 ≤ v := by
  obtain ⟨k, hle, hlt, hround⟩ := roundEven_cases hv
  have hcast : ∀ m : Nat, n ≤ m ↔ (n : Rat) ≤ m := fun m => Nat.cast_le.symm
  rcases hround with ⟨hbelow, hround⟩ | ⟨hbeyond, hround⟩ | ⟨hhalf, hround⟩
  · rw [hround]
    refine ⟨fun hn => by linarith [(hcast k).mp hn], fun hn => ?_⟩
    have hlt : (n : Rat) < k + 1 := by linarith
    exact Nat.lt_succ_iff.mp (by exact_mod_cast hlt)
  · rw [hround]
    refine ⟨fun hn => ?_, fun hn => ?_⟩
    · have hle' := (hcast (k + 1)).mp hn
      push_cast at hle'
      linarith
    · have hlt' : (n : Rat) < k + 2 := by linarith
      exact Nat.lt_succ_iff.mp (by exact_mod_cast hlt')
  · -- at the midpoint, the even one of the two integers is taken
    have hstep : n ≤ k + k % 2 ↔ n ≤ k + 1 := by omega
    rw [hround, hstep, hcast (k + 1)]
    push_cast
    constructor <;> intro hn <;> linarith

end

/-! ## Ranks -/

namespace Double

variable {v : Rat}

theorem lowest_le_unit (v : Rat) : -1074 ≤ unit v := le_max_right _ _

/-- Half the least double above zero. -/
def underflowBound : Rat := 2 ^ (-1075 : Int)

theorem underflowBound_lt_one : underflowBound < 1 := zpow_lt_one_of_neg₀ one_lt_two (by norm_num)

theorem nearestRank_eq_zero_iff (hv : 0 ≤ v) : nearestRank v = 0 ↔ v ≤ underflowBound := by
  rcases hv.eq_or_lt with rfl | hpos
  · exact iff_of_true rfl (zpow_pos two_pos _).le
  have hscaled : 0 ≤ v / 2 ^ unit v := (div_pos hpos (two_zpow_unit_pos v)).le
  rw [nearestRank_of_pos hpos]
  rcases (lowest_le_unit v).eq_or_lt with hlowest | habove
  · have hhalf : underflowBound = 1 / 2 * 2 ^ (-1074 : Int) := by
      rw [underflowBound, show (-1074 : Int) = -1075 + 1 by norm_num, zpow_add_one₀ two_ne_zero]
      ring
    rw [← hlowest] at hscaled ⊢
    rw [show ((-1074 : Int) + 1074).toNat * 2 ^ 52 = 0 by norm_num, Nat.zero_add,
      roundEven_eq_zero_iff hscaled, div_le_iff₀ (zpow_pos two_pos _), ← hhalf]
  · -- the doubles of a higher binade are all greater
    refine iff_of_false (by omega) (not_le.mpr ?_)
    calc underflowBound < 2 ^ unit v := zpow_lt_zpow_right₀ one_lt_two (by omega)
      _ ≤ 2 ^ 52 * 2 ^ unit v := le_mul_of_one_le_left (two_zpow_unit_pos v).le (by norm_num)
      _ ≤ v := unit_binade_le hpos habove

/-- The midpoint of the greatest double and the power of two behind it. -/
def overflowBound : Rat := 2 ^ 1024 - 2 ^ 970

theorem overflowBound_eq : overflowBound = (((2 ^ 53 : Nat) : Rat) - 1 / 2) * 2 ^ (971 : Int) := by
  have hwhole : (2 : Rat) ^ 1024 = 2 ^ 53 * 2 ^ 971 := by rw [← pow_add]
  have hhalf : (2 : Rat) ^ 971 = 2 * 2 ^ 970 := by rw [← pow_succ']
  rw [overflowBound, hwhole, zpow_ofNat, hhalf, Nat.cast_pow, Nat.cast_ofNat]
  generalize (2 : Rat) ^ 970 = step
  ring

theorem overflowBound_pos : 0 < overflowBound := by
  rw [overflowBound_eq]
  exact mul_pos (by norm_num) (zpow_pos two_pos _)

theorem unit_le_of_lt (hpos : 0 < v) (h : v < 2 ^ 1024) : unit v ≤ 971 := by
  have hlt : (2 : Rat) ^ binaryExponent v < 2 ^ (1024 : Int) :=
    (binaryExponent_spec hpos).1.trans_lt (by exact_mod_cast h)
  have hexponent := (zpow_lt_zpow_iff_right₀ one_lt_two).mp hlt
  rw [unit]
  omega

theorem rankCount_le_nearestRank_iff (hv : 0 ≤ v) :
    rankCount ≤ nearestRank v ↔ overflowBound ≤ v := by
  rcases le_or_gt (2 ^ 1024) v with hlarge | hsmall
  · refine iff_of_true (nearestRank_of_large hlarge) (le_trans ?_ hlarge)
    exact sub_le_self _ (by positivity)
  rcases hv.eq_or_lt with rfl | hpos
  · exact iff_of_false (by decide) (not_le.mpr overflowBound_pos)
  have hscaled : 0 ≤ v / 2 ^ unit v := (div_pos hpos (two_zpow_unit_pos v)).le
  rw [nearestRank_of_pos hpos, rankCount_eq]
  rcases (unit_le_of_lt hpos hsmall).eq_or_lt with hgreatest | hbelow
  · rw [hgreatest] at hscaled ⊢
    have hcount : 2047 * 2 ^ 52 ≤ ((971 : Int) + 1074).toNat * 2 ^ 52 + roundEven (v / 2 ^ (971 : Int))
        ↔ 2 ^ 53 ≤ roundEven (v / 2 ^ (971 : Int)) := by
      rw [show ((971 : Int) + 1074).toNat = 2045 from rfl]
      omega
    rw [hcount, le_roundEven_iff hscaled (by norm_num), le_div_iff₀ (zpow_pos two_pos _),
      overflowBound_eq]
  · have hround : roundEven (v / 2 ^ unit v) ≤ 2 ^ 53 :=
      roundEven_le hscaled (by exact_mod_cast (lt_unit_binade hpos).le)
    refine iff_of_false (by omega) (not_le.mpr ?_)
    rw [overflowBound_eq]
    calc v < 2 ^ 53 * 2 ^ unit v := (div_lt_iff₀ (two_zpow_unit_pos v)).mp (lt_unit_binade hpos)
      _ = 2 ^ 52 * 2 ^ (unit v + 1) := by
          rw [zpow_add_one₀ two_ne_zero]
          ring
      _ ≤ 2 ^ 52 * 2 ^ (971 : Int) :=
          mul_le_mul_of_nonneg_left (zpow_le_zpow_right₀ one_le_two (by omega)) (by positivity)
      _ ≤ (((2 ^ 53 : Nat) : Rat) - 1 / 2) * 2 ^ (971 : Int) :=
          mul_le_mul_of_nonneg_right (by norm_num) (zpow_pos two_pos _).le

/-! ## Rationals -/

theorem ofRat?_eq_none_iff : ofRat? v = none ↔ overflowBound ≤ |v| := by
  rw [ofRat?_eq, ofMagnitude?, ← rankCount_le_nearestRank_iff (abs_nonneg v)]
  split
  · exact iff_of_false (by simp) (not_le.mpr ‹_›)
  · exact iff_of_true rfl (not_lt.mp ‹_›)

/-- The double nearest to a rational is zero. -/
theorem toRat?_eq_zero_iff {x : Double} (h : ofRat? v = some x) :
    x.toRat? = some 0 ↔ |v| ≤ underflowBound := by
  rw [ofRat?_eq, ofMagnitude?] at h
  split at h
  · cases h
    rw [← nearestRank_eq_zero_iff (abs_nonneg v), ← magnitude_eq_zero, toRat?, Option.some.injEq]
    unfold signed
    split
    · exact neg_eq_zero
    · exact Iff.rfl
  · cases h

end Double
end Locus
