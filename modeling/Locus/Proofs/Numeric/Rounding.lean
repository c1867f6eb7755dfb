import Mathlib
import Locus.Numeric.Double

/-! Rounding to doubles. Every finite double is the one nearest to its own value, and what rounds
to a finite double lies below `2 ^ 1024`. -/

namespace Locus
set_option autoImplicit false

/-! ## Integers -/

theorem roundEven_natCast (n : Nat) : roundEven (n : Rat) = n := by
  have hfloor : (n : Rat).floor = n := by
    rw [← Rat.floor_intCast (n : Int)]
    norm_cast
  unfold roundEven
  dsimp only
  rw [hfloor, Int.toNat_natCast, sub_self, if_pos (by norm_num)]

theorem le_roundEven {n : Nat} {v : Rat} (h : (n : Rat) ≤ v) : n ≤ roundEven v := by
  have hfloor : (n : Int) ≤ v.floor := Rat.le_floor_iff.mpr (by exact_mod_cast h)
  unfold roundEven
  dsimp only
  split_ifs <;> omega

/-! ## Binary exponents -/

theorem two_zpow_log2_le {n : Nat} (h : n ≠ 0) : (2 : Rat) ^ (n.log2 : Int) ≤ n := by
  rw [zpow_natCast]
  exact_mod_cast Nat.log2_self_le h

theorem lt_two_zpow_log2 (n : Nat) : (n : Rat) < (2 : Rat) ^ ((n.log2 : Int) + 1) := by
  have h : n < 2 ^ (n.log2 + 1) := Nat.lt_log2_self
  rw [show (n.log2 : Int) + 1 = ((n.log2 + 1 : Nat) : Int) by push_cast; rfl, zpow_natCast]
  exact_mod_cast h

theorem binaryExponent_spec {v : Rat} (hv : 0 < v) :
    (2 : Rat) ^ binaryExponent v ≤ v ∧ v < (2 : Rat) ^ (binaryExponent v + 1) := by
  have hnum : v.num.natAbs ≠ 0 := by
    have := Rat.num_pos.mpr hv
    omega
  have hden : (0 : Rat) < v.den := by exact_mod_cast v.den_pos
  have hvalue : v * v.den = v.num.natAbs := by
    have hcast : (v.num.natAbs : Int) = v.num := Int.natAbs_of_nonneg (Rat.num_nonneg.mpr hv.le)
    rw [Rat.mul_den_eq_num, ← Int.cast_natCast v.num.natAbs, hcast]
  set a : Int := (v.num.natAbs.log2 : Int) with ha
  set b : Int := (v.den.log2 : Int) with hb
  have hnumle : (2 : Rat) ^ a ≤ v * v.den := hvalue ▸ two_zpow_log2_le hnum
  have hnumlt : v * v.den < (2 : Rat) ^ (a + 1) := hvalue ▸ lt_two_zpow_log2 _
  have hdenle : (2 : Rat) ^ b ≤ v.den := two_zpow_log2_le v.den_nz
  have hdenlt : (v.den : Rat) < (2 : Rat) ^ (b + 1) := lt_two_zpow_log2 _
  have hupper : v < (2 : Rat) ^ (a - b + 1) := by
    have hsplit : (2 : Rat) ^ (a - b + 1) * 2 ^ b = 2 ^ (a + 1) := by
      rw [← zpow_add₀ two_ne_zero]
      congr 1
      ring
    have hpos : (0 : Rat) < 2 ^ b := zpow_pos two_pos b
    refine lt_of_mul_lt_mul_right ?_ hpos.le
    rw [hsplit]
    exact (mul_le_mul_of_nonneg_left hdenle hv.le).trans_lt hnumlt
  have hlower : (2 : Rat) ^ (a - b - 1) ≤ v := by
    have hsplit : (2 : Rat) ^ (a - b - 1) * 2 ^ (b + 1) = 2 ^ a := by
      rw [← zpow_add₀ two_ne_zero]
      congr 1
      ring
    have hpos : (0 : Rat) < 2 ^ (b + 1) := zpow_pos two_pos _
    refine le_of_mul_le_mul_right ?_ hpos
    rw [hsplit]
    exact hnumle.trans (mul_le_mul_of_nonneg_left hdenlt.le hv.le)
  unfold binaryExponent
  dsimp only
  rw [← ha, ← hb]
  split_ifs with hbelow
  · exact ⟨hlower, by rwa [sub_add_cancel]⟩
  · exact ⟨not_lt.mp hbelow, hupper⟩

theorem binaryExponent_eq {v : Rat} {e : Int} (hle : (2 : Rat) ^ e ≤ v)
    (hlt : v < (2 : Rat) ^ (e + 1)) : binaryExponent v = e := by
  obtain ⟨hle', hlt'⟩ := binaryExponent_spec ((zpow_pos two_pos e).trans_le hle)
  have h := (zpow_lt_zpow_iff_right₀ one_lt_two).mp (hle.trans_lt hlt')
  have h' := (zpow_lt_zpow_iff_right₀ one_lt_two).mp (hle'.trans_lt hlt)
  omega

theorem binaryExponent_scaled {m k : Nat} {q : Int} (hle : 2 ^ k ≤ m) (hlt : m < 2 ^ (k + 1)) :
    binaryExponent ((m : Rat) * 2 ^ q) = k + q := by
  have hpos : (0 : Rat) < 2 ^ q := zpow_pos two_pos q
  refine binaryExponent_eq ?_ ?_
  · rw [zpow_add₀ two_ne_zero, zpow_natCast]
    exact mul_le_mul_of_nonneg_right (by exact_mod_cast hle) hpos.le
  · rw [show (k : Int) + q + 1 = ((k + 1 : Nat) : Int) + q by push_cast; ring,
      zpow_add₀ two_ne_zero, zpow_natCast]
    exact mul_lt_mul_of_pos_right (by exact_mod_cast hlt) hpos

/-! ## Ranks -/

namespace Double

theorem rankCount_eq : rankCount = 2047 * 2 ^ 52 := rfl

theorem significand_eq (rank : Nat) :
    significand rank = if rank < 2 ^ 52 then rank else 2 ^ 52 + rank % 2 ^ 52 := rfl

theorem scale_eq (rank : Nat) :
    scale rank = if rank < 2 ^ 52 then -1074 else ((rank / 2 ^ 52 : Nat) : Int) - 1075 := rfl

theorem nearestRank_eq {v : Rat} (h : v ≠ 0) :
    nearestRank v = (max (binaryExponent v - 52) (-1074) + 1074).toNat * 2 ^ 52
      + roundEven (v / 2 ^ max (binaryExponent v - 52) (-1074)) := by
  rw [nearestRank, if_neg h]
  rfl

theorem magnitude_nonneg (rank : Nat) : 0 ≤ magnitude rank :=
  mul_nonneg (Nat.cast_nonneg _) (zpow_pos two_pos _).le

theorem significand_pos {rank : Nat} (h : rank ≠ 0) : 0 < significand rank := by
  rw [significand_eq]
  split_ifs <;> omega

theorem magnitude_pos {rank : Nat} (h : rank ≠ 0) : 0 < magnitude rank :=
  mul_pos (Nat.cast_pos.mpr (significand_pos h)) (zpow_pos two_pos _)

theorem magnitude_zero : magnitude 0 = 0 := by
  rw [magnitude, show significand 0 = 0 from rfl, Nat.cast_zero, zero_mul]

theorem magnitude_eq_zero {rank : Nat} : magnitude rank = 0 ↔ rank = 0 := by
  constructor
  · intro h
    by_contra hrank
    exact (magnitude_pos hrank).ne' h
  · rintro rfl
    exact magnitude_zero

/-- The scale of a double is the one that rounding finds for its value. -/
theorem rounding_scale {rank : Nat} (h : rank ≠ 0) :
    max (binaryExponent (magnitude rank) - 52) (-1074) = scale rank := by
  by_cases hsmall : rank < 2 ^ 52
  · have hpos : (0 : Rat) < magnitude rank := magnitude_pos h
    have hbound : magnitude rank < (2 : Rat) ^ (-1022 : Int) := by
      rw [magnitude, significand_eq, if_pos hsmall, scale_eq, if_pos hsmall,
        show (-1022 : Int) = ((52 : Nat) : Int) + -1074 by norm_num, zpow_add₀ two_ne_zero,
        zpow_natCast]
      exact mul_lt_mul_of_pos_right (by exact_mod_cast hsmall) (zpow_pos two_pos _)
    have hlt := (zpow_lt_zpow_iff_right₀ one_lt_two).mp
      ((binaryExponent_spec hpos).1.trans_lt hbound)
    rw [scale_eq, if_pos hsmall]
    omega
  · have hle : 2 ^ 52 ≤ significand rank := by
      rw [significand_eq, if_neg hsmall]
      omega
    have hlt : significand rank < 2 ^ (52 + 1) := by
      rw [significand_eq, if_neg hsmall]
      omega
    rw [magnitude, binaryExponent_scaled hle hlt, scale_eq, if_neg hsmall]
    omega

theorem nearestRank_magnitude (rank : Nat) : nearestRank (magnitude rank) = rank := by
  by_cases h : rank = 0
  · rw [h, magnitude_zero]
    rfl
  · have hdivide : magnitude rank / 2 ^ scale rank = significand rank := by
      rw [magnitude]
      exact mul_div_cancel_right₀ _ (zpow_pos two_pos _).ne'
    rw [nearestRank_eq (magnitude_eq_zero.not.mpr h), rounding_scale h, hdivide,
      roundEven_natCast, scale_eq, significand_eq]
    by_cases hsmall : rank < 2 ^ 52
    · rw [if_pos hsmall, if_pos hsmall]
      omega
    · rw [if_neg hsmall, if_neg hsmall]
      omega

theorem nearestRank_of_large {v : Rat} (h : (2 : Rat) ^ 1024 ≤ v) : rankCount ≤ nearestRank v := by
  have hpos : 0 < v := (by positivity : (0 : Rat) < 2 ^ 1024).trans_le h
  have hle : (2 : Rat) ^ (1024 : Int) ≤ v := by exact_mod_cast h
  obtain ⟨hlower, hupper⟩ := binaryExponent_spec hpos
  have hexponent := (zpow_lt_zpow_iff_right₀ one_lt_two).mp (hle.trans_lt hupper)
  have hscaled : ((2 ^ 52 : Nat) : Rat) ≤ v / 2 ^ (binaryExponent v - 52) := by
    rw [le_div_iff₀ (zpow_pos two_pos _)]
    refine le_of_eq_of_le ?_ hlower
    rw [Nat.cast_pow, ← zpow_natCast, Nat.cast_ofNat, ← zpow_add₀ two_ne_zero]
    congr 1
    push_cast
    ring
  have hround := le_roundEven hscaled
  rw [nearestRank_eq hpos.ne', max_eq_left (by omega), rankCount_eq]
  have hbinade : 2046 ≤ (binaryExponent v - 52 + 1074).toNat := by omega
  have hproduct := Nat.mul_le_mul_right (2 ^ 52) hbinade
  omega

theorem lt_of_ofMagnitude? {negative : Bool} {v : Rat} (h : (ofMagnitude? negative v).isSome) :
    v < 2 ^ 1024 := by
  by_contra hlarge
  have hrank := nearestRank_of_large (not_lt.mp hlarge)
  rw [ofMagnitude?, dif_neg (not_lt.mpr hrank)] at h
  cases h

theorem ofMagnitude?_eq_some {negative : Bool} {v : Rat} {rank : Fin rankCount}
    (h : nearestRank v = rank) : ofMagnitude? negative v = some (finite negative rank) := by
  unfold ofMagnitude?
  dsimp only
  rw [dif_pos (h ▸ rank.isLt)]
  congr 2
  exact Fin.ext h

end Double
end Locus
