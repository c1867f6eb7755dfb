import Mathlib
import Locus.Proofs.Numeric.Integers

/-! Rounding finds the nearest double. The doubles in the binade of a rational are the multiples of
one power of two, the integer nearest to the scaled rational gives the nearest of them, and the
doubles below the binade are farther away than the first one in it (`isNearest_of_ofRat?`). -/

namespace Locus
set_option autoImplicit false

/-! ## Integers -/

section

variable {v : Rat} {n : Nat}

/-- The integers around a nonnegative rational, and which of them it is rounded to. -/
theorem roundEven_cases (hv : 0 ≤ v) : ∃ k : Nat, (k : Rat) ≤ v ∧ v < k + 1 ∧
    (v - k < 1 / 2 ∧ roundEven v = k ∨ 1 / 2 < v - k ∧ roundEven v = k + 1 ∨
      v - k = 1 / 2 ∧ roundEven v = k + k % 2) := by
  have hfloor : 0 ≤ v.floor := Rat.le_floor_iff.mpr (by simpa using hv)
  have hcast : ((v.floor.toNat : Nat) : Rat) = (v.floor : Rat) := by
    exact_mod_cast congrArg (Int.cast (R := Rat)) (Int.toNat_of_nonneg hfloor)
  refine ⟨v.floor.toNat, ?_, ?_, ?_⟩
  · rw [hcast]
    exact Rat.floor_le v
  · rw [hcast]
    exact_mod_cast Rat.lt_floor_add_one v
  · unfold roundEven
    dsimp only
    split_ifs with hbelow habove
    · exact .inl ⟨hbelow, rfl⟩
    · exact .inr (.inl ⟨habove, rfl⟩)
    · exact .inr (.inr ⟨le_antisymm (not_lt.mp habove) (not_lt.mp hbelow), rfl⟩)

theorem roundEven_le (hv : 0 ≤ v) (h : v ≤ n) : roundEven v ≤ n := by
  obtain ⟨k, hle, -, hround⟩ := roundEven_cases hv
  have hkn : k ≤ n := by exact_mod_cast hle.trans h
  by_cases heq : k = n
  · have hzero : v - k = 0 := by
      rw [heq] at hle ⊢
      linarith
    rcases hround with ⟨-, hround⟩ | ⟨hlt, -⟩ | ⟨hhalf, -⟩
    · omega
    · linarith
    · linarith
  · rcases hround with ⟨-, hround⟩ | ⟨-, hround⟩ | ⟨-, hround⟩ <;> omega

/-- The rounded integer is at most half away, and it is even where it is half away. -/
theorem roundEven_near (hv : 0 ≤ v) : |(roundEven v : Rat) - v| < 1 / 2 ∨
    |(roundEven v : Rat) - v| = 1 / 2 ∧ 2 ∣ roundEven v := by
  obtain ⟨k, hle, hlt, hround⟩ := roundEven_cases hv
  rcases hround with ⟨hrest, hround⟩ | ⟨hrest, hround⟩ | ⟨hrest, hround⟩
  · left
    rw [hround, abs_of_nonpos (by linarith)]
    linarith
  · left
    rw [hround]
    push_cast
    rw [abs_of_nonneg (by linarith)]
    linarith
  · right
    refine ⟨?_, by omega⟩
    rw [hround]
    rcases Nat.mod_two_eq_zero_or_one k with hparity | hparity
    · rw [hparity, Nat.add_zero, abs_of_nonpos (by linarith)]
      linarith
    · rw [hparity]
      push_cast
      rw [abs_of_nonneg (by linarith)]
      linarith

/-- Two integers are one apart or more, so not both of them are nearer than half. -/
theorem half_le_abs_sub {m : Nat} (hne : n ≠ m) (h : |(m : Rat) - v| ≤ 1 / 2) :
    1 / 2 ≤ |(n : Rat) - v| := by
  have hapart : (1 : Rat) ≤ |(n : Rat) - m| := by
    have hne' : (n : Int) - m ≠ 0 := by omega
    exact_mod_cast Int.one_le_abs hne'
  have htriangle : |(n : Rat) - m| ≤ |(n : Rat) - v| + |(m : Rat) - v| := by
    rw [abs_sub_comm (m : Rat) v]
    exact abs_sub_le _ _ _
  linarith

/-- An integer other than the rounded one is farther away, unless the two are at the same distance
and the rounded one is even. -/
theorem roundEven_spec (hv : 0 ≤ v) (hn : n ≠ roundEven v) :
    |(roundEven v : Rat) - v| < |(n : Rat) - v| ∨
      |(roundEven v : Rat) - v| = |(n : Rat) - v| ∧ 2 ∣ roundEven v := by
  rcases roundEven_near hv with hnear | ⟨hhalf, heven⟩
  · exact .inl (hnear.trans_le (half_le_abs_sub hn hnear.le))
  · rcases (half_le_abs_sub hn hhalf.le).lt_or_eq with hfarther | hsame
    · exact .inl (hhalf.trans_lt hfarther)
    · exact .inr ⟨hhalf.trans hsame, heven⟩

theorem abs_roundEven_sub_le (hv : 0 ≤ v) (n : Nat) :
    |(roundEven v : Rat) - v| ≤ |(n : Rat) - v| := by
  by_cases hn : n = roundEven v
  · rw [hn]
  · rcases roundEven_spec hv hn with hlt | ⟨heq, -⟩
    · exact hlt.le
    · exact heq.le

end

/-! ## Ranks -/

namespace Double

variable {v : Rat}

/-- The power of two of which the doubles in the binade of a rational are multiples. -/
def unit (v : Rat) : Int := max (binaryExponent v - 52) (-1074)

theorem nearestRank_of_pos (hv : 0 < v) :
    nearestRank v = (unit v + 1074).toNat * 2 ^ 52 + roundEven (v / 2 ^ unit v) :=
  nearestRank_eq hv.ne'

/-- A significand that is not below those of the binade counts the ranks from the first of them. -/
theorem magnitude_add {j k : Nat} (hk : k ≤ 2 ^ 53) (hj : j = 0 ∨ 2 ^ 52 ≤ k) :
    magnitude (j * 2 ^ 52 + k) = (k : Rat) * 2 ^ ((j : Int) - 1074) := by
  rw [magnitude, significand_eq, scale_eq]
  by_cases hsmall : j * 2 ^ 52 + k < 2 ^ 52
  · obtain rfl : j = 0 := by omega
    rw [if_pos hsmall, if_pos hsmall, Nat.zero_mul, Nat.zero_add]
    norm_num
  · rw [if_neg hsmall, if_neg hsmall]
    rcases Nat.lt_or_ge k (2 ^ 53) with hlt | hge
    · rw [show (j * 2 ^ 52 + k) / 2 ^ 52 = j + 1 by omega,
        show 2 ^ 52 + (j * 2 ^ 52 + k) % 2 ^ 52 = k by omega]
      congr 2
      push_cast
      ring
    · obtain rfl : k = 2 ^ 53 := by omega
      rw [show (j * 2 ^ 52 + 2 ^ 53) / 2 ^ 52 = j + 2 by omega,
        show 2 ^ 52 + (j * 2 ^ 52 + 2 ^ 53) % 2 ^ 52 = 2 ^ 52 by omega,
        show ((j + 2 : Nat) : Int) - 1075 = ((j : Int) - 1074) + 1 by push_cast; ring,
        zpow_add_one₀ two_ne_zero]
      push_cast
      ring

theorem two_zpow_unit_pos (v : Rat) : (0 : Rat) < 2 ^ unit v := zpow_pos two_pos _

theorem lt_unit_binade (hv : 0 < v) : v / 2 ^ unit v < 2 ^ 53 := by
  rw [div_lt_iff₀ (two_zpow_unit_pos v), ← zpow_natCast, ← zpow_add₀ two_ne_zero]
  refine (binaryExponent_spec hv).2.trans_le (zpow_le_zpow_right₀ one_le_two ?_)
  rw [unit]
  omega

theorem unit_binade_le (hv : 0 < v) (h : -1074 < unit v) : (2 : Rat) ^ 52 * 2 ^ unit v ≤ v := by
  have hunit : unit v = binaryExponent v - 52 := by
    rw [unit] at h ⊢
    omega
  rw [hunit, ← zpow_natCast, ← zpow_add₀ two_ne_zero]
  refine (le_of_eq ?_).trans (binaryExponent_spec hv).1
  congr 1
  push_cast
  ring

theorem magnitude_nearestRank_of_pos (hv : 0 < v) :
    magnitude (nearestRank v) = (roundEven (v / 2 ^ unit v) : Rat) * 2 ^ unit v := by
  have hscaled : 0 ≤ v / 2 ^ unit v := (div_pos hv (two_zpow_unit_pos v)).le
  have hle : roundEven (v / 2 ^ unit v) ≤ 2 ^ 53 :=
    roundEven_le hscaled (by exact_mod_cast (lt_unit_binade hv).le)
  have hge : (unit v + 1074).toNat = 0 ∨ 2 ^ 52 ≤ roundEven (v / 2 ^ unit v) := by
    rcases Nat.eq_zero_or_pos (unit v + 1074).toNat with hzero | hpos
    · exact .inl hzero
    · have hbinade := unit_binade_le hv (by omega)
      refine .inr (le_roundEven ?_)
      rw [le_div_iff₀ (two_zpow_unit_pos v)]
      exact_mod_cast hbinade
  have hunit : -1074 ≤ unit v := le_max_right _ _
  rw [nearestRank_of_pos hv, magnitude_add hle hge]
  congr 2
  omega

/-- A double is a multiple of the unit, or it lies below the binade. -/
theorem multiple_or_below (hv : 0 < v) (rank : Nat) :
    (∃ m : Nat, magnitude rank = (m : Rat) * 2 ^ unit v) ∨
      magnitude rank < 2 ^ 52 * 2 ^ unit v ∧ (2 : Rat) ^ 52 * 2 ^ unit v ≤ v := by
  rcases le_or_gt (unit v) (scale rank) with hle | hlt
  · left
    refine ⟨significand rank * 2 ^ (scale rank - unit v).toNat, ?_⟩
    have hpower : (2 : Rat) ^ scale rank = 2 ^ (scale rank - unit v).toNat * 2 ^ unit v := by
      rw [← zpow_natCast, ← zpow_add₀ two_ne_zero]
      congr 1
      omega
    rw [magnitude, hpower]
    push_cast
    ring
  · right
    have hlowest : -1074 ≤ scale rank := by
      rw [scale_eq]
      split_ifs <;> omega
    have hsignificand : (significand rank : Rat) < 2 ^ 53 := by
      have : significand rank < 2 ^ 53 := by
        rw [significand_eq]
        split_ifs <;> omega
      exact_mod_cast this
    refine ⟨?_, unit_binade_le hv (by omega)⟩
    calc magnitude rank < 2 ^ 53 * 2 ^ scale rank :=
          mul_lt_mul_of_pos_right hsignificand (zpow_pos two_pos _)
      _ = 2 ^ 52 * 2 ^ (scale rank + 1) := by
          rw [zpow_add_one₀ two_ne_zero]
          ring
      _ ≤ 2 ^ 52 * 2 ^ unit v :=
          mul_le_mul_of_nonneg_left (zpow_le_zpow_right₀ one_le_two (by omega)) (by positivity)

/-- A double other than the rounded one is farther away, unless the two are at the same distance and
the rounded one is even. -/
theorem nearestRank_spec (hv : 0 ≤ v) {rank : Nat} (hrank : rank ≠ nearestRank v) :
    |magnitude (nearestRank v) - v| < |magnitude rank - v| ∨
      |magnitude (nearestRank v) - v| = |magnitude rank - v| ∧ 2 ∣ nearestRank v := by
  rcases hv.eq_or_lt with rfl | hpos
  · have hzero : nearestRank 0 = 0 := rfl
    rw [hzero] at hrank ⊢
    left
    rw [magnitude_zero, sub_zero, abs_zero, sub_zero, abs_of_pos (magnitude_pos hrank)]
    exact magnitude_pos hrank
  · have hunit := two_zpow_unit_pos v
    have hscaled : 0 ≤ v / 2 ^ unit v := (div_pos hpos hunit).le
    have hdistance : ∀ m : Nat,
        |(m : Rat) * 2 ^ unit v - v| = |(m : Rat) - v / 2 ^ unit v| * 2 ^ unit v := by
      intro m
      rw [← abs_of_pos hunit, ← abs_mul, abs_of_pos hunit, sub_mul, div_mul_cancel₀ _ hunit.ne']
    rw [magnitude_nearestRank_of_pos hpos, hdistance]
    rcases multiple_or_below hpos rank with ⟨m, hm⟩ | ⟨hbelow, hbinade⟩
    · have hne : m ≠ roundEven (v / 2 ^ unit v) := by
        rintro rfl
        rw [← magnitude_nearestRank_of_pos hpos] at hm
        exact hrank (by rw [← nearestRank_magnitude rank, hm, nearestRank_magnitude])
      rw [hm, hdistance]
      rcases roundEven_spec hscaled hne with hlt | ⟨heq, heven⟩
      · exact .inl (mul_lt_mul_of_pos_right hlt hunit)
      · refine .inr ⟨by rw [heq], ?_⟩
        rw [nearestRank_of_pos hpos]
        omega
    · -- the first double of the binade is between, and it is no nearer than the rounded one
      have hfirst := mul_le_mul_of_nonneg_right (abs_roundEven_sub_le hscaled (2 ^ 52)) hunit.le
      rw [← hdistance (2 ^ 52), Nat.cast_pow, Nat.cast_ofNat,
        abs_of_nonpos (sub_nonpos.mpr hbinade)] at hfirst
      rw [abs_of_nonpos (by linarith : magnitude rank - v ≤ 0)]
      exact .inl (by linarith)

/-! ## Doubles -/

/-- The last bit of the significand is zero. -/
def IsEven : Double → Prop
  | finite _ rank => 2 ∣ rank.val
  | _ => False

/-- No finite double is nearer to a rational than this one, and one at the same distance is the same
number unless this one is even. -/
structure IsNearest (x : Double) (v : Rat) : Prop where
  isFinite : x.isFinite
  closest : ∀ (y : Double) (a b : Rat), x.toRat? = some a → y.toRat? = some b → |a - v| ≤ |b - v|
  even : ∀ (y : Double) (a b : Rat), x.toRat? = some a → y.toRat? = some b →
    |a - v| = |b - v| → a = b ∨ x.IsEven

theorem abs_signed_sub (negative : Bool) (a v : Rat) :
    |signed negative a - signed negative v| = |a - v| := by
  cases negative with
  | false => rfl
  | true => rw [signed, signed, if_pos rfl, if_pos rfl, neg_sub_neg, abs_sub_comm]

theorem abs_signed_sub_of_ne {negative other : Bool} (hsign : other ≠ negative) {a v : Rat}
    (ha : 0 ≤ a) (hv : 0 ≤ v) : |signed other a - signed negative v| = a + v := by
  cases negative <;> cases other <;> simp only [signed, Bool.false_eq_true, if_true, if_false]
  · exact absurd rfl hsign
  · rw [abs_of_nonpos (by linarith : -a - v ≤ 0)]
    ring
  · rw [abs_of_nonneg (by linarith : 0 ≤ a - -v)]
    ring
  · exact absurd rfl hsign

/-- Of a magnitude with either sign, the one with the sign of a number is nearer to it. -/
theorem abs_signed_sub_le (negative other : Bool) {a v : Rat} (ha : 0 ≤ a) (hv : 0 ≤ v) :
    |signed negative a - signed negative v| ≤ |signed other a - signed negative v| := by
  by_cases hsign : other = negative
  · rw [hsign]
  · rw [abs_signed_sub, abs_signed_sub_of_ne hsign ha hv]
    exact abs_sub_le_iff.mpr ⟨by linarith, by linarith⟩

/-- A magnitude has different distances from a number and from its negation, unless one of them is
zero. -/
theorem eq_zero_of_abs_signed_sub_eq {negative other : Bool} (hsign : other ≠ negative) {a v : Rat}
    (ha : 0 ≤ a) (hv : 0 ≤ v) (h : |a - v| = |signed other a - signed negative v|) :
    a = 0 ∨ v = 0 := by
  rw [abs_signed_sub_of_ne hsign ha hv] at h
  rcases abs_cases (a - v) with ⟨habs, -⟩ | ⟨habs, -⟩
  · exact .inr (by linarith)
  · exact .inl (by linarith)

theorem isNearest_signed {negative : Bool} (hv : 0 ≤ v) {rank : Fin rankCount}
    (h : rank.val = nearestRank v) : (finite negative rank).IsNearest (signed negative v) := by
  have hspec : ∀ (other : Bool) (rank' : Fin rankCount),
      |magnitude rank - v| ≤ |signed other (magnitude rank') - signed negative v| ∧
        (|magnitude rank - v| = |signed other (magnitude rank') - signed negative v| →
          signed negative (magnitude rank) = signed other (magnitude rank') ∨ 2 ∣ rank.val) := by
    intro other rank'
    have hsign := abs_signed_sub_le negative other (magnitude_nonneg rank') hv
    rw [abs_signed_sub] at hsign
    by_cases hsame : rank' = rank
    · subst hsame
      refine ⟨hsign, fun heq => ?_⟩
      by_cases hother : other = negative
      · exact .inl (by rw [hother])
      · -- of two numbers of opposite sign only zero is as near
        right
        have hzero : rank'.val = 0 := by
          by_contra hne
          rcases eq_zero_of_abs_signed_sub_eq hother (magnitude_nonneg rank') hv heq with ha | rfl
          · exact (magnitude_pos hne).ne' ha
          · exact hne h
        rw [hzero]
        exact Nat.dvd_zero 2
    · have hother : rank'.val ≠ nearestRank v := fun heq => hsame (Fin.ext (heq.trans h.symm))
      rcases nearestRank_spec hv hother with hlt | ⟨heq, heven⟩
      · rw [← h] at hlt
        exact ⟨hlt.le.trans hsign, fun heq => absurd heq (hlt.trans_le hsign).ne⟩
      · rw [← h] at heq heven
        exact ⟨heq.le.trans hsign, fun _ => .inr heven⟩
  refine ⟨rfl, ?_, ?_⟩
  · intro y a b ha hb
    cases y with
    | finite other rank' =>
      cases ha
      cases hb
      rw [abs_signed_sub]
      exact (hspec other rank').1
    | infinite _ => cases hb
    | nan => cases hb
  · intro y a b ha hb heq
    cases y with
    | finite other rank' =>
      cases ha
      cases hb
      rw [abs_signed_sub] at heq
      exact (hspec other rank').2 heq
    | infinite _ => cases hb
    | nan => cases hb

theorem signed_abs (v : Rat) : signed (decide (v < 0)) |v| = v := by
  rcases lt_or_ge v 0 with hneg | hpos
  · rw [decide_eq_true hneg, signed, if_pos rfl, abs_of_neg hneg, neg_neg]
  · rw [decide_eq_false hpos.not_gt, signed, if_neg Bool.false_ne_true, abs_of_nonneg hpos]

theorem isNearest_of_ofMagnitude? {negative : Bool} {x : Double} (hv : 0 ≤ v)
    (h : ofMagnitude? negative v = some x) : x.IsNearest (signed negative v) := by
  rw [ofMagnitude?] at h
  split at h
  · cases h
    exact isNearest_signed hv rfl
  · cases h

theorem ofRat?_eq (v : Rat) : ofRat? v = ofMagnitude? (decide (v < 0)) |v| := by
  rw [ofRat?]
  rcases lt_or_ge v 0 with hneg | hpos
  · rw [if_pos hneg, abs_of_neg hneg]
  · rw [if_neg hpos.not_gt, abs_of_nonneg hpos]

/-- Rounding a rational gives the nearest double. -/
theorem isNearest_of_ofRat? {x : Double} (h : ofRat? v = some x) : x.IsNearest v := by
  rw [ofRat?_eq] at h
  have hnearest := isNearest_of_ofMagnitude? (abs_nonneg v) h
  rwa [signed_abs] at hnearest

/-! ## Integral doubles -/

/-- The shortest decimal of an integer is an integer, though not always the same one. -/
theorem den_toRat_shortest {rank n : Nat} (hvalue : magnitude rank = n) :
    (shortest rank).toRat.den = 1 := by
  rcases toRat_shortest_cases rank with hexact | ⟨k, d, -, hd, hshortest⟩
  · rw [hexact, hvalue]
    exact Rat.den_natCast n
  · rw [hshortest]
    by_cases hgrid : decimalExponent (n : Rat) - (k : Int) ≤ 0
    · rw [toRat_of_decimalOfLength?_of_fine hvalue hgrid hd]
      exact Rat.den_natCast n
    · -- the grid is one of whole tens
      have hexponent : d.exponent = ((decimalExponent (n : Rat) - k).toNat : Int) := by
        rw [Int.toNat_of_nonneg (by omega), ← hvalue]
        rcases decimalOfLength?_mem hd with rfl | rfl <;> rfl
      have hwhole : d.toRat
          = ((d.digits * 10 ^ (decimalExponent (n : Rat) - k).toNat : Nat) : Rat) := by
        rw [Decimal.toRat, hexponent, zpow_natCast]
        push_cast
        rfl
      rw [hwhole]
      exact Rat.den_natCast _

/-- The double nearest to an integer is an integer. -/
theorem exists_magnitude_nearestRank (n : Nat) : ∃ m : Nat, magnitude (nearestRank n) = m := by
  rcases Nat.eq_zero_or_pos n with rfl | hn
  · exact ⟨0, by rw [Nat.cast_zero]; exact magnitude_zero⟩
  · have hpos : (0 : Rat) < n := by exact_mod_cast hn
    rw [magnitude_nearestRank_of_pos hpos]
    rcases le_or_gt 0 (unit (n : Rat)) with hunit | hunit
    · refine ⟨roundEven (n / 2 ^ unit (n : Rat)) * 2 ^ (unit (n : Rat)).toNat, ?_⟩
      rw [Nat.cast_mul, Nat.cast_pow, Nat.cast_ofNat, ← zpow_natCast, Int.toNat_of_nonneg hunit]
    · have hscaled : (n : Rat) / 2 ^ unit (n : Rat)
          = ((n * 2 ^ (-unit (n : Rat)).toNat : Nat) : Rat) := by
        rw [Nat.cast_mul, Nat.cast_pow, Nat.cast_ofNat, ← zpow_natCast,
          Int.toNat_of_nonneg (by omega), zpow_neg, div_eq_mul_inv]
      refine ⟨n, ?_⟩
      rw [hscaled, roundEven_natCast, ← hscaled, div_mul_cancel₀ _ (two_zpow_unit_pos _).ne']

theorem den_signed (negative : Bool) (v : Rat) : (signed negative v).den = v.den := by
  cases negative with
  | false => rfl
  | true => rw [signed, if_pos rfl, Rat.neg_den]

theorem toInt?_isSome_iff_den {negative : Bool} {rank : Fin rankCount} :
    (finite negative rank).toInt?.isSome ↔ (magnitude rank).den = 1 := by
  rw [← den_signed negative, toInt?, toRat?, Option.bind_some]
  split
  · exact iff_of_true rfl ‹_›
  · exact iff_of_false Bool.false_ne_true ‹_›

theorem exists_natCast_eq {v : Rat} (hv : 0 ≤ v) (h : v.den = 1) : ∃ n : Nat, v = n := by
  obtain ⟨n, hn⟩ := Int.eq_ofNat_of_zero_le (Rat.num_nonneg.mpr hv)
  refine ⟨n, ?_⟩
  rw [← Rat.coe_int_num_of_den_eq_one h, hn]
  rfl

theorem toRat_shortest_nonneg (rank : Nat) : 0 ≤ (shortest rank).toRat :=
  mul_nonneg (Nat.cast_nonneg _) (zpow_nonneg (by norm_num) _)

theorem den_magnitude_iff (rank : Nat) :
    (magnitude rank).den = 1 ↔ (shortest rank).toRat.den = 1 := by
  constructor
  · intro h
    obtain ⟨n, hn⟩ := exists_natCast_eq (magnitude_nonneg rank) h
    exact den_toRat_shortest hn
  · intro h
    obtain ⟨n, hn⟩ := exists_natCast_eq (toRat_shortest_nonneg rank) h
    obtain ⟨m, hm⟩ := exists_magnitude_nearestRank n
    rw [← hn, nearestRank_shortest] at hm
    rw [hm]
    exact Rat.den_natCast m

end Double

/-! ## Integral literals -/

/-- A literal equals an integer exactly if the number that was typed for it is one. -/
theorem Literal.toInt?_isSome_iff {a : Literal} {v : Rat} (h : a.typedValue = .ok v) :
    a.toInt?.isSome ↔ v.den = 1 := by
  cases a with
  | int n =>
    cases h
    exact iff_of_true rfl (Rat.den_intCast n)
  | double x =>
    cases x with
    | finite negative rank =>
      cases h
      rw [Double.den_signed, ← Double.den_magnitude_iff]
      exact Double.toInt?_isSome_iff_den
    | infinite negative => cases h
    | nan => cases h

end Locus
