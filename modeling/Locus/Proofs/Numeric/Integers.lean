import Mathlib
import Locus.Proofs.Numeric.Digits

/-! Integers among the doubles. Up to `2 ^ 53` every integer is a double, and the shortest decimal
of such a double is the integer itself. Beyond that only even integers are doubles. -/

namespace Locus
set_option autoImplicit false

/-! ## Exact values -/

namespace Double

/-- A significand of at most fifty-three bits, at any scale from the least one up, is a double. -/
theorem exists_magnitude_of_lt {m : Nat} (h : m < 2 ^ 53) (j : Nat) :
    ∃ rank, magnitude rank = (m : Rat) * 2 ^ ((j : Int) - 1074) := by
  induction j generalizing m with
  | zero =>
    refine ⟨m, ?_⟩
    rw [magnitude, significand_eq, scale_eq]
    split_ifs with hsmall
    · rfl
    · rw [show m / 2 ^ 52 = 1 by omega, show 2 ^ 52 + m % 2 ^ 52 = m by omega]
      norm_num
  | succ j ih =>
    by_cases hsmall : m < 2 ^ 52
    · obtain ⟨rank, hrank⟩ := ih (m := 2 * m) (by omega)
      refine ⟨rank, hrank.trans ?_⟩
      rw [show ((j + 1 : Nat) : Int) - 1074 = (j - 1074) + 1 by push_cast; ring,
        zpow_add_one₀ two_ne_zero]
      push_cast
      ring
    · refine ⟨(j + 2) * 2 ^ 52 + (m - 2 ^ 52), ?_⟩
      have hnormal : ¬(j + 2) * 2 ^ 52 + (m - 2 ^ 52) < 2 ^ 52 := by omega
      rw [magnitude, significand_eq, if_neg hnormal, scale_eq, if_neg hnormal,
        show ((j + 2) * 2 ^ 52 + (m - 2 ^ 52)) / 2 ^ 52 = j + 2 by omega,
        show 2 ^ 52 + ((j + 2) * 2 ^ 52 + (m - 2 ^ 52)) % 2 ^ 52 = m by omega]
      congr 2
      push_cast
      ring

theorem exists_magnitude {m : Nat} (h : m ≤ 2 ^ 53) (j : Nat) :
    ∃ rank, magnitude rank = (m : Rat) * 2 ^ ((j : Int) - 1074) := by
  rcases h.lt_or_eq with hlt | rfl
  · exact exists_magnitude_of_lt hlt j
  · obtain ⟨rank, hrank⟩ := exists_magnitude_of_lt (m := 2 ^ 52) (by norm_num) (j + 1)
    refine ⟨rank, hrank.trans ?_⟩
    rw [show ((j + 1 : Nat) : Int) - 1074 = (j - 1074) + 1 by push_cast; ring,
      zpow_add_one₀ two_ne_zero]
    push_cast
    ring

/-- What is exactly a double is not rounded. -/
theorem magnitude_nearestRank {v : Rat} (h : ∃ rank, magnitude rank = v) :
    magnitude (nearestRank v) = v := by
  obtain ⟨rank, rfl⟩ := h
  rw [nearestRank_magnitude]

theorem magnitude_nearestRank_natCast {n : Nat} (h : n ≤ 2 ^ 53) :
    magnitude (nearestRank n) = n := by
  obtain ⟨rank, hrank⟩ := exists_magnitude h 1074
  exact magnitude_nearestRank ⟨rank, by simpa using hrank⟩

theorem magnitude_nearestRank_two_mul {m : Nat} (h : m ≤ 2 ^ 53) :
    magnitude (nearestRank ((2 * m : Nat) : Rat)) = ((2 * m : Nat) : Rat) := by
  obtain ⟨rank, hrank⟩ := exists_magnitude h 1075
  refine magnitude_nearestRank ⟨rank, hrank.trans ?_⟩
  norm_num
  ring

theorem nearestRank_lt_of_le {n : Nat} (h : n ≤ 2 ^ 53) : nearestRank n < rankCount := by
  by_contra hlarge
  have hvalue := magnitude_nearestRank_natCast h
  have hnormal : ¬nearestRank n < 2 ^ 52 := by
    rw [rankCount_eq] at hlarge
    omega
  -- a rank without a double is a double's significand at a scale of at least `972`
  have hscale : (972 : Int) ≤ scale (nearestRank n) := by
    rw [scale_eq, if_neg hnormal]
    rw [rankCount_eq] at hlarge
    omega
  have hsignificand : 2 ^ 52 ≤ significand (nearestRank n) := by
    rw [significand_eq, if_neg hnormal]
    omega
  have hone : (1 : Rat) ≤ significand (nearestRank n) := by
    exact_mod_cast (Nat.one_le_two_pow.trans hsignificand)
  have hbound : (2 : Rat) ^ (972 : Int) ≤ n := by
    rw [← hvalue, magnitude]
    calc (2 : Rat) ^ (972 : Int) ≤ 2 ^ scale (nearestRank n) :=
          zpow_le_zpow_right₀ one_le_two hscale
      _ ≤ significand (nearestRank n) * 2 ^ scale (nearestRank n) :=
          le_mul_of_one_le_left (zpow_pos two_pos _).le hone
  have hsmall : (n : Rat) ≤ (2 : Rat) ^ (53 : Int) := by exact_mod_cast h
  have := (zpow_le_zpow_iff_right₀ one_lt_two).mp (hbound.trans hsmall)
  omega

/-- An integer beyond `2 ^ 53` that is a double is even. -/
theorem even_of_magnitude {rank n : Nat} (h : magnitude rank = n) (hn : 2 ^ 53 < n) : 2 ∣ n := by
  have hsignificand : significand rank < 2 ^ 53 := by
    rw [significand_eq]
    split_ifs <;> omega
  have hscale : 1 ≤ scale rank := by
    by_contra hlow
    have hpower : (2 : Rat) ^ scale rank ≤ 1 := zpow_le_one_of_nonpos₀ one_le_two (by omega)
    have hle : (n : Rat) ≤ significand rank := by
      rw [← h, magnitude]
      exact mul_le_of_le_one_right (Nat.cast_nonneg _) hpower
    have : n ≤ significand rank := by exact_mod_cast hle
    omega
  obtain ⟨k, hk⟩ : ∃ k : Nat, scale rank = (k : Int) + 1 :=
    ⟨(scale rank - 1).toNat, by omega⟩
  refine ⟨significand rank * 2 ^ k, ?_⟩
  rw [magnitude, hk, zpow_add_one₀ two_ne_zero, zpow_natCast] at h
  have hcast : (n : Rat) = ((2 * (significand rank * 2 ^ k) : Nat) : Rat) := by
    rw [← h]
    push_cast
    ring
  exact_mod_cast hcast

/-! ## Shortest decimals -/

variable {n : Nat}

theorem length_decimalDigits_bounds (h : n ≠ 0) :
    10 ^ ((decimalDigits n).length - 1) ≤ n ∧ n < 10 ^ (decimalDigits n).length := by
  have hpos : 0 < (decimalDigits n).length := List.length_pos_iff.mpr (decimalDigits_ne_nil n)
  constructor
  · by_contra hlt
    by_cases hone : (decimalDigits n).length - 1 = 0
    · rw [hone] at hlt
      omega
    · have := (Nat.length_toDigits_le_iff (by decide) (by omega)).mpr (not_le.mp hlt)
      rw [← decimalDigits] at this
      omega
  · exact (Nat.length_toDigits_le_iff (by decide) hpos).mp le_rfl

theorem decimalExponent_natCast (h : n ≠ 0) :
    decimalExponent (n : Rat) = (decimalDigits n).length := by
  have hpos : 0 < (decimalDigits n).length := List.length_pos_iff.mpr (decimalDigits_ne_nil n)
  have hlength : ((decimalDigits n).length : Int) - ((decimalDigits 1).length : Int)
      = (((decimalDigits n).length - 1 : Nat) : Int) := by
    rw [show (decimalDigits 1).length = 1 from rfl]
    omega
  have hnotBelow : ¬(n : Rat) < 10 ^ ((decimalDigits n).length - 1) := by
    have := (length_decimalDigits_bounds h).1
    rw [not_lt]
    exact_mod_cast this
  rw [decimalExponent, Rat.num_natCast, Int.natAbs_natCast, Rat.den_natCast, hlength, zpow_natCast,
    if_neg hnotBelow]
  omega

/-- The greatest decimal with an exponent that is at most a nonnegative rational. -/
def below (v : Rat) (e : Int) : Decimal := ⟨(v / 10 ^ e).floor.toNat, e⟩

def above (v : Rat) (e : Int) : Decimal := ⟨(below v e).digits + 1, e⟩

theorem toRat_above (v : Rat) (e : Int) : (above v e).toRat = (below v e).toRat + 10 ^ e := by
  rw [above, Decimal.toRat, Decimal.toRat, below]
  push_cast
  ring

theorem decimalOfLength?_eq (rank k : Nat) :
    decimalOfLength? rank k
      = match readsBack rank (below (magnitude rank) (decimalExponent (magnitude rank) - k)),
          readsBack rank (above (magnitude rank) (decimalExponent (magnitude rank) - k)) with
        | true, true => some (nearer (magnitude rank)
            (below (magnitude rank) (decimalExponent (magnitude rank) - k))
            (above (magnitude rank) (decimalExponent (magnitude rank) - k)))
        | true, false => some (below (magnitude rank) (decimalExponent (magnitude rank) - k))
        | false, true => some (above (magnitude rank) (decimalExponent (magnitude rank) - k))
        | false, false => none := rfl

theorem decimalOfLength?_mem {rank k : Nat} {d : Decimal} (h : decimalOfLength? rank k = some d) :
    d = below (magnitude rank) (decimalExponent (magnitude rank) - k) ∨
      d = above (magnitude rank) (decimalExponent (magnitude rank) - k) := by
  rw [decimalOfLength?_eq] at h
  split at h
  · rw [Option.some.injEq, nearer] at h
    split_ifs at h <;> simp [← h]
  · exact .inl (Option.some.inj h).symm
  · exact .inr (Option.some.inj h).symm
  · cases h

/-- A double on the grid is its own lower neighbour, and nearer to itself than the upper one. -/
theorem decimalOfLength?_of_below {rank k : Nat}
    (h : (below (magnitude rank) (decimalExponent (magnitude rank) - k)).toRat = magnitude rank) :
    decimalOfLength? rank k
      = some (below (magnitude rank) (decimalExponent (magnitude rank) - k)) := by
  have hread : readsBack rank (below (magnitude rank) (decimalExponent (magnitude rank) - k)) := by
    rw [readsBack, h, nearestRank_magnitude, beq_self_eq_true]
  have hpos : (0 : Rat) < 10 ^ (decimalExponent (magnitude rank) - (k : Int)) :=
    zpow_pos (by norm_num) _
  have hnearer : 2 * magnitude rank
      < (below (magnitude rank) (decimalExponent (magnitude rank) - k)).toRat
        + (above (magnitude rank) (decimalExponent (magnitude rank) - k)).toRat := by
    rw [toRat_above, h]
    linarith
  rw [decimalOfLength?_eq, hread]
  split
  · rw [nearer, if_pos hnearer]
  · rfl
  · contradiction
  · contradiction

theorem toRat_below_natCast {e : Int} (h : e ≤ 0) : (below n e).toRat = n := by
  have hscaled : (n : Rat) / 10 ^ e = ((n * 10 ^ (-e).toNat : Nat) : Rat) := by
    push_cast
    rw [div_eq_mul_inv, ← zpow_neg, ← zpow_natCast, Int.toNat_of_nonneg (by omega)]
  have hfloor : ((n : Rat) / 10 ^ e).floor = ((n * 10 ^ (-e).toNat : Nat) : Int) := by
    rw [hscaled]
    exact_mod_cast Rat.floor_intCast ((n * 10 ^ (-e).toNat : Nat) : Int)
  rw [below, Decimal.toRat, hfloor, Int.toNat_natCast, ← hscaled]
  exact div_mul_cancel₀ _ (zpow_pos (by norm_num) e).ne'

/-- Both neighbours of an integer on a grid of whole tens are exact: the upper one may pass `2 ^ 53`,
but is even. -/
theorem magnitude_nearestRank_neighbour {j : Nat} {d : Decimal} (hn : n ≤ 2 ^ 53)
    (hj : 10 ^ (j + 1) ≤ n)
    (hd : d = below n ((j + 1 : Nat) : Int) ∨ d = above n ((j + 1 : Nat) : Int)) :
    magnitude (nearestRank d.toRat) = d.toRat := by
  have hpos : (0 : Rat) < 10 ^ ((j + 1 : Nat) : Int) := zpow_pos (by norm_num) _
  have hfloor : (below (n : Rat) ((j + 1 : Nat) : Int)).toRat ≤ n := by
    have hnonneg : 0 ≤ ((n : Rat) / 10 ^ ((j + 1 : Nat) : Int)).floor :=
      Rat.le_floor_iff.mpr (by exact_mod_cast div_nonneg (Nat.cast_nonneg n) hpos.le)
    have hcast : ((((n : Rat) / 10 ^ ((j + 1 : Nat) : Int)).floor.toNat : Int) : Rat)
        ≤ (n : Rat) / 10 ^ ((j + 1 : Nat) : Int) := by
      rw [Int.toNat_of_nonneg hnonneg]
      exact Rat.floor_le _
    rw [below, Decimal.toRat]
    exact (le_div_iff₀ hpos).mp (by exact_mod_cast hcast)
  have hten : (10 : Rat) ^ ((j + 1 : Nat) : Int) = ((10 ^ (j + 1) : Nat) : Rat) := by
    rw [zpow_natCast]
    push_cast
    rfl
  have hexponent : d.exponent = ((j + 1 : Nat) : Int) := by
    rcases hd with rfl | rfl <;> rfl
  have hvalue : d.toRat = ((2 * (d.digits * (5 * 10 ^ j)) : Nat) : Rat) := by
    rw [Decimal.toRat, hexponent, hten]
    push_cast
    ring
  have hbound : d.toRat ≤ ((2 * n : Nat) : Rat) := by
    have hj' : (10 : Rat) ^ ((j + 1 : Nat) : Int) ≤ n := by
      rw [hten]
      exact_mod_cast hj
    push_cast
    rcases hd with rfl | rfl
    · have hpos : (0 : Rat) ≤ n := Nat.cast_nonneg n
      linarith
    · rw [toRat_above]
      linarith
  rw [hvalue] at hbound ⊢
  refine magnitude_nearestRank_two_mul ?_
  have : 2 * (d.digits * (5 * 10 ^ j)) ≤ 2 * n := by exact_mod_cast hbound
  omega

/-- On a grid with the units or finer, what is found for an integer is the integer. -/
theorem toRat_of_decimalOfLength?_of_fine {rank k : Nat} {d : Decimal} (hvalue : magnitude rank = n)
    (hgrid : decimalExponent (n : Rat) - (k : Int) ≤ 0) (h : decimalOfLength? rank k = some d) :
    d.toRat = n := by
  have hbelow := toRat_below_natCast (n := n) hgrid
  rw [← hvalue] at hbelow
  rw [decimalOfLength?_of_below hbelow, Option.some.injEq] at h
  rw [← h, hbelow, hvalue]

/-- What is found for an integer of at most fifty-three bits is the integer, whatever the number of
digits. -/
theorem toRat_of_decimalOfLength? {rank k : Nat} {d : Decimal} (hvalue : magnitude rank = n)
    (hn : n ≤ 2 ^ 53) (hzero : n ≠ 0) (hk : 1 ≤ k) (h : decimalOfLength? rank k = some d) :
    d.toRat = n := by
  have hexponent := decimalExponent_natCast hzero
  by_cases hgrid : decimalExponent (n : Rat) - (k : Int) ≤ 0
  · exact toRat_of_decimalOfLength?_of_fine hvalue hgrid h
  · obtain ⟨j, hj⟩ : ∃ j : Nat, decimalExponent (n : Rat) - (k : Int) = ((j + 1 : Nat) : Int) :=
      ⟨(decimalExponent (n : Rat) - k - 1).toNat, by omega⟩
    have hten : 10 ^ (j + 1) ≤ n :=
      (Nat.pow_le_pow_right (by decide) (by omega)).trans (length_decimalDigits_bounds hzero).1
    have hmem := decimalOfLength?_mem h
    rw [hvalue, hj] at hmem
    have hread := beq_iff_eq.mp (readsBack_of_decimalOfLength? h)
    rw [← magnitude_nearestRank_neighbour hn hten hmem, hread, hvalue]

theorem toRat_shortest_of_le {rank : Nat} (hvalue : magnitude rank = n) (hn : n ≤ 2 ^ 53) :
    (shortest rank).toRat = n := by
  rcases toRat_shortest_cases rank with hexact | ⟨k, d, hk, hd, hshortest⟩
  · rw [hexact, hvalue]
  · by_cases hzero : n = 0
    · have hrank : rank = 0 := magnitude_eq_zero.mp (by rw [hvalue, hzero, Nat.cast_zero])
      rw [hrank, hzero, shortest, if_pos rfl, Decimal.toRat, Nat.cast_zero, zero_mul]
    · rw [hshortest]
      exact toRat_of_decimalOfLength? hvalue hn hzero hk hd

end Double

/-! ## Literals -/

namespace Literal

/-- The number that was typed for an integral literal is the literal itself, except perhaps for even
ones beyond `2 ^ 53`. -/
theorem typedValue_of_integral {a : Literal} {n : Int} (h : a.toRat? = some (n : Rat)) :
    a.typedValue = .ok (n : Rat) ∨ 2 ^ 53 < n.natAbs ∧ (2 : Int) ∣ n := by
  match a with
  | int m =>
    rw [toRat?, Option.some.injEq] at h
    rw [typedValue, h]
    exact .inl rfl
  | double (.finite negative rank) =>
    obtain ⟨-, -, hmagnitude⟩ := toInt?_eq_some (toInt?_of_toRat? h)
    by_cases hn : n.natAbs ≤ 2 ^ 53
    · have hvalue : Double.signed negative (Double.magnitude rank) = n := Option.some.inj h
      rw [typedValue, Double.typedValue?, Double.toRat_shortest_of_le hmagnitude hn, ← hmagnitude,
        hvalue]
      exact .inl rfl
    · have heven := Double.even_of_magnitude hmagnitude (not_le.mp hn)
      exact .inr ⟨not_le.mp hn, Int.natCast_dvd.mpr heven⟩

end Literal
end Locus
