import Locus.Proofs.Numeric.Integers
import Locus.Proofs.Expr.Commuted
import Locus.Shading.Code

/-! Integers that are written as doubles. A double that equals an integer below `2 ^ 53` other than
zero may be taken for the integer (`Literal.whole`): both have the same value, also as it was typed,
and the same texts. Zero is left out for its sign. -/

namespace Locus
set_option autoImplicit false

/-! ## Doubles -/

/-- A double equals an integer of at most fifty-three bits other than zero. -/
structure Double.IsWhole (x : Double) (n : Int) : Prop where
  toInt : x.toInt? = some n
  ne_zero : n ≠ 0
  small : n.natAbs < 2 ^ 53

namespace Double

variable {x : Double} {n : Int}

theorem IsWhole.exists_rank (h : x.IsWhole n) :
    ∃ rank, x = finite (decide (n < 0)) rank ∧ nearestRank n.natAbs = rank := by
  have hint := h.toInt
  cases x with
  | nan => cases hint
  | infinite negative => cases hint
  | finite negative rank =>
    obtain ⟨-, hnegative, hmagnitude⟩ := Literal.toInt?_eq_some hint
    have hrank : rank.val ≠ 0 := by
      intro hzero
      rw [hzero, magnitude_zero] at hmagnitude
      have hnatAbs : n.natAbs = 0 := by exact_mod_cast hmagnitude.symm
      exact h.ne_zero (Int.natAbs_eq_zero.mp hnatAbs)
    refine ⟨rank, ?_, by rw [← hmagnitude, nearestRank_magnitude]⟩
    rw [← hnegative]
    simp [Literal.isNegative, isNegative, hrank]

theorem IsWhole.toRat?_eq (h : x.IsWhole n) : x.toRat? = some (n : Rat) :=
  Literal.toRat?_of_toInt? h.toInt

theorem IsWhole.ofRat?_isSome (h : x.IsWhole n) : (ofRat? n).isSome := by
  obtain ⟨rank, -, hrank⟩ := h.exists_rank
  rw [ofRat?, ← Literal.cast_natAbs_eq, ofMagnitude?_eq_some hrank]
  rfl

theorem IsWhole.neg (h : x.IsWhole n) : x.neg.IsWhole (-n) := by
  refine ⟨?_, neg_ne_zero.mpr h.ne_zero, by rw [Int.natAbs_neg]; exact h.small⟩
  refine Literal.toInt?_of_toRat? ?_
  have hvalue := h.toRat?_eq
  cases x with
  | nan => cases hvalue
  | infinite negative => cases hvalue
  | finite negative rank =>
    have hsigned : signed negative (magnitude rank) = n := Option.some.inj hvalue
    rw [Double.neg, toRat?, Int.cast_neg, ← hsigned]
    cases negative with
    | false => rfl
    | true => simp [signed]

/-- The double of an integer below `2 ^ 53` is whole. -/
theorem isWhole_nearest {m : Nat} (hpos : m ≠ 0) (hm : m < 2 ^ 53) :
    (nearest false m).IsWhole m := by
  have hrank := nearestRank_lt_of_le hm.le
  have hmagnitude : ofMagnitude? false m = some (finite false ⟨nearestRank m, hrank⟩) :=
    ofMagnitude?_eq_some rfl
  refine ⟨?_, by exact_mod_cast hpos, by rwa [Int.natAbs_natCast]⟩
  refine Literal.toInt?_of_toRat? ?_
  rw [nearest, hmagnitude, Option.getD_some, toRat?, magnitude_nearestRank_natCast hm.le]
  rfl

end Double

/-! ## Literals -/

namespace Literal

/-- A whole double as its integer, and any other literal as it is. -/
def whole : Literal → Literal
  | int n => int n
  | double x =>
    match x.toInt? with
    | some n => if n ≠ 0 ∧ n.natAbs < 2 ^ 53 then int n else double x
    | none => double x

variable {x : Double} {n : Int}

theorem whole_int (n : Int) : (int n).whole = int n := rfl

theorem whole_double (h : x.IsWhole n) : (double x).whole = int n := by
  rw [whole, h.toInt]
  exact if_pos ⟨h.ne_zero, h.small⟩

theorem whole_cases (v : Literal) :
    v.whole = v ∨ ∃ x n, v = double x ∧ x.IsWhole n ∧ v.whole = int n := by
  cases v with
  | int n => exact .inl rfl
  | double x =>
    cases hint : x.toInt? with
    | none =>
      left
      rw [whole, hint]
    | some n =>
      by_cases hsmall : n ≠ 0 ∧ n.natAbs < 2 ^ 53
      · have hwhole : x.IsWhole n := ⟨hint, hsmall.1, hsmall.2⟩
        exact .inr ⟨x, n, rfl, hwhole, whole_double hwhole⟩
      · left
        rw [whole, hint]
        exact if_neg hsmall

/-- What holds of a double whenever it holds of its integer does not change with `whole`. -/
theorem apply_whole {α : Type} {f : Literal → α}
    (h : ∀ x n, Double.IsWhole x n → f (int n) = f (double x)) (v : Literal) : f v.whole = f v := by
  rcases whole_cases v with hsame | ⟨x, n, rfl, hwhole, hint⟩
  · rw [hsame]
  · rw [hint, h x n hwhole]

@[simp]
theorem toRat?_whole (v : Literal) : v.whole.toRat? = v.toRat? :=
  apply_whole (fun _ _ h => h.toRat?_eq.symm) v

@[simp]
theorem toInt?_whole (v : Literal) : v.whole.toInt? = v.toInt? :=
  apply_whole (fun _ _ h => h.toInt.symm) v

@[simp]
theorem isNegative_whole (v : Literal) : v.whole.isNegative = v.isNegative := by
  refine apply_whole (fun x n h => ?_) v
  obtain ⟨rank, rfl, -⟩ := h.exists_rank
  exact (toInt?_eq_some h.toInt).2.1.symm

@[simp]
theorem typedValue_whole (v : Literal) : v.whole.typedValue = v.typedValue := by
  refine apply_whole (fun x n h => ?_) v
  have hvalue : (double x).toRat? = some (n : Rat) := h.toRat?_eq
  have hsmall := h.small
  exact ((typedValue_of_integral hvalue).resolve_right fun hlarge => by omega).symm

theorem whole_neg (v : Literal) : v.neg.whole = v.whole.neg := by
  rcases whole_cases v with hsame | ⟨x, n, rfl, hwhole, hint⟩
  · rcases whole_cases v.neg with hsame' | ⟨y, n, hy, hwhole, -⟩
    · rw [hsame, hsame']
    · -- the opposite of a whole double is whole
      cases v with
      | int n => cases hy
      | double x =>
        have hback : x = y.neg := by
          cases hy
          cases x <;> simp [Double.neg]
        rw [hback, whole_double hwhole.neg] at hsame
        cases hsame
  · rw [hint]
    exact whole_double hwhole.neg

@[simp]
theorem whole_whole (v : Literal) : v.whole.whole = v.whole :=
  apply_whole (fun _ _ h => (whole_double h).symm) v

@[simp]
theorem sameValue_whole (v w : Literal) : v.whole.sameValue w.whole = v.sameValue w := by
  have hinfinite : ∀ (v : Literal) (negative : Bool),
      v.whole = double (.infinite negative) ↔ v = double (.infinite negative) := by
    intro v negative
    rcases whole_cases v with hsame | ⟨x, n, rfl, hwhole, hint⟩
    · rw [hsame]
    · obtain ⟨rank, rfl, -⟩ := hwhole.exists_rank
      simp [hint]
  rw [Bool.eq_iff_iff, sameValue_iff, sameValue_iff]
  simp only [toRat?_whole, hinfinite]

/-! ## Texts -/

@[simp]
theorem typed_whole (v : Literal) : v.whole.typed = v.typed := by
  refine apply_whole (fun x n h => ?_) v
  obtain ⟨rank, rfl, -⟩ := h.exists_rank
  rw [typed, typed, h.toInt]

@[simp]
theorem code_whole (v : Literal) : v.whole.code = v.code := by
  have hunwrapped : v.whole.unwrappedCode = v.unwrappedCode := by
    refine apply_whole (fun x n h => ?_) v
    obtain ⟨rank, rfl, hrank⟩ := h.exists_rank
    have hsmall : ∀ k, 53 < k → n.natAbs < Nat.pow 2 k := fun k hk =>
      h.small.trans (Nat.pow_lt_pow_right (by decide) hk)
    rw [unwrappedCode, if_pos (hsmall 1023 (by decide)), Double.nearest,
      Double.ofMagnitude?_eq_some hrank]
    rfl
  rw [code, code, hunwrapped, isNegative_whole]

end Literal
end Locus
