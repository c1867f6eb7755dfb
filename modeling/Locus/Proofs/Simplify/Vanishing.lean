import Mathlib
import Locus.Proofs.Numeric.Range
import Locus.Proofs.Simplify.Folding

/-! What folding makes of results that are out of the range of the doubles. One that is too large is
not folded, but one that is too small becomes a zero, unless it is written down exactly
(`folding_vanishes_iff`). -/

namespace Locus
set_option autoImplicit false

open Locus.Expr Locus.Operator

/-! ## Zeros -/

theorem isZero_int (n : Int) : (int n).isZero ↔ n = 0 := by
  show ((n : Rat) == (0 : Int)) = true ↔ n = 0
  rw [beq_iff_eq, Int.cast_inj]

theorem isZero_double (x : Double) : (number (.double x)).isZero ↔ x.toRat? = some 0 := by
  cases x with
  | finite negative rank =>
    show (Double.signed negative (Double.magnitude rank) == ((0 : Int) : Rat)) = true
      ↔ some (Double.signed negative (Double.magnitude rank)) = some 0
    rw [beq_iff_eq, Option.some.injEq, Int.cast_zero]
  | _ => exact iff_of_false Bool.false_ne_true (by simp [Double.toRat?])

/-- An integer is not below the doubles unless it is zero. -/
theorem eq_zero_of_abs_le {u : Rat} (hden : u.den = 1) (h : |u| ≤ Double.underflowBound) : u = 0 := by
  rw [← Rat.coe_int_num_of_den_eq_one hden] at h ⊢
  have hone : |u.num| < 1 := by
    have hlt : |(u.num : Rat)| < 1 := h.trans_lt Double.underflowBound_lt_one
    exact_mod_cast hlt
  rw [Int.abs_lt_one_iff.mp hone, Int.cast_zero]

/-- A value is written as zero if it is zero, or if it is rounded and too small. -/
theorem WrittenAs.isZero_iff {u : Rat} {exact : Prop} {e : Expr} (h : WrittenAs u exact e) :
    e.isZero ↔ u = 0 ∨ |u| ≤ Double.underflowBound ∧ ¬exact := by
  cases h with
  | integer hden =>
    rw [isZero_int, Rat.num_eq_zero]
    refine ⟨.inl, fun h => h.elim id fun hsmall => eq_zero_of_abs_le hden hsmall.1⟩
  | ratio hden hexact =>
    refine iff_of_false Bool.false_ne_true (not_or.mpr ⟨?_, fun h => h.2 hexact⟩)
    rintro rfl
    exact hden rfl
  | rounded hden hexact hx =>
    rw [isZero_double, Double.toRat?_eq_zero_iff hx]
    refine ⟨fun h => .inr ⟨h, hexact⟩, fun h => h.elim ?_ And.left⟩
    rintro rfl
    exact absurd rfl hden

/-! ## Folding -/

/-- The powers that are not folded whatever their value, for they have none or a large exponent. -/
def Operator.Declines (op : Operator) (v w : Rat) : Prop :=
  op = power ∧ (maxFoldedExponent < w.num.natAbs ∨ v = 0 ∧ w.num < 0)

theorem resultOf_eq_none_iff {u : Rat} {exact : Bool} :
    resultOf u exact = none ↔ Double.overflowBound ≤ |u| := by
  rw [resultOf, Option.map_eq_none_iff, Double.ofRat?_eq_none_iff]

theorem fold_eq_none_iff {op : Operator} {a b : Literal} {v w : Rat} (hequals : op ≠ equals)
    (hdivide : op ≠ divide) (hpower : op = power → w.den = 1) (ha : a.typedValue = .ok v)
    (hb : b.typedValue = .ok w) :
    foldConstants (binary op (number a) (number b)) = .ok none ↔
      op.Declines v w ∨ ∃ u, op.compute? v w = some u ∧ Double.overflowBound ≤ |u| := by
  rw [foldConstants_numbers hequals ha hb, Except.ok.injEq]
  have hresult : ∀ {u : Rat}, op ≠ power → op.compute? v w = some u →
      (resultOf u false = none ↔
        op.Declines v w ∨ ∃ u, op.compute? v w = some u ∧ Double.overflowBound ≤ |u|) := by
    intro u hop hu
    rw [resultOf_eq_none_iff, or_iff_right fun h => hop h.1, hu]
    simp
  cases op with
  | equals => exact absurd rfl hequals
  | divide => exact absurd rfl hdivide
  | plus => exact hresult (by decide) rfl
  | minus => exact hresult (by decide) rfl
  | times => exact hresult (by decide) rfl
  | power =>
    dsimp only
    rw [if_pos (hpower rfl), foldIntegralPower]
    split
    · next hdeclined => exact iff_of_true rfl (.inl ⟨rfl, hdeclined⟩)
    · next hdeclined =>
      have hu : power.compute? v w = some (v ^ w.num) :=
        if_pos ⟨hpower rfl, fun hzero => hdeclined (.inr hzero)⟩
      rw [resultOf_eq_none_iff, or_iff_right fun h => hdeclined h.2, hu]
      simp

/-- A sum, difference, product or power with an integral exponent of two finite literals is not folded
if it has no value, its exponent is too large or its value overflows, and in no other case. What it is
folded to is a zero if its value is zero or no greater than half the least double, a power of an
integer apart. -/
theorem folding_vanishes_iff {op : Operator} {a b : Literal} (ha : a.IsFinite) (hb : b.IsFinite)
    (hequals : op ≠ equals) (hdivide : op ≠ divide) :
    ∃ v w, a.typedValue = .ok v ∧ b.typedValue = .ok w ∧ ((op = power → w.den = 1) →
      (foldConstants (binary op (number a) (number b)) = .ok none ↔
        op.Declines v w ∨ ∃ u, op.compute? v w = some u ∧ Double.overflowBound ≤ |u|) ∧
      ∀ e, foldConstants (binary op (number a) (number b)) = .ok (some e) →
        ∃ u, op.compute? v w = some u ∧
          (e.isZero ↔ u = 0 ∨ |u| ≤ Double.underflowBound ∧ ¬(op = power ∧ v.den = 1))) := by
  obtain ⟨v, hv⟩ := Literal.typedValue_of_isFinite ha
  obtain ⟨w, hw⟩ := Literal.typedValue_of_isFinite hb
  refine ⟨v, w, hv, hw, fun hpower => ⟨fold_eq_none_iff hequals hdivide hpower hv hw, ?_⟩⟩
  intro e he
  obtain ⟨u, hu, hwritten⟩ := writtenAs_of_fold hequals hpower hv hw he
  exact ⟨u, hu, (hwritten.congr (or_iff_right hdivide)).isZero_iff⟩

/-- The double that is typed with two hundred decimal places, all but the last of them zeros. -/
def Double.minute : Double := .finite false ⟨0x16687E92154EF7AC, by decide⟩

theorem typedValue_minute : (Literal.double Double.minute).typedValue = .ok (1 / 10 ^ 200) := by
  decide +kernel

theorem fold_minute_square :
    foldConstants (binary times (number (.double Double.minute)) (number (.double Double.minute)))
      = .ok (some (number (.double Double.zero))) := by
  decide +kernel

/-- The square of a number that is not zero, folded to zero. -/
theorem square_vanishes : ∃ v w u, (Literal.double Double.minute).typedValue = .ok v ∧
    (Literal.double Double.minute).typedValue = .ok w ∧ times.compute? v w = some u ∧
    (number (.double Double.zero)).isZero ∧ u ≠ 0 ∧ |u| ≤ Double.underflowBound := by
  obtain ⟨v, w, hv, hw, hfold⟩ := @folding_vanishes_iff times (.double Double.minute)
    (.double Double.minute) rfl rfl (by decide) (by decide)
  obtain ⟨-, hzero⟩ := hfold (fun h => by cases h)
  obtain ⟨u, hu, hvanishes⟩ := hzero _ fold_minute_square
  have hne : u ≠ 0 := by
    obtain rfl : v = 1 / 10 ^ 200 := Except.ok.inj (hv.symm.trans typedValue_minute)
    obtain rfl : w = 1 / 10 ^ 200 := Except.ok.inj (hw.symm.trans typedValue_minute)
    cases hu
    norm_num
  have hisZero : (number (.double Double.zero)).isZero := by decide +kernel
  exact ⟨v, w, u, hv, hw, hu, hisZero, hne, ((hvanishes.mp hisZero).resolve_left hne).1⟩

/-- Folding makes a zero of a product that is none. -/
theorem folding_not_zero_only_of_zero :
    ¬∀ (op : Operator) (a b : Literal) (v w u : Rat) (e : Expr), a.IsFinite → b.IsFinite →
      op ≠ equals → op ≠ divide → (op = power → w.den = 1) →
      a.typedValue = .ok v → b.typedValue = .ok w → op.compute? v w = some u →
      foldConstants (binary op (number a) (number b)) = .ok (some e) → e.isZero → u = 0 := by
  intro h
  have hzero := h times (.double Double.minute) (.double Double.minute) _ _ _ _ rfl rfl (by decide)
    (by decide) (fun h => by cases h) typedValue_minute typedValue_minute rfl fold_minute_square
    (by decide +kernel)
  norm_num at hzero

end Locus
