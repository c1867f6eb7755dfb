import Mathlib
import Locus.Proofs.Numeric.Nearest
import Locus.Proofs.Simplify.Soundness

/-! Constant folding is exact. What it makes of two finite literals is the exact value of the
operator, written as an integer or as a ratio in lowest terms, or where the literals have fractions
the double nearest to that value (`foldConstants_exact`). -/

namespace Locus
set_option autoImplicit false

open Locus.Expr Locus.Operator

/-! ## Results -/

/-- How a value is written down: as an integer, as a ratio in lowest terms where it has to be exact,
and as a double elsewhere. -/
inductive WrittenAs (u : Rat) (exact : Prop) : Expr → Prop where
  | integer (hden : u.den = 1) : WrittenAs u exact (int u.num)
  | ratio (hden : u.den ≠ 1) (hexact : exact) : WrittenAs u exact (intRatio u.num u.den)
  | rounded {x : Double} (hden : u.den ≠ 1) (hexact : ¬exact) (hx : Double.ofRat? u = some x) :
      WrittenAs u exact (number (.double x))

theorem writtenAs_of_resultOf {u : Rat} {exact : Bool} {e : Expr} (h : resultOf u exact = some e) :
    WrittenAs u exact e := by
  unfold resultOf at h
  obtain ⟨x, hx, rfl⟩ := Option.map_eq_some_iff.mp h
  split
  · exact .integer ‹_›
  · split
    · exact .ratio ‹_› ‹_›
    · exact .rounded ‹_› ‹_› hx

theorem writtenAs_of_foldRatio {v w : Rat} {exact : Prop} {e : Expr} (hexact : exact)
    (h : foldRatio v w = some e) : w ≠ 0 ∧ WrittenAs (v / w) exact e := by
  unfold foldRatio at h
  split at h
  · cases h
  · rename_i hzero
    refine ⟨hzero, ?_⟩
    dsimp only at h
    split at h
    · cases h
      exact .integer ‹_›
    · split at h
      · cases h
      · cases h
        exact .ratio ‹_› hexact

theorem WrittenAs.congr {u : Rat} {p q : Prop} {e : Expr} (hpq : p ↔ q) (h : WrittenAs u p e) :
    WrittenAs u q e := by
  rwa [← propext hpq]

/-! ## The value of a result -/

/-- An expression denotes a number, whatever its variables and functions stand for. -/
def Expr.Denotes (e : Expr) (u : Rat) : Prop := ∀ ν : Valuation, e.value? ν = some u

theorem WrittenAs.denotes {u : Rat} {exact : Prop} {e : Expr} (h : WrittenAs u exact e)
    (hexact : u.den = 1 ∨ exact) : e.Denotes u := by
  intro ν
  cases h with
  | integer hden => rw [value?_int, Rat.coe_int_num_of_den_eq_one hden]
  | ratio hden _ => exact value?_intRatio u
  | rounded hden hrounded _ => exact absurd hexact (not_or.mpr ⟨hden, hrounded⟩)

theorem WrittenAs.isNearest {u : Rat} {exact : Prop} {e : Expr} (h : WrittenAs u exact e)
    (hden : u.den ≠ 1) (hexact : ¬exact) : ∃ x, e = number (.double x) ∧ x.IsNearest u := by
  cases h with
  | integer hinteger => exact absurd hinteger hden
  | ratio _ hratio => exact absurd hratio hexact
  | rounded _ _ hx => exact ⟨_, rfl, Double.isNearest_of_ofRat? hx⟩

/-- A ratio in the expression's place has integral parts in lowest terms, the lower one above one,
and is not folded. -/
def Expr.IsReduced (e : Expr) : Prop :=
  ∀ l r, e = binary divide l r →
    ∃ m n : Int, l = int m ∧ r = int n ∧ 1 < n ∧ IsCoprime m n ∧ foldConstants e = .ok none

theorem isReduced_number (a : Literal) : (number a).IsReduced := fun _ _ h => nomatch h

theorem isReduced_intRatio {u : Rat} (hden : u.den ≠ 1) : (intRatio u.num u.den).IsReduced := by
  intro l r h
  cases h
  have hpos : 0 < u.den := u.den_pos
  refine ⟨u.num, u.den, rfl, rfl, by omega, ?_, foldConstants_intRatio hden⟩
  rw [Int.isCoprime_iff_gcd_eq_one]
  exact u.reduced

theorem WrittenAs.isReduced {u : Rat} {exact : Prop} {e : Expr} (h : WrittenAs u exact e) :
    e.IsReduced := by
  cases h with
  | integer _ => exact isReduced_number _
  | ratio hden _ => exact isReduced_intRatio hden
  | rounded _ _ _ => exact isReduced_number _

/-! ## Folding -/

/-- The power of a literal is exact where the literal is an integer. -/
theorem writtenAs_of_fold {op : Operator} {a b : Literal} {v w : Rat} {e : Expr} (hop : op ≠ equals)
    (hpower : op = power → w.den = 1) (ha : a.typedValue = .ok v) (hb : b.typedValue = .ok w)
    (h : foldConstants (binary op (number a) (number b)) = .ok (some e)) :
    ∃ u, op.compute? v w = some u ∧ WrittenAs u (op = divide ∨ op = power ∧ v.den = 1) e := by
  rw [foldConstants_numbers hop ha hb, Except.ok.injEq] at h
  cases op with
  | equals => exact absurd rfl hop
  | plus => exact ⟨v + w, rfl, (writtenAs_of_resultOf h).congr (by simp)⟩
  | minus => exact ⟨v - w, rfl, (writtenAs_of_resultOf h).congr (by simp)⟩
  | times => exact ⟨v * w, rfl, (writtenAs_of_resultOf h).congr (by simp)⟩
  | divide =>
    have hexact : divide = divide ∨ divide = power ∧ v.den = 1 := .inl rfl
    obtain ⟨hzero, hwritten⟩ := writtenAs_of_foldRatio hexact h
    exact ⟨v / w, if_neg hzero, hwritten⟩
  | power =>
    dsimp only at h
    rw [if_pos (hpower rfl)] at h
    obtain ⟨hdefined, hresult⟩ := resultOf_of_foldIntegralPower h
    refine ⟨v ^ w.num, if_pos ⟨hpower rfl, hdefined⟩, (writtenAs_of_resultOf hresult).congr ?_⟩
    rw [Literal.toInt?_isSome_iff ha]
    simp

/-- An operator on two integers, neither quotient nor power, gives an integer. -/
theorem den_compute? {op : Operator} {v w u : Rat} (hdivide : op ≠ divide) (hpower : op ≠ power)
    (hv : v.den = 1) (hw : w.den = 1) (h : op.compute? v w = some u) : u.den = 1 := by
  rw [← Rat.coe_int_num_of_den_eq_one hv, ← Rat.coe_int_num_of_den_eq_one hw] at h
  cases op with
  | divide => exact absurd rfl hdivide
  | power => exact absurd rfl hpower
  | plus =>
    cases h
    exact_mod_cast Rat.den_intCast (v.num + w.num)
  | times =>
    cases h
    exact_mod_cast Rat.den_intCast (v.num * w.num)
  | _ =>
    cases h
    exact_mod_cast Rat.den_intCast (v.num - w.num)

theorem isReduced_of_fold {op : Operator} {a b : Literal} {e : Expr}
    (h : foldConstants (binary op (number a) (number b)) = .ok (some e)) : e.IsReduced := by
  by_cases hop : op = equals
  · subst hop
    cases h
  · obtain ⟨v, w, ha, hb⟩ := typedValues_of_foldConstants hop h
    by_cases hpower : op = power → w.den = 1
    · obtain ⟨u, -, hwritten⟩ := writtenAs_of_fold hop hpower ha hb h
      exact hwritten.isReduced
    · obtain ⟨rfl, hden⟩ := Classical.not_imp.mp hpower
      rw [foldConstants_numbers hop ha hb, Except.ok.injEq] at h
      dsimp only at h
      rw [if_neg hden] at h
      obtain ⟨c, rfl⟩ := number_of_foldFractionalPower h
      exact isReduced_number c

/-- The cases in which the result of an operator is written down exactly. -/
def Operator.KeepsExact (op : Operator) (v w u : Rat) : Prop :=
  u.den = 1 ∨ op = divide ∨ v.den = 1 ∧ w.den = 1

/-- Folding two finite literals never fails. What it gives denotes the exact value of the operator
where that is an integer, a quotient or computed from integers, and is the nearest double elsewhere;
a ratio is in lowest terms and is not folded again. -/
theorem foldConstants_exact {op : Operator} {a b : Literal} (ha : a.IsFinite) (hb : b.IsFinite) :
    (∃ r, foldConstants (binary op (number a) (number b)) = .ok r) ∧
      ∀ e, foldConstants (binary op (number a) (number b)) = .ok (some e) →
        op ≠ equals ∧ e.IsReduced ∧
          ∃ v w, a.typedValue = .ok v ∧ b.typedValue = .ok w ∧ ((op = power → w.den = 1) →
            ∃ u, op.compute? v w = some u ∧ (op.KeepsExact v w u → e.Denotes u) ∧
              (¬op.KeepsExact v w u → ∃ x, e = number (.double x) ∧ x.IsNearest u)) := by
  refine ⟨foldConstants_isOk finite_foldClosed ⟨ha, hb⟩, fun e h => ?_⟩
  have hop : op ≠ equals := by
    rintro rfl
    cases h
  obtain ⟨v, w, hv, hw⟩ := typedValues_of_foldConstants hop h
  refine ⟨hop, isReduced_of_fold h, v, w, hv, hw, fun hpower => ?_⟩
  obtain ⟨u, hu, hwritten⟩ := writtenAs_of_fold hop hpower hv hw h
  refine ⟨u, hu, fun hkept => hwritten.denotes ?_, fun hrounded => ?_⟩
  · rcases hkept with hinteger | hdivide | ⟨hleft, hright⟩
    · exact .inl hinteger
    · exact .inr (.inl hdivide)
    · by_cases hexact : op = divide ∨ op = power ∧ v.den = 1
      · exact .inr hexact
      · obtain ⟨hdivide, hnotPower⟩ := not_or.mp hexact
        exact .inl (den_compute? hdivide (fun heq => hnotPower ⟨heq, hleft⟩) hleft hright hu)
  · obtain ⟨hinteger, hrounded⟩ := not_or.mp hrounded
    obtain ⟨hdivide, hfraction⟩ := not_or.mp hrounded
    refine hwritten.isNearest hinteger (not_or.mpr ⟨hdivide, ?_⟩)
    rintro ⟨heq, hleft⟩
    exact hfraction ⟨hleft, hpower heq⟩

/-- The doubles that are typed as `0.1`, `0.2` and `0.3`. -/
def Double.tenth : Double := .finite false ⟨0x3FB999999999999A, by decide⟩

def Double.fifth : Double := .finite false ⟨0x3FC999999999999A, by decide⟩

def Double.threeTenths : Double := .finite false ⟨0x3FD3333333333333, by decide⟩

/-- The sum of `0.1` and `0.2` is the double nearest to three tenths, though the two doubles
themselves add up to more. -/
theorem sum_of_tenths_nearest :
    foldConstants (binary plus (number (.double Double.tenth)) (number (.double Double.fifth)))
        = .ok (some (number (.double Double.threeTenths))) ∧
      Double.threeTenths.IsNearest (3 / 10) := by
  have hfold : foldConstants
      (binary plus (number (.double Double.tenth)) (number (.double Double.fifth)))
        = .ok (some (number (.double Double.threeTenths))) := by decide +kernel
  refine ⟨hfold, ?_⟩
  have htenth : (Literal.double Double.tenth).typedValue = .ok (1 / 10) := by decide +kernel
  have hfifth : (Literal.double Double.fifth).typedValue = .ok (1 / 5) := by decide +kernel
  obtain ⟨-, hexact⟩ :=
    @foldConstants_exact plus (.double Double.tenth) (.double Double.fifth) rfl rfl
  obtain ⟨-, -, v, w, hv, hw, hvalue⟩ := hexact _ hfold
  obtain rfl : v = 1 / 10 := Except.ok.inj (hv.symm.trans htenth)
  obtain rfl : w = 1 / 5 := Except.ok.inj (hw.symm.trans hfifth)
  obtain ⟨u, hu, -, hnearest⟩ := hvalue (fun h => by cases h)
  have hsum : plus.compute? (1 / 10) (1 / 5) = some (3 / 10) := by decide +kernel
  obtain rfl : u = 3 / 10 := Option.some.inj (hu.symm.trans hsum)
  have hrounded : ¬plus.KeepsExact (1 / 10) (1 / 5) (3 / 10) := by
    rintro (h | h | ⟨h, -⟩) <;> revert h <;> decide +kernel
  obtain ⟨x, hx, hclosest⟩ := hnearest hrounded
  cases hx
  exact hclosest

end Locus
