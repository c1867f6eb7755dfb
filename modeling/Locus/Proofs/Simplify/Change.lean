import Locus.Proofs.Markup.Rendered
import Locus.Proofs.Numeric.Integers
import Locus.Proofs.Simplify.Literals

/-! Every rewrite is a change. No contraction leaves an expression the same node for node up to the
values of literals (`Rewrites.not_agrees`), and no rule takes a name into one that is not there. -/

namespace Locus
set_option autoImplicit false

open Locus.Expr Locus.Operator

variable {e e' t : Expr}

/-! ## Agreement -/

theorem Expr.Agrees.count_eq (h : e.Agrees t) : e.count = t.count := by
  induction h with
  | number _ | var _ => rfl
  | call f _ ih => rw [count, count, ih]
  | binary op _ _ ihl ihr => rw [count, count, ihl, ihr]

theorem Expr.Agrees.isNumber_eq (h : e.Agrees t) : e.isNumber = t.isNumber := by
  cases h <;> rfl

/-- An expression does not agree with what one of its parts agrees with. -/
theorem not_agrees_left {op : Operator} {l r : Expr} (h : (binary op l r).Agrees t) :
    ¬l.Agrees t := by
  intro hl
  have hcount := h.count_eq.trans hl.count_eq.symm
  rw [count] at hcount
  omega

theorem not_agrees_right {op : Operator} {l r : Expr} (h : (binary op l r).Agrees t) :
    ¬r.Agrees t := by
  intro hr
  have hcount := h.count_eq.trans hr.count_eq.symm
  rw [count] at hcount
  omega

/-! ## Folded ratios -/

theorem Literal.toRat?_of_sameValue {a b : Literal} (h : a.sameValue b) : a.toRat? = b.toRat? := by
  unfold sameValue at h
  split at h
  · rfl
  · cases ha : a.toRat? <;> cases hb : b.toRat? <;> simp_all

/-- Two operators between literals that agree with one expression have operands of one value. -/
theorem toRat?_of_agrees {op : Operator} {a b c d : Literal}
    (h : (binary op (number a) (number b)).Agrees t)
    (h' : (binary op (number c) (number d)).Agrees t) :
    a.toRat? = c.toRat? ∧ b.toRat? = d.toRat? := by
  cases h with
  | binary _ hl hr =>
    cases h' with
    | binary _ hl' hr' =>
      cases hl with
      | number ha =>
        cases hr with
        | number hb =>
          cases hl' with
          | number hc =>
            cases hr' with
            | number hd =>
              exact ⟨(Literal.toRat?_of_sameValue ha).trans (Literal.toRat?_of_sameValue hc).symm,
                (Literal.toRat?_of_sameValue hb).trans (Literal.toRat?_of_sameValue hd).symm⟩

theorem eq_of_div_eq {v w : Rat} (h : (v / w).den ≠ 1)
    (hone : v = (v / w).num ∨ w = (v / w).den) :
    ((v / w).num : Rat) = v ∧ ((v / w).den : Rat) = w := by
  have hquotient : v / w ≠ 0 := by
    rintro hzero
    rw [hzero] at h
    exact h rfl
  have hv : v ≠ 0 := fun hv => hquotient (by rw [hv, zero_div])
  have hw : w ≠ 0 := fun hw => hquotient (by rw [hw, div_zero])
  have hden : ((v / w).den : Rat) ≠ 0 := by exact_mod_cast (v / w).den_nz
  have hcross : ((v / w).num : Rat) * w = v * (v / w).den := by
    have hlowest := Rat.num_div_den (v / w)
    rwa [div_eq_div_iff hden hw] at hlowest
  rcases hone with hone | hone
  · refine ⟨hone.symm, ?_⟩
    rw [← hone] at hcross
    exact (mul_left_cancel₀ hv hcross).symm
  · refine ⟨?_, hone.symm⟩
    rw [← hone] at hcross
    exact mul_right_cancel₀ hw hcross

/-- A ratio that is folded to another ratio has another numerator or another denominator. Literals
are read as they were typed, which a double beyond `2 ^ 53` is not; but it is even there, and
numerator and denominator are not both. -/
theorem not_agrees_foldRatio {a b : Literal} {v w : Rat} (hv : a.typedValue = .ok v)
    (hw : b.typedValue = .ok w) (h : foldRatio v w = some e)
    (ht : (binary divide (number a) (number b)).Agrees t) : ¬e.Agrees t := by
  intro hagrees
  unfold foldRatio at h
  split at h
  · cases h
  · dsimp only at h
    split at h
    · cases h
      cases ht
      cases hagrees
    · rename_i hden
      split at h
      · cases h
      · rename_i hother
        cases h
        obtain ⟨hnumerator, hdenominator⟩ := toRat?_of_agrees ht hagrees
        refine hother (eq_of_div_eq hden ?_)
        rcases Literal.typedValue_of_integral hnumerator with hnum | ⟨-, heven⟩
        · exact .inl (Except.ok.inj (hv.symm.trans hnum))
        · rcases Literal.typedValue_of_integral hdenominator with hd | ⟨-, heven'⟩
          · exact .inr ((Except.ok.inj (hw.symm.trans hd)).trans (Rat.intCast_natCast _))
          · have hcoprime := (v / w).reduced
            have hcommon := Nat.dvd_gcd (Int.natAbs_dvd_natAbs.mpr heven)
              (Int.natCast_dvd_natCast.mp heven')
            rw [hcoprime] at hcommon
            exact absurd hcommon (by decide)

/-! ## Contractions -/

theorem not_agrees_fold {op : Operator} {a b : Literal}
    (h : foldConstants (binary op (number a) (number b)) = .ok (some e))
    (ht : (binary op (number a) (number b)).Agrees t) : ¬e.Agrees t := by
  intro hagrees
  rcases number_or_intRatio_of_fold h with ⟨v, rfl⟩ | ⟨rfl | rfl, m, n, rfl⟩
  · cases ht
    cases hagrees
  · obtain ⟨v, w, hv, hw⟩ := typedValues_of_foldConstants (by decide) h
    rw [foldConstants_numbers (by decide) hv hw, Except.ok.injEq] at h
    exact not_agrees_foldRatio hv hw h ht hagrees
  · cases ht
    cases hagrees

theorem Contracts.not_agrees (h : Contracts e e') (ht : e.Agrees t) : ¬e'.Agrees t := by
  cases h with
  | fold _ folds => exact not_agrees_fold folds ht
  | oneTimes | zeroPlus => exact not_agrees_right ht
  | timesOne | plusZero | minusZero | divideOne | powerOne => exact not_agrees_left ht
  | timesRatios =>
    intro ht'
    cases ht
    cases ht'
  | addRatios additive =>
    intro ht'
    unfold joinRatios at ht'
    rcases additive with rfl | rfl <;> cases ht <;> split at ht' <;> cases ht'
  | merge merges =>
    obtain ⟨-, -, x, -, rfl⟩ := merges
    intro ht'
    cases ht
    cases ht'
  | mergeOuter merges =>
    intro ht'
    cases ht with
    | binary _ hl _ =>
      cases ht' with
      | binary _ hl' _ => exact not_agrees_left hl hl'
  | mergeInner merges =>
    obtain ⟨-, -, x, -, rfl⟩ := merges
    intro ht'
    cases ht with
    | binary _ hl _ =>
      cases ht' with
      | binary _ hl' _ =>
        cases hl
        cases hl'
  | order literal other =>
    intro ht'
    cases ht with
    | binary _ hl _ =>
      cases ht' with
      | binary _ hl' _ => exact other ((hl.isNumber_eq.trans hl'.isNumber_eq.symm).trans literal)

/-- A rewrite leaves no expression the same node for node, wherever it takes place. -/
theorem Rewrites.not_agrees (h : Rewrites e e') (ht : e.Agrees t) : ¬e'.Agrees t := by
  induction h generalizing t with
  | here h => exact h.not_agrees ht
  | argument _ ih =>
    intro ht'
    cases ht with
    | call _ ha =>
      cases ht' with
      | call _ ha' => exact ih ha ha'
  | left _ ih =>
    intro ht'
    cases ht with
    | binary _ hl _ =>
      cases ht' with
      | binary _ hl' _ => exact ih hl hl'
  | right _ ih =>
    intro ht'
    cases ht with
    | binary _ _ hr =>
      cases ht' with
      | binary _ _ hr' => exact ih hr hr'

/-! ## Names -/

theorem Rewrites.named (h : Rewrites e e') (he : e.Named) : e'.Named :=
  h.allHeads (fun _ => trivial) he

end Locus
