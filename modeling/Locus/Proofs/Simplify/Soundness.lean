import Mathlib
import Locus.Proofs.Expr.Value

/-! Soundness of simplification. A rewrite of an expression with integer literals keeps its exact
value, unless it takes parts of different values for the same (`Rewrites.refines_or_identifies`,
`Identifies.refines`). Parts without equations never differ so, and an equation is rewritten inside
its two sides; so each side keeps its value along a run of any number of steps. -/

namespace Locus
set_option autoImplicit false

open Locus.Expr Locus.Operator

variable {ν : Valuation}

/-! ## Powers -/

theorem rationalPower?_eq_some {x y v : Rat} :
    rationalPower? x y = some v ↔ ∃ n : Int, y = n ∧ ¬(x = 0 ∧ n < 0) ∧ v = x ^ n := by
  unfold rationalPower?
  constructor
  · intro h
    split at h
    · rename_i hy
      cases h
      exact ⟨y.num, (Rat.coe_int_num_of_den_eq_one hy.1).symm, hy.2, rfl⟩
    · cases h
  · rintro ⟨n, rfl, hn, rfl⟩
    rw [if_pos ⟨Rat.den_intCast n, by rwa [Rat.num_intCast]⟩, Rat.num_intCast]

theorem zpow_add_of_defined {x : Rat} {m n : Int} (hm : ¬(x = 0 ∧ m < 0)) (hn : ¬(x = 0 ∧ n < 0)) :
    x ^ (m + n) = x ^ m * x ^ n := by
  by_cases hx : x = 0
  · subst hx
    obtain ⟨i, rfl⟩ := Int.eq_ofNat_of_zero_le (not_lt.mp fun h => hm ⟨rfl, h⟩)
    obtain ⟨j, rfl⟩ := Int.eq_ofNat_of_zero_le (not_lt.mp fun h => hn ⟨rfl, h⟩)
    exact_mod_cast pow_add (0 : Rat) i j
  · exact zpow_add₀ hx m n

theorem rationalPower?_add {x y z v w : Rat} (hv : rationalPower? x y = some v)
    (hw : rationalPower? x z = some w) : rationalPower? x (y + z) = some (v * w) := by
  obtain ⟨m, rfl, hm, rfl⟩ := rationalPower?_eq_some.mp hv
  obtain ⟨n, rfl, hn, rfl⟩ := rationalPower?_eq_some.mp hw
  refine rationalPower?_eq_some.mpr ⟨m + n, by push_cast; rfl, ?_, (zpow_add_of_defined hm hn).symm⟩
  rintro ⟨hx, hsum⟩
  have hm' : 0 ≤ m := not_lt.mp fun h => hm ⟨hx, h⟩
  have hn' : 0 ≤ n := not_lt.mp fun h => hn ⟨hx, h⟩
  omega

theorem rationalPower?_one (x : Rat) : rationalPower? x 1 = some x :=
  rationalPower?_eq_some.mpr ⟨1, rfl, by omega, (zpow_one x).symm⟩

/-! ## Folding -/

theorem value?_intRatio (v : Rat) : (intRatio v.num v.den).value? ν = some v := by
  have hden : ((v.den : Int) : Rat) ≠ 0 := by exact_mod_cast v.den_nz
  rw [intRatio, value?_binary (value?_int _) (value?_int _), compute?, if_neg hden]
  exact congrArg some (by exact_mod_cast Rat.num_div_den v)

theorem value?_resultOf {v : Rat} {exact : Bool} {e : Expr} (hv : v.den = 1 ∨ exact)
    (h : resultOf v exact = some e) : e.value? ν = some v := by
  unfold resultOf at h
  obtain ⟨x, -, rfl⟩ := Option.map_eq_some_iff.mp h
  split
  · rename_i hden
    rw [value?_int, Rat.coe_int_num_of_den_eq_one hden]
  · rename_i hden
    rw [if_pos (hv.resolve_left hden)]
    exact value?_intRatio v

theorem value?_foldRatio {v w : Rat} {e : Expr} (h : foldRatio v w = some e) :
    e.value? ν = some (v / w) := by
  unfold foldRatio at h
  split at h
  · cases h
  · dsimp only at h
    split at h
    · rename_i hden
      cases h
      rw [value?_int, Rat.coe_int_num_of_den_eq_one hden]
    · split at h
      · cases h
      · cases h
        exact value?_intRatio (v / w)

/-- Folding integers computes the value of the operator wherever it has one. -/
theorem refines_fold {op : Operator} {m n : Int} {e : Expr} (hop : op ≠ equals)
    (h : foldConstants (binary op (int m) (int n)) = .ok (some e)) :
    Refines ν (binary op (int m) (int n)) e := by
  intro v hv
  rw [value?_binary (value?_int m) (value?_int n)] at hv
  rw [int, int, foldConstants_numbers hop rfl rfl, Except.ok.injEq] at h
  cases op with
  | equals => exact absurd rfl hop
  | plus =>
    cases hv
    exact value?_resultOf (.inl (by exact_mod_cast Rat.den_intCast (m + n))) h
  | minus =>
    cases hv
    exact value?_resultOf (.inl (by exact_mod_cast Rat.den_intCast (m - n))) h
  | times =>
    cases hv
    exact value?_resultOf (.inl (by exact_mod_cast Rat.den_intCast (m * n))) h
  | divide =>
    simp only [compute?] at hv
    split at hv
    · cases hv
    · cases hv
      exact value?_foldRatio h
  | power =>
    obtain ⟨k, hk, -, rfl⟩ := rationalPower?_eq_some.mp hv
    rw [Rat.intCast_inj.mp hk] at h
    dsimp only at h
    rw [if_pos (Rat.den_intCast k), Rat.num_intCast] at h
    exact value?_resultOf (.inr rfl) (resultOf_of_foldIntegralPower h).2

/-! ## Neutral operands -/

theorem eq_int_of_hasValue {e : Expr} {n : Int} (he : e.AllLiterals Literal.IsInteger)
    (h : e.hasValue (.int n)) : e = int n := by
  cases e with
  | number a =>
    have hn : (Literal.int n).IsInteger := trivial
    rw [Literal.eq_of_sameValue he hn h]
    rfl
  | _ => cases h

theorem eq_one_of_isOne {e : Expr} (he : e.AllLiterals Literal.IsInteger) (h : e.isOne) :
    e = int 1 :=
  eq_int_of_hasValue he h

theorem eq_zero_of_isZero {e : Expr} (he : e.AllLiterals Literal.IsInteger) (h : e.isZero) :
    e = int 0 :=
  eq_int_of_hasValue he h

/-- An operand is all that is left where the other one does not change its value. -/
theorem refines_of_neutral_right {op : Operator} {l : Expr} {n : Int}
    (hneutral : ∀ x, op.compute? x n = some x) : Refines ν (binary op l (int n)) l := by
  intro v hv
  obtain ⟨x, y, hx, hy, hop⟩ := value?_binary_eq_some.mp hv
  rw [value?_int, Option.some.injEq] at hy
  rw [← hy, hneutral, Option.some.injEq] at hop
  rw [hx, hop]

theorem refines_of_neutral_left {op : Operator} {r : Expr} {n : Int}
    (hneutral : ∀ x, op.compute? n x = some x) : Refines ν (binary op (int n) r) r := by
  intro v hv
  obtain ⟨x, y, hx, hy, hop⟩ := value?_binary_eq_some.mp hv
  rw [value?_int, Option.some.injEq] at hx
  rw [← hx, hneutral, Option.some.injEq] at hop
  rw [hy, hop]

/-! ## Ratios -/

theorem value?_divide_eq_some {a b : Expr} {v : Rat} :
    (binary divide a b).value? ν = some v ↔
      ∃ x y, a.value? ν = some x ∧ b.value? ν = some y ∧ y ≠ 0 ∧ v = x / y := by
  rw [value?_binary_eq_some]
  constructor
  · rintro ⟨x, y, hx, hy, h⟩
    simp only [compute?] at h
    split at h
    · cases h
    · rename_i hzero
      cases h
      exact ⟨x, y, hx, hy, hzero, rfl⟩
  · rintro ⟨x, y, hx, hy, hzero, rfl⟩
    exact ⟨x, y, hx, hy, if_neg hzero⟩

theorem refines_timesRatios (a b c d : Expr) :
    Refines ν (binary times (binary divide a b) (binary divide c d))
      (binary divide (binary times a c) (binary times b d)) := by
  intro v hv
  obtain ⟨_, _, hl, hr, hop⟩ := value?_binary_eq_some.mp hv
  obtain ⟨x, y, hx, hy, hy0, rfl⟩ := value?_divide_eq_some.mp hl
  obtain ⟨z, w, hz, hw, hw0, rfl⟩ := value?_divide_eq_some.mp hr
  cases hop
  refine value?_divide_eq_some.mpr ⟨x * z, y * w, ?_, ?_, mul_ne_zero hy0 hw0, ?_⟩
  · rw [value?_binary hx hz, compute?]
  · rw [value?_binary hy hw, compute?]
  · exact div_mul_div_comm x y z w

theorem compute?_additive {op : Operator} (hop : op = plus ∨ op = minus) :
    ∃ s : Rat, ∀ x y, op.compute? x y = some (x + s * y) := by
  rcases hop with rfl | rfl
  · exact ⟨1, fun x y => by rw [compute?, one_mul]⟩
  · exact ⟨-1, fun x y => by rw [compute?, neg_one_mul, sub_eq_add_neg]⟩

theorem refines_joinRatios_of_same {op : Operator} {a b c d : Expr} (hop : op = plus ∨ op = minus)
    (hsame : b.sameUpToOrder d) (hagree : Agree ν b d) :
    Refines ν (binary op (binary divide a b) (binary divide c d)) (joinRatios op a b c d) := by
  intro v hv
  obtain ⟨_, _, hl, hr, hvalue⟩ := value?_binary_eq_some.mp hv
  obtain ⟨x, y, hx, hy, hy0, rfl⟩ := value?_divide_eq_some.mp hl
  obtain ⟨z, w, hz, hw, -, rfl⟩ := value?_divide_eq_some.mp hr
  obtain ⟨s, hs⟩ := compute?_additive hop
  rw [hs, Option.some.injEq] at hvalue
  obtain rfl : y = w := hagree y w hy hw
  rw [joinRatios, if_pos hsame]
  refine value?_divide_eq_some.mpr ⟨x + s * z, y, ?_, hy, hy0, ?_⟩
  · rw [value?_binary hx hz, hs]
  · rw [← hvalue, add_div, mul_div_assoc]

theorem refines_joinRatios_of_not_same {op : Operator} {a b c d : Expr}
    (hop : op = plus ∨ op = minus) (hother : ¬b.sameUpToOrder d) :
    Refines ν (binary op (binary divide a b) (binary divide c d)) (joinRatios op a b c d) := by
  intro v hv
  obtain ⟨_, _, hl, hr, hvalue⟩ := value?_binary_eq_some.mp hv
  obtain ⟨x, y, hx, hy, hy0, rfl⟩ := value?_divide_eq_some.mp hl
  obtain ⟨z, w, hz, hw, hw0, rfl⟩ := value?_divide_eq_some.mp hr
  obtain ⟨s, hs⟩ := compute?_additive hop
  rw [hs, Option.some.injEq] at hvalue
  rw [joinRatios, if_neg hother]
  refine value?_divide_eq_some.mpr ⟨x * w + s * (z * y), y * w, ?_, ?_, mul_ne_zero hy0 hw0, ?_⟩
  · rw [value?_binary (x := x * w) (y := z * y), hs]
    · rw [value?_binary hx hw, compute?]
    · rw [value?_binary hz hy, compute?]
  · rw [value?_binary hy hw, compute?]
  · rw [← hvalue]
    field_simp

/-! ## Merged powers -/

/-- A factor has the value of the power that it is split into. -/
theorem refines_splitPower (e : Expr) :
    Refines ν e (binary power (splitPower e).1 (splitPower e).2) := by
  intro v hv
  rcases splitPower_cases e with he | ⟨he, -⟩
  · rw [← he]
    exact hv
  · rw [he, value?_binary hv (value?_int 1), compute?]
    exact_mod_cast rationalPower?_one v

theorem value?_addExponents {m n s : Expr} {x y : Rat} (hm : m.AllLiterals Literal.IsInteger)
    (hn : n.AllLiterals Literal.IsInteger) (hx : m.value? ν = some x) (hy : n.value? ν = some y)
    (h : addExponents m n = .ok (some s)) : s.value? ν = some (x + y) := by
  have hsum : (binary plus m n).value? ν = some (x + y) := by rw [value?_binary hx hy, compute?]
  have hplus : plus ≠ equals := by decide
  obtain ⟨a, b, rfl, rfl, hfold⟩ | ⟨-, rfl⟩ := addExponents_cases h
  · cases a with
    | double x => cases hm
    | int i =>
      cases b with
      | double x => cases hn
      | int j => exact refines_fold hplus hfold _ hsum
  · exact hsum

theorem Merges.refines {first second merged : Expr} (h : Merges first second merged)
    (h₁ : first.AllLiterals Literal.IsInteger) (h₂ : second.AllLiterals Literal.IsInteger)
    (hagree : Agree ν (splitPower first).1 (splitPower second).1) :
    Refines ν (binary times first second) merged := by
  obtain ⟨-, -, s, hs, rfl⟩ := h
  have hexponent₁ := (allLiterals_splitPower integer_foldClosed.sumClosed h₁).2
  have hexponent₂ := (allLiterals_splitPower integer_foldClosed.sumClosed h₂).2
  intro v hv
  obtain ⟨x, y, hx, hy, hop⟩ := value?_binary_eq_some.mp hv
  cases hop
  obtain ⟨a, m, ha, hm, hxpow⟩ := value?_binary_eq_some.mp (refines_splitPower first x hx)
  obtain ⟨b, n, hb, hn, hypow⟩ := value?_binary_eq_some.mp (refines_splitPower second y hy)
  obtain rfl : a = b := hagree a b ha hb
  rw [value?_binary ha (value?_addExponents hexponent₁ hexponent₂ hm hn hs)]
  exact rationalPower?_add hxpow hypow

theorem refines_times_assoc (a b r : Expr) :
    Refines ν (binary times (binary times a b) r) (binary times a (binary times b r)) := by
  intro v hv
  obtain ⟨_, z, hl, hz, hop⟩ := value?_binary_eq_some.mp hv
  obtain ⟨x, y, hx, hy, hop'⟩ := value?_binary_eq_some.mp hl
  cases hop'
  cases hop
  have hinner : (binary times b r).value? ν = some (y * z) := value?_binary hy hz
  rw [value?_binary hx hinner, compute?, mul_assoc]

theorem refines_times_comm (l r : Expr) : Refines ν (binary times l r) (binary times r l) := by
  intro v hv
  rw [← hv]
  exact value?_binary_comm rfl (by decide) r l

/-- `(a * b) * r` is `b * (a * r)`. -/
theorem refines_times_swap (a b r : Expr) :
    Refines ν (binary times (binary times a b) r) (binary times b (binary times a r)) :=
  ((refines_times_comm a b).binary (Refines.refl r)).trans (refines_times_assoc b a r)

/-! ## Rewrites -/

section

variable {e e' : Expr}

/-- A rewrite that takes parts for the same keeps the value if these agree in theirs. -/
theorem Identifies.refines {a b : Expr} (h : Identifies e e' a b)
    (he : e.AllLiterals Literal.IsInteger) (hagree : Agree ν a b) : Refines ν e e' := by
  induction h with
  | denominators additive same => exact refines_joinRatios_of_same additive same hagree
  | factors merges => exact merges.refines he.1 he.2 hagree
  | @outer a b r m merges =>
    have hmerged : Refines ν (binary times a (binary times b r)) (binary times a m) :=
      (Refines.refl a).binary (merges.refines he.1.2 he.2 hagree)
    exact (refines_times_assoc a b r).trans hmerged
  | @inner a b r m merges =>
    have hmerged : Refines ν (binary times b (binary times a r)) (binary times b m) :=
      (Refines.refl b).binary (merges.refines he.1.1 he.2 hagree)
    exact ((refines_times_swap a b r).trans hmerged).trans (refines_times_comm b m)
  | argument _ ih => exact (ih he hagree).call
  | left _ ih => exact (ih he.1 hagree).binary (Refines.refl _)
  | right _ ih => exact (Refines.refl _).binary (ih he.2 hagree)

theorem Contracts.refines_or_identifies (h : Contracts e e')
    (he : e.AllLiterals Literal.IsInteger) :
    Refines ν e e' ∨ ∃ a b, Identifies e e' a b := by
  cases h with
  | @fold op a b e' hop folds =>
    cases a with
    | double x => cases he.1
    | int m =>
      cases b with
      | double x => cases he.2
      | int n => exact .inl (refines_fold hop folds)
  | oneTimes one =>
    rw [eq_one_of_isOne he.1 one]
    exact .inl (refines_of_neutral_left fun x => by simp [compute?])
  | timesOne one =>
    rw [eq_one_of_isOne he.2 one]
    exact .inl (refines_of_neutral_right fun x => by simp [compute?])
  | plusZero zero =>
    rw [eq_zero_of_isZero he.2 zero]
    exact .inl (refines_of_neutral_right fun x => by simp [compute?])
  | zeroPlus zero =>
    rw [eq_zero_of_isZero he.1 zero]
    exact .inl (refines_of_neutral_left fun x => by simp [compute?])
  | minusZero zero =>
    rw [eq_zero_of_isZero he.2 zero]
    exact .inl (refines_of_neutral_right fun x => by simp [compute?])
  | divideOne one =>
    rw [eq_one_of_isOne he.2 one]
    exact .inl (refines_of_neutral_right fun x => by simp [compute?])
  | powerOne one =>
    rw [eq_one_of_isOne he.2 one]
    exact .inl (refines_of_neutral_right fun x => by simpa [compute?] using rationalPower?_one x)
  | timesRatios => exact .inl (refines_timesRatios _ _ _ _)
  | @addRatios op a b c d additive =>
    by_cases hsame : b.sameUpToOrder d
    · exact .inr ⟨b, d, .denominators additive hsame⟩
    · exact .inl (refines_joinRatios_of_not_same additive hsame)
  | merge merges => exact .inr ⟨_, _, .factors merges⟩
  | mergeOuter merges => exact .inr ⟨_, _, .outer merges⟩
  | mergeInner merges => exact .inr ⟨_, _, .inner merges⟩
  | order => exact .inl (refines_times_comm _ _)

/-- A rewrite that takes no parts for the same keeps the value. -/
theorem Rewrites.refines_or_identifies (h : Rewrites e e')
    (he : e.AllLiterals Literal.IsInteger) :
    Refines ν e e' ∨ ∃ a b, Identifies e e' a b := by
  induction h with
  | here h => exact h.refines_or_identifies he
  | argument _ ih =>
    rcases ih he with hrefines | ⟨a, b, hsame⟩
    · exact .inl hrefines.call
    · exact .inr ⟨a, b, .argument hsame⟩
  | left _ ih =>
    rcases ih he.1 with hrefines | ⟨a, b, hsame⟩
    · exact .inl (hrefines.binary (Refines.refl _))
    · exact .inr ⟨a, b, .left hsame⟩
  | right _ ih =>
    rcases ih he.2 with hrefines | ⟨a, b, hsame⟩
    · exact .inl ((Refines.refl _).binary hrefines)
    · exact .inr ⟨a, b, .right hsame⟩

/-- The parts that are taken for the same agree in their values, or an equation is turned over. -/
theorem Identifies.agree_or_mirrors {a b : Expr} (h : Identifies e e' a b)
    (he : e.AllLiterals Literal.IsInteger) : Agree ν a b ∨ Mirrors ν a b :=
  Locus.agree_or_mirrors (allLiterals_of_isPart h.isPart.1 he) (allLiterals_of_isPart h.isPart.2 he)
    h.sameUpToOrder

theorem Identifies.agree_of_unmirrored {a b : Expr} (h : Identifies e e' a b)
    (he : e.AllLiterals Literal.IsInteger) (hmirror : Unmirrored ν e.equations) :
    Agree ν a b :=
  (h.agree_or_mirrors he).resolve_right fun hmirrors =>
    hmirror.not_mirrors (hmirrors.of_isPart h.isPart.1 h.isPart.2)

theorem Rewrites.refines_of_unmirrored (h : Rewrites e e')
    (he : e.AllLiterals Literal.IsInteger) (hmirror : Unmirrored ν e.equations) :
    Refines ν e e' := by
  rcases h.refines_or_identifies he with hrefines | ⟨a, b, hsame⟩
  · exact hrefines
  · exact hsame.refines he (hsame.agree_of_unmirrored he hmirror)

end

/-! ## Equations in contracted expressions -/

theorem equations_of_fold {op : Operator} {a b : Literal} {e : Expr}
    (h : foldConstants (binary op (number a) (number b)) = .ok (some e)) : e.equations = [] := by
  rcases number_or_intRatio_of_fold h with ⟨v, rfl⟩ | ⟨-, m, n, rfl⟩ <;> rfl

theorem equations_splitPower (e : Expr) :
    (splitPower e).1.equations ⊆ e.equations ∧ (splitPower e).2.equations ⊆ e.equations := by
  rcases splitPower_cases e with he | ⟨he, -⟩
  · have hbase := equations_subset_left power (splitPower e).1 (splitPower e).2
    have hexponent := equations_subset_right power (splitPower e).1 (splitPower e).2
    rw [← he] at hbase hexponent
    exact ⟨hbase, hexponent⟩
  · rw [he]
    exact ⟨List.Subset.refl _, List.nil_subset _⟩

theorem Merges.equations_subset {first second merged : Expr} (h : Merges first second merged) :
    merged.equations ⊆ first.equations ++ second.equations := by
  obtain ⟨-, -, x, hx, rfl⟩ := h
  have hfirst := equations_splitPower first
  have hsecond := equations_splitPower second
  have hsum : x.equations ⊆ first.equations ++ second.equations := by
    obtain ⟨a, b, -, -, hfold⟩ | ⟨-, rfl⟩ := addExponents_cases hx
    · rw [equations_of_fold hfold]
      exact List.nil_subset _
    · rw [equations_of_ne (by decide)]
      exact List.append_subset.mpr ⟨List.subset_append_of_subset_left _ hfirst.2,
        List.subset_append_of_subset_right _ hsecond.2⟩
  rw [equations_of_ne (by decide)]
  exact List.append_subset.mpr ⟨List.subset_append_of_subset_left _ hfirst.1, hsum⟩

/-- A contraction puts no sides together to a new equation. -/
theorem Contracts.equations_subset {e e' : Expr} (h : Contracts e e') :
    e'.equations ⊆ e.equations := by
  cases h with
  | fold _ folds =>
    rw [equations_of_fold folds]
    exact List.nil_subset _
  | oneTimes | zeroPlus => exact equations_subset_right _ _ _
  | timesOne | plusZero | minusZero | divideOne | powerOne => exact equations_subset_left _ _ _
  | timesRatios =>
    intro q hq
    simp only [Expr.equations, reduceCtorEq, if_false, List.nil_append, List.mem_append] at hq ⊢
    tauto
  | addRatios additive =>
    intro q hq
    unfold joinRatios at hq
    rcases additive with rfl | rfl <;> split at hq <;>
      simp only [Expr.equations, reduceCtorEq, if_false, List.nil_append, List.mem_append] at hq ⊢ <;>
      tauto
  | merge merges => exact merges.equations_subset
  | mergeOuter merges | mergeInner merges =>
    intro q hq
    have hm : q ∈ _ → q ∈ _ := fun h => merges.equations_subset h
    simp only [Expr.equations, reduceCtorEq, if_false, List.nil_append, List.mem_append] at hq hm ⊢
    tauto
  | order =>
    intro q hq
    simp only [Expr.equations, reduceCtorEq, if_false, List.nil_append, List.mem_append] at hq ⊢
    tauto

/-- Each equation of `e'` whose sides have values has those of an equation of `e`. -/
def EquationsFrom (ν : Valuation) (e e' : Expr) : Prop :=
  ∀ q ∈ e'.equations, ∀ x y, q.1.value? ν = some x → q.2.value? ν = some y →
    ∃ p ∈ e.equations, p.1.value? ν = some x ∧ p.2.value? ν = some y

theorem EquationsFrom.of_subset {e e' : Expr} (h : e'.equations ⊆ e.equations) :
    EquationsFrom ν e e' := fun q hq _ _ hx hy => ⟨q, h hq, hx, hy⟩

theorem EquationsFrom.unmirrored {e e' : Expr} (h : EquationsFrom ν e e')
    (hmirror : Unmirrored ν e.equations) : Unmirrored ν e'.equations := by
  intro p' hp' q' hq' x y hpx hpy hqy hqx
  obtain ⟨p, hp, hx, hy⟩ := h p' hp' x y hpx hpy
  obtain ⟨q, hq, hy', hx'⟩ := h q' hq' y x hqy hqx
  exact hmirror p hp q hq x y hx hy hy' hx'

/-- The parts of an operator are rewritten. Its own equation, if it is one, keeps the values of its
sides. -/
theorem EquationsFrom.binary {op : Operator} {l l' r r' : Expr} {x y : Rat}
    (hl : EquationsFrom ν l l') (hr : EquationsFrom ν r r') (hx : l.value? ν = some x)
    (hy : r.value? ν = some y) (hx' : l'.value? ν = some x) (hy' : r'.value? ν = some y) :
    EquationsFrom ν (binary op l r) (binary op l' r') := by
  intro q hq v w hv hw
  rcases List.mem_append.mp hq with hself | hparts
  · split at hself
    · rename_i hop
      subst hop
      rw [List.mem_singleton] at hself
      subst hself
      refine ⟨(l, r), List.mem_cons_self, ?_, ?_⟩
      · rw [hx, ← hx', hv]
      · rw [hy, ← hy', hw]
    · cases hself
  · rcases List.mem_append.mp hparts with hleft | hright
    · obtain ⟨p, hp, hvalues⟩ := hl q hleft v w hv hw
      exact ⟨p, equations_subset_left op l r hp, hvalues⟩
    · obtain ⟨p, hp, hvalues⟩ := hr q hright v w hv hw
      exact ⟨p, equations_subset_right op l r hp, hvalues⟩

/-- The equations of a rewritten expression have values that equations of it had before. -/
theorem Rewrites.equationsFrom {e e' : Expr} (h : Rewrites e e')
    (he : e.AllLiterals Literal.IsInteger) (hmirror : Unmirrored ν e.equations) {v : Rat}
    (hv : e.value? ν = some v) : EquationsFrom ν e e' := by
  induction h generalizing v with
  | here h => exact .of_subset h.equations_subset
  | argument _ ih =>
    obtain ⟨x, hx, -⟩ := value?_call_eq_some.mp hv
    exact ih he hmirror hx
  | @left op l l' r h ih =>
    obtain ⟨x, y, hx, hy, -⟩ := value?_binary_eq_some.mp hv
    have hmirror' := hmirror.mono (equations_subset_left op l r)
    have hx' := h.refines_of_unmirrored he.1 hmirror' x hx
    exact (ih he.1 hmirror' hx).binary (.of_subset (List.Subset.refl _)) hx hy hx' hy
  | @right op l r r' h ih =>
    obtain ⟨x, y, hx, hy, -⟩ := value?_binary_eq_some.mp hv
    have hmirror' := hmirror.mono (equations_subset_right op l r)
    have hy' := h.refines_of_unmirrored he.2 hmirror' y hy
    exact EquationsFrom.binary (.of_subset (List.Subset.refl _)) (ih he.2 hmirror' hy) hx hy hx hy'

theorem Rewrites.refines {e e' : Expr} (h : Rewrites e e')
    (he : e.AllLiterals Literal.IsInteger) (hfree : e.EquationFree) : Refines ν e e' := by
  have hmirror : Unmirrored ν e.equations := by
    rw [equationFree_iff.mp hfree]
    exact unmirrored_nil
  exact h.refines_of_unmirrored he hmirror

/-! ## Equations -/

theorem Contracts.equationFree {e e' : Expr} (h : Contracts e e') (hfree : e.EquationFree) :
    e'.EquationFree := by
  have hsubset := h.equations_subset
  rw [equationFree_iff.mp hfree] at hsubset
  exact equationFree_iff.mpr (List.subset_nil.mp hsubset)

theorem Rewrites.equationFree {e e' : Expr} (h : Rewrites e e') (hfree : e.EquationFree) :
    e'.EquationFree := by
  induction h with
  | here h => exact h.equationFree hfree
  | argument _ ih => exact ih hfree
  | left _ ih => exact ⟨hfree.1, ih hfree.2.1, hfree.2.2⟩
  | right _ ih => exact ⟨hfree.1, hfree.2.1, ih hfree.2.2⟩

/-- The two sides of an equation, and any other expression itself. -/
def Expr.sides : Expr → List Expr
  | .binary .equals l r => [l, r]
  | e => [e]

theorem sides_eq_self {e : Expr} (h : e.EquationFree) : e.sides = [e] := by
  unfold sides
  split
  · exact absurd rfl h.1
  · rfl

/-- An equation becomes an equation, and each side keeps its value; any other expression becomes no
equation, and keeps its value. -/
def KeepsSides (ν : Valuation) (e e' : Expr) : Prop := List.Forall₂ (Refines ν) e.sides e'.sides

theorem KeepsSides.refl (e : Expr) : KeepsSides ν e e :=
  List.forall₂_same.mpr fun side _ => Refines.refl side

theorem forall₂_refines_trans {as bs cs : List Expr} (h₁ : List.Forall₂ (Refines ν) as bs)
    (h₂ : List.Forall₂ (Refines ν) bs cs) : List.Forall₂ (Refines ν) as cs := by
  induction h₁ generalizing cs with
  | nil => exact h₂
  | cons h _ ih =>
    cases h₂ with
    | cons h' ht => exact .cons (h.trans h') (ih ht)

theorem KeepsSides.trans {a b c : Expr} (h₁ : KeepsSides ν a b) (h₂ : KeepsSides ν b c) :
    KeepsSides ν a c :=
  forall₂_refines_trans h₁ h₂

/-- Nothing contracts an equation as a whole, so a rewrite of one is a rewrite of a side. -/
theorem not_contracts_equation {l r e : Expr} (h : Contracts (binary equals l r) e) : False := by
  cases h with
  | fold hop _ => exact hop rfl
  | addRatios additive => rcases additive with h | h <;> cases h

theorem Rewrites.keepsSides {e e' : Expr} (h : Rewrites e e')
    (he : e.AllLiterals Literal.IsInteger) (hfree : ∀ side ∈ e.sides, side.EquationFree) :
    KeepsSides ν e e' ∧ ∀ side ∈ e'.sides, side.EquationFree := by
  by_cases hequation : ∃ l r, e = binary equals l r
  · obtain ⟨l, r, rfl⟩ := hequation
    have hl : l.EquationFree := hfree l (by simp [sides])
    have hr : r.EquationFree := hfree r (by simp [sides])
    cases h with
    | here h => exact (not_contracts_equation h).elim
    | left h =>
      refine ⟨.cons (h.refines he.1 hl) (.cons (Refines.refl r) .nil), ?_⟩
      simpa [sides] using ⟨h.equationFree hl, hr⟩
    | right h =>
      refine ⟨.cons (Refines.refl l) (.cons (h.refines he.2 hr) .nil), ?_⟩
      simpa [sides] using ⟨hl, h.equationFree hr⟩
  · have hsides : e.sides = [e] := by
      unfold sides
      split
      · exact absurd ⟨_, _, rfl⟩ hequation
      · rfl
    have hself : e.EquationFree := hfree e (by simp [hsides])
    have hself' : e'.EquationFree := h.equationFree hself
    refine ⟨?_, by simpa [sides_eq_self hself'] using hself'⟩
    rw [KeepsSides, hsides, sides_eq_self hself']
    exact .cons (h.refines he hself) .nil

/-! ## Runs -/

/-- Simplification keeps exact values. Where an expression with integer literals, or a side of an
equation between two such expressions, has a value, one step and any number of steps succeed and
leave an expression, or an equation, with the same value. -/
theorem simplification_keeps_values (e : Expr) (he : e.AllLiterals Literal.IsInteger)
    (hfree : ∀ side ∈ e.sides, side.EquationFree) (ν : Valuation) :
    (∃ r, step standardRules e = .ok r ∧ KeepsSides ν e (r.getD e)) ∧
      ∀ n, ∃ e', simplify standardRules n e = .ok e' ∧ KeepsSides ν e e' := by
  constructor
  · obtain ⟨r, hr⟩ := step_isOk integer_foldClosed he
    refine ⟨r, hr, ?_⟩
    cases r with
    | none => exact KeepsSides.refl e
    | some e' => exact ((rewrites_of_step hr).keepsSides he hfree).1
  · intro n
    obtain ⟨e', hrun, -, hkeeps, -⟩ := simplify_induction integer_foldClosed
      (motive := fun e' => KeepsSides ν e e' ∧ ∀ side ∈ e'.sides, side.EquationFree)
      (fun hinteger hmotive hrewrites =>
        have hnext := hrewrites.keepsSides hinteger hmotive.2
        ⟨hmotive.1.trans hnext.1, hnext.2⟩)
      he ⟨KeepsSides.refl e, hfree⟩ n
    exact ⟨e', hrun, hkeeps⟩

/-- The equation `x / 2 + y / 2 = x ^ (-1) * x`. -/
def halvesEquation : Expr :=
  binary equals
    (binary plus (binary divide (var "x") (int 2)) (binary divide (var "y") (int 2)))
    (binary times (binary power (var "x") (int (-1))) (var "x"))

theorem simplification_keeps_values_of_halves :
    halvesEquation.AllLiterals Literal.IsInteger ∧
      (∀ side ∈ halvesEquation.sides, side.EquationFree) ∧
      (∃ r, step standardRules halvesEquation = .ok r ∧
        KeepsSides ⟨fun _ => 3, fun _ _ => none⟩ halvesEquation (r.getD halvesEquation)) ∧
      ∀ n, ∃ e', simplify standardRules n halvesEquation = .ok e' ∧
        KeepsSides ⟨fun _ => 3, fun _ _ => none⟩ halvesEquation e' := by
  have hinteger : halvesEquation.AllLiterals Literal.IsInteger := by
    simp [halvesEquation, AllLiterals, int, Literal.IsInteger]
  have hfree : ∀ side ∈ halvesEquation.sides, side.EquationFree := by
    simp [halvesEquation, sides, EquationFree, int]
  exact ⟨hinteger, hfree, simplification_keeps_values _ hinteger hfree _⟩

end Locus
