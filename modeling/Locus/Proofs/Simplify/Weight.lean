import Mathlib
import Locus.Proofs.Simplify.Literals

/-! Weights of expressions. What stands under `n` exponents is weighed apart, as the weight at level
`n`; a sum weighs the square of its parts, so that it outweighs the products to which adding ratios
leads. A contraction makes the weight smaller at its level and leaves the lower levels alone, or
keeps all weights and tidies a ratio or a product (`Rewrites.lightens`). -/

namespace Locus
set_option autoImplicit false

open Locus.Expr Locus.Operator

/-! ## Levels -/

def Operator.weigh (op : Operator) (x y : Nat) : Nat :=
  match op with
  | plus | minus => (x + y) ^ 2
  | times | equals => x + y
  | divide => x + y + 1
  | power => x + 5

/-- The weight of what stands under exactly `n` exponents. -/
def Expr.weight : Expr → Nat → Nat
  | .number _, 0 => 3
  | .empty, 0 | .var _, 0 => 6
  | .number _, _ + 1 | .empty, _ + 1 | .var _, _ + 1 => 0
  | .call _ a, 0 => a.weight 0 + 6
  | .call _ a, n + 1 => a.weight (n + 1)
  | .binary op l r, 0 => op.weigh (l.weight 0) (r.weight 0)
  | .binary op l r, n + 1 => l.weight (n + 1) + r.weight (if op = power then n else n + 1)

/-- The number of levels above the first. An expression other than a number counts as an exponent's
base, which it may become. -/
def Expr.levels : Expr → Nat
  | .number _ => 0
  | .empty | .var _ => 1
  | .call _ a => max 1 a.levels
  | .binary op l r => max 1 (max l.levels (if op = power then r.levels + 1 else r.levels))

section

attribute [local simp] weight levels

theorem weight_binary_zero (op : Operator) (l r : Expr) :
    (binary op l r).weight 0 = op.weigh (l.weight 0) (r.weight 0) := rfl

theorem weight_binary_succ {op : Operator} (hop : op ≠ power) (l r : Expr) (n : Nat) :
    (binary op l r).weight (n + 1) = l.weight (n + 1) + r.weight (n + 1) := by
  rw [weight, if_neg hop]

theorem weight_power_succ (l r : Expr) (n : Nat) :
    (binary power l r).weight (n + 1) = l.weight (n + 1) + r.weight n := by
  rw [weight, if_pos rfl]

theorem weight_pos (e : Expr) : 3 ≤ e.weight 0 := by
  induction e with
  | empty => simp
  | number a => simp
  | var x => simp
  | call f a ih => rw [weight]; omega
  | binary op l r ihl ihr =>
    rw [weight_binary_zero]
    cases op with
    | plus | minus => simp only [weigh]; nlinarith
    | _ => simp only [weigh]; omega

/-- An expression other than a number outweighs the exponent that its square would have. -/
theorem weight_of_not_number {e : Expr} (h : ¬e.isNumber) : 6 ≤ e.weight 0 := by
  cases e with
  | number a => exact absurd rfl h
  | empty => simp
  | var x => simp
  | call f a => rw [weight]; omega
  | binary op l r =>
    have hl := weight_pos l
    have hr := weight_pos r
    rw [weight_binary_zero]
    cases op with
    | plus | minus => simp only [weigh]; nlinarith
    | _ => simp only [weigh]; omega

theorem levels_of_not_number {e : Expr} (h : ¬e.isNumber) : 1 ≤ e.levels := by
  cases e with
  | number a => exact absurd rfl h
  | empty => simp
  | var x => simp
  | call f a => exact Nat.le_max_left _ _
  | binary op l r => exact Nat.le_max_left _ _

end

/-- Nothing has weight beyond the levels that an expression has. -/
theorem le_levels_of_weight_pos {e : Expr} {n : Nat} (h : 0 < e.weight n) : n ≤ e.levels := by
  induction e generalizing n with
  | call f a ih =>
    cases n with
    | zero => exact Nat.zero_le _
    | succ n => exact (ih h).trans (Nat.le_max_right _ _)
  | binary op l r ihl ihr =>
    cases n with
    | zero => exact Nat.zero_le _
    | succ n =>
      rw [levels]
      by_cases hop : op = power
      · rw [hop, weight_power_succ] at h
        rw [if_pos hop]
        rcases Nat.add_pos_iff_pos_or_pos.mp h with hl | hr
        · have := ihl hl
          omega
        · have := ihr hr
          omega
      · rw [weight_binary_succ hop] at h
        rw [if_neg hop]
        rcases Nat.add_pos_iff_pos_or_pos.mp h with hl | hr
        · have := ihl hl
          omega
        · have := ihr hr
          omega
  | _ =>
    cases n with
    | zero => exact Nat.zero_le _
    | succ n => cases h

/-! ## Tidiness -/

/-- Whether an operator joins two numbers to a ratio that can be reduced, or has a number on the
right that belongs on the left. -/
def Operator.isUntidy (op : Operator) (l r : Expr) : Bool :=
  match op with
  | divide =>
    match foldConstants (binary divide l r) with
    | .ok (some _) => true
    | _ => false
  | times => r.isNumber && !l.isNumber
  | _ => false

/-- The number of places that are not tidy. -/
def Expr.untidiness : Expr → Nat
  | .call _ a => a.untidiness
  | .binary op l r => l.untidiness + r.untidiness + (op.isUntidy l r).toNat
  | _ => 0

/-- A part that is no number may change without a change in the tidiness above it. -/
theorem isUntidy_congr_left {op : Operator} {l l' r : Expr} (hl : ¬l.isNumber) (hl' : ¬l'.isNumber) :
    op.isUntidy l' r = op.isUntidy l r := by
  cases op with
  | divide =>
    simp only [isUntidy, foldConstants_of_not_numbers fun h => hl h.1,
      foldConstants_of_not_numbers fun h => hl' h.1]
  | times => simp [isUntidy, hl, hl']
  | _ => rfl

theorem isUntidy_congr_right {op : Operator} {l r r' : Expr} (hr : ¬r.isNumber)
    (hr' : ¬r'.isNumber) : op.isUntidy l r' = op.isUntidy l r := by
  cases op with
  | divide =>
    simp only [isUntidy, foldConstants_of_not_numbers fun h => hr h.2,
      foldConstants_of_not_numbers fun h => hr' h.2]
  | times => simp [isUntidy, hr, hr']
  | _ => rfl

/-! ## Lighter expressions -/

/-- The weight falls at a level and stays below it, or all weights stay and a place is tidied. -/
inductive Lightens (e e' : Expr) : Prop
  | fall (n : Nat) (below : ∀ i < n, e'.weight i = e.weight i) (falls : e'.weight n < e.weight n)
  | tidy (same : ∀ i, e'.weight i = e.weight i) (composite : ¬e.isNumber) (composite' : ¬e'.isNumber)
      (tidier : e'.untidiness < e.untidiness)

theorem Lightens.of_weight {e e' : Expr} (h : e'.weight 0 < e.weight 0) : Lightens e e' :=
  .fall 0 (fun _ hi => absurd hi (Nat.not_lt_zero _)) h

theorem weigh_lt_left {op : Operator} {x x' : Nat} (h : x' < x) (y : Nat) :
    op.weigh x' y < op.weigh x y := by
  cases op with
  | plus | minus => exact Nat.pow_lt_pow_left (by omega) (by decide)
  | _ => simp only [weigh]; omega

theorem weigh_lt_right {op : Operator} (hop : op ≠ power) {y y' : Nat} (h : y' < y) (x : Nat) :
    op.weigh x y' < op.weigh x y := by
  cases op with
  | plus | minus => exact Nat.pow_lt_pow_left (by omega) (by decide)
  | power => exact absurd rfl hop
  | _ => simp only [weigh]; omega

/-- The weight of an operator at a level depends on its left part only through that level. -/
theorem weight_binary_left {op : Operator} {l l' r : Expr} {n : Nat}
    (h : l'.weight n = l.weight n) : (binary op l' r).weight n = (binary op l r).weight n := by
  cases n with
  | zero => rw [weight_binary_zero, weight_binary_zero, h]
  | succ n => rw [weight, weight, h]

theorem weight_binary_right {op : Operator} (hop : op ≠ power) {l r r' : Expr} {n : Nat}
    (h : r'.weight n = r.weight n) : (binary op l r').weight n = (binary op l r).weight n := by
  cases n with
  | zero => rw [weight_binary_zero, weight_binary_zero, h]
  | succ n => rw [weight_binary_succ hop, weight_binary_succ hop, h]

theorem Lightens.argument {f : String} {a a' : Expr} (h : Lightens a a') :
    Lightens (call f a) (call f a') := by
  have hweight : ∀ {n}, a'.weight n = a.weight n → (call f a').weight n = (call f a).weight n := by
    intro n hn
    cases n with
    | zero => rw [weight, weight, hn]
    | succ n => rw [weight, weight, hn]
  cases h with
  | fall n below falls =>
    refine .fall n (fun i hi => hweight (below i hi)) ?_
    cases n with
    | zero => rw [weight, weight]; omega
    | succ n => rw [weight, weight]; exact falls
  | tidy same composite composite' tidier =>
    exact .tidy (fun i => hweight (same i)) (by simp [isNumber]) (by simp [isNumber]) tidier

theorem Lightens.left {op : Operator} {l l' r : Expr} (h : Lightens l l') :
    Lightens (binary op l r) (binary op l' r) := by
  cases h with
  | fall n below falls =>
    refine .fall n (fun i hi => weight_binary_left (below i hi)) ?_
    cases n with
    | zero => exact weigh_lt_left falls _
    | succ n => rw [weight, weight]; omega
  | tidy same composite composite' tidier =>
    refine .tidy (fun i => weight_binary_left (same i)) (by simp [isNumber]) (by simp [isNumber]) ?_
    rw [untidiness, untidiness, isUntidy_congr_left composite composite']
    omega

theorem Lightens.exponent {b m m' : Expr} (h : Lightens m m') :
    Lightens (binary power b m) (binary power b m') := by
  have hweight : ∀ {n}, (∀ i < n, m'.weight i = m.weight i) → ∀ i < n + 1,
      (binary power b m').weight i = (binary power b m).weight i := by
    intro n hn i hi
    cases i with
    | zero => rfl
    | succ i => rw [weight_power_succ, weight_power_succ, hn i (by omega)]
  cases h with
  | fall n below falls =>
    refine .fall (n + 1) (hweight below) ?_
    rw [weight_power_succ, weight_power_succ]
    omega
  | tidy same composite composite' tidier =>
    refine .tidy (fun i => hweight (fun j _ => same j) i (Nat.lt_succ_self i)) (by simp [isNumber])
      (by simp [isNumber]) ?_
    rw [untidiness, untidiness, isUntidy_congr_right composite composite']
    omega

theorem Lightens.right {op : Operator} {l r r' : Expr} (h : Lightens r r') :
    Lightens (binary op l r) (binary op l r') := by
  by_cases hop : op = power
  · subst hop
    exact h.exponent
  · cases h with
    | fall n below falls =>
      refine .fall n (fun i hi => weight_binary_right hop (below i hi)) ?_
      cases n with
      | zero => exact weigh_lt_right hop falls _
      | succ n => rw [weight_binary_succ hop, weight_binary_succ hop]; omega
    | tidy same composite composite' tidier =>
      refine .tidy (fun i => weight_binary_right hop (same i)) (by simp [isNumber])
        (by simp [isNumber]) ?_
      rw [untidiness, untidiness, isUntidy_congr_right composite composite']
      omega

/-! ## Contractions lighten -/

theorem lt_weigh_left {x y : Nat} (op : Operator) (hx : 3 ≤ x) (hy : 3 ≤ y) :
    x < op.weigh x y := by
  cases op with
  | plus | minus => simp only [weigh]; nlinarith
  | _ => simp only [weigh]; omega

theorem lt_weigh_right {x y : Nat} {op : Operator} (hop : op ≠ power) (hx : 3 ≤ x) (hy : 3 ≤ y) :
    y < op.weigh x y := by
  cases op with
  | plus | minus => simp only [weigh]; nlinarith
  | power => exact absurd rfl hop
  | _ => simp only [weigh]; omega

theorem lightens_of_left (op : Operator) (l r : Expr) : Lightens (binary op l r) l :=
  .of_weight (lt_weigh_left op (weight_pos l) (weight_pos r))

theorem lightens_of_right {op : Operator} (hop : op ≠ power) (l r : Expr) :
    Lightens (binary op l r) r :=
  .of_weight (lt_weigh_right hop (weight_pos l) (weight_pos r))

theorem lightens_of_fold {op : Operator} {a b : Literal} {e : Expr} (hop : op ≠ equals)
    (h : foldConstants (binary op (number a) (number b)) = .ok (some e)) :
    Lightens (binary op (number a) (number b)) e := by
  rcases number_or_intRatio_of_fold h with ⟨v, rfl⟩ | ⟨hdivide | hpower, m, n, rfl⟩
  · exact .of_weight (lt_weigh_left op (weight_pos _) (weight_pos _))
  · subst hdivide
    -- a ratio of two numbers becomes another one, which cannot be reduced
    have hdone : foldConstants (intRatio m n) = .ok none := by
      obtain ⟨v, w, hv, hw⟩ := typedValues_of_foldConstants hop h
      rw [foldConstants_numbers hop hv hw, Except.ok.injEq] at h
      exact foldConstants_of_foldRatio h
    refine .tidy (fun i => ?_) (by simp [isNumber]) (by simp [intRatio, isNumber]) ?_
    · cases i with
      | zero => rfl
      | succ i => rfl
    · have htidy : divide.isUntidy (int m) (int n) = false := by
        rw [intRatio] at hdone
        rw [isUntidy, hdone]
      have huntidy : divide.isUntidy (number a) (number b) = true := by rw [isUntidy, h]
      rw [intRatio, untidiness, untidiness, htidy, huntidy]
      exact Nat.lt_succ_self 0
  · subst hpower
    exact .of_weight (Nat.lt_succ_self 7)

theorem lightens_of_order {l r : Expr} (literal : r.isNumber) (other : ¬l.isNumber) :
    Lightens (binary times l r) (binary times r l) := by
  refine .tidy (fun i => ?_) (by simp [isNumber]) (by simp [isNumber]) ?_
  · cases i with
    | zero => exact Nat.add_comm _ _
    | succ i =>
      rw [weight_binary_succ (by decide), weight_binary_succ (by decide)]
      exact Nat.add_comm _ _
  · have htidy : times.isUntidy r l = false := by simp [isUntidy, other]
    have huntidy : times.isUntidy l r = true := by simp [isUntidy, literal, other]
    rw [untidiness, untidiness, htidy, huntidy, Nat.add_comm r.untidiness]
    exact Nat.lt_succ_self _

theorem weight_timesRatios_lt (a b c d : Expr) :
    (binary divide (binary times a c) (binary times b d)).weight 0 <
      (binary times (binary divide a b) (binary divide c d)).weight 0 := by
  simp only [weight_binary_zero, weigh]
  omega

/-- The square of a sum outweighs the denominators that adding ratios doubles. -/
theorem weight_joinRatios_lt {op : Operator} (hop : op = plus ∨ op = minus) (a b c d : Expr) :
    (joinRatios op a b c d).weight 0 <
      (binary op (binary divide a b) (binary divide c d)).weight 0 := by
  have hweigh : ∀ x y, op.weigh x y = (x + y) ^ 2 := by
    rcases hop with rfl | rfl
    · exact fun _ _ => rfl
    · exact fun _ _ => rfl
  unfold joinRatios
  split
  · simp only [weight_binary_zero, hweigh]
    simp only [weigh]
    nlinarith [weight_pos a, weight_pos b, weight_pos c, weight_pos d]
  · simp only [weight_binary_zero, hweigh]
    simp only [weigh]
    nlinarith [weight_pos a, weight_pos b, weight_pos c, weight_pos d]

theorem isNumber_of_sameUpToOrder {e e' : Expr} (h : e.sameUpToOrder e') :
    e.isNumber = e'.isNumber := by
  unfold sameUpToOrder at h
  split at h
  · rfl
  · rfl
  · rfl
  · rfl
  · rfl
  · cases h

theorem Merges.weight_lt {first second merged : Expr} (h : Merges first second merged) :
    merged.weight 0 < first.weight 0 + second.weight 0 := by
  obtain ⟨hnumbers, hsame, x, -, rfl⟩ := h
  have hweight : (binary power (splitPower first).1 x).weight 0 =
      (splitPower first).1.weight 0 + 5 := rfl
  rw [hweight]
  rcases splitPower_cases first with hfirst | ⟨hfirst, -⟩
  · have : first.weight 0 = (splitPower first).1.weight 0 + 5 := congrArg (·.weight 0) hfirst
    have := weight_pos second
    omega
  · rcases splitPower_cases second with hsecond | ⟨hsecond, -⟩
    · have : second.weight 0 = (splitPower second).1.weight 0 + 5 := congrArg (·.weight 0) hsecond
      have := weight_pos (splitPower second).1
      rw [hfirst]
      dsimp only
      omega
    · -- two bare factors: the second is no number, so it outweighs the exponent
      rw [hfirst, hsecond] at hsame
      have hsecond' : ¬second.isNumber := fun hnumber =>
        hnumbers ⟨(isNumber_of_sameUpToOrder hsame).trans hnumber, hnumber⟩
      have := weight_of_not_number hsecond'
      rw [hfirst]
      dsimp only
      omega

theorem Contracts.lightens {e e' : Expr} (h : Contracts e e') : Lightens e e' := by
  cases h with
  | fold hop folds => exact lightens_of_fold hop folds
  | oneTimes | zeroPlus => exact lightens_of_right (by decide) _ _
  | timesOne | plusZero | minusZero | divideOne | powerOne => exact lightens_of_left _ _ _
  | timesRatios => exact .of_weight (weight_timesRatios_lt _ _ _ _)
  | addRatios additive => exact .of_weight (weight_joinRatios_lt additive _ _ _ _)
  | merge merges => exact .of_weight merges.weight_lt
  | @mergeOuter a b r m merges =>
    have := merges.weight_lt
    refine .of_weight ?_
    simp only [weight_binary_zero, weigh]
    omega
  | @mergeInner a b r m merges =>
    have := merges.weight_lt
    refine .of_weight ?_
    simp only [weight_binary_zero, weigh]
    omega
  | order literal other => exact lightens_of_order literal other

theorem Rewrites.lightens {e e' : Expr} (h : Rewrites e e') : Lightens e e' := by
  induction h with
  | here h => exact h.lightens
  | argument _ ih => exact ih.argument
  | left _ ih => exact ih.left
  | right _ ih => exact ih.right

/-! ## Contractions add no level -/

theorem levels_left_le (op : Operator) (l r : Expr) : l.levels ≤ (binary op l r).levels :=
  (Nat.le_max_left _ _).trans (Nat.le_max_right _ _)

theorem levels_right_le (op : Operator) (l r : Expr) : r.levels ≤ (binary op l r).levels := by
  rw [levels]
  split <;> omega

theorem levels_of_fold {op : Operator} {a b : Literal} {e : Expr}
    (h : foldConstants (binary op (number a) (number b)) = .ok (some e)) : e.levels ≤ 1 := by
  rcases number_or_intRatio_of_fold h with ⟨v, rfl⟩ | ⟨-, m, n, rfl⟩
  · exact Nat.zero_le 1
  · exact Nat.le_refl 1

theorem isNumber_of_levels {e : Expr} (h : e.levels = 0) : e.isNumber := by
  by_contra hnumber
  have := levels_of_not_number hnumber
  omega

theorem splitPower_levels (e : Expr) : (splitPower e).1.levels ≤ e.levels ∧
    ((splitPower e).2.levels = 0 ∨ (splitPower e).2.levels + 1 ≤ e.levels) := by
  rcases splitPower_cases e with he | ⟨he, -⟩
  · have hlevels : e.levels =
        max 1 (max (splitPower e).1.levels ((splitPower e).2.levels + 1)) :=
      congrArg levels he
    omega
  · rw [he]
    exact ⟨Nat.le_refl _, .inl rfl⟩

theorem Merges.levels_le {first second merged : Expr} (h : Merges first second merged) :
    merged.levels ≤ max 1 (max first.levels second.levels) := by
  obtain ⟨-, -, x, hx, rfl⟩ := h
  have hfirst := splitPower_levels first
  have hsecond := splitPower_levels second
  have hlevels : (binary power (splitPower first).1 x).levels =
      max 1 (max (splitPower first).1.levels (x.levels + 1)) := rfl
  rw [hlevels]
  obtain ⟨a, b, -, -, hfold⟩ | ⟨hnumbers, rfl⟩ := addExponents_cases hx
  · rcases number_or_intRatio_of_fold hfold with ⟨v, rfl⟩ | ⟨hop | hop, -⟩
    · have : (number v).levels = 0 := rfl
      omega
    · cases hop
    · cases hop
  · have hsum : (binary plus (splitPower first).2 (splitPower second).2).levels =
        max 1 (max (splitPower first).2.levels (splitPower second).2.levels) := rfl
    -- one of the exponents is no number, so the factor it comes from is a power
    have hone : (splitPower first).2.levels ≠ 0 ∨ (splitPower second).2.levels ≠ 0 := by
      by_contra hzero
      simp only [not_or, ne_eq, not_not] at hzero
      exact hnumbers ⟨isNumber_of_levels hzero.1, isNumber_of_levels hzero.2⟩
    omega

theorem levels_binary_le {op : Operator} (hop : op ≠ power) {l r : Expr} {n : Nat} :
    (binary op l r).levels ≤ n ↔ 1 ≤ n ∧ l.levels ≤ n ∧ r.levels ≤ n := by
  rw [levels, if_neg hop, max_le_iff, max_le_iff]

theorem levels_joinRatios_le {op : Operator} (hop : op ≠ power) {a b c d : Expr} {n : Nat}
    (hn : (binary op (binary divide a b) (binary divide c d)).levels ≤ n) :
    (joinRatios op a b c d).levels ≤ n := by
  have htimes : times ≠ power := by decide
  have hdivide : divide ≠ power := by decide
  simp only [levels_binary_le hop, levels_binary_le hdivide] at hn
  obtain ⟨hone, ⟨-, ha, hb⟩, -, hc, hd⟩ := hn
  unfold joinRatios
  split
  · exact (levels_binary_le hdivide).mpr ⟨hone, (levels_binary_le hop).mpr ⟨hone, ha, hc⟩, hb⟩
  · have hproduct : ∀ {x y : Expr}, x.levels ≤ n → y.levels ≤ n → (binary times x y).levels ≤ n :=
      fun hx hy => (levels_binary_le htimes).mpr ⟨hone, hx, hy⟩
    exact (levels_binary_le hdivide).mpr ⟨hone,
      (levels_binary_le hop).mpr ⟨hone, hproduct ha hd, hproduct hc hb⟩, hproduct hb hd⟩

theorem Contracts.levels_le {e e' : Expr} (h : Contracts e e') : e'.levels ≤ e.levels := by
  have htimes : times ≠ power := by decide
  have hdivide : divide ≠ power := by decide
  suffices hbound : ∀ n, e.levels ≤ n → e'.levels ≤ n from hbound _ (Nat.le_refl _)
  intro n hn
  cases h with
  | fold _ folds => exact (levels_of_fold folds).trans ((Nat.le_max_left _ _).trans hn)
  | oneTimes | zeroPlus => exact (levels_right_le _ _ _).trans hn
  | timesOne | plusZero | minusZero | divideOne | powerOne => exact (levels_left_le _ _ _).trans hn
  | timesRatios =>
    simp only [levels_binary_le htimes, levels_binary_le hdivide] at hn ⊢
    obtain ⟨hone, ⟨-, ha, hb⟩, -, hc, hd⟩ := hn
    exact ⟨hone, ⟨hone, ha, hc⟩, hone, hb, hd⟩
  | addRatios additive =>
    exact levels_joinRatios_le (by rcases additive with rfl | rfl <;> decide) hn
  | merge merges =>
    obtain ⟨hone, hl, hr⟩ := (levels_binary_le htimes).mp hn
    exact merges.levels_le.trans (max_le hone (max_le hl hr))
  | mergeOuter merges =>
    simp only [levels_binary_le htimes] at hn ⊢
    obtain ⟨hone, ⟨-, ha, hb⟩, hr⟩ := hn
    exact ⟨hone, ha, merges.levels_le.trans (max_le hone (max_le hb hr))⟩
  | mergeInner merges =>
    simp only [levels_binary_le htimes] at hn ⊢
    obtain ⟨hone, ⟨-, ha, hb⟩, hr⟩ := hn
    exact ⟨hone, merges.levels_le.trans (max_le hone (max_le ha hr)), hb⟩
  | order =>
    obtain ⟨hone, hl, hr⟩ := (levels_binary_le htimes).mp hn
    exact (levels_binary_le htimes).mpr ⟨hone, hr, hl⟩

theorem Rewrites.levels_le {e e' : Expr} (h : Rewrites e e') : e'.levels ≤ e.levels := by
  induction h with
  | here h => exact h.levels_le
  | argument _ ih => simp only [levels]; omega
  | left _ ih => simp only [levels]; omega
  | right _ ih =>
    simp only [levels]
    split <;> omega

end Locus
