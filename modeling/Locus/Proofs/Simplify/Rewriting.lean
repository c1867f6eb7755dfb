import Locus.Proofs.Outcome
import Locus.Simplify.Step

/-! Simplification as a rewriting relation. `Contracts e e'` lists what the standard rules do to an
expression itself, and `Rewrites e e'` what they do somewhere in it. A step of the simplifier is one
rewrite (`rewrites_of_step`), so a property that every contraction keeps and that passes through
contexts holds along every run. Some rewrites compare two parts and drop one of them, which
`Identifies` tells. -/

namespace Locus
set_option autoImplicit false

open Locus.Expr Locus.Operator

/-! ## Contractions -/

/-- Two factors become one power: their bases agree and their exponents are added. -/
def Merges (first second merged : Expr) : Prop :=
  ¬(first.isNumber ∧ second.isNumber) ∧
    (splitPower first).1.sameUpToOrder (splitPower second).1 ∧
    ∃ x, addExponents (splitPower first).2 (splitPower second).2 = .ok (some x) ∧
      merged = binary power (splitPower first).1 x

/-- What a standard rule makes of an expression as a whole. -/
inductive Contracts : Expr → Expr → Prop
  | fold {op : Operator} {a b : Literal} {e : Expr} (divides : op ≠ equals)
      (folds : foldConstants (binary op (number a) (number b)) = .ok (some e)) :
      Contracts (binary op (number a) (number b)) e
  | oneTimes {l r : Expr} (one : l.isOne) : Contracts (binary times l r) r
  | timesOne {l r : Expr} (one : r.isOne) : Contracts (binary times l r) l
  | plusZero {l r : Expr} (zero : r.isZero) : Contracts (binary plus l r) l
  | zeroPlus {l r : Expr} (zero : l.isZero) : Contracts (binary plus l r) r
  | minusZero {l r : Expr} (zero : r.isZero) : Contracts (binary minus l r) l
  | divideOne {l r : Expr} (one : r.isOne) : Contracts (binary divide l r) l
  | powerOne {l r : Expr} (one : r.isOne) : Contracts (binary power l r) l
  | timesRatios {a b c d : Expr} :
      Contracts (binary times (binary divide a b) (binary divide c d))
        (binary divide (binary times a c) (binary times b d))
  | addRatios {op : Operator} {a b c d : Expr} (additive : op = plus ∨ op = minus) :
      Contracts (binary op (binary divide a b) (binary divide c d)) (joinRatios op a b c d)
  | merge {l r m : Expr} (merges : Merges l r m) : Contracts (binary times l r) m
  | mergeOuter {a b r m : Expr} (merges : Merges b r m) :
      Contracts (binary times (binary times a b) r) (binary times a m)
  | mergeInner {a b r m : Expr} (merges : Merges a r m) :
      Contracts (binary times (binary times a b) r) (binary times m b)
  | order {l r : Expr} (literal : r.isNumber) (other : ¬l.isNumber) :
      Contracts (binary times l r) (binary times r l)

/-- A contraction at one place of an expression. -/
inductive Rewrites : Expr → Expr → Prop
  | here {e e' : Expr} (h : Contracts e e') : Rewrites e e'
  | argument {f : String} {a a' : Expr} (h : Rewrites a a') : Rewrites (call f a) (call f a')
  | left {op : Operator} {l l' r : Expr} (h : Rewrites l l') :
      Rewrites (binary op l r) (binary op l' r)
  | right {op : Operator} {l r r' : Expr} (h : Rewrites r r') :
      Rewrites (binary op l r) (binary op l r')

/-- `Identifies e e' a b`: a rewrite of `e` to `e'` takes the parts `a` and `b` of `e` for the same,
and drops the second. They are the denominators of two ratios that are joined, or the bases of two
factors. -/
inductive Identifies : Expr → Expr → Expr → Expr → Prop
  | denominators {op : Operator} {a b c d : Expr} (additive : op = plus ∨ op = minus)
      (same : b.sameUpToOrder d) :
      Identifies (binary op (binary divide a b) (binary divide c d)) (joinRatios op a b c d) b d
  | factors {l r m : Expr} (merges : Merges l r m) :
      Identifies (binary times l r) m (splitPower l).1 (splitPower r).1
  | outer {a b r m : Expr} (merges : Merges b r m) :
      Identifies (binary times (binary times a b) r) (binary times a m)
        (splitPower b).1 (splitPower r).1
  | inner {a b r m : Expr} (merges : Merges a r m) :
      Identifies (binary times (binary times a b) r) (binary times m b)
        (splitPower a).1 (splitPower r).1
  | argument {f : String} {a a' b c : Expr} (h : Identifies a a' b c) :
      Identifies (call f a) (call f a') b c
  | left {op : Operator} {l l' r b c : Expr} (h : Identifies l l' b c) :
      Identifies (binary op l r) (binary op l' r) b c
  | right {op : Operator} {l r r' b c : Expr} (h : Identifies r r' b c) :
      Identifies (binary op l r) (binary op l r') b c

/-- The parts of an expression, itself among them. -/
inductive Expr.IsPart (part : Expr) : Expr → Prop
  | self : IsPart part part
  | argument {f : String} {a : Expr} : IsPart part a → IsPart part (.call f a)
  | left {op : Operator} {l r : Expr} : IsPart part l → IsPart part (.binary op l r)
  | right {op : Operator} {l r : Expr} : IsPart part r → IsPart part (.binary op l r)

/-! ## Factors -/

theorem splitPower_of_ne {e : Expr} (h : ∀ b m, e ≠ binary power b m) :
    splitPower e = (e, int 1) := by
  unfold splitPower
  split
  · exact absurd rfl (h _ _)
  · rfl

/-- A factor is the power that it is split into, or counts as its own first power. -/
theorem splitPower_cases (e : Expr) :
    e = binary power (splitPower e).1 (splitPower e).2 ∨
      (splitPower e = (e, int 1) ∧ ∀ b m, e ≠ binary power b m) := by
  by_cases h : ∃ b m, e = binary power b m
  · obtain ⟨b, m, rfl⟩ := h
    exact .inl rfl
  · simp only [not_exists] at h
    exact .inr ⟨splitPower_of_ne h, h⟩

theorem isPart_splitPower (e : Expr) : (splitPower e).1.IsPart e := by
  rcases splitPower_cases e with he | ⟨he, -⟩
  · have hbase : (splitPower e).1.IsPart (binary power (splitPower e).1 (splitPower e).2) :=
      .left .self
    rwa [← he] at hbase
  · rw [he]
    exact .self

/-! ## Parts taken for the same -/

section

variable {e e' a b : Expr}

theorem Identifies.sameUpToOrder (h : Identifies e e' a b) : a.sameUpToOrder b := by
  induction h with
  | denominators _ same => exact same
  | factors merges | outer merges | inner merges => exact merges.2.1
  | argument _ ih | left _ ih | right _ ih => exact ih

theorem Identifies.isPart (h : Identifies e e' a b) : a.IsPart e ∧ b.IsPart e := by
  induction h with
  | denominators => exact ⟨.left (.right .self), .right (.right .self)⟩
  | factors => exact ⟨.left (isPart_splitPower _), .right (isPart_splitPower _)⟩
  | outer => exact ⟨.left (.right (isPart_splitPower _)), .right (isPart_splitPower _)⟩
  | inner => exact ⟨.left (.left (isPart_splitPower _)), .right (isPart_splitPower _)⟩
  | argument _ ih => exact ⟨ih.1.argument, ih.2.argument⟩
  | left _ ih => exact ⟨ih.1.left, ih.2.left⟩
  | right _ ih => exact ⟨ih.1.right, ih.2.right⟩

end

/-! ## The rules contract -/

theorem exists_number {e : Expr} (h : e.isNumber) : ∃ v, e = number v := by
  cases e with
  | number v => exact ⟨v, rfl⟩
  | _ => cases h

theorem addExponents_numbers (a b : Literal) :
    addExponents (number a) (number b) = foldConstants (binary plus (number a) (number b)) := rfl

theorem addExponents_of_not_numbers {m n : Expr} (h : ¬(m.isNumber ∧ n.isNumber)) :
    addExponents m n = .ok (some (binary plus m n)) := by
  unfold addExponents
  split
  · exact absurd ⟨rfl, rfl⟩ h
  · rfl

/-- A sum of exponents is folded if both are literals, and is left to be computed if not. -/
theorem addExponents_cases {m n x : Expr} (h : addExponents m n = .ok (some x)) :
    (∃ a b, m = number a ∧ n = number b ∧
        foldConstants (binary plus (number a) (number b)) = .ok (some x)) ∨
      (¬(m.isNumber ∧ n.isNumber) ∧ x = binary plus m n) := by
  by_cases hnumbers : m.isNumber ∧ n.isNumber
  · obtain ⟨a, rfl⟩ := exists_number hnumbers.1
    obtain ⟨b, rfl⟩ := exists_number hnumbers.2
    exact .inl ⟨a, b, rfl, rfl, addExponents_numbers a b ▸ h⟩
  · rw [addExponents_of_not_numbers hnumbers] at h
    cases h
    exact .inr ⟨hnumbers, rfl⟩

theorem merges_of_mergePowers {first second merged : Expr}
    (h : mergePowers first second = .ok (some merged)) : Merges first second merged := by
  unfold mergePowers at h
  split at h
  · cases h
  · rename_i hnumbers
    dsimp only at h
    split at h
    · rename_i hsame
      obtain ⟨sum, hsum, h⟩ := bind_eq_ok.mp h
      cases sum with
      | none => cases h
      | some x =>
        cases h
        exact ⟨by simpa using hnumbers, hsame, x, hsum, rfl⟩
    · cases h

theorem contracts_of_foldConstants {e e' : Expr} (h : foldConstants e = .ok (some e')) :
    Contracts e e' := by
  have h' := h
  unfold foldConstants at h'
  split at h'
  · cases h'
  · rename_i op a b hop
    exact .fold hop h
  · cases h'

theorem contracts_of_eliminateIdentities {e e' : Expr}
    (h : eliminateIdentities e = .ok (some e')) : Contracts e e' := by
  cases e with
  | binary op l r =>
    simp only [eliminateIdentities, Except.ok.injEq] at h
    cases op with
    | equals => cases h
    | plus =>
      simp only [withoutNeutral?] at h
      split at h
      · cases h; exact .plusZero ‹_›
      · split at h
        · cases h; exact .zeroPlus ‹_›
        · cases h
    | times =>
      simp only [withoutNeutral?] at h
      split at h
      · cases h; exact .oneTimes ‹_›
      · split at h
        · cases h; exact .timesOne ‹_›
        · cases h
    | minus =>
      simp only [withoutNeutral?] at h
      split at h
      · cases h; exact .minusZero ‹_›
      · cases h
    | divide =>
      simp only [withoutNeutral?] at h
      split at h
      · cases h; exact .divideOne ‹_›
      · cases h
    | power =>
      simp only [withoutNeutral?] at h
      split at h
      · cases h; exact .powerOne ‹_›
      · cases h
  | _ => cases h

theorem contracts_of_distributeRatios {e e' : Expr}
    (h : distributeRatios e = .ok (some e')) : Contracts e e' := by
  unfold distributeRatios at h
  split at h
  · rename_i op a b c d
    cases op with
    | times => cases h; exact .timesRatios
    | plus => cases h; exact .addRatios (.inl rfl)
    | minus => cases h; exact .addRatios (.inr rfl)
    | _ => cases h
  · cases h

theorem contracts_of_mergeInto {a b r e' : Expr} (h : mergeInto a b r = .ok (some e')) :
    Contracts (binary times (binary times a b) r) e' := by
  unfold mergeInto at h
  obtain ⟨outer, houter, h⟩ := bind_eq_ok.mp h
  cases outer with
  | some m =>
    cases h
    exact .mergeOuter (merges_of_mergePowers houter)
  | none =>
    obtain ⟨inner, hinner, h⟩ := bind_eq_ok.mp h
    cases inner with
    | none => cases h
    | some m =>
      cases h
      exact .mergeInner (merges_of_mergePowers hinner)

theorem contracts_of_consolidatePowers {e e' : Expr}
    (h : consolidatePowers e = .ok (some e')) : Contracts e e' := by
  unfold consolidatePowers at h
  split at h
  · obtain ⟨merged, hmerged, h⟩ := bind_eq_ok.mp h
    cases merged with
    | some m =>
      cases h
      exact .merge (merges_of_mergePowers hmerged)
    | none =>
      dsimp only at h
      split at h
      · exact contracts_of_mergeInto h
      · cases h
  · cases h

theorem contracts_of_orderCoefficients {e e' : Expr}
    (h : orderCoefficients e = .ok (some e')) : Contracts e e' := by
  unfold orderCoefficients at h
  split at h
  · simp only [Except.ok.injEq] at h
    split at h
    · rename_i horder
      simp only [Bool.and_eq_true, Bool.not_eq_true'] at horder
      cases h
      exact .order horder.1 (by simp [horder.2])
    · cases h
  · cases h

theorem contracts_of_rule {rule : Rule} (hrule : rule ∈ standardRules) {e e' : Expr}
    (h : rule e = .ok (some e')) : Contracts e e' := by
  simp only [standardRules, catalogue, List.map_cons, List.map_nil, List.mem_cons,
    List.not_mem_nil, or_false] at hrule
  rcases hrule with rfl | rfl | rfl | rfl | rfl
  · exact contracts_of_foldConstants h
  · exact contracts_of_eliminateIdentities h
  · exact contracts_of_distributeRatios h
  · exact contracts_of_consolidatePowers h
  · exact contracts_of_orderCoefficients h

/-! ## A step rewrites -/

theorem rule_of_applyFirst {rules : List Rule} {e e' : Expr}
    (h : applyFirst rules e = .ok (some e')) : ∃ rule ∈ rules, rule e = .ok (some e') := by
  induction rules with
  | nil => cases h
  | cons rule rest ih =>
    rw [applyFirst] at h
    split at h
    · obtain ⟨rule', hmem, hrule'⟩ := ih h
      exact ⟨rule', List.mem_cons_of_mem _ hmem, hrule'⟩
    · exact ⟨rule, List.mem_cons_self, h⟩

theorem contracts_of_applyFirst {e e' : Expr} (h : applyFirst standardRules e = .ok (some e')) :
    Contracts e e' := by
  obtain ⟨rule, hmem, hrule⟩ := rule_of_applyFirst h
  exact contracts_of_rule hmem hrule

/-- A step is one rewrite: at the root where a rule applies there, and in a part where none does. -/
theorem rewrites_of_step {e e' : Expr} (h : step standardRules e = .ok (some e')) :
    Rewrites e e' := by
  induction e generalizing e' with
  | call f a ih =>
    obtain ⟨here, hhere, h⟩ := bind_eq_ok.mp h
    cases here with
    | some root =>
      cases h
      exact .here (contracts_of_applyFirst hhere)
    | none =>
      obtain ⟨inside, hinside, h⟩ := bind_eq_ok.mp h
      cases inside with
      | none => cases h
      | some a' =>
        cases h
        exact .argument (ih hinside)
  | binary op l r ihl ihr =>
    obtain ⟨here, hhere, h⟩ := bind_eq_ok.mp h
    cases here with
    | some root =>
      cases h
      exact .here (contracts_of_applyFirst hhere)
    | none =>
      obtain ⟨left, hleft, h⟩ := bind_eq_ok.mp h
      cases left with
      | some l' =>
        cases h
        exact .left (ihl hleft)
      | none =>
        obtain ⟨right, hright, h⟩ := bind_eq_ok.mp h
        cases right with
        | none => cases h
        | some r' =>
          cases h
          exact .right (ihr hright)
  | _ => exact .here (contracts_of_applyFirst h)

/-! ## Runs -/

theorem simplify_of_settled {e : Expr} (h : step standardRules e = .ok none) (n : Nat) :
    simplify standardRules n e = .ok e := by
  cases n with
  | zero => rfl
  | succ n => rw [simplify, h]; rfl

theorem simplify_succ {e e' : Expr} (k : Nat) (hstep : step standardRules e = .ok (some e')) :
    simplify standardRules (k + 1) e = simplify standardRules k e' := by
  rw [simplify, hstep, ok_bind]

/-- `P` holds of each expression to which simplification comes within `n` steps, and from which it
may take another one of them. -/
def AlongSteps (P : Expr → Prop) (n : Nat) (e : Expr) : Prop :=
  ∀ k < n, ∀ e', simplify standardRules k e = .ok e' → P e'

section

variable {P : Expr → Prop} {n : Nat} {e e' : Expr}

theorem AlongSteps.head (h : AlongSteps P (n + 1) e) : P e := h 0 (Nat.succ_pos n) e rfl

theorem AlongSteps.tail (h : AlongSteps P (n + 1) e) (hstep : step standardRules e = .ok (some e')) :
    AlongSteps P n e' := fun k hk e'' hrun =>
  h (k + 1) (Nat.succ_lt_succ hk) e'' ((simplify_succ k hstep).trans hrun)

theorem AlongSteps.cons (hhead : P e) (hstep : step standardRules e = .ok (some e'))
    (h : AlongSteps P n e') : AlongSteps P (n + 1) e := by
  intro k hk e'' hrun
  cases k with
  | zero => exact Except.ok.inj hrun ▸ hhead
  | succ k => exact h k (Nat.lt_of_succ_lt_succ hk) e'' ((simplify_succ k hstep).symm.trans hrun)

theorem alongSteps_of_settled (hstep : step standardRules e = .ok none) (he : P e) (n : Nat) :
    AlongSteps P n e := by
  intro k _ e' hrun
  rw [simplify_of_settled hstep, Except.ok.injEq] at hrun
  exact hrun ▸ he

end

end Locus
