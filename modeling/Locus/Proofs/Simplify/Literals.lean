import Mathlib.Data.Rat.Lemmas
import Locus.Proofs.Numeric.Digits
import Locus.Proofs.Simplify.Heads

/-! The literals of an expression along simplification. A class of literals that folding does not
leave (`FoldClosed`) is kept by every rewrite, and no step fails on its expressions. Integers are
such a class, and so are finite literals. -/

namespace Locus
set_option autoImplicit false

open Locus.Expr Locus.Operator

/-! ## Literals of an expression -/

def Expr.mapLiterals (f : Literal → Literal) : Expr → Expr
  | .empty => .empty
  | .number v => .number (f v)
  | .var x => .var x
  | .call g a => .call g (a.mapLiterals f)
  | .binary op l r => .binary op (l.mapLiterals f) (r.mapLiterals f)

/-- A class of literals in which computing succeeds and stays. -/
structure FoldClosed (p : Literal → Prop) : Prop where
  one : p (.int 1)
  typed : ∀ {a : Literal}, p a → ∃ v, a.typedValue = .ok v
  fold : ∀ {op : Operator} {a b : Literal} {e : Expr}, p a → p b →
    foldConstants (binary op (number a) (number b)) = .ok (some e) → e.AllLiterals p

/-- A class of literals in which sums stay, as far as they are computed. Merged powers ask for no
more. -/
structure SumClosed (p : Literal → Prop) : Prop where
  one : p (.int 1)
  sum : ∀ {a b : Literal} {e : Expr}, p a → p b →
    foldConstants (binary plus (number a) (number b)) = .ok (some e) → e.AllLiterals p

theorem FoldClosed.sumClosed {p : Literal → Prop} (hp : FoldClosed p) : SumClosed p :=
  ⟨hp.one, hp.fold⟩

/-! ## Folded results -/

variable {p : Literal → Prop}

theorem allLiterals_resultOf (hint : ∀ n, p (.int n)) {v : Rat} {exact : Bool} {e : Expr}
    (hdouble : v.den = 1 ∨ exact ∨ ∀ x, Double.ofRat? v = some x → p (.double x))
    (h : resultOf v exact = some e) : e.AllLiterals p := by
  unfold resultOf at h
  obtain ⟨x, hx, rfl⟩ := Option.map_eq_some_iff.mp h
  split
  · exact hint _
  · rename_i hden
    split
    · exact ⟨hint _, hint _⟩
    · rename_i hexact
      rcases hdouble with hd | he | hx'
      · exact absurd hd hden
      · exact absurd he hexact
      · exact hx' x hx

theorem allLiterals_foldRatio (hint : ∀ n, p (.int n)) {v w : Rat} {e : Expr}
    (h : foldRatio v w = some e) : e.AllLiterals p := by
  unfold foldRatio at h
  split at h
  · cases h
  · dsimp only at h
    split at h
    · cases h; exact hint _
    · split at h
      · cases h
      · cases h; exact ⟨hint _, hint _⟩

theorem Double.isFinite_of_ofMagnitude? {negative : Bool} {v : Rat} {x : Double}
    (h : Double.ofMagnitude? negative v = some x) : x.isFinite := by
  unfold Double.ofMagnitude? at h
  dsimp only at h
  split at h
  · cases h; rfl
  · cases h

theorem Double.isFinite_of_ofRat? {v : Rat} {x : Double} (h : Double.ofRat? v = some x) :
    x.isFinite :=
  Double.isFinite_of_ofMagnitude? h

theorem Literal.isFinite_ofDouble {x : Double} (h : x.isFinite) :
    (Literal.ofDouble x).IsFinite := by
  unfold Literal.ofDouble
  split
  · trivial
  · exact h

theorem allLiterals_foldFractionalPower {v w : Rat} {e : Expr}
    (h : foldFractionalPower v w = some e) : e.AllLiterals Literal.IsFinite := by
  unfold foldFractionalPower at h
  split at h
  · cases h
  · split at h
    · dsimp only at h
      split at h
      · rename_i hfinite
        cases h
        exact Literal.isFinite_ofDouble hfinite
      · cases h
    · cases h

/-- What folding two literals computes, once both have been read. -/
theorem foldConstants_numbers {op : Operator} {a b : Literal} {v w : Rat} (hop : op ≠ equals)
    (ha : a.typedValue = .ok v) (hb : b.typedValue = .ok w) :
    foldConstants (binary op (number a) (number b)) = .ok (match op with
      | equals => none
      | plus => resultOf (v + w) false
      | minus => resultOf (v - w) false
      | times => resultOf (v * w) false
      | divide => foldRatio v w
      | power =>
        if w.den = 1 then foldIntegralPower v w.num a.toInt?.isSome else foldFractionalPower v w) := by
  cases op with
  | equals => exact absurd rfl hop
  | _ => simp only [foldConstants, ha, hb]; rfl

theorem foldConstants_of_not_numbers {op : Operator} {l r : Expr}
    (h : ¬(l.isNumber ∧ r.isNumber)) : foldConstants (binary op l r) = .ok none := by
  unfold foldConstants
  split
  · rfl
  · rename_i hnumbers
    cases hnumbers
    exact absurd ⟨rfl, rfl⟩ h
  · rfl

theorem resultOf_of_foldIntegralPower {v : Rat} {n : Int} {exact : Bool} {e : Expr}
    (h : foldIntegralPower v n exact = some e) :
    ¬(v = 0 ∧ n < 0) ∧ resultOf (v ^ n) exact = some e := by
  unfold foldIntegralPower at h
  split at h
  · cases h
  · rename_i hbound
    exact ⟨fun hzero => hbound (.inr hzero), h⟩

theorem typedValues_of_foldConstants {op : Operator} {a b : Literal} {r : Option Expr}
    (hop : op ≠ equals) (h : foldConstants (binary op (number a) (number b)) = .ok r) :
    ∃ v w, a.typedValue = .ok v ∧ b.typedValue = .ok w := by
  unfold foldConstants at h
  split at h
  · rename_i hequals
    cases hequals
    exact absurd rfl hop
  · rename_i hnumbers
    cases hnumbers
    obtain ⟨v, hv, h⟩ := bind_eq_ok.mp h
    obtain ⟨w, hw, -⟩ := bind_eq_ok.mp h
    exact ⟨v, w, hv, hw⟩
  · rename_i hother
    exact absurd rfl (hother op a b)

theorem number_or_intRatio_of_resultOf {v : Rat} {exact : Bool} {e : Expr}
    (h : resultOf v exact = some e) : (∃ a, e = number a) ∨ (exact ∧ ∃ m n, e = intRatio m n) := by
  unfold resultOf at h
  obtain ⟨x, -, rfl⟩ := Option.map_eq_some_iff.mp h
  split
  · exact .inl ⟨_, rfl⟩
  · split
    · exact .inr ⟨‹_›, _, _, rfl⟩
    · exact .inl ⟨_, rfl⟩

theorem number_of_resultOf {v : Rat} {e : Expr} (h : resultOf v false = some e) :
    ∃ a, e = number a :=
  (number_or_intRatio_of_resultOf h).resolve_right fun hexact => by cases hexact.1

theorem number_or_intRatio_of_foldRatio {v w : Rat} {e : Expr} (h : foldRatio v w = some e) :
    (∃ a, e = number a) ∨ ∃ m n, e = intRatio m n := by
  unfold foldRatio at h
  split at h
  · cases h
  · dsimp only at h
    split at h
    · cases h; exact .inl ⟨_, rfl⟩
    · split at h
      · cases h
      · cases h; exact .inr ⟨_, _, rfl⟩

/-- A ratio in lowest terms is not folded. -/
theorem foldConstants_intRatio {v : Rat} (hden : v.den ≠ 1) :
    foldConstants (intRatio v.num v.den) = .ok none := by
  have hzero : ((v.den : Int) : Rat) ≠ 0 := by
    rw [Rat.intCast_natCast]
    exact_mod_cast v.den_nz
  have hlowest : ((v.num : Int) : Rat) / ((v.den : Int) : Rat) = v := by
    rw [Rat.intCast_natCast]
    exact Rat.num_div_den _
  rw [intRatio, int, int, foldConstants_numbers (by decide) rfl rfl]
  dsimp only
  rw [foldRatio, if_neg hzero, hlowest, if_neg hden, if_pos ⟨rfl, (Rat.intCast_natCast _).symm⟩]

/-- A folded quotient cannot be folded further. -/
theorem foldConstants_of_foldRatio {v w : Rat} {e : Expr} (h : foldRatio v w = some e) :
    foldConstants e = .ok none := by
  unfold foldRatio at h
  split at h
  · cases h
  · dsimp only at h
    split at h
    · cases h; rfl
    · split at h
      · cases h
      · cases h
        exact foldConstants_intRatio ‹_›

theorem number_of_foldFractionalPower {v w : Rat} {e : Expr}
    (h : foldFractionalPower v w = some e) : ∃ a, e = number a := by
  unfold foldFractionalPower at h
  split at h
  · cases h
  · split at h
    · dsimp only at h
      split at h
      · cases h; exact ⟨_, rfl⟩
      · cases h
    · cases h

/-- Folding gives a number, or from a quotient or a power the ratio of two integers. -/
theorem number_or_intRatio_of_fold {op : Operator} {a b : Literal} {e : Expr}
    (h : foldConstants (binary op (number a) (number b)) = .ok (some e)) :
    (∃ v, e = number v) ∨ ((op = divide ∨ op = power) ∧ ∃ m n, e = intRatio m n) := by
  by_cases hop : op = equals
  · subst hop; cases h
  · obtain ⟨v, w, hv, hw⟩ := typedValues_of_foldConstants hop h
    rw [foldConstants_numbers hop hv hw, Except.ok.injEq] at h
    cases op with
    | equals => exact absurd rfl hop
    | divide => exact (number_or_intRatio_of_foldRatio h).imp_right fun hratio => ⟨.inl rfl, hratio⟩
    | power =>
      dsimp only at h
      split at h
      · exact (number_or_intRatio_of_resultOf (resultOf_of_foldIntegralPower h).2).imp_right
          fun hratio => ⟨.inr rfl, hratio.2⟩
      · exact .inl (number_of_foldFractionalPower h)
    | _ => exact .inl (number_of_resultOf h)

/-! ## The two classes -/

theorem Literal.typedValue_of_isFinite {a : Literal} (h : a.IsFinite) :
    ∃ v, a.typedValue = .ok v := by
  cases a with
  | int n => exact ⟨n, rfl⟩
  | double x =>
    cases x with
    | finite negative rank => exact ⟨_, rfl⟩
    | _ => simp [Literal.IsFinite, Double.isFinite] at h

theorem finite_foldClosed : FoldClosed Literal.IsFinite where
  one := trivial
  typed := Literal.typedValue_of_isFinite
  fold := by
    intro op a b e ha hb h
    have hint : ∀ n, (Literal.int n).IsFinite := fun _ => trivial
    have hresult : ∀ {v : Rat} {exact : Bool}, resultOf v exact = some e →
        e.AllLiterals Literal.IsFinite := fun h =>
      allLiterals_resultOf hint (.inr (.inr fun _ => Double.isFinite_of_ofRat?)) h
    obtain ⟨v, hv⟩ := Literal.typedValue_of_isFinite ha
    obtain ⟨w, hw⟩ := Literal.typedValue_of_isFinite hb
    by_cases hop : op = equals
    · subst hop; cases h
    · rw [foldConstants_numbers hop hv hw, Except.ok.injEq] at h
      cases op with
      | equals => exact absurd rfl hop
      | divide => exact allLiterals_foldRatio hint h
      | power =>
        dsimp only at h
        split at h
        · exact hresult (resultOf_of_foldIntegralPower h).2
        · exact allLiterals_foldFractionalPower h
      | _ => exact hresult h

theorem integer_foldClosed : FoldClosed Literal.IsInteger where
  one := trivial
  typed := by
    intro a ha
    cases a with
    | int n => exact ⟨n, rfl⟩
    | double x => cases ha
  fold := by
    intro op a b e ha hb h
    have hint : ∀ n, (Literal.int n).IsInteger := fun _ => trivial
    have hresult : ∀ {n : Int}, resultOf (n : Rat) false = some e →
        e.AllLiterals Literal.IsInteger := fun h =>
      allLiterals_resultOf hint (.inl (Rat.den_intCast _)) h
    cases a with
    | double x => cases ha
    | int m =>
      cases b with
      | double x => cases hb
      | int n =>
        by_cases hop : op = equals
        · subst hop; cases h
        · rw [foldConstants_numbers hop rfl rfl, Except.ok.injEq] at h
          cases op with
          | equals => exact absurd rfl hop
          | plus => exact hresult (n := m + n) (by rw [Rat.intCast_add]; exact h)
          | minus => exact hresult (n := m - n) (by rw [Rat.intCast_sub]; exact h)
          | times => exact hresult (n := m * n) (by rw [Rat.intCast_mul]; exact h)
          | divide => exact allLiterals_foldRatio hint h
          | power =>
            dsimp only at h
            rw [if_pos (Rat.den_intCast n)] at h
            exact allLiterals_resultOf hint (.inr (.inl rfl)) (resultOf_of_foldIntegralPower h).2

/-! ## Rewriting stays in a class -/

theorem SumClosed.exponentsKeep (hp : SumClosed p) : ExponentsKeep (Head.LiteralIs p) :=
  ⟨hp.one, fun ha hb h => allLiterals_iff.mp (hp.sum ha hb h)⟩

theorem allLiterals_splitPower (hp : SumClosed p) {e : Expr} (h : e.AllLiterals p) :
    (splitPower e).1.AllLiterals p ∧ (splitPower e).2.AllLiterals p := by
  rw [allLiterals_iff, allLiterals_iff]
  exact allHeads_splitPower hp.exponentsKeep (allLiterals_iff.mp h)

/-- A rewrite stays in a class if folding does on the expression at hand. -/
theorem Rewrites.allLiterals_of_fold (hp : SumClosed p) {e e' : Expr} (h : Rewrites e e')
    (he : e.AllLiterals p) (hfold : ∀ {part folded}, part.IsPart e →
      foldConstants part = .ok (some folded) → folded.AllLiterals p) : e'.AllLiterals p :=
  allLiterals_iff.mpr (h.allHeads_of_fold hp.exponentsKeep (allLiterals_iff.mp he)
    fun hpart hfolds => allLiterals_iff.mp (hfold hpart hfolds))

theorem allLiterals_of_isPart {part e : Expr} (h : part.IsPart e) (he : e.AllLiterals p) :
    part.AllLiterals p := by
  induction h with
  | self => exact he
  | argument _ ih => exact ih he
  | left _ ih => exact ih he.1
  | right _ ih => exact ih he.2

/-- Only an operator between two literals is folded. -/
theorem exists_numbers_of_foldConstants {e folded : Expr}
    (h : foldConstants e = .ok (some folded)) :
    ∃ op a b, e = binary op (number a) (number b) := by
  unfold foldConstants at h
  split at h
  · cases h
  · exact ⟨_, _, _, rfl⟩
  · cases h

theorem Rewrites.allLiterals (hp : FoldClosed p) {e e' : Expr} (h : Rewrites e e')
    (he : e.AllLiterals p) : e'.AllLiterals p := by
  refine h.allLiterals_of_fold hp.sumClosed he fun hpart hfold => ?_
  obtain ⟨op, a, b, rfl⟩ := exists_numbers_of_foldConstants hfold
  have hnumbers := allLiterals_of_isPart hpart he
  exact hp.fold hnumbers.1 hnumbers.2 hfold

/-- What is folded consists of numbers, so what holds of all other nodes holds along every run. -/
theorem Rewrites.allHeads {P : Head → Prop} (hnumber : ∀ v, P (.number v)) {e e' : Expr}
    (h : Rewrites e e') (he : e.AllHeads P) : e'.AllHeads P := by
  have hfold : ∀ {part folded : Expr}, foldConstants part = .ok (some folded) →
      folded.AllHeads P := by
    intro part folded hfolds
    obtain ⟨op, a, b, rfl⟩ := exists_numbers_of_foldConstants hfolds
    rcases number_or_intRatio_of_fold hfolds with ⟨v, rfl⟩ | ⟨-, m, n, rfl⟩
    · exact hnumber v
    · exact ⟨hnumber _, hnumber _⟩
  exact h.allHeads_of_fold ⟨hnumber _, fun _ _ hfolds => hfold hfolds⟩ he fun _ => hfold

/-! ## No step fails -/

theorem mergePowers_isOk (hp : FoldClosed p) {first second : Expr} (h₁ : first.AllLiterals p)
    (h₂ : second.AllLiterals p) : ∃ r, mergePowers first second = .ok r := by
  unfold mergePowers
  split
  · exact ⟨_, rfl⟩
  · dsimp only
    split
    · obtain ⟨sum, hsum⟩ :
          ∃ sum, addExponents (splitPower first).2 (splitPower second).2 = .ok sum := by
        have hm := (allLiterals_splitPower hp.sumClosed h₁).2
        have hn := (allLiterals_splitPower hp.sumClosed h₂).2
        by_cases hnumbers : (splitPower first).2.isNumber ∧ (splitPower second).2.isNumber
        · obtain ⟨a, ha⟩ := exists_number hnumbers.1
          obtain ⟨b, hb⟩ := exists_number hnumbers.2
          rw [ha] at hm ⊢
          rw [hb] at hn ⊢
          obtain ⟨v, hv⟩ := hp.typed hm
          obtain ⟨w, hw⟩ := hp.typed hn
          exact ⟨resultOf (v + w) false, by rw [addExponents, hv, hw]; rfl⟩
        · exact ⟨_, addExponents_of_not_numbers hnumbers⟩
      exact ⟨_, by rw [hsum]; rfl⟩
    · exact ⟨_, rfl⟩

theorem foldConstants_isOk (hp : FoldClosed p) {e : Expr} (h : e.AllLiterals p) :
    ∃ r, foldConstants e = .ok r := by
  unfold foldConstants
  split
  · exact ⟨_, rfl⟩
  · rename_i op a b hop
    obtain ⟨v, hv⟩ := hp.typed h.1
    obtain ⟨w, hw⟩ := hp.typed h.2
    exact ⟨_, by rw [hv, hw]; rfl⟩
  · exact ⟨_, rfl⟩

theorem consolidatePowers_isOk (hp : FoldClosed p) {e : Expr} (h : e.AllLiterals p) :
    ∃ r, consolidatePowers e = .ok r := by
  unfold consolidatePowers
  split
  · obtain ⟨merged, hmerged⟩ := mergePowers_isOk hp h.1 h.2
    rw [hmerged, ok_bind]
    cases merged with
    | some m => exact ⟨_, rfl⟩
    | none =>
      dsimp only
      split
      · obtain ⟨outer, houter⟩ := mergePowers_isOk hp h.1.2 h.2
        obtain ⟨inner, hinner⟩ := mergePowers_isOk hp h.1.1 h.2
        rw [mergeInto, houter, hinner]
        cases outer with
        | some m => exact ⟨_, rfl⟩
        | none => exact ⟨_, rfl⟩
      · exact ⟨_, rfl⟩
  · exact ⟨_, rfl⟩

theorem rule_isOk (hp : FoldClosed p) {rule : Rule} (hrule : rule ∈ standardRules) {e : Expr}
    (h : e.AllLiterals p) : ∃ r, rule e = .ok r := by
  simp only [standardRules, catalogue, List.map_cons, List.map_nil, List.mem_cons,
    List.not_mem_nil, or_false] at hrule
  rcases hrule with rfl | rfl | rfl | rfl | rfl
  · exact foldConstants_isOk hp h
  · unfold eliminateIdentities
    split <;> exact ⟨_, rfl⟩
  · unfold distributeRatios
    split <;> exact ⟨_, rfl⟩
  · exact consolidatePowers_isOk hp h
  · unfold orderCoefficients
    split <;> exact ⟨_, rfl⟩

theorem applyFirst_isOk {rules : List Rule} {e : Expr} (h : ∀ rule ∈ rules, ∃ r, rule e = .ok r) :
    ∃ r, applyFirst rules e = .ok r := by
  induction rules with
  | nil => exact ⟨none, rfl⟩
  | cons rule rest ih =>
    obtain ⟨r, hr⟩ := h rule List.mem_cons_self
    obtain ⟨r', hr'⟩ := ih fun rule' hmem => h rule' (List.mem_cons_of_mem _ hmem)
    rw [applyFirst, hr]
    cases r with
    | none => exact ⟨r', hr'⟩
    | some e' => exact ⟨some e', rfl⟩

theorem step_isOk (hp : FoldClosed p) {e : Expr} (h : e.AllLiterals p) :
    ∃ r, step standardRules e = .ok r := by
  have hhere : ∃ r, applyFirst standardRules e = .ok r :=
    applyFirst_isOk fun rule hrule => rule_isOk hp hrule h
  induction e with
  | call f a ih =>
    obtain ⟨here, hhere⟩ := hhere
    rw [step, hhere, ok_bind]
    cases here with
    | some root => exact ⟨_, rfl⟩
    | none =>
      obtain ⟨inside, hinside⟩ := ih h (applyFirst_isOk fun rule hrule => rule_isOk hp hrule h)
      exact ⟨_, by dsimp only; rw [hinside]; rfl⟩
  | binary op l r ihl ihr =>
    obtain ⟨here, hhere⟩ := hhere
    rw [step, hhere, ok_bind]
    cases here with
    | some root => exact ⟨_, rfl⟩
    | none =>
      obtain ⟨left, hleft⟩ := ihl h.1 (applyFirst_isOk fun rule hrule => rule_isOk hp hrule h.1)
      obtain ⟨right, hright⟩ := ihr h.2 (applyFirst_isOk fun rule hrule => rule_isOk hp hrule h.2)
      dsimp only
      rw [hleft, ok_bind]
      cases left with
      | some l' => exact ⟨_, rfl⟩
      | none => exact ⟨_, by dsimp only; rw [hright]; rfl⟩
  | _ => exact hhere

/-- What a step keeps, a run of at most `n` steps keeps, and the run does not fail. -/
theorem simplify_induction (hp : FoldClosed p) {motive : Expr → Prop}
    (hstep : ∀ {e e'}, e.AllLiterals p → motive e → Rewrites e e' → motive e') {e : Expr}
    (he : e.AllLiterals p) (hmotive : motive e) (n : Nat) :
    ∃ e', simplify standardRules n e = .ok e' ∧ e'.AllLiterals p ∧ motive e' := by
  induction n generalizing e with
  | zero => exact ⟨e, rfl, he, hmotive⟩
  | succ n ih =>
    obtain ⟨r, hr⟩ := step_isOk hp he
    rw [simplify, hr, ok_bind]
    cases r with
    | none => exact ⟨e, rfl, he, hmotive⟩
    | some e' =>
      have hrewrites := rewrites_of_step hr
      exact ih (hrewrites.allLiterals hp he) (hstep he hmotive hrewrites)

end Locus
