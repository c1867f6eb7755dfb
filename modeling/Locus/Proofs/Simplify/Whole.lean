import Locus.Proofs.Numeric.Whole
import Locus.Proofs.Simplify.Literals

/-! Simplification does not see whether an integer is written as a double. With whole doubles taken
for their integers (`Expr.whole`) each rule applies at the same places, and gives the same up to
`whole`; so does a step (`respectsWhole_step`). -/

namespace Locus
set_option autoImplicit false

open Locus.Expr Locus.Operator

/-! ## Expressions -/

namespace Expr

/-- An expression with whole doubles taken for their integers. -/
def whole (e : Expr) : Expr := e.mapLiterals Literal.whole

variable {e l r : Expr}

@[simp]
theorem whole_empty : empty.whole = empty := rfl

@[simp]
theorem whole_number (v : Literal) : (number v).whole = number v.whole := rfl

@[simp]
theorem whole_int (n : Int) : (int n).whole = int n := rfl

@[simp]
theorem whole_var (x : String) : (var x).whole = var x := rfl

@[simp]
theorem whole_call (f : String) (a : Expr) : (call f a).whole = call f a.whole := rfl

@[simp]
theorem whole_binary (op : Operator) (l r : Expr) :
    (binary op l r).whole = binary op l.whole r.whole := rfl

@[simp]
theorem whole_whole (e : Expr) : e.whole.whole = e.whole := by
  induction e with
  | number v => rw [whole_number, whole_number, Literal.whole_whole]
  | call f a ih => rw [whole_call, whole_call, ih]
  | binary op l r ihl ihr => rw [whole_binary, whole_binary, ihl, ihr]
  | _ => rfl

@[simp]
theorem isNumber_whole (e : Expr) : e.whole.isNumber = e.isNumber := by
  cases e <;> rfl

@[simp]
theorem operator?_whole (e : Expr) : e.whole.operator? = e.operator? := by
  cases e <;> rfl

@[simp]
theorem needsParentheses_whole (child parent : Expr) (onRight : Bool) :
    child.whole.needsParentheses parent.whole onRight = child.needsParentheses parent onRight := by
  rw [needsParentheses, needsParentheses, operator?_whole, operator?_whole]

@[simp]
theorem variableNames_whole (e : Expr) : e.whole.variableNames = e.variableNames := by
  induction e with
  | call f a ih => exact ih
  | binary op l r ihl ihr => rw [whole_binary, variableNames, variableNames, ihl, ihr]
  | _ => rfl

@[simp]
theorem hasValue_whole (e : Expr) (n : Int) : e.whole.hasValue (.int n) = e.hasValue (.int n) := by
  cases e with
  | number v => exact Literal.sameValue_whole v (.int n)
  | _ => rfl

@[simp]
theorem isZero_whole (e : Expr) : e.whole.isZero = e.isZero := hasValue_whole e 0

@[simp]
theorem isOne_whole (e : Expr) : e.whole.isOne = e.isOne := hasValue_whole e 1

@[simp]
theorem sameUpToOrder_whole (e e' : Expr) :
    e.whole.sameUpToOrder e'.whole = e.sameUpToOrder e' := by
  induction e generalizing e' with
  | number v =>
    cases e' with
    | number w => exact Literal.sameValue_whole v w
    | _ => rfl
  | call f a ih =>
    cases e' with
    | call g b => rw [whole_call, whole_call, sameUpToOrder, sameUpToOrder, ih]
    | _ => rfl
  | binary op l r ihl ihr =>
    cases e' with
    | binary op' l' r' =>
      rw [whole_binary, whole_binary, sameUpToOrder, sameUpToOrder, ihl, ihl, ihr, ihr]
    | _ => rfl
  | _ => cases e' <;> rfl

theorem splitPower_whole (e : Expr) :
    splitPower e.whole = ((splitPower e).1.whole, (splitPower e).2.whole) := by
  cases e with
  | binary op l r => cases op <;> rfl
  | _ => rfl

end Expr

/-! ## Rules -/

/-- A rule gives the same with whole doubles taken for their integers, up to whole doubles in its
result. -/
def Rule.RespectsWhole (rule : Rule) : Prop :=
  ∀ e, AgreeOn (Option.map whole) (rule e.whole) (rule e)

variable {rule : Rule} {rules : List Rule} {e e' : Expr}

theorem Rule.RespectsWhole.agree (hrule : rule.RespectsWhole) (h : e.whole = e'.whole) :
    AgreeOn (Option.map whole) (rule e) (rule e') :=
  (hrule e).symm.trans (h ▸ hrule e')

/-- Folding depends on the values of two literals only. -/
theorem foldConstants_whole (e : Expr) : foldConstants e.whole = foldConstants e := by
  cases e with
  | binary op l r =>
    rw [whole_binary]
    by_cases hnumbers : l.isNumber ∧ r.isNumber
    · obtain ⟨a, rfl⟩ := exists_number hnumbers.1
      obtain ⟨b, rfl⟩ := exists_number hnumbers.2
      rw [whole_number, whole_number]
      cases op with
      | equals => rfl
      | _ => simp only [foldConstants, Literal.typedValue_whole, Literal.toInt?_whole]
    · rw [foldConstants_of_not_numbers hnumbers,
        foldConstants_of_not_numbers (by rwa [isNumber_whole, isNumber_whole])]
  | _ => rfl

theorem respectsWhole_foldConstants : Rule.RespectsWhole foldConstants := fun e => by
  rw [foldConstants_whole]
  exact rfl

theorem withoutNeutral?_whole (op : Operator) (l r : Expr) :
    withoutNeutral? op l.whole r.whole = (withoutNeutral? op l r).map whole := by
  cases op with
  | equals => rfl
  | _ =>
    simp only [withoutNeutral?, isOne_whole, isZero_whole]
    split_ifs <;> rfl

/-- What is whole already is left as it is. -/
theorem map_whole_map_whole (r : Option Expr) : (r.map whole).map whole = r.map whole := by
  cases r with
  | none => rfl
  | some e => rw [Option.map_some, Option.map_some, whole_whole]

/-- Results that look the same are there both or neither. -/
theorem cases_of_map_whole_eq {r r' : Option Expr} (h : r.map whole = r'.map whole) :
    r = none ∧ r' = none ∨ ∃ e e', r = some e ∧ r' = some e' ∧ e.whole = e'.whole := by
  cases r with
  | none =>
    cases r' with
    | none => exact .inl ⟨rfl, rfl⟩
    | some e' => cases h
  | some e =>
    cases r' with
    | none => cases h
    | some e' => exact .inr ⟨e, e', rfl, rfl, Option.some.inj h⟩

theorem respectsWhole_eliminateIdentities : Rule.RespectsWhole eliminateIdentities := by
  intro e
  cases e with
  | binary op l r =>
    refine agreeOn_ok ?_
    show Option.map whole (withoutNeutral? op l.whole r.whole) = _
    rw [withoutNeutral?_whole, map_whole_map_whole]
  | _ => exact rfl

theorem respectsWhole_orderCoefficients : Rule.RespectsWhole orderCoefficients := by
  intro e
  cases e with
  | binary op l r =>
    cases op with
    | times =>
      rw [whole_binary, orderCoefficients, orderCoefficients, isNumber_whole, isNumber_whole]
      refine agreeOn_ok ?_
      split_ifs
      · exact congrArg some (whole_whole (binary times r l))
      · rfl
    | _ => exact rfl
  | _ => exact rfl

theorem joinRatios_whole (op : Operator) (a b c d : Expr) :
    joinRatios op a.whole b.whole c.whole d.whole = (joinRatios op a b c d).whole := by
  simp only [joinRatios, sameUpToOrder_whole, apply_ite whole, whole_binary]

theorem distributeRatios_of_not {op : Operator} {l r : Expr}
    (h : ¬(l.isOperator divide ∧ r.isOperator divide)) :
    distributeRatios (binary op l r) = .ok none := by
  unfold distributeRatios
  split
  · rename_i hratios
    cases hratios
    exact absurd ⟨rfl, rfl⟩ h
  · rfl

theorem exists_operands {op : Operator} (h : e.isOperator op) : ∃ l r, e = binary op l r := by
  cases e with
  | binary op' l r =>
    have hop : op' = op := by simpa [isOperator, operator?] using h
    exact ⟨l, r, by rw [hop]⟩
  | _ => cases h

@[simp]
theorem isOperator_whole (op : Operator) (e : Expr) :
    e.whole.isOperator op = e.isOperator op := by
  rw [isOperator, isOperator, operator?_whole]

theorem respectsWhole_distributeRatios : Rule.RespectsWhole distributeRatios := by
  intro e
  cases e with
  | binary op l r =>
    rw [whole_binary]
    by_cases hratios : l.isOperator divide ∧ r.isOperator divide
    · obtain ⟨a, b, rfl⟩ := exists_operands hratios.1
      obtain ⟨c, d, rfl⟩ := exists_operands hratios.2
      refine agreeOn_ok ?_
      cases op with
      | plus | minus =>
        refine congrArg some ?_
        show (joinRatios _ a.whole b.whole c.whole d.whole).whole = _
        rw [joinRatios_whole, whole_whole]
      | times =>
        exact congrArg some (whole_whole (binary divide (binary times a c) (binary times b d)))
      | _ => rfl
    · rw [distributeRatios_of_not hratios,
        distributeRatios_of_not (by rwa [isOperator_whole, isOperator_whole])]
      exact rfl
  | _ => exact rfl

/-! ## Powers -/

theorem agreeOn_addExponents (m n : Expr) :
    AgreeOn (Option.map whole) (addExponents m.whole n.whole) (addExponents m n) := by
  by_cases hnumbers : m.isNumber ∧ n.isNumber
  · obtain ⟨a, rfl⟩ := exists_number hnumbers.1
    obtain ⟨b, rfl⟩ := exists_number hnumbers.2
    rw [addExponents_numbers a b, ← foldConstants_whole]
    exact rfl
  · rw [addExponents_of_not_numbers hnumbers,
      addExponents_of_not_numbers (by rwa [isNumber_whole, isNumber_whole])]
    exact agreeOn_ok (congrArg some (whole_whole (binary plus m n)))

/-- Building the same on results that agree. -/
theorem agreeOn_map {x y : Except NumericFault (Option Expr)} {f g : Expr → Expr}
    (h : AgreeOn (Option.map whole) x y)
    (hfg : ∀ e e', e.whole = e'.whole → (f e).whole = (g e').whole) :
    AgreeOn (Option.map whole) (x >>= fun r => pure (r.map f)) (y >>= fun r => pure (r.map g)) := by
  refine h.bind fun r r' hr => agreeOn_ok ?_
  rcases cases_of_map_whole_eq hr with ⟨rfl, rfl⟩ | ⟨e, e', rfl, rfl, hsame⟩
  · rfl
  · exact congrArg some (hfg e e' hsame)

theorem agreeOn_mergePowers (a b : Expr) :
    AgreeOn (Option.map whole) (mergePowers a.whole b.whole) (mergePowers a b) := by
  unfold mergePowers
  rw [isNumber_whole, isNumber_whole, splitPower_whole, splitPower_whole]
  dsimp only
  rw [sameUpToOrder_whole]
  split_ifs
  · exact rfl
  · refine agreeOn_map (agreeOn_addExponents _ _) fun e e' h => ?_
    rw [whole_binary, whole_binary, whole_whole, h]
  · exact rfl

/-- Going on with one of two ways, where the first one that gives anything is taken. -/
theorem agreeOn_orElse {x y : Except NumericFault (Option Expr)} {f g : Expr → Expr}
    {next next' : Except NumericFault (Option Expr)} (h : AgreeOn (Option.map whole) x y)
    (hfg : ∀ e e', e.whole = e'.whole → (f e).whole = (g e').whole)
    (hnext : AgreeOn (Option.map whole) next next') :
    AgreeOn (Option.map whole)
      (x >>= fun r => match r with
        | some e => pure (some (f e))
        | none => next)
      (y >>= fun r => match r with
        | some e => pure (some (g e))
        | none => next') := by
  refine h.bind fun r r' hr => ?_
  rcases cases_of_map_whole_eq hr with ⟨rfl, rfl⟩ | ⟨e, e', rfl, rfl, hsame⟩
  · exact hnext
  · exact agreeOn_ok (congrArg some (hfg e e' hsame))

theorem agreeOn_mergeInto (a b factor : Expr) :
    AgreeOn (Option.map whole) (mergeInto a.whole b.whole factor.whole) (mergeInto a b factor) := by
  unfold mergeInto
  refine agreeOn_orElse (agreeOn_mergePowers b factor) (fun e e' h => ?_) ?_
  · rw [whole_binary, whole_binary, whole_whole, h]
  · refine agreeOn_map (agreeOn_mergePowers a factor) fun e e' h => ?_
    rw [whole_binary, whole_binary, whole_whole, h]

theorem respectsWhole_consolidatePowers : Rule.RespectsWhole consolidatePowers := by
  intro e
  cases e with
  | binary op l r =>
    cases op with
    | times =>
      rw [whole_binary]
      unfold consolidatePowers
      refine agreeOn_orElse (agreeOn_mergePowers l r) (fun e e' h => h) ?_
      cases l with
      | binary op' a b =>
        cases op' with
        | times => exact agreeOn_mergeInto a b r
        | _ => exact rfl
      | _ => exact rfl
    | _ => exact rfl
  | _ => exact rfl

/-! ## Steps -/

theorem respectsWhole_of_mem (h : rule ∈ standardRules) : rule.RespectsWhole := by
  simp only [standardRules, catalogue, List.map_cons, List.map_nil, List.mem_cons,
    List.not_mem_nil, or_false] at h
  rcases h with rfl | rfl | rfl | rfl | rfl
  · exact respectsWhole_foldConstants
  · exact respectsWhole_eliminateIdentities
  · exact respectsWhole_distributeRatios
  · exact respectsWhole_consolidatePowers
  · exact respectsWhole_orderCoefficients

theorem respectsWhole_applyFirst (h : ∀ rule ∈ rules, rule.RespectsWhole) :
    Rule.RespectsWhole (applyFirst rules) := by
  intro e
  induction rules with
  | nil => exact rfl
  | cons rule rest ih =>
    obtain ⟨hrule, hrest⟩ := List.forall_mem_cons.mp h
    rw [applyFirst, applyFirst]
    rcases (hrule e).cases with ⟨fault, hx, hy⟩ | ⟨r, r', hx, hy, hr⟩
    · rw [hx, hy]
      exact rfl
    · rw [hx, hy]
      rcases cases_of_map_whole_eq hr with ⟨rfl, rfl⟩ | ⟨e', e'', rfl, rfl, -⟩
      · exact ih hrest
      · exact agreeOn_ok hr

/-- A step goes to the same place and does the same there. -/
theorem respectsWhole_step (h : ∀ rule ∈ rules, rule.RespectsWhole) :
    Rule.RespectsWhole (step rules) := by
  have hfirst := respectsWhole_applyFirst h
  intro e
  induction e with
  | call f a ih =>
    rw [whole_call, step, step]
    refine agreeOn_orElse (hfirst (call f a)) (fun e e' h => h) ?_
    exact agreeOn_map ih fun e e' h => congrArg (call f) h
  | binary op l r ihl ihr =>
    rw [whole_binary, step, step]
    refine agreeOn_orElse (hfirst (binary op l r)) (fun e e' h => h) ?_
    refine agreeOn_orElse ihl (fun e e' h => ?_) ?_
    · rw [whole_binary, whole_binary, whole_whole, h]
    · refine agreeOn_map ihr fun e e' h => ?_
      rw [whole_binary, whole_binary, whole_whole, h]
  | _ => exact hfirst _

end Locus
