import Locus.Proofs.Parse.Order
import Locus.Proofs.Token.Registration
import Locus.Workbench

/-! From a name in a text to its function in code. The calls of an expression are the names of
functions in its text, from left to right, and its code is that of the expression in which each of
them has the name that the table gives (`code_mapCalls`). A table that has been filled finds its
functions under the names that are in lower case, and under no others
(`registered_names_looked_up`). -/

namespace Locus
set_option autoImplicit false

open Locus.Expr Locus.Operator

/-! ## Calls in texts -/

/-- The functions that are called, from left to right. -/
def Expr.calls : Expr → List String
  | .call f a => f :: a.calls
  | .binary _ l r => l.calls ++ r.calls
  | _ => []

def Item.called? : Item → Option String
  | .call f => some f
  | _ => none

def Token.called? (t : Token) : Option String := if t.kind = .function then some t.text else none

theorem filterMap_items (e : Expr) : e.items.filterMap Item.called? = e.calls := by
  induction e with
  | call f a ih =>
    show f :: a.items.filterMap Item.called? = f :: a.calls
    rw [ih]
  | binary op l r ihl ihr =>
    have hoperator : (l.items ++ .operator op :: r.items).filterMap Item.called?
        = l.items.filterMap Item.called? ++ r.items.filterMap Item.called? :=
      List.filterMap_append
    rw [Expr.items, hoperator, ihl, ihr]
    rfl
  | _ => rfl

theorem filterMap_literalItem (negated : Bool) (t : Token) :
    (t.literalItem negated).filterMap Item.called? = [] := by
  rw [List.filterMap_eq_nil_iff]
  intro i hi
  obtain ⟨v, -, rfl⟩ := Option.map_eq_some_iff.mp (Option.mem_toList.mp hi)
  rfl

theorem filterMap_nameItem? (t : Token) :
    t.nameItem?.toList.filterMap Item.called? = t.called?.toList := by
  rw [Token.nameItem?, Token.called?]
  cases t.kind <;> rfl

theorem Item.IsSign.called?_eq_none {i : Item} (h : i.IsSign) : i.called? = none := by
  cases i with
  | call _ => exact h.elim
  | _ => rfl

theorem filterMap_called?_cons (t : Token) (tokens : List Token) :
    (t :: tokens).filterMap Token.called? = t.called?.toList ++ tokens.filterMap Token.called? := by
  cases h : t.called? with
  | none => rw [List.filterMap_cons_none h]; rfl
  | some f => rw [List.filterMap_cons_some h]; rfl

/-- Tokens stand for the calls of their functions, in their order. -/
theorem StandFor.filterMap_called? {tokens : List Token} {items : List Item}
    (h : StandFor tokens items) :
    items.filterMap Item.called? = tokens.filterMap Token.called? := by
  induction h with
  | nil => rfl
  | sign hi _ ih => rw [List.filterMap_cons_none hi.called?_eq_none, ih]
  | number negated hk _ ih =>
    rw [List.filterMap_append, filterMap_literalItem, ih, filterMap_called?_cons, Token.called?,
      if_neg (by simp [hk])]
    rfl
  | other _ _ ih => rw [List.filterMap_append, filterMap_nameItem?, ih, filterMap_called?_cons]

theorem calls_of_parse {names : List String} {table : OperatorTable} {text : String} {e : Expr}
    (htable : table.Complete) (h : parse names table text = .ok e) :
    e.calls = (tokenize names text).filterMap Token.called? := by
  rw [parse] at h
  split at h
  · next hnil =>
    cases h
    rw [hnil]
    rfl
  · rw [← filterMap_items, items_of_parseTokens htable h]
    exact (standFor_itemsFrom true _).filterMap_called?

/-! ## Calls in code -/

/-- The expression with other functions in the place of those called. -/
def Expr.mapCalls (f : String → String) : Expr → Expr
  | .call g a => .call (f g) (a.mapCalls f)
  | .binary op l r => .binary op (l.mapCalls f) (r.mapCalls f)
  | e => e

namespace Shading

section

variable (limit : Int) (f : String → String)

theorem integralExponent?_mapCalls (e : Expr) :
    integralExponent? (e.mapCalls f) = integralExponent? e := by
  cases e <;> rfl

theorem isProduct_mapCalls (e : Expr) : isProduct limit (e.mapCalls f) = isProduct limit e := by
  cases e with
  | binary op l r =>
    cases op with
    | power => simp only [mapCalls, isProduct, integralExponent?_mapCalls]
    | _ => rfl
  | _ => rfl

theorem needsParentheses_mapCalls (e : Expr) (op : Operator) (l r : Expr) (onRight : Bool) :
    (e.mapCalls f).needsParentheses (.binary op (l.mapCalls f) (r.mapCalls f)) onRight
      = e.needsParentheses (.binary op l r) onRight := by
  cases e <;> rfl

theorem factor_mapCalls (e : Expr) (code : String) :
    factor limit (e.mapCalls f) code = factor limit e code := by
  cases e with
  | binary op l r =>
    cases op with
    | power =>
      have hproduct := isProduct_mapCalls limit f (.binary .power l r)
      simp only [mapCalls] at hproduct
      simp only [mapCalls, factor, hproduct]
    | _ => rfl
  | _ => rfl

theorem power_mapCalls (base exponent : Expr) (baseCode exponentCode : Except NumericFault String) :
    power limit (base.mapCalls f) (exponent.mapCalls f) baseCode exponentCode
      = power limit base exponent baseCode exponentCode := by
  simp only [power, naturalPower, integralExponent?_mapCalls, factor_mapCalls]

theorem joined_mapCalls (op : Operator) (l r : Expr) (leftCode rightCode : Except NumericFault String) :
    joined limit op (l.mapCalls f) (r.mapCalls f) leftCode rightCode
      = joined limit op l r leftCode rightCode := by
  simp only [joined, needsParentheses_mapCalls, isProduct_mapCalls]

end

theorem callee_empty (name : String) : callee .empty name = name := rfl

/-- Code depends on the table by the names of the functions called, and on nothing else of it. -/
theorem code_mapCalls (functions : FunctionTable) (limit : Int) (e : Expr) :
    code ⟨.empty, limit⟩ (e.mapCalls (callee functions)) = code ⟨functions, limit⟩ e := by
  induction e with
  | call f a ih => rw [mapCalls, code, code, ih, callee_empty]
  | binary op l r ihl ihr =>
    cases op with
    | power =>
      rw [mapCalls, code, code, ihl, ihr]
      exact power_mapCalls limit _ l r _ _
    | _ =>
      rw [mapCalls, code, code, ihl, ihr]
      · exact joined_mapCalls limit _ _ l r _ _
      all_goals exact fun h => nomatch h
  | _ => rfl

theorem callee_lowered {table : FunctionTable} {entry : FunctionEntry} (htable : table.Apart)
    (hentry : entry ∈ table.entries) :
    callee table (lowered entry.name)
      = if entry.name = lowered entry.name then entry.code else lowered entry.name := by
  rw [callee, find?_lowered htable hentry]
  by_cases hlower : entry.name = lowered entry.name
  · rw [if_pos hlower, if_pos hlower]
  · rw [if_neg hlower, if_neg hlower]

end Shading

/-- A table is asked for names in lower case, and so it gives the latest entry of a name if that was
added in lower case. Where no name begins another, each name in a text is read as the function it is
in any case, and its call has the code of that entry if that was added in lower case. -/
theorem registered_names_looked_up (added : List FunctionEntry) (limit : Int) :
    let table := FunctionTable.ofAdditions added
    let b := Workbench.build table .standard limit
    (∀ q, table.find? q = added.reverse.find? (·.name == lowered q) ∧
      (table.contains q ↔ ∃ e ∈ added, table.find? q = some e)) ∧
    (∀ q, (∀ c ∈ q.toList, isLetter c) →
      (table.find? q = latestAddition? added q ↔
        ∀ e, latestAddition? added q = some e → e.name = lowered e.name)) ∧
    (table.Apart →
      (∀ text e, b.parse text = .ok e →
        e.calls = (b.tokenize text).filterMap Token.called? ∧
        b.code e = Shading.code ⟨.empty, limit⟩ (e.mapCalls (Shading.callee table))) ∧
      ∀ entry ∈ table.entries,
        (Shading.callee table (lowered entry.name)
          = if entry.name = lowered entry.name then entry.code else lowered entry.name) ∧
        ∀ text left word right, text.toList = left ++ word ++ right →
          lowerCase word = lowerCase entry.name.toList →
          ∀ t ∈ b.tokenize text, t.position = left.length →
            t = ⟨.function, lowered entry.name, left.length⟩) := by
  intro table b
  refine ⟨fun q => ⟨FunctionTable.find?_ofAdditions added q, FunctionTable.contains_ofAdditions⟩,
    fun q hq => find?_ofAdditions_eq_latest hq, fun htable => ?_⟩
  refine ⟨fun text e hparse => ⟨?_, (Shading.code_mapCalls table limit e).symm⟩,
    fun entry hentry => ⟨Shading.callee_lowered htable hentry, ?_⟩⟩
  · exact calls_of_parse OperatorTable.standard_complete hparse
  · intro text left word right htext hword t ht hposition
    exact function_mem_of_word htable hentry hword htext ht hposition

/-- One function is added twice, and another under a name with a capital. -/
def mixedAdditions : List FunctionEntry :=
  [⟨"sinh", "sinh", ""⟩, ⟨"Cot", "cotangent", ""⟩, ⟨"sinh", "hyperbolicSine", ""⟩]

theorem mixed_names_looked_up :
    (FunctionTable.ofAdditions mixedAdditions).find? "SinH" = some ⟨"sinh", "hyperbolicSine", ""⟩ ∧
      (FunctionTable.ofAdditions mixedAdditions).find? "Cot" ≠ latestAddition? mixedAdditions "Cot" ∧
      ∃ e, (Workbench.build (.ofAdditions mixedAdditions) .standard 6).parse "SINH(cot(x))" = .ok e ∧
        e.calls = ["sinh", "cot"] ∧
        Shading.callee (.ofAdditions mixedAdditions) "sinh" = "hyperbolicSine" ∧
        Shading.callee (.ofAdditions mixedAdditions) "cot" = "cot" := by
  obtain ⟨hfind, hlatest, hcode⟩ := registered_names_looked_up mixedAdditions 6
  have hletters : ∀ e ∈ (FunctionTable.ofAdditions mixedAdditions).entries,
      e.name.toList.all isLetter := by
    decide
  have htable : (FunctionTable.ofAdditions mixedAdditions).Apart :=
    ⟨by decide, fun e he => List.all_eq_true.mp (hletters e he), by decide⟩
  obtain ⟨hcalls, hcallee⟩ := hcode htable
  have hparse : (Workbench.build (.ofAdditions mixedAdditions) .standard 6).parse "SINH(cot(x))"
      = .ok (.call "sinh" (.call "cot" (.var "x"))) := by
    decide +kernel
  refine ⟨?_, ?_, _, hparse, ?_, ?_, ?_⟩
  · rw [(hfind "SinH").1]
    decide
  · rw [ne_eq, hlatest "Cot" (List.all_eq_true.mp rfl)]
    decide
  · rw [(hcalls _ _ hparse).1]
    decide +kernel
  · exact (hcallee ⟨"sinh", "hyperbolicSine", ""⟩ (by decide)).1
  · exact (hcallee ⟨"Cot", "cotangent", ""⟩ (by decide)).1

/-- A function that was added with a capital is not found. -/
theorem registered_name_not_found :
    ¬∀ added q, (∀ c ∈ q.toList, isLetter c) →
      (FunctionTable.ofAdditions added).find? q = latestAddition? added q := by
  intro h
  have hsin := h [⟨"Sin", "sine", ""⟩] "Sin" (List.all_eq_true.mp rfl)
  revert hsin
  decide

end Locus
