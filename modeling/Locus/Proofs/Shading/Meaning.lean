import Locus.Proofs.Markup.Rendered
import Locus.Proofs.Shading.Powers

/-! Shading code denotes what its expression means. An expression means a partial rational: an
equation is the difference of its sides, a power with an integer literal as its exponent is a power
of rationals, and any other power and all functions are what the language takes for them. The code is
put together from pieces whose levels the parentheses respect, whatever the greatest exponent of a
power that is unrolled (`code_denotes`). -/

namespace Locus
set_option autoImplicit false

open Locus.Expr Locus.Operator

namespace Shading

/-! ## Meanings -/

/-- What a letter means. Two of them are no names of the language. -/
def Interpretation.letter (I : Interpretation) (x : String) : Option Rat :=
  if x = "π" then some 3.141592653589793
  else if x = "θ" then I.ofCall "atan" [I.ofName "y", I.ofName "x"]
  else some (I.ofName x)

/-- What the language calls a function: the code in the entry that the table has under its name. -/
def equivalent? (functions : FunctionTable) (f : String) : Option String :=
  (functions.entries.find? (·.name == f)).map (·.code)

def meaning (functions : FunctionTable) : Expr → Quantity
  | .empty, _ => none
  | .number a, _ => a.value?
  | .var x, I => I.letter x
  | .call f a, I => do I.ofCall (← equivalent? functions f) [← meaning functions a I]
  | .binary .power b x, I =>
    match x.integer? with
    | some n => do rationalPower? (← meaning functions b I) n
    | none => do I.ofCall "pow" [|← meaning functions b I|, ← meaning functions x I]
  | .binary op l r, I => combined op (meaning functions l) (meaning functions r) I

variable {limit : Int} {e l r : Expr} {op : Operator} {code : String} {q : Quantity}

/-! ## Operands -/

theorem Denotes.operand_sum (h : Denotes (codeLevel limit e) code q) (grouped : Bool) :
    Denotes .sum (parenthesizeIf grouped code) q := by
  cases grouped with
  | true => exact h.to_sum.paren.primary_to_product.product_to_sum
  | false => exact h.to_sum

theorem Denotes.operand_product (h : Denotes (codeLevel limit e) code q) {grouped : Bool}
    (hsum : grouped = false → codeLevel limit e ≠ .sum) :
    Denotes .product (parenthesizeIf grouped code) q := by
  cases grouped with
  | true => exact h.to_sum.paren.primary_to_product
  | false => exact h.to_product (hsum rfl)

/-- A sum stands without parentheses only to the left of another sum. -/
theorem codeLevel_ne_sum {onRight : Bool}
    (hop : (op = plus ∨ op = minus) ∧ onRight ∨ op = times ∨ op = divide)
    (h : e.needsParentheses (binary op l r) onRight = false) : codeLevel limit e ≠ .sum := by
  cases e with
  | binary inner a b =>
    have hwraps : inner.wraps op onRight = false := h
    cases inner with
    | power =>
      rw [codeLevel_power]
      split <;> simp
    | times | divide => simp [codeLevel]
    | equals | plus | minus =>
      rcases hop with ⟨rfl | rfl, hright⟩ | rfl | rfl <;> simp_all [wraps, precedence]
  | _ => simp [codeLevel]

/-- A denominator without parentheses is one factor. -/
theorem codeLevel_eq_primary (h : e.needsParentheses (binary divide l r) true = false)
    (hunrolls : unrolls limit e = false) : codeLevel limit e = .primary := by
  cases e with
  | binary inner a b =>
    have hwraps : inner.wraps divide true = false := h
    cases inner with
    | power => rw [codeLevel_power, hunrolls, if_neg Bool.false_ne_true]
    | _ => simp [wraps, precedence] at hwraps
  | _ => rfl

theorem joined_eq (hr : r.AllLiterals Literal.IsSmall) (a b : String) :
    joined limit op l r (.ok a) (.ok b)
      = .ok (parenthesizeIf (l.needsParentheses (binary op l r) false) a ++ separator op
        ++ parenthesizeIf (r.needsParentheses (binary op l r) true
          || (decide (op = divide) && unrolls limit r)) b) := by
  simp only [joined, isProduct_eq limit hr, ok_bind, pure_eq_ok]
  cases r.needsParentheses (binary op l r) true with
  | true => rfl
  | false =>
    rw [if_neg Bool.false_ne_true, Bool.false_or]
    by_cases hop : op = divide
    · rw [if_pos hop, decide_eq_true hop, Bool.true_and]
    · rw [if_neg hop, decide_eq_false hop, Bool.false_and]

/-- A sum or a product, given what the code of its operands denotes. -/
theorem denotes_joined (hr : r.AllLiterals Literal.IsSmall) (hequals : op ≠ equals)
    (hpower : op ≠ .power) {a b : String} {p q : Quantity} (ha : Denotes (codeLevel limit l) a p)
    (hb : Denotes (codeLevel limit r) b q) :
    ∃ text, joined limit op l r (.ok a) (.ok b) = .ok text ∧
      Denotes (codeLevel limit (binary op l r)) text (combined op p q) := by
  refine ⟨_, joined_eq hr a b, ?_⟩
  cases op with
  | equals => exact absurd rfl hequals
  | power => exact absurd rfl hpower
  | plus =>
    rw [decide_eq_false (by decide : plus ≠ divide), Bool.false_and, Bool.or_false]
    refine (ha.operand_sum _).sum separates_plus rfl (hb.operand_product fun h => ?_)
    exact codeLevel_ne_sum (.inl ⟨.inl rfl, rfl⟩) h
  | minus =>
    rw [decide_eq_false (by decide : minus ≠ divide), Bool.false_and, Bool.or_false]
    refine (ha.operand_sum _).sum separates_minus rfl (hb.operand_product fun h => ?_)
    exact codeLevel_ne_sum (.inl ⟨.inr rfl, rfl⟩) h
  | times =>
    rw [decide_eq_false (by decide : times ≠ divide), Bool.false_and, Bool.or_false]
    refine (ha.operand_product fun h => ?_).times separates_times (hb.operand_product fun h => ?_)
    · exact codeLevel_ne_sum (.inr (.inl rfl)) h
    · exact codeLevel_ne_sum (.inr (.inl rfl)) h
  | divide =>
    refine (ha.operand_product fun h => ?_).product separates_divide rfl
      (hb.parenthesized fun h => ?_)
    · exact codeLevel_ne_sum (.inr (.inr rfl)) h
    · rw [decide_eq_true rfl, Bool.true_and, Bool.or_eq_false_iff] at h
      exact codeLevel_eq_primary h.1 h.2

/-! ## Names -/

theorem denotes_name {c : Char} (hc : isLetter c) :
    Denotes .primary (String.ofList [c]) fun I => some (I.ofName (String.ofList [c])) := by
  have hall : ∀ c ∈ letters, isLetter c → isWordChar c ∧ startsNumeral [c] = false :=
    forall_mem_of_all rfl
  have hword := hall c (mem_letters_of_isLetter hc) hc
  have htokens : codeTokens (String.ofList [c]) = [.name [c]] := by
    rw [codeTokens, String.toList_ofList, tokensAfter_word (by simpa using hword.1),
      List.nil_append, finish, if_neg (by simp), wordToken, hword.2]
    rfl
  refine ⟨fun word hword => ?_, .name (String.ofList [c]), ?_, fun _ _ hv => hv⟩
  · rw [htokens] at hword
    simp at hword
  · rw [htokens]
    exact .name

theorem denotes_pi : Denotes .primary "3.141592653589793" fun _ => some 3.141592653589793 := by
  have h := denotes_positional ⟨3141592653589793, -15⟩
  have hvalue : (⟨3141592653589793, -15⟩ : Decimal).toRat = 3.141592653589793 := by
    norm_num [Decimal.toRat]
  rwa [hvalue] at h

theorem denotes_theta : Denotes .primary "atan(y, x)"
    fun I => I.ofCall "atan" [I.ofName "y", I.ofName "x"] := by
  have htokens : codeTokens "atan(y, x)" = [.name ['a', 't', 'a', 'n'], .sign '(', .name ['y'],
      .sign ',', .name ['x'], .sign ')'] := rfl
  refine ⟨fun word hword => ?_, .call "atan" [.name "y", .name "x"], ?_, fun I v hv => ?_⟩
  · rw [htokens] at hword
    simp at hword
  · have hname : ∀ word, Reads .sum [.name word] (.name (String.ofList word)) := fun word =>
      .ofProduct (.ofUnary (.ofPrimary .name))
    rw [htokens]
    exact .call (.next (.first (hname ['y'])) (hname ['x']))
  · simpa [Term.value?, valuesOf?] using hv

theorem denotes_letter {c : Char} (hc : isLetter c ∨ c = 'θ' ∨ c = 'π') :
    Denotes .primary ((letterCode.lookup (String.ofList [c])).getD (String.ofList [c]))
      fun I => I.letter (String.ofList [c]) := by
  rcases hc with hc | rfl | rfl
  · have hother : ∀ d, isLetter d = false → String.ofList [c] ≠ String.ofList [d] := by
      intro d hd h
      obtain rfl := List.singleton_inj.mp (String.ofList_injective h)
      rw [hd] at hc
      cases hc
    have hpi : String.ofList [c] ≠ "π" := hother 'π' rfl
    have htheta : String.ofList [c] ≠ "θ" := hother 'θ' rfl
    have hlookup : letterCode.lookup (String.ofList [c]) = none := by
      rw [letterCode, List.lookup_cons, beq_eq_false_iff_ne.mpr hpi]
      dsimp only
      rw [List.lookup_cons, beq_eq_false_iff_ne.mpr htheta]
      rfl
    rw [hlookup, Option.getD_none]
    refine (denotes_name hc).of_le fun I v hv => ?_
    rwa [Interpretation.letter, if_neg hpi, if_neg htheta] at hv
  · exact denotes_theta
  · exact denotes_pi

theorem codeTokens_callee {f : String} (hf : f ∈ FunctionTable.standard.names) :
    codeTokens (callee .standard f) = [.name (callee .standard f).toList] := by
  have hall : ∀ f ∈ FunctionTable.standard.names,
      codeTokens (callee .standard f) = [.name (callee .standard f).toList] := by
    decide +kernel
  exact hall f hf

/-- A call is written with the name that the entry of its function gives. -/
theorem equivalent?_eq_callee {f : String} (hf : f ∈ FunctionTable.standard.names) :
    equivalent? .standard f = some (callee .standard f) := by
  have hall : ∀ f ∈ FunctionTable.standard.names,
      equivalent? .standard f = some (callee .standard f) := by
    decide +kernel
  exact hall f hf

/-! ## Expressions -/

variable (limit) in
theorem denotes_code (hnamed : e.Named) (hsmall : e.AllLiterals Literal.IsSmall) :
    ∃ text, Shading.code ⟨.standard, limit⟩ e = .ok text ∧
      Denotes (codeLevel limit e) text (meaning .standard e) := by
  induction e with
  | empty => exact hnamed.elim
  | number a =>
    cases a with
    | int n => exact denotes_int hsmall
    | double x => exact hsmall.elim
  | var x =>
    obtain ⟨c, hc, rfl⟩ := hnamed
    exact ⟨_, rfl, denotes_letter hc⟩
  | call f a ih =>
    obtain ⟨text, htext, hdenotes⟩ := ih hnamed.2 hsmall
    refine ⟨_, by rw [Shading.code, htext, ok_bind]; rfl, ?_⟩
    refine (hdenotes.to_sum.call (codeTokens_callee hnamed.1)).of_le fun I v hv => ?_
    rwa [meaning, equivalent?_eq_callee hnamed.1] at hv
  | binary op l r ihl ihr =>
    obtain ⟨a, ha, hl⟩ := ihl hnamed.1 hsmall.1
    obtain ⟨b, hb, hr⟩ := ihr hnamed.2 hsmall.2
    have hjoined : ∀ op, op ≠ equals → op ≠ .power → ∃ text,
        joined limit op l r (Shading.code ⟨.standard, limit⟩ l) (Shading.code ⟨.standard, limit⟩ r)
            = .ok text ∧
          Denotes (codeLevel limit (binary op l r)) text
            (combined op (meaning .standard l) (meaning .standard r)) := by
      intro op hequals hpower
      rw [ha, hb]
      exact denotes_joined hsmall.2 hequals hpower hl hr
    cases op with
    | power =>
      obtain ⟨text, htext, hdenotes⟩ := denotes_power hsmall.1 hsmall.2 hl hr
      refine ⟨text, by rw [Shading.code, ha, hb, htext], hdenotes.of_le fun I v hv => ?_⟩
      rw [meaning] at hv
      cases hinteger : r.integer? with
      | none => simpa [hinteger] using hv
      | some n => simpa [hinteger] using hv
    | equals => exact hjoined minus (by decide) (by decide)
    | plus => exact hjoined plus (by decide) (by decide)
    | minus => exact hjoined minus (by decide) (by decide)
    | times => exact hjoined times (by decide) (by decide)
    | divide => exact hjoined divide (by decide) (by decide)

/-- The code of an expression denotes what the expression means. It is there for every limit of the
exponents that are unrolled, all of its numerals are floating point literals, the language reads it
as one term and as no other, and wherever the expression means a number, the term has that value. -/
theorem code_denotes (limit : Int) (e : Expr) (hnamed : e.Named)
    (hsmall : e.AllLiterals Literal.IsSmall) :
    ∃ text term, Shading.code ⟨.standard, limit⟩ e = .ok text ∧
      (∀ word, .number word ∈ codeTokens text → IsFloating word) ∧
      (∀ t, Reads .sum (codeTokens text) t ↔ t = term) ∧
      ∀ I v, meaning .standard e I = some v → term.value? I = some v := by
  obtain ⟨text, htext, hdenotes⟩ := denotes_code limit hnamed hsmall
  obtain ⟨term, hterm, hvalue⟩ := hdenotes.to_sum.reads
  refine ⟨text, term, htext, hdenotes.floating, fun t => ⟨fun ht => ht.unique hterm, ?_⟩, hvalue⟩
  rintro rfl
  exact hterm

/-- Names other than `x` are one, powers are those of rationals, the logarithm is that of one, and no
other function but the absolute value is defined. -/
def Interpretation.ofX (x : Rat) : Interpretation where
  ofName name := if name = "x" then x else 1
  ofCall f arguments :=
    match f, arguments with
    | "abs", [u] => some |u|
    | "pow", [u, v] => rationalPower? u v
    | "log", [u] => if u = 1 then some 0 else none
    | _, _ => none
  abs _ := rfl
  pow _ _ _ hzero :=
    rationalPower?_intCast_eq_some.mpr ⟨fun h => absurd (hzero h.1) (not_le.mpr h.2), rfl⟩

/-- `(x + ln y) / x ^ -3`. -/
def cubeQuotient : Expr :=
  binary divide (binary plus (var "x") (call "ln" (var "y"))) (binary .power (var "x") (int (-3)))

theorem code_of_cubeQuotient_denotes :
    cubeQuotient.Named ∧ cubeQuotient.AllLiterals Literal.IsSmall ∧
      ∃ text term, Shading.code ⟨.standard, 2⟩ cubeQuotient = .ok text ∧
        text = "(x + log(y))/(1.0/(pow(abs(x), 2.0) * x))" ∧
        (∀ word, .number word ∈ codeTokens text → IsFloating word) ∧
        (∀ t, Reads .sum (codeTokens text) t ↔ t = term) ∧ term.value? (.ofX (-2)) = some 16 := by
  have hx : (var "x").Named := ⟨'x', .inl rfl, rfl⟩
  have hy : (var "y").Named := ⟨'y', .inl rfl, rfl⟩
  have hfunction : "ln" ∈ FunctionTable.standard.names := by decide
  have hnamed : cubeQuotient.Named := ⟨⟨hx, hfunction, hy⟩, hx, trivial⟩
  have hsmall : cubeQuotient.AllLiterals Literal.IsSmall :=
    ⟨⟨trivial, trivial⟩, trivial, (by decide : (-3 : Int).natAbs ≤ 2 ^ 53)⟩
  obtain ⟨text, term, htext, hfloating, hreads, hvalue⟩ := code_denotes 2 cubeQuotient hnamed hsmall
  have hcode : Shading.code ⟨.standard, 2⟩ cubeQuotient
      = .ok "(x + log(y))/(1.0/(pow(abs(x), 2.0) * x))" := by decide +kernel
  have hletter : (Interpretation.ofX (-2)).letter "x" = some (-2) := rfl
  have hlogarithm : meaning .standard (call "ln" (var "y")) (.ofX (-2)) = some 0 := rfl
  have hpower : rationalPower? (-2) ((-3 : Int) : Rat) = some (-1 / 8) :=
    rationalPower?_intCast_eq_some.mpr ⟨by simp, by norm_num⟩
  have hmeaning : meaning .standard cubeQuotient (.ofX (-2)) = some 16 := by
    refine combined_eq_some.mpr ⟨-2, -1 / 8, ?_, ?_, by norm_num [compute?]⟩
    · exact combined_eq_some.mpr ⟨-2, 0, hletter, hlogarithm, by norm_num [compute?]⟩
    · rw [meaning]
      exact Option.bind_eq_some_iff.mpr ⟨-2, hletter, hpower⟩
  exact ⟨hnamed, hsmall, text, term, htext, Except.ok.inj (htext.symm.trans hcode), hfloating,
    hreads, hvalue _ _ hmeaning⟩

end Shading
end Locus
