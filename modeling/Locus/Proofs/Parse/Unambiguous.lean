import Mathlib.Tactic.NormNum
import Locus.Proofs.Parse.Completeness
import Locus.Proofs.Simplify.Literals

/-! The grammar is unambiguous. Parsing shows it for tokens that can be read. All other numbers are
replaced by small ones first: what a derivation does with a number does not depend on its digits, so
one number at a time can be marked, and two derivations of one list agree on where it goes. -/

namespace Locus
set_option autoImplicit false

open Locus.Expr Locus.Operator

/-! ## Signs -/

namespace Literal

theorem neg_neg (v : Literal) : v.neg.neg = v := by
  match v with
  | int n => simp [neg]
  | double .nan => rfl
  | double (.infinite negative) => simp [neg, Double.neg]
  | double (.finite negative rank) => simp [neg, Double.neg]

theorem neg_eq_iff {v w : Literal} : v.neg = w ↔ v = w.neg := by
  constructor
  · rintro rfl
    rw [neg_neg]
  · rintro rfl
    rw [neg_neg]

/-- A literal as a numeral denotes it, without a sign. -/
def Unsigned : Literal → Prop
  | int n => 0 ≤ n
  | double .nan => False
  | double (.infinite negative) | double (.finite negative _) => negative = false

@[simp]
theorem unsigned_int {n : Int} : (int n).Unsigned ↔ 0 ≤ n := Iff.rfl

theorem unsigned_literal (s : List Char) : (Numeral.literal s).Unsigned := by
  rw [Numeral.literal]
  split_ifs
  · rw [Double.nearest, Double.ofMagnitude?]
    split_ifs
    · rfl
    · rfl
  · exact Int.natCast_nonneg _

theorem Unsigned.eq_zero {v : Literal} (h : v.Unsigned) (hneg : v.neg.Unsigned) : v = int 0 := by
  match v with
  | int n =>
    have hn : 0 ≤ n := h
    have hn' : 0 ≤ -n := hneg
    rw [show n = 0 by omega]
  | double (.infinite negative) | double (.finite negative rank) =>
    have hfalse : negative = false := h
    subst hfalse
    cases hneg

/-! ## Marks -/

/-- A literal that can be told from what an operator supplies. -/
structure Markable (chosen : Literal) : Prop where
  unsigned : chosen.Unsigned
  ne_zero : chosen ≠ int 0
  ne_one : chosen ≠ int 1

theorem Markable.ne_neg {chosen v : Literal} (h : Markable chosen) (hv : v.Unsigned) :
    v ≠ chosen.neg := by
  rintro rfl
  exact h.ne_zero (h.unsigned.eq_zero hv)

/-- Two where a literal is the chosen one, and zero where it is another; one stays. -/
def mark (chosen v : Literal) : Literal :=
  if v = chosen then int 2
  else if v = chosen.neg then int (-2)
  else if v = int 1 then int 1
  else if v = int (-1) then int (-1)
  else int 0

variable {chosen v w : Literal}

theorem mark_self (chosen : Literal) : mark chosen chosen = int 2 := if_pos rfl

theorem mark_neg_self (h : Markable chosen) : mark chosen chosen.neg = int (-2) := by
  rw [mark, if_neg (h.ne_neg h.unsigned).symm, if_pos rfl]

theorem mark_neg (h : Markable chosen) (v : Literal) :
    mark chosen v.neg = (mark chosen v).neg := by
  by_cases hv : v = chosen
  · rw [hv, mark_neg_self h, mark_self]
    rfl
  · by_cases hv' : v = chosen.neg
    · rw [hv', neg_neg, mark_neg_self h, mark_self]
      rfl
    · have hneg : v.neg ≠ chosen := fun h => hv' (neg_eq_iff.mp h)
      have hneg' : v.neg ≠ chosen.neg := fun h => hv (by rw [neg_eq_iff.mp h, neg_neg])
      rw [mark, mark, if_neg hv, if_neg hv', if_neg hneg, if_neg hneg']
      by_cases hone : v = int 1
      · subst hone
        rfl
      · have hminusOne : v.neg ≠ int (-1) := fun h => hone (neg_eq_iff.mp h)
        rw [if_neg hone, if_neg hminusOne]
        by_cases hminusOne : v = int (-1)
        · subst hminusOne
          rfl
        · have hone : v.neg ≠ int 1 := fun h => hminusOne (neg_eq_iff.mp h)
          rw [if_neg hone, if_neg hminusOne]
          rfl

theorem mark_of_unsigned (h : Markable chosen) (hv : v.Unsigned) :
    mark chosen v = if v = chosen then int 2 else if v = int 1 then int 1 else int 0 := by
  have hminusOne : v ≠ int (-1) := by
    rintro rfl
    exact absurd hv (by simp)
  rw [mark, if_neg (h.ne_neg hv), if_neg hminusOne]

/-- A literal or its opposite is unsigned. -/
def HasSign (v : Literal) : Prop := v.Unsigned ∨ v.neg.Unsigned

theorem HasSign.cases (h : v.HasSign) :
    (v = int 0 ∨ v = int 1 ∨ v = int (-1)) ∨
      ∃ chosen, Markable chosen ∧ (v = chosen ∨ v = chosen.neg) := by
  by_cases hsmall : v = int 0 ∨ v = int 1 ∨ v = int (-1)
  · exact .inl hsmall
  · simp only [not_or] at hsmall
    obtain ⟨hzero, hone, hminusOne⟩ := hsmall
    rcases h with h | h
    · exact .inr ⟨v, ⟨h, hzero, hone⟩, .inl rfl⟩
    · refine .inr ⟨v.neg, ⟨h, ?_, ?_⟩, .inr (neg_neg v).symm⟩
      · exact fun hv => hzero (neg_eq_iff.mp hv)
      · exact fun hv => hminusOne (neg_eq_iff.mp hv)

/-- The chosen literal and its opposite are the only ones that get their marks. -/
theorem eq_of_mark_chosen (h : Markable chosen) (hv : v = chosen ∨ v = chosen.neg)
    (hmark : mark chosen v = mark chosen w) : v = w := by
  rcases hv with rfl | rfl
  · by_contra hw
    rw [mark_self, mark, if_neg (Ne.symm hw)] at hmark
    split_ifs at hmark <;> simp at hmark
  · by_contra hw
    rw [mark_neg_self h, mark, if_neg (Ne.symm hw)] at hmark
    split_ifs at hmark <;> simp at hmark

/-- Literals that every choice marks alike are the same. -/
theorem eq_of_mark (hv : v.HasSign) (hw : w.HasSign)
    (h : ∀ chosen, Markable chosen → mark chosen v = mark chosen w) : v = w := by
  rcases hv.cases with hsmall | ⟨chosen, hchosen, hvalue⟩
  · rcases hw.cases with hsmall' | ⟨chosen, hchosen, hvalue⟩
    · have htwo := h (int 2) ⟨by simp, by simp, by simp⟩
      rcases hsmall with rfl | rfl | rfl <;> rcases hsmall' with rfl | rfl | rfl <;>
        first | rfl | exact absurd htwo (by decide)
    · exact (eq_of_mark_chosen hchosen hvalue (h chosen hchosen).symm).symm
  · exact eq_of_mark_chosen hchosen hvalue (h chosen hchosen)

end Literal

/-! ## Marked expressions -/

theorem Expr.eq_of_mark {e e' : Expr} (he : e.AllLiterals Literal.HasSign)
    (he' : e'.AllLiterals Literal.HasSign)
    (h : ∀ chosen, Literal.Markable chosen →
      e.mapLiterals (Literal.mark chosen) = e'.mapLiterals (Literal.mark chosen)) : e = e' := by
  -- some literal can be chosen, so the hypothesis is not empty
  have htwo := h (.int 2) ⟨by simp, by simp, by simp⟩
  induction e generalizing e' with
  | empty | var x => cases e' <;> first | exact htwo | cases htwo
  | number v =>
    cases e' with
    | number w =>
      exact congrArg number (Literal.eq_of_mark he he' fun chosen hchosen =>
        number.inj (h chosen hchosen))
    | _ => cases htwo
  | call f a ih =>
    cases e' with
    | call g b =>
      obtain ⟨rfl, htwo'⟩ := call.inj htwo
      exact congrArg (call f) (ih he he' (fun chosen hchosen =>
        (call.inj (h chosen hchosen)).2) htwo')
    | _ => cases htwo
  | binary op l r ihl ihr =>
    cases e' with
    | binary op' l' r' =>
      obtain ⟨rfl, hl, hr⟩ := binary.inj htwo
      rw [ihl he.1 he'.1 (fun chosen hchosen => (binary.inj (h chosen hchosen)).2.1) hl,
        ihr he.2 he'.2 (fun chosen hchosen => (binary.inj (h chosen hchosen)).2.2) hr]
    | _ => cases htwo

/-! ## Other numbers -/

/-- Tokens change in their numbers only, and these as a map of literals says. -/
structure Renumbers (f : Literal → Literal) (g : Token → Token) : Prop where
  kind : ∀ t, (g t).kind = t.kind
  text : ∀ t, t.kind ≠ .number → (g t).text = t.text
  literal : ∀ t, t.kind = .number →
    Numeral.literal (g t).text.toList = f (Numeral.literal t.text.toList)
  neg : ∀ v, f v.neg = (f v).neg
  minusOne : f (.int (-1)) = .int (-1)

section

variable {f : Literal → Literal} {g : Token → Token} {t : Token} {tokens i r : List Token} {e : Expr}
  {c : Category}

theorem startsWith_map (hkind : ∀ t, (g t).kind = t.kind) {kind : TokenKind} :
    StartsWith kind (tokens.map g) ↔ StartsWith kind tokens := by
  cases tokens with
  | nil => rfl
  | cons t rest => rw [List.map_cons, startsWith_cons, startsWith_cons, hkind]

theorem isSigned_map (hkind : ∀ t, (g t).kind = t.kind) :
    IsSigned (g t) (tokens.map g) ↔ IsSigned t tokens := by
  rw [IsSigned, IsSigned, hkind, startsWith_map hkind]

theorem startsSigned_map (hkind : ∀ t, (g t).kind = t.kind) :
    StartsSigned (tokens.map g) ↔ StartsSigned tokens := by
  cases tokens with
  | nil => rfl
  | cons t rest => rw [List.map_cons, startsSigned_cons, startsSigned_cons, isSigned_map hkind]

/-- A derivation goes the same way with other numbers. -/
theorem Derives.renumbered (hg : Renumbers f g) (h : Derives c i r e) :
    Derives c (i.map g) (r.map g) (e.mapLiterals f) := by
  have hother : ∀ {t : Token} {kind : TokenKind}, t.kind = kind → (g t).kind = kind := fun ht =>
    (hg.kind _).trans ht
  induction h with
  | ofSum _ ih => exact .ofSum ih
  | ofProduct _ ih => exact .ofProduct ih
  | ofUnary _ ih => exact .ofUnary ih
  | ofPower _ ih => exact .ofPower ih
  | ofAtom _ ih => exact .ofAtom ih
  | equals _ ht _ ihl ihr => exact .equals ihl (hother ht) ihr
  | plusMinus _ ht hop _ ihl ihr => exact .plusMinus ihl (hother ht) hop ihr
  | timesDivide _ ht hop _ ihl ihr => exact .timesDivide ihl (hother ht) hop ihr
  | juxtaposed _ hminus _ ihl ihr =>
    exact .juxtaposed ihl (by rwa [startsWith_map hg.kind]) ihr
  | @call t _ _ _ ht hopen _ ih =>
    rw [List.map_cons, mapLiterals, ← hg.text t (by rw [ht]; decide)]
    exact .call (hother ht) (by rwa [startsWith_map hg.kind]) ih
  | negation ht hsign _ ih =>
    rw [List.map_cons, mapLiterals, Expr.int, mapLiterals, hg.minusOne]
    exact .negation (hother ht) (by rwa [startsSigned_map hg.kind]) ih
  | power _ ht _ ihl ihr => exact .power ihl (hother ht) ihr
  | number ht =>
    rw [List.map_cons, mapLiterals, ← hg.literal _ ht]
    exact .number (hother ht)
  | negative hm ht =>
    rw [List.map_cons, List.map_cons, mapLiterals, hg.neg, ← hg.literal _ ht.1]
    exact .negative (hother hm) ((isSigned_map hg.kind).mpr ht)
  | @name t _ ht =>
    have htext : (g t).text = t.text :=
      hg.text t (by rcases ht with ht | ht <;> rw [ht] <;> decide)
    rw [List.map_cons, mapLiterals, ← htext]
    exact .name (by rwa [hg.kind])
  | group ho _ hclose ih => exact .group (hother ho) ih (hother hclose)
  | @callGroup t _ _ _ _ _ ht ho _ hclose ih =>
    rw [List.map_cons, List.map_cons, mapLiterals, ← hg.text t (by rw [ht]; decide)]
    exact .callGroup (hother ht) (hother ho) ih (hother hclose)

end

/-! ## Marked tokens -/

/-- The numeral of a marked number. -/
def markedText (chosen : Literal) (s : List Char) : String :=
  if Numeral.literal s = chosen then "2" else if Numeral.literal s = .int 1 then "1" else "0"

def Token.mark (chosen : Literal) (t : Token) : Token :=
  if t.kind = .number then { t with text := markedText chosen t.text.toList } else t

variable {chosen : Literal} {t : Token} {tokens i r : List Token} {e e' : Expr} {c : Category}

theorem literal_markedText (h : chosen.Markable) (s : List Char) :
    Numeral.literal (markedText chosen s).toList = Literal.mark chosen (Numeral.literal s) := by
  rw [markedText, Literal.mark_of_unsigned h (Literal.unsigned_literal s)]
  split_ifs <;> decide

@[simp]
theorem Token.mark_kind (chosen : Literal) (t : Token) : (t.mark chosen).kind = t.kind := by
  rw [Token.mark]
  split_ifs <;> rfl

theorem Token.mark_of_ne (h : t.kind ≠ .number) : t.mark chosen = t := if_neg h

theorem Token.mark_text (h : t.kind = .number) :
    (t.mark chosen).text = markedText chosen t.text.toList := by
  rw [Token.mark, if_pos h]

theorem Token.reads_mark (h : t.kind = .letter ∨ t.kind = .constant ∨ t.kind = .function →
    t.text ≠ "") : (t.mark chosen).Reads := by
  constructor
  · intro hk
    rw [Token.mark_kind] at hk
    rw [Token.mark_text hk, markedText]
    split_ifs <;> decide +kernel
  · intro hk
    rw [Token.mark_kind] at hk
    have hne : t.kind ≠ .number := by
      rintro hn
      rw [hn] at hk
      rcases hk with hk | hk | hk <;> cases hk
    rw [Token.mark_of_ne hne]
    exact h hk

/-! ## Marked derivations -/

theorem Derives.hasSign (h : Derives c i r e) : e.AllLiterals Literal.HasSign := by
  induction h with
  | equals _ _ _ ihl ihr | plusMinus _ _ _ _ ihl ihr | timesDivide _ _ _ _ ihl ihr
  | power _ _ _ ihl ihr | juxtaposed _ _ _ ihl ihr => exact ⟨ihl, ihr⟩
  | negation _ _ _ ih => exact ⟨.inr (by simp [Literal.neg]), ih⟩
  | number _ => exact .inl (Literal.unsigned_literal _)
  | negative _ _ =>
    refine .inr ?_
    rw [Literal.neg_neg]
    exact Literal.unsigned_literal _
  | name _ => trivial
  | _ => assumption

theorem renumbers_mark (h : chosen.Markable) :
    Renumbers (Literal.mark chosen) (Token.mark chosen) where
  kind := Token.mark_kind chosen
  text := fun t ht => by rw [Token.mark_of_ne ht]
  literal := fun t ht => by rw [Token.mark_text ht, literal_markedText h]
  neg := Literal.mark_neg h
  minusOne := by
    have hone : Literal.mark chosen (.int 1) = .int 1 := by
      rw [Literal.mark_of_unsigned h (by simp), if_neg h.ne_one.symm, if_pos rfl]
    have hneg := Literal.mark_neg h (.int 1)
    rwa [hone] at hneg

/-- The grammar assigns one tree to a list of tokens, whether its numbers are in range or not. -/
theorem Derives.unique
    (hnamed : ∀ t ∈ tokens, t.kind = .letter ∨ t.kind = .constant ∨ t.kind = .function →
      t.text ≠ "")
    (h : Derives .equation tokens [] e) (h' : Derives .equation tokens [] e') : e = e' := by
  refine Expr.eq_of_mark h.hasSign h'.hasSign fun chosen hchosen => ?_
  have hreads : ∀ t ∈ tokens.map (Token.mark chosen), t.Reads := by
    intro t ht
    obtain ⟨u, hu, rfl⟩ := List.mem_map.mp ht
    exact Token.reads_mark (hnamed u hu)
  have hparse := (h.renumbered (renumbers_mark hchosen)).parseTokens_eq_ok hreads
  rw [(h'.renumbered (renumbers_mark hchosen)).parseTokens_eq_ok hreads, Except.ok.injEq] at hparse
  exact hparse.symm

end Locus
