import Mathlib
import Locus.Proofs.Expr.Value
import Locus.Proofs.Numeric.Numeral

/-! The arithmetic of the shading language. Code is split into words and signs, a grammar assigns
terms to it in which products bind tighter than sums and both group to the left, and a term has a
value or none, in exact rational arithmetic. -/

namespace Locus
set_option autoImplicit false

open Locus.Operator

namespace Shading

/-! ## Tokens -/

inductive CodeToken where
  | number (word : List Char)
  | name (word : List Char)
  | sign (c : Char)
deriving DecidableEq, Repr

/-- Characters of numerals and names. -/
def isWordChar (c : Char) : Bool := c.isAlphanum || c == '.' || c == '_'

def startsNumeral (word : List Char) : Bool := word.head?.any fun c => c.isDigit || c == '.'

/-- Whether a character goes on with a word. In the exponent of a numeral also a plus or a minus
does. -/
def continues (word : List Char) (c : Char) : Bool :=
  isWordChar c ||
    (c == '+' || c == '-') && startsNumeral word && word.getLast?.any fun d => d == 'e' || d == 'E'

def wordToken (word : List Char) : CodeToken :=
  if startsNumeral word then .number word else .name word

/-- The token of a finished word, if there is one. -/
def finish (word : List Char) : List CodeToken :=
  if word = [] then [] else [wordToken word]

/-- The token of a character that belongs to no word. Blanks are none. -/
def signToken (c : Char) : List CodeToken :=
  if c.isWhitespace then [] else [.sign c]

/-- The tokens of a text that follows the beginning of a word. -/
def tokensAfter (word : List Char) : List Char → List CodeToken
  | [] => finish word
  | c :: rest =>
    if continues word c then tokensAfter (word ++ [c]) rest
    else finish word ++ signToken c ++ tokensAfter [] rest

def codeTokens (code : String) : List CodeToken := tokensAfter [] code.toList

/-- A character that goes on with no word, not even with an exponent. -/
def Breaks (c : Char) : Prop := isWordChar c = false ∧ c ≠ '+' ∧ c ≠ '-'

instance : DecidablePred Breaks := fun _ => inferInstanceAs (Decidable (_ ∧ _ ∧ _))

theorem Breaks.not_continues {c : Char} (h : Breaks c) (word : List Char) :
    continues word c = false := by
  obtain ⟨hword, hplus, hminus⟩ := h
  simp [continues, hword, hplus, hminus]

theorem tokensAfter_append {c : Char} (h : Breaks c) (word s rest : List Char) :
    tokensAfter word (s ++ c :: rest) = tokensAfter word s ++ tokensAfter [] (c :: rest) := by
  induction s generalizing word with
  | nil =>
    rw [List.nil_append, tokensAfter, tokensAfter, tokensAfter, h.not_continues, h.not_continues]
    simp [finish]
  | cons d s ih =>
    rw [List.cons_append, tokensAfter, tokensAfter]
    split
    · exact ih _
    · rw [ih]
      exact (List.append_assoc ..).symm

/-- Nothing runs on past a character that breaks words. -/
theorem codeTokens_append {a b : String} {c : Char} {s : List Char} (hb : b.toList = c :: s)
    (h : Breaks c) : codeTokens (a ++ b) = codeTokens a ++ codeTokens b := by
  rw [codeTokens, codeTokens, codeTokens, String.toList_append, hb, tokensAfter_append h]

example : codeTokens "1.5e-05*(x - y_2)" = [.number ['1', '.', '5', 'e', '-', '0', '5'], .sign '*',
    .sign '(', .name ['x'], .sign '-', .name ['y', '_', '2'], .sign ')'] := rfl

theorem codeTokens_around {a sep : String} {c : Char} {s : List Char} (hsep : sep.toList = c :: s)
    (h : Breaks c) (b : String) :
    codeTokens (a ++ sep ++ b) = codeTokens a ++ tokensAfter [] (sep.toList ++ b.toList) := by
  have hb : (sep ++ b).toList = c :: (s ++ b.toList) := by
    rw [String.toList_append, hsep, List.cons_append]
  rw [String.append_assoc, codeTokens_append hb h]
  conv_rhs => rw [← String.toList_append, ← codeTokens]

/-- Characters of words are taken into the word at hand. -/
theorem tokensAfter_word_append {s : List Char} (h : ∀ c ∈ s, isWordChar c) (word rest : List Char) :
    tokensAfter word (s ++ rest) = tokensAfter (word ++ s) rest := by
  induction s generalizing word with
  | nil => rw [List.nil_append, List.append_nil]
  | cons c s ih =>
    have hc : continues word c = true := by
      rw [continues, h c List.mem_cons_self, Bool.true_or]
    rw [List.cons_append, tokensAfter, if_pos hc, ih fun d hd => h d (List.mem_cons_of_mem c hd),
      List.append_assoc]
    rfl

theorem tokensAfter_word {s : List Char} (h : ∀ c ∈ s, isWordChar c) (word : List Char) :
    tokensAfter word s = finish (word ++ s) := by
  have happend := tokensAfter_word_append h word []
  rwa [List.append_nil] at happend

/-! ## Numerals -/

/-- Digits, with a point among them or without. -/
def isMantissa (s : List Char) : Bool :=
  s.all (fun c => c.isDigit || c == '.') && s.any Char.isDigit && decide (s.count '.' ≤ 1)

def isExponentMark (c : Char) : Bool := c == 'e' || c == 'E'

/-- The number that a numeral denotes: its mantissa, scaled by its exponent if it has one. -/
def numeralValue? (word : List Char) : Option Rat :=
  let mantissa := word.takeWhile (!isExponentMark ·)
  if isMantissa mantissa then
    (Numeral.exponent? (word.dropWhile (!isExponentMark ·))).map fun k =>
      Numeral.value mantissa * 10 ^ k
  else none

/-- Only a numeral with a point or an exponent is a floating point literal. -/
def IsFloating (word : List Char) : Prop := '.' ∈ word ∨ ∃ c ∈ word, isExponentMark c

/-! ## Terms -/

inductive Term where
  | number (v : Rat)
  | name (x : String)
  | call (f : String) (arguments : List Term)
  | negation (t : Term)
  | binary (op : Operator) (left right : Term)

/-- What code is evaluated in: numbers for names and partial maps for functions, of which two are
given. -/
structure Interpretation where
  ofName : String → Rat
  ofCall : String → List Rat → Option Rat
  abs : ∀ u, ofCall "abs" [u] = some |u|
  pow : ∀ (u : Rat) (n : Int), 0 ≤ u → (u = 0 → 0 ≤ n) → ofCall "pow" [u, n] = some (u ^ n)

mutual

def Term.value? (I : Interpretation) : Term → Option Rat
  | .number v => some v
  | .name x => some (I.ofName x)
  | .call f arguments => do I.ofCall f (← valuesOf? I arguments)
  | .negation t => do return -(← t.value? I)
  | .binary op l r => do op.compute? (← l.value? I) (← r.value? I)

def valuesOf? (I : Interpretation) : List Term → Option (List Rat)
  | [] => some []
  | t :: rest => do return (← t.value? I) :: (← valuesOf? I rest)

end

/-! ## Grammar -/

inductive Level where
  | sum
  | product
  | unary
  | primary
  | opened
deriving DecidableEq, Repr

def sumOperator? : Char → Option Operator
  | '+' => some plus
  | '-' => some minus
  | _ => none

def productOperator? : Char → Option Operator
  | '*' => some times
  | '/' => some divide
  | _ => none

theorem eq_of_productOperator? {c : Char} (h : (productOperator? c).isSome) : c = '*' ∨ c = '/' := by
  unfold productOperator? at h
  split at h
  · exact .inl rfl
  · exact .inr rfl
  · cases h

/-- `Reads level tokens t`: the tokens are of a level and stand for `t`. A call whose parenthesis is
not closed yet is a level of its own. -/
inductive Reads : Level → List CodeToken → Term → Prop
  | ofProduct {i : List CodeToken} {t : Term} : Reads .product i t → Reads .sum i t
  | sum {c : Char} {op : Operator} {i j : List CodeToken} {l r : Term} : Reads .sum i l →
      sumOperator? c = some op → Reads .product j r →
      Reads .sum (i ++ .sign c :: j) (.binary op l r)
  | ofUnary {i : List CodeToken} {t : Term} : Reads .unary i t → Reads .product i t
  | product {c : Char} {op : Operator} {i j : List CodeToken} {l r : Term} : Reads .product i l →
      productOperator? c = some op → Reads .unary j r →
      Reads .product (i ++ .sign c :: j) (.binary op l r)
  | ofPrimary {i : List CodeToken} {t : Term} : Reads .primary i t → Reads .unary i t
  | negation {i : List CodeToken} {t : Term} : Reads .unary i t →
      Reads .unary (.sign '-' :: i) (.negation t)
  | number {word : List Char} {v : Rat} : numeralValue? word = some v →
      Reads .primary [.number word] (.number v)
  | name {word : List Char} : Reads .primary [.name word] (.name (String.ofList word))
  | group {i : List CodeToken} {t : Term} : Reads .sum i t →
      Reads .primary (.sign '(' :: i ++ [.sign ')']) t
  | call {i : List CodeToken} {f : String} {arguments : List Term} :
      Reads .opened i (.call f arguments) → Reads .primary (i ++ [.sign ')']) (.call f arguments)
  | first {word : List Char} {i : List CodeToken} {t : Term} : Reads .sum i t →
      Reads .opened (.name word :: .sign '(' :: i) (.call (String.ofList word) [t])
  | next {i j : List CodeToken} {f : String} {arguments : List Term} {t : Term} :
      Reads .opened i (.call f arguments) → Reads .sum j t →
      Reads .opened (i ++ .sign ',' :: j) (.call f (arguments ++ [t]))

end Shading
end Locus
