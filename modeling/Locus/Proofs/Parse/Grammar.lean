import Locus.Parse.Basic
import Locus.Proofs.Token.Lexer

/-! The grammar of expressions over tokens. A derivation relates the tokens at hand, those that it
leaves, and the expression that it assigns to what lies between. -/

namespace Locus
set_option autoImplicit false

open Locus.Operator

/-! ## Categories -/

inductive Category where
  | equation
  | sum
  | product
  | unary
  | power
  | atom
deriving DecidableEq, Repr

/-- Whether tokens begin with one of a kind. -/
def StartsWith (kind : TokenKind) (tokens : List Token) : Prop :=
  ∃ t ∈ tokens.head?, t.kind = kind

@[simp]
theorem startsWith_cons {kind : TokenKind} {t : Token} {rest : List Token} :
    StartsWith kind (t :: rest) ↔ t.kind = kind := by
  simp [StartsWith]

/-- Whether a token is a number that `tokens`, which follow it, do not make the base of a power. A
minus in front of such a number belongs to it. -/
def IsSigned (number : Token) (tokens : List Token) : Prop :=
  number.kind = .number ∧ ¬StartsWith (.operator power) tokens

/-- Whether a minus in front of tokens starts a negative literal. -/
def StartsSigned (tokens : List Token) : Prop :=
  ∃ number rest, tokens = number :: rest ∧ IsSigned number rest

@[simp]
theorem startsSigned_cons {t : Token} {rest : List Token} :
    StartsSigned (t :: rest) ↔ IsSigned t rest := by
  constructor
  · rintro ⟨number, tokens, hcons, hsigned⟩
    obtain ⟨rfl, rfl⟩ := List.cons.inj hcons
    exact hsigned
  · exact fun h => ⟨t, rest, rfl, h⟩

/-! ## Derivations -/

/-- `Derives c tokens rest e`: up to `rest`, the tokens are of category `c` and stand for `e`.
Equations, sums and products group to the left, powers to the right. -/
inductive Derives : Category → List Token → List Token → Expr → Prop
  | ofSum {i r : List Token} {e : Expr} : Derives .sum i r e → Derives .equation i r e
  | equals {t : Token} {i m r : List Token} {l e : Expr} :
      Derives .equation i (t :: m) l → t.kind = .operator equals → Derives .sum m r e →
      Derives .equation i r (.binary equals l e)
  | ofProduct {i r : List Token} {e : Expr} : Derives .product i r e → Derives .sum i r e
  | plusMinus {t : Token} {op : Operator} {i m r : List Token} {l e : Expr} :
      Derives .sum i (t :: m) l → t.kind = .operator op → op = plus ∨ op = minus →
      Derives .product m r e → Derives .sum i r (.binary op l e)
  | ofUnary {i r : List Token} {e : Expr} : Derives .unary i r e → Derives .product i r e
  | timesDivide {t : Token} {op : Operator} {i m r : List Token} {l e : Expr} :
      Derives .product i (t :: m) l → t.kind = .operator op → op = times ∨ op = divide →
      Derives .unary m r e → Derives .product i r (.binary op l e)
  | juxtaposed {i m r : List Token} {l e : Expr} :
      Derives .product i m l → ¬StartsWith (.operator minus) m → Derives .unary m r e →
      Derives .product i r (.binary times l e)
  | call {f : Token} {i r : List Token} {e : Expr} :
      f.kind = .function → ¬StartsWith .openParen i → Derives .unary i r e →
      Derives .unary (f :: i) r (.call f.text e)
  | negation {t : Token} {i r : List Token} {e : Expr} :
      t.kind = .operator minus → ¬StartsSigned i → Derives .unary i r e →
      Derives .unary (t :: i) r (.binary times (.int (-1)) e)
  | ofPower {i r : List Token} {e : Expr} : Derives .power i r e → Derives .unary i r e
  | ofAtom {i r : List Token} {e : Expr} : Derives .atom i r e → Derives .power i r e
  | power {t : Token} {i m r : List Token} {l e : Expr} :
      Derives .atom i (t :: m) l → t.kind = .operator power → Derives .unary m r e →
      Derives .power i r (.binary power l e)
  | number {t : Token} {r : List Token} :
      t.kind = .number → Derives .atom (t :: r) r (.number (Numeral.literal t.text.toList))
  | negative {m t : Token} {r : List Token} :
      m.kind = .operator minus → IsSigned t r →
      Derives .atom (m :: t :: r) r (.number (Numeral.literal t.text.toList).neg)
  | name {t : Token} {r : List Token} :
      t.kind = .letter ∨ t.kind = .constant → Derives .atom (t :: r) r (.var t.text)
  | group {o c : Token} {i r : List Token} {e : Expr} :
      o.kind = .openParen → Derives .equation i (c :: r) e → c.kind = .closeParen →
      Derives .atom (o :: i) r e
  | callGroup {f o c : Token} {i r : List Token} {e : Expr} :
      f.kind = .function → o.kind = .openParen → Derives .equation i (c :: r) e →
      c.kind = .closeParen → Derives .atom (f :: o :: i) r (.call f.text e)

/-! ## Tokens -/

/-- What parsing asks of a single token: it is known, its number is in range and its name is not
empty. -/
structure Token.Admissible (t : Token) : Prop where
  known : t.kind ≠ .unknown
  inRange : t.kind = .number → Numeral.InRange t.text.toList
  named : t.kind = .letter ∨ t.kind = .constant ∨ t.kind = .function → t.text ≠ ""

/-- Whether lexing some text gives a token of this kind with this text. -/
def Token.IsLexed (t : Token) : Prop :=
  ∃ text, ∃ u ∈ tokenize FunctionTable.standard.names text, u.kind = t.kind ∧ u.text = t.text

theorem Token.IsLexed.isPlain {t : Token} (h : t.IsLexed) (hkind : t.kind = .number) :
    Numeral.IsPlain t.text.toList := by
  obtain ⟨text, u, hu, hk, ht⟩ := h
  rw [← ht]
  exact tokensFrom_number hu (hk.trans hkind)

/-! ## What derivations consume -/

theorem Derives.suffix {c : Category} {i r : List Token} {e : Expr} (h : Derives c i r e) :
    r <:+ i := by
  induction h with
  | equals _ _ _ ihl ihr | plusMinus _ _ _ _ ihl ihr | timesDivide _ _ _ _ ihl ihr
  | power _ _ _ ihl ihr => exact ihr.trans ((List.suffix_cons _ _).trans ihl)
  | juxtaposed _ _ _ ihl ihr => exact ihr.trans ihl
  | call _ _ _ ih | negation _ _ _ ih => exact ih.trans (List.suffix_cons _ _)
  | number _ | name _ => exact List.suffix_cons _ _
  | negative _ _ => exact (List.suffix_cons _ _).trans (List.suffix_cons _ _)
  | group _ _ _ ih => exact (List.suffix_cons _ _).trans (ih.trans (List.suffix_cons _ _))
  | callGroup _ _ _ _ ih =>
    exact (List.suffix_cons _ _).trans
      (ih.trans ((List.suffix_cons _ _).trans (List.suffix_cons _ _)))
  | _ => assumption

/-- A derivation begins with a token that begins an operand, or with a minus. -/
theorem Derives.head {c : Category} {i r : List Token} {e : Expr} (h : Derives c i r e) :
    ∃ t rest, i = t :: rest ∧ (t.kind.startsOperand ∨ t.kind = .operator minus) := by
  induction h with
  | call hf _ _ _ | callGroup hf _ _ _ _ => exact ⟨_, _, rfl, .inl (by rw [hf]; rfl)⟩
  | negation ht _ _ _ => exact ⟨_, _, rfl, .inr ht⟩
  | number ht => exact ⟨_, _, rfl, .inl (by rw [ht]; rfl)⟩
  | negative hm _ => exact ⟨_, _, rfl, .inr hm⟩
  | name ht => exact ⟨_, _, rfl, .inl (by rcases ht with ht | ht <;> rw [ht] <;> rfl)⟩
  | group ho _ _ _ => exact ⟨_, _, rfl, .inl (by rw [ho]; rfl)⟩
  | _ => assumption

end Locus
