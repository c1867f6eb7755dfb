import Locus.Proofs.Parse.Completeness
import Locus.Proofs.Parse.Counting
import Locus.Proofs.Token.Splitting

/-! Parsing and the grammar agree. Tokens are parsed exactly if each of them is admissible and the
grammar derives them, and the tree is the one that it assigns (`parsing_follows_grammar`). -/

namespace Locus
set_option autoImplicit false

open Locus.Expr Locus.Operator

/-! ## Single tokens -/

theorem Token.IsRead.admissible {t : Token} (h : t.IsRead)
    (hplain : t.kind = .number → Numeral.IsPlain t.text.toList) : t.Admissible := by
  refine ⟨h.known, fun hk => ?_, h.named⟩
  obtain ⟨v, hv⟩ := Option.isSome_iff_exists.mp (h.number hk)
  exact ((Literal.ofText?_eq_some_iff (hplain hk) v).mp hv).1

theorem Token.Admissible.reads {t : Token} (h : t.Admissible)
    (hplain : t.kind = .number → Numeral.IsPlain t.text.toList) : t.Reads :=
  ⟨fun hk => (Literal.ofText?_eq_some_iff (hplain hk) _).mpr ⟨h.inRange hk, rfl⟩, h.named⟩

/-! ## All tokens -/

/-- Tokens that are parsed are derived. -/
theorem derives_of_parseTokens {tokens : List Token} {e : Expr}
    (hplain : ∀ t ∈ tokens, t.kind = .number → Numeral.IsPlain t.text.toList)
    (h : parseTokens .standard tokens = .ok e) : Derives .equation tokens [] e := by
  obtain ⟨hplaced, hread⟩ := wellPlaced_of_parseTokens h
  obtain ⟨e', hderives⟩ := hplaced.derives
  have h' := hderives.parseTokens_eq_ok fun t ht =>
    ((hread t ht).admissible (hplain t ht)).reads (hplain t ht)
  obtain rfl : e = e' := Except.ok.inj (h.symm.trans h')
  exact hderives

/-- Tokens are parsed to a tree if and only if each is known, in range and named, and the grammar
derives them and assigns this tree to them. -/
theorem parsing_follows_grammar (tokens : List Token)
    (hlexed : ∀ t ∈ tokens, t.kind = .number → t.IsLexed) (e : Expr) :
    parseTokens .standard tokens = .ok e ↔
      (∀ t ∈ tokens, t.Admissible) ∧ Derives .equation tokens [] e := by
  have hplain := fun t ht hk => (hlexed t ht hk).isPlain hk
  constructor
  · intro h
    obtain ⟨hplaced, hread⟩ := wellPlaced_of_parseTokens h
    have hadmissible := fun t ht => (hread t ht).admissible (hplain t ht)
    obtain ⟨e', hderives⟩ := hplaced.derives
    have h' := hderives.parseTokens_eq_ok fun t ht => (hadmissible t ht).reads (hplain t ht)
    obtain rfl : e = e' := Except.ok.inj (h.symm.trans h')
    exact ⟨hadmissible, hderives⟩
  · rintro ⟨hadmissible, hderives⟩
    exact hderives.parseTokens_eq_ok fun t ht => (hadmissible t ht).reads (hplain t ht)

/-- `-2 sin x`. -/
def negatedSine : List Token :=
  [⟨.operator minus, "-", 0⟩, ⟨.number, "2", 1⟩, ⟨.function, "sin", 3⟩, ⟨.letter, "x", 7⟩]

theorem parsing_of_negatedSine :
    (∀ t ∈ negatedSine, t.kind = .number → t.IsLexed) ∧
      parseTokens .standard negatedSine
        = .ok (binary times (int (-2)) (call "sin" (var "x"))) := by
  have hlexed : ∀ t ∈ negatedSine, t.kind = .number → t.IsLexed := by
    have hplain : Numeral.IsPlain ['2'] := .integer (by simp [isDecimalDigit_of_isDigit]) (by simp)
    have hlex := (splits_numeral hplain (by simp) ⟨'2', rfl, rfl⟩).2 0
    intro t ht hk
    simp only [negatedSine, List.mem_cons, List.not_mem_nil, or_false] at ht
    obtain rfl | rfl | rfl | rfl := ht
    · cases hk
    · refine ⟨String.ofList ['2'], ⟨.number, String.ofList ['2'], (0 : Nat)⟩, ?_, rfl, by decide⟩
      have hself : ⟨.number, String.ofList ['2'], (0 : Nat)⟩ ∈ lex 0 ['2'] := by
        rw [hlex]
        exact List.mem_cons_self
      rwa [tokenize, String.toList_ofList]
    · cases hk
    · cases hk
  refine ⟨hlexed, (parsing_follows_grammar negatedSine hlexed _).mpr ⟨?_, ?_⟩⟩
  · have hrange : Numeral.InRange ['2'] := ⟨by decide +kernel, .inr (by decide)⟩
    intro t ht
    simp only [negatedSine, List.mem_cons, List.not_mem_nil, or_false] at ht
    obtain rfl | rfl | rfl | rfl := ht
    · constructor <;> simp
    · exact ⟨by simp, fun _ => hrange, by simp⟩
    · constructor <;> simp
    · constructor <;> simp
  · have hsigned : IsSigned ⟨.number, "2", 1⟩ [⟨.function, "sin", 3⟩, ⟨.letter, "x", 7⟩] :=
      ⟨rfl, by simp⟩
    have hx : Derives .unary [⟨.letter, "x", 7⟩] [] (var "x") :=
      .ofPower (.ofAtom (.name (.inl rfl)))
    have hsine : Derives .unary [⟨.function, "sin", 3⟩, ⟨.letter, "x", 7⟩] []
        (call "sin" (var "x")) := .call rfl (by simp) hx
    exact .ofSum (.ofProduct (.juxtaposed
      (.ofUnary (.ofPower (.ofAtom (.negative rfl hsigned)))) (by simp) hsine))

/-- The grammar alone derives a variable without a name, and nothing but the name is wrong with it.
Parsing refuses it. -/
theorem nameless_variable_not_parsed :
    ¬∀ tokens : List Token, (∀ t ∈ tokens, t.kind = .number → t.IsLexed) → ∀ e,
      (parseTokens .standard tokens = .ok e ↔
        (∀ t ∈ tokens, t.kind ≠ .unknown) ∧
        (∀ t ∈ tokens, t.kind = .number → Numeral.InRange t.text.toList) ∧
        Derives .equation tokens [] e) := by
  intro h
  have hiff := h [⟨.letter, "", 0⟩] (by simp) (var "")
  have hparse := hiff.mpr
    ⟨by simp, by simp, .ofSum (.ofProduct (.ofUnary (.ofPower (.ofAtom (.name (.inl rfl))))))⟩
  cases hparse

end Locus
