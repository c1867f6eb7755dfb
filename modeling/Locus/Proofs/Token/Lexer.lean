import Mathlib.Data.List.TakeWhile
import Locus.Proofs.Numeric.Numeral

/-! What the lexer makes of a text. A token of the kind of numbers holds a plain numeral. -/

namespace Locus
set_option autoImplicit false

/-! ## Numerals -/

theorem take_digitCount (s : List Char) : s.take (digitCount s) = s.takeWhile isDecimalDigit :=
  (List.prefix_iff_eq_take.mp (List.takeWhile_prefix _)).symm

theorem isDecimalDigit_of_mem_takeWhile {s : List Char} {c : Char}
    (h : c ∈ s.takeWhile isDecimalDigit) : isDecimalDigit c :=
  List.mem_takeWhile_imp h

theorem isPlain_leading {s : List Char} (h : numeralLength s ≠ 0) :
    Numeral.IsPlain (s.take (numeralLength s)) := by
  have hlength : (s.take (digitCount s)).length = digitCount s := by
    rw [take_digitCount, digitCount]
  have hwhole : ∀ c ∈ s.take (digitCount s), isDecimalDigit c := fun c hc =>
    isDecimalDigit_of_mem_takeWhile (take_digitCount s ▸ hc)
  unfold numeralLength at h ⊢
  dsimp only at h ⊢
  split at h
  · next rest hrest =>
    have hfraction : ∀ c ∈ rest.take (digitCount rest), isDecimalDigit c := fun c hc =>
      isDecimalDigit_of_mem_takeWhile (take_digitCount rest ▸ hc)
    by_cases hnone : digitCount s = 0 ∧ digitCount rest = 0
    · rw [if_pos (by simpa using hnone)] at h
      exact absurd rfl h
    · rw [if_neg (by simpa using hnone)]
      have htake : s.take (digitCount s + 1 + digitCount rest)
          = s.take (digitCount s) ++ '.' :: rest.take (digitCount rest) := by
        rw [Nat.add_assoc, Nat.add_comm 1, List.take_add, hrest]
        rfl
      rw [htake]
      refine .decimal hwhole hfraction fun hnil => hnone ?_
      obtain ⟨hs, hr⟩ := List.append_eq_nil_iff.mp hnil
      constructor
      · rw [← hlength, hs]
        rfl
      · rw [take_digitCount] at hr
        rw [digitCount, hr]
        rfl
  · refine .integer hwhole fun hnil => h ?_
    rw [← hlength, hnil]
    rfl

/-! ## Lexemes -/

/-- What a text begins with that begins with no name. -/
def plainLexeme (c : Char) (rest : List Char) : Lexeme :=
  if c = 'θ' || c = 'π' then ⟨.constant, constantText [c], 0⟩
  else if isLetter c then ⟨.letter, String.ofList [c], 0⟩
  else if numeralLength (c :: rest) ≠ 0 then
    ⟨.number, String.ofList ((c :: rest).take (numeralLength (c :: rest))),
      numeralLength (c :: rest) - 1⟩
  else ⟨(signKind? c).getD .unknown, String.ofList [c], 0⟩

section

variable {names : List String} {c : Char} {rest : List Char}

theorem leadingLexeme_function {found : String}
    (h : leadingName? names (c :: rest) = some found) : leadingLexeme names c rest
      = ⟨.function, String.ofList (lowerCase ((c :: rest).take found.length)), found.length - 1⟩ := by
  rw [leadingLexeme, h]

theorem leadingLexeme_constant {found : String}
    (hnone : leadingName? names (c :: rest) = none)
    (h : leadingName? (constants.map (·.1)) (c :: rest) = some found) :
    leadingLexeme names c rest
      = ⟨.constant, constantText ((c :: rest).take found.length), found.length - 1⟩ := by
  rw [leadingLexeme, hnone, h]

theorem leadingLexeme_plain (hnone : leadingName? names (c :: rest) = none)
    (hnone' : leadingName? (constants.map (·.1)) (c :: rest) = none) :
    leadingLexeme names c rest = plainLexeme c rest := by
  rw [leadingLexeme, hnone, hnone']
  rfl

end

/-! ## Tokens -/

/-- A sign is neither a number nor the name of a function. -/
theorem signKind?_ne {kind : TokenKind} (hkind : kind = .number ∨ kind = .function) (c : Char) :
    (signKind? c).getD .unknown ≠ kind := by
  unfold signKind?
  rcases hkind with rfl | rfl
  · split <;> exact fun h => nomatch h
  · split <;> exact fun h => nomatch h

theorem leadingLexeme_number {names : List String} {c : Char} {rest : List Char}
    (h : (leadingLexeme names c rest).kind = .number) :
    Numeral.IsPlain (leadingLexeme names c rest).text.toList := by
  unfold leadingLexeme at h ⊢
  dsimp only at h ⊢
  split at h
  · cases h
  · split at h
    · cases h
    · split_ifs at h ⊢ with hconstant hletter hnumeral
      · rw [String.toList_ofList]
        exact isPlain_leading hnumeral
      · exact absurd h (signKind?_ne (.inl rfl) c)

/-- Each token is the lexeme that the text begins with at some place. -/
theorem exists_lexeme_of_mem {names : List String} {position : Nat} {s : List Char} {t : Token}
    (ht : t ∈ tokensFrom names position s) :
    ∃ c rest, t.kind = (leadingLexeme names c rest).kind ∧
      t.text = (leadingLexeme names c rest).text := by
  induction position, s using tokensFrom.induct names with
  | case1 position =>
    rw [tokensFrom] at ht
    cases ht
  | case2 position c rest hblank ih =>
    rw [tokensFrom, if_pos hblank] at ht
    exact ih ht
  | case3 position c rest hblank lexeme ih =>
    rw [tokensFrom, if_neg hblank] at ht
    rcases List.mem_cons.mp ht with rfl | ht
    · exact ⟨c, rest, rfl, rfl⟩
    · exact ih ht

theorem tokensFrom_number {names : List String} {position : Nat} {s : List Char} {t : Token}
    (ht : t ∈ tokensFrom names position s) (h : t.kind = .number) :
    Numeral.IsPlain t.text.toList := by
  obtain ⟨c, rest, hkind, htext⟩ := exists_lexeme_of_mem ht
  rw [htext]
  exact leadingLexeme_number (hkind.symm.trans h)

end Locus
