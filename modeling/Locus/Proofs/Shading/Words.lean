import Locus.Proofs.Shading.Numerals

/-! Words of shading code. The text of a literal is one word, also where it has an exponent, and a
minus stands before it at most (`isSigned_unwrappedCode`). -/

namespace Locus
set_option autoImplicit false

namespace Shading

/-! ## Numerals -/

section

variable {s : List Char}

theorem codeTokens_word (h : ∀ c ∈ s, isWordChar c) (hne : s ≠ []) :
    codeTokens (String.ofList s) = [wordToken s] := by
  rw [codeTokens, String.toList_ofList, tokensAfter_word h, List.nil_append, finish, if_neg hne]

/-- A numeral with an exponent is one word, though there is a sign in it. -/
theorem tokensAfter_exponent {mantissa exponent : List Char} {sign : Char}
    (hmantissa : ∀ c ∈ mantissa, isWordChar c) (hexponent : ∀ c ∈ exponent, isWordChar c)
    (hstarts : startsNumeral mantissa) (hsign : sign = '+' ∨ sign = '-') :
    tokensAfter [] (mantissa ++ 'e' :: sign :: exponent)
      = [wordToken (mantissa ++ 'e' :: sign :: exponent)] := by
  have hmark : ∀ c ∈ mantissa ++ ['e'], isWordChar c := by
    intro c hc
    rcases List.mem_append.mp hc with hc | hc
    · exact hmantissa c hc
    · obtain rfl := List.mem_singleton.mp hc
      rfl
  have hstarts' : startsNumeral (mantissa ++ ['e']) := by
    cases mantissa with
    | nil => cases hstarts
    | cons c rest => exact hstarts
  have hcontinues : continues (mantissa ++ ['e']) sign := by
    rw [continues, hstarts', List.getLast?_append]
    rcases hsign with rfl | rfl <;> rfl
  have hsplit : mantissa ++ 'e' :: sign :: exponent
      = (mantissa ++ ['e']) ++ sign :: exponent := by
    rw [List.append_assoc]
    rfl
  rw [hsplit, tokensAfter_word_append hmark, List.nil_append, tokensAfter, if_pos hcontinues,
    tokensAfter_word hexponent, List.append_assoc, finish, if_neg (by simp)]
  rfl

theorem codeTokens_scientific (width : Nat) (d : Decimal) :
    ∃ word, codeTokens (d.scientific width) = [wordToken word] := by
  obtain ⟨c, fraction, hdigits⟩ := List.exists_cons_of_ne_nil (decimalDigits_ne_nil d.digits)
  have hall : ∀ a ∈ c :: fraction, a.isDigit := fun a ha =>
    isDigit_of_mem_decimalDigits (hdigits ▸ ha)
  have hmantissa : ∀ a ∈ c :: (if fraction.isEmpty then [] else '.' :: fraction), isWordChar a := by
    intro a ha
    rcases List.mem_cons.mp ha with rfl | ha
    · exact isWordChar_of_isDigit (hall a List.mem_cons_self)
    · split at ha
      · cases ha
      · rcases List.mem_cons.mp ha with rfl | ha
        · rfl
        · exact isWordChar_of_isDigit (hall a (List.mem_cons_of_mem c ha))
  have hstarts : startsNumeral (c :: (if fraction.isEmpty then [] else '.' :: fraction)) := by
    simp [startsNumeral, hall c List.mem_cons_self]
  have hexponent : ∀ a ∈ List.replicate (width - (decimalDigits d.leadingExponent.natAbs).length) '0'
      ++ decimalDigits d.leadingExponent.natAbs, isWordChar a := by
    intro a ha
    rcases List.mem_append.mp ha with ha | ha
    · exact isWordChar_of_isDigit (Decimal.isDigit_of_mem_replicate ha)
    · exact isWordChar_of_isDigit (isDigit_of_mem_decimalDigits ha)
  have hsign : (if d.leadingExponent < 0 then '-' else '+') = '+' ∨
      (if d.leadingExponent < 0 then '-' else '+') = '-' := by
    split <;> simp
  refine ⟨_, Eq.trans ?_ (tokensAfter_exponent hmantissa hexponent hstarts hsign)⟩
  rw [Decimal.scientific, hdigits, codeTokens, String.toList_ofList]
  simp

theorem codeTokens_render (d : Decimal) (layout : DecimalLayout) :
    ∃ word, codeTokens (d.render layout) = [wordToken word] := by
  rw [Decimal.render]
  split
  · obtain ⟨whole, fraction, htext, hpointed⟩ := d.positional_spec
    exact ⟨_, htext ▸ codeTokens_word (isWordChar_pointed hpointed) (by simp)⟩
  · exact codeTokens_scientific _ d

end

/-! ## Literals -/

/-- A word, behind a minus or not. -/
def IsSigned (code : String) : Prop :=
  ∃ word, codeTokens code = [wordToken word] ∨ codeTokens code = [.sign '-', wordToken word]

theorem isSigned_minusIf {negative : Bool} {code : String}
    (h : ∃ word, codeTokens code = [wordToken word]) :
    IsSigned ((if negative then "-" else "") ++ code) := by
  obtain ⟨word, hword⟩ := h
  cases negative with
  | false => exact ⟨word, .inl (by simpa using hword)⟩
  | true => exact ⟨word, .inr (by simpa [codeTokens_minus] using hword)⟩

theorem isSigned_render (x : Double) : IsSigned (x.render codeLayout) := by
  cases x with
  | nan => exact ⟨_, .inl rfl⟩
  | infinite negative =>
    cases negative with
    | false => exact ⟨_, .inl rfl⟩
    | true => exact ⟨_, .inr rfl⟩
  | finite negative rank => exact isSigned_minusIf (codeTokens_render _ _)

theorem isSigned_intText {n : Int} {text : String} (h : intText n = .ok text) :
    IsSigned (text ++ ".0") := by
  have hword : ∃ word, codeTokens (String.ofList (decimalDigits n.natAbs ++ ['.', '0']))
      = [wordToken word] := by
    refine ⟨_, codeTokens_word (fun c hc => ?_) (by simp)⟩
    rcases List.mem_append.mp hc with hc | hc
    · exact isWordChar_of_isDigit (isDigit_of_mem_decimalDigits hc)
    · rcases List.mem_pair.mp hc with rfl | rfl <;> rfl
  have htext : text ++ ".0" = (if decide (n < 0) then "-" else "")
      ++ String.ofList (decimalDigits n.natAbs ++ ['.', '0']) := by
    rw [intText] at h
    split at h
    · cases h
    · cases h
      apply String.toList_injective
      rw [intDigits]
      split <;> simp_all
  rw [htext]
  exact isSigned_minusIf hword

/-- The text of a literal is a word, behind a minus or not. -/
theorem isSigned_unwrappedCode {v : Literal} {text : String} (h : v.unwrappedCode = .ok text) :
    IsSigned text := by
  cases v with
  | int n =>
    rw [Literal.unwrappedCode] at h
    split at h
    · cases h
      exact isSigned_render _
    · split at h
      · next htext =>
        cases h
        exact isSigned_intText htext
      · cases h
  | double x =>
    rw [Literal.unwrappedCode] at h
    cases h
    split
    · exact isSigned_render x
    · next hinfinite =>
      -- what is not finite has no point of its own
      cases x with
      | nan => exact ⟨_, .inl rfl⟩
      | infinite negative =>
        cases negative with
        | false => exact ⟨_, .inl rfl⟩
        | true => exact ⟨_, .inr rfl⟩
      | finite negative rank => exact absurd rfl hinfinite

end Shading
end Locus
