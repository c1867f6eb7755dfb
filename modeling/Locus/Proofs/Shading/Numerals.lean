import Locus.Proofs.Numeric.Integers
import Locus.Proofs.Shading.Denotation

/-! Numerals of shading code. Digits around a point denote the decimal that they spell, and up to
`2 ^ 53` an integer is written as such digits (`denotes_int`). -/

namespace Locus
set_option autoImplicit false

/-! ## Leading digits -/

theorem Decimal.leadingExponent_spec {d : Decimal} (h : d.digits ≠ 0) :
    (10 : Rat) ^ d.leadingExponent ≤ d.toRat ∧ d.toRat < 10 ^ (d.leadingExponent + 1) := by
  obtain ⟨hlow, hhigh⟩ := Double.length_decimalDigits_bounds h
  have hpos : 0 < (decimalDigits d.digits).length :=
    List.length_pos_iff.mpr (decimalDigits_ne_nil d.digits)
  have hscale : (0 : Rat) < 10 ^ d.exponent := zpow_pos (by norm_num) _
  have hsplit : d.leadingExponent = (((decimalDigits d.digits).length - 1 : Nat) : Int)
      + d.exponent := by
    rw [leadingExponent]
    omega
  have hsplit' : d.leadingExponent + 1 = ((decimalDigits d.digits).length : Int) + d.exponent := by
    rw [leadingExponent]
    omega
  constructor
  · rw [hsplit, zpow_add₀ (by norm_num), zpow_natCast, toRat]
    exact mul_le_mul_of_nonneg_right (by exact_mod_cast hlow) hscale.le
  · rw [hsplit', zpow_add₀ (by norm_num), zpow_natCast, toRat]
    exact mul_lt_mul_of_pos_right (by exact_mod_cast hhigh) hscale

/-- Integers below `10 ^ 16` are written positionally in code. -/
theorem Decimal.render_codeLayout {d : Decimal} {n : Nat} (hvalue : d.toRat = n)
    (hn : n < 10 ^ 16) : d.render codeLayout = d.positional := by
  rw [render]
  refine if_pos ?_
  by_cases hdigits : d.digits = 0
  · exact .inl hdigits
  · obtain ⟨hlow, hhigh⟩ := leadingExponent_spec hdigits
    rw [hvalue] at hlow hhigh
    have hpos : (0 : Rat) < n := (zpow_pos (by norm_num) _).trans_le hlow
    have hone : (10 : Rat) ^ (0 : Int) ≤ n := by
      rw [zpow_zero]
      exact_mod_cast hpos
    have hbound : (n : Rat) < 10 ^ (16 : Int) := by exact_mod_cast hn
    have hbelow := (zpow_lt_zpow_iff_right₀ (by norm_num)).mp (hlow.trans_lt hbound)
    have hfrom := (zpow_lt_zpow_iff_right₀ (by norm_num)).mp (hone.trans_lt hhigh)
    right
    constructor
    · show (-4 : Int) ≤ d.leadingExponent
      omega
    · exact hbelow

namespace Shading

/-! ## Digits around a point -/

section Pointed

variable {d : Decimal} {whole fraction : List Char}

theorem mem_pointed (h : d.IsPointed whole fraction) :
    ∀ c ∈ whole ++ '.' :: fraction, c.isDigit ∨ c = '.' := by
  intro c hc
  rcases List.mem_append.mp hc with hc | hc
  · exact .inl (h.left c hc)
  · rcases List.mem_cons.mp hc with rfl | hc
    · exact .inr rfl
    · exact .inl (h.right c hc)

theorem count_point {s : List Char} (h : ∀ c ∈ s, c.isDigit) : s.count '.' = 0 :=
  List.count_eq_zero.mpr fun hpoint => absurd (h _ hpoint) (by decide)

theorem isMantissa_pointed (h : d.IsPointed whole fraction) :
    isMantissa (whole ++ '.' :: fraction) := by
  have hall : (whole ++ '.' :: fraction).all (fun c => c.isDigit || c == '.') := by
    simpa [-List.all_append, List.all_eq_true] using mem_pointed h
  have hany : (whole ++ '.' :: fraction).any Char.isDigit := by
    obtain ⟨c, rest, rfl⟩ := List.exists_cons_of_ne_nil h.left_ne_nil
    simp [h.left c List.mem_cons_self]
  have hcount : (whole ++ '.' :: fraction).count '.' ≤ 1 := by
    rw [List.count_append, List.count_cons_self, count_point h.left, count_point h.right]
  rw [isMantissa, hall, hany, decide_eq_true hcount]
  rfl

theorem not_isExponentMark {c : Char} (h : c.isDigit ∨ c = '.') : isExponentMark c = false := by
  rcases h with hdigit | rfl
  · have he : c ≠ 'e' := by
      rintro rfl
      cases hdigit
    have hE : c ≠ 'E' := by
      rintro rfl
      cases hdigit
    simp [isExponentMark, he, hE]
  · rfl

theorem numeralValue?_pointed (h : d.IsPointed whole fraction) :
    numeralValue? (whole ++ '.' :: fraction) = some d.toRat := by
  have hmark : ∀ c ∈ whole ++ '.' :: fraction, !isExponentMark c := fun c hc => by
    rw [not_isExponentMark (mem_pointed h c hc), Bool.not_false]
  have hdigits : ∀ c ∈ whole ++ fraction, c.isDigit := fun c hc =>
    (List.mem_append.mp hc).elim (h.left c) (h.right c)
  have hread : Numeral.value (whole ++ '.' :: fraction) = d.toRat := by
    rw [Numeral.value_decimal fun c hc => isDecimalDigit_of_isDigit (h.left c hc),
      ← Numeral.digits_append, digitsValue_digits hdigits, h.value]
  rw [numeralValue?, List.takeWhile_eq_self_iff.mpr hmark, List.dropWhile_eq_nil_iff.mpr hmark,
    if_pos (isMantissa_pointed h), hread]
  simp [Numeral.exponent?]

theorem isWordChar_of_isDigit {c : Char} (h : c.isDigit) : isWordChar c := by
  simp [isWordChar, Char.isAlphanum, h]

theorem isWordChar_pointed (h : d.IsPointed whole fraction) :
    ∀ c ∈ whole ++ '.' :: fraction, isWordChar c := by
  intro c hc
  rcases mem_pointed h c hc with hdigit | rfl
  · exact isWordChar_of_isDigit hdigit
  · rfl

theorem codeTokens_pointed (h : d.IsPointed whole fraction) :
    codeTokens (String.ofList (whole ++ '.' :: fraction))
      = [.number (whole ++ '.' :: fraction)] := by
  have hstarts : startsNumeral (whole ++ '.' :: fraction) := by
    obtain ⟨c, rest, rfl⟩ := List.exists_cons_of_ne_nil h.left_ne_nil
    simp [startsNumeral, h.left c List.mem_cons_self]
  rw [codeTokens, String.toList_ofList, tokensAfter_word (isWordChar_pointed h), List.nil_append,
    finish, if_neg (by simp), wordToken, if_pos hstarts]

end Pointed

theorem denotes_positional (d : Decimal) :
    Denotes .primary d.positional fun _ => some d.toRat := by
  obtain ⟨whole, fraction, htext, h⟩ := d.positional_spec
  rw [htext]
  refine ⟨fun word hword => ?_, .number d.toRat, ?_, fun _ _ hv => hv⟩
  · rw [codeTokens_pointed h, List.mem_singleton, CodeToken.number.injEq] at hword
    rw [hword]
    exact .inl (by simp)
  · rw [codeTokens_pointed h]
    exact .number (numeralValue?_pointed h)

/-! ## Integers -/

theorem denotes_one : Denotes .primary "1.0" fun _ => some 1 := by
  have h := denotes_positional ⟨1, 0⟩
  rwa [Decimal.toRat, Nat.cast_one, zpow_zero, mul_one] at h

/-- A literal below zero is a group with a minus. -/
theorem Denotes.negated {a : String} {q : Quantity} (h : Denotes .primary a q) :
    Denotes .primary ("(" ++ ("-" ++ a) ++ ")") fun I => do return -(← q I) := by
  obtain ⟨t, ht, hvalue⟩ := h.reads
  refine Denotes.paren ⟨fun word hword => h.floating word ?_, .negation t, ?_, fun I v hv => ?_⟩
  · simpa [codeTokens_minus] using hword
  · rw [codeTokens_minus]
    exact .ofProduct (.ofUnary (.negation (.ofPrimary ht)))
  · obtain ⟨x, hx, hv⟩ := Option.bind_eq_some_iff.mp hv
    simpa [Term.value?, hvalue I x hx] using hv

/-- Up to `2 ^ 53` an integer is written in code as a literal of its value. -/
theorem denotes_int {n : Int} (h : n.natAbs ≤ 2 ^ 53) :
    ∃ code, (Literal.int n).code = .ok code ∧ Denotes .primary code fun _ => some (n : Rat) := by
  have hrank := Double.nearestRank_lt_of_le h
  have hnearest : Double.ofMagnitude? (decide (n < 0)) (n.natAbs : Rat)
      = some (.finite (decide (n < 0)) ⟨Double.nearestRank n.natAbs, hrank⟩) :=
    Double.ofMagnitude?_eq_some rfl
  have hvalue : (Double.shortest (Double.nearestRank n.natAbs)).toRat = (n.natAbs : Nat) :=
    Double.toRat_shortest_of_le (Double.magnitude_nearestRank_natCast h) h
  have hrender := Decimal.render_codeLayout hvalue (h.trans_lt (by norm_num))
  have hdenotes := denotes_positional (Double.shortest (Double.nearestRank n.natAbs))
  rw [hvalue] at hdenotes
  have hsmall : ∀ k, 53 < k → n.natAbs < Nat.pow 2 k := fun k hk =>
    h.trans_lt (Nat.pow_lt_pow_right (by decide) hk)
  rw [Literal.code, Literal.unwrappedCode, if_pos (hsmall 1023 (by decide)), Double.nearest,
    hnearest, Option.getD_some, Double.render, hrender, Literal.isNegative]
  by_cases hnegative : n < 0
  · rw [decide_eq_true hnegative]
    refine ⟨_, rfl, hdenotes.negated.of_le fun I v hv => ?_⟩
    have hcast : -((n.natAbs : Nat) : Rat) = n := by
      rw [Nat.cast_natAbs, abs_of_neg hnegative]
      push_cast
      ring
    exact (congrArg some hcast).trans hv
  · rw [decide_eq_false hnegative, if_neg Bool.false_ne_true, String.empty_append]
    refine ⟨_, rfl, hdenotes.of_le fun I v hv => ?_⟩
    have hcast : ((n.natAbs : Nat) : Rat) = n := by
      rw [Nat.cast_natAbs, abs_of_nonneg (not_lt.mp hnegative)]
    exact (congrArg some hcast).trans hv

end Shading
end Locus
