import Mathlib.Algebra.Order.Ring.Rat
import Mathlib.Tactic.FieldSimp
import Mathlib.Tactic.Ring
import Locus.Numeric.Literal
import Locus.Token.Lexer

/-! Plain numerals: digits, with or without a point among them. They are the numerals that the
lexer finds, and reading one as a literal gives the number that its digits denote wherever that
number is in range (`Literal.ofText?_eq_some_iff`). -/

namespace Locus
set_option autoImplicit false

/-! ## Characters -/

theorem exists_zero_of_isDecimalDigit {c : Char} (h : isDecimalDigit c) :
    ∃ z ∈ digitZeros, ∃ k < 10, c.toNat = z + k := by
  obtain ⟨d, hd⟩ := Option.isSome_iff_exists.mp h
  obtain ⟨z, hz, -⟩ := Option.map_eq_some_iff.mp hd
  have hrange := List.find?_some hz
  simp only [Bool.and_eq_true, decide_eq_true_eq] at hrange
  exact ⟨z, List.mem_of_find?_eq_some hz, c.toNat - z, by omega, by omega⟩

theorem not_isBlank_of_isDecimalDigit {c : Char} (h : isDecimalDigit c) : isBlank c = false := by
  obtain ⟨z, hz, k, hk, hc⟩ := exists_zero_of_isDecimalDigit h
  have htable : ∀ z ∈ digitZeros, ∀ k < 10,
      CharSet.memberFrom (z + k) false blanks.changes = false := by
    decide +kernel
  rw [isBlank, CharSet.contains, hc]
  exact htable z hz k hk

/-- Below the second script's zero, only the digits of the first script are digits. -/
theorem isDecimalDigit_ascii {c : Char} (h : c.toNat < 0x660) :
    isDecimalDigit c = decide (0x30 ≤ c.toNat ∧ c.toNat < 0x3A) := by
  have hlater : ∀ z ∈ digitZeros.tail, 0x660 ≤ z := by decide
  have hnone : digitZeros.tail.find? (fun z => z ≤ c.toNat && c.toNat < z + 10) = none := by
    rw [List.find?_eq_none]
    intro z hz hmatch
    simp only [Bool.and_eq_true, decide_eq_true_eq] at hmatch
    have := hlater z hz
    omega
  have hzeros : digitZeros = 0x30 :: digitZeros.tail := rfl
  rw [isDecimalDigit, decimalDigit?, hzeros]
  by_cases hdigit : 0x30 ≤ c.toNat ∧ c.toNat < 0x3A
  · rw [List.find?_cons_of_pos (by simpa using hdigit), decide_eq_true hdigit]
    rfl
  · rw [List.find?_cons_of_neg (by simpa using hdigit), hnone, decide_eq_false hdigit]
    rfl

theorem ne_of_isDecimalDigit {c d : Char} (h : isDecimalDigit c) (hd : isDecimalDigit d = false) :
    c ≠ d := by
  rintro rfl
  rw [h] at hd
  cases hd

/-! ## Texts without blanks, signs and underscores -/

theorem trimWhere_eq_self {p : Char → Bool} {s : List Char} (h : ∀ c ∈ s, p c = false) :
    trimWhere p s = s := by
  have hdrop : ∀ l : List Char, (∀ c ∈ l, p c = false) → l.dropWhile p = l := by
    intro l hl
    cases l with
    | nil => rfl
    | cons c rest =>
      rw [List.dropWhile_cons, hl c List.mem_cons_self]
      rfl
  rw [trimWhere, hdrop s h, hdrop s.reverse (fun c hc => h c (List.mem_reverse.mp hc)),
    List.reverse_reverse]

namespace Numeral

theorem joinDigits?_eq_some {s : List Char} (h : ∀ c ∈ s, c ≠ '_') (afterDigit : Bool) :
    joinDigits? afterDigit s = some s := by
  induction s generalizing afterDigit with
  | nil => rfl
  | cons c rest ih =>
    rw [joinDigits?, if_neg (h c List.mem_cons_self),
      ih (fun d hd => h d (List.mem_cons_of_mem c hd))]
    rfl

theorem splitSign_eq_self {s : List Char} (h : ∀ c ∈ s, c ≠ '-' ∧ c ≠ '+') :
    splitSign s = (false, s) := by
  cases s with
  | nil => rfl
  | cons c rest =>
    obtain ⟨hminus, hplus⟩ := h c List.mem_cons_self
    unfold splitSign
    split
    · next heq => exact absurd (List.cons.inj heq).1 hminus
    · next heq => exact absurd (List.cons.inj heq).1 hplus
    · rfl

def IsPart (c : Char) : Prop := isDecimalDigit c = true ∨ c = '.'

theorem IsPart.not_isPadding {c : Char} (h : IsPart c) : isPadding c = false := by
  rcases h with h | rfl
  · rw [isPadding, not_isBlank_of_isDecimalDigit h]
    rfl
  · rfl

theorem IsPart.ne {c d : Char} (h : IsPart c) (hd : isDecimalDigit d = false) (hpoint : d ≠ '.') :
    c ≠ d := by
  rcases h with h | rfl
  · exact ne_of_isDecimalDigit h hd
  · exact hpoint.symm

/-- Reading a plain numeral meets neither blanks nor underscores nor a sign. -/
theorem joinDigits?_of_parts {s : List Char} (h : ∀ c ∈ s, IsPart c) :
    joinDigits? false (trimWhere isPadding s) = some s ∧ splitSign s = (false, s) := by
  constructor
  · rw [trimWhere_eq_self (fun c hc => (h c hc).not_isPadding)]
    exact joinDigits?_eq_some (fun c hc => (h c hc).ne rfl (by decide)) false
  · exact splitSign_eq_self fun c hc => ⟨(h c hc).ne rfl (by decide), (h c hc).ne rfl (by decide)⟩

/-! ## Plain numerals -/

/-- The digits of a text, one after the other. -/
def digits (s : List Char) : List Nat := s.filterMap decimalDigit?

/-- Digits, or digits around a point. -/
inductive IsPlain : List Char → Prop
  | integer {whole : List Char} (hwhole : ∀ c ∈ whole, isDecimalDigit c) (hne : whole ≠ []) :
      IsPlain whole
  | decimal {whole fraction : List Char} (hwhole : ∀ c ∈ whole, isDecimalDigit c)
      (hfraction : ∀ c ∈ fraction, isDecimalDigit c) (hne : whole ++ fraction ≠ []) :
      IsPlain (whole ++ '.' :: fraction)

/-- The number that a plain numeral denotes: each digit after the point divides by ten. -/
def value (s : List Char) : Rat :=
  (digitsValue (digits s) : Rat) / 10 ^ ((s.dropWhile (· != '.')).drop 1).length

/-- The literal that a plain numeral denotes. -/
def literal (s : List Char) : Literal :=
  if '.' ∈ s then .double (Double.nearest false (value s)) else .int (digitsValue (digits s))

/-- Whether a plain numeral is in range: a double can hold its number, and if it has no point it
has no more digits than an integer may have. -/
def InRange (s : List Char) : Prop :=
  (Double.ofRat? (value s)).isSome ∧ ('.' ∈ s ∨ s.length ≤ digitLimit)

theorem length_digits {s : List Char} (h : ∀ c ∈ s, isDecimalDigit c) :
    (digits s).length = s.length := by
  induction s with
  | nil => rfl
  | cons c rest ih =>
    obtain ⟨d, hd⟩ := Option.isSome_iff_exists.mp (h c List.mem_cons_self)
    rw [digits, List.filterMap_cons_some hd, List.length_cons, List.length_cons]
    exact congrArg (· + 1) (ih fun e he => h e (List.mem_cons_of_mem c he))

theorem digits_append (s t : List Char) : digits (s ++ t) = digits s ++ digits t :=
  List.filterMap_append

theorem digits_point (whole fraction : List Char) :
    digits (whole ++ '.' :: fraction) = digits whole ++ digits fraction := by
  rw [digits, List.filterMap_append, List.filterMap_cons_none rfl]
  rfl

theorem point_notMem {s : List Char} (h : ∀ c ∈ s, isDecimalDigit c) : '.' ∉ s := by
  intro hmem
  exact ne_of_isDecimalDigit (h _ hmem) rfl rfl

theorem dropWhile_point {whole : List Char} (h : ∀ c ∈ whole, isDecimalDigit c)
    (rest : List Char) :
    (whole ++ rest).dropWhile (· != '.') = rest.dropWhile (· != '.') := by
  refine List.dropWhile_append_of_pos fun c hc => ?_
  rw [bne_iff_ne]
  exact ne_of_isDecimalDigit (h c hc) rfl

theorem value_integer {whole : List Char} (h : ∀ c ∈ whole, isDecimalDigit c) :
    value whole = digitsValue (digits whole) := by
  have hdrop := dropWhile_point h []
  rw [List.append_nil] at hdrop
  rw [value, hdrop]
  simp

theorem value_decimal {whole fraction : List Char} (hwhole : ∀ c ∈ whole, isDecimalDigit c) :
    value (whole ++ '.' :: fraction)
      = digitsValue (digits whole ++ digits fraction) / 10 ^ fraction.length := by
  rw [value, dropWhile_point hwhole, digits_point]
  rfl

theorem value_nonneg (s : List Char) : 0 ≤ value s := by
  rw [value]
  exact div_nonneg (Nat.cast_nonneg _) (pow_nonneg (by decide) _)

/-! ## Reading -/

theorem splitDigits_append {whole rest : List Char} (h : ∀ c ∈ whole, isDecimalDigit c)
    (hrest : rest.takeWhile isDecimalDigit = []) :
    splitDigits (whole ++ rest) = (digits whole, rest) := by
  have hdrop : rest.dropWhile isDecimalDigit = rest := by
    have := List.takeWhile_append_dropWhile (p := isDecimalDigit) (l := rest)
    rwa [hrest, List.nil_append] at this
  rw [splitDigits, List.takeWhile_append_of_pos h, List.dropWhile_append_of_pos h, hrest, hdrop,
    List.append_nil]
  rfl

theorem splitDigits_all {whole : List Char} (h : ∀ c ∈ whole, isDecimalDigit c) :
    splitDigits whole = (digits whole, []) := by
  have hsplit : splitDigits (whole ++ []) = (digits whole, []) := splitDigits_append h rfl
  rwa [List.append_nil] at hsplit

theorem digits_ne_nil {whole : List Char} (h : ∀ c ∈ whole, isDecimalDigit c) (hne : whole ≠ []) :
    digits whole ≠ [] := by
  rw [← List.length_pos_iff, length_digits h]
  exact List.length_pos_iff.mpr hne

theorem integer?_of_digits {whole : List Char} (h : ∀ c ∈ whole, isDecimalDigit c)
    (hne : whole ≠ []) :
    integer? whole
      = if digitLimit < whole.length then none else some (digitsValue (digits whole) : Int) := by
  obtain ⟨hjoin, hsign⟩ := joinDigits?_of_parts fun c hc => Or.inl (h c hc)
  have hempty : (digits whole).isEmpty = false := by
    simpa using digits_ne_nil h hne
  rw [integer?, hjoin]
  simp only [Option.bind_eq_bind, Option.bind_some, hsign, splitDigits_all h, hempty,
    length_digits h, List.isEmpty_nil, Bool.not_true, Bool.false_eq_true, false_or, Bool.or_eq_true,
    decide_eq_true_eq]
  rfl

theorem decimal?_of_digits {whole fraction : List Char} (hwhole : ∀ c ∈ whole, isDecimalDigit c)
    (hfraction : ∀ c ∈ fraction, isDecimalDigit c) (hne : whole ++ fraction ≠ []) :
    decimal? (whole ++ '.' :: fraction)
      = some (false, ⟨digitsValue (digits whole ++ digits fraction), -fraction.length⟩) := by
  have hparts : ∀ c ∈ whole ++ '.' :: fraction, IsPart c := by
    intro c hc
    rcases List.mem_append.mp hc with hc | hc
    · exact .inl (hwhole c hc)
    · rcases List.mem_cons.mp hc with rfl | hc
      · exact .inr rfl
      · exact .inl (hfraction c hc)
  obtain ⟨hjoin, hsign⟩ := joinDigits?_of_parts hparts
  have hpoint : ('.' :: fraction).takeWhile isDecimalDigit = [] := by
    rw [List.takeWhile_cons, show isDecimalDigit '.' = false from rfl]
    rfl
  have hempty : (digits whole ++ digits fraction).isEmpty = false := by
    have hdigits : ∀ c ∈ whole ++ fraction, isDecimalDigit c := fun c hc =>
      (List.mem_append.mp hc).elim (hwhole c) (hfraction c)
    have := digits_ne_nil hdigits hne
    rw [digits_append] at this
    simpa using this
  rw [decimal?, hjoin]
  simp only [Option.bind_eq_bind, Option.bind_some, hsign, splitDigits_append hwhole hpoint,
    splitPoint, splitDigits_all hfraction, List.head?_cons, if_true, exponent?, hempty,
    List.length_append, length_digits hwhole, length_digits hfraction, Bool.false_eq_true, if_false]
  congr 3
  omega

end Numeral

namespace Double

theorem ofRat?_of_nonneg {v : Rat} (h : 0 ≤ v) : ofRat? v = ofMagnitude? false v := by
  have hv : ¬v < 0 := not_lt.mpr h
  rw [ofRat?, if_neg hv, decide_eq_false hv]

theorem nearest_isFinite (negative : Bool) (v : Rat) :
    (nearest negative v).isFinite = (ofMagnitude? negative v).isSome := by
  unfold nearest ofMagnitude?
  dsimp only
  split <;> rfl

end Double

namespace Literal

open Numeral

/-- What reading a plain numeral gives. Only a numeral out of range is not read. -/
theorem ofText?_eq_some_iff {s : List Char} (h : IsPlain s) (v : Literal) :
    ofText? s = some v ↔ InRange s ∧ v = Numeral.literal s := by
  cases h with
  | integer hwhole hne =>
    have hpoint := point_notMem hwhole
    have hcontains : s.contains '.' = false := by
      simpa using hpoint
    rw [ofText?, hcontains, if_neg Bool.false_ne_true, integer?_of_digits hwhole hne,
      InRange, Numeral.literal, if_neg hpoint, value_integer hwhole]
    by_cases hlength : digitLimit < s.length
    · simp [hlength, hpoint, Nat.not_le.mpr hlength]
    · by_cases hsome : (Double.ofRat? (digitsValue (digits s))).isSome
      · simp [hlength, hsome, Nat.le_of_not_lt hlength, eq_comm]
      · simp [hlength, hsome]
  | @decimal whole fraction hwhole hfraction hne =>
    have hpoint : '.' ∈ whole ++ '.' :: fraction := by simp
    have hcontains : (whole ++ '.' :: fraction).contains '.' = true := by simp
    have hvalue : (⟨digitsValue (digits whole ++ digits fraction), -fraction.length⟩ : Decimal).toRat
        = value (whole ++ '.' :: fraction) := by
      rw [value_decimal hwhole, Decimal.toRat, zpow_neg, zpow_natCast, div_eq_mul_inv]
    rw [ofText?, if_pos hcontains, Double.ofText?, decimal?_of_digits hwhole hfraction hne,
      InRange, Numeral.literal, if_pos hpoint, Double.ofRat?_of_nonneg (value_nonneg _)]
    dsimp only
    rw [hvalue, Double.nearest_isFinite]
    by_cases hsome : (Double.ofMagnitude? false (value (whole ++ '.' :: fraction))).isSome
    · simp [hsome, eq_comm]
    · simp [hsome]

end Literal
end Locus
