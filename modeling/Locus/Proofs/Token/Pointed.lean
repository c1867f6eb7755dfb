import Locus.Proofs.Token.Spacing

/-! A point behind the digits of an integer. Whether a lexeme runs on into a digit does not depend
on what follows the digit (`Uncrossed.of_digit`), so with a point behind it an integer is one
numeral still, and the tokens around it are the same (`tokensFrom_pointed`). -/

namespace Locus
set_option autoImplicit false

/-! ## Digits and names -/

/-- Digits have no case, and no letter is taken for one. -/
theorem not_sameLetter_digit {a d : Char} (ha : a ∈ lowerLetters) (hd : isDecimalDigit d) :
    ¬sameLetter a d := by
  have hruns : ∀ z ∈ digitZeros, ∀ r ∈ lowerRuns, z + 9 < r.first ∨ r.last < z :=
    forall_mem_of_all (by decide +kernel)
  have hvariants : ∀ z ∈ digitZeros, ∀ variants ∈ letterVariants, ∀ n ∈ variants,
      z + 9 < n ∨ n < z := forall_mem_of_all (by decide +kernel)
  have hletters : ∀ a ∈ lowerLetters, isDecimalDigit a = false := forall_mem_of_all rfl
  obtain ⟨z, hz, k, hk, hcode⟩ := exists_zero_of_isDecimalDigit hd
  have hself : lowerChar d = d := lowerChar_of_no_run fun r hr => by
    have := hruns z hz r hr
    omega
  rw [sameLetter, hself, lowerChar_lowerLetter ha, Bool.or_eq_true]
  rintro (h | h)
  · exact ne_of_isDecimalDigit hd (hletters a ha) (beq_iff_eq.mp h).symm
  · obtain ⟨variants, hmem, hboth⟩ := List.any_eq_true.mp h
    simp only [Bool.and_eq_true, List.contains_iff_mem] at hboth
    have := hvariants z hz variants hmem _ hboth.2
    omega

/-- A name in front of a digit stands there whatever follows the digit. -/
theorem leadingName?_of_digit {names : List String} (hnames : names ⊆ lexedNames) {d : Char}
    (hd : isDecimalDigit d) (p r : List Char) :
    leadingName? names (p ++ d :: r) = leadingName? names p := by
  refine leadingName?_of_le fun found hfound => ?_
  have hmem : found ∈ lexedNames := hnames (List.mem_of_find?_eq_some hfound)
  have hstarts := List.find?_some hfound
  rw [Bool.and_eq_true, startsWithName_append, Bool.and_eq_true] at hstarts
  by_contra hlong
  rw [not_le, ← String.length_toList] at hlong
  obtain ⟨b, more, hrest⟩ := List.exists_cons_of_length_pos (l := found.toList.drop p.length)
    (by rw [List.length_drop]; omega)
  have hb : b ∈ found.toList := List.mem_of_mem_drop (hrest ▸ List.mem_cons_self)
  obtain ⟨-, -, hsame⟩ := hstarts
  rw [hrest, startsWithName, Bool.and_eq_true] at hsame
  exact not_sameLetter_digit ((lexedNames_spelling found hmem).2 b hb) hd hsame.1

/-! ## Numerals in front of a digit -/

section

variable {d : Char} {p q r : List Char}

theorem digitCount_of_digit (hd : isDecimalDigit d) (h : digitCount (p ++ d :: r) ≤ p.length)
    (r' : List Char) : digitCount (p ++ r') = digitCount p := by
  rw [digitCount, List.takeWhile_append] at h
  rw [digitCount, List.takeWhile_append, digitCount]
  split_ifs at h ⊢ with hall
  · rw [List.takeWhile_cons_of_pos hd, List.length_append, List.length_cons] at h
    omega
  · rfl

theorem fractionLength_of_digit {whole : Nat} (hd : isDecimalDigit d)
    (h : fractionLength whole (q ++ d :: r) ≤ q.length) (r' : List Char) :
    fractionLength whole (q ++ d :: r') = fractionLength whole q := by
  cases q with
  | nil => exact fractionLength_of_ne (ne_of_isDecimalDigit hd rfl) whole r'
  | cons c q =>
    rw [List.cons_append] at h ⊢
    by_cases hpoint : c = '.'
    · subst hpoint
      rw [fractionLength] at h
      have hcount : digitCount (q ++ d :: r) ≤ q.length := by
        rw [List.length_cons] at h
        split_ifs at h <;> omega
      rw [fractionLength, fractionLength, digitCount_of_digit hd hcount]
    · rw [fractionLength_of_ne hpoint, fractionLength_of_ne hpoint]

theorem numeralLength_of_digit (hd : isDecimalDigit d)
    (h : numeralLength (p ++ d :: r) ≤ p.length) (r' : List Char) :
    numeralLength (p ++ d :: r') = numeralLength p := by
  have hprefix : digitCount p ≤ p.length := (List.takeWhile_prefix _).length_le
  rw [numeralLength_eq] at h
  have hcount : digitCount (p ++ d :: r) ≤ p.length := Nat.le_of_add_right_le h
  rw [digitCount_of_digit hd hcount, List.drop_append_of_le_length hprefix] at h
  have hfraction : fractionLength (digitCount p) (p.drop (digitCount p) ++ d :: r)
      ≤ (p.drop (digitCount p)).length := by
    rw [List.length_drop]
    omega
  rw [numeralLength_eq, numeralLength_eq, digitCount_of_digit hd hcount,
    List.drop_append_of_le_length hprefix, fractionLength_of_digit hd hfraction]

end

/-! ## Lexemes in front of a digit -/

section

variable {c d : Char} {l r s : List Char}

theorem plainLexeme_of_digit (hd : isDecimalDigit d)
    (h : (plainLexeme c (l ++ d :: r)).more ≤ l.length) (r' : List Char) :
    (plainLexeme c (l ++ d :: r')).more ≤ l.length := by
  by_cases hletter : (c = 'θ' || c = 'π') ∨ isLetter c
  · unfold plainLexeme
    rcases hletter with hgreek | hletter
    · rw [if_pos hgreek]
      exact Nat.zero_le _
    · rw [if_pos hletter]
      split_ifs <;> exact Nat.zero_le _
  · obtain ⟨hgreek, hletter⟩ := not_or.mp hletter
    have hlength := numeralLength_of_digit hd (numeralLength_le_of_plain hgreek hletter h) r'
    have hbound : numeralLength (c :: l) ≤ l.length + 1 := numeralLength_le (c :: l)
    rw [plainLexeme, if_neg hgreek, if_neg hletter, ← List.cons_append, hlength]
    split_ifs
    · show numeralLength (c :: l) - 1 ≤ l.length
      omega
    · exact Nat.zero_le _

theorem more_le_of_digit (hd : isDecimalDigit d)
    (h : (leadingLexeme FunctionTable.standard.names c (l ++ d :: r)).more ≤ l.length)
    (r' : List Char) :
    (leadingLexeme FunctionTable.standard.names c (l ++ d :: r')).more ≤ l.length := by
  have hfunctions : ∀ r, leadingName? FunctionTable.standard.names (c :: (l ++ d :: r))
      = leadingName? FunctionTable.standard.names (c :: l) :=
    leadingName?_of_digit (List.subset_append_left _ _) hd (c :: l)
  have hconstants : ∀ r, leadingName? (constants.map (·.1)) (c :: (l ++ d :: r))
      = leadingName? (constants.map (·.1)) (c :: l) :=
    leadingName?_of_digit (List.subset_append_right _ _) hd (c :: l)
  cases hfunction : leadingName? FunctionTable.standard.names (c :: l) with
  | some found =>
    rw [leadingLexeme_function ((hfunctions r).trans hfunction)] at h
    rwa [leadingLexeme_function ((hfunctions r').trans hfunction)]
  | none =>
    cases hconstant : leadingName? (constants.map (·.1)) (c :: l) with
    | some found =>
      rw [leadingLexeme_constant ((hfunctions r).trans hfunction)
        ((hconstants r).trans hconstant)] at h
      rwa [leadingLexeme_constant ((hfunctions r').trans hfunction)
        ((hconstants r').trans hconstant)]
    | none =>
      rw [leadingLexeme_plain ((hfunctions r).trans hfunction)
        ((hconstants r).trans hconstant)] at h
      rw [leadingLexeme_plain ((hfunctions r').trans hfunction)
        ((hconstants r').trans hconstant)]
      exact plainLexeme_of_digit hd h r'

/-- A text that no lexeme leaves for a digit behind it does not depend on what follows the digit. -/
theorem Uncrossed.of_digit (hd : isDecimalDigit d)
    (h : Uncrossed FunctionTable.standard.names (d :: r) s) (r' : List Char) :
    Uncrossed FunctionTable.standard.names (d :: r') s := by
  induction h with
  | nil => exact .nil
  | blank hc _ ih => exact .blank hc ih
  | lexeme hc hmore _ ih =>
    have hmore' := more_le_of_digit hd hmore r'
    refine .lexeme hc hmore' ?_
    rwa [leadingLexeme_of_le hmore', ← leadingLexeme_of_le hmore]

end

/-! ## A point behind digits -/

/-- What begins with a digit begins with a numeral. -/
theorem leadingLexeme_digit {d : Char} (hd : isDecimalDigit d) (rest : List Char) :
    leadingLexeme FunctionTable.standard.names d rest
      = ⟨.number, String.ofList ((d :: rest).take (numeralLength (d :: rest))),
          numeralLength (d :: rest) - 1⟩ := by
  have hgreek : ¬(d = 'θ' || d = 'π') := by
    have hnot : ∀ a ∈ ['θ', 'π'], isDecimalDigit a = false := forall_mem_of_all rfl
    simp only [Bool.or_eq_true, decide_eq_true_eq, not_or]
    constructor
    · exact ne_of_isDecimalDigit hd (hnot 'θ' (by simp))
    · exact ne_of_isDecimalDigit hd (hnot 'π' (by simp))
  have hletter : ¬isLetter d := by
    have hnot : ∀ a ∈ letters, isDecimalDigit a = false := forall_mem_of_all rfl
    exact fun h => ne_of_isDecimalDigit hd (hnot d (mem_letters_of_isLetter h)) rfl
  have hnumeral : numeralLength (d :: rest) ≠ 0 := by
    rw [numeralLength_eq, digitCount, List.takeWhile_cons_of_pos hd, List.length_cons]
    omega
  rw [leadingLexeme_of_no_name, plainLexeme, if_neg hgreek, if_neg hletter, if_pos hnumeral]
  intro name hname hstarts
  obtain ⟨a, b, more, hletters, ha, -⟩ := exists_letters_of_mem hname
  rw [hletters, startsWithName, Bool.and_eq_true] at hstarts
  exact not_sameLetter_digit ha hd hstarts.1

/-- Behind the digits of an integer stands neither a digit nor a point. -/
theorem head_of_integer {digits after : List Char} (hdigits : ∀ c ∈ digits, isDecimalDigit c)
    (hne : digits ≠ []) (h : numeralLength (digits ++ after) = digits.length) :
    ∀ c ∈ after.head?, isDecimalDigit c = false ∧ c ≠ '.' := by
  cases after with
  | nil => exact fun c hc => nomatch hc
  | cons c after =>
    intro e he
    obtain rfl : c = e := Option.some.inj he
    have hdigit : isDecimalDigit c = false := by
      by_contra hc
      rw [Bool.not_eq_false] at hc
      rw [numeralLength_eq, digitCount, List.takeWhile_append_of_pos hdigits,
        List.takeWhile_cons_of_pos hc, List.length_append, List.length_cons] at h
      omega
    refine ⟨hdigit, ?_⟩
    rintro rfl
    have hpoint : ∀ d ∈ ('.' :: after).head?, isDecimalDigit d = false := by
      intro d hd
      obtain rfl : '.' = d := Option.some.inj hd
      rfl
    have hwhole : digits.length ≠ 0 := fun hzero => hne (List.length_eq_zero_iff.mp hzero)
    rw [numeralLength_eq, digitCount_append hdigits hpoint, List.drop_left, fractionLength,
      if_neg fun hnone => hwhole hnone.1] at h
    omega

/-- A numeral that begins with a digit is a token of its own. -/
theorem lex_digits {d : Char} {s after : List Char} (hd : isDecimalDigit d)
    (h : numeralLength (d :: s ++ after) = (d :: s).length) (position : Nat) :
    lex position (d :: s ++ after)
      = ⟨.number, String.ofList (d :: s), position⟩ :: lex (position + (d :: s).length) after := by
  have hblank : ¬isBlank d := Bool.eq_false_iff.mp (not_isBlank_of_isDecimalDigit hd)
  have hnext : position + 1 + s.length = position + (d :: s).length := by
    rw [List.length_cons]
    omega
  rw [lex, List.cons_append, tokensFrom_lexeme hblank, leadingLexeme_digit hd, ← List.cons_append,
    h, List.take_left, List.length_cons, Nat.add_sub_cancel, List.drop_left, hnext,
    List.length_cons]

/-- Where a token of the kind of numbers begins, a numeral begins that is as long as its text. -/
theorem numeralLength_of_mem {position : Nat} {before s after : List Char} {d : Char}
    (hd : isDecimalDigit d)
    (h : ⟨.number, String.ofList (d :: s), (position + before.length : Nat)⟩
      ∈ lex position (before ++ (d :: s ++ after))) :
    numeralLength (d :: s ++ after) = (d :: s).length := by
  obtain ⟨first, rest, hsplit⟩ := List.append_of_mem h
  obtain ⟨n, hn, hfrom⟩ := exists_drop first hsplit
  obtain rfl : n = before.length := by
    dsimp only at hn
    omega
  have hblank : ¬isBlank d := Bool.eq_false_iff.mp (not_isBlank_of_isDecimalDigit hd)
  rw [List.drop_left, List.cons_append, tokensFrom_lexeme hblank, leadingLexeme_digit hd] at hfrom
  have htake := String.ofList_injective (congrArg Token.text (List.cons.inj hfrom).1)
  rw [← List.length_take_of_le (numeralLength_le (d :: s ++ after))]
  exact congrArg List.length htake

/-- With a point behind it an integer is one numeral still, and what is lexed before and behind it
is the same, moved by the point. -/
theorem tokensFrom_pointed {position : Nat} {before digits after : List Char}
    (hdigits : ∀ c ∈ digits, isDecimalDigit c) (hne : digits ≠ [])
    (h : ⟨.number, String.ofList digits, (position + before.length : Nat)⟩
      ∈ lex position (before ++ (digits ++ after))) :
    ∃ first rest : List Token,
      lex position (before ++ (digits ++ after))
        = first ++ ⟨.number, String.ofList digits, (position + before.length : Nat)⟩ :: rest ∧
      lex position (before ++ (digits ++ '.' :: after))
        = first ++ ⟨.number, String.ofList (digits ++ ['.']), (position + before.length : Nat)⟩ ::
          rest.map (·.shift 1) := by
  obtain ⟨d, s, rfl⟩ := List.exists_cons_of_ne_nil hne
  have hd : isDecimalDigit d := hdigits d List.mem_cons_self
  have hlength := numeralLength_of_mem hd h
  have hstop := head_of_integer hdigits hne hlength
  have hpointed : numeralLength (d :: (s ++ ['.']) ++ after) = (d :: (s ++ ['.'])).length :=
    numeralLength_append (.decimal hdigits (List.forall_mem_nil _) (by simp)) hstop
  have huncrossed := uncrossed_of_mem h rfl
  have hcontinued : Uncrossed FunctionTable.standard.names (d :: (s ++ ['.']) ++ after) before :=
    huncrossed.of_digit hd _
  have hmoved : position + before.length + (d :: (s ++ ['.'])).length
      = position + before.length + (d :: s).length + 1 := by
    simp
    omega
  have hassoc : d :: s ++ '.' :: after = d :: (s ++ ['.']) ++ after := by simp
  refine ⟨lex position before, lex (position + before.length + (d :: s).length) after, ?_, ?_⟩
  · rw [← lex_digits hd hlength]
    exact huncrossed.tokensFrom_append position
  · have hrest := tokensFrom_add FunctionTable.standard.names
      (position + before.length + (d :: s).length) 1 after
    rw [hassoc]
    refine (hcontinued.tokensFrom_append position).trans (congrArg _ ?_)
    refine (lex_digits hd hpointed _).trans (congrArg _ ?_)
    rw [hmoved]
    exact hrest

end Locus
