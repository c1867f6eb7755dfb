import Locus.Proofs.Numeric.Digits
import Locus.Proofs.Token.Alphabet

/-! Where lexing splits. A text over the alphabet whose last character does not run on into what
follows is lexed by itself, and what follows by itself (`Splits`). -/

namespace Locus
set_option autoImplicit false

/-- Lexing with the standard names. -/
abbrev lex (position : Nat) (s : List Char) : List Token :=
  tokensFrom FunctionTable.standard.names position s

/-! ## Characters that stand apart -/

/-- The second of two characters does not go on with a numeral or a name that the first one ends
or begins. -/
structure Apart (a b : Char) : Prop where
  known : b ∈ alphabet
  numeral : a.isDigit → ¬(b.isDigit ∨ b = '.')
  name : ¬BeginsName a b

/-- A text does not run on into what follows. -/
def Clear (s rest : List Char) : Prop :=
  ∀ a ∈ s.getLast?, ∀ b ∈ rest.head?, Apart a b

theorem clear_nil (s : List Char) : Clear s [] := fun _ _ _ hb => nomatch hb

theorem clear_append {s t : List Char} (ht : t ≠ []) (rest : List Char) :
    Clear (s ++ t) rest ↔ Clear t rest := by
  rw [Clear, Clear, List.getLast?_append_of_ne_nil s ht]

theorem clear_append_right {s t : List Char} (ht : t ≠ []) (rest : List Char) :
    Clear s (t ++ rest) ↔ Clear s t := by
  cases t with
  | nil => exact absurd rfl ht
  | cons c t => rfl

/-- What follows is apart from anything if it begins with a mark that no numeral holds. -/
theorem clear_mark (s : List Char) {c : Char} (hc : c ∈ marks) (hdigit : c.isDigit = false)
    (hpoint : c ≠ '.') (rest : List Char) : Clear s (c :: rest) := by
  intro a _ b hb
  rw [List.head?_cons, Option.mem_some_iff] at hb
  subst hb
  refine ⟨List.mem_append_right _ hc, fun _ h => ?_,
    fun h => not_mark_of_beginsName h (by simp) hc⟩
  rcases h with h | h
  · rw [hdigit] at h
    cases h
  · exact hpoint h

/-! ## Splitting -/

/-- Lexing a text does not depend on what follows it, nor does lexing what follows depend on it. -/
def Splits (s : List Char) : Prop :=
  ∀ position rest, Clear s rest →
    lex position (s ++ rest) = lex position s ++ lex (position + s.length) rest

theorem lex_nil (position : Nat) : lex position [] = [] := by
  rw [lex, tokensFrom]

theorem lex_append {s t : List Char} (hs : Splits s) (h : Clear s t) (position : Nat) :
    lex position (s ++ t) = lex position s ++ lex (position + s.length) t := hs position t h

theorem Splits.append {s t : List Char} (hs : Splits s) (ht : Splits t) (hne : t ≠ [])
    (h : Clear s t) : Splits (s ++ t) := by
  intro position rest hrest
  rw [List.append_assoc, hs position (t ++ rest) ((clear_append_right hne rest).mpr h),
    ht _ rest ((clear_append hne rest).mp hrest), hs position t h, List.append_assoc,
    List.length_append, Nat.add_assoc]

theorem isBlank_of_mem_alphabet : ∀ c ∈ alphabet, c ≠ ' ' → isBlank c = false :=
  forall_mem_of_all rfl

/-- A text that is one lexeme whatever follows it. -/
theorem splits_lexeme {c : Char} {s : List Char} {kind : TokenKind} {text : String}
    (hc : c ∈ alphabet) (hblank : c ≠ ' ')
    (h : ∀ rest, Clear (c :: s) rest →
      leadingLexeme FunctionTable.standard.names c (s ++ rest) = ⟨kind, text, s.length⟩) :
    Splits (c :: s) ∧ ∀ position, lex position (c :: s) = [⟨kind, text, position⟩] := by
  have hnot : ¬isBlank c = true := by
    rw [isBlank_of_mem_alphabet c hc hblank]
    exact Bool.false_ne_true
  have hstep : ∀ position rest, Clear (c :: s) rest →
      lex position (c :: s ++ rest)
        = ⟨kind, text, position⟩ :: lex (position + (c :: s).length) rest := by
    intro position rest hrest
    rw [lex, List.cons_append, tokensFrom, if_neg hnot]
    dsimp only
    rw [h rest hrest, List.drop_left, List.length_cons, Nat.add_assoc, Nat.add_comm 1]
  have hself : ∀ position, lex position (c :: s) = [⟨kind, text, position⟩] := by
    intro position
    have := hstep position [] (clear_nil _)
    rwa [List.append_nil, lex_nil] at this
  refine ⟨fun position rest hrest => ?_, hself⟩
  rw [hstep position rest hrest, hself]
  rfl

theorem splits_space : Splits [' '] ∧ ∀ position, lex position [' '] = [] := by
  have hblank : isBlank ' ' = true := rfl
  have hstep : ∀ position rest, lex position (' ' :: rest) = lex (position + 1) rest := by
    intro position rest
    rw [lex, tokensFrom, if_pos hblank]
  refine ⟨fun position rest _ => ?_, fun position => ?_⟩
  · rw [List.singleton_append, hstep, hstep, lex_nil]
    rfl
  · rw [hstep, lex_nil]

/-! ## Lexemes -/

theorem leadingName?_eq_none {names : List String} {s : List Char}
    (h : ∀ name ∈ names, ¬startsWithName name.toList s) : leadingName? names s = none := by
  rw [leadingName?, List.find?_eq_none]
  intro name hname hbegins
  rw [Bool.and_eq_true] at hbegins
  exact h name hname hbegins.2

/-- What is not the beginning of a name is a letter, a numeral or a sign. -/
theorem leadingLexeme_of_no_name {c : Char} {rest : List Char}
    (h : ∀ name ∈ lexedNames, ¬startsWithName name.toList (c :: rest)) :
    leadingLexeme FunctionTable.standard.names c rest = plainLexeme c rest :=
  leadingLexeme_plain
    (leadingName?_eq_none fun name hname => h name (List.mem_append_left _ hname))
    (leadingName?_eq_none fun name hname => h name (List.mem_append_right _ hname))

theorem constantText_letter : ∀ c ∈ ['θ', 'π'], constantText [c] = String.ofList [c] :=
  forall_mem_of_all rfl

theorem isLetter_of_mem_letters : ∀ c ∈ letters, ¬(c = 'θ' ∨ c = 'π') → isLetter c :=
  forall_mem_of_all rfl

theorem splits_letter {c : Char} (hc : c ∈ letters) :
    ∃ kind, (kind = .letter ∨ kind = .constant) ∧ Splits [c] ∧
      ∀ position, lex position [c] = [⟨kind, String.ofList [c], position⟩] := by
  have hblank : ∀ a ∈ letters, a ≠ ' ' := forall_mem_of_all rfl
  have hnames : ∀ rest, Clear [c] rest →
      ∀ name ∈ lexedNames, ¬startsWithName name.toList (c :: rest) := by
    intro rest hrest name hname hstarts
    obtain ⟨d, hd, hbegins⟩ := beginsName_of_startsWithName hname (List.mem_append_left _ hc)
      (fun d hd => (hrest c rfl d hd).known) hstarts
    exact (hrest c rfl d hd).name hbegins
  by_cases hgreek : c = 'θ' ∨ c = 'π'
  · refine ⟨.constant, .inr rfl, splits_lexeme (List.mem_append_left _ hc) (hblank c hc) ?_⟩
    intro rest hrest
    rw [List.nil_append, leadingLexeme_of_no_name (hnames rest hrest), plainLexeme,
      if_pos (by simpa using hgreek), constantText_letter c (by simpa using hgreek)]
    rfl
  · refine ⟨.letter, .inl rfl, splits_lexeme (List.mem_append_left _ hc) (hblank c hc) ?_⟩
    intro rest hrest
    rw [List.nil_append, leadingLexeme_of_no_name (hnames rest hrest), plainLexeme,
      if_neg (by simpa using hgreek), if_pos (isLetter_of_mem_letters c hc hgreek)]
    rfl

/-! ## Signs and numerals -/

/-- The marks that are tokens of their own. -/
def signs : List Char := ['(', ')', '^', '/', '*', '-', '+', '=']

theorem mem_marks_of_mem_signs : ∀ c ∈ signs, c ∈ marks := forall_mem_of_all rfl

theorem not_letter_of_mem_marks : ∀ c ∈ marks, ¬(c = 'θ' ∨ c = 'π') ∧ isLetter c = false :=
  forall_mem_of_all rfl

theorem isDigit_of_isDecimalDigit {c : Char} (hc : c ∈ alphabet) (h : isDecimalDigit c) :
    c.isDigit := by
  have hcodes : ∀ c ∈ alphabet, c.toNat < 0x660 := forall_mem_of_all rfl
  rw [isDecimalDigit_ascii (hcodes c hc), decide_eq_true_eq] at h
  have hlower : 48 ≤ c.toNat := h.1
  have hupper : c.toNat ≤ 57 := Nat.le_of_lt_succ h.2
  rw [Char.isDigit, Bool.and_eq_true, decide_eq_true_eq, decide_eq_true_eq]
  exact ⟨hlower, hupper⟩

theorem leadingLexeme_mark {c : Char} (hc : c ∈ marks) (rest : List Char) :
    leadingLexeme FunctionTable.standard.names c rest =
      if numeralLength (c :: rest) ≠ 0 then
        ⟨.number, String.ofList ((c :: rest).take (numeralLength (c :: rest))),
          numeralLength (c :: rest) - 1⟩
      else ⟨(signKind? c).getD .unknown, String.ofList [c], 0⟩ := by
  obtain ⟨hgreek, hletter⟩ := not_letter_of_mem_marks c hc
  rw [leadingLexeme_of_no_name fun name hname => not_startsWithName_mark hname hc rest,
    plainLexeme, if_neg (by simpa using hgreek), if_neg (by rw [hletter]; exact Bool.false_ne_true)]

theorem splits_sign {c : Char} (hc : c ∈ signs) {kind : TokenKind} (hkind : signKind? c = some kind) :
    Splits [c] ∧ ∀ position, lex position [c] = [⟨kind, String.ofList [c], position⟩] := by
  have hmark := mem_marks_of_mem_signs c hc
  have hother : ∀ a ∈ signs, a ≠ ' ' ∧ a ≠ '.' ∧ isDecimalDigit a = false :=
    forall_mem_of_all rfl
  obtain ⟨hblank, hpoint, hdigit⟩ := hother c hc
  refine splits_lexeme (List.mem_append_right _ hmark) hblank fun rest _ => ?_
  have hcount : digitCount (c :: rest) = 0 := by
    rw [digitCount, List.takeWhile_cons, hdigit]
    rfl
  have hlength : numeralLength (c :: rest) = 0 := by
    rw [numeralLength, hcount, List.drop_zero]
    split
    · next heq => exact absurd (List.cons.inj heq).1 hpoint
    · rfl
  rw [List.nil_append, leadingLexeme_mark hmark, if_neg (not_not.mpr hlength), hkind]
  rfl

theorem digitCount_append {s rest : List Char} (hs : ∀ c ∈ s, isDecimalDigit c)
    (hrest : ∀ d ∈ rest.head?, isDecimalDigit d = false) : digitCount (s ++ rest) = s.length := by
  have hstop : rest.takeWhile isDecimalDigit = [] := by
    cases rest with
    | nil => rfl
    | cons d rest =>
      rw [List.takeWhile_cons, hrest d rfl]
      rfl
  rw [digitCount, List.takeWhile_append_of_pos hs, hstop, List.append_nil]

/-- A numeral ends where neither a digit nor a point follows. -/
theorem numeralLength_append {s rest : List Char} (h : Numeral.IsPlain s)
    (hrest : ∀ d ∈ rest.head?, isDecimalDigit d = false ∧ d ≠ '.') :
    numeralLength (s ++ rest) = s.length := by
  have hdigits := fun d hd => (hrest d hd).1
  cases h with
  | integer hwhole hne =>
    rw [numeralLength, digitCount_append hwhole hdigits, List.drop_left]
    split
    · next heq => exact absurd rfl (hrest '.' rfl).2
    · rfl
  | @decimal whole fraction hwhole hfraction hne =>
    have hpoint : ∀ d ∈ ('.' :: (fraction ++ rest)).head?, isDecimalDigit d = false := by
      intro d hd
      rw [List.head?_cons, Option.mem_some_iff] at hd
      rw [← hd]
      rfl
    have hnone : ¬(whole.length = 0 ∧ fraction.length = 0) := by
      rw [List.length_eq_zero_iff, List.length_eq_zero_iff]
      rintro ⟨rfl, rfl⟩
      exact hne rfl
    rw [List.append_assoc, List.cons_append, numeralLength, digitCount_append hwhole hpoint,
      List.drop_left]
    show (if decide (whole.length = 0) && decide (digitCount (fraction ++ rest) = 0) then 0
      else whole.length + 1 + digitCount (fraction ++ rest)) = _
    rw [digitCount_append hfraction hdigits, if_neg (by simpa using hnone), List.length_append,
      List.length_cons]
    omega

theorem splits_numeral {s : List Char} (h : Numeral.IsPlain s)
    (hascii : ∀ c ∈ s, c.isDigit ∨ c = '.') (hlast : ∃ c ∈ s.getLast?, c.isDigit) :
    Splits s ∧ ∀ position, lex position s = [⟨.number, String.ofList s, position⟩] := by
  obtain ⟨last, hlast, hdigit⟩ := hlast
  cases s with
  | nil => cases hlast
  | cons c s =>
    have hmark : c ∈ marks := by
      rcases hascii c List.mem_cons_self with hc | rfl
      · exact mem_marks_of_isDigit hc
      · exact List.mem_append_left _ (by simp)
    have hblank : c ≠ ' ' := by
      rintro rfl
      rcases hascii ' ' List.mem_cons_self with hc | hc <;> cases hc
    refine splits_lexeme (List.mem_append_right _ hmark) hblank fun rest hrest => ?_
    have hstop : ∀ d ∈ rest.head?, isDecimalDigit d = false ∧ d ≠ '.' := by
      intro d hd
      have hapart := hrest last hlast d hd
      have hnot := hapart.numeral hdigit
      refine ⟨?_, fun hpoint => hnot (.inr hpoint)⟩
      by_contra hdecimal
      rw [Bool.not_eq_false] at hdecimal
      exact hnot (.inl (isDigit_of_isDecimalDigit hapart.known hdecimal))
    have hlength : numeralLength (c :: (s ++ rest)) = s.length + 1 := numeralLength_append h hstop
    rw [leadingLexeme_mark hmark, hlength, if_pos (Nat.succ_ne_zero _), ← List.cons_append,
      ← List.length_cons, List.take_left]
    rfl

/-! ## Calls -/

theorem startsWithName_append (name t rest : List Char) :
    startsWithName name (t ++ rest)
      = (startsWithName (name.take t.length) t && startsWithName (name.drop t.length) rest) := by
  induction t generalizing name with
  | nil => rfl
  | cons c t ih =>
    cases name with
    | nil => rfl
    | cons a name =>
      rw [List.cons_append, List.length_cons, List.take_succ_cons, List.drop_succ_cons,
        startsWithName, startsWithName, ih, Bool.and_assoc]

/-- In front of a parenthesis stands the name of a function as a whole, and no other name. -/
theorem prefix_call : ∀ f ∈ FunctionTable.standard.names,
    ∀ name ∈ FunctionTable.standard.names,
      name.toList.take (f.toList ++ ['(']).length <+: f.toList ++ ['('] → name = f := by
  decide

theorem functionName_spelling {f : String} (hf : f ∈ FunctionTable.standard.names) :
    ∀ c ∈ f.toList, c ∈ lowerLetters := (lexedNames_spelling f (List.mem_append_left _ hf)).2

theorem leadingName?_call {f : String} (hf : f ∈ FunctionTable.standard.names) (rest : List Char) :
    leadingName? FunctionTable.standard.names (f.toList ++ '(' :: rest) = some f := by
  have hmatch : ∀ name ∈ FunctionTable.standard.names,
      startsWithName name.toList (f.toList ++ '(' :: rest) → name = f := by
    intro name hname h
    rw [List.append_cons, startsWithName_append, Bool.and_eq_true] at h
    refine prefix_call f hf name hname (isPrefix_of_startsWithName ?_ ?_ h.1)
    · exact fun c hc => functionName_spelling hname c (List.mem_of_mem_take hc)
    · intro c hc
      rcases List.mem_append.mp hc with hc | hc
      · exact List.mem_append_left _ (functionName_spelling hf c hc)
      · rw [List.mem_singleton.mp hc]
        exact List.mem_append_right _ (List.mem_append_left _ (by simp))
  have hself : startsWithName f.toList (f.toList ++ '(' :: rest) := by
    rw [startsWithName_append, List.take_length, List.drop_length, startsWithName_self]
    rfl
  obtain ⟨a, b, more, hletters, -⟩ := exists_letters_of_mem (List.mem_append_left _ hf)
  have hne : f.isEmpty = false := by
    rw [String.isEmpty_eq_false_iff]
    rintro rfl
    cases hletters
  rw [leadingName?]
  cases hfind : FunctionTable.standard.names.find? fun name =>
      !name.isEmpty && startsWithName name.toList (f.toList ++ '(' :: rest) with
  | none =>
    have hnot := List.find?_eq_none.mp hfind f hf
    rw [hne, hself] at hnot
    exact absurd rfl hnot
  | some name =>
    have hname := List.find?_some hfind
    rw [Bool.and_eq_true] at hname
    rw [hmatch name (List.mem_of_find?_eq_some hfind) hname.2]

theorem splits_open :
    Splits ['('] ∧ ∀ position, lex position ['('] = [⟨.openParen, String.ofList ['('], position⟩] :=
  splits_sign (by simp [signs]) rfl

theorem splits_call {f : String} (hf : f ∈ FunctionTable.standard.names) :
    Splits (f.toList ++ ['(']) ∧ ∀ position, lex position (f.toList ++ ['('])
      = [⟨.function, f, position⟩, ⟨.openParen, String.ofList ['('], (position + f.length : Nat)⟩] := by
  obtain ⟨a, b, more, hletters, ha, -⟩ := exists_letters_of_mem (List.mem_append_left _ hf)
  have hblank : ¬isBlank a = true := by
    have hspace : ∀ c ∈ lowerLetters, c ≠ ' ' := forall_mem_of_all rfl
    rw [isBlank_of_mem_alphabet a (List.mem_append_left _ (List.mem_append_left _ ha)) (hspace a ha)]
    exact Bool.false_ne_true
  have hlength : f.length = (b :: more).length + 1 := by
    rw [← String.length_toList, hletters, List.length_cons]
  have hlexeme : ∀ rest, leadingLexeme FunctionTable.standard.names a (b :: more ++ '(' :: rest)
      = ⟨.function, f, (b :: more).length⟩ := by
    intro rest
    have hleading := leadingName?_call hf rest
    rw [hletters, List.cons_append] at hleading
    have htake : (a :: (b :: more ++ '(' :: rest)).take f.length = f.toList := by
      rw [hlength, hletters, List.take_succ_cons, List.take_left]
    rw [leadingLexeme, hleading]
    dsimp only
    rw [htake, lowerCase_lowerLetters (functionName_spelling hf), String.ofList_toList, hlength,
      Nat.add_sub_cancel]
  have hstep : ∀ position rest, lex position (f.toList ++ '(' :: rest)
      = ⟨.function, f, position⟩ :: lex (position + f.length) ('(' :: rest) := by
    intro position rest
    rw [hletters, List.cons_append, lex, tokensFrom, if_neg hblank]
    dsimp only
    rw [hlexeme, List.drop_left, hlength, Nat.add_assoc, Nat.add_comm 1]
  have hself : ∀ position, lex position (f.toList ++ ['('])
      = [⟨.function, f, position⟩, ⟨.openParen, String.ofList ['('], (position + f.length : Nat)⟩] := by
    intro position
    rw [hstep, splits_open.2]
  refine ⟨fun position rest hrest => ?_, hself⟩
  have hopen := splits_open.1 (position + f.length) rest
    ((clear_append (List.cons_ne_nil _ _) rest).mp hrest)
  rw [List.singleton_append, splits_open.2] at hopen
  rw [hself, List.append_assoc, List.singleton_append, hstep, hopen, List.length_append,
    String.length_toList, Nat.add_assoc]
  rfl

end Locus
