import Locus.Proofs.Token.Splitting
import Locus.Proofs.Token.Variants

/-! What tokens cover. Spans of tokens and white space between them make up the text (`Covered`), and
each token reads its span: a name whatever its case, a numeral, or one character. White space is
inside of a span only where it is part of a name. -/

namespace Locus
set_option autoImplicit false

/-! ## Names and numerals -/

namespace FunctionTable

theorem mem_insertName {a name : String} {names : List String} :
    a ∈ insertName name names ↔ a = name ∨ a ∈ names := by
  induction names with
  | nil => simp [insertName]
  | cons n rest ih =>
    rw [insertName]
    split_ifs
    · exact List.mem_cons
    · rw [List.mem_cons, ih, List.mem_cons]
      exact or_left_comm

theorem mem_names {t : FunctionTable} {name : String} :
    name ∈ t.names ↔ ∃ entry ∈ t.entries, entry.name = name := by
  rw [names, ← List.mem_map]
  generalize t.entries.map (·.name) = all
  induction all with
  | nil => rfl
  | cons n rest ih => rw [List.foldr_cons, mem_insertName, ih, List.mem_cons]

theorem empty_not_mem_names {t : FunctionTable} (h : ∀ entry ∈ t.entries, entry.name ≠ "") :
    "" ∉ t.names := by
  intro hmem
  obtain ⟨entry, hentry, hname⟩ := mem_names.mp hmem
  exact h entry hentry hname

end FunctionTable

variable {names : List String} {name s span rest : List Char} {c : Char}

theorem length_le_of_startsWithName (h : startsWithName name s) : name.length ≤ s.length := by
  induction name generalizing s with
  | nil => exact Nat.zero_le _
  | cons a name ih =>
    cases s with
    | nil => cases h
    | cons c s =>
      rw [startsWithName, Bool.and_eq_true] at h
      exact Nat.succ_le_succ (ih h.2)

/-- Each character of a name that stands at the beginning of a text counts as equal to a letter. -/
theorem exists_sameLetter (h : startsWithName name span) (hlength : span.length = name.length)
    (hc : c ∈ span) : ∃ a ∈ name, sameLetter a c := by
  induction name generalizing span with
  | nil =>
    rw [List.length_eq_zero_iff.mp hlength] at hc
    cases hc
  | cons a name ih =>
    cases span with
    | nil => cases hlength
    | cons d span =>
      rw [startsWithName, Bool.and_eq_true] at h
      rcases List.mem_cons.mp hc with rfl | hc
      · exact ⟨a, List.mem_cons_self, h.1⟩
      · obtain ⟨b, hb, hsame⟩ := ih h.2 (Nat.succ.inj hlength) hc
        exact ⟨b, List.mem_cons_of_mem a hb, hsame⟩

/-- A text that begins with a name is cut off behind it. -/
theorem exists_split_of_startsWithName (h : startsWithName name s) :
    ∃ span after, s = span ++ after ∧ span.length = name.length ∧ s.take name.length = span ∧
      startsWithName name span := by
  have hlength : (s.take name.length).length = name.length :=
    List.length_take_of_le (length_le_of_startsWithName h)
  refine ⟨s.take name.length, s.drop name.length, (List.take_append_drop _ s).symm, hlength, rfl, ?_⟩
  rw [← List.take_append_drop name.length s, startsWithName_append, hlength, List.take_length,
    Bool.and_eq_true] at h
  exact h.1

theorem not_isBlank_of_name {name : String} (hname : name ∈ lexedNames) (hc : c ∈ name.toList) :
    ¬isBlank c := by
  have hspace : ∀ a ∈ lowerLetters, a ≠ ' ' := forall_mem_of_all rfl
  have hletter := (lexedNames_spelling name hname).2 c hc
  rw [isBlank_of_mem_alphabet c (List.mem_append_left _ (List.mem_append_left _ hletter))
    (hspace c hletter)]
  exact Bool.false_ne_true

/-- A name that is found is cut off with all its characters. -/
theorem exists_split_of_leadingName? {found : String} (hnames : "" ∉ names)
    (h : leadingName? names s = some found) :
    ∃ span after, s = span ++ after ∧ s.take found.length = span ∧ span.length = found.length ∧
      span.length = found.length - 1 + 1 ∧ found ∈ names ∧ startsWithName found.toList span := by
  have hstarts := List.find?_some h
  have hmem := List.mem_of_find?_eq_some h
  rw [Bool.and_eq_true] at hstarts
  obtain ⟨span, after, hsplit, hlength, htake, hspan⟩ := exists_split_of_startsWithName hstarts.2
  rw [String.length_toList] at hlength htake
  have hpos : 0 < found.length := by
    refine Nat.pos_of_ne_zero fun hzero => hnames ?_
    rwa [← String.length_eq_zero_iff.mp hzero]
  exact ⟨span, after, hsplit, htake, hlength, hlength.trans (Nat.sub_add_cancel hpos).symm, hmem,
    hspan⟩

theorem numeralLength_le (s : List Char) : numeralLength s ≤ s.length := by
  have hcount : ∀ l : List Char, digitCount l ≤ l.length := fun l =>
    (List.takeWhile_prefix _).length_le
  have hwhole := hcount s
  unfold numeralLength
  dsimp only
  split
  · next rest hrest =>
    have hlength := congrArg List.length hrest
    rw [List.length_drop, List.length_cons] at hlength
    have hfraction := hcount rest
    split_ifs <;> omega
  · exact hwhole

theorem Numeral.IsPlain.isPart (h : Numeral.IsPlain s) (hc : c ∈ s) : Numeral.IsPart c := by
  cases h with
  | integer hwhole _ => exact .inl (hwhole c hc)
  | decimal hwhole hfraction _ =>
    rcases List.mem_append.mp hc with hc | hc
    · exact .inl (hwhole c hc)
    · exact (List.mem_cons.mp hc).elim .inr fun hc => .inl (hfraction c hc)

/-! ## Spans -/

/-- What a lexeme reads off the characters that it covers. A function is called by its name in lower
case, and the name of a constant stands for a letter. -/
inductive Reads (names : List String) : TokenKind → String → List Char → Prop
  | function {name : String} {span : List Char} : name ∈ names → span.length = name.length →
      startsWithName name.toList span →
      Reads names .function (String.ofList (lowerCase span)) span
  | constant {name : String} {span : List Char} : name ∈ constants.map (·.1) →
      span.length = name.length → startsWithName name.toList span →
      Reads names .constant (constantText span) span
  | greek {c : Char} : c = 'θ' ∨ c = 'π' → Reads names .constant (String.ofList [c]) [c]
  | letter {c : Char} : isLetter c → Reads names .letter (String.ofList [c]) [c]
  | numeral {span : List Char} : Numeral.IsPlain span →
      Reads names .number (String.ofList span) span
  | sign {c : Char} {kind : TokenKind} : signKind? c = some kind →
      Reads names kind (String.ofList [c]) [c]
  | unknown {c : Char} : signKind? c = none → Reads names .unknown (String.ofList [c]) [c]

theorem exists_span_of_plain (names : List String) (c : Char) (rest : List Char) :
    ∃ span after, c :: rest = span ++ after ∧ span.length = (plainLexeme c rest).more + 1 ∧
      Reads names (plainLexeme c rest).kind (plainLexeme c rest).text span := by
  unfold plainLexeme
  split_ifs with hgreek hletter hnumeral
  · have hgreek : c = 'θ' ∨ c = 'π' := by simpa using hgreek
    rw [constantText_letter c (by simpa using hgreek)]
    exact ⟨[c], rest, rfl, rfl, .greek hgreek⟩
  · exact ⟨[c], rest, rfl, rfl, .letter hletter⟩
  · refine ⟨_, _, (List.take_append_drop (numeralLength (c :: rest)) _).symm, ?_,
      .numeral (isPlain_leading hnumeral)⟩
    rw [List.length_take_of_le (numeralLength_le _)]
    exact (Nat.sub_add_cancel (Nat.pos_of_ne_zero hnumeral)).symm
  · refine ⟨[c], rest, rfl, rfl, ?_⟩
    cases hkind : signKind? c with
    | some kind => exact .sign hkind
    | none => exact .unknown hkind

theorem exists_span (hnames : "" ∉ names) (c : Char) (rest : List Char) :
    ∃ span after, c :: rest = span ++ after ∧
      span.length = (leadingLexeme names c rest).more + 1 ∧
      Reads names (leadingLexeme names c rest).kind (leadingLexeme names c rest).text span := by
  cases hfunction : leadingName? names (c :: rest) with
  | some found =>
    obtain ⟨span, after, hsplit, htake, hlength, hmore, hmem, hstarts⟩ :=
      exists_split_of_leadingName? hnames hfunction
    rw [leadingLexeme_function hfunction, htake]
    exact ⟨span, after, hsplit, hmore, .function hmem hlength hstarts⟩
  | none =>
    cases hconstant : leadingName? (constants.map (·.1)) (c :: rest) with
    | some found =>
      obtain ⟨span, after, hsplit, htake, hlength, hmore, hmem, hstarts⟩ :=
        exists_split_of_leadingName? (by decide) hconstant
      rw [leadingLexeme_constant hfunction hconstant, htake]
      exact ⟨span, after, hsplit, hmore, .constant hmem hlength hstarts⟩
    | none =>
      rw [leadingLexeme_plain hfunction hconstant]
      exact exists_span_of_plain names c rest

/-- A lexeme covers its first character and as many more as it says, and reads them. -/
theorem exists_more (hnames : "" ∉ names) (c : Char) (rest : List Char) :
    ∃ more after, rest = more ++ after ∧ more.length = (leadingLexeme names c rest).more ∧
      Reads names (leadingLexeme names c rest).kind (leadingLexeme names c rest).text
        (c :: more) := by
  obtain ⟨span, after, hsplit, hlength, hreads⟩ := exists_span hnames c rest
  cases span with
  | nil => cases hlength
  | cons d more =>
    rw [List.cons_append, List.cons.injEq] at hsplit
    obtain ⟨rfl, hrest⟩ := hsplit
    exact ⟨more, after, hrest, Nat.succ.inj hlength, hreads⟩

/-- White space behind the first character of a lexeme is part of a name. -/
theorem Reads.exists_name_of_blank {kind : TokenKind} {text : String} {first : Char}
    {more : List Char} (h : Reads names kind text (first :: more)) (hfirst : ¬isBlank first)
    (hc : c ∈ first :: more) (hblank : isBlank c) : ∃ name ∈ names, c ∈ name.toList := by
  have hsingle : more = [] → ∃ name ∈ names, c ∈ name.toList := by
    rintro rfl
    rw [List.mem_singleton.mp hc] at hblank
    exact absurd hblank hfirst
  cases h with
  | function hname hlength hstarts =>
    rw [← String.length_toList] at hlength
    obtain ⟨a, ha, hsame⟩ := exists_sameLetter hstarts hlength hc
    exact ⟨_, hname, eq_of_sameLetter_blank hblank hsame ▸ ha⟩
  | constant hname hlength hstarts =>
    rw [← String.length_toList] at hlength
    obtain ⟨a, ha, hsame⟩ := exists_sameLetter hstarts hlength hc
    rw [← eq_of_sameLetter_blank hblank hsame] at hblank
    exact absurd hblank (not_isBlank_of_name (List.mem_append_right _ hname) ha)
  | numeral hplain =>
    rcases hplain.isPart hc with hdigit | rfl
    · rw [not_isBlank_of_isDecimalDigit hdigit] at hblank
      cases hblank
    · cases hblank
  | greek _ => exact hsingle rfl
  | letter _ => exact hsingle rfl
  | sign _ => exact hsingle rfl
  | unknown _ => exact hsingle rfl

/-! ## Texts -/

/-- A token covers these characters and reads what it holds off them. The first one is not blank, and
a later one is only as part of a name. -/
structure Token.Covers (names : List String) (t : Token) (span : List Char) : Prop where
  reads : Reads names t.kind t.text span
  begins : ∃ c more, span = c :: more ∧ ¬isBlank c
  blank : ∀ c ∈ span, isBlank c → ∃ name ∈ names, c ∈ name.toList

/-- `Covered names position s tokens`: `s`, which begins at this position, is made of the spans of the
tokens, in their order, and of white space before, between and behind them. -/
inductive Covered (names : List String) : Nat → List Char → List Token → Prop
  | gap {position : Nat} {gap : List Char} : (∀ c ∈ gap, isBlank c) → Covered names position gap []
  | token {position : Nat} {gap span rest : List Char} {t : Token} {tokens : List Token} :
      (∀ c ∈ gap, isBlank c) → t.position = (position + gap.length : Nat) → t.Covers names span →
      Covered names (position + gap.length + span.length) rest tokens →
      Covered names position (gap ++ span ++ rest) (t :: tokens)

variable {position : Nat} {t : Token} {tokens : List Token}

theorem tokensFrom_nil (names : List String) (position : Nat) : tokensFrom names position [] = [] := by
  rw [tokensFrom]

theorem tokensFrom_blank (hc : isBlank c) :
    tokensFrom names position (c :: s) = tokensFrom names (position + 1) s := by
  rw [tokensFrom, if_pos hc]

theorem tokensFrom_lexeme (hc : ¬isBlank c) :
    tokensFrom names position (c :: s)
      = ⟨(leadingLexeme names c s).kind, (leadingLexeme names c s).text, position⟩ ::
        tokensFrom names (position + 1 + (leadingLexeme names c s).more)
          (s.drop (leadingLexeme names c s).more) := by
  rw [tokensFrom, if_neg hc]

theorem Covered.cons_blank (hc : isBlank c) (h : Covered names (position + 1) s tokens) :
    Covered names position (c :: s) tokens := by
  cases h with
  | gap hgap => exact .gap (List.forall_mem_cons.mpr ⟨hc, hgap⟩)
  | @token _ gap span _ _ _ hgap hposition hcovers hrest =>
    have hlength : position + 1 + gap.length = position + (c :: gap).length := by
      rw [List.length_cons]
      omega
    rw [hlength] at hposition hrest
    exact .token (List.forall_mem_cons.mpr ⟨hc, hgap⟩) hposition hcovers hrest

theorem covered_tokensFrom (hnames : "" ∉ names) (position : Nat) (s : List Char) :
    Covered names position s (tokensFrom names position s) := by
  induction position, s using tokensFrom.induct names with
  | case1 position =>
    rw [tokensFrom_nil]
    exact .gap (List.forall_mem_nil _)
  | case2 position c rest hblank ih =>
    rw [tokensFrom_blank hblank]
    exact ih.cons_blank hblank
  | case3 position c rest hblank lexeme ih =>
    rw [tokensFrom_lexeme hblank]
    obtain ⟨more, after, rfl, hmore, hreads⟩ := exists_more hnames c rest
    have hcovers : Token.Covers names ⟨lexeme.kind, lexeme.text, position⟩ (c :: more) :=
      ⟨hreads, ⟨c, more, rfl, hblank⟩, fun d => hreads.exists_name_of_blank hblank⟩
    have hnext : position + 1 + more.length
        = position + ([] : List Char).length + (c :: more).length := by
      rw [List.length_nil, List.length_cons]
      omega
    rw [← hmore, List.drop_left, hnext] at ih ⊢
    rw [← List.cons_append, ← List.nil_append (c :: more)]
    exact .token (List.forall_mem_nil _) rfl hcovers ih

theorem Covered.eq_nil_iff (h : Covered names position s tokens) :
    tokens = [] ↔ ∀ c ∈ s, isBlank c := by
  cases h with
  | gap hgap => exact iff_of_true rfl hgap
  | token _ _ hcovers _ =>
    obtain ⟨c, more, rfl, hc⟩ := hcovers.begins
    exact iff_of_false (List.cons_ne_nil _ _) fun hall => hc (hall c (by simp))

/-- The span of a token is part of the text. -/
theorem Covered.exists_span_of_mem (h : Covered names position s tokens) (ht : t ∈ tokens) :
    ∃ span, t.Covers names span ∧ span ⊆ s := by
  induction h with
  | gap _ => cases ht
  | token _ _ hcovers _ ih =>
    rcases List.mem_cons.mp ht with rfl | ht
    · exact ⟨_, hcovers, fun c hc => List.mem_append_left _ (List.mem_append_right _ hc)⟩
    · obtain ⟨span, hcovers, hspan⟩ := ih ht
      exact ⟨span, hcovers, fun c hc => List.mem_append_right _ (hspan hc)⟩

/-- What is not white space is covered. -/
theorem Covered.exists_token_of_mem (h : Covered names position s tokens) (hc : c ∈ s)
    (hblank : ¬isBlank c) : ∃ t ∈ tokens, ∃ span, t.Covers names span ∧ c ∈ span := by
  induction h with
  | gap hgap => exact absurd (hgap c hc) hblank
  | @token _ gap span _ t _ hgap _ hcovers _ ih =>
    rcases List.mem_append.mp hc with hc | hc
    · rcases List.mem_append.mp hc with hc | hc
      · exact absurd (hgap c hc) hblank
      · exact ⟨t, List.mem_cons_self, span, hcovers, hc⟩
    · obtain ⟨u, hu, hspan⟩ := ih hc
      exact ⟨u, List.mem_cons_of_mem t hu, hspan⟩

end Locus
