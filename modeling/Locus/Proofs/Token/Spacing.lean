import Locus.Proofs.Token.Spans

/-! Lexing is local. A lexeme depends on no more than the characters that it covers, unless a longer
one begins there, and where no name holds white space no lexeme runs into white space. So a text lexes
piece by piece (`Uncrossed`), from any token on, and whatever white space there is between tokens
(`lexing_is_lossless`). -/

namespace Locus
set_option autoImplicit false

/-! ## Lexemes within a prefix -/

section

variable {names : List String} {name p r : List Char} {b c : Char}

theorem startsWithName_append_left (h : startsWithName name p) (r : List Char) :
    startsWithName name (p ++ r) := by
  have hlength := length_le_of_startsWithName h
  rw [startsWithName_append, List.take_of_length_le hlength, List.drop_eq_nil_of_le hlength, h]
  rfl

theorem startsWithName_of_le (h : startsWithName name (p ++ r))
    (hlength : name.length ≤ p.length) : startsWithName name p := by
  rw [startsWithName_append, List.take_of_length_le hlength, Bool.and_eq_true] at h
  exact h.1

/-- The first match of a weaker test is that of a stronger one if it passes both. -/
theorem find?_eq_of_imp {α : Type} {weak strong : α → Bool} {l : List α}
    (himp : ∀ a ∈ l, strong a → weak a) (hfound : ∀ a, l.find? weak = some a → strong a) :
    l.find? weak = l.find? strong := by
  induction l with
  | nil => rfl
  | cons a l ih =>
    obtain ⟨ha, hl⟩ := List.forall_mem_cons.mp himp
    rw [List.find?_cons, List.find?_cons]
    cases hweak : weak a with
    | true => rw [hfound a (List.find?_cons_of_pos hweak)]
    | false =>
      have hstrong : strong a = false := Bool.eq_false_iff.mpr (mt ha (by simp [hweak]))
      rw [hstrong]
      exact ih hl fun d hd => hfound d (by rwa [List.find?_cons_of_neg (by simp [hweak])])

theorem leadingName?_of_le
    (h : ∀ found, leadingName? names (p ++ r) = some found → found.length ≤ p.length) :
    leadingName? names (p ++ r) = leadingName? names p := by
  refine find?_eq_of_imp (fun name _ hstarts => ?_) fun found hfound => ?_
  · rw [Bool.and_eq_true] at hstarts ⊢
    exact ⟨hstarts.1, startsWithName_append_left hstarts.2 r⟩
  · have hlength := h found hfound
    rw [← String.length_toList] at hlength
    have hstarts := List.find?_some hfound
    rw [Bool.and_eq_true] at hstarts ⊢
    exact ⟨hstarts.1, startsWithName_of_le hstarts.2 hlength⟩

theorem leadingName?_left {found : String} (h : leadingName? names (p ++ r) = some found)
    (hlength : found.length ≤ p.length) :
    leadingName? names p = some found := by
  rw [← h]
  refine (leadingName?_of_le fun other hother => ?_).symm
  rwa [← Option.some.inj (h.symm.trans hother)]

theorem leadingName?_left_eq_none (h : leadingName? names (p ++ r) = none) :
    leadingName? names p = none := by
  rw [← h]
  exact (leadingName?_of_le fun other hother => nomatch h.symm.trans hother).symm

theorem digitCount_of_le (h : digitCount (p ++ r) ≤ p.length) :
    digitCount (p ++ r) = digitCount p := by
  rw [digitCount, List.takeWhile_append] at h ⊢
  rw [digitCount]
  split_ifs at h ⊢ with hall
  · rw [List.length_append] at h ⊢
    omega
  · rfl

/-- The length of a point and the digits behind it. With no digit on either side there is none. -/
def fractionLength (whole : Nat) : List Char → Nat
  | '.' :: rest => if whole = 0 ∧ digitCount rest = 0 then 0 else 1 + digitCount rest
  | _ => 0

theorem fractionLength_of_ne (hc : c ≠ '.') (whole : Nat) (rest : List Char) :
    fractionLength whole (c :: rest) = 0 := by
  rw [fractionLength]
  exact fun rest' heq => hc (List.cons.inj heq).1

theorem numeralLength_eq (s : List Char) :
    numeralLength s = digitCount s + fractionLength (digitCount s) (s.drop (digitCount s)) := by
  rw [numeralLength]
  split
  · next rest hrest =>
    rw [hrest, fractionLength]
    by_cases hnone : digitCount s = 0 ∧ digitCount rest = 0
    · rw [if_pos hnone, if_pos (by simpa using hnone), hnone.1]
    · rw [if_neg hnone, if_neg (by simpa using hnone), Nat.add_assoc]
  · next hother =>
    rw [fractionLength]
    · rfl
    · exact hother

theorem fractionLength_of_le {q : List Char} {whole : Nat}
    (h : fractionLength whole (q ++ r) ≤ q.length) :
    fractionLength whole (q ++ r) = fractionLength whole q := by
  cases q with
  | nil => exact Nat.le_zero.mp h
  | cons d q =>
    rw [List.cons_append] at h ⊢
    by_cases hpoint : d = '.'
    · subst hpoint
      rw [fractionLength] at h ⊢
      rw [fractionLength]
      have hdigits : digitCount (q ++ r) = digitCount q := by
        apply digitCount_of_le
        rw [List.length_cons] at h
        split_ifs at h <;> omega
      rw [hdigits]
    · rw [fractionLength_of_ne hpoint, fractionLength_of_ne hpoint]

theorem numeralLength_of_le (h : numeralLength (p ++ r) ≤ p.length) :
    numeralLength (p ++ r) = numeralLength p := by
  rw [numeralLength_eq] at h ⊢
  rw [numeralLength_eq]
  have hwhole : digitCount (p ++ r) = digitCount p := digitCount_of_le (Nat.le_of_add_right_le h)
  have hprefix : digitCount p ≤ p.length := (List.takeWhile_prefix _).length_le
  rw [hwhole, List.drop_append_of_le_length hprefix] at h ⊢
  rw [fractionLength_of_le]
  rw [List.length_drop]
  omega

/-- A numeral is as long as its lexeme. -/
theorem numeralLength_le_of_plain {l : List Char} (hgreek : ¬(c = 'θ' || c = 'π'))
    (hletter : ¬isLetter c) (h : (plainLexeme c (l ++ r)).more ≤ l.length) :
    numeralLength (c :: l ++ r) ≤ (c :: l).length := by
  rw [plainLexeme, if_neg hgreek, if_neg hletter] at h
  rw [List.cons_append, List.length_cons]
  by_cases hnumeral : numeralLength (c :: (l ++ r)) ≠ 0
  · rw [if_pos hnumeral] at h
    exact Nat.le_add_of_sub_le h
  · rw [not_not.mp hnumeral]
    exact Nat.zero_le _

theorem plainLexeme_of_le {l : List Char} (h : (plainLexeme c (l ++ r)).more ≤ l.length) :
    plainLexeme c (l ++ r) = plainLexeme c l := by
  by_cases hletter : (c = 'θ' || c = 'π') ∨ isLetter c
  · unfold plainLexeme
    rcases hletter with hgreek | hletter
    · rw [if_pos hgreek, if_pos hgreek]
    · rw [if_pos hletter, if_pos hletter]
  · obtain ⟨hgreek, hletter⟩ := not_or.mp hletter
    have hlength := numeralLength_le_of_plain hgreek hletter h
    unfold plainLexeme
    rw [if_neg hgreek, if_neg hletter, if_neg hgreek, if_neg hletter, ← List.cons_append,
      List.take_append_of_le_length hlength, numeralLength_of_le hlength]

/-- A lexeme that ends within a prefix is the lexeme of the prefix. -/
theorem leadingLexeme_of_le {l : List Char}
    (h : (leadingLexeme names c (l ++ r)).more ≤ l.length) :
    leadingLexeme names c (l ++ r) = leadingLexeme names c l := by
  have hcount : ∀ found : String, found.length - 1 ≤ l.length → found.length ≤ (c :: l).length := by
    intro found hfound
    rw [List.length_cons]
    omega
  cases hfunction : leadingName? names (c :: (l ++ r)) with
  | some found =>
    rw [leadingLexeme_function hfunction] at h ⊢
    have hlength := hcount found h
    rw [leadingLexeme_function (leadingName?_left hfunction hlength), ← List.cons_append,
      List.take_append_of_le_length hlength]
  | none =>
    cases hconstant : leadingName? (constants.map (·.1)) (c :: (l ++ r)) with
    | some found =>
      rw [leadingLexeme_constant hfunction hconstant] at h ⊢
      have hlength := hcount found h
      rw [leadingLexeme_constant (leadingName?_left_eq_none hfunction)
        (leadingName?_left hconstant hlength), ← List.cons_append,
        List.take_append_of_le_length hlength]
    | none =>
      rw [leadingLexeme_plain hfunction hconstant] at h ⊢
      rw [leadingLexeme_plain (leadingName?_left_eq_none hfunction)
        (leadingName?_left_eq_none hconstant), plainLexeme_of_le h]

/-- A lexeme does not run into white space. -/
theorem more_le_of_blank {l : List Char} (hempty : "" ∉ names)
    (hnames : ∀ name ∈ names, ∀ a ∈ name.toList, ¬isBlank a) (hc : ¬isBlank c) (hb : isBlank b) :
    (leadingLexeme names c (l ++ b :: r)).more ≤ l.length := by
  by_contra hlong
  obtain ⟨more, after, hsplit, hlength, hreads⟩ := exists_more hempty c (l ++ b :: r)
  have hinside : l ++ [b] <+: more := by
    refine List.prefix_of_prefix_length_le ⟨r, ?_⟩ ⟨after, hsplit.symm⟩ ?_
    · rw [List.append_assoc, List.singleton_append]
    · rw [List.length_append, List.length_singleton]
      omega
  have hmem : b ∈ more := hinside.subset (List.mem_append_right _ (List.mem_singleton_self b))
  obtain ⟨name, hname, hletter⟩ :=
    hreads.exists_name_of_blank hc (List.mem_cons_of_mem c hmem) hb
  exact hnames name hname b hletter hb

end

/-! ## Texts piece by piece -/

/-- No lexeme of `s ++ r` has characters on both sides. -/
inductive Uncrossed (names : List String) (r : List Char) : List Char → Prop
  | nil : Uncrossed names r []
  | blank {c : Char} {s : List Char} : isBlank c → Uncrossed names r s → Uncrossed names r (c :: s)
  | lexeme {c : Char} {s : List Char} : ¬isBlank c →
      (leadingLexeme names c (s ++ r)).more ≤ s.length →
      Uncrossed names r (s.drop (leadingLexeme names c (s ++ r)).more) → Uncrossed names r (c :: s)

variable {names : List String} {position : Nat} {r s gap : List Char} {t u : Token}
  {before after : List Token}

theorem tokensFrom_gap (hgap : ∀ c ∈ gap, isBlank c) :
    tokensFrom names position (gap ++ s) = tokensFrom names (position + gap.length) s := by
  induction gap generalizing position with
  | nil => rfl
  | cons c gap ih =>
    obtain ⟨hc, hgap⟩ := List.forall_mem_cons.mp hgap
    rw [List.cons_append, tokensFrom_blank hc, ih hgap, List.length_cons, Nat.add_assoc,
      Nat.add_comm 1]

/-- A text is lexed in two pieces where no lexeme crosses. -/
theorem Uncrossed.tokensFrom_append (h : Uncrossed names r s) (position : Nat) :
    tokensFrom names position (s ++ r)
      = tokensFrom names position s ++ tokensFrom names (position + s.length) r := by
  induction h generalizing position with
  | nil => rw [tokensFrom_nil]; rfl
  | blank hc _ ih =>
    rw [List.cons_append, tokensFrom_blank hc, tokensFrom_blank hc, ih, List.length_cons,
      Nat.add_assoc, Nat.add_comm 1]
  | @lexeme c s hc hmore _ ih =>
    have hsame := leadingLexeme_of_le hmore
    rw [hsame] at hmore ih
    have hnext : position + 1 + (leadingLexeme names c s).more
        + (s.length - (leadingLexeme names c s).more) = position + (c :: s).length := by
      rw [List.length_cons]
      omega
    rw [List.cons_append, tokensFrom_lexeme hc, tokensFrom_lexeme hc, hsame,
      List.drop_append_of_le_length hmore, ih, List.length_drop, hnext]
    rfl

theorem le_position (ht : t ∈ tokensFrom names position s) : (position : Int) ≤ t.position := by
  induction position, s using tokensFrom.induct names with
  | case1 position =>
    rw [tokensFrom_nil] at ht
    cases ht
  | case2 position c rest hblank ih =>
    rw [tokensFrom_blank hblank] at ht
    have := ih ht
    omega
  | case3 position c rest hblank lexeme ih =>
    rw [tokensFrom_lexeme hblank] at ht
    rcases List.mem_cons.mp ht with rfl | ht
    · exact le_rfl
    · have := ih ht
      omega

/-- No lexeme crosses the position at which a token begins. -/
theorem uncrossed_of_mem (hu : u ∈ tokensFrom names position (s ++ r))
    (hposition : u.position = (position + s.length : Nat)) : Uncrossed names r s := by
  induction position, s using tokensFrom.induct names with
  | case1 position => exact .nil
  | case2 position c rest hblank ih =>
    rw [List.cons_append, tokensFrom_blank hblank] at hu
    refine .blank hblank (ih hu ?_)
    rw [hposition, List.length_cons, Nat.add_assoc, Nat.add_comm 1]
  | case3 position c rest hblank lexeme ih =>
    rw [List.length_cons] at hposition
    rw [List.cons_append, tokensFrom_lexeme hblank] at hu
    rcases List.mem_cons.mp hu with rfl | hu
    · exfalso
      dsimp only at hposition
      omega
    · -- Behind a lexeme that crosses, all tokens begin too far on.
      have hmore : (leadingLexeme names c (rest ++ r)).more ≤ rest.length := by
        have := le_position hu
        omega
      have hsame := leadingLexeme_of_le hmore
      refine .lexeme hblank hmore ?_
      rw [hsame] at hmore hu ⊢
      rw [List.drop_append_of_le_length hmore] at hu
      have hlexeme : lexeme.more ≤ rest.length := hmore
      refine ih hu ?_
      rw [hposition, List.length_drop, Int.natCast_inj]
      omega

/-- No lexeme crosses into white space. -/
theorem uncrossed_blank {b : Char} (hempty : "" ∉ names)
    (hnames : ∀ name ∈ names, ∀ a ∈ name.toList, ¬isBlank a) (hb : isBlank b) (r s : List Char) :
    Uncrossed names (b :: r) s := by
  have position : Nat := 0
  induction position, s using tokensFrom.induct names with
  | case1 position => exact .nil
  | case2 position c rest hblank ih => exact .blank hblank ih
  | case3 position c rest hblank lexeme ih =>
    have hmore := more_le_of_blank (l := rest) (r := r) hempty hnames hblank hb
    refine .lexeme hblank hmore ?_
    rwa [leadingLexeme_of_le hmore]

/-! ## Moved texts -/

/-- The same token further on. -/
def Token.shift (t : Token) (distance : Int) : Token :=
  { t with position := t.position + distance }

theorem tokensFrom_add (names : List String) (position distance : Nat) (s : List Char) :
    tokensFrom names (position + distance) s
      = (tokensFrom names position s).map (·.shift distance) := by
  induction position, s using tokensFrom.induct names with
  | case1 position => rw [tokensFrom_nil, tokensFrom_nil]; rfl
  | case2 position c rest hblank ih =>
    rw [tokensFrom_blank hblank, tokensFrom_blank hblank, ← ih, Nat.add_right_comm]
  | case3 position c rest hblank lexeme ih =>
    have hnext : position + distance + 1 + lexeme.more = position + 1 + lexeme.more + distance := by
      omega
    rw [tokensFrom_lexeme hblank, tokensFrom_lexeme hblank, List.map_cons, ← ih, hnext]
    rfl

/-- Lexing from the position of a token on gives the token and those after it. -/
theorem exists_drop (before : List Token)
    (h : tokensFrom names position s = before ++ u :: after) :
    ∃ n, u.position = (position + n : Nat) ∧
      tokensFrom names (position + n) (s.drop n) = u :: after := by
  induction position, s using tokensFrom.induct names generalizing before with
  | case1 position =>
    rw [tokensFrom_nil] at h
    cases before <;> cases h
  | case2 position c rest hblank ih =>
    rw [tokensFrom_blank hblank] at h
    obtain ⟨n, hn, hrest⟩ := ih before h
    have hnext : position + 1 + n = position + (n + 1) := by omega
    rw [hnext] at hn hrest
    exact ⟨n + 1, hn, hrest⟩
  | case3 position c rest hblank lexeme ih =>
    cases before with
    | nil =>
      refine ⟨0, ?_, h⟩
      rw [tokensFrom_lexeme hblank] at h
      rw [← (List.cons.inj h).1]
      rfl
    | cons first before =>
      rw [tokensFrom_lexeme hblank] at h
      obtain ⟨n, hn, hrest⟩ := ih before (List.cons.inj h).2
      have hnext : position + 1 + lexeme.more + n = position + (lexeme.more + n + 1) := by omega
      rw [hnext] at hn hrest
      rw [List.drop_drop] at hrest
      exact ⟨lexeme.more + n + 1, hn, hrest⟩

section

variable (hempty : "" ∉ names) (hnames : ∀ name ∈ names, ∀ a ∈ name.toList, ¬isBlank a)

include hempty hnames

/-- White space splits a text. -/
theorem tokensFrom_append_gap (hgap : ∀ c ∈ gap, isBlank c) (hne : gap ≠ []) (position : Nat)
    (s r : List Char) : tokensFrom names position (s ++ (gap ++ r))
      = tokensFrom names position s
        ++ tokensFrom names (position + s.length + gap.length) r := by
  rw [← tokensFrom_gap hgap]
  cases gap with
  | nil => exact absurd rfl hne
  | cons b more =>
    exact (uncrossed_blank hempty hnames (hgap b List.mem_cons_self) _ s).tokensFrom_append position

/-- White space in front of a token, or more of it, moves what follows and changes nothing else. -/
theorem tokensFrom_insert {left right space : List Char} (hgap : ∀ c ∈ gap, isBlank c)
    (hspace : ∀ c ∈ space, isBlank c)
    (h : tokensFrom names position (left ++ gap ++ right) = before ++ u :: after)
    (hposition : u.position = (position + (left ++ gap).length : Nat)) :
    tokensFrom names position (left ++ (space ++ gap ++ right))
      = before ++ (u :: after).map (·.shift space.length) := by
  obtain ⟨n, hn, hright⟩ := exists_drop _ h
  obtain rfl : n = (left ++ gap).length := by omega
  rw [List.drop_left] at hright
  -- No lexeme crosses the beginning of the token, so what is read before it is that of `left`.
  have hsplit := (uncrossed_of_mem (h ▸ List.mem_append_right _ List.mem_cons_self)
    hposition).tokensFrom_append position
  rw [h, hright, List.append_cancel_right_eq] at hsplit
  have hbefore : before = tokensFrom names position left := by
    rw [hsplit]
    by_cases hne : gap = []
    · rw [hne, List.append_nil]
    · have := tokensFrom_append_gap hempty hnames hgap hne position left []
      rwa [List.append_nil, tokensFrom_nil, List.append_nil] at this
  by_cases hne : space ++ gap = []
  · obtain ⟨rfl, rfl⟩ := List.append_eq_nil_iff.mp hne
    have hzero : ∀ t : Token, t.shift ([] : List Char).length = t := fun t => by
      rw [Token.shift, List.length_nil, Int.natCast_zero, Int.add_zero]
    rw [List.append_nil] at h
    rw [List.map_congr_left fun t _ => hzero t, List.map_id']
    exact h
  · have hblank : ∀ c ∈ space ++ gap, isBlank c := fun c hc =>
      (List.mem_append.mp hc).elim (hspace c) (hgap c)
    have hmoved : position + left.length + (space ++ gap).length
        = position + (left ++ gap).length + space.length := by
      simp only [List.length_append]
      omega
    rw [tokensFrom_append_gap hempty hnames hblank hne, hmoved, tokensFrom_add, hright, hbefore]

end

/-! ## Lexing -/

/-- The tokens of a text cover all of it but white space, each a span of its own, in order. There is
none exactly if the text is blank. Lexing from a token on gives what is left of the tokens, and, with
the standard names, white space between two tokens changes neither. -/
theorem lexing_is_lossless (table : FunctionTable) (htable : ∀ entry ∈ table.entries, entry.name ≠ "")
    (text : String) :
    Covered table.names 0 text.toList (tokenize table.names text) ∧
      (tokenize table.names text = [] ↔ ∀ c ∈ text.toList, isBlank c) ∧
      (∀ (before : List Token) (u : Token) (after : List Token),
        tokenize table.names text = before ++ u :: after →
        tokenize table.names (String.ofList (text.toList.drop u.position.toNat))
          = (u :: after).map (·.shift (-u.position))) ∧
      ∀ left gap right space : String, text = left ++ gap ++ right →
        (∀ c ∈ gap.toList, isBlank c) → (∀ c ∈ space.toList, isBlank c) →
        ∀ (before : List Token) (u : Token) (after : List Token),
          tokenize FunctionTable.standard.names text = before ++ u :: after →
          u.position = left.length + gap.length →
          tokenize FunctionTable.standard.names (left ++ space ++ gap ++ right)
            = before ++ (u :: after).map (·.shift space.length) := by
  have hempty := FunctionTable.empty_not_mem_names htable
  have hcovered := covered_tokensFrom hempty 0 text.toList
  refine ⟨hcovered, hcovered.eq_nil_iff, fun before u after h => ?_, ?_⟩
  · obtain ⟨n, hn, hrest⟩ := exists_drop _ h
    rw [Nat.zero_add] at hn hrest
    have hback : (u :: after).map (·.shift (-u.position))
        = ((tokensFrom table.names 0 (text.toList.drop n)).map (·.shift n)).map
          (·.shift (-u.position)) := by
      rw [← tokensFrom_add, Nat.zero_add, hrest]
    rw [hback, List.map_map, tokenize, String.toList_ofList, hn, Int.toNat_natCast]
    refine (List.map_id'' (fun t => ?_) _).symm
    simp [Token.shift]
  · rintro left gap right space rfl hgap hspace before u after h hposition
    have hplain : ∀ name ∈ FunctionTable.standard.names, ∀ a ∈ name.toList, ¬isBlank a :=
      fun name hname a => not_isBlank_of_name (List.mem_append_left _ hname)
    have hstandard : "" ∉ FunctionTable.standard.names := fun hmem =>
      absurd (lexedNames_spelling "" (List.mem_append_left _ hmem)).1 (by decide)
    have htokens : tokensFrom FunctionTable.standard.names 0
        (left.toList ++ gap.toList ++ right.toList) = before ++ u :: after := by
      simpa [tokenize] using h
    have hinserted := tokensFrom_insert hstandard hplain hgap hspace htokens
      (by simpa [String.length_toList] using hposition)
    simpa [tokenize, String.length_toList] using hinserted

/-- `2sin x`, without the `2`, and with a space before the function. -/
theorem lexing_of_twoSines_is_lossless :
    Covered FunctionTable.standard.names 0 "2sin x".toList
        [⟨.number, "2", 0⟩, ⟨.function, "sin", 1⟩, ⟨.letter, "x", 5⟩] ∧
      tokenize FunctionTable.standard.names "sin x" = [⟨.function, "sin", 0⟩, ⟨.letter, "x", 4⟩] ∧
      tokenize FunctionTable.standard.names "2 sin x"
        = [⟨.number, "2", 0⟩, ⟨.function, "sin", 2⟩, ⟨.letter, "x", 6⟩] := by
  have htable : ∀ entry ∈ FunctionTable.standard.entries, entry.name ≠ "" := by decide
  have htokens : tokenize FunctionTable.standard.names "2sin x"
      = [⟨.number, "2", 0⟩] ++ ⟨.function, "sin", 1⟩ :: [⟨.letter, "x", 5⟩] := by
    decide +kernel
  obtain ⟨hcovered, -, hdrop, hinsert⟩ := lexing_is_lossless .standard htable "2sin x"
  rw [htokens] at hcovered
  have hrest : String.ofList ("2sin x".toList.drop (1 : Int).toNat) = "sin x" := by decide
  have hsine := hdrop _ _ _ htokens
  rw [hrest] at hsine
  have hspaced := hinsert "2" "" "sin x" " " (by decide) (forall_mem_of_all rfl)
    (forall_mem_of_all rfl) _ _ _ htokens rfl
  exact ⟨hcovered, hsine, hspaced⟩

end Locus
