import Locus.Proofs.Token.Spacing

/-! Names are read as far as they go. The names of a table come longest first, so the first one that a
text begins with is also the longest, in whatever order they were added and whichever of them begin
others (`names_read_longest`). -/

namespace Locus
set_option autoImplicit false

/-! ## The order of names -/

namespace FunctionTable

variable {a b name : String} {names : List String}

theorem length_le_of_comesBefore (h : comesBefore a b) : b.length ≤ a.length := by
  simp only [comesBefore, Bool.or_eq_true, Bool.and_eq_true, decide_eq_true_eq, beq_iff_eq] at h
  rcases h with hlonger | ⟨hsame, -⟩
  · exact hlonger.le
  · exact hsame.ge

theorem length_le_of_not_comesBefore (h : ¬comesBefore a b) : a.length ≤ b.length := by
  by_contra hlonger
  refine h ?_
  rw [comesBefore, decide_eq_true (not_le.mp hlonger), Bool.true_or]

/-- No name is shorter than a later one. -/
def LongestFirst (names : List String) : Prop := names.Pairwise fun a b => b.length ≤ a.length

theorem longestFirst_insertName (h : LongestFirst names) : LongestFirst (insertName name names) := by
  induction names with
  | nil => exact List.pairwise_singleton _ _
  | cons n rest ih =>
    obtain ⟨hn, hrest⟩ := List.pairwise_cons.mp h
    rw [insertName]
    split_ifs with hbefore
    · have hlength := length_le_of_comesBefore hbefore
      refine List.pairwise_cons.mpr ⟨fun b hb => ?_, h⟩
      rcases List.mem_cons.mp hb with rfl | hb
      · exact hlength
      · exact (hn b hb).trans hlength
    · refine List.pairwise_cons.mpr ⟨fun b hb => ?_, ih hrest⟩
      rcases mem_insertName.mp hb with rfl | hb
      · exact length_le_of_not_comesBefore hbefore
      · exact hn b hb

theorem longestFirst_names (t : FunctionTable) : LongestFirst t.names := by
  rw [names]
  induction t.entries.map (·.name) with
  | nil => exact List.Pairwise.nil
  | cons n rest ih => exact longestFirst_insertName ih

end FunctionTable

/-! ## The longest name -/

/-- The text begins with the name of this entry, apart from case, and with no longer one. -/
structure FunctionTable.IsLongest (table : FunctionTable) (entry : FunctionEntry) (s : List Char) :
    Prop where
  mem : entry ∈ table.entries
  begins : startsWithName entry.name.toList s
  longest : ∀ other ∈ table.entries, startsWithName other.name.toList s →
    other.name.length ≤ entry.name.length

section

variable {table : FunctionTable} {c : Char} {rest s : List Char}

theorem length_le_of_leadingName? {names : List String} (h : FunctionTable.LongestFirst names)
    {found other : String} (hfound : leadingName? names s = some found) (hother : other ∈ names)
    (hstarts : startsWithName other.toList s) : other.length ≤ found.length := by
  obtain ⟨-, earlier, later, rfl, hearlier⟩ := List.find?_eq_some_iff_append.mp hfound
  rcases List.mem_append.mp hother with hmem | hmem
  · -- an earlier name is passed over only if it is empty
    have hnot := hearlier other hmem
    rw [hstarts, Bool.and_true, Bool.not_not, String.isEmpty_iff] at hnot
    rw [hnot]
    exact Nat.zero_le _
  · rcases List.mem_cons.mp hmem with rfl | hmem
    · exact le_rfl
    · exact (List.pairwise_cons.mp (List.pairwise_append.mp h).2.1).1 other hmem

theorem exists_isLongest {found : String} (h : leadingName? table.names s = some found) :
    ∃ entry, table.IsLongest entry s ∧ entry.name = found := by
  obtain ⟨entry, hentry, rfl⟩ := FunctionTable.mem_names.mp (List.mem_of_find?_eq_some h)
  have hstarts := List.find?_some h
  rw [Bool.and_eq_true] at hstarts
  refine ⟨entry, ⟨hentry, hstarts.2, fun other hother hbegins => ?_⟩, rfl⟩
  exact length_le_of_leadingName? table.longestFirst_names h
    (FunctionTable.mem_names.mpr ⟨other, hother, rfl⟩) hbegins

theorem leadingName?_isSome_iff (htable : ∀ entry ∈ table.entries, entry.name ≠ "") :
    (leadingName? table.names s).isSome ↔
      ∃ entry ∈ table.entries, startsWithName entry.name.toList s := by
  constructor
  · intro h
    obtain ⟨found, hfound⟩ := Option.isSome_iff_exists.mp h
    obtain ⟨entry, hlongest, -⟩ := exists_isLongest hfound
    exact ⟨entry, hlongest.mem, hlongest.begins⟩
  · rintro ⟨entry, hentry, hstarts⟩
    refine List.find?_isSome.mpr ⟨entry.name, FunctionTable.mem_names.mpr ⟨entry, hentry, rfl⟩, ?_⟩
    rw [hstarts, Bool.and_true, Bool.not_eq_true', String.isEmpty_eq_false_iff]
    exact htable entry hentry

/-! ## Lexemes -/

theorem plainLexeme_ne_function (c : Char) (rest : List Char) :
    (plainLexeme c rest).kind ≠ .function := by
  unfold plainLexeme
  split_ifs
  · exact fun h => nomatch h
  · exact fun h => nomatch h
  · exact fun h => nomatch h
  · exact signKind?_ne (.inr rfl) c

/-- A name of a function wins over everything else that a text may begin with. -/
theorem leadingLexeme_function_iff {names : List String} :
    (leadingLexeme names c rest).kind = .function ↔ (leadingName? names (c :: rest)).isSome := by
  cases hfunction : leadingName? names (c :: rest) with
  | some found =>
    rw [leadingLexeme_function hfunction]
    exact iff_of_true rfl rfl
  | none =>
    refine iff_of_false ?_ Bool.false_ne_true
    cases hconstant : leadingName? (constants.map (·.1)) (c :: rest) with
    | some found =>
      rw [leadingLexeme_constant hfunction hconstant]
      exact fun h => nomatch h
    | none =>
      rw [leadingLexeme_plain hfunction hconstant]
      exact plainLexeme_ne_function c rest

/-! ## Tokens -/

/-- Where a token begins, the text goes on with a character that is not blank, and the token is the
lexeme there. -/
theorem exists_leadingLexeme {names : List String} {position : Nat} {t : Token}
    {before after : List Token} (h : tokensFrom names position s = before ++ t :: after) :
    ∃ left c rest, s = left ++ c :: rest ∧ t.position = (position + left.length : Nat) ∧
      t.kind = (leadingLexeme names c rest).kind ∧ t.text = (leadingLexeme names c rest).text ∧
      after = tokensFrom names (position + left.length + 1 + (leadingLexeme names c rest).more)
        (rest.drop (leadingLexeme names c rest).more) := by
  obtain ⟨n, hn, hdrop⟩ := exists_drop before h
  have hsplit := List.take_append_drop n s
  have hlength : n < s.length := by
    by_contra hlong
    rw [List.drop_eq_nil_of_le (not_lt.mp hlong), tokensFrom_nil] at hdrop
    cases hdrop
  cases hs : s.drop n with
  | nil =>
    rw [hs, tokensFrom_nil] at hdrop
    cases hdrop
  | cons c rest =>
    rw [hs] at hdrop hsplit
    have hleft : (s.take n).length = n := List.length_take_of_le hlength.le
    by_cases hc : isBlank c
    · -- behind a blank, all tokens begin too far on
      rw [tokensFrom_blank hc] at hdrop
      have hlate := le_position (hdrop ▸ List.mem_cons_self : t ∈ _)
      omega
    · rw [tokensFrom_lexeme hc, List.cons.injEq] at hdrop
      obtain ⟨rfl, hafter⟩ := hdrop
      refine ⟨s.take n, c, rest, hsplit.symm, ?_, rfl, rfl, ?_⟩
      · rw [hleft]
      · rw [hleft, hafter]

end

/-- Where a token begins, it is that of a function if and only if the text goes on with the name of an
entry, whatever its case. It then spans the longest such name: it holds these characters in lower case,
and what comes behind them is lexed next. -/
theorem names_read_longest (table : FunctionTable)
    (htable : ∀ entry ∈ table.entries, entry.name ≠ "") (text : String) (before : List Token)
    (t : Token) (after : List Token) (h : tokenize table.names text = before ++ t :: after) :
    ∃ left right, text.toList = left ++ right ∧ t.position = left.length ∧
      (t.kind = .function ↔ ∃ entry ∈ table.entries, startsWithName entry.name.toList right) ∧
      (t.kind = .function → ∃ entry, table.IsLongest entry right ∧
        t.text = String.ofList (lowerCase (right.take entry.name.length)) ∧
        after = tokensFrom table.names (left.length + entry.name.length)
          (right.drop entry.name.length)) := by
  obtain ⟨left, c, rest, hsplit, hposition, hkind, htext, hafter⟩ := exists_leadingLexeme h
  rw [Nat.zero_add] at hposition hafter
  refine ⟨left, c :: rest, hsplit, hposition, ?_, fun hfunction => ?_⟩
  · rw [hkind, leadingLexeme_function_iff, leadingName?_isSome_iff htable]
  · rw [hkind, leadingLexeme_function_iff] at hfunction
    obtain ⟨found, hfound⟩ := Option.isSome_iff_exists.mp hfunction
    obtain ⟨entry, hlongest, rfl⟩ := exists_isLongest hfound
    rw [leadingLexeme_function hfound] at htext hafter
    refine ⟨entry, hlongest, htext, ?_⟩
    obtain ⟨k, hk⟩ : ∃ k, entry.name.length = k + 1 := by
      refine Nat.exists_eq_succ_of_ne_zero fun hzero => htable entry hlongest.mem ?_
      exact String.length_eq_zero_iff.mp hzero
    rw [hk, List.drop_succ_cons, ← Nat.add_assoc, Nat.add_right_comm, hafter, hk, Nat.add_sub_cancel]

/-- Names that begin one another, though not in the same case. -/
def FunctionTable.nested : FunctionTable :=
  ⟨[⟨"Sin", "sin", ""⟩, ⟨"si", "integralSine", ""⟩, ⟨"sinH", "sinh", ""⟩]⟩

theorem names_of_nested_read_longest :
    (∀ entry ∈ FunctionTable.nested.entries, entry.name ≠ "") ∧
      tokenize FunctionTable.nested.names "2SINHx"
        = [⟨.number, "2", 0⟩] ++ ⟨.function, "sinh", 1⟩ :: [⟨.letter, "x", 5⟩] ∧
      ∃ entry, FunctionTable.nested.IsLongest entry "SINHx".toList ∧
        lowerCase ("SINHx".toList.take entry.name.length) = "sinh".toList := by
  have htable : ∀ entry ∈ FunctionTable.nested.entries, entry.name ≠ "" := by decide
  have htokens : tokenize FunctionTable.nested.names "2SINHx"
      = [⟨.number, "2", 0⟩] ++ ⟨.function, "sinh", 1⟩ :: [⟨.letter, "x", 5⟩] := by
    decide +kernel
  obtain ⟨left, right, hsplit, hposition, -, hspan⟩ :=
    names_read_longest .nested htable "2SINHx" _ _ _ htokens
  obtain ⟨entry, hlongest, htext, -⟩ := hspan rfl
  have hone : left.length = 1 := by
    dsimp only at hposition
    omega
  have hright : right = "SINHx".toList := by
    have hdrop := congrArg (List.drop 1) hsplit
    rw [← hone, List.drop_left, hone] at hdrop
    exact hdrop.symm
  subst hright
  refine ⟨htable, htokens, entry, hlongest, ?_⟩
  exact ((congrArg String.toList htext).trans String.toList_ofList).symm

end Locus
