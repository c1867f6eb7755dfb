import Locus.Proofs.Token.Variants
import Locus.Shading.Template

/-! Identifiers of the shading language. What is made of a name is a word in letters and digits of
any script (`isWord_identifier`), keeps those of the name in their order (`filter_identifier`), and
a word is left as it is (`identifier_eq_self_iff`). The language itself has no letters and digits
beside those of ASCII, so the word is an identifier of it if the name has no others. -/

namespace Locus
set_option autoImplicit false

/-! ## Words -/

/-- A text in characters of one class, the first of which is not of another one. -/
@[mk_iff]
structure IsName (member digit : Char → Bool) (s : List Char) : Prop where
  ne_nil : s ≠ []
  members : ∀ c ∈ s, member c
  starts : ∀ c ∈ s.head?, digit c = false

instance (member digit : Char → Bool) : DecidablePred (IsName member digit) := fun s =>
  decidable_of_iff _ (isName_iff member digit s).symm

theorem IsName.congr {member digit member' digit' : Char → Bool} {s : List Char}
    (hname : IsName member digit s) (h : ∀ c ∈ s, member c = member' c ∧ digit c = digit' c) :
    IsName member' digit' s where
  ne_nil := hname.ne_nil
  members c hc := (h c hc).1 ▸ hname.members c hc
  starts c hc := (h c (List.mem_of_mem_head? hc)).2 ▸ hname.starts c hc

/-- A word in letters, digits and underscores, whatever their script. -/
abbrev IsWord : List Char → Prop := IsName wordCharacters.contains digitCharacters.contains

/-- The letters and digits of a text. The underscore is not among them, since it also takes the place
of what is in no word. -/
def isKept (c : Char) : Bool := wordCharacters.contains c && c != '_'

/-! ## Trimming -/

section

variable {p q : Char → Bool} {s : List Char} {c : Char}

theorem filter_dropWhile (h : ∀ c, p c → q c = false) (s : List Char) :
    (s.dropWhile p).filter q = s.filter q := by
  have hnone : (s.takeWhile p).filter q = [] := by
    rw [List.filter_eq_nil_iff]
    intro c hc
    rw [h c (List.mem_takeWhile_imp hc)]
    exact Bool.false_ne_true
  conv_rhs => rw [← List.takeWhile_append_dropWhile (p := p) (l := s), List.filter_append, hnone]
  rfl

/-- Trimming keeps what is not of the kind that is trimmed. -/
theorem filter_trimWhere (h : ∀ c, p c → q c = false) (s : List Char) :
    (trimWhere p s).filter q = s.filter q := by
  rw [trimWhere, List.filter_reverse, filter_dropWhile h, List.filter_reverse, List.reverse_reverse,
    filter_dropWhile h]

theorem not_word_of_isBlank (h : isBlank c) : wordCharacters.contains c = false := by
  have htable : ∀ n ∈ CharSet.codes blanks.changes,
      CharSet.memberFrom n false wordCharacters.changes = false :=
    forall_mem_of_all (by decide +kernel)
  exact htable c.toNat (CharSet.mem_codes rfl h)

theorem trimBlanks_of_word (h : ∀ c ∈ s, wordCharacters.contains c) : trimBlanks s = s := by
  refine trimWhere_eq_self fun c hc => ?_
  by_contra hblank
  have hword := h c hc
  rw [not_word_of_isBlank (Bool.eq_true_of_not_eq_false hblank)] at hword
  cases hword

end

/-! ## Joining the words of a text -/

section

variable {s : List Char}

theorem word_underscore : wordCharacters.contains '_' := by decide +kernel

theorem word_of_mem_joinWords (replaced : Bool) (s : List Char) :
    ∀ c ∈ joinWords replaced s, wordCharacters.contains c := by
  induction s generalizing replaced with
  | nil => exact fun c hc => absurd hc List.not_mem_nil
  | cons c s ih =>
    rw [joinWords]
    split_ifs with hword
    · exact List.forall_mem_cons.mpr ⟨hword, ih false⟩
    · exact ih true
    · exact List.forall_mem_cons.mpr ⟨word_underscore, ih true⟩

theorem joinWords_of_word (h : ∀ c ∈ s, wordCharacters.contains c) (replaced : Bool) :
    joinWords replaced s = s := by
  induction s generalizing replaced with
  | nil => rfl
  | cons c s ih =>
    obtain ⟨hc, hs⟩ := List.forall_mem_cons.mp h
    rw [joinWords, if_pos hc, ih hs]

theorem filter_underscore (s : List Char) : ('_' :: s).filter isKept = s.filter isKept :=
  List.filter_cons_of_neg (by simp [isKept])

/-- The underscores that are put in are all that joining adds, and only characters of no word are
lost. -/
theorem filter_joinWords (replaced : Bool) (s : List Char) :
    (joinWords replaced s).filter isKept = s.filter isKept := by
  induction s generalizing replaced with
  | nil => rfl
  | cons c s ih =>
    have hlost : ¬wordCharacters.contains c → (c :: s).filter isKept = s.filter isKept :=
      fun hword => List.filter_cons_of_neg (by simp [isKept, hword])
    -- a character of a word, one inside a run of others, and one that begins such a run
    rw [joinWords]
    split_ifs with hword
    · rw [List.filter_cons, List.filter_cons, ih]
    · rw [hlost hword, ih]
    · rw [hlost hword, filter_underscore, ih]

end

/-! ## The word made of a name -/

section

variable {s : List Char}

theorem isWord_identifier (name : List Char) : IsWord (identifier name) := by
  have hunderscore : digitCharacters.contains '_' = false := by decide +kernel
  have hwords := word_of_mem_joinWords false (trimBlanks name)
  rw [identifier]
  split
  · exact ⟨List.cons_ne_nil _ _, by simpa using word_underscore, by simpa using hunderscore⟩
  · next c rest hjoined =>
    rw [hjoined] at hwords
    split_ifs with hdigit
    · refine ⟨List.cons_ne_nil _ _, ?_, by simpa using hunderscore⟩
      exact List.forall_mem_cons.mpr ⟨word_underscore, hwords⟩
    · exact ⟨List.cons_ne_nil _ _, hwords, by simpa using hdigit⟩

example : identifier [' ', '2', '-', ' ', 'd'] = ['_', '2', '_', 'd'] := by decide +kernel

theorem IsWord.identifier_eq (h : IsWord s) : identifier s = s := by
  rw [identifier, trimBlanks_of_word h.members, joinWords_of_word h.members]
  cases s with
  | nil => exact absurd rfl h.ne_nil
  | cons c rest =>
    have hstarts : digitCharacters.contains c = false := h.starts c rfl
    simp [hstarts]

/-- The words are the texts of which nothing new is made. -/
theorem identifier_eq_self_iff : identifier s = s ↔ IsWord s :=
  ⟨fun h => h ▸ isWord_identifier s, IsWord.identifier_eq⟩

/-- The letters and digits of a name are kept in their order, and no others come in. -/
theorem filter_identifier (name : List Char) :
    (identifier name).filter isKept = name.filter isKept := by
  have hblank : ∀ c, isBlank c → isKept c = false := by
    intro c hc
    rw [isKept, not_word_of_isBlank hc, Bool.false_and]
  have hjoined : (joinWords false (trimBlanks name)).filter isKept = name.filter isKept := by
    rw [filter_joinWords, trimBlanks, filter_trimWhere hblank]
  rw [← hjoined, identifier]
  split
  · next hnil => rw [filter_underscore, hnil]
  · next c rest hcons =>
    rw [hcons]
    split_ifs
    · exact filter_underscore _
    · rfl

end

namespace Shading

/-! ## The alphabet of the shading language -/

def isIdentifierChar (c : Char) : Bool := c.isAlphanum || c == '_'

/-- An identifier of the shading language: ASCII letters, digits and underscores, not beginning with
a digit. -/
abbrev IsIdentifier : List Char → Prop := IsName isIdentifierChar Char.isDigit

def IsAscii (c : Char) : Prop := c.toNat < 0x80

instance : DecidablePred IsAscii := fun _ => inferInstanceAs (Decidable (_ < _))

section

variable {s : List Char} {c : Char}

/-- Within ASCII the tables of all scripts say what the shading language says. -/
theorem contains_of_isAscii (h : IsAscii c) :
    wordCharacters.contains c = isIdentifierChar c ∧ digitCharacters.contains c = c.isDigit := by
  have htable : ∀ c ∈ charactersFrom 0 0x80,
      wordCharacters.contains c = isIdentifierChar c ∧ digitCharacters.contains c = c.isDigit :=
    forall_mem_of_all (by decide +kernel)
  exact htable c (mem_charactersFrom (Nat.zero_le _) (by simpa [IsAscii] using h))

theorem isAscii_of_isIdentifierChar (h : isIdentifierChar c) : IsAscii c := by
  rw [isIdentifierChar, Bool.or_eq_true, beq_iff_eq] at h
  rcases h with h | rfl
  · simp only [Char.isAlphanum, Char.isAlpha, Char.isUpper, Char.isLower, Char.isDigit,
      Bool.or_eq_true, Bool.and_eq_true, decide_eq_true_eq, UInt32.le_iff_toNat_le] at h
    have hcode : c.toNat = c.val.toNat := rfl
    rw [IsAscii, hcode]
    rcases h with (⟨-, h⟩ | ⟨-, h⟩) | ⟨-, h⟩ <;> exact Nat.lt_of_le_of_lt h (by decide)
  · decide

/-- In ASCII the words are the identifiers of the shading language. -/
theorem isIdentifier_iff : IsIdentifier s ↔ IsWord s ∧ ∀ c ∈ s, IsAscii c := by
  constructor
  · intro h
    have hascii : ∀ c ∈ s, IsAscii c := fun c hc => isAscii_of_isIdentifierChar (h.members c hc)
    exact ⟨h.congr fun c hc => (contains_of_isAscii (hascii c hc)).imp Eq.symm Eq.symm, hascii⟩
  · rintro ⟨h, hascii⟩
    exact h.congr fun c hc => contains_of_isAscii (hascii c hc)

/-- Whether the characters of words are in ASCII depends on the letters and digits alone. -/
theorem ascii_iff_of_kept (s : List Char) :
    (∀ c ∈ s, wordCharacters.contains c → IsAscii c) ↔ ∀ c ∈ s.filter isKept, IsAscii c := by
  constructor
  · intro h c hc
    obtain ⟨hmem, hkept⟩ := List.mem_filter.mp hc
    rw [isKept, Bool.and_eq_true] at hkept
    exact h c hmem hkept.1
  · intro h c hc hword
    by_cases hunderscore : c = '_'
    · rw [hunderscore]
      decide
    · exact h c (List.mem_filter.mpr ⟨hc, by simp [isKept, hword, hunderscore]⟩)

theorem isIdentifier_identifier_iff (name : List Char) :
    IsIdentifier (identifier name) ↔
      ∀ c ∈ name, wordCharacters.contains c → IsAscii c := by
  have hword := isWord_identifier name
  -- the two texts do not have the same underscores, so they are compared by what is kept
  rw [isIdentifier_iff, ascii_iff_of_kept, ← filter_identifier, ← ascii_iff_of_kept]
  constructor
  · exact fun h c hc _ => h.2 c hc
  · exact fun h => ⟨hword, fun c hc => h c hc (hword.members c hc)⟩

end

/-! ## Names in sources -/

/-- A hole takes every text as a name. -/
theorem write_identifier (name : String) : HoleForm.identifier.write (.text name)
    = .ok (String.ofList (identifier name.toList)) := rfl

/-- The identifier of a name is a word that is its own identifier and has the letters and digits of
the name in their order. It is an identifier of the shading language if and only if all of these are
ASCII. -/
theorem identifiers_plain_iff (name : String) :
    ∃ text, HoleForm.identifier.write (.text name) = .ok text ∧
      IsWord text.toList ∧
      HoleForm.identifier.write (.text text) = .ok text ∧
      text.toList.filter isKept = name.toList.filter isKept ∧
      (IsIdentifier text.toList ↔ ∀ c ∈ name.toList, wordCharacters.contains c → IsAscii c) := by
  have hword := isWord_identifier name.toList
  have hsettled := identifier_eq_self_iff.mpr hword
  refine ⟨_, write_identifier name, ?_⟩
  rw [write_identifier, String.toList_ofList, hsettled]
  exact ⟨hword, rfl, filter_identifier _, isIdentifier_identifier_iff _⟩

/-- A Greek letter is left in, though the language has no such letter. -/
theorem identifier_of_greekName_not_plain :
    ¬∀ (name text : String), HoleForm.identifier.write (.text name) = .ok text →
      IsIdentifier text.toList := by
  intro h
  have hwrite : HoleForm.identifier.write (.text "θf") = .ok "θf" := by decide +kernel
  have hgreek : ¬isIdentifierChar 'θ' := by decide
  exact hgreek ((h "θf" "θf" hwrite).members 'θ' (by simp))

end Shading
end Locus
