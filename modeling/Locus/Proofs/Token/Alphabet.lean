import Mathlib
import Locus.Proofs.Token.Lexer

/-! The characters that rendered expressions are made of: letters and a few marks. Apart from case
each of them is only itself, so what a text over this alphabet begins with can be decided by looking
at lower case letters. -/

namespace Locus
set_option autoImplicit false

/-- A decision over the members of a list goes through the list and not through all that there
is. -/
theorem forall_mem_of_all {α : Type} {p : α → Prop} [DecidablePred p] {l : List α}
    (h : l.all (fun a => decide (p a)) = true) : ∀ a ∈ l, p a := by
  simpa using h

/-! ## Characters -/

def charactersFrom (first count : Nat) : List Char :=
  (List.range count).map fun n => Char.ofNat (first + n)

def lowerLetters : List Char := 'θ' :: 'π' :: charactersFrom 0x61 26

def upperLetters : List Char := charactersFrom 0x41 26

/-- The letters that name variables. -/
def letters : List Char := lowerLetters ++ upperLetters

def marks : List Char :=
  [' ', '(', ')', '^', '/', '*', '-', '+', '=', '.'] ++ charactersFrom 0x30 10

def alphabet : List Char := letters ++ marks

theorem mem_charactersFrom {first count : Nat} {c : Char} (hlower : first ≤ c.toNat)
    (hupper : c.toNat < first + count) : c ∈ charactersFrom first count := by
  refine List.mem_map.mpr ⟨c.toNat - first, List.mem_range.mpr (by omega), ?_⟩
  rw [Nat.add_sub_cancel' hlower, Char.ofNat_toNat]

theorem mem_letters_of_isLetter {c : Char} (h : isLetter c) : c ∈ letters := by
  simp only [isLetter, Bool.or_eq_true, Bool.and_eq_true, decide_eq_true_eq] at h
  rcases h with ⟨hlower, hupper⟩ | ⟨hlower, hupper⟩
  · have hlower' : 0x41 ≤ c.toNat := hlower
    have hupper' : c.toNat ≤ 0x5A := hupper
    exact List.mem_append_right _ (mem_charactersFrom hlower' (by omega))
  · have hlower' : 0x61 ≤ c.toNat := hlower
    have hupper' : c.toNat ≤ 0x7A := hupper
    have hc : c ∈ charactersFrom 0x61 26 := mem_charactersFrom hlower' (by omega)
    exact List.mem_append_left _ (List.mem_cons_of_mem _ (List.mem_cons_of_mem _ hc))

theorem mem_marks_of_isDigit {c : Char} (h : c.isDigit) : c ∈ marks := by
  simp only [Char.isDigit, Bool.and_eq_true, decide_eq_true_eq] at h
  have hlower : 0x30 ≤ c.toNat := h.1
  have hupper : c.toNat ≤ 0x39 := h.2
  exact List.mem_append_right _ (mem_charactersFrom hlower (by omega))

theorem not_lowerLetter_of_mark : ∀ c ∈ marks, c ∉ lowerLetters :=
  forall_mem_of_all rfl

/-! ## Case -/

/-- Among the characters of one byte without accents, only capitals have another lower case. -/
theorem lowerChar_ascii {c : Char} (h : c.toNat < 0xC0) :
    lowerChar c = if 0x41 ≤ c.toNat ∧ c.toNat ≤ 0x5A then Char.ofNat (c.toNat + 32) else c := by
  have hlater : ∀ r ∈ lowerRuns.tail, 0xC0 ≤ r.first := by decide +kernel
  have hnone : lowerRuns.tail.find? (fun r => r.first ≤ c.toNat && c.toNat ≤ r.last
      && (c.toNat - r.first) % r.stride == 0) = none := by
    rw [List.find?_eq_none]
    intro r hr hmatch
    simp only [Bool.and_eq_true, decide_eq_true_eq] at hmatch
    have := hlater r hr
    omega
  have hruns : lowerRuns = ⟨0x41, 0x5A, 1, 32⟩ :: lowerRuns.tail := rfl
  rw [lowerChar, hruns]
  by_cases hcapital : 0x41 ≤ c.toNat ∧ c.toNat ≤ 0x5A
  · rw [if_pos hcapital, List.find?_cons_of_pos (by simp [hcapital, Nat.mod_one])]
    rfl
  · rw [if_neg hcapital, List.find?_cons_of_neg (by simpa [Nat.mod_one] using hcapital), hnone]

theorem lowerChar_of_plain {c : Char} (h : c.toNat < 0xC0 ∧ ¬(0x41 ≤ c.toNat ∧ c.toNat ≤ 0x5A)) :
    lowerChar c = c := by
  rw [lowerChar_ascii h.1, if_neg h.2]

theorem lowerChar_mark {c : Char} (hc : c ∈ marks) : lowerChar c = c := by
  have hplain : ∀ c ∈ marks, c.toNat < 0xC0 ∧ ¬(0x41 ≤ c.toNat ∧ c.toNat ≤ 0x5A) :=
    forall_mem_of_all rfl
  exact lowerChar_of_plain (hplain c hc)

theorem lowerChar_lowerLetter {c : Char} (hc : c ∈ lowerLetters) : lowerChar c = c := by
  have hplain : ∀ c ∈ lowerLetters,
      (c.toNat < 0xC0 ∧ ¬(0x41 ≤ c.toNat ∧ c.toNat ≤ 0x5A)) ∨ c = 'θ' ∨ c = 'π' :=
    forall_mem_of_all rfl
  rcases hplain c hc with h | rfl | rfl
  · exact lowerChar_of_plain h
  · rfl
  · rfl

theorem lowerChar_letter {c : Char} (hc : c ∈ letters) : lowerChar c ∈ lowerLetters := by
  have hcapital : ∀ c ∈ upperLetters,
      (c.toNat < 0xC0 ∧ 0x41 ≤ c.toNat ∧ c.toNat ≤ 0x5A) ∧ Char.ofNat (c.toNat + 32) ∈ lowerLetters :=
    forall_mem_of_all rfl
  rcases List.mem_append.mp hc with hc | hc
  · rwa [lowerChar_lowerLetter hc]
  · obtain ⟨hcode, hlower⟩ := hcapital c hc
    rwa [lowerChar_ascii hcode.1, if_pos hcode.2]

/-- No two characters of the alphabet are variants of one letter. -/
theorem eq_of_letterVariants {a b : Char} (ha : a ∈ lowerLetters ++ marks)
    (hb : b ∈ lowerLetters ++ marks)
    (h : letterVariants.any fun variants =>
      variants.contains a.toNat && variants.contains b.toNat) : a = b := by
  have htable : ∀ variants ∈ letterVariants,
      (variants.filter fun n => (lowerLetters ++ marks).any (·.toNat == n)).length ≤ 1 :=
    forall_mem_of_all rfl
  obtain ⟨variants, hvariants, hboth⟩ := List.any_eq_true.mp h
  simp only [Bool.and_eq_true, List.contains_iff_mem] at hboth
  have hknown : ∀ c ∈ lowerLetters ++ marks, c.toNat ∈ variants →
      c.toNat ∈ variants.filter fun n => (lowerLetters ++ marks).any (·.toNat == n) := by
    intro c hc hmem
    exact List.mem_filter.mpr ⟨hmem, List.any_eq_true.mpr ⟨c, hc, beq_self_eq_true _⟩⟩
  have hfew := htable variants hvariants
  have ha' := hknown a ha hboth.1
  have hb' := hknown b hb hboth.2
  generalize variants.filter _ = known at hfew ha' hb'
  match known with
  | [] => cases ha'
  | [n] =>
    rw [List.mem_singleton] at ha' hb'
    exact Char.toNat_inj.mp (ha'.trans hb'.symm)
  | _ :: _ :: _ => simp at hfew

theorem lowerChar_mem {c : Char} (h : c ∈ alphabet) : lowerChar c ∈ lowerLetters ++ marks := by
  rcases List.mem_append.mp h with h | h
  · exact List.mem_append_left _ (lowerChar_letter h)
  · rw [lowerChar_mark h]
    exact List.mem_append_right _ h

/-- A lower case letter counts as equal only to those that have it as their lower case. -/
theorem eq_lowerChar_of_sameLetter {a c : Char} (ha : a ∈ lowerLetters) (hc : c ∈ alphabet)
    (h : sameLetter a c) : a = lowerChar c := by
  rw [sameLetter, lowerChar_lowerLetter ha, Bool.or_eq_true] at h
  rcases h with h | h
  · exact beq_iff_eq.mp h
  · exact eq_of_letterVariants (List.mem_append_left _ ha) (lowerChar_mem hc) h

theorem sameLetter_self (c : Char) : sameLetter c c := by
  rw [sameLetter, beq_self_eq_true]
  rfl

theorem not_sameLetter_mark {a c : Char} (ha : a ∈ lowerLetters) (hc : c ∈ marks) :
    ¬sameLetter a c := by
  intro h
  have heq := eq_lowerChar_of_sameLetter ha (List.mem_append_right _ hc) h
  rw [lowerChar_mark hc] at heq
  exact not_lowerLetter_of_mark c hc (heq ▸ ha)

/-! ## Names -/

/-- The names that the lexer knows, those of functions before those of constants. -/
def lexedNames : List String := FunctionTable.standard.names ++ constants.map (·.1)

theorem lexedNames_spelling : ∀ name ∈ lexedNames,
    2 ≤ name.toList.length ∧ ∀ c ∈ name.toList, c ∈ lowerLetters := by
  have htable : lexedNames.all (fun name => decide (2 ≤ name.toList.length) &&
      name.toList.all (lowerLetters.contains ·)) = true := by
    decide
  simpa using htable

/-- Two letters side by side that begin a name, apart from case. -/
def BeginsName (a b : Char) : Prop :=
  ∃ name ∈ lexedNames, [lowerChar a, lowerChar b] <+: name.toList

instance (a b : Char) : Decidable (BeginsName a b) :=
  inferInstanceAs (Decidable (∃ name ∈ lexedNames, [lowerChar a, lowerChar b] <+: name.toList))

theorem exists_letters_of_mem {name : String} (h : name ∈ lexedNames) :
    ∃ a b more, name.toList = a :: b :: more ∧ a ∈ lowerLetters ∧ b ∈ lowerLetters := by
  obtain ⟨hlength, hletters⟩ := lexedNames_spelling name h
  match hname : name.toList with
  | [] | [_] =>
    rw [hname] at hlength
    exact absurd hlength (by simp)
  | a :: b :: more =>
    rw [hname] at hletters
    exact ⟨a, b, more, rfl, hletters a (by simp), hletters b (by simp)⟩

/-- A text that begins with a name begins with two letters that do. -/
theorem beginsName_of_startsWithName {name : String} (hname : name ∈ lexedNames) {c : Char}
    {rest : List Char} (hc : c ∈ alphabet) (hrest : ∀ d ∈ rest.head?, d ∈ alphabet)
    (h : startsWithName name.toList (c :: rest)) : ∃ d ∈ rest.head?, BeginsName c d := by
  obtain ⟨a, b, more, hletters, ha, hb⟩ := exists_letters_of_mem hname
  rw [hletters, startsWithName, Bool.and_eq_true] at h
  obtain ⟨hfirst, hrest'⟩ := h
  cases rest with
  | nil => cases hrest'
  | cons d rest =>
    rw [startsWithName, Bool.and_eq_true] at hrest'
    refine ⟨d, rfl, name, hname, ?_⟩
    rw [hletters, ← eq_lowerChar_of_sameLetter ha hc hfirst,
      ← eq_lowerChar_of_sameLetter hb (hrest d rfl) hrest'.1]
    exact ⟨more, rfl⟩

/-- A name that a text over lower case letters and marks begins with stands there as it is. -/
theorem isPrefix_of_startsWithName {name s : List Char} (hname : ∀ c ∈ name, c ∈ lowerLetters)
    (hs : ∀ c ∈ s, c ∈ lowerLetters ++ marks) (h : startsWithName name s) : name <+: s := by
  induction name generalizing s with
  | nil => exact List.nil_prefix
  | cons a name ih =>
    cases s with
    | nil => cases h
    | cons c s =>
      rw [startsWithName, Bool.and_eq_true] at h
      have hlower : lowerChar c = c := by
        rcases List.mem_append.mp (hs c List.mem_cons_self) with hc | hc
        · exact lowerChar_lowerLetter hc
        · exact lowerChar_mark hc
      have hc : c ∈ alphabet := by
        rcases List.mem_append.mp (hs c List.mem_cons_self) with hc | hc
        · exact List.mem_append_left _ (List.mem_append_left _ hc)
        · exact List.mem_append_right _ hc
      have heq := eq_lowerChar_of_sameLetter (hname a List.mem_cons_self) hc h.1
      rw [hlower] at heq
      rw [heq, List.cons_prefix_cons]
      exact ⟨rfl, ih (fun d hd => hname d (List.mem_cons_of_mem a hd))
        (fun d hd => hs d (List.mem_cons_of_mem c hd)) h.2⟩

theorem startsWithName_self (s : List Char) : startsWithName s s := by
  induction s with
  | nil => rfl
  | cons c s ih =>
    rw [startsWithName, sameLetter_self, ih]
    rfl

theorem lowerCase_lowerLetters {s : List Char} (hs : ∀ c ∈ s, c ∈ lowerLetters) :
    lowerCase s = s := by
  have hother : ∀ c ∈ lowerLetters, c ≠ 'Σ' ∧ c ≠ 'İ' := forall_mem_of_all rfl
  suffices hafter : ∀ before, lowerAfter before s = s from hafter []
  induction s with
  | nil => exact fun _ => rfl
  | cons c s ih =>
    intro before
    have hc := hs c List.mem_cons_self
    rw [lowerAfter, if_neg (hother c hc).1, if_neg (hother c hc).2, lowerChar_lowerLetter hc,
      ih fun d hd => hs d (List.mem_cons_of_mem c hd)]
    rfl

theorem not_startsWithName_mark {name : String} (hname : name ∈ lexedNames) {c : Char}
    (hc : c ∈ marks) (rest : List Char) : ¬startsWithName name.toList (c :: rest) := by
  obtain ⟨a, b, more, hletters, ha, -⟩ := exists_letters_of_mem hname
  rw [hletters, startsWithName, Bool.and_eq_true]
  exact fun h => not_sameLetter_mark ha hc h.1

theorem not_mark_of_beginsName {a b c : Char} (h : BeginsName a b) (hc : c ∈ [a, b]) :
    c ∉ marks := by
  obtain ⟨name, hname, hprefix⟩ := h
  have hmem : lowerChar c ∈ name.toList := hprefix.subset (List.mem_map_of_mem hc)
  intro hmark
  rw [lowerChar_mark hmark] at hmem
  exact not_lowerLetter_of_mark c hmark ((lexedNames_spelling name hname).2 c hmem)

end Locus
