import Locus.Proofs.Token.Alphabet

/-! Characters that count as equal to a given one. White space counts as equal to itself alone, and a
lower case letter to its capital and to nothing beside it, except that three letters are taken for an
`i` or an `s` and have another lower case (`strayLetters`). -/

namespace Locus
set_option autoImplicit false

/-! ## What becomes of a character -/

/-- Whether lower case can lead from the code points of a run to this one. -/
def CaseRun.Reaches (r : CaseRun) (n : Nat) : Prop :=
  (r.first : Int) + r.shift ≤ n ∧ (n : Int) ≤ r.last + r.shift

instance (r : CaseRun) (n : Nat) : Decidable (r.Reaches n) :=
  inferInstanceAs (Decidable (_ ∧ _))

theorem toNat_ofNat_cases (n : Nat) : (Char.ofNat n).toNat = n ∨ (Char.ofNat n).toNat = 0 := by
  by_cases hvalid : n.isValidChar
  · left
    rw [Char.ofNat, dif_pos hvalid]
    simp [Char.ofNatAux, Char.toNat]
  · right
    rw [Char.ofNat, dif_neg hvalid]
    rfl

variable {b c : Char}

theorem lowerChar_of_no_run (h : ∀ r ∈ lowerRuns, ¬(r.first ≤ c.toNat ∧ c.toNat ≤ r.last)) :
    lowerChar c = c := by
  have hnone : lowerRuns.find? (fun r => r.first ≤ c.toNat && c.toNat ≤ r.last
      && (c.toNat - r.first) % r.stride == 0) = none := by
    rw [List.find?_eq_none]
    intro r hr hmatch
    simp only [Bool.and_eq_true, decide_eq_true_eq] at hmatch
    exact h r hr hmatch.1
  rw [lowerChar, hnone]

/-- A character to which no run leads is the lower case of itself alone. -/
theorem eq_of_lowerChar_eq (hb : b.toNat ≠ 0) (hunreached : ∀ r ∈ lowerRuns, ¬r.Reaches b.toNat)
    (h : lowerChar c = b) : c = b := by
  rw [lowerChar] at h
  split at h
  · next r hfind =>
    have hrange := List.find?_some hfind
    simp only [Bool.and_eq_true, decide_eq_true_eq] at hrange
    obtain ⟨⟨hfirst, hlast⟩, -⟩ := hrange
    have hcode := toNat_ofNat_cases ((c.toNat : Int) + r.shift).toNat
    rw [h] at hcode
    refine absurd ⟨?_, ?_⟩ (hunreached r (List.mem_of_find?_eq_some hfind)) <;> omega
  · exact h

/-! ## White space -/

/-- A code point that no table of cases and variants has. -/
structure Caseless (n : Nat) : Prop where
  pos : n ≠ 0
  lower : ∀ r ∈ lowerRuns, ¬(r.first ≤ n ∧ n ≤ r.last) ∧ ¬r.Reaches n
  variants : ∀ variants ∈ letterVariants, n ∉ variants

theorem Caseless.eq_of_sameLetter (hc : Caseless c.toNat) (h : sameLetter b c) : b = c := by
  rw [sameLetter, lowerChar_of_no_run fun r hr => (hc.lower r hr).1, Bool.or_eq_true] at h
  rcases h with h | h
  · exact eq_of_lowerChar_eq hc.pos (fun r hr => (hc.lower r hr).2) (beq_iff_eq.mp h)
  · obtain ⟨variants, hvariant, hboth⟩ := List.any_eq_true.mp h
    simp only [Bool.and_eq_true, List.contains_iff_mem] at hboth
    exact absurd hboth.2 (hc.variants variants hvariant)

/-- The code points of a set, given by those at which membership changes. -/
def CharSet.codes : List Nat → List Nat
  | enter :: leave :: rest => List.range' enter (leave - enter) ++ codes rest
  | _ => []

theorem CharSet.mem_codes {n : Nat} {changes : List Nat} (hend : changes.length % 2 = 0)
    (h : CharSet.memberFrom n false changes) : n ∈ CharSet.codes changes := by
  induction changes using CharSet.codes.induct with
  | case1 enter leave rest ih =>
    rw [CharSet.memberFrom] at h
    rw [CharSet.codes, List.mem_append, List.mem_range'_1]
    split at h
    · cases h
    · rw [CharSet.memberFrom] at h
      split at h
      · left
        omega
      · rw [List.length_cons, List.length_cons] at hend
        exact .inr (ih (by omega) h)
  | case2 changes hshort =>
    match changes with
    | [] => cases h
    | [enter] => cases hend
    | enter :: leave :: rest => exact absurd rfl (hshort enter leave rest)

theorem caseless_blanks : ∀ n ∈ CharSet.codes blanks.changes, Caseless n := by
  have hpos : ∀ n ∈ CharSet.codes blanks.changes, n ≠ 0 := forall_mem_of_all (by decide)
  have hlower : ∀ n ∈ CharSet.codes blanks.changes, ∀ r ∈ lowerRuns,
      ¬(r.first ≤ n ∧ n ≤ r.last) ∧ ¬r.Reaches n := forall_mem_of_all (by decide +kernel)
  have hvariants : ∀ n ∈ CharSet.codes blanks.changes, ∀ variants ∈ letterVariants,
      n ∉ variants := forall_mem_of_all (by decide)
  exact fun n hn => ⟨hpos n hn, hlower n hn, hvariants n hn⟩

/-- White space has no other case. -/
theorem eq_of_sameLetter_blank (hc : isBlank c) (h : sameLetter b c) : b = c :=
  (caseless_blanks _ (CharSet.mem_codes rfl hc)).eq_of_sameLetter h

/-! ## Letters -/

/-- Letters that count as equal to an `s` or an `i` and are not made such by lower case. -/
def strayLetters : List Char := ['ſ', 'ı', 'İ']

/-- What counts as equal to a lower case letter has it as its lower case, or is astray. -/
theorem lowerChar_or_stray (hb : b ∈ charactersFrom 0x61 26) (h : sameLetter b c) :
    lowerChar c = b ∨ c ∈ strayLetters := by
  have hascii : ∀ a ∈ charactersFrom 0x61 26, 0x61 ≤ a.toNat ∧ a.toNat ≤ 0x7A :=
    forall_mem_of_all rfl
  have hself : lowerChar b = b :=
    lowerChar_lowerLetter (List.mem_cons_of_mem _ (List.mem_cons_of_mem _ hb))
  rw [sameLetter, hself, Bool.or_eq_true] at h
  rcases h with h | h
  · exact .inl (beq_iff_eq.mp h).symm
  · obtain ⟨variants, hvariants, hboth⟩ := List.any_eq_true.mp h
    simp only [Bool.and_eq_true, List.contains_iff_mem] at hboth
    have htable : ∀ variants ∈ letterVariants, ∀ m ∈ variants, 0x61 ≤ m ∧ m ≤ 0x7A →
        ∀ n ∈ variants, n = m ∨ n = 'ſ'.toNat ∨ n = 'ı'.toNat :=
      forall_mem_of_all (by decide)
    have hunreached : ∀ a ∈ ['ſ', 'ı'], a.toNat ≠ 0 ∧ ∀ r ∈ lowerRuns, ¬r.Reaches a.toNat :=
      forall_mem_of_all (by decide +kernel)
    have hstray : ∀ a ∈ ['ſ', 'ı'], lowerChar c = a → c ∈ strayLetters := by
      intro a ha heq
      obtain ⟨hpos, hnone⟩ := hunreached a ha
      rw [eq_of_lowerChar_eq hpos hnone heq]
      exact List.mem_append_left ['İ'] ha
    rcases htable variants hvariants _ hboth.1 (hascii b hb) _ hboth.2 with heq | heq | heq
    · exact .inl (Char.toNat_inj.mp heq)
    · exact .inr (hstray 'ſ' (by simp) (Char.toNat_inj.mp heq))
    · exact .inr (hstray 'ı' (by simp) (Char.toNat_inj.mp heq))

end Locus
