import Locus.Proofs.Token.LongestName

/-! Tables that are filled one entry after another. A table holds the latest entry of each name
(`find?_ofAdditions`), but it is asked for names in lower case only. Where the names are letters and
none begins another, a name in any case is read as the function that it names
(`function_mem_of_word`), and this is found if its own name is in lower case (`find?_lowered`). -/

namespace Locus
set_option autoImplicit false

/-- A name in lower case. -/
def lowered (name : String) : String := String.ofList (lowerCase name.toList)

theorem toList_lowered (name : String) : (lowered name).toList = lowerCase name.toList :=
  String.toList_ofList

/-! ## Additions -/

namespace FunctionTable

/-- The table that has been added to in this order. -/
def ofAdditions (added : List FunctionEntry) : FunctionTable := added.foldl add empty

variable {added : List FunctionEntry} {e : FunctionEntry} {q : String}

theorem ofAdditions_concat (added : List FunctionEntry) (e : FunctionEntry) :
    ofAdditions (added ++ [e]) = (ofAdditions added).add e := by
  rw [ofAdditions, List.foldl_append]
  rfl

theorem find?_add (t : FunctionTable) (e : FunctionEntry) (q : String) :
    (t.add e).find? q = if e.name = lowered q then some e else t.find? q := by
  show (t.entries.filter (·.name != e.name) ++ [e]).find? (·.name == lowered q) = _
  rw [List.find?_append]
  by_cases hname : e.name = lowered q
  · have hnone : (t.entries.filter (·.name != e.name)).find? (·.name == lowered q) = none := by
      rw [List.find?_eq_none]
      intro a ha hmatch
      rw [List.mem_filter, bne_iff_ne] at ha
      exact ha.2 ((beq_iff_eq.mp hmatch).trans hname.symm)
    rw [hnone, if_pos hname, Option.none_or, List.find?_cons_of_pos (by simpa using hname)]
  · have hkept : (t.entries.filter (·.name != e.name)).find? (·.name == lowered q)
        = t.entries.find? (·.name == lowered q) := by
      rw [List.find?_filter]
      congr 1
      funext a
      by_cases ha : a.name = lowered q
      · simp [ha, Ne.symm hname]
      · simp [ha]
    rw [hkept, if_neg hname, List.find?_cons_of_neg (by simpa using hname), List.find?_nil,
      Option.or_none]
    rfl

/-- The latest entry whose name is the one looked up, in lower case. -/
theorem find?_ofAdditions (added : List FunctionEntry) (q : String) :
    (ofAdditions added).find? q = added.reverse.find? (·.name == lowered q) := by
  induction added using List.reverseRecOn with
  | nil => rfl
  | append_singleton added e ih =>
    rw [ofAdditions_concat, find?_add, List.reverse_concat, ih, List.find?_cons]
    by_cases hname : e.name = lowered q
    · rw [if_pos hname, beq_iff_eq.mpr hname]
    · rw [if_neg hname, beq_eq_false_iff_ne.mpr hname]

theorem contains_ofAdditions :
    (ofAdditions added).contains q ↔ ∃ e ∈ added, (ofAdditions added).find? q = some e := by
  rw [contains, Option.isSome_iff_exists]
  refine ⟨fun ⟨e, he⟩ => ⟨e, ?_, he⟩, fun ⟨e, _, he⟩ => ⟨e, he⟩⟩
  rw [find?_ofAdditions] at he
  exact List.mem_reverse.mp (List.mem_of_find?_eq_some he)

end FunctionTable

/-! ## Letters in either case -/

section

variable {name word span s : List Char} {a c : Char}

theorem lowerChar_of_isLetter (h : isLetter c) : lowerChar c ∈ charactersFrom 0x61 26 := by
  have hall : ∀ c ∈ letters, isLetter c → lowerChar c ∈ charactersFrom 0x61 26 :=
    forall_mem_of_all (by decide +kernel)
  exact hall c (mem_letters_of_isLetter h) h

/-- Lower case goes through a text character by character, if it leads to plain letters alone. -/
theorem map_lowerChar_of_lowerCase (h : ∀ c ∈ lowerCase s, c ∈ charactersFrom 0x61 26) :
    s.map lowerChar = lowerCase s := by
  suffices hafter : ∀ before, (∀ c ∈ lowerAfter before s, c ∈ charactersFrom 0x61 26) →
      s.map lowerChar = lowerAfter before s from hafter [] h
  clear h
  induction s with
  | nil => exact fun _ _ => rfl
  | cons c s ih =>
    intro before h
    rw [lowerAfter] at h ⊢
    have hfirst := fun d hd => h d (List.mem_append_left _ hd)
    split_ifs at hfirst ⊢ with hsigma hfinal hdotted
    · exact absurd (hfirst 'ς' (by simp)) (by decide)
    · exact absurd (hfirst 'σ' (by simp)) (by decide)
    · exact absurd (hfirst '\u0307' (by simp)) (by decide)
    · rw [List.map_cons, ih (c :: before) fun d hd => h d (List.mem_append_right _ hd)]
      rfl

theorem lowerCase_of_letters (h : ∀ c ∈ s, isLetter c) : lowerCase s = s.map lowerChar := by
  have hother : ∀ c ∈ letters, c ≠ 'Σ' ∧ c ≠ 'İ' := forall_mem_of_all rfl
  suffices hafter : ∀ before, lowerAfter before s = s.map lowerChar from hafter []
  induction s with
  | nil => exact fun _ => rfl
  | cons c s ih =>
    intro before
    obtain ⟨hc, hs⟩ := List.forall_mem_cons.mp h
    obtain ⟨hsigma, hdotted⟩ := hother c (mem_letters_of_isLetter hc)
    rw [lowerAfter, if_neg hsigma, if_neg hdotted, ih hs]
    rfl

theorem lowerCase_letters (h : ∀ c ∈ s, isLetter c) :
    ∀ c ∈ lowerCase s, c ∈ charactersFrom 0x61 26 := by
  rw [lowerCase_of_letters h]
  intro d hd
  obtain ⟨c, hc, rfl⟩ := List.mem_map.mp hd
  exact lowerChar_of_isLetter (h c hc)

theorem mem_lowerLetters (h : c ∈ charactersFrom 0x61 26) : c ∈ lowerLetters :=
  List.mem_cons_of_mem _ (List.mem_cons_of_mem _ h)

theorem lowerCase_lowerCase (h : ∀ c ∈ s, isLetter c) : lowerCase (lowerCase s) = lowerCase s :=
  lowerCase_lowerLetters fun c hc => mem_lowerLetters (lowerCase_letters h c hc)

theorem lowered_lowered {q : String} (h : ∀ c ∈ q.toList, isLetter c) :
    lowered (lowered q) = lowered q := by
  rw [lowered, toList_lowered, lowerCase_lowerCase h]
  rfl

/-- The latest entry of a name, whatever the case of either. -/
def latestAddition? (added : List FunctionEntry) (q : String) : Option FunctionEntry :=
  added.reverse.find? fun e => lowered e.name == lowered q

theorem name_of_find? {entries : List FunctionEntry} {name : String} {e : FunctionEntry}
    (h : entries.find? (·.name == name) = some e) : e.name = name := by
  have hname := List.find?_some h
  exact beq_iff_eq.mp hname

theorem lowered_of_latestAddition? {added : List FunctionEntry} {q : String} {e : FunctionEntry}
    (h : latestAddition? added q = some e) : lowered e.name = lowered q := by
  have hname := List.find?_some h
  exact beq_iff_eq.mp hname

/-- The latest entry is found if and only if it was added in lower case. -/
theorem find?_ofAdditions_eq_latest {added : List FunctionEntry} {q : String}
    (hq : ∀ c ∈ q.toList, isLetter c) :
    (FunctionTable.ofAdditions added).find? q = latestAddition? added q ↔
      ∀ e, latestAddition? added q = some e → e.name = lowered e.name := by
  rw [FunctionTable.find?_ofAdditions]
  constructor
  · intro h e he
    have hname := lowered_of_latestAddition? he
    rw [← h] at he
    exact (name_of_find? he).trans hname.symm
  · intro h
    refine (find?_eq_of_imp (fun e _ hname => ?_) fun e he => ?_).symm
    · rw [beq_iff_eq] at hname ⊢
      rw [hname, lowered_lowered hq]
    · rw [beq_iff_eq, h e he, lowered_of_latestAddition? he]

/-- A name is found where its letters stand in any case. -/
theorem startsWithName_of_map_eq (h : name.map lowerChar = word.map lowerChar) :
    startsWithName name word := by
  induction name generalizing word with
  | nil => rfl
  | cons a name ih =>
    cases word with
    | nil => cases h
    | cons c word =>
      rw [List.map_cons, List.map_cons, List.cons.injEq] at h
      rw [startsWithName, Bool.and_eq_true]
      refine ⟨?_, ih h.2⟩
      rw [sameLetter, h.1, beq_self_eq_true]
      rfl

/-- Letters that are found in a word are those of the word, in any case. -/
theorem map_eq_of_startsWithName (hname : ∀ a ∈ name, isLetter a)
    (hword : ∀ c ∈ word.map lowerChar, c ∈ charactersFrom 0x61 26)
    (hlength : name.length = word.length) (h : startsWithName name word) :
    name.map lowerChar = word.map lowerChar := by
  induction name generalizing word with
  | nil =>
    rw [List.length_eq_zero_iff.mp hlength.symm]
  | cons a name ih =>
    cases word with
    | nil => cases hlength
    | cons c word =>
      obtain ⟨ha, hname⟩ := List.forall_mem_cons.mp hname
      rw [List.map_cons] at hword
      obtain ⟨hc, hword⟩ := List.forall_mem_cons.mp hword
      rw [startsWithName, Bool.and_eq_true, sameLetter, Bool.or_eq_true] at h
      have hfirst : lowerChar a = lowerChar c := by
        rcases h.1 with hsame | hvariants
        · exact beq_iff_eq.mp hsame
        · exact eq_of_letterVariants
            (List.mem_append_left _ (mem_lowerLetters (lowerChar_of_isLetter ha)))
            (List.mem_append_left _ (mem_lowerLetters hc)) hvariants
      rw [List.map_cons, List.map_cons, hfirst, ih hname hword (Nat.succ.inj hlength) h.2]

end

/-! ## Tables of words -/

/-- The names are words, and none begins another one, whatever their case. -/
structure FunctionTable.Apart (table : FunctionTable) : Prop where
  named : ∀ e ∈ table.entries, e.name ≠ ""
  letters : ∀ e ∈ table.entries, ∀ c ∈ e.name.toList, isLetter c
  apart : ∀ e ∈ table.entries, ∀ e' ∈ table.entries,
    lowerCase e.name.toList <+: lowerCase e'.name.toList → e = e'

section

variable {table : FunctionTable} {entry : FunctionEntry} {word rest : List Char}

/-- A word that is the name of an entry apart from case. -/
theorem map_lowerChar_word (htable : table.Apart) (hentry : entry ∈ table.entries)
    (hword : lowerCase word = lowerCase entry.name.toList) :
    word.map lowerChar = entry.name.toList.map lowerChar := by
  have hname := htable.letters entry hentry
  have hlower := lowerCase_letters hname
  rw [← hword] at hlower
  rw [map_lowerChar_of_lowerCase hlower, hword, lowerCase_of_letters hname]

theorem leadingName?_word (htable : table.Apart) (hentry : entry ∈ table.entries)
    (hword : lowerCase word = lowerCase entry.name.toList) (rest : List Char) :
    leadingName? table.names (word ++ rest) = some entry.name := by
  have hmap := map_lowerChar_word htable hentry hword
  have hlength : word.length = entry.name.toList.length := by
    rw [← List.length_map lowerChar, hmap, List.length_map]
  have hstarts := startsWithName_append_left (startsWithName_of_map_eq hmap.symm) rest
  obtain ⟨found, hfound⟩ := Option.isSome_iff_exists.mp
    ((leadingName?_isSome_iff htable.named).mpr ⟨entry, hentry, hstarts⟩)
  obtain ⟨other, hlongest, rfl⟩ := exists_isLongest hfound
  -- the longest name begins with this one, and so it is this one
  have hle := hlongest.longest entry hentry hstarts
  rw [← String.length_toList, ← String.length_toList, ← hlength] at hle
  have hbegins := hlongest.begins
  rw [startsWithName_append, Bool.and_eq_true] at hbegins
  have hother := htable.letters other hlongest.mem
  have hlower := lowerCase_letters (htable.letters entry hentry)
  have hsame := map_eq_of_startsWithName (fun a ha => hother a (List.mem_of_mem_take ha))
    (by rwa [hmap, ← lowerCase_of_letters (htable.letters entry hentry)])
    (List.length_take_of_le hle) hbegins.1
  have hprefix : lowerCase entry.name.toList <+: lowerCase other.name.toList := by
    rw [lowerCase_of_letters (htable.letters entry hentry), lowerCase_of_letters hother, ← hmap,
      ← hsame, List.map_take]
    exact List.take_prefix _ _
  rw [hfound, htable.apart entry hentry other hlongest.mem hprefix]

/-- The function is looked up by its name in lower case, and not found unless that is its name. -/
theorem find?_lowered (htable : table.Apart) (hentry : entry ∈ table.entries) :
    table.find? (lowered entry.name)
      = if entry.name = lowered entry.name then some entry else none := by
  have hletters := htable.letters entry hentry
  have honly : ∀ e ∈ table.entries, e.name = lowered entry.name → entry = e := by
    refine fun e he hname => htable.apart entry hentry e he ?_
    rw [hname, toList_lowered, lowerCase_lowerCase hletters]
  show table.entries.find? (·.name == lowered (lowered entry.name)) = _
  rw [lowered_lowered hletters]
  split
  · next hlower =>
    have hsome : (table.entries.find? (·.name == lowered entry.name)).isSome :=
      List.find?_isSome.mpr ⟨entry, hentry, beq_iff_eq.mpr hlower⟩
    obtain ⟨found, hfound⟩ := Option.isSome_iff_exists.mp hsome
    rw [hfound, honly found (List.mem_of_find?_eq_some hfound) (name_of_find? hfound)]
  · next hlower =>
    rw [List.find?_eq_none]
    intro e he hname
    rw [beq_iff_eq] at hname
    exact hlower ((congrArg FunctionEntry.name (honly e he hname)).trans hname)

/-- Where a token begins and the name of an entry stands in any case, the token is that of the
function, by its name in lower case. -/
theorem function_mem_of_word (htable : table.Apart) (hentry : entry ∈ table.entries)
    (hword : lowerCase word = lowerCase entry.name.toList) {text : String} {left right : List Char}
    (htext : text.toList = left ++ word ++ right) {t : Token}
    (ht : t ∈ tokenize table.names text) (hposition : t.position = left.length) :
    t = ⟨.function, lowered entry.name, left.length⟩ := by
  obtain ⟨before, after, htokens⟩ := List.append_of_mem ht
  obtain ⟨left', c, rest, hsplit, hposition', hkind, hspan, -⟩ := exists_leadingLexeme htokens
  have hlength : left.length = left'.length := by omega
  rw [htext, List.append_assoc] at hsplit
  obtain ⟨-, hright⟩ := List.append_inj hsplit hlength
  have hleading := leadingName?_word htable hentry hword right
  rw [hright] at hleading
  have htake : (c :: rest).take entry.name.length = word := by
    have hsame : word.length = entry.name.length := by
      rw [← List.length_map lowerChar, map_lowerChar_word htable hentry hword, List.length_map,
        String.length_toList]
    rw [← hright, ← hsame, List.take_left]
  rw [leadingLexeme_function hleading] at hkind hspan
  rw [htake, hword] at hspan
  cases t
  simp only at hkind hspan hposition
  rw [hkind, hspan, hposition]
  rfl

end

end Locus
