import Locus.Plot.Basic
import Locus.Proofs.Expr.Nodes
import Locus.Proofs.Markup.Rendered
import Locus.Proofs.Parse.Order
import Locus.Proofs.Token.Spans

/-! Names in parsed expressions. A name that is typed with a stray letter is read as a name, but lower
case does not make it one that is known. All names of an expression are known if and only if its text
has no stray letter (`names_known_iff`). -/

namespace Locus
set_option autoImplicit false

open Locus.Expr Locus.Operator

/-! ## Names as they are typed -/

theorem ascii_of_mem_lexedNames : ∀ name ∈ lexedNames,
    ∀ a ∈ name.toList, a ∈ charactersFrom 0x61 26 := by
  have htable : lexedNames.all (fun name =>
      name.toList.all ((charactersFrom 0x61 26).contains ·)) = true := by
    decide
  simpa using htable

section

variable {span : List Char}

/-- Lower case makes a name of what is read as one, if no letter is astray. -/
theorem lowerCase_of_startsWithName {name : List Char}
    (hname : ∀ a ∈ name, a ∈ charactersFrom 0x61 26) (h : startsWithName name span)
    (hlength : span.length = name.length) (hspan : ∀ c ∈ span, c ∉ strayLetters) :
    lowerCase span = name := by
  suffices hafter : ∀ before, lowerAfter before span = name from hafter []
  induction name generalizing span with
  | nil =>
    intro before
    rw [List.length_eq_zero_iff.mp hlength]
    rfl
  | cons a name ih =>
    cases span with
    | nil => cases hlength
    | cons c span =>
      rw [startsWithName, Bool.and_eq_true] at h
      obtain ⟨ha, hname⟩ := List.forall_mem_cons.mp hname
      obtain ⟨hc, hspan⟩ := List.forall_mem_cons.mp hspan
      have hlower : lowerChar c = a := (lowerChar_or_stray ha h.1).resolve_right hc
      have hsigma : c ≠ 'Σ' := by
        rintro rfl
        exact absurd (hlower ▸ ha) (by decide)
      have hdotted : c ≠ 'İ' := by
        rintro rfl
        exact hc (by decide)
      intro before
      rw [lowerAfter, if_neg hsigma, if_neg hdotted, hlower,
        ih hname h.2 (Nat.succ.inj hlength) hspan]
      rfl

/-- A stray letter leaves a character that no name has. -/
theorem exists_of_stray {c : Char} (hc : c ∈ span) (hstray : c ∈ strayLetters) :
    ∃ d ∈ lowerCase span, d ∉ charactersFrom 0x61 26 := by
  have hletters : ∀ a ∈ strayLetters, a ≠ 'Σ' ∧
      ∃ d ∈ (if a = 'İ' then ['i', '\u0307'] else [lowerChar a]), d ∉ charactersFrom 0x61 26 := by
    intro a ha
    simp only [strayLetters, List.mem_cons, List.not_mem_nil, or_false] at ha
    rcases ha with rfl | rfl | rfl
    · exact ⟨by decide, 'ſ', by decide, by decide⟩
    · exact ⟨by decide, 'ı', by decide, by decide⟩
    · exact ⟨by decide, '\u0307', by decide, by decide⟩
  suffices hafter : ∀ before, ∃ d ∈ lowerAfter before span, d ∉ charactersFrom 0x61 26 from hafter []
  induction span with
  | nil => cases hc
  | cons a span ih =>
    intro before
    rw [lowerAfter]
    rcases List.mem_cons.mp hc with rfl | hc
    · obtain ⟨hsigma, d, hd, hother⟩ := hletters c hstray
      rw [if_neg hsigma]
      exact ⟨d, List.mem_append_left _ hd, hother⟩
    · obtain ⟨d, hd, hother⟩ := ih hc (a :: before)
      exact ⟨d, List.mem_append_right _ hd, hother⟩

theorem lowerCase_not_mem {c : Char} (hc : c ∈ span) (hstray : c ∈ strayLetters) :
    String.ofList (lowerCase span) ∉ lexedNames := by
  intro hmem
  obtain ⟨d, hd, hother⟩ := exists_of_stray hc hstray
  exact hother (ascii_of_mem_lexedNames _ hmem d (by rwa [String.toList_ofList]))

variable {name : String}

theorem mem_names_iff (hname : name ∈ FunctionTable.standard.names)
    (hlength : span.length = name.length) (h : startsWithName name.toList span) :
    String.ofList (lowerCase span) ∈ FunctionTable.standard.names ↔
      ∀ c ∈ span, c ∉ strayLetters := by
  constructor
  · intro hmem c hc hstray
    exact lowerCase_not_mem hc hstray (List.mem_append_left _ hmem)
  · intro hspan
    rw [← String.length_toList] at hlength
    rw [lowerCase_of_startsWithName (ascii_of_mem_lexedNames name (List.mem_append_left _ hname)) h
      hlength hspan, String.ofList_toList]
    exact hname

theorem isVariable_constantText_iff (hname : name ∈ constants.map (·.1))
    (hlength : span.length = name.length) (h : startsWithName name.toList span) :
    IsVariable (constantText span) ↔ ∀ c ∈ span, c ∉ strayLetters := by
  have hlexed : name ∈ lexedNames := List.mem_append_right _ hname
  rw [← String.length_toList] at hlength
  constructor
  · rintro ⟨d, -, htext⟩ c hc hstray
    have hnone : constants.lookup (String.ofList (lowerCase span)) = none := by
      rw [List.lookup_eq_none_iff]
      intro entry hentry
      rw [bne_iff_ne]
      intro heq
      refine lowerCase_not_mem hc hstray (List.mem_append_right _ ?_)
      exact heq ▸ List.mem_map_of_mem hentry
    rw [constantText, hnone, Option.getD_none] at htext
    have hone := congrArg String.length htext
    rw [String.length_ofList, String.length_ofList, hlength, List.length_singleton] at hone
    have htwo := (lexedNames_spelling name hlexed).1
    omega
  · intro hspan
    obtain ⟨c, hc, hlookup⟩ : ∃ c, (c = 'θ' ∨ c = 'π') ∧
        constants.lookup name = some (String.ofList [c]) := by
      simp only [constants, List.map_cons, List.map_nil, List.mem_cons, List.not_mem_nil,
        or_false] at hname
      rcases hname with rfl | rfl
      · exact ⟨'θ', .inl rfl, rfl⟩
      · exact ⟨'π', .inr rfl, rfl⟩
    refine ⟨c, .inr hc, ?_⟩
    rw [constantText, lowerCase_of_startsWithName (ascii_of_mem_lexedNames name hlexed) h hlength
      hspan, String.ofList_toList, hlookup, Option.getD_some]

end

/-! ## Tokens -/

/-- The node that a token stands for has a name, where it is a call or a variable. -/
def Known : TokenKind → String → Prop
  | .function, text => (Head.call text).IsNamed
  | .letter, text | .constant, text => (Head.var text).IsNamed
  | _, _ => True

theorem known_of_sign {c : Char} {kind : TokenKind} (h : signKind? c = some kind) (text : String) :
    Known kind text := by
  unfold signKind? at h
  split at h <;> cases h <;> trivial

theorem Reads.known_iff {kind : TokenKind} {text : String} {span : List Char}
    (h : Reads FunctionTable.standard.names kind text span) (hkind : kind ≠ .unknown) :
    Known kind text ↔ ∀ c ∈ span, c ∉ strayLetters := by
  cases h with
  | function hname hlength hstarts => exact mem_names_iff hname hlength hstarts
  | constant hname hlength hstarts => exact isVariable_constantText_iff hname hlength hstarts
  | @greek c hgreek =>
    refine iff_of_true ⟨c, .inr hgreek, rfl⟩ ?_
    rcases hgreek with rfl | rfl <;> exact forall_mem_of_all rfl
  | @letter c hletter =>
    have hplain : ∀ a ∈ letters, a ∉ strayLetters := forall_mem_of_all rfl
    refine iff_of_true ⟨c, .inl hletter, rfl⟩ fun a ha => ?_
    rw [List.mem_singleton.mp ha]
    exact hplain c (mem_letters_of_isLetter hletter)
  | numeral hplain =>
    have hother : ∀ a ∈ strayLetters, isDecimalDigit a = false ∧ a ≠ '.' := forall_mem_of_all rfl
    refine iff_of_true trivial fun c hc hstray => ?_
    obtain ⟨hdigit, hpoint⟩ := hother c hstray
    exact (hplain.isPart hc).ne hdigit hpoint rfl
  | @sign c _ hsign =>
    have hother : ∀ a ∈ strayLetters, signKind? a = none := forall_mem_of_all rfl
    refine iff_of_true (known_of_sign hsign _) fun a ha hstray => ?_
    rw [List.mem_singleton.mp ha] at hstray
    exact nomatch (hother c hstray).symm.trans hsign
  | unknown _ => exact absurd rfl hkind

/-! ## Items -/

/-- The node that an item comes from. -/
def Item.head : Item → Head
  | .nothing => .empty
  | .literal v => .number v
  | .name x => .var x
  | .call f => .call f
  | .operator op => .binary op

/-- What holds of all nodes holds of all items, if it does of operators. -/
theorem allHeads_iff_items {P : Head → Prop} (hoperator : ∀ op, P (.binary op)) (e : Expr) :
    e.AllHeads P ↔ ∀ i ∈ e.items, P i.head := by
  induction e with
  | call f a ih => rw [AllHeads, Expr.items, List.forall_mem_cons, ih]; rfl
  | binary op l r ihl ihr =>
    rw [AllHeads, Expr.items, List.forall_mem_append, List.forall_mem_cons, ihl, ihr]
    exact and_congr_right fun _ => (and_iff_right (hoperator op)).symm
  | _ => rw [Expr.items, List.forall_mem_singleton]; rfl

def Item.IsKnown (i : Item) : Prop := i.head.IsNamed

theorem named_iff_items (e : Expr) : e.Named ↔ ∀ i ∈ e.items, i.IsKnown :=
  allHeads_iff_items (fun _ => trivial) e

theorem known_literalItem (negated : Bool) (t : Token) :
    ∀ i ∈ t.literalItem negated, i.IsKnown := by
  intro i hi
  obtain ⟨v, -, rfl⟩ := Option.map_eq_some_iff.mp (Option.mem_toList.mp hi)
  trivial

theorem Item.IsSign.isKnown {i : Item} (h : i.IsSign) : i.IsKnown := by
  cases i with
  | operator _ | literal _ => trivial
  | _ => exact h.elim

theorem known_nameItem?_iff {t : Token} :
    (∀ i ∈ t.nameItem?.toList, i.IsKnown) ↔ Known t.kind t.text := by
  rw [Token.nameItem?]
  cases t.kind <;> simp [Item.IsKnown, Item.head, Known]

/-- What tokens stand for is known if each of them is. -/
theorem StandFor.known_iff {tokens : List Token} {items : List Item} (h : StandFor tokens items) :
    (∀ i ∈ items, i.IsKnown) ↔ ∀ t ∈ tokens, Known t.kind t.text := by
  induction h with
  | nil => simp
  | sign hi _ ih =>
    rw [List.forall_mem_cons]
    exact (and_iff_right hi.isKnown).trans ih
  | number negated hk _ ih =>
    rw [List.forall_mem_append, List.forall_mem_cons, hk]
    exact and_congr (iff_of_true (known_literalItem negated _) trivial) ih
  | other _ _ ih =>
    rw [List.forall_mem_append, List.forall_mem_cons]
    exact and_congr known_nameItem?_iff ih

/-! ## Texts -/

/-- The names in the expression of a text are those of known functions and one letter variables if and
only if the text has no stray letter. Those of functions are then found in the standard table. -/
theorem names_known_iff (text : String) (e : Expr) (h : parse standardNames .standard text = .ok e)
    (htokens : tokenize standardNames text ≠ []) :
    (e.Named ↔ ∀ c ∈ text.toList, c ∉ strayLetters) ∧
      (e.Named → ∀ f, Item.call f ∈ e.items → FunctionTable.standard.contains f) := by
  have hparse : parseTokens .standard (tokenize standardNames text) = .ok e := by
    rw [parse] at h
    split at h
    · next hnil => exact absurd hnil htokens
    · exact h
  have hempty : "" ∉ standardNames := fun hmem =>
    absurd (lexedNames_spelling "" (List.mem_append_left _ hmem)).1 (by decide)
  have hcovered : Covered standardNames 0 text.toList (tokenize standardNames text) :=
    covered_tokensFrom hempty 0 text.toList
  obtain ⟨-, hread⟩ := wellPlaced_of_parseTokens hparse
  refine ⟨?_, fun hnamed f hf => ?_⟩
  · rw [named_iff_items, items_of_parseTokens OperatorTable.standard_complete hparse,
      (standFor_itemsFrom true _).known_iff]
    constructor
    · intro hknown c hc hstray
      have hblank : ∀ a ∈ strayLetters, ¬isBlank a := forall_mem_of_all rfl
      obtain ⟨t, ht, span, hcovers, hspan⟩ := hcovered.exists_token_of_mem hc (hblank c hstray)
      exact (hcovers.reads.known_iff (hread t ht).known).mp (hknown t ht) c hspan hstray
    · intro hplain t ht
      obtain ⟨span, hcovers, hspan⟩ := hcovered.exists_span_of_mem ht
      exact (hcovers.reads.known_iff (hread t ht).known).mpr fun c hc => hplain c (hspan hc)
  · have hfound : ∀ f ∈ FunctionTable.standard.names, FunctionTable.standard.contains f :=
      forall_mem_of_all (by decide +kernel)
    exact hfound f ((named_iff_items e).mp hnamed _ hf)

/-- `2 Sin(tHeTa)` -/
theorem names_of_mixedCase_known :
    parse standardNames .standard "2 Sin(tHeTa)"
        = .ok (binary times (int 2) (call "sin" (var "θ"))) ∧
      (binary times (int 2) (call "sin" (var "θ"))).Named ∧
      FunctionTable.standard.contains "sin" := by
  have hparse : parse standardNames .standard "2 Sin(tHeTa)"
      = .ok (binary times (int 2) (call "sin" (var "θ"))) := by
    decide +kernel
  have htokens : tokenize standardNames "2 Sin(tHeTa)" ≠ [] := by decide +kernel
  obtain ⟨hiff, hfound⟩ := names_known_iff _ _ hparse htokens
  have hnamed := hiff.mpr (forall_mem_of_all rfl)
  exact ⟨hparse, hnamed, hfound hnamed "sin" (by decide)⟩

/-- With a long `s`, a sine is read as a call, and the function called is none that is known. -/
theorem name_of_longSine_unknown :
    ¬∀ (text : String) (e : Expr), parse standardNames .standard text = .ok e →
      tokenize standardNames text ≠ [] → e.Named := by
  intro h
  have hparse : parse standardNames .standard "ſin(x)" = .ok (call "ſin" (var "x")) := by
    decide +kernel
  have hnamed := h "ſin(x)" _ hparse (by decide +kernel)
  have hunknown : "ſin" ∉ FunctionTable.standard.names := by decide
  exact hunknown hnamed.1

end Locus
