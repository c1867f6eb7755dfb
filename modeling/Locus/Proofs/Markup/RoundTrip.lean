import Locus.Proofs.Markup.Rendered
import Locus.Proofs.Simplify.Literals

/-! Notation and back. A product is written with a minus, with a sign or space between its factors or
with nothing; each of them reads as that product. So the plain infix of what notation renders is
parsed as the tree that was rendered (`notation_reads_back`). -/

namespace Locus
set_option autoImplicit false

open Locus.Expr Locus.Operator Locus.Markup

variable {p : List Char → Prop} {e l r l' r' : Expr} {s sl sr : List Char}

/-! ## Products -/

theorem lowerCase_pair {a b : Char} (ha : a ∈ letters) (hb : b ∈ letters) :
    lowerCase [a, b] = [lowerChar a, lowerChar b] := by
  have hother : ∀ c ∈ letters, c ≠ 'Σ' ∧ c ≠ 'İ' := forall_mem_of_all rfl
  obtain ⟨hsigma, hdotted⟩ := hother a ha
  obtain ⟨hsigma', hdotted'⟩ := hother b hb
  rw [lowerCase, lowerAfter, if_neg hsigma, if_neg hdotted, lowerAfter, if_neg hsigma',
    if_neg hdotted', lowerAfter]
  rfl

theorem mem_standardReserved {name : String} (h : name ∈ lexedNames) : name ∈ standardReserved := by
  rcases List.mem_append.mp h with hfunction | hconstant
  · refine List.mem_append_left _ (List.mem_map.mpr ⟨name, hfunction, ?_⟩)
    rw [lowerCase_lowerLetters (functionName_spelling hfunction), String.ofList_toList]
  · exact List.mem_append_right _ hconstant

/-- Letters that begin a name are kept apart. -/
theorem spellsName_of_beginsName {a b : Char} (ha : a ∈ letters) (hb : b ∈ letters)
    (h : BeginsName a b) :
    spellsName standardReserved (String.ofList [a]) (String.ofList [b]) := by
  obtain ⟨name, hname, hprefix⟩ := h
  rw [spellsName, String.toList_append, String.toList_ofList, String.toList_ofList,
    List.singleton_append, lowerCase_pair ha hb, List.any_eq_true]
  exact ⟨name, mem_standardReserved hname, List.isPrefixOf_iff_prefix.mpr hprefix⟩

/-- Factors that nothing stands between do not run on into each other. -/
theorem clear_of_closes (hcloses : Closes l sl) (hopens : Opens r sr)
    (hknown : ∀ b ∈ sr, b ∈ alphabet) {y : String} (hleft : leftEnd r = .var y)
    (hname : ∀ x, rightEnd l = .var x → spellsName standardReserved x y = false) :
    Clear sl sr := by
  have hdigit : ∀ c ∈ letters, c.isDigit = false ∧ c ≠ '.' := forall_mem_of_all rfl
  intro a ha b hb
  rcases hopens b hb with rfl | hletter
  · exact clear_before isSign_open.mem_breaks sl [] a ha '(' rfl
  · obtain ⟨hb', rfl⟩ := hletter y hleft
    refine ⟨hknown b (List.mem_of_mem_head? hb), fun _ h => ?_, ?_⟩
    · rcases h with h | h
      · rw [(hdigit b hb').1] at h
        cases h
      · exact (hdigit b hb').2 h
    · rcases hcloses a ha with hmark | ⟨ha', hright⟩
      · exact fun hbegins => not_mark_of_beginsName hbegins (by simp) hmark
      · intro hbegins
        have hspells := spellsName_of_beginsName ha' hb' hbegins
        rw [hname _ hright] at hspells
        cases hspells

/-- What stands between two factors. Where it is no sign, the right one is no number, and where it
is nothing at all, a variable follows that begins no name. -/
theorem separator_cases (reserved : List String) (l r : Expr) :
    separator reserved l r = " * " ∨
      r.isNumber = false ∧ (separator reserved l r = " " ∨
        separator reserved l r = "" ∧ ∃ y, leftEnd r = .var y ∧
          ∀ x, rightEnd l = .var x → spellsName reserved x y = false) := by
  have hnumber : r.isNumber = true → separator reserved l r = " * " := by
    intro h
    cases r with
    | number v => cases l <;> rfl
    | _ => cases h
  cases hr : r.isNumber with
  | true => exact .inl (hnumber hr)
  | false =>
    rw [separator, hr, Bool.and_false, if_neg Bool.false_ne_true]
    cases hleft : leftEnd r with
    | var y =>
      refine .inr ⟨rfl, ?_⟩
      cases hright : rightEnd l with
      | var x =>
        cases hspells : spellsName reserved x y with
        | true => exact .inl (by simp [hspells])
        | false => exact .inr ⟨by simp [hspells], y, rfl, fun _ h => by cases h; exact hspells⟩
      | _ => exact .inr ⟨rfl, y, rfl, fun _ h => nomatch h⟩
    | call f a => exact .inr ⟨rfl, .inl rfl⟩
    | _ => exact .inl rfl

section

variable {ml mr : String}

theorem Unsigned.afterSpace (h : Unsigned s) (hlegible : Legible p s) : Unsigned (' ' :: s) := by
  intro position rest
  rw [lex_space hlegible]
  exact h (position + 1) rest

theorem Rendered.spells_product (hl : Rendered p l ml sl l') (hr : Rendered p r mr sr r') :
    let left := Markup.wrapIf (l.needsParentheses (.binary times l r) false) sl
    let right := Markup.wrapIf (r.needsParentheses (.binary times l r) true) sr
    Spells p .product (left ++ (separator standardReserved l r).toList ++ right)
      (.binary times l' r') := by
  intro left right
  have hleft : Spells p .product left l' := hl.operand times l r false
  have hright : Spells p .unary right r' := hr.operand times l r true
  rcases separator_cases standardReserved l r with hsign | ⟨hnumber, hspace | ⟨hnone, y, hy, hname⟩⟩
  · have hstar : IsSign '*' (.operator times) := ⟨by simp [signs], rfl⟩
    have hspells : Spells p .product (left ++ ' ' :: '*' :: ' ' :: right) (.binary times l' r') :=
      spells_spaced (by decide) (by decide) hstar (hl.operand times l r false)
        (hr.operand times l r true)
    rw [hsign]
    simpa using hspells
  · have hunsigned := (hr.unsigned_operand hnumber l r).afterSpace hright.legible
    have hspells := hleft.juxtaposed hright.afterSpace hunsigned
      (clear_before (by simp [breaks]) left right)
    rw [hspace]
    simpa using hspells
  · have hclear : Clear left right :=
      clear_of_closes (hl.closes_operand times l r false (by decide))
        (hr.opens.wrapIf _) hright.known hy hname
    rw [hnone]
    simpa using hleft.juxtaposed hright (hr.unsigned_operand hnumber l r) hclear

theorem unmarks_separator (reserved : List String) (l r : Expr) :
    Unmarks (separator reserved l r).toList (separator reserved l r).toList := by
  rcases separator_cases reserved l r with h | ⟨-, h | ⟨h, -⟩⟩ <;> rw [h] <;>
    exact .text (by simp)

theorem Rendered.product (hl : Rendered p l ml sl l') (hr : Rendered p r mr sr r')
    (h : (l.hasValue (.int (-1)) && !r.isNumber) = false) :
    ∃ s, Rendered p (.binary times l r) (joined standardReserved times l r ml mr) s
      (.binary times l' r') := by
  have hleft := (hl.operand times l r false).legible.ne_nil
  have hright := (hr.operand times l r true).legible.ne_nil
  have hloose : ¬Category.unary.tightness ≤ Category.product.tightness := by decide
  refine ⟨_, renders_binary hl hr, ?_, .binary _ hl.agrees hr.agrees, hl.spells_product hr, ?_,
    fun _ => ?_, by simp, fun _ h => absurd h hloose⟩
  · rw [joined, h, if_neg Bool.false_ne_true, String.toList_append, String.toList_append]
    exact ((unmarks_parenthesizeIf _ hl.unmarks).append (unmarks_separator _ l r)).append
      (unmarks_parenthesizeIf _ hr.unmarks)
  · rw [List.append_assoc]
    exact (hl.opens.wrapIf _).append hleft rfl
  · exact (hr.closes_operand times l r true (by decide)).append hright rfl

theorem Rendered.negation (hl : Rendered p l ml sl l') (hr : Rendered p r mr sr r')
    (h : (l.hasValue (.int (-1)) && !r.isNumber) = true) :
    ∃ s, Rendered p (.binary times l r) (joined standardReserved times l r ml mr) s
      (.binary times (.int (-1)) r') := by
  have hboth := h
  rw [Bool.and_eq_true, Bool.not_eq_true'] at hboth
  obtain ⟨hvalue, hnumber⟩ := hboth
  have hright : Spells p .unary _ r' := hr.operand times l r true
  have hagrees : l.Agrees (.int (-1)) := by
    cases l with
    | number v => exact .number hvalue
    | _ => cases hvalue
  have hleft : ∀ y, leftEnd l ≠ .var y := by
    cases hagrees
    exact fun _ hy => nomatch hy
  have hspells := (hright.negation (hr.unsigned_operand hnumber l r)).widen (d := .product)
    (by decide)
  have hloose : ¬Category.unary.tightness ≤ Category.product.tightness := by decide
  refine ⟨_, renders_binary hl hr, ?_, .binary _ hagrees hr.agrees, hspells, ?_, fun _ => ?_,
    by simp, fun _ h => absurd h hloose⟩
  · have hminus : Unmarks ['-'] ['-'] := .text (by simp)
    rw [joined, h, if_pos rfl, String.toList_append]
    exact hminus.append (unmarks_parenthesizeIf _ hr.unmarks)
  · exact fun _ _ => .inr fun y hy => absurd hy (hleft y)
  · exact (hr.closes_operand times l r true (by decide)).append (s := ['-'])
      hright.legible.ne_nil rfl

/-! ## All trees -/

theorem exists_rendered {e : Expr} (hnamed : e.Named)
    (hwritten : e.AllLiterals (Literal.IsWritten p)) : ∃ m s e', Rendered p e m s e' := by
  induction e with
  | empty => exact hnamed.elim
  | number v => exact exists_rendered_number hwritten
  | var x =>
    obtain ⟨c, hc, rfl⟩ := hnamed
    refine ⟨_, _, _, rendered_var ?_⟩
    rcases hc with hc | rfl | rfl
    · exact mem_letters_of_isLetter hc
    · simp [letters, lowerLetters]
    · simp [letters, lowerLetters]
  | call f a ih =>
    obtain ⟨m, s, e', ha⟩ := ih hnamed.2 hwritten
    exact ⟨_, _, _, ha.call hnamed.1⟩
  | binary op l r ihl ihr =>
    obtain ⟨ml, sl, l', hl⟩ := ihl hnamed.1 hwritten.1
    obtain ⟨mr, sr, r', hr⟩ := ihr hnamed.2 hwritten.2
    refine ⟨joined standardReserved op l r ml mr, ?_⟩
    suffices hjoined : ∃ s e', Rendered p (.binary op l r) _ s e' from hjoined
    cases op with
    | equals =>
      obtain ⟨s, hs⟩ := hl.spaced (.inl rfl) hr
      exact ⟨s, _, hs⟩
    | plus =>
      obtain ⟨s, hs⟩ := hl.spaced (.inr (.inl rfl)) hr
      exact ⟨s, _, hs⟩
    | minus =>
      obtain ⟨s, hs⟩ := hl.spaced (.inr (.inr rfl)) hr
      exact ⟨s, _, hs⟩
    | times =>
      cases hminus : l.hasValue (.int (-1)) && !r.isNumber with
      | true =>
        obtain ⟨s, hs⟩ := hl.negation hr hminus
        exact ⟨s, _, hs⟩
      | false =>
        obtain ⟨s, hs⟩ := hl.product hr hminus
        exact ⟨s, _, hs⟩
    | divide =>
      obtain ⟨s, hs⟩ := hl.divide hr
      exact ⟨s, _, hs⟩
    | power =>
      obtain ⟨s, hs⟩ := hl.power hr
      exact ⟨s, _, hs⟩

end

/-- The numbers that the lexer finds are plain, so they are read where they are in range. -/
theorem Token.Meets.reads {t : Token} {position : Nat} (h : t.Meets Numeral.InRange)
    (hlex : t ∈ lex position s) : t.Reads :=
  ⟨fun hk => (Literal.ofText?_eq_some_iff (tokensFrom_number hlex hk) _).mpr ⟨h.number hk, rfl⟩,
    h.named⟩

theorem Spells.parse_eq_ok {c : Category} (h : Spells Numeral.InRange c s e) :
    parse FunctionTable.standard.names .standard (String.ofList s) = .ok e := by
  have hequation : Spells Numeral.InRange .equation s e := h.widen (Nat.zero_le _)
  have hderives := hequation.derives 0 [] (.inr fun ⟨_, ht, _⟩ => nomatch ht)
  rw [List.append_nil] at hderives
  have hparse := hderives.parseTokens_eq_ok fun t ht => (h.legible.meets 0 t ht).reads ht
  have htokens : tokenize FunctionTable.standard.names (String.ofList s) = lex 0 s := by
    rw [tokenize, String.toList_ofList]
  rw [parse, htokens]
  split
  · next hnil =>
    obtain ⟨t, rest, hcons, -⟩ := hderives.head
    rw [hnil] at hcons
    cases hcons
  · exact hparse

/-- The trees that notation can spell: their names are right, and a double can hold every literal. -/
def Expr.Writable (e : Expr) : Prop := e.Named ∧ e.AllLiterals Literal.InRange

/-- What notation renders, written as plain infix, is parsed as a tree that is the same node for
node, its literals equal in value. -/
theorem notation_reads_back (e : Expr) (h : e.Writable) :
    ∃ markup e', Markup.render standardReserved e = .ok markup ∧
      parse FunctionTable.standard.names .standard (Markup.plain markup) = .ok e' ∧
      e.Agrees e' := by
  obtain ⟨markup, s, e', hrendered⟩ : ∃ m s e', Rendered Numeral.InRange e m s e' :=
    exists_rendered h.1 (h.2.mono Literal.isWritten_of_inRange)
  refine ⟨markup, e', hrendered.renders, ?_, hrendered.agrees⟩
  rw [hrendered.unmarks.plain_eq]
  exact hrendered.spells.parse_eq_ok

/-- `(-2)^x l n / ln θ`, where `l` and `n` do not run together into a name. -/
def letterRatio : Expr :=
  .binary divide (.binary times (.binary times (.binary power (.int (-2)) (.var "x")) (.var "l"))
    (.var "n")) (.call "ln" (.var "θ"))

theorem notation_of_letterRatio_reads_back :
    letterRatio.Writable ∧
      ∃ markup e', Markup.render standardReserved letterRatio = .ok markup ∧
        parse FunctionTable.standard.names .standard (Markup.plain markup) = .ok e' ∧
        letterRatio.Agrees e' := by
  have hletter : ∀ c, isLetter c → (Expr.var (String.ofList [c])).Named := fun c hc =>
    ⟨c, .inl hc, rfl⟩
  have hfunction : "ln" ∈ FunctionTable.standard.names := by decide
  have hnamed : letterRatio.Named :=
    ⟨⟨⟨⟨trivial, hletter 'x' rfl⟩, hletter 'l' rfl⟩, hletter 'n' rfl⟩, hfunction, 'θ', by simp, rfl⟩
  have hwritable : letterRatio.Writable := ⟨hnamed, by decide +kernel⟩
  exact ⟨hwritable, notation_reads_back letterRatio hwritable⟩

end Locus
