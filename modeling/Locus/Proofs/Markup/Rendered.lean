import Locus.Plot.Basic
import Locus.Proofs.Markup.Plain
import Locus.Proofs.Parse.Spelling

/-! Rendered trees as texts. The plain infix of a rendered tree spells a tree that is the same node for
node (`Rendered`). What carries the induction is how the text begins and ends, which decides whether
it can stand next to another one. -/

namespace Locus
set_option autoImplicit false

open Locus.Expr Locus.Operator Locus.Markup

/-! ## Trees -/

/-- Equality node for node, of literals by value. -/
inductive Expr.Agrees : Expr → Expr → Prop
  | number {v w : Literal} : v.sameValue w → Agrees (.number v) (.number w)
  | var (x : String) : Agrees (.var x) (.var x)
  | call {a b : Expr} (f : String) : Agrees a b → Agrees (.call f a) (.call f b)
  | binary {a b c d : Expr} (op : Operator) : Agrees a c → Agrees b d →
      Agrees (.binary op a b) (.binary op c d)

/-- The category of the plain infix of an operator. A ratio stands in parentheses. -/
def Operator.category : Operator → Category
  | equals => .equation
  | plus | minus => .sum
  | times => .product
  | divide => .atom
  | power => .power

/-- The category of the plain infix of an expression. A negative literal is no base of a power. -/
def Expr.category : Expr → Category
  | .number v => if v.isNegative then .power else .atom
  | .binary op _ _ => op.category
  | _ => .atom

/-- What an operator that is not a ratio asks of an operand of its own. -/
def Operator.operandCategory : Operator → Bool → Category
  | equals, false => .equation
  | equals, true | plus, false | minus, false => .sum
  | plus, true | minus, true | times, false => .product
  | times, true => .unary
  | power, false => .power
  | power, true | divide, _ => .equation

theorem tightness_of_not_wraps {inner op : Operator} {onRight : Bool}
    (h : inner.wraps op onRight = false) :
    (op.operandCategory onRight).tightness ≤ inner.category.tightness := by
  cases op <;> cases onRight <;> cases inner <;> first | decide | cases h

/-- An operand that is left without parentheses binds as tightly as it has to. -/
theorem tightness_of_not_needsParentheses {e parent l r : Expr} {op : Operator} {onRight : Bool}
    (hparent : parent = .binary op l r) (h : e.needsParentheses parent onRight = false) :
    (op.operandCategory onRight).tightness ≤ e.category.tightness := by
  have hpower : (op.operandCategory onRight).tightness ≤ Category.power.tightness := by
    cases op <;> cases onRight <;> decide
  subst hparent
  cases e with
  | number v =>
    rw [Expr.category]
    split
    · exact hpower
    · exact hpower.trans (by decide)
  | empty | var _ | call _ _ => exact hpower.trans (Nat.le_succ 4)
  | binary inner a b => exact tightness_of_not_wraps h

/-! ## How texts begin and end -/

variable {p : List Char → Prop} {e e' l r l' r' : Expr} {s t sl sr : List Char} {op : Operator}

/-- A text begins with a parenthesis or with the variable that its expression begins with. -/
def Opens (e : Expr) (s : List Char) : Prop :=
  ∀ a ∈ s.head?, a = '(' ∨ ∀ y, leftEnd e = .var y → a ∈ letters ∧ y = String.ofList [a]

/-- A text ends with a mark or with the variable that its expression ends with. -/
def Closes (e : Expr) (s : List Char) : Prop :=
  ∀ a ∈ s.getLast?, a ∈ marks ∨ (a ∈ letters ∧ rightEnd e = .var (String.ofList [a]))

theorem Opens.append (h : Opens e s) (hne : s ≠ []) (hleft : leftEnd e' = leftEnd e) :
    Opens e' (s ++ t) := by
  intro a ha
  rw [List.head?_append_of_ne_nil s hne] at ha
  rw [hleft]
  exact h a ha

theorem Opens.wrapIf (h : Opens e s) (condition : Bool) : Opens e (wrapIf condition s) := by
  cases condition with
  | false => exact h
  | true =>
    intro a ha
    exact .inl (Option.some.inj ha).symm

theorem closes_of_mark {a : Char} (ha : a ∈ marks) : Closes e (s ++ [a]) := by
  intro b hb
  rw [List.getLast?_concat, Option.mem_some_iff] at hb
  exact .inl (hb ▸ ha)

theorem mem_marks_close : ')' ∈ marks := mem_marks_of_mem_signs ')' isSign_close.sign

theorem Closes.wrapIf {condition : Bool} (h : condition = false → Closes e s) :
    Closes e (wrapIf condition s) := by
  cases condition with
  | false => exact h rfl
  | true => exact closes_of_mark (s := '(' :: s) mem_marks_close

theorem Closes.append (h : Closes e t) (hne : t ≠ []) (hright : rightEnd e' = rightEnd e) :
    Closes e' (s ++ t) := by
  intro a ha
  rw [List.getLast?_append_of_ne_nil s hne] at ha
  rw [hright]
  exact h a ha

/-! ## Rendered trees -/

/-- A tree, its markup, the plain infix of that and the tree that it spells. Its numerals satisfy
`p`. -/
structure Rendered (p : List Char → Prop) (e : Expr) (markup : String) (s : List Char)
    (e' : Expr) : Prop where
  renders : Markup.render standardReserved e = .ok markup
  unmarks : Unmarks markup.toList s
  agrees : e.Agrees e'
  spells : Spells p e.category s e'
  opens : Opens e s
  closes : Category.product.tightness ≤ e.category.tightness → Closes e s
  typed : ∀ v, e = .number v → v.isNegative = false → v.IsTyped s ∧ p s
  unsigned : e.isNumber = false → Category.unary.tightness ≤ e.category.tightness → Unsigned s

section

variable {m ml mr : String}

/-- An operand as it is printed next to an operator, in parentheses or without. -/
theorem Rendered.operand (h : Rendered p e m s e') (op : Operator) (l r : Expr) (onRight : Bool) :
    Spells p (op.operandCategory onRight)
      (wrapIf (e.needsParentheses (.binary op l r) onRight) s) e' := by
  have hequation : Spells p .equation s e' := h.spells.widen (Nat.zero_le _)
  cases hwrap : e.needsParentheses (.binary op l r) onRight with
  | true =>
    have hatom : (op.operandCategory onRight).tightness ≤ Category.atom.tightness := by
      cases op <;> cases onRight <;> decide
    exact hequation.group.widen hatom
  | false => exact h.spells.widen (tightness_of_not_needsParentheses rfl hwrap)

theorem Rendered.closes_operand (h : Rendered p e m s e') (op : Operator) (l r : Expr)
    (onRight : Bool)
    (htight : Category.product.tightness ≤ (op.operandCategory onRight).tightness) :
    Closes e (wrapIf (e.needsParentheses (.binary op l r) onRight) s) :=
  .wrapIf fun hwrap => h.closes (htight.trans (tightness_of_not_needsParentheses rfl hwrap))

theorem Rendered.unsigned_operand (h : Rendered p e m s e') (hnumber : e.isNumber = false)
    (l r : Expr) : Unsigned (wrapIf (e.needsParentheses (.binary times l r) true) s) := by
  cases hwrap : e.needsParentheses (.binary times l r) true with
  | true => exact unsigned_group (h.spells.widen (Nat.zero_le _))
  | false => exact h.unsigned hnumber (tightness_of_not_needsParentheses rfl hwrap)

theorem Rendered.ne_nil (h : Rendered p e m s e') : s ≠ [] := h.spells.legible.ne_nil

theorem wrapIf_ne_nil (h : s ≠ []) (condition : Bool) : wrapIf condition s ≠ [] := by
  cases condition with
  | false => exact h
  | true => exact List.cons_ne_nil _ _

theorem renders_binary (hl : Rendered p l ml sl l') (hr : Rendered p r mr sr r') :
    Markup.render standardReserved (.binary op l r)
      = .ok (joined standardReserved op l r ml mr) := by
  rw [Markup.render, hl.renders, hr.renders]
  rfl

/-! ## Leaves -/

section

variable {v : Literal}

theorem opens_number (s : List Char) : Opens (.number v) s :=
  fun _ _ => .inr fun _ hy => nomatch hy

theorem plain_of_isTyped (h : v.IsTyped s) : ∀ c ∈ s, c ≠ '<' := by
  rintro c hc rfl
  rcases h.ascii _ hc with h | h <;> cases h

theorem closes_of_isTyped (h : v.IsTyped s) : Closes e s := by
  obtain ⟨last, hlast, hdigit⟩ := h.last
  intro a ha
  obtain rfl := Option.mem_unique ha hlast
  exact .inl (mem_marks_of_isDigit hdigit)

theorem rendered_positive (h : v.IsTyped s) (hp : p s) (hsign : v.isNegative = false)
    (htext : v.typed = .ok (String.ofList s)) :
    Rendered p (.number v) (String.ofList s) s (.number (Numeral.literal s)) := by
  have hsame := h.same
  rw [hsign, if_neg Bool.false_ne_true] at hsame
  refine ⟨htext, ?_, .number hsame, ?_, opens_number s, fun _ => closes_of_isTyped h, ?_,
    fun h => nomatch h⟩
  · rw [String.toList_ofList]
    exact .text (plain_of_isTyped h)
  · rw [Expr.category, hsign]
    exact spells_numeral h hp
  · rintro w hw -
    cases hw
    exact ⟨h, hp⟩

theorem rendered_negative (h : v.IsTyped s) (hp : p s) (hsign : v.isNegative = true)
    (htext : v.typed = .ok (String.ofList ('-' :: s))) :
    Rendered p (.number v) (String.ofList ('-' :: s)) ('-' :: s)
      (.number (Numeral.literal s).neg) := by
  have hsame := h.same
  rw [hsign, if_pos rfl] at hsame
  refine ⟨htext, ?_, .number hsame, ?_, opens_number _, fun _ => ?_, ?_, fun h => nomatch h⟩
  · rw [String.toList_ofList]
    exact .text (List.forall_mem_cons.mpr ⟨by decide, plain_of_isTyped h⟩)
  · rw [Expr.category, hsign]
    exact spells_negative h hp
  · have hcloses : Closes (.number v) s := closes_of_isTyped h
    exact hcloses.append (s := ['-']) (legible_numeral h hp).ne_nil rfl
  · rintro w hw hpositive
    cases hw
    rw [hsign] at hpositive
    cases hpositive

theorem exists_rendered_number (hv : v.IsWritten p) : ∃ m s e', Rendered p (.number v) m s e' := by
  obtain ⟨s, htext, htyped, hp⟩ := hv
  cases hsign : v.isNegative with
  | false =>
    rw [hsign, if_neg Bool.false_ne_true] at htext
    exact ⟨_, _, _, rendered_positive htyped hp hsign htext⟩
  | true =>
    rw [hsign, if_pos rfl] at htext
    exact ⟨_, _, _, rendered_negative htyped hp hsign htext⟩

end

theorem rendered_var {c : Char} (hc : c ∈ letters) :
    Rendered p (.var (String.ofList [c])) (String.ofList [c]) [c] (.var (String.ofList [c])) := by
  obtain ⟨hspells, hunsigned⟩ := spells_letter hc
  have hplain : ∀ c ∈ letters, c ≠ '<' := forall_mem_of_all rfl
  refine ⟨rfl, ?_, .var _, hspells, ?_, ?_, by simp, fun _ _ => hunsigned⟩
  · rw [String.toList_ofList]
    exact .text (by simpa using hplain c hc)
  · intro a ha
    rw [List.head?_cons, Option.mem_some_iff] at ha
    subst ha
    exact .inr fun y hy => ⟨hc, (Expr.var.inj hy).symm⟩
  · intro _ a ha
    rw [List.getLast?_singleton, Option.mem_some_iff] at ha
    subst ha
    exact .inr ⟨hc, rfl⟩

theorem Rendered.call {f : String} (hf : f ∈ FunctionTable.standard.names)
    (h : Rendered p e m s e') :
    Rendered p (.call f e) (f ++ "(" ++ m ++ ")") (f.toList ++ '(' :: (s ++ [')']))
      (.call f e') := by
  obtain ⟨hspells, hunsigned⟩ := spells_call hf (h.spells.widen (Nat.zero_le _))
  have hplain : ∀ c ∈ lowerLetters, c ≠ '<' := forall_mem_of_all rfl
  have hname : Unmarks f.toList f.toList :=
    .text fun c hc => hplain c (functionName_spelling hf c hc)
  refine ⟨?_, ?_, .call f h.agrees, hspells, fun _ _ => .inr (by simp [leftEnd]), fun _ => ?_,
    by simp, fun _ _ => hunsigned⟩
  · rw [Markup.render, h.renders]
    rfl
  · have htext : (f ++ "(" ++ m ++ ")").toList = f.toList ++ (parenthesizeIf true m).toList := by
      simp [parenthesizeIf]
    rw [htext]
    exact hname.append (unmarks_parenthesizeIf true h.unmarks)
  · have hclose := closes_of_mark (e := .call f e) (s := f.toList ++ '(' :: s) mem_marks_close
    rwa [List.append_assoc] at hclose

/-! ## Sums and equations -/

theorem exists_sign (op : Operator) :
    ∃ sign, op.symbol.toList = [sign] ∧ IsSign sign (.operator op) := by
  cases op with
  | equals => exact ⟨'=', rfl, by simp [signs], rfl⟩
  | plus => exact ⟨'+', rfl, by simp [signs], rfl⟩
  | minus => exact ⟨'-', rfl, by simp [signs], rfl⟩
  | times => exact ⟨'*', rfl, by simp [signs], rfl⟩
  | divide => exact ⟨'/', rfl, by simp [signs], rfl⟩
  | power => exact ⟨'^', rfl, by simp [signs], rfl⟩

/-- What the grammar says of an operator between operands that it takes as they are. -/
theorem derives_operator (hdivide : op ≠ divide) (hpower : op ≠ power) {t : Token}
    {i n rest : List Token} (hl : Derives (op.operandCategory false) i (t :: n) l')
    (ht : t.kind = .operator op) (hr : Derives (op.operandCategory true) n rest r') :
    Derives op.category i rest (.binary op l' r') := by
  cases op with
  | equals => exact .equals hl ht hr
  | plus => exact .plusMinus hl ht (.inl rfl) hr
  | minus => exact .plusMinus hl ht (.inr rfl) hr
  | times => exact .timesDivide hl ht (.inl rfl) hr
  | divide => exact absurd rfl hdivide
  | power => exact absurd rfl hpower

theorem spells_spaced (hdivide : op ≠ divide) (hpower : op ≠ power) {sign : Char}
    (hsign : IsSign sign (.operator op)) (hl : Spells p (op.operandCategory false) sl l')
    (hr : Spells p (op.operandCategory true) sr r') :
    Spells p op.category (sl ++ ' ' :: sign :: ' ' :: sr) (.binary op l' r') := by
  have hcategory : op.category ≠ .atom := by
    cases op <;> first | decide | exact absurd rfl hdivide
  have hspells := hl.beforeSpace.operate hsign (derives_operator hdivide hpower) (.inr hpower)
    hcategory hr.afterSpace
  rwa [List.append_assoc] at hspells

theorem unmarks_spaced {sign : Char} (hsymbol : op.symbol.toList = [sign])
    (hsign : IsSign sign (.operator op)) (hl : Unmarks ml.toList sl) (hr : Unmarks mr.toList sr) :
    Unmarks (ml ++ " " ++ op.symbol ++ " " ++ mr).toList (sl ++ ' ' :: sign :: ' ' :: sr) := by
  have hplain : ∀ c ∈ signs, c ≠ '<' := forall_mem_of_all rfl
  have hbetween : Unmarks [' ', sign, ' '] [' ', sign, ' '] :=
    .text (by simpa using hplain sign hsign.sign)
  simpa [hsymbol] using hl.append (hbetween.append hr)

theorem Rendered.spaced (hop : op = equals ∨ op = plus ∨ op = minus) (hl : Rendered p l ml sl l')
    (hr : Rendered p r mr sr r') :
    ∃ s, Rendered p (.binary op l r) (joined standardReserved op l r ml mr) s
      (.binary op l' r') := by
  obtain ⟨sign, hsymbol, hsign⟩ := exists_sign op
  have hjoined : joined standardReserved op l r ml mr
      = parenthesizeIf (l.needsParentheses (.binary op l r) false) ml ++ " " ++ op.symbol ++ " "
        ++ parenthesizeIf (r.needsParentheses (.binary op l r) true) mr := by
    rcases hop with rfl | rfl | rfl <;> rfl
  have hother : op ≠ divide ∧ op ≠ power := by
    rcases hop with rfl | rfl | rfl <;> exact ⟨by decide, by decide⟩
  have hloose : op.category.tightness < Category.product.tightness := by
    rcases hop with rfl | rfl | rfl <;> decide
  refine ⟨_, renders_binary hl hr, ?_, .binary op hl.agrees hr.agrees,
    spells_spaced hother.1 hother.2 hsign (hl.operand op l r false) (hr.operand op l r true),
    (hl.opens.wrapIf _).append (wrapIf_ne_nil hl.ne_nil _) rfl, fun h => ?_, by simp, fun _ h => ?_⟩
  · rw [hjoined]
    exact unmarks_spaced hsymbol hsign (unmarks_parenthesizeIf _ hl.unmarks)
      (unmarks_parenthesizeIf _ hr.unmarks)
  · exact absurd h (not_le.mpr hloose)
  · exact absurd h (not_le.mpr (hloose.trans (by decide)))

/-! ## Ratios and powers -/

theorem Rendered.divide (hl : Rendered p l ml sl l') (hr : Rendered p r mr sr r') :
    ∃ s, Rendered p (.binary divide l r) (joined standardReserved divide l r ml mr) s
      (.binary divide l' r') := by
  have hnumerator : Spells p .product ('(' :: (sl ++ [')'])) l' :=
    (hl.spells.widen (Nat.zero_le _)).group.widen (by decide)
  have hdenominator : Spells p .unary ('(' :: (sr ++ [')'])) r' :=
    (hr.spells.widen (Nat.zero_le _)).group.widen (by decide)
  have hratio : Spells p .product ('(' :: (sl ++ [')']) ++ '/' :: '(' :: (sr ++ [')']))
      (.binary .divide l' r') :=
    hnumerator.operate ⟨by simp [signs], rfl⟩ (fun hl ht hr => .timesDivide hl ht (.inr rfl) hr)
      (.inr (by decide)) (by decide) hdenominator
  have hspells := hratio.widen (d := .equation) (by decide)
  refine ⟨_, renders_binary hl hr, ?_, .binary _ hl.agrees hr.agrees, hspells.group, ?_,
    fun _ => closes_of_mark (s := '(' :: _) mem_marks_close, by simp,
    fun _ _ => unsigned_group hspells⟩
  · have hfraction := unmarks_fraction hl.unmarks hr.unmarks
    simpa [joined] using hfraction
  · intro a ha
    exact .inl (Option.some.inj ha).symm

/-- The base of a power as it is printed. -/
theorem Rendered.base (hl : Rendered p l ml sl l') :
    let base := Markup.wrapIf (isNegativeNumber l)
      (Markup.wrapIf (l.needsParentheses (.binary power l r) false) sl)
    Spells p .atom base l' ∧ ∀ t, (∀ b ∈ t, b ∈ alphabet) → Unsigned (base ++ '^' :: t) := by
  have hsign : IsSign '^' (.operator power) := ⟨by simp [signs], rfl⟩
  have hgroup : Spells p .atom ('(' :: (sl ++ [')'])) l' := (hl.spells.widen (Nat.zero_le _)).group
  have hwrapped : ∀ t, Unsigned ('(' :: (sl ++ [')']) ++ '^' :: t) := fun t =>
    (unsigned_group (hl.spells.widen (Nat.zero_le _))).append hgroup.legible
      (clear_before hsign.mem_breaks _ t)
  have hplain : ∀ t, Unsigned sl → Unsigned (sl ++ '^' :: t) := fun t h =>
    h.append hl.spells.legible (clear_before hsign.mem_breaks _ t)
  have hspells := hl.spells
  cases l with
  | empty => cases hl.agrees
  | number v =>
    cases hnegative : v.isNegative with
    | false =>
      rw [Expr.category, hnegative] at hspells
      rw [isNegativeNumber, hnegative]
      obtain ⟨htyped, hp⟩ := hl.typed v rfl hnegative
      exact ⟨hspells, fun t ht => unsigned_numeralPower htyped hp ht⟩
    | true =>
      rw [isNegativeNumber, hnegative]
      exact ⟨hgroup, fun t _ => hwrapped t⟩
  | var x => exact ⟨hspells, fun t _ => hplain t (hl.unsigned rfl (Nat.le_add_right 3 2))⟩
  | call f a => exact ⟨hspells, fun t _ => hplain t (hl.unsigned rfl (Nat.le_add_right 3 2))⟩
  | binary inner a b =>
    have hwraps : (Expr.binary inner a b).needsParentheses (.binary power (.binary inner a b) r) false
        = true := by
      cases inner <;> rfl
    rw [hwraps]
    exact ⟨hgroup, fun t _ => hwrapped t⟩

theorem Rendered.power (hl : Rendered p l ml sl l') (hr : Rendered p r mr sr r') :
    ∃ s, Rendered p (.binary power l r) (joined standardReserved power l r ml mr) s
      (.binary power l' r') := by
  obtain ⟨hbase, hunsigned⟩ := hl.base (r := r)
  have hexponent : Spells p .equation sr r' := hr.spells.widen (Nat.zero_le _)
  refine ⟨_, renders_binary hl hr, ?_, .binary _ hl.agrees hr.agrees, hbase.power hexponent,
    ((hl.opens.wrapIf _).wrapIf _).append hbase.legible.ne_nil rfl, fun _ => ?_, by simp,
    fun _ _ => hunsigned _ hexponent.group.known⟩
  · rw [joined, String.toList_append]
    exact (unmarks_parenthesizeIf _ (unmarks_parenthesizeIf _ hl.unmarks)).append
      (unmarks_superscript hr.unmarks)
  · rw [← List.cons_append, ← List.cons_append, ← List.append_assoc]
    exact closes_of_mark mem_marks_close

end

end Locus
