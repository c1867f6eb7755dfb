import Mathlib.Tactic.SplitIfs
import Locus.Proofs.Parse.Counting

/-! The order of operands. Between two tokens the two stacks interleave to what has been read
(`Stacked`): each operator that waits has its left operand right below it, so reducing takes neighbours
and keeps their order. This needs no strength of any operator. Every table parses the same tokens, and
an expression holds them from left to right (`parsing_keeps_order`). -/

namespace Locus
set_option autoImplicit false

open Locus.Expr Locus.Operator

/-! ## Items -/

/-- What an expression is made of, and what the tokens of a text stand for. No token stands for
`nothing`. -/
inductive Item where
  | nothing
  | literal (v : Literal)
  | name (text : String)
  | call (text : String)
  | operator (op : Operator)
deriving DecidableEq, Repr

/-- What an expression holds, from left to right. A call comes before its argument. -/
def Expr.items : Expr → List Item
  | .empty => [.nothing]
  | .number v => [.literal v]
  | .var x => [.name x]
  | .call f a => .call f :: a.items
  | .binary op l r => l.items ++ .operator op :: r.items

/-- The literal that a number stands for, behind a minus or not. Some numbers cannot be read. -/
def Token.literalItem (negated : Bool) (t : Token) : List Item :=
  ((Literal.ofText? t.text.toList).map fun v => .literal (if negated then v.neg else v)).toList

/-- The product sign that is left out in front of a token. -/
def impliedProduct (due : Bool) (t : Token) : List Item :=
  if t.kind.startsOperand && !due then [.operator times] else []

/-- What tokens stand for where an operand is due or has just ended. Parentheses are dropped. A minus
where an operand is due belongs to the number behind it, if that is not the base of a power, and stands
for `-1` and a product if not. -/
def itemsFrom (due : Bool) : List Token → List Item
  | [] => []
  | t :: rest =>
    impliedProduct due t ++
      match t.kind with
      | .number => t.literalItem false ++ itemsFrom false rest
      | .letter | .constant => .name t.text :: itemsFrom false rest
      | .function => .call t.text :: itemsFrom true rest
      | .openParen | .unknown => itemsFrom true rest
      | .closeParen => itemsFrom false rest
      | .operator op =>
        if !(op = minus && due) then .operator op :: itemsFrom true rest
        else if !negatesLiteral rest then .literal (.int (-1)) :: .operator times :: itemsFrom true rest
        else
          match rest with
          | [] => []
          | next :: others => next.literalItem true ++ itemsFrom false others

section

variable {due : Bool} {t next : Token} {rest others : List Token}

theorem impliedProduct_eq_nil (ht : t.kind.startsOperand = false) : impliedProduct due t = [] := by
  rw [impliedProduct, ht]
  rfl

theorem impliedProduct_true (t : Token) : impliedProduct true t = [] := by
  simp [impliedProduct]

theorem exists_number_of_negatesLiteral (h : negatesLiteral rest) :
    ∃ next others, rest = next :: others ∧ next.kind = .number := by
  match rest with
  | [] => cases h
  | [next] => exact ⟨next, [], rfl, by simpa [negatesLiteral] using h⟩
  | next :: after :: others =>
    simp only [negatesLiteral, Bool.and_eq_true, beq_iff_eq] at h
    exact ⟨next, after :: others, rfl, h.1⟩

theorem itemsFrom_number (hk : t.kind = .number) : itemsFrom due (t :: rest)
    = impliedProduct due t ++ t.literalItem false ++ itemsFrom false rest := by
  rw [itemsFrom.eq_def, List.append_assoc]
  simp only [hk]

theorem itemsFrom_name (hk : t.kind = .letter ∨ t.kind = .constant) : itemsFrom due (t :: rest)
    = impliedProduct due t ++ [.name t.text] ++ itemsFrom false rest := by
  rw [itemsFrom.eq_def, List.append_assoc, List.singleton_append]
  rcases hk with hk | hk <;> simp only [hk]

theorem itemsFrom_function (hk : t.kind = .function) : itemsFrom due (t :: rest)
    = impliedProduct due t ++ [.call t.text] ++ itemsFrom true rest := by
  rw [itemsFrom.eq_def, List.append_assoc, List.singleton_append]
  simp only [hk]

theorem itemsFrom_open (hk : t.kind = .openParen ∨ t.kind = .unknown) :
    itemsFrom due (t :: rest) = impliedProduct due t ++ itemsFrom true rest := by
  rw [itemsFrom.eq_def]
  rcases hk with hk | hk <;> simp only [hk]

theorem itemsFrom_close (hk : t.kind = .closeParen) :
    itemsFrom due (t :: rest) = itemsFrom false rest := by
  rw [itemsFrom.eq_def]
  simp only [impliedProduct_eq_nil (by rw [hk]; rfl), hk, List.nil_append]

theorem itemsFrom_operator {op : Operator} (hk : t.kind = .operator op)
    (hbinary : ¬(op = minus ∧ due)) :
    itemsFrom due (t :: rest) = [.operator op] ++ itemsFrom true rest := by
  rw [itemsFrom.eq_def]
  simp only [impliedProduct_eq_nil (by rw [hk]; rfl), hk, List.nil_append]
  rw [if_pos (by simpa [imp_iff_not_or] using hbinary), List.singleton_append]

theorem itemsFrom_negation (hk : t.kind = .operator minus) (hsigned : ¬negatesLiteral rest) :
    itemsFrom true (t :: rest)
      = [.literal (.int (-1)), .operator times] ++ itemsFrom true rest := by
  rw [itemsFrom.eq_def]
  simp only [impliedProduct_eq_nil (by rw [hk]; rfl), hk, List.nil_append]
  rw [if_neg (by simp), if_pos (by simpa using hsigned)]
  rfl

theorem itemsFrom_sign (hk : t.kind = .operator minus) (hsigned : negatesLiteral (next :: others)) :
    itemsFrom true (t :: next :: others) = next.literalItem true ++ itemsFrom false others := by
  rw [itemsFrom.eq_def]
  simp only [impliedProduct_eq_nil (by rw [hk]; rfl), hk, List.nil_append]
  rw [if_neg (by simp), if_neg (by simpa using hsigned)]

end

/-! ## Names and numbers among items -/

/-- An operator, or the `-1` of a minus. -/
def Item.IsSign : Item → Prop
  | .operator _ => True
  | .literal v => v = .int (-1)
  | _ => False

/-- What a name stands for: a variable or a call. -/
def Token.nameItem? (t : Token) : Option Item :=
  match t.kind with
  | .letter | .constant => some (.name t.text)
  | .function => some (.call t.text)
  | _ => none

/-- `StandFor tokens items`: the items are those of the numbers and names among the tokens, in their
order, with signs in between. -/
inductive StandFor : List Token → List Item → Prop
  | nil : StandFor [] []
  | sign {tokens : List Token} {i : Item} {items : List Item} :
      i.IsSign → StandFor tokens items → StandFor tokens (i :: items)
  | number {t : Token} {tokens : List Token} {items : List Item} (negated : Bool) :
      t.kind = .number → StandFor tokens items →
      StandFor (t :: tokens) (t.literalItem negated ++ items)
  | other {t : Token} {tokens : List Token} {items : List Item} :
      t.kind ≠ .number → StandFor tokens items →
      StandFor (t :: tokens) (t.nameItem?.toList ++ items)

theorem StandFor.impliedProduct {tokens : List Token} {items : List Item}
    (h : StandFor tokens items) (due : Bool) (t : Token) :
    StandFor tokens (impliedProduct due t ++ items) := by
  rw [Locus.impliedProduct]
  split
  · exact .sign trivial h
  · exact h

theorem StandFor.skip {t : Token} {tokens : List Token} {items : List Item}
    (h : StandFor tokens items) (hk : t.kind ≠ .number) (hname : t.nameItem? = none) :
    StandFor (t :: tokens) items := by
  have hother := h.other hk
  rwa [hname] at hother

/-- Which product signs are left out and where a minus belongs to a number only adds and removes
signs. -/
theorem standFor_itemsFrom (due : Bool) (tokens : List Token) :
    StandFor tokens (itemsFrom due tokens) := by
  induction due, tokens using itemsFrom.induct with
  | case1 due => rw [itemsFrom]; exact .nil
  | case2 due t rest ihEnded ihDue ihOthers =>
    cases hk : t.kind with
    | number =>
      rw [itemsFrom_number hk, List.append_assoc]
      exact (ihEnded.number false hk).impliedProduct due t
    | letter | constant =>
      have hother := ihEnded.other (t := t) (by simp [hk])
      rw [Token.nameItem?, hk] at hother
      rw [itemsFrom_name (by simp [hk]), List.append_assoc]
      exact hother.impliedProduct due t
    | function =>
      have hother := ihDue.other (t := t) (by simp [hk])
      rw [Token.nameItem?, hk] at hother
      rw [itemsFrom_function hk, List.append_assoc]
      exact hother.impliedProduct due t
    | openParen | unknown =>
      rw [itemsFrom_open (by simp [hk])]
      exact (ihDue.skip (by simp [hk]) (by rw [Token.nameItem?, hk])).impliedProduct due t
    | closeParen =>
      rw [itemsFrom_close hk]
      exact ihEnded.skip (by simp [hk]) (by rw [Token.nameItem?, hk])
    | operator op =>
      have hname : t.nameItem? = none := by rw [Token.nameItem?, hk]
      by_cases hbinary : op = minus ∧ due
      · obtain ⟨rfl, rfl⟩ := hbinary
        by_cases hsigned : negatesLiteral rest
        · -- The number behind the minus is taken with it.
          obtain ⟨next, others, rfl, hnext⟩ := exists_number_of_negatesLiteral hsigned
          rw [itemsFrom_sign hk hsigned]
          exact (ihOthers.number true hnext).skip (by simp [hk]) hname
        · rw [itemsFrom_negation hk hsigned]
          exact .sign rfl (.sign trivial (ihDue.skip (by simp [hk]) hname))
      · rw [itemsFrom_operator hk hbinary]
        exact .sign trivial (ihDue.skip (by simp [hk]) hname)

/-! ## Stacks -/

/-- `Stacked due depth pending operands items`: the two stacks interleave to `items`, inside of so many
groups. On top is an operand, or one is due. -/
inductive Stacked : Bool → Nat → List Pending → List Expr → List Item → Prop
  | start : Stacked true 0 [] [] []
  | operand {depth : Nat} {pending : List Pending} {operands : List Expr} {items : List Item}
      (e : Expr) : Stacked true depth pending operands items →
      Stacked false depth pending (e :: operands) (items ++ e.items)
  | operator {depth : Nat} {pending : List Pending} {operands : List Expr} {items : List Item}
      (op : Operator) (precedence position : Int) : Stacked false depth pending operands items →
      Stacked true depth (.operator op precedence position :: pending) operands
        (items ++ [.operator op])
  | call {depth : Nat} {pending : List Pending} {operands : List Expr} {items : List Item}
      {name : String} (precedence position : Int) : name ≠ "" →
      Stacked true depth pending operands items →
      Stacked true depth (.call name precedence position :: pending) operands (items ++ [.call name])
  | group {depth : Nat} {pending : List Pending} {operands : List Expr} {items : List Item}
      (position : Int) : Stacked true depth pending operands items →
      Stacked true (depth + 1) (.group position :: pending) operands items

variable {depth : Nat} {top : Pending} {pending waiting : List Pending} {operands : List Expr}
  {items : List Item}

/-- Where no operand is due, the last one is on top of what has been read before it. -/
theorem Stacked.exists_top (h : Stacked false depth pending operands items) :
    ∃ e rest before, operands = e :: rest ∧ items = before ++ e.items ∧
      Stacked true depth pending rest before := by
  cases h with
  | operand e h => exact ⟨e, _, _, rfl, rfl, h⟩

/-- Reducing takes the operands next to what waits and leaves the same items. -/
theorem Stacked.reduce (h : Stacked false depth (top :: waiting) operands items) {p : Int}
    (hp : top.precedence? = some p) :
    ∃ reduced, Locus.reduce top operands = .ok reduced ∧
      Stacked false depth waiting reduced items := by
  obtain ⟨e, rest, before, rfl, rfl, hrest⟩ := h.exists_top
  cases hrest with
  | group position _ => cases hp
  | call precedence position hname hbelow =>
    refine ⟨_, if_neg (by simpa using hname), ?_⟩
    simpa [Expr.items] using hbelow.operand (.call _ e)
  | operator op precedence position hleft =>
    obtain ⟨l, rest, before, rfl, rfl, hbelow⟩ := hleft.exists_top
    refine ⟨_, rfl, ?_⟩
    simpa [Expr.items] using hbelow.operand (.binary op l e)

theorem Stacked.reduceTighter (h : Stacked false depth pending operands items) (incoming : Int) :
    ∃ left reduced, Locus.reduceTighter incoming pending operands = .ok (left, reduced) ∧
      Stacked false depth left reduced items := by
  induction pending generalizing operands with
  | nil => exact ⟨[], operands, rfl, h⟩
  | cons top below ih =>
    cases hp : top.precedence? with
    | none =>
      obtain ⟨position, rfl⟩ := eq_group_of_precedence? hp
      exact ⟨_, operands, rfl, h⟩
    | some p =>
      rw [reduceTighter_cons hp]
      split_ifs
      · obtain ⟨reduced, hreduce, hbelow⟩ := h.reduce hp
        rw [hreduce, ok_bind]
        exact ih hbelow
      · exact ⟨_, operands, rfl, h⟩

theorem Stacked.reduceGroup (h : Stacked false (depth + 1) pending operands items) (position : Int) :
    ∃ left reduced, Locus.reduceGroup position pending operands = .ok (left, reduced) ∧
      Stacked false depth left reduced items := by
  induction pending generalizing operands with
  | nil =>
    obtain ⟨e, rest, before, rfl, rfl, hrest⟩ := h.exists_top
    cases hrest
  | cons top below ih =>
    cases hp : top.precedence? with
    | none =>
      obtain ⟨start, rfl⟩ := eq_group_of_precedence? hp
      obtain ⟨e, rest, before, rfl, rfl, hrest⟩ := h.exists_top
      cases hrest with
      | group _ h => exact ⟨below, _, rfl, h.operand e⟩
    | some p =>
      obtain ⟨reduced, hreduce, hbelow⟩ := h.reduce hp
      rw [reduceGroup_cons hp, hreduce, ok_bind]
      exact ih hbelow

theorem Stacked.reduceAll (h : Stacked false 0 pending operands items) :
    ∃ e, Locus.reduceAll pending operands = .ok [e] ∧ e.items = items := by
  induction pending generalizing operands with
  | nil =>
    obtain ⟨e, rest, before, rfl, rfl, hrest⟩ := h.exists_top
    cases hrest
    exact ⟨e, rfl, rfl⟩
  | cons top below ih =>
    cases hp : top.precedence? with
    | none =>
      obtain ⟨start, rfl⟩ := eq_group_of_precedence? hp
      obtain ⟨e, rest, before, rfl, rfl, hrest⟩ := h.exists_top
      cases hrest
    | some p =>
      obtain ⟨reduced, hreduce, hbelow⟩ := h.reduce hp
      rw [reduceAll_cons hp, hreduce, ok_bind]
      exact ih hbelow

/-! ## States -/

/-- The table knows every operator. -/
def OperatorTable.Complete (table : OperatorTable) : Prop :=
  ∀ op : Operator, table.contains op.symbol

theorem OperatorTable.standard_complete : OperatorTable.standard.Complete := by
  intro op
  cases op <;> rfl

/-- A state whose stacks interleave to `items`, and whether a minus belongs to the number to come. -/
structure ParseState.Holds (s : ParseState) (due negated : Bool) (depth : Nat) (items : List Item) :
    Prop where
  stacked : Stacked due depth s.pending s.operands items
  sign : s.negated = negated

variable {table : OperatorTable} {s s₀ s₁ : ParseState} {t : Token} {rest : List Token}
  {due negated : Bool}

theorem pushOperator_holds (htable : table.Complete) (h : s.Holds false negated depth items)
    (op : Operator) (position : Int) :
    ∃ s', pushOperator table op position s = .ok s' ∧
      s'.Holds true negated depth (items ++ [.operator op]) := by
  obtain ⟨entry, hentry⟩ := Option.isSome_iff_exists.mp (htable op)
  obtain ⟨left, reduced, hreduce, hleft⟩ := h.stacked.reduceTighter entry.incoming
  refine ⟨{ s with
    operands := reduced, pending := .operator op entry.precedence position :: left }, ?_,
    hleft.operator op entry.precedence position, h.sign⟩
  rw [pushOperator, hentry]
  dsimp only
  rw [hreduce]
  rfl

theorem closeGroup_holds (h : s.Holds false negated (depth + 1) items) (position : Int) :
    ∃ s', closeGroup position s = .ok s' ∧ s'.Holds false negated depth items := by
  obtain ⟨left, reduced, hreduce, hleft⟩ := h.stacked.reduceGroup position
  rw [closeGroup, hreduce, ok_bind]
  dsimp only
  split
  · next name precedence p below =>
    obtain ⟨called, hcall, hbelow⟩ := hleft.reduce rfl
    rw [hcall]
    exact ⟨_, rfl, hbelow, h.sign⟩
  · exact ⟨_, rfl, hleft, h.sign⟩

/-- An implied product is pushed, so that an operand is due in any case. -/
theorem juxtapose_holds (htable : table.Complete) (h : s.Holds due negated depth items)
    (hdue : operandDue s.previous = due) (hstarts : t.kind.startsOperand) :
    ∃ s', juxtapose table t s = .ok s' ∧
      s'.Holds true negated depth (items ++ impliedProduct due t) := by
  rw [impliedProduct, hstarts]
  cases due with
  | true =>
    refine ⟨s, juxtapose_of_not fun hnot => hnot.2 hdue, ?_⟩
    simpa using h
  | false =>
    have hends : s.previous.any TokenKind.endsOperand := by
      simpa [operandDue] using hdue
    rw [juxtapose, hstarts, hends]
    exact pushOperator_holds htable h .times t.position

/-! ## Tokens -/

/-- The next token is taken in, and the state after it is as given. -/
def Advances (table : OperatorTable) (s : ParseState) (t : Token) (rest : List Token)
    (due negated : Bool) (depth : Nat) (items : List Item) : Prop :=
  ∃ s', advance table s t rest = .ok s' ∧ s'.Holds due negated depth items ∧
    operandDue s'.previous = due

theorem Advances.of_take (hjuxtapose : juxtapose table t s = .ok s₀)
    (htake : takeToken table t rest s₀ = .ok s₁) (h : s₁.Holds due negated depth items)
    (hdue : operandDue (some t.kind) = due) : Advances table s t rest due negated depth items := by
  refine ⟨{ s₁ with previous := some t.kind }, ?_, ⟨h.stacked, h.sign⟩, hdue⟩
  rw [advance, hjuxtapose, ok_bind, htake]
  rfl

section

variable (htable : table.Complete) (h : s.Holds due negated depth items)
  (hdue : operandDue s.previous = due)

include htable h hdue

theorem advances_number (hk : t.kind = .number) (hread : t.IsRead) :
    Advances table s t rest false false depth
      (items ++ (impliedProduct due t ++ t.literalItem negated)) := by
  obtain ⟨v, hv⟩ := Option.isSome_iff_exists.mp (hread.number hk)
  obtain ⟨s₀, hjuxtapose, h₀⟩ := juxtapose_holds htable h hdue (by rw [hk]; rfl)
  have htake : takeToken table t rest s₀ = .ok { s₀ with
      operands := .number (if negated then v.neg else v) :: s₀.operands, negated := false } := by
    rw [takeToken, hk]
    dsimp only
    rw [hv, h₀.sign]
  rw [Token.literalItem, hv, ← List.append_assoc]
  exact .of_take hjuxtapose htake ⟨h₀.stacked.operand _, rfl⟩ (by rw [hk]; rfl)

theorem advances_name (hk : t.kind = .letter ∨ t.kind = .constant) (hread : t.IsRead) :
    Advances table s t rest false negated depth
      (items ++ (impliedProduct due t ++ [.name t.text])) := by
  have hname : ¬t.text.isEmpty := by simpa using hread.named (hk.imp_right .inl)
  have hstarts := TokenKind.startsOperand_of_name hk
  have hends : operandDue (some t.kind) = false := by rcases hk with hk | hk <;> rw [hk] <;> rfl
  obtain ⟨s₀, hjuxtapose, h₀⟩ := juxtapose_holds htable h hdue hstarts
  have htake : takeToken table t rest s₀
      = .ok { s₀ with operands := .var t.text :: s₀.operands } := by
    rw [takeToken]
    rcases hk with hk | hk <;>
    · rw [hk]
      exact if_neg hname
  rw [← List.append_assoc]
  exact .of_take hjuxtapose htake ⟨h₀.stacked.operand _, h₀.sign⟩ hends

theorem advances_function (hk : t.kind = .function) (hread : t.IsRead) :
    Advances table s t rest true negated depth
      (items ++ (impliedProduct due t ++ [.call t.text])) := by
  obtain ⟨s₀, hjuxtapose, h₀⟩ := juxtapose_holds htable h hdue (by rw [hk]; rfl)
  have htake : takeToken table t rest s₀ = .ok { s₀ with
      pending := .call t.text table.callPrecedence t.position :: s₀.pending } := by
    rw [takeToken, hk]
  rw [← List.append_assoc]
  exact .of_take hjuxtapose htake
    ⟨h₀.stacked.call _ _ (hread.named (.inr (.inr hk))), h₀.sign⟩ (by rw [hk]; rfl)

theorem advances_open (hk : t.kind = .openParen) :
    Advances table s t rest true negated (depth + 1) (items ++ impliedProduct due t) := by
  obtain ⟨s₀, hjuxtapose, h₀⟩ := juxtapose_holds htable h hdue (by rw [hk]; rfl)
  have htake : takeToken table t rest s₀
      = .ok { s₀ with pending := .group t.position :: s₀.pending } := by
    rw [takeToken, hk]
  exact .of_take hjuxtapose htake ⟨h₀.stacked.group _, h₀.sign⟩ (by rw [hk]; rfl)

end

theorem juxtapose_of_not_starts (ht : t.kind.startsOperand = false) : juxtapose table t s = .ok s :=
  juxtapose_of_not fun h => by simp [ht] at h

theorem advances_close (h : s.Holds false negated (depth + 1) items) (hk : t.kind = .closeParen) :
    Advances table s t rest false negated depth items := by
  obtain ⟨s₁, hclose, h₁⟩ := closeGroup_holds h t.position
  refine .of_take (juxtapose_of_not_starts (by rw [hk]; rfl)) ?_ h₁ (by rw [hk]; rfl)
  rw [takeToken, hk]
  exact hclose

theorem advances_operator (htable : table.Complete) (h : s.Holds false negated depth items)
    (hdue : operandDue s.previous = false) {op : Operator} (hk : t.kind = .operator op) :
    Advances table s t rest true negated depth (items ++ [.operator op]) := by
  obtain ⟨s₁, hpush, h₁⟩ := pushOperator_holds htable h op t.position
  refine .of_take (juxtapose_of_not_starts (by rw [hk]; rfl)) ?_ h₁ (by rw [hk]; rfl)
  rw [takeToken, hk]
  dsimp only
  rw [if_neg (by simp [hdue])]
  exact hpush

section

variable (h : s.Holds true negated depth items) (hdue : operandDue s.previous = true)
  (hk : t.kind = .operator minus)

include h hdue hk

theorem advances_sign (hsigned : negatesLiteral rest) :
    Advances table s t rest true true depth items := by
  have htake : takeToken table t rest s = .ok { s with negated := true } := by
    rw [takeToken, hk]
    dsimp only
    rw [hdue, hsigned]
    rfl
  exact .of_take (juxtapose_of_not_starts (by rw [hk]; rfl)) htake ⟨h.stacked, rfl⟩ (by rw [hk]; rfl)

theorem advances_negation (hsigned : ¬negatesLiteral rest) :
    Advances table s t rest true negated depth
      (items ++ [.literal (.int (-1)), .operator times]) := by
  have htake : takeToken table t rest s = .ok { s with
      operands := .int (-1) :: s.operands
      pending := .operator .times table.callPrecedence t.position :: s.pending } := by
    rw [takeToken, hk]
    dsimp only
    rw [hdue, if_neg hsigned]
    rfl
  have hstacked := (h.stacked.operand (.int (-1))).operator times table.callPrecedence t.position
  rw [List.append_assoc] at hstacked
  exact .of_take (juxtapose_of_not_starts (by rw [hk]; rfl)) htake ⟨hstacked, h.sign⟩
    (by rw [hk]; rfl)

end

/-! ## All tokens -/

/-- All tokens are taken in, and the stacks interleave to `items` without an open group. -/
def Runs (table : OperatorTable) (s : ParseState) (tokens : List Token) (items : List Item) : Prop :=
  ∃ s', advanceAll table s tokens = .ok s' ∧ s'.Holds false false 0 items

theorem Advances.runs {all : List Item} (h : Advances table s t rest due negated depth items)
    (hrest : ∀ s', s'.Holds due negated depth items → operandDue s'.previous = due →
      Runs table s' rest all) : Runs table s (t :: rest) all := by
  obtain ⟨s', hadvance, hholds, hdue⟩ := h
  obtain ⟨last, hrun, hlast⟩ := hrest s' hholds hdue
  refine ⟨last, ?_, hlast⟩
  rw [advanceAll, hadvance]
  exact hrun

/-- Well placed tokens are taken in one after the other, and the stacks hold what they stand for. -/
theorem runs_of_wellPlaced {tokens : List Token} (htable : table.Complete)
    (h : s.Holds due false depth items) (hdue : operandDue s.previous = due)
    (hplaced : WellPlaced due depth tokens) (hread : ∀ t ∈ tokens, t.IsRead) :
    Runs table s tokens (items ++ itemsFrom due tokens) := by
  induction due, tokens using itemsFrom.induct generalizing s depth items with
  | case1 due =>
    obtain ⟨rfl, rfl⟩ := hplaced
    refine ⟨s, rfl, ?_⟩
    rwa [itemsFrom, List.append_nil]
  | case2 due t rest ihEnded ihDue ihOthers =>
    obtain ⟨ht, hrest⟩ := List.forall_mem_cons.mp hread
    rw [WellPlaced] at hplaced
    cases hk : t.kind with
    | unknown => exact absurd hk ht.known
    | number =>
      rw [hk] at hplaced
      rw [itemsFrom_number hk, ← List.append_assoc]
      refine (advances_number htable h hdue hk ht).runs fun s' h' hdue' => ?_
      exact ihEnded h' hdue' hplaced hrest
    | letter =>
      rw [hk] at hplaced
      rw [itemsFrom_name (.inl hk), ← List.append_assoc]
      refine (advances_name htable h hdue (.inl hk) ht).runs fun s' h' hdue' => ?_
      exact ihEnded h' hdue' hplaced hrest
    | constant =>
      rw [hk] at hplaced
      rw [itemsFrom_name (.inr hk), ← List.append_assoc]
      refine (advances_name htable h hdue (.inr hk) ht).runs fun s' h' hdue' => ?_
      exact ihEnded h' hdue' hplaced hrest
    | function =>
      rw [hk] at hplaced
      rw [itemsFrom_function hk, ← List.append_assoc]
      refine (advances_function htable h hdue hk ht).runs fun s' h' hdue' => ?_
      exact ihDue h' hdue' hplaced hrest
    | openParen =>
      rw [hk] at hplaced
      rw [itemsFrom_open (.inl hk), ← List.append_assoc]
      refine (advances_open htable h hdue hk).runs fun s' h' hdue' => ?_
      exact ihDue h' hdue' hplaced hrest
    | closeParen =>
      rw [hk] at hplaced
      obtain ⟨rfl, outer, rfl, hplaced⟩ := hplaced
      rw [itemsFrom_close hk]
      refine (advances_close h hk).runs fun s' h' hdue' => ?_
      exact ihEnded h' hdue' hplaced hrest
    | operator op =>
      rw [hk] at hplaced
      obtain ⟨hminus, hplaced⟩ := hplaced
      by_cases hbinary : op = minus ∧ due
      · obtain ⟨rfl, rfl⟩ := hbinary
        by_cases hsigned : negatesLiteral rest
        · -- The minus and the number behind it are one operand, so two tokens are taken at once.
          obtain ⟨next, others, rfl, hnext⟩ := exists_number_of_negatesLiteral hsigned
          obtain ⟨hnumber, hothers⟩ := List.forall_mem_cons.mp hrest
          rw [WellPlaced, hnext] at hplaced
          rw [itemsFrom_sign hk hsigned, ← List.append_assoc]
          refine (advances_sign h hdue hk hsigned).runs fun s₁ h₁ hdue₁ => ?_
          have hadvances : Advances table s₁ next others false false depth
              (items ++ next.literalItem true) := by
            rw [← List.nil_append (next.literalItem true), ← impliedProduct_true next]
            exact advances_number htable h₁ hdue₁ hnext hnumber
          refine hadvances.runs fun s₂ h₂ hdue₂ => ?_
          exact ihOthers h₂ hdue₂ hplaced hothers
        · rw [itemsFrom_negation hk hsigned, ← List.append_assoc]
          refine (advances_negation h hdue hk hsigned).runs fun s' h' hdue' => ?_
          exact ihDue h' hdue' hplaced hrest
      · have hend : due = false := by
          by_contra hdue
          rw [Bool.not_eq_false] at hdue
          exact hbinary ⟨hminus hdue, hdue⟩
        subst hend
        rw [itemsFrom_operator hk hbinary, ← List.append_assoc]
        refine (advances_operator htable h hdue hk).runs fun s' h' hdue' => ?_
        exact ihDue h' hdue' hplaced hrest

/-! ## All tables -/

variable {tokens : List Token} {e : Expr}

theorem exists_parseTokens (htable : table.Complete) (hplaced : WellPlaced true 0 tokens)
    (hread : ∀ t ∈ tokens, t.IsRead) :
    ∃ e, parseTokens table tokens = .ok e ∧ e.items = itemsFrom true tokens := by
  obtain ⟨s, hrun, hs⟩ := runs_of_wellPlaced htable (s := .start) ⟨.start, rfl⟩ rfl hplaced hread
  obtain ⟨e, hreduce, hitems⟩ := hs.stacked.reduceAll
  refine ⟨e, ?_, hitems⟩
  rw [parseTokens, hrun, ok_bind, finish, hreduce]
  rfl

theorem items_of_parseTokens (htable : table.Complete) (h : parseTokens table tokens = .ok e) :
    e.items = itemsFrom true tokens := by
  obtain ⟨hplaced, hread⟩ := wellPlaced_of_parseTokens h
  obtain ⟨e', h', hitems⟩ := exists_parseTokens htable hplaced hread
  obtain rfl := Except.ok.inj (h.symm.trans h')
  exact hitems

/-- Which tokens are parsed does not depend on the strengths of the table. -/
theorem parseTokens_isOk_iff (htable : table.Complete) :
    (∃ e, parseTokens table tokens = .ok e) ↔
      WellPlaced true 0 tokens ∧ ∀ t ∈ tokens, t.IsRead := by
  constructor
  · rintro ⟨e, h⟩
    exact wellPlaced_of_parseTokens h
  · rintro ⟨hplaced, hread⟩
    obtain ⟨e, h, -⟩ := exists_parseTokens htable hplaced hread
    exact ⟨e, h⟩

/-- Whatever the strengths of operators and calls, the same tokens are parsed, and an expression holds
from left to right what its tokens stand for: nothing is lost, doubled or moved. -/
theorem parsing_keeps_order (tokens : List Token) :
    (∀ table table' : OperatorTable, table.Complete → table'.Complete →
        ((∃ e, parseTokens table tokens = .ok e) ↔ ∃ e, parseTokens table' tokens = .ok e)) ∧
      ∀ table : OperatorTable, table.Complete → ∀ e, parseTokens table tokens = .ok e →
        e.items = itemsFrom true tokens := by
  refine ⟨fun table table' htable htable' => ?_, fun table htable e h => ?_⟩
  · rw [parseTokens_isOk_iff htable, parseTokens_isOk_iff htable']
  · exact items_of_parseTokens htable h

/-- A table in which all operators and calls are equally strong and group to the right. -/
def levelTable : OperatorTable where
  entries := Operator.all.map fun op => ⟨op.symbol, op.symbol, 0, "right", false⟩
  callPrecedence := 0

/-- `-x^2 sin 3 - -4`. -/
def crowdedTokens : List Token :=
  [⟨.operator minus, "-", 0⟩, ⟨.letter, "x", 1⟩, ⟨.operator power, "^", 2⟩, ⟨.number, "2", 3⟩,
    ⟨.function, "sin", 5⟩, ⟨.number, "3", 9⟩, ⟨.operator minus, "-", 11⟩,
    ⟨.operator minus, "-", 13⟩, ⟨.number, "4", 14⟩]

/-- The same items under the two tables, in trees of different shapes. -/
theorem order_of_crowdedTokens :
    OperatorTable.standard.Complete ∧ levelTable.Complete ∧
      ∃ e e', parseTokens .standard crowdedTokens = .ok e ∧
        parseTokens levelTable crowdedTokens = .ok e' ∧ e ≠ e' ∧
        e.items = itemsFrom true crowdedTokens ∧ e'.items = itemsFrom true crowdedTokens ∧
        itemsFrom true crowdedTokens
          = [.literal (.int (-1)), .operator times, .name "x", .operator power, .literal (.int 2),
            .operator times, .call "sin", .literal (.int 3), .operator minus,
            .literal (.int (-4))] := by
  have hstandard := OperatorTable.standard_complete
  have hlevel : levelTable.Complete := by
    intro op
    cases op <;> rfl
  obtain ⟨hsame, hitems⟩ := parsing_keeps_order crowdedTokens
  have hparse : parseTokens .standard crowdedTokens = .ok
      (binary minus
        (binary times (binary times (int (-1)) (binary power (var "x") (int 2)))
          (call "sin" (int 3)))
        (int (-4))) := by
    decide +kernel
  obtain ⟨e', hparse'⟩ := (hsame _ _ hstandard hlevel).mp ⟨_, hparse⟩
  have hlast : (parseTokens levelTable crowdedTokens).toOption.map Expr.operator?
      = some (some times) := by
    decide +kernel
  refine ⟨hstandard, hlevel, _, e', hparse, hparse', ?_, hitems _ hstandard _ hparse,
    hitems _ hlevel _ hparse', by decide +kernel⟩
  rintro rfl
  rw [hparse'] at hlast
  cases hlast

end Locus
