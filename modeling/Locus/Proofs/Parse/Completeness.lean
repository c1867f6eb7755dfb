import Locus.Proofs.Parse.Grammar
import Locus.Proofs.Parse.Reduction

/-! What the grammar derives is parsed. Each derivation drives the parser from a state in which an
operand is due to one in which its expression is all but reduced: what has been added to the waiting
operators binds as tightly as the category demands, and reducing it leaves the expression on top of
the operands (`Derives.drives`). -/

namespace Locus
set_option autoImplicit false

open Locus.Operator

/-! ## Single tokens -/

section

variable {operands reduced : List Expr} {above pending : List Pending}
  {previous : Option TokenKind} {negated : Bool} {token : Token} {rest : List Token}

theorem pushOperator_standard {op : Operator} (habove : BindAt op.incoming above)
    (hreduce : reduceAll above operands = .ok reduced) (hpending : YieldTo op.incoming pending)
    (position : Int) :
    pushOperator .standard op position ⟨operands, above ++ pending, previous, negated⟩
      = .ok ⟨reduced, .operator op op.precedence position :: pending, previous, negated⟩ := by
  obtain ⟨entry, hfind, hprecedence, hincoming⟩ := find?_standard op
  rw [pushOperator, hfind]
  dsimp only
  rw [hincoming, reduceTighter_append habove le_rfl hreduce,
    reduceTighter_of_yieldTo hpending, hprecedence]
  rfl

theorem juxtapose_of_ends {table : OperatorTable} {s : ParseState} {kind : TokenKind}
    (hs : s.previous = some kind) (hends : kind.endsOperand) (ht : token.kind.startsOperand) :
    juxtapose table token s = pushOperator table .times token.position s := by
  rw [juxtapose, if_pos (by simp [hs, hends, ht])]

/-- A token that comes where an operand is due implies no product. -/
theorem advance_of_due (table : OperatorTable) (hdue : operandDue previous) :
    advance table ⟨operands, pending, previous, negated⟩ token rest
      = takeToken table token rest ⟨operands, pending, previous, negated⟩ >>= fun s =>
        .ok { s with previous := some token.kind } := by
  rw [advance, juxtapose_of_not fun h => h.2 hdue]
  rfl

theorem advance_number {v : Literal} (hdue : operandDue previous) (ht : token.kind = .number)
    (hv : Literal.ofText? token.text.toList = some v) :
    advance .standard ⟨operands, pending, previous, negated⟩ token rest
      = .ok ⟨.number (if negated then v.neg else v) :: operands, pending, some .number, false⟩ := by
  rw [advance_of_due _ hdue, takeToken, ht]
  dsimp only
  rw [hv]
  rfl

theorem advance_name (hdue : operandDue previous)
    (ht : token.kind = .letter ∨ token.kind = .constant) (hname : token.text ≠ "") :
    advance .standard ⟨operands, pending, previous, negated⟩ token rest
      = .ok ⟨.var token.text :: operands, pending, some token.kind, negated⟩ := by
  have hempty : ¬token.text.isEmpty := by
    simpa using hname
  rw [advance_of_due _ hdue, takeToken]
  rcases ht with ht | ht
  · rw [ht]
    dsimp only
    rw [if_neg hempty]
    rfl
  · rw [ht]
    dsimp only
    rw [if_neg hempty]
    rfl

theorem advance_function (hdue : operandDue previous) (ht : token.kind = .function) :
    advance .standard ⟨operands, pending, previous, negated⟩ token rest
      = .ok ⟨operands, .call token.text 4 token.position :: pending, some .function, negated⟩ := by
  rw [advance_of_due _ hdue, takeToken, ht]
  rfl

theorem advance_open (hdue : operandDue previous) (ht : token.kind = .openParen) :
    advance .standard ⟨operands, pending, previous, negated⟩ token rest
      = .ok ⟨operands, .group token.position :: pending, some .openParen, negated⟩ := by
  rw [advance_of_due _ hdue, takeToken, ht]
  rfl

theorem negatesLiteral_iff (tokens : List Token) :
    negatesLiteral tokens = true ↔ StartsSigned tokens := by
  match tokens with
  | [] => simp [negatesLiteral, StartsSigned]
  | [number] => simp [negatesLiteral, StartsSigned, IsSigned, StartsWith]
  | number :: next :: rest => simp [negatesLiteral, StartsSigned, IsSigned, StartsWith]

theorem advance_sign (hdue : operandDue previous) (ht : token.kind = .operator minus)
    (hrest : StartsSigned rest) :
    advance .standard ⟨operands, pending, previous, negated⟩ token rest
      = .ok ⟨operands, pending, some (.operator minus), true⟩ := by
  rw [advance_of_due _ hdue, takeToken, ht]
  dsimp only
  rw [hdue, (negatesLiteral_iff rest).mpr hrest]
  rfl

theorem advance_negation (hdue : operandDue previous) (ht : token.kind = .operator minus)
    (hrest : ¬StartsSigned rest) :
    advance .standard ⟨operands, pending, previous, negated⟩ token rest
      = .ok ⟨.int (-1) :: operands, .operator times 4 token.position :: pending,
          some (.operator minus), negated⟩ := by
  rw [← negatesLiteral_iff] at hrest
  rw [advance_of_due _ hdue, takeToken, ht]
  dsimp only
  rw [hdue, if_neg hrest]
  rfl

theorem advance_operator {kind : TokenKind} {op : Operator} (hends : kind.endsOperand)
    (ht : token.kind = .operator op) (habove : BindAt op.incoming above)
    (hreduce : reduceAll above operands = .ok reduced) (hpending : YieldTo op.incoming pending) :
    advance .standard ⟨operands, above ++ pending, some kind, false⟩ token rest
      = .ok ⟨reduced, .operator op op.precedence token.position :: pending,
          some (.operator op), false⟩ := by
  have hdue : ¬(op = minus ∧ operandDue (some kind)) := by
    simp [operandDue, hends]
  have hstarts : ¬(token.kind.startsOperand ∧ ¬operandDue (some kind)) := by
    rw [ht]
    exact fun h => Bool.false_ne_true h.1
  rw [advance, juxtapose_of_not hstarts, ok_bind, takeToken, ht]
  dsimp only
  rw [if_neg (by simpa using hdue), pushOperator_standard habove hreduce hpending]
  rfl

theorem advance_close (table : OperatorTable) (ht : token.kind = .closeParen) :
    advance table ⟨operands, pending, previous, negated⟩ token rest
      = closeGroup token.position ⟨operands, pending, previous, negated⟩ >>= fun s =>
        .ok { s with previous := some .closeParen } := by
  have hstarts : ¬(token.kind.startsOperand ∧ ¬operandDue previous) := by
    rw [ht]
    exact fun h => Bool.false_ne_true h.1
  rw [advance, juxtapose_of_not hstarts, ok_bind, takeToken, ht]
  rfl

/-- An operand next to an operand is as good as one behind a product sign. -/
theorem advance_juxtaposed {kind : TokenKind} (hends : kind.endsOperand)
    (ht : token.kind.startsOperand) (habove : BindAt times.incoming above)
    (hreduce : reduceAll above operands = .ok reduced)
    (hpending : YieldTo times.incoming pending) :
    advance .standard ⟨operands, above ++ pending, some kind, false⟩ token rest
      = advance .standard
        ⟨reduced, .operator times times.precedence token.position :: pending, none, false⟩
        token rest := by
  have hdue : operandDue none := rfl
  rw [advance_of_due _ hdue, advance, juxtapose_of_ends rfl hends ht,
    pushOperator_standard habove hreduce hpending, ok_bind]
  unfold takeToken
  cases hkind : token.kind with
  | number => cases Literal.ofText? token.text.toList <;> rfl
  | letter | constant => by_cases hempty : token.text.isEmpty <;> simp [hempty]
  | function | openParen => rfl
  | operator op | closeParen | unknown =>
    rw [hkind] at ht
    cases ht

end

/-! ## What a derivation does -/

namespace Category

/-- The strength below which what waits must lie for a derivation to leave it alone. -/
def bound : Category → Int
  | equation => 0
  | sum => 2
  | product => 3
  | unary | power | atom => 6

/-- How tightly at least a derivation binds what it adds to what waits. -/
def level : Category → Int
  | equation => 0
  | sum => 2
  | product => 3
  | unary | power => 4
  | atom => 6

end Category

/-- Whether a call waits that an open parenthesis would take as its own. -/
def CallWaits (pending : List Pending) : Prop :=
  ∃ name precedence position below, pending = .call name precedence position :: below

theorem not_callWaits_operator {op : Operator} {precedence position : Int} {below : List Pending} :
    ¬CallWaits (.operator op precedence position :: below) := by
  rintro ⟨_, _, _, _, h⟩
  cases h

theorem not_callWaits_group {position : Int} {below : List Pending} :
    ¬CallWaits (.group position :: below) := by
  rintro ⟨_, _, _, _, h⟩
  cases h

section

variable {level : Int} {above : List Pending} {operands unreduced : List Expr} {a : Expr}
  {start position : Int} {previous : Option TokenKind} {negated : Bool}

theorem closeGroup_of_not_callWaits {pending : List Pending} (habove : BindAt level above)
    (hreduce : reduceAll above unreduced = .ok operands) (hcall : ¬CallWaits pending) :
    closeGroup position ⟨unreduced, above ++ .group start :: pending, previous, negated⟩
      = .ok ⟨operands, pending, previous, negated⟩ := by
  rw [closeGroup, reduceGroup_append habove hreduce, ok_bind]
  dsimp only
  split
  · exact absurd ⟨_, _, _, _, rfl⟩ hcall
  · rfl

theorem closeGroup_of_call {name : String} {precedence p : Int} {below : List Pending}
    (habove : BindAt level above) (hreduce : reduceAll above unreduced = .ok (a :: operands))
    (hname : name ≠ "") :
    closeGroup position
        ⟨unreduced, above ++ .group start :: .call name precedence p :: below, previous, negated⟩
      = .ok ⟨.call name a :: operands, below, previous, negated⟩ := by
  have hempty : name.isEmpty = false := by
    simpa using hname
  rw [closeGroup, reduceGroup_append habove hreduce, ok_bind]
  dsimp only
  rw [reduce, hempty]
  rfl

end

/-- The parser goes over the tokens up to `r` and comes to stand behind an operand, with
`e` on top of its operands once it has reduced what it added. -/
def Drives (c : Category) (i r : List Token) (e : Expr) : Prop :=
  ∀ (operands : List Expr) (pending : List Pending) (previous : Option TokenKind),
    operandDue previous → YieldTo c.bound pending →
    (CallWaits pending → ¬StartsWith .openParen i) →
    ∃ (above : List Pending) (unreduced : List Expr) (kind : TokenKind),
      kind.endsOperand ∧ BindAt c.level above ∧
      reduceAll above unreduced = .ok (e :: operands) ∧
      advanceAll .standard ⟨operands, pending, previous, false⟩ i
        = advanceAll .standard ⟨unreduced, above ++ pending, some kind, false⟩ r

section

variable {c d result : Category} {i m r : List Token} {l e : Expr} {t : Token}

theorem Drives.weaken (h : Drives c i r e) (hbound : d.bound ≤ c.bound)
    (hlevel : d.level ≤ c.level) : Drives d i r e := by
  intro operands pending previous hdue hpending hcall
  obtain ⟨above, unreduced, kind, hends, habove, hreduce, hrun⟩ :=
    h operands pending previous hdue (hpending.mono hbound) hcall
  exact ⟨above, unreduced, kind, hends, habove.mono hlevel, hreduce, hrun⟩

/-- What is added behind a waiting operator is reduced before it. -/
theorem reduceAll_concat_operator {level : Int} {above : List Pending}
    (habove : BindAt level above) {unreduced operands : List Expr}
    (hreduce : reduceAll above unreduced = .ok (e :: l :: operands)) (op : Operator)
    (precedence position : Int) :
    reduceAll (above ++ [.operator op precedence position]) unreduced
      = .ok (.binary op l e :: operands) := by
  rw [reduceAll_append habove hreduce]
  rfl

theorem Drives.binary {op : Operator} (hl : Drives c i (t :: m) l) (ht : t.kind = .operator op)
    (hr : Drives d m r e) (hresult : result.bound ≤ c.bound ∧ result.bound ≤ op.incoming)
    (hleft : op.incoming ≤ c.level) (hright : (op.precedence : Int) < d.bound)
    (hlevel : result.level ≤ op.precedence ∧ result.level ≤ d.level) :
    Drives result i r (.binary op l e) := by
  intro operands pending previous hdue hpending hcall
  obtain ⟨above, unreduced, kind, hends, habove, hreduce, hrun⟩ :=
    hl operands pending previous hdue (hpending.mono hresult.1) hcall
  obtain ⟨above', unreduced', kind', hends', habove', hreduce', hrun'⟩ :=
    hr (l :: operands) (.operator op op.precedence t.position :: pending) (some (.operator op)) rfl
      (yieldTo_cons rfl hright) (fun h => absurd h not_callWaits_operator)
  refine ⟨above' ++ [.operator op op.precedence t.position], unreduced', kind', hends',
    (habove'.mono hlevel.2).concat rfl hlevel.1, reduceAll_concat_operator habove' hreduce' _ _ _, ?_⟩
  rw [hrun, advanceAll,
    advance_operator hends ht (habove.mono hleft) hreduce (hpending.mono hresult.2), ok_bind, hrun',
    List.append_assoc]
  rfl

theorem Drives.juxtaposed (hl : Drives .product i (t :: m) l) (ht : t.kind.startsOperand)
    (hr : Drives .unary (t :: m) r e) : Drives .product i r (.binary times l e) := by
  intro operands pending previous hdue hpending hcall
  obtain ⟨above, unreduced, kind, hends, habove, hreduce, hrun⟩ :=
    hl operands pending previous hdue hpending hcall
  obtain ⟨above', unreduced', kind', hends', habove', hreduce', hrun'⟩ :=
    hr (l :: operands) (.operator times times.precedence t.position :: pending) none rfl
      (yieldTo_cons rfl (by decide)) (fun h => absurd h not_callWaits_operator)
  refine ⟨above' ++ [.operator times times.precedence t.position], unreduced', kind', hends',
    (habove'.mono (by decide)).concat rfl (by decide),
    reduceAll_concat_operator habove' hreduce' _ _ _, ?_⟩
  rw [hrun, advanceAll, advance_juxtaposed hends ht habove hreduce hpending, ← advanceAll, hrun',
    List.append_assoc]
  rfl

theorem Drives.call (ht : t.kind = .function) (hname : t.text ≠ "")
    (hopen : ¬StartsWith .openParen i) (h : Drives .unary i r e) :
    Drives .unary (t :: i) r (.call t.text e) := by
  intro operands pending previous hdue hpending _
  obtain ⟨above, unreduced, kind, hends, habove, hreduce, hrun⟩ :=
    h operands (.call t.text 4 t.position :: pending) (some .function) rfl
      (yieldTo_cons rfl (by decide)) (fun _ => hopen)
  refine ⟨above ++ [.call t.text 4 t.position], unreduced, kind, hends,
    habove.concat rfl (by decide), ?_, ?_⟩
  · have hempty : t.text.isEmpty = false := by
      simpa using hname
    rw [reduceAll_append habove hreduce, reduceAll_cons rfl, reduce, hempty]
    rfl
  · rw [advanceAll, advance_function hdue ht, ok_bind, hrun, List.append_assoc]
    rfl

theorem Drives.negation (ht : t.kind = .operator minus) (hsign : ¬StartsSigned i)
    (h : Drives .unary i r e) : Drives .unary (t :: i) r (.binary times (.int (-1)) e) := by
  intro operands pending previous hdue hpending _
  obtain ⟨above, unreduced, kind, hends, habove, hreduce, hrun⟩ :=
    h (.int (-1) :: operands) (.operator times 4 t.position :: pending) (some (.operator minus)) rfl
      (yieldTo_cons rfl (by decide)) (fun h => absurd h not_callWaits_operator)
  refine ⟨above ++ [.operator times 4 t.position], unreduced, kind, hends,
    habove.concat rfl (by decide), reduceAll_concat_operator habove hreduce _ _ _, ?_⟩
  rw [advanceAll, advance_negation hdue ht hsign, ok_bind, hrun, List.append_assoc]
  rfl

theorem Drives.number {v : Literal} (ht : t.kind = .number)
    (hv : Literal.ofText? t.text.toList = some v) : Drives .atom (t :: r) r (.number v) := by
  intro operands pending previous hdue _ _
  refine ⟨[], .number v :: operands, .number, rfl, bindAt_nil _, rfl, ?_⟩
  rw [advanceAll, advance_number hdue ht hv]
  rfl

theorem Drives.negative {v : Literal} {sign : Token} (hsign : sign.kind = .operator minus)
    (ht : IsSigned t r) (hv : Literal.ofText? t.text.toList = some v) :
    Drives .atom (sign :: t :: r) r (.number v.neg) := by
  intro operands pending previous hdue _ _
  refine ⟨[], .number v.neg :: operands, .number, rfl, bindAt_nil _, rfl, ?_⟩
  rw [advanceAll, advance_sign hdue hsign ⟨t, r, rfl, ht⟩, ok_bind, advanceAll,
    advance_number rfl ht.1 hv]
  rfl

theorem Drives.name (ht : t.kind = .letter ∨ t.kind = .constant) (hname : t.text ≠ "") :
    Drives .atom (t :: r) r (.var t.text) := by
  intro operands pending previous hdue _ _
  have hends : t.kind.endsOperand := by
    rcases ht with ht | ht <;> rw [ht] <;> rfl
  refine ⟨[], .var t.text :: operands, t.kind, hends, bindAt_nil _, rfl, ?_⟩
  rw [advanceAll, advance_name hdue ht hname]
  rfl

theorem Drives.group {o close : Token} (ho : o.kind = .openParen)
    (h : Drives .equation i (close :: r) e) (hclose : close.kind = .closeParen) :
    Drives .atom (o :: i) r e := by
  intro operands pending previous hdue _ hcall
  have hwaits : ¬CallWaits pending := fun h => hcall h ⟨o, rfl, ho⟩
  obtain ⟨above, unreduced, kind, _, habove, hreduce, hrun⟩ :=
    h operands (.group o.position :: pending) (some .openParen) rfl (yieldTo_group _ _ _)
      (fun h => absurd h not_callWaits_group)
  refine ⟨[], e :: operands, .closeParen, rfl, bindAt_nil _, rfl, ?_⟩
  rw [advanceAll, advance_open hdue ho, ok_bind, hrun, advanceAll, advance_close _ hclose,
    closeGroup_of_not_callWaits habove hreduce hwaits]
  rfl

theorem Drives.callGroup {f o close : Token} (hf : f.kind = .function) (hname : f.text ≠ "")
    (ho : o.kind = .openParen) (h : Drives .equation i (close :: r) e)
    (hclose : close.kind = .closeParen) : Drives .atom (f :: o :: i) r (.call f.text e) := by
  intro operands pending previous hdue _ _
  obtain ⟨above, unreduced, kind, _, habove, hreduce, hrun⟩ :=
    h operands (.group o.position :: .call f.text 4 f.position :: pending) (some .openParen) rfl
      (yieldTo_group _ _ _) (fun h => absurd h not_callWaits_group)
  refine ⟨[], .call f.text e :: operands, .closeParen, rfl, bindAt_nil _, rfl, ?_⟩
  rw [advanceAll, advance_function hdue hf, ok_bind, advanceAll, advance_open rfl ho, ok_bind,
    hrun, advanceAll, advance_close _ hclose, closeGroup_of_call habove hreduce hname]
  rfl

end

/-! ## Derivations -/

/-- What parsing reads off the texts of tokens: numbers and names. -/
structure Token.Reads (t : Token) : Prop where
  number : t.kind = .number →
    Literal.ofText? t.text.toList = some (Numeral.literal t.text.toList)
  named : t.kind = .letter ∨ t.kind = .constant ∨ t.kind = .function → t.text ≠ ""

theorem Derives.drives {c : Category} {i r : List Token} {e : Expr} (h : Derives c i r e)
    (hreads : ∀ t ∈ i, t.Reads) : Drives c i r e := by
  induction h with
  | ofSum _ ih => exact (ih hreads).weaken (by decide) (by decide)
  | ofProduct _ ih => exact (ih hreads).weaken (by decide) (by decide)
  | ofUnary _ ih => exact (ih hreads).weaken (by decide) (by decide)
  | ofPower _ ih => exact (ih hreads).weaken (by decide) (by decide)
  | ofAtom _ ih => exact (ih hreads).weaken (by decide) (by decide)
  | equals hl ht _ ihl ihr =>
    have hm := fun t h => hreads t (hl.suffix.subset (List.mem_cons_of_mem _ h))
    exact (ihl hreads).binary ht (ihr hm) (by decide) (by decide) (by decide) (by decide)
  | plusMinus hl ht hop _ ihl ihr =>
    have hm := fun t h => hreads t (hl.suffix.subset (List.mem_cons_of_mem _ h))
    rcases hop with rfl | rfl
    · exact (ihl hreads).binary ht (ihr hm) (by decide) (by decide) (by decide) (by decide)
    · exact (ihl hreads).binary ht (ihr hm) (by decide) (by decide) (by decide) (by decide)
  | timesDivide hl ht hop _ ihl ihr =>
    have hm := fun t h => hreads t (hl.suffix.subset (List.mem_cons_of_mem _ h))
    rcases hop with rfl | rfl
    · exact (ihl hreads).binary ht (ihr hm) (by decide) (by decide) (by decide) (by decide)
    · exact (ihl hreads).binary ht (ihr hm) (by decide) (by decide) (by decide) (by decide)
  | power hl ht _ ihl ihr =>
    have hm := fun t h => hreads t (hl.suffix.subset (List.mem_cons_of_mem _ h))
    exact (ihl hreads).binary ht (ihr hm) (by decide) (by decide) (by decide) (by decide)
  | juxtaposed hl hminus hr ihl ihr =>
    have hr' := ihr fun t h => hreads t (hl.suffix.subset h)
    obtain ⟨t, rest, rfl, hstarts | hkind⟩ := hr.head
    · exact (ihl hreads).juxtaposed hstarts hr'
    · exact absurd ⟨t, rfl, hkind⟩ hminus
  | call hf hopen _ ih =>
    exact .call hf ((hreads _ List.mem_cons_self).named (.inr (.inr hf))) hopen
      (ih fun t h => hreads t (List.mem_cons_of_mem _ h))
  | negation ht hsign _ ih =>
    exact .negation ht hsign (ih fun t h => hreads t (List.mem_cons_of_mem _ h))
  | number ht => exact .number ht ((hreads _ List.mem_cons_self).number ht)
  | negative hm ht =>
    exact .negative hm ht ((hreads _ (List.mem_cons_of_mem _ List.mem_cons_self)).number ht.1)
  | name ht =>
    exact .name ht ((hreads _ List.mem_cons_self).named (ht.imp_right .inl))
  | group ho _ hclose ih =>
    exact .group ho (ih fun t h => hreads t (List.mem_cons_of_mem _ h)) hclose
  | callGroup hf ho _ hclose ih =>
    exact .callGroup hf ((hreads _ List.mem_cons_self).named (.inr (.inr hf))) ho
      (ih fun t h => hreads t (List.mem_cons_of_mem _ (List.mem_cons_of_mem _ h))) hclose

theorem Derives.parseTokens_eq_ok {tokens : List Token} {e : Expr}
    (h : Derives .equation tokens [] e) (hreads : ∀ t ∈ tokens, t.Reads) :
    parseTokens .standard tokens = .ok e := by
  obtain ⟨above, unreduced, kind, _, _, hreduce, hrun⟩ :=
    h.drives hreads [] [] none rfl (fun _ h => nomatch h) fun ⟨_, _, _, _, h⟩ => nomatch h
  rw [parseTokens, ParseState.start, hrun, advanceAll, ok_bind, finish, List.append_nil, hreduce]
  rfl

end Locus
