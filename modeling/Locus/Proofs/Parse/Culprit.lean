import Locus.Proofs.Parse.Blame
import Locus.Proofs.Parse.Completeness
import Locus.Proofs.Parse.Counting

/-! Errors of parsing point at the culprit. A surplus of operands does not occur, and a run that ends
without an operand has read opening parentheses and then as many closing ones; every other failure
blames one of the tokens (`parse_error_points_at_culprit`). -/

namespace Locus
set_option autoImplicit false

open Locus.Operator

/-! ## Nothing but parentheses -/

section

variable {table : OperatorTable} {top : Pending} {pending pending' : List Pending}
  {operands reduced : List Expr} {position : Int}

theorem ne_nil_of_reduce {p : Int} (hp : top.precedence? = some p)
    (h : reduce top operands = .ok reduced) : reduced ≠ [] := by
  cases top with
  | group position => cases hp
  | operator op precedence position =>
    match operands with
    | [] | [_] => cases h
    | _ :: _ :: _ =>
      cases h
      exact List.cons_ne_nil _ _
  | call name precedence position =>
    cases operands with
    | nil => cases h
    | cons argument rest =>
      rw [reduce] at h
      split_ifs at h
      cases h
      exact List.cons_ne_nil _ _

/-- Where no operand is left, nothing has been reduced. -/
theorem Reduces.eq_of_nil {operands' : List Expr}
    (h : Reduces pending operands pending' operands') (hnil : operands' = []) :
    operands = [] ∧ pending = pending' := by
  induction h with
  | refl => exact ⟨hnil, rfl⟩
  | step hp hreduce _ ih => exact absurd (ih hnil).1 (ne_nil_of_reduce hp hreduce)

end

/-- Nothing but open parentheses waits. -/
structure ParseState.IsBare (s : ParseState) : Prop where
  operands : s.operands = []
  groups : ∀ top ∈ s.pending, top.isGroup
  unsigned : s.negated = false

section

variable {table : OperatorTable} {t : Token} {tokens rest : List Token} {s s₀ s₁ s' : ParseState}
  {op : Operator} {position : Int}

/-- An operator that is pushed waits, and says nothing of a minus in front of a literal. -/
theorem pushOperator_waits (h : pushOperator table op position s = .ok s') :
    (¬∀ top ∈ s'.pending, top.isGroup) ∧ s'.negated = s.negated := by
  rw [pushOperator] at h
  split at h
  · cases h
  · obtain ⟨r, -, hs'⟩ := bind_eq_ok.mp h
    cases hs'
    exact ⟨fun hgroups => absurd (hgroups _ List.mem_cons_self) Bool.false_ne_true, rfl⟩

/-- A group that is closed without an operand has nothing in it. -/
theorem closeGroup_waits (h : closeGroup position s = .ok s') :
    (s'.operands = [] → s.operands = [] ∧ ∃ start, s.pending = .group start :: s'.pending) ∧
      s'.negated = s.negated := by
  rw [closeGroup] at h
  obtain ⟨⟨pending, operands⟩, hreduce, hs'⟩ := bind_eq_ok.mp h
  dsimp only at hs'
  split at hs'
  · obtain ⟨reduced, hreduced, hs'⟩ := bind_eq_ok.mp hs'
    cases hs'
    exact ⟨fun hempty => absurd hempty (ne_nil_of_reduce rfl hreduced), rfl⟩
  · cases hs'
    obtain ⟨start, hreduces⟩ := reduces_of_reduceGroup hreduce
    refine ⟨fun hempty => ?_, rfl⟩
    obtain ⟨hoperands, hpending⟩ := hreduces.eq_of_nil hempty
    exact ⟨hoperands, start, hpending⟩

/-- A state in which nothing but open parentheses waits comes from such a state, by a parenthesis. -/
theorem advance_bare (h : advance table s t rest = .ok s') (hbare : s'.IsBare) :
    s.IsBare ∧
      (t.kind = .openParen ∧ operandDue s.previous ∧ s'.pending.length = s.pending.length + 1 ∨
        t.kind = .closeParen ∧ s.pending.length = s'.pending.length + 1) := by
  obtain ⟨s₀, s₁, hjuxtapose, htakes, rfl⟩ := advance_inv h
  obtain ⟨hoperands, hgroups, hunsigned⟩ := hbare
  cases htakes with
  | number _ _ | name _ _ | negation _ _ => cases hoperands
  | sign _ _ _ => cases hunsigned
  | call _ => exact absurd (hgroups _ List.mem_cons_self) Bool.false_ne_true
  | operator _ hpush => exact absurd hgroups (pushOperator_waits hpush).1
  | opening hk =>
    have hbelow : ∀ top ∈ s₀.pending, top.isGroup := fun top hmem =>
      hgroups top (List.mem_cons_of_mem _ hmem)
    rw [juxtapose] at hjuxtapose
    split_ifs at hjuxtapose with hends
    · exact absurd hbelow (pushOperator_waits hjuxtapose).1
    · cases hjuxtapose
      rw [hk] at hends
      exact ⟨⟨hoperands, hbelow, hunsigned⟩,
        .inl ⟨hk, by simpa [operandDue, TokenKind.startsOperand] using hends, rfl⟩⟩
  | closing hk hclose =>
    obtain rfl := juxtapose_inv hjuxtapose (by rw [hk]; rfl)
    obtain ⟨hempty, hsigned⟩ := closeGroup_waits hclose
    obtain ⟨hnone, start, hpending⟩ := hempty hoperands
    refine ⟨⟨hnone, ?_, hsigned ▸ hunsigned⟩, .inr ⟨hk, by rw [hpending]; rfl⟩⟩
    rw [hpending]
    exact List.forall_mem_cons.mpr ⟨rfl, hgroups⟩

/-- A minus waits for a literal only where the next token is one. -/
theorem Takes.signed (h : Takes table t rest s s') (hnegated : s'.negated = true) :
    s.negated = true ∧ t.kind ≠ .number ∨ StartsSigned rest := by
  cases h with
  | number _ _ => cases hnegated
  | name hk _ => exact .inl ⟨hnegated, by rcases hk with hk | hk <;> simp [hk]⟩
  | call hk | opening hk | negation hk _ => exact .inl ⟨hnegated, by simp [hk]⟩
  | closing hk hclose => exact .inl ⟨(closeGroup_waits hclose).2 ▸ hnegated, by simp [hk]⟩
  | sign _ _ hrest => exact .inr ((negatesLiteral_iff rest).mp hrest)
  | operator hk hpush => exact .inl ⟨(pushOperator_waits hpush).2 ▸ hnegated, by simp [hk]⟩

theorem advance_signed (h : advance table s t rest = .ok s')
    (hs : s.negated = true → StartsSigned (t :: rest)) :
    s'.negated = true → StartsSigned rest := by
  obtain ⟨s₀, s₁, hjuxtapose, htakes, rfl⟩ := advance_inv h
  have hsame : s₀.negated = s.negated := by
    rw [juxtapose] at hjuxtapose
    split_ifs at hjuxtapose
    · exact (pushOperator_waits hjuxtapose).2
    · cases hjuxtapose
      rfl
  intro hnegated
  rcases htakes.signed hnegated with ⟨hwaits, hother⟩ | hrest
  · exact absurd (startsSigned_cons.mp (hs (hsame ▸ hwaits))).1 hother
  · exact hrest

theorem advanceAll_unsigned (h : advanceAll table s tokens = .ok s')
    (hs : s.negated = true → StartsSigned tokens) : s'.negated = false := by
  induction tokens generalizing s with
  | nil =>
    cases h
    by_contra hnegated
    obtain ⟨number, rest, hnil, -⟩ := hs (by simpa using hnegated)
    cases hnil
  | cons t rest ih =>
    rw [advanceAll] at h
    obtain ⟨next, hadvance, hrest⟩ := bind_eq_ok.mp h
    exact ih hrest (advance_signed hadvance hs)

theorem advance_previous (h : advance table s t rest = .ok s') : s'.previous = some t.kind := by
  obtain ⟨s₀, s₁, -, -, rfl⟩ := advance_inv h
  rfl

/-- Tokens that lead to open parentheses alone are opening parentheses and then closing ones. -/
theorem advanceAll_bare (h : advanceAll table s tokens = .ok s') (hbare : s'.IsBare) :
    s.IsBare ∧ ∃ opening closing, tokens = opening ++ closing ∧
      (∀ t ∈ opening, t.kind = .openParen) ∧ (∀ t ∈ closing, t.kind = .closeParen) ∧
      s.pending.length + opening.length = s'.pending.length + closing.length ∧
      (operandDue s.previous = false → opening = []) := by
  induction tokens generalizing s with
  | nil =>
    cases h
    exact ⟨hbare, [], [], rfl, by simp, by simp, rfl, fun _ => rfl⟩
  | cons t rest ih =>
    rw [advanceAll] at h
    obtain ⟨next, hadvance, hrest⟩ := bind_eq_ok.mp h
    obtain ⟨hnext, opening, closing, rfl, hopening, hclosing, hlength, hdue⟩ := ih hrest
    obtain ⟨hs, ⟨ht, hstart, hcount⟩ | ⟨ht, hcount⟩⟩ := advance_bare hadvance hnext
    · refine ⟨hs, t :: opening, closing, rfl, List.forall_mem_cons.mpr ⟨ht, hopening⟩, hclosing, ?_,
        fun hnot => absurd (hnot.symm.trans hstart) Bool.false_ne_true⟩
      rw [List.length_cons]
      omega
    · obtain rfl := hdue (by rw [advance_previous hadvance, ht]; rfl)
      refine ⟨hs, [], t :: closing, rfl, by simp, List.forall_mem_cons.mpr ⟨ht, hclosing⟩, ?_,
        fun _ => rfl⟩
      rw [List.length_nil, List.length_cons] at *
      omega

theorem advanceAll_prospect_le (h : advanceAll table s tokens = .ok s') :
    s'.prospect ≤ s.prospect := by
  induction tokens generalizing s with
  | nil =>
    cases h
    exact le_rfl
  | cons t rest ih =>
    rw [advanceAll] at h
    obtain ⟨next, hadvance, hrest⟩ := bind_eq_ok.mp h
    exact (ih hrest).trans (advance_prospect_le hadvance)

/-- A run never ends with more than one expression, and with none only where there were nothing but
parentheses, as many closing ones behind the opening ones. -/
theorem notSingle_blames (h : advanceAll table .start tokens = .ok s) {operands : List Expr}
    (hreduce : reduceAll s.pending s.operands = .ok operands) (hnot : operands.length ≠ 1) :
    operands.length = 0 ∧ IsNested tokens := by
  have hprospect : s.prospect ≤ 1 := advanceAll_prospect_le h
  have hbalance : balance s.pending s.operands = operands.length := by
    rw [(reduceAll_keeps hreduce).balance]
    exact sub_zero _
  have hlength : operands.length = 0 := by
    have := s.balance_le_prospect
    omega
  obtain rfl := List.length_eq_zero_iff.mp hlength
  obtain ⟨hoperands, hpending⟩ := (reduces_of_reduceAll hreduce).eq_of_nil rfl
  have hbare : s.IsBare :=
    ⟨hoperands, by simp [hpending], advanceAll_unsigned h fun hstart => nomatch hstart⟩
  obtain ⟨-, opening, closing, hsplit, hopening, hclosing, hcount, -⟩ := advanceAll_bare h hbare
  refine ⟨rfl, opening, closing, hsplit, hopening, hclosing, ?_⟩
  simpa [ParseState.start, hpending] using hcount

theorem finish_blames (h : advanceAll .standard .start tokens = .ok s)
    (htracks : Tracks tokens tokens s) :
    EndsWith (ParseError.Blames tokens) (fun _ => True) (finish s) := by
  obtain ⟨groups, hopen, hwaits⟩ := htracks
  have hblames : EndsWith (ParseError.Blames tokens) (fun _ => True)
      (reduceAll s.pending s.operands) := by
    refine reduceAll_blames hwaits s.operands fun p outer hgroups => ?_
    subst hgroups
    obtain ⟨t, hlast, hposition⟩ := hopen.isLastUnclosed
    exact ⟨t, hopen.closesPaired, hlast, hposition⟩
  rw [finish]
  cases hreduce : reduceAll s.pending s.operands with
  | error error =>
    rw [hreduce] at hblames
    exact hblames
  | ok operands =>
    rw [ok_bind]
    split
    · trivial
    · next hnot =>
      refine notSingle_blames h hreduce fun hone => ?_
      obtain ⟨e, he⟩ := List.length_eq_one_iff.mp hone
      exact hnot e he

theorem parseTokens_blames (tokens : List Token) :
    EndsWith (ParseError.Blames tokens) (fun _ => True) (parseTokens .standard tokens) := by
  have hstart : Tracks tokens [] .start := ⟨[], .paired .nil, rfl, fun _ h => nomatch h⟩
  have hrun : EndsWith (ParseError.Blames tokens) (Tracks tokens tokens)
      (advanceAll .standard .start tokens) := advanceAll_blames hstart rfl
  rw [parseTokens]
  cases hs : advanceAll .standard .start tokens with
  | error error =>
    rw [hs] at hrun
    exact hrun
  | ok s =>
    rw [hs] at hrun
    exact finish_blames hs hrun

/-! ## Parentheses around nothing -/

theorem advanceAll_closing (positions : List Int) (previous : Option TokenKind)
    (hclosing : ∀ t ∈ tokens, t.kind = .closeParen) (hlength : positions.length = tokens.length) :
    ∃ previous', advanceAll table ⟨[], positions.map .group, previous, false⟩ tokens
      = .ok ⟨[], [], previous', false⟩ := by
  induction tokens generalizing positions previous with
  | nil =>
    obtain rfl := List.length_eq_zero_iff.mp hlength
    exact ⟨previous, rfl⟩
  | cons t rest ih =>
    cases positions with
    | nil => cases hlength
    | cons start positions =>
      rw [List.forall_mem_cons] at hclosing
      obtain ⟨previous', hrest⟩ := ih positions (some .closeParen) hclosing.2
        (Nat.succ.inj hlength)
      refine ⟨previous', ?_⟩
      rw [advanceAll, advance_close table hclosing.1]
      have hclose : closeGroup t.position ⟨[], (start :: positions).map .group, previous, false⟩
          = .ok ⟨[], positions.map .group, previous, false⟩ := by
        cases positions <;> rfl
      rw [hclose]
      exact hrest

theorem advanceAll_opening {opening : List Token} (hopening : ∀ t ∈ opening, t.kind = .openParen)
    (closing : List Token) (positions : List Int) {previous : Option TokenKind}
    (hdue : operandDue previous) :
    ∃ previous', advanceAll .standard ⟨[], positions.map .group, previous, false⟩ (opening ++ closing)
      = advanceAll .standard
        ⟨[], ((opening.map Token.position).reverse ++ positions).map .group, previous', false⟩
        closing := by
  induction opening generalizing positions previous with
  | nil => exact ⟨previous, rfl⟩
  | cons t opening ih =>
    rw [List.forall_mem_cons] at hopening
    have hbehind : operandDue (some .openParen) := rfl
    obtain ⟨previous', hrest⟩ := ih hopening.2 (t.position :: positions) hbehind
    refine ⟨previous', ?_⟩
    rw [List.cons_append, advanceAll, advance_open hdue hopening.1, ok_bind]
    simpa using hrest

theorem parseTokens_of_isNested (h : IsNested tokens) :
    parseTokens .standard tokens = .error (.notSingle 0) := by
  obtain ⟨opening, closing, rfl, hopening, hclosing, hlength⟩ := h
  have hdue : operandDue none := rfl
  obtain ⟨previous, hopen⟩ := advanceAll_opening hopening closing [] hdue
  obtain ⟨previous', hclose⟩ :=
    advanceAll_closing ((opening.map Token.position).reverse ++ []) previous hclosing
      (by simpa using hlength)
  have hrun : advanceAll .standard .start (opening ++ closing) = .ok ⟨[], [], previous', false⟩ :=
    hopen.trans hclose
  rw [parseTokens, hrun]
  rfl

end

/-! ## Errors -/

/-- The tokens do not form one expression, for another reason than that parentheses are unbalanced. -/
def ParseError.IsMalformed (error : ParseError) : Prop :=
  error.isRejection ∧ error.isUnbalanced = false

namespace ParseError

variable {tokens : List Token} {error : ParseError}

theorem Blames.unbalanced (h : error.Blames tokens) (hkind : error.isUnbalanced) :
    ¬Paired tokens ∧ ∃ t, error.position? = some t.position ∧
      (IsFirstUnopened tokens t ∨ ClosesPaired tokens ∧ IsLastUnclosed tokens t) := by
  cases error with
  | unmatchedClose p =>
    obtain ⟨t, hfirst, rfl⟩ := h
    exact ⟨hfirst.not_paired, t, rfl, .inl hfirst⟩
  | unmatchedOpen p =>
    obtain ⟨t, hcloses, hlast, rfl⟩ := h
    exact ⟨hlast.not_paired, t, rfl, .inr ⟨hcloses, hlast⟩⟩
  | _ => cases hkind

theorem Blames.malformed (h : error.Blames tokens) (hkind : error.IsMalformed) :
    (∃ t ∈ tokens, error.position? = some t.position) ∨ error = .notSingle 0 ∧ IsNested tokens := by
  cases error with
  | unexpected text p | literalTooLarge length p | missingArgument name p =>
    obtain ⟨t, ht, -, -, rfl⟩ := h
    exact .inl ⟨t, ht, rfl⟩
  | missingOperand op p =>
    obtain ⟨t, ht, rfl⟩ := h
    exact .inl ⟨t, ht, rfl⟩
  | notSingle count =>
    obtain ⟨rfl, hnested⟩ := h
    exact .inr ⟨rfl, hnested⟩
  | unmatchedClose p | unmatchedOpen p => cases hkind.2
  | undefinedOperator op | unnamedVariable | unnamedCall => cases hkind.1

theorem Blames.nameless (h : error.Blames tokens) (hkind : error.isRejection = false) :
    ∃ t ∈ tokens, t.IsNameless := by
  cases error with
  | undefinedOperator op => exact h.elim
  | unnamedVariable | unnamedCall => exact h
  | _ => cases hkind

end ParseError

/-- Where tokens are not parsed, the error points at the culprit. Unbalanced parentheses are reported
only where there are some, at the first closing one without a partner, or else at the last one left
open. Every other rejection points at one of the tokens. Only where these are parentheses around
nothing it has no position, and speaks of no expressions; a surplus is never reported. What is no
rejection is the fault of a nameless token. -/
theorem parse_error_points_at_culprit {tokens : List Token} {error : ParseError}
    (h : parseTokens .standard tokens = .error error) :
    (error.isUnbalanced → ¬Paired tokens ∧ ∃ t, error.position? = some t.position ∧
      (IsFirstUnopened tokens t ∨ ClosesPaired tokens ∧ IsLastUnclosed tokens t)) ∧
    (error.IsMalformed →
      ((∃ t ∈ tokens, error.position? = some t.position) ∨ error.position? = none) ∧
      (error.position? = none ↔ IsNested tokens) ∧
      (error.position? = none → error.message = "Expected a single expression, found 0")) ∧
    (error.isRejection = false → ∃ t ∈ tokens, t.IsNameless) := by
  have hblames := parseTokens_blames tokens
  rw [h] at hblames
  refine ⟨hblames.unbalanced, fun hmalformed => ?_, hblames.nameless⟩
  rcases hblames.malformed hmalformed with ⟨t, ht, hposition⟩ | ⟨rfl, hnested⟩
  · have hsome : error.position? ≠ none := by simp [hposition]
    refine ⟨.inl ⟨t, ht, hposition⟩, ⟨fun hnone => absurd hnone hsome, fun hnested => ?_⟩,
      fun hnone => absurd hnone hsome⟩
    have herror : error = .notSingle 0 :=
      Except.error.inj (h.symm.trans (parseTokens_of_isNested hnested))
    rw [herror]
    rfl
  · exact ⟨.inr rfl, iff_of_true rfl hnested, fun _ => rfl⟩

/-- `(x))(`, where the second closing parenthesis has no partner. -/
def crossedParentheses : List Token :=
  [⟨.openParen, "(", 0⟩, ⟨.letter, "x", 1⟩, ⟨.closeParen, ")", 2⟩, ⟨.closeParen, ")", 3⟩,
    ⟨.openParen, "(", 4⟩]

theorem parse_error_of_crossedParentheses :
    parseTokens .standard crossedParentheses = .error (.unmatchedClose 3) ∧
      ¬Paired crossedParentheses ∧ ∃ t, some 3 = some t.position ∧
        (IsFirstUnopened crossedParentheses t ∨
          ClosesPaired crossedParentheses ∧ IsLastUnclosed crossedParentheses t) := by
  have herror : parseTokens .standard crossedParentheses = .error (.unmatchedClose 3) := rfl
  exact ⟨herror, (parse_error_points_at_culprit herror).1 rfl⟩

/-- A function without a name in front of a variable. -/
def namelessCall : List Token := [⟨.function, "", 0⟩, ⟨.letter, "x", 3⟩]

/-- The call of a function without a name is no expression, and its error has no position. -/
theorem namelessCall_not_located :
    parseTokens .standard namelessCall = .error .unnamedCall ∧
      ParseError.unnamedCall.isUnbalanced = false ∧ ¬ParseError.unnamedCall.IsMalformed ∧
      ParseError.unnamedCall.position? = none ∧ ¬IsNested namelessCall := by
  have herror : parseTokens .standard namelessCall = .error .unnamedCall := rfl
  refine ⟨herror, rfl, fun hmalformed => Bool.false_ne_true hmalformed.1, rfl, fun hnested => ?_⟩
  rw [parseTokens_of_isNested hnested] at herror
  cases herror

end Locus
