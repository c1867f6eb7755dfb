import Mathlib.Data.List.Count
import Locus.Proofs.Parse.Placement
import Locus.Proofs.Parse.Reduction

/-! Counting operands against operators. An operator that waits will take one operand more than it
gives back, so the balance of a state says how many expressions it comes to, and no token makes that
number larger. A token out of place makes it smaller, and what is lost is never won back: the tokens
of a successful run are well placed (`wellPlaced_of_parseTokens`). -/

namespace Locus
set_option autoImplicit false

open Locus.Operator

/-! ## What waits -/

namespace Pending

def isOperator : Pending → Bool
  | operator _ _ _ => true
  | _ => false

def isGroup : Pending → Bool
  | group _ => true
  | _ => false

/-- A call has a name. -/
def IsNamed : Pending → Prop
  | call name _ _ => name ≠ ""
  | _ => True

end Pending

/-- How many expressions there will be once all that waits has been reduced. -/
def balance (pending : List Pending) (operands : List Expr) : Int :=
  operands.length - pending.countP Pending.isOperator

def groupDepth (pending : List Pending) : Nat := pending.countP Pending.isGroup

def AllNamed (pending : List Pending) : Prop := ∀ top ∈ pending, top.IsNamed

theorem balance_operator (op : Operator) (precedence position : Int) (pending : List Pending)
    (operands : List Expr) :
    balance (.operator op precedence position :: pending) operands
      = balance pending operands - 1 := by
  rw [balance, balance, List.countP_cons_of_pos rfl]
  push_cast
  ring

theorem balance_operand (e : Expr) (pending : List Pending) (operands : List Expr) :
    balance pending (e :: operands) = balance pending operands + 1 := by
  rw [balance, balance, List.length_cons]
  push_cast
  ring

/-- Reducing one thing that waits, other than a group, keeps the balance. -/
theorem reduce_keeps {top : Pending} {p : Int} (hp : top.precedence? = some p)
    {operands reduced : List Expr} (h : reduce top operands = .ok reduced) (below : List Pending) :
    balance (top :: below) operands = balance below reduced ∧
      groupDepth (top :: below) = groupDepth below ∧ top.IsNamed := by
  cases top with
  | group position => cases hp
  | operator op precedence position =>
    refine ⟨?_, List.countP_cons_of_neg Bool.false_ne_true, trivial⟩
    match operands with
    | [] => cases h
    | [e] => cases h
    | right :: left :: rest =>
      cases h
      rw [balance_operator, balance_operand, balance_operand, balance_operand, Int.add_sub_cancel]
  | call name precedence position =>
    cases operands with
    | nil => cases h
    | cons argument rest =>
      rw [reduce] at h
      split_ifs at h with hempty
      cases h
      refine ⟨?_, List.countP_cons_of_neg Bool.false_ne_true, ?_⟩
      · rw [balance, balance, List.countP_cons_of_neg Bool.false_ne_true]
        rfl
      · simpa [Pending.IsNamed] using hempty

/-- What reducing keeps, apart from a group that it removes: the balance, the open parentheses, and
that there was no nameless call unless one is left. -/
structure Keeps (removed : Nat) (pending : List Pending) (operands : List Expr)
    (pending' : List Pending) (operands' : List Expr) : Prop where
  balance : balance pending operands = balance pending' operands'
  depth : groupDepth pending = groupDepth pending' + removed
  named : AllNamed pending' → AllNamed pending

theorem Keeps.refl (pending : List Pending) (operands : List Expr) :
    Keeps 0 pending operands pending operands := ⟨rfl, rfl, id⟩

theorem Keeps.ofGroup (position : Int) (below : List Pending) (operands : List Expr) :
    Keeps 1 (.group position :: below) operands below operands := by
  refine ⟨?_, List.countP_cons_of_pos rfl, fun h t ht => ?_⟩
  · rw [Locus.balance, Locus.balance, List.countP_cons_of_neg Bool.false_ne_true]
  · rcases List.mem_cons.mp ht with rfl | ht
    · trivial
    · exact h t ht

theorem Keeps.cons {removed : Nat} {top : Pending} {p : Int} (hp : top.precedence? = some p)
    {below pending' : List Pending} {operands reduced operands' : List Expr}
    (h : reduce top operands = .ok reduced) (hkeeps : Keeps removed below reduced pending' operands') :
    Keeps removed (top :: below) operands pending' operands' := by
  obtain ⟨hbalance, hdepth, hnamed⟩ := reduce_keeps hp h below
  refine ⟨hbalance.trans hkeeps.balance, hdepth.trans hkeeps.depth, fun h t ht => ?_⟩
  rcases List.mem_cons.mp ht with rfl | ht
  · exact hnamed
  · exact hkeeps.named h t ht

theorem Keeps.trans {m n : Nat} {pending pending' pending'' : List Pending}
    {operands operands' operands'' : List Expr} (h : Keeps m pending operands pending' operands')
    (h' : Keeps n pending' operands' pending'' operands'') :
    Keeps (n + m) pending operands pending'' operands'' := by
  refine ⟨h.balance.trans h'.balance, ?_, h.named ∘ h'.named⟩
  rw [h.depth, h'.depth, Nat.add_assoc]

section

variable {pending pending' : List Pending} {operands operands' : List Expr}

theorem Reduces.keeps (h : Reduces pending operands pending' operands') :
    Keeps 0 pending operands pending' operands' := by
  induction h with
  | refl pending operands => exact .refl pending operands
  | step hp hreduce _ ih => exact .cons hp hreduce ih

theorem reduceTighter_keeps {incoming : Int}
    (h : reduceTighter incoming pending operands = .ok (pending', operands')) :
    Keeps 0 pending operands pending' operands' := (reduces_of_reduceTighter h).keeps

theorem reduceGroup_keeps {position : Int}
    (h : reduceGroup position pending operands = .ok (pending', operands')) :
    Keeps 1 pending operands pending' operands' := by
  obtain ⟨start, hreduces⟩ := reduces_of_reduceGroup h
  exact hreduces.keeps.trans (.ofGroup start pending' operands')

theorem reduceAll_keeps (h : reduceAll pending operands = .ok operands') :
    Keeps 0 pending operands [] operands' := (reduces_of_reduceAll h).keeps

end

/-! ## Operators and groups -/

theorem pushOperator_keeps {table : OperatorTable} {op : Operator} {position : Int}
    {s s' : ParseState} (h : pushOperator table op position s = .ok s') :
    s'.previous = s.previous ∧
      balance s'.pending s'.operands = balance s.pending s.operands - 1 ∧
      groupDepth s'.pending = groupDepth s.pending ∧ (AllNamed s'.pending → AllNamed s.pending) := by
  rw [pushOperator] at h
  split at h
  · cases h
  · obtain ⟨⟨pending, operands⟩, hreduce, hs⟩ := bind_eq_ok.mp h
    cases hs
    have hkeeps := reduceTighter_keeps hreduce
    refine ⟨rfl, ?_, ?_, fun hnamed => hkeeps.named fun t ht => hnamed t (List.mem_cons_of_mem _ ht)⟩
    · rw [balance_operator, hkeeps.balance]
    · rw [hkeeps.depth]
      exact List.countP_cons_of_neg Bool.false_ne_true

theorem closeGroup_keeps {position : Int} {s s' : ParseState} (h : closeGroup position s = .ok s') :
    Keeps 1 s.pending s.operands s'.pending s'.operands := by
  rw [closeGroup] at h
  obtain ⟨⟨pending, operands⟩, hreduce, hs⟩ := bind_eq_ok.mp h
  have hkeeps := reduceGroup_keeps hreduce
  dsimp only at hs
  split at hs
  · next name precedence p below =>
    obtain ⟨reduced, hcall, hs⟩ := bind_eq_ok.mp hs
    cases hs
    exact hkeeps.trans (.cons rfl hcall (.refl below reduced))
  · cases hs
    exact hkeeps

/-! ## Tokens -/

/-- How many expressions a state comes to if what is due comes. -/
def ParseState.prospect (s : ParseState) : Int :=
  balance s.pending s.operands + if operandDue s.previous then 1 else 0

/-- Parsing reads a token at all. -/
structure Token.IsRead (t : Token) : Prop where
  known : t.kind ≠ .unknown
  number : t.kind = .number → (Literal.ofText? t.text.toList).isSome
  named : t.kind = .letter ∨ t.kind = .constant ∨ t.kind = .function → t.text ≠ ""

theorem Token.isRead_of_sign {t : Token}
    (h : t.kind = .closeParen ∨ ∃ op, t.kind = .operator op) : t.IsRead := by
  rcases h with h | ⟨op, h⟩ <;> constructor <;> rw [h] <;> simp

theorem ParseState.prospect_of_due {s : ParseState} (h : operandDue s.previous) :
    s.prospect = balance s.pending s.operands + 1 := by
  rw [prospect, if_pos h]

theorem ParseState.prospect_of_not_due {s : ParseState} (h : operandDue s.previous = false) :
    s.prospect = balance s.pending s.operands := by
  rw [prospect, h, if_neg Bool.false_ne_true, add_zero]

theorem ParseState.balance_le_prospect (s : ParseState) :
    balance s.pending s.operands ≤ s.prospect := by
  rw [prospect]
  split_ifs <;> omega

theorem ParseState.one_le_prospect {s : ParseState} (h : 1 ≤ balance s.pending s.operands) :
    1 ≤ s.prospect := by
  exact h.trans s.balance_le_prospect

/-- A state with an expression at hand that comes to just one does not wait for another. -/
theorem ParseState.not_due_of_prospect {s : ParseState} (h : 1 ≤ balance s.pending s.operands)
    (hone : s.prospect = 1) :
    operandDue s.previous = false ∧ balance s.pending s.operands = 1 := by
  cases hdue : operandDue s.previous with
  | false => exact ⟨rfl, (prospect_of_not_due hdue).symm.trans hone⟩
  | true =>
    rw [prospect_of_due hdue] at hone
    omega

/-- What holds of a state from which the tokens to come lead to a single expression. Where the state
comes to just one, no token to come is out of place. -/
structure Prospers (s : ParseState) (tokens : List Token) : Prop where
  prospect : 1 ≤ s.prospect
  placed : s.prospect = 1 → WellPlaced (operandDue s.previous) (groupDepth s.pending) tokens
  named : AllNamed s.pending
  read : ∀ t ∈ tokens, t.IsRead

theorem juxtapose_keeps {table : OperatorTable} {t : Token} {s s' : ParseState}
    (h : juxtapose table t s = .ok s') (ht : t.kind.startsOperand) :
    balance s'.pending s'.operands + 1 = s.prospect ∧ s'.previous = s.previous ∧
      groupDepth s'.pending = groupDepth s.pending ∧ (AllNamed s'.pending → AllNamed s.pending) := by
  rw [juxtapose, ht, Bool.true_and] at h
  rw [ParseState.prospect, operandDue]
  split_ifs at h with hends
  · obtain ⟨hprevious, hbalance, hdepth, hnamed⟩ := pushOperator_keeps h
    refine ⟨?_, hprevious, hdepth, hnamed⟩
    rw [hbalance, hends]
    simp
  · cases h
    refine ⟨?_, rfl, rfl, id⟩
    rw [Bool.not_eq_true] at hends
    rw [hends]
    rfl

section

variable {table : OperatorTable} {t : Token} {rest : List Token} {s s₀ s₁ s' : ParseState}

/-- A token that starts an operand brings one expression, at once or once it has its operand. -/
theorem Takes.prospect_eq (h : Takes table t rest s₀ s₁) (hstarts : t.kind.startsOperand) :
    ({ s₁ with previous := some t.kind } : ParseState).prospect
      = balance s₀.pending s₀.operands + 1 := by
  cases h with
  | number hk _ =>
    rw [hk]
    exact (ParseState.prospect_of_not_due rfl).trans (balance_operand _ _ _)
  | name hk _ =>
    rcases hk with hk | hk <;>
    · rw [hk]
      exact (ParseState.prospect_of_not_due rfl).trans (balance_operand _ _ _)
  | call hk | opening hk =>
    rw [hk, ParseState.prospect_of_due rfl, balance, List.countP_cons_of_neg Bool.false_ne_true]
    rfl
  | closing hk _ | sign hk _ _ | negation hk _ | operator hk _ =>
    rw [hk] at hstarts
    cases hstarts

/-- No token raises the number of expressions that a state comes to. -/
theorem advance_prospect_le (h : advance table s t rest = .ok s') : s'.prospect ≤ s.prospect := by
  obtain ⟨s₀, s₁, hjuxtapose, htakes, rfl⟩ := advance_inv h
  by_cases hstarts : t.kind.startsOperand
  · rw [htakes.prospect_eq hstarts, (juxtapose_keeps hjuxtapose hstarts).1]
  · obtain rfl := juxtapose_inv hjuxtapose (by simpa using hstarts)
    cases htakes with
    | number hk _ | call hk | opening hk => exact absurd (by rw [hk]; rfl) hstarts
    | name hk _ => exact absurd (TokenKind.startsOperand_of_name hk) hstarts
    | closing hk hclose =>
      rw [hk, ParseState.prospect_of_not_due rfl, ← (closeGroup_keeps hclose).balance]
      exact s₀.balance_le_prospect
    | sign hk hdue _ =>
      rw [hk, ParseState.prospect_of_due rfl, ParseState.prospect_of_due hdue]
    | negation hk hdue =>
      rw [hk, ParseState.prospect_of_due rfl, ParseState.prospect_of_due hdue, balance_operator,
        balance_operand, Int.add_sub_cancel]
    | operator hk hpush =>
      rw [hk, ParseState.prospect_of_due rfl, (pushOperator_keeps hpush).2.1, Int.sub_add_cancel]
      exact s₀.balance_le_prospect

theorem Prospers.read_cons (h : Prospers s' rest) (ht : t.IsRead) : ∀ u ∈ t :: rest, u.IsRead := by
  intro u hu
  rcases List.mem_cons.mp hu with rfl | hu
  · exact ht
  · exact h.read u hu

/-- A token that starts an operand is never out of place: where none is due it implies a product. -/
theorem Prospers.ofStart (h : Prospers s' rest) (hjuxtapose : juxtapose table t s = .ok s₀)
    (hstarts : t.kind.startsOperand) (hread : t.IsRead)
    (hprospect : s'.prospect = balance s₀.pending s₀.operands + 1)
    (hnamed : AllNamed s'.pending → AllNamed s₀.pending)
    (hplaced : ∀ due, WellPlaced (operandDue s'.previous) (groupDepth s'.pending) rest →
      WellPlaced due (groupDepth s₀.pending) (t :: rest)) : Prospers s (t :: rest) := by
  obtain ⟨hbalance, -, hdepth, hbelow⟩ := juxtapose_keeps hjuxtapose hstarts
  rw [hbalance] at hprospect
  refine ⟨hprospect ▸ h.prospect, fun hone => ?_, hbelow (hnamed h.named), h.read_cons hread⟩
  rw [← hdepth]
  exact hplaced _ (h.placed (hprospect.trans hone))

theorem Prospers.ofClose (h : Prospers s' rest) (ht : t.kind = .closeParen)
    (hkeeps : Keeps 1 s.pending s.operands s'.pending s'.operands)
    (hprevious : s'.previous = some .closeParen) : Prospers s (t :: rest) := by
  have hread : t.IsRead := Token.isRead_of_sign (by simp [ht])
  have hprospect : s'.prospect = balance s.pending s.operands := by
    rw [ParseState.prospect_of_not_due (by rw [hprevious]; rfl), hkeeps.balance]
  have hbalance : 1 ≤ balance s.pending s.operands := hprospect ▸ h.prospect
  refine ⟨s.one_le_prospect hbalance, fun hone => ?_, hkeeps.named h.named, h.read_cons hread⟩
  obtain ⟨hdue, hself⟩ := s.not_due_of_prospect hbalance hone
  have hplaced := h.placed (hprospect.trans hself)
  rw [hprevious] at hplaced
  rw [WellPlaced, ht, hdue]
  exact ⟨rfl, _, hkeeps.depth, hplaced⟩

/-- A minus where an operand is due leaves an operand due. -/
theorem Prospers.ofMinus (h : Prospers s' rest) (ht : t.kind = .operator minus)
    (hdue : operandDue s.previous) (hprevious : s'.previous = some (.operator minus))
    (hbalance : balance s'.pending s'.operands = balance s.pending s.operands)
    (hdepth : groupDepth s'.pending = groupDepth s.pending)
    (hnamed : AllNamed s'.pending → AllNamed s.pending) : Prospers s (t :: rest) := by
  have hread : t.IsRead := Token.isRead_of_sign (by simp [ht])
  have hprospect : s'.prospect = s.prospect := by
    rw [ParseState.prospect_of_due (by rw [hprevious]; rfl), ParseState.prospect_of_due hdue,
      hbalance]
  refine ⟨hprospect ▸ h.prospect, fun hs => ?_, hnamed h.named, h.read_cons hread⟩
  have hplaced := h.placed (hprospect.trans hs)
  rw [hprevious, hdepth] at hplaced
  rw [WellPlaced, ht]
  exact ⟨fun _ => rfl, hplaced⟩

/-- An operator takes what its operand gives. Where an operand is due it costs one. -/
theorem Prospers.ofOperator (h : Prospers s' rest) {op : Operator} (ht : t.kind = .operator op)
    (hprevious : s'.previous = some (.operator op))
    (hbalance : balance s'.pending s'.operands = balance s.pending s.operands - 1)
    (hdepth : groupDepth s'.pending = groupDepth s.pending)
    (hnamed : AllNamed s'.pending → AllNamed s.pending) : Prospers s (t :: rest) := by
  have hread : t.IsRead := Token.isRead_of_sign (by simp [ht])
  have hprospect : s'.prospect = balance s.pending s.operands := by
    rw [ParseState.prospect_of_due (by rw [hprevious]; rfl), hbalance, Int.sub_add_cancel]
  have hbalance' : 1 ≤ balance s.pending s.operands := hprospect ▸ h.prospect
  refine ⟨s.one_le_prospect hbalance', fun hone => ?_, hnamed h.named, h.read_cons hread⟩
  obtain ⟨hdue, hself⟩ := s.not_due_of_prospect hbalance' hone
  have hplaced := h.placed (hprospect.trans hself)
  rw [hprevious, hdepth] at hplaced
  rw [WellPlaced, ht, hdue]
  exact ⟨fun h => absurd h Bool.false_ne_true, hplaced⟩

/-- What holds of the state after a token held before it. -/
theorem advance_prospers (hadvance : advance table s t rest = .ok s') (h : Prospers s' rest) :
    Prospers s (t :: rest) := by
  obtain ⟨s₀, s₁, hjuxtapose, htakes, rfl⟩ := advance_inv hadvance
  have hprospect := htakes.prospect_eq
  cases htakes with
  | number hk hv =>
    have hstarts : t.kind.startsOperand := by rw [hk]; rfl
    refine h.ofStart hjuxtapose hstarts ⟨by simp [hk], fun _ => by simp [hv], by simp [hk]⟩
      (hprospect hstarts) id fun due hplaced => ?_
    rw [WellPlaced, hk]
    rwa [hk] at hplaced
  | name hk hname =>
    have hstarts := TokenKind.startsOperand_of_name hk
    have hread : t.IsRead := by
      rcases hk with hk | hk <;> exact ⟨by simp [hk], by simp [hk], fun _ => hname⟩
    refine h.ofStart hjuxtapose hstarts hread (hprospect hstarts) id fun due hplaced => ?_
    rcases hk with hk | hk <;>
    · rw [WellPlaced, hk]
      rwa [hk] at hplaced
  | call hk =>
    have hstarts : t.kind.startsOperand := by rw [hk]; rfl
    have hname : t.text ≠ "" := h.named _ List.mem_cons_self
    refine h.ofStart hjuxtapose hstarts ⟨by simp [hk], by simp [hk], fun _ => hname⟩
      (hprospect hstarts) (fun hnamed u hu => hnamed u (List.mem_cons_of_mem _ hu))
      fun due hplaced => ?_
    rw [WellPlaced, hk]
    rwa [hk, groupDepth, List.countP_cons_of_neg Bool.false_ne_true] at hplaced
  | opening hk =>
    have hstarts : t.kind.startsOperand := by rw [hk]; rfl
    refine h.ofStart hjuxtapose hstarts ⟨by simp [hk], by simp [hk], by simp [hk]⟩
      (hprospect hstarts) (fun hnamed u hu => hnamed u (List.mem_cons_of_mem _ hu))
      fun due hplaced => ?_
    rw [WellPlaced, hk]
    rwa [hk, (Keeps.ofGroup t.position s₀.pending s₀.operands).depth] at hplaced
  | closing hk hclose =>
    obtain rfl := juxtapose_inv hjuxtapose (by rw [hk]; rfl)
    have hkeeps := closeGroup_keeps hclose
    exact h.ofClose hk hkeeps (congrArg some hk)
  | sign hk hdue _ =>
    obtain rfl := juxtapose_inv hjuxtapose (by rw [hk]; rfl)
    exact h.ofMinus hk hdue (congrArg some hk) rfl rfl id
  | negation hk hdue =>
    obtain rfl := juxtapose_inv hjuxtapose (by rw [hk]; rfl)
    refine h.ofMinus hk hdue (congrArg some hk) ?_ (List.countP_cons_of_neg Bool.false_ne_true)
      fun hnamed u hu => hnamed u (List.mem_cons_of_mem _ hu)
    rw [balance_operator, balance_operand, Int.add_sub_cancel]
  | operator hk hpush =>
    obtain rfl := juxtapose_inv hjuxtapose (by rw [hk]; rfl)
    obtain ⟨-, hbalance, hdepth, hnamed⟩ := pushOperator_keeps hpush
    exact h.ofOperator hk (congrArg some hk) hbalance hdepth hnamed

theorem finish_prospers {e : Expr} (h : finish s = .ok e) : Prospers s [] := by
  rw [finish] at h
  obtain ⟨operands, hreduce, h⟩ := bind_eq_ok.mp h
  have hkeeps := reduceAll_keeps hreduce
  have hlength : operands.length = 1 := by
    split at h
    · rfl
    · cases h
  have hbalance : balance s.pending s.operands = 1 := by
    rw [hkeeps.balance, balance, hlength]
    rfl
  refine ⟨s.one_le_prospect hbalance.ge, fun hone => ?_, hkeeps.named fun _ ht => (nomatch ht),
    fun _ ht => (nomatch ht)⟩
  exact ⟨by simp [(s.not_due_of_prospect hbalance.ge hone).1], hkeeps.depth⟩

theorem advanceAll_prospers {tokens : List Token} {e : Expr}
    (hrun : advanceAll table s tokens = .ok s') (hfinish : finish s' = .ok e) :
    Prospers s tokens := by
  induction tokens generalizing s with
  | nil =>
    cases hrun
    exact finish_prospers hfinish
  | cons t rest ih =>
    rw [advanceAll] at hrun
    obtain ⟨next, hadvance, hrun⟩ := bind_eq_ok.mp hrun
    exact advance_prospers hadvance (ih hrun)

end

/-- Tokens that are parsed are well placed, and each of them is read. -/
theorem wellPlaced_of_parseTokens {table : OperatorTable} {tokens : List Token} {e : Expr}
    (h : parseTokens table tokens = .ok e) :
    WellPlaced true 0 tokens ∧ ∀ t ∈ tokens, t.IsRead := by
  rw [parseTokens] at h
  obtain ⟨s, hrun, hfinish⟩ := bind_eq_ok.mp h
  have hprospers := advanceAll_prospers hrun hfinish
  exact ⟨hprospers.placed rfl, hprospers.read⟩

end Locus
