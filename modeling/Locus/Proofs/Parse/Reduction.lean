import Mathlib.Algebra.Order.Group.Int
import Locus.Proofs.Outcome
import Locus.Parse.Basic

/-! Reducing what waits. Operators and calls carry a strength and are reduced one after the other
down to something that binds less tightly, down to a group, or altogether. What taking a token in does
besides is a matter of its kind (`Takes`). -/

namespace Locus
set_option autoImplicit false

open Locus.Operator

/-! ## The standard table -/

/-- The strength with which an operator that comes in is measured. -/
def Operator.incoming : Operator → Int
  | power => 6
  | op => op.precedence

theorem find?_standard (op : Operator) :
    ∃ entry, OperatorTable.standard.find? op.symbol = some entry
      ∧ entry.precedence = op.precedence ∧ entry.incoming = op.incoming := by
  cases op <;> exact ⟨_, rfl, rfl, rfl⟩

/-! ## Strengths -/

def Pending.precedence? : Pending → Option Int
  | .operator _ precedence _ | .call _ precedence _ => some precedence
  | .group _ => none

/-- All that waits binds at least this tightly. Nothing of it is a group. -/
def BindAt (level : Int) (pending : List Pending) : Prop :=
  ∀ top ∈ pending, ∃ p ∈ top.precedence?, level ≤ p

/-- What comes in with this strength is not measured against what waits, or binds tighter. -/
def YieldTo (level : Int) (pending : List Pending) : Prop :=
  ∀ top ∈ pending.head?, ∀ p ∈ top.precedence?, p < level

theorem BindAt.mono {a b : Int} {pending : List Pending} (h : BindAt b pending) (hab : a ≤ b) :
    BindAt a pending := by
  intro top htop
  obtain ⟨p, hp, hle⟩ := h top htop
  exact ⟨p, hp, hab.trans hle⟩

theorem YieldTo.mono {a b : Int} {pending : List Pending} (h : YieldTo a pending) (hab : a ≤ b) :
    YieldTo b pending :=
  fun top htop p hp => (h top htop p hp).trans_le hab

theorem bindAt_nil (level : Int) : BindAt level [] := fun _ htop => nomatch htop

theorem BindAt.concat {level : Int} {pending : List Pending} {last : Pending}
    (h : BindAt level pending) {p : Int} (hp : last.precedence? = some p) (hle : level ≤ p) :
    BindAt level (pending ++ [last]) := by
  intro top htop
  rcases List.mem_append.mp htop with htop | htop
  · exact h top htop
  · exact ⟨p, List.mem_singleton.mp htop ▸ hp, hle⟩

theorem yieldTo_cons {level p : Int} {top : Pending} {below : List Pending}
    (hp : top.precedence? = some p) (hlt : p < level) : YieldTo level (top :: below) := by
  intro t ht q hq
  rw [List.head?_cons, Option.mem_some_iff] at ht
  rw [← ht, hp, Option.mem_some_iff] at hq
  exact hq ▸ hlt

theorem yieldTo_group (level position : Int) (below : List Pending) :
    YieldTo level (.group position :: below) := by
  intro t ht q hq
  rw [List.head?_cons, Option.mem_some_iff] at ht
  rw [← ht] at hq
  cases hq

theorem eq_group_of_precedence? {top : Pending} (h : top.precedence? = none) :
    ∃ position, top = .group position := by
  cases top with
  | group position => exact ⟨position, rfl⟩
  | operator op precedence position => cases h
  | call name precedence position => cases h

/-! ## One reduction at a time -/

section

variable {top : Pending} {p : Int} {below : List Pending} {operands : List Expr}

theorem reduceAll_cons (hp : top.precedence? = some p) :
    reduceAll (top :: below) operands = reduce top operands >>= reduceAll below := by
  cases top with
  | group position => cases hp
  | operator op precedence position => rfl
  | call name precedence position => rfl

theorem reduceGroup_cons (hp : top.precedence? = some p) (position : Int) :
    reduceGroup position (top :: below) operands
      = reduce top operands >>= reduceGroup position below := by
  cases top with
  | group position => cases hp
  | operator op precedence position => rfl
  | call name precedence position => rfl

theorem reduceTighter_cons (hp : top.precedence? = some p) (incoming : Int) :
    reduceTighter incoming (top :: below) operands
      = if incoming ≤ p then reduce top operands >>= reduceTighter incoming below
        else .ok (top :: below, operands) := by
  cases top with
  | group position => cases hp
  | operator op precedence position =>
    cases hp
    rfl
  | call name precedence position =>
    cases hp
    rfl

end

/-! ## Successful reductions -/

/-- What waits on top has been reduced, one thing after the other. -/
inductive Reduces : List Pending → List Expr → List Pending → List Expr → Prop
  | refl (pending : List Pending) (operands : List Expr) : Reduces pending operands pending operands
  | step {top : Pending} {p : Int} {below pending' : List Pending}
      {operands reduced operands' : List Expr} (hp : top.precedence? = some p)
      (hreduce : reduce top operands = .ok reduced) :
      Reduces below reduced pending' operands' → Reduces (top :: below) operands pending' operands'

section

variable {pending pending' : List Pending} {operands operands' : List Expr}

theorem reduces_of_reduceTighter {incoming : Int}
    (h : reduceTighter incoming pending operands = .ok (pending', operands')) :
    Reduces pending operands pending' operands' := by
  induction pending generalizing operands with
  | nil =>
    cases h
    exact .refl _ _
  | cons top below ih =>
    cases hp : top.precedence? with
    | none =>
      obtain ⟨position, rfl⟩ := eq_group_of_precedence? hp
      cases h
      exact .refl _ _
    | some p =>
      rw [reduceTighter_cons hp] at h
      split_ifs at h
      · obtain ⟨reduced, hreduce, hrest⟩ := bind_eq_ok.mp h
        exact .step hp hreduce (ih hrest)
      · cases h
        exact .refl _ _

theorem reduces_of_reduceGroup {position : Int}
    (h : reduceGroup position pending operands = .ok (pending', operands')) :
    ∃ start, Reduces pending operands (.group start :: pending') operands' := by
  induction pending generalizing operands with
  | nil => cases h
  | cons top below ih =>
    cases hp : top.precedence? with
    | none =>
      obtain ⟨start, rfl⟩ := eq_group_of_precedence? hp
      cases h
      exact ⟨start, .refl _ _⟩
    | some p =>
      rw [reduceGroup_cons hp] at h
      obtain ⟨reduced, hreduce, hrest⟩ := bind_eq_ok.mp h
      obtain ⟨start, hreduces⟩ := ih hrest
      exact ⟨start, .step hp hreduce hreduces⟩

theorem reduces_of_reduceAll (h : reduceAll pending operands = .ok operands') :
    Reduces pending operands [] operands' := by
  induction pending generalizing operands with
  | nil =>
    cases h
    exact .refl _ _
  | cons top below ih =>
    cases hp : top.precedence? with
    | none =>
      obtain ⟨position, rfl⟩ := eq_group_of_precedence? hp
      cases h
    | some p =>
      rw [reduceAll_cons hp] at h
      obtain ⟨reduced, hreduce, hrest⟩ := bind_eq_ok.mp h
      exact .step hp hreduce (ih hrest)

end

/-! ## Invariants -/

section

variable {blame : ParseError → Prop} {I : List Pending → List Expr → Prop}
  {pending : List Pending} {operands : List Expr}

/-- What each single reduction keeps, or else blames on something, a run of reductions keeps. -/
theorem reduceTighter_endsWith (hreduce : ∀ top p below operands, top.precedence? = some p →
      I (top :: below) operands → EndsWith blame (I below) (reduce top operands))
    (h : I pending operands) (incoming : Int) :
    EndsWith blame (fun r => I r.1 r.2) (reduceTighter incoming pending operands) := by
  induction pending generalizing operands with
  | nil => exact h
  | cons top below ih =>
    cases hp : top.precedence? with
    | none =>
      obtain ⟨position, rfl⟩ := eq_group_of_precedence? hp
      exact h
    | some p =>
      rw [reduceTighter_cons hp]
      split_ifs
      · exact (hreduce top p below operands hp h).bind fun _ hbelow => ih hbelow
      · exact h

theorem reduceGroup_endsWith (hreduce : ∀ top p below operands, top.precedence? = some p →
      I (top :: below) operands → EndsWith blame (I below) (reduce top operands))
    (h : I pending operands) {position : Int}
    (hnone : ∀ operands, I [] operands → blame (.unmatchedClose position)) :
    EndsWith blame (fun r => ∃ start, I (.group start :: r.1) r.2)
      (reduceGroup position pending operands) := by
  induction pending generalizing operands with
  | nil => exact hnone operands h
  | cons top below ih =>
    cases hp : top.precedence? with
    | none =>
      obtain ⟨start, rfl⟩ := eq_group_of_precedence? hp
      exact ⟨start, h⟩
    | some p =>
      rw [reduceGroup_cons hp]
      exact (hreduce top p below operands hp h).bind fun _ hbelow => ih hbelow

theorem reduceAll_endsWith (hreduce : ∀ top p below operands, top.precedence? = some p →
      I (top :: below) operands → EndsWith blame (I below) (reduce top operands))
    (h : I pending operands)
    (hopen : ∀ start below operands, I (.group start :: below) operands →
      blame (.unmatchedOpen start)) :
    EndsWith blame (I []) (reduceAll pending operands) := by
  induction pending generalizing operands with
  | nil => exact h
  | cons top below ih =>
    cases hp : top.precedence? with
    | none =>
      obtain ⟨start, rfl⟩ := eq_group_of_precedence? hp
      exact hopen start below operands h
    | some p =>
      rw [reduceAll_cons hp]
      exact (hreduce top p below operands hp h).bind fun _ hbelow => ih hbelow

end

/-! ## Reducing what is above -/

section

variable {level : Int} {above : List Pending} {operands reduced : List Expr}

theorem reduceAll_append (h : BindAt level above)
    (hreduce : reduceAll above operands = .ok reduced) (below : List Pending) :
    reduceAll (above ++ below) operands = reduceAll below reduced := by
  induction above generalizing operands with
  | nil =>
    cases hreduce
    rfl
  | cons top above ih =>
    obtain ⟨p, hp, -⟩ := h top List.mem_cons_self
    rw [reduceAll_cons hp] at hreduce
    obtain ⟨next, hnext, hrest⟩ := bind_eq_ok.mp hreduce
    rw [List.cons_append, reduceAll_cons hp, hnext, ok_bind]
    exact ih (fun t ht => h t (List.mem_cons_of_mem top ht)) hrest

theorem reduceTighter_append {incoming : Int} (h : BindAt level above)
    (hincoming : incoming ≤ level) (hreduce : reduceAll above operands = .ok reduced)
    (below : List Pending) :
    reduceTighter incoming (above ++ below) operands = reduceTighter incoming below reduced := by
  induction above generalizing operands with
  | nil =>
    cases hreduce
    rfl
  | cons top above ih =>
    obtain ⟨p, hp, hle⟩ := h top List.mem_cons_self
    rw [reduceAll_cons hp] at hreduce
    obtain ⟨next, hnext, hrest⟩ := bind_eq_ok.mp hreduce
    rw [List.cons_append, reduceTighter_cons hp, if_pos (hincoming.trans hle), hnext, ok_bind]
    exact ih (fun t ht => h t (List.mem_cons_of_mem top ht)) hrest

theorem reduceGroup_append (h : BindAt level above)
    (hreduce : reduceAll above operands = .ok reduced) (position start : Int)
    (below : List Pending) :
    reduceGroup position (above ++ .group start :: below) operands = .ok (below, reduced) := by
  induction above generalizing operands with
  | nil =>
    cases hreduce
    rfl
  | cons top above ih =>
    obtain ⟨p, hp, -⟩ := h top List.mem_cons_self
    rw [reduceAll_cons hp] at hreduce
    obtain ⟨next, hnext, hrest⟩ := bind_eq_ok.mp hreduce
    rw [List.cons_append, reduceGroup_cons hp, hnext, ok_bind]
    exact ih (fun t ht => h t (List.mem_cons_of_mem top ht)) hrest

end

theorem reduceTighter_of_yieldTo {incoming : Int} {pending : List Pending}
    (h : YieldTo incoming pending) (operands : List Expr) :
    reduceTighter incoming pending operands = .ok (pending, operands) := by
  cases pending with
  | nil => rfl
  | cons top below =>
    cases hp : top.precedence? with
    | some p => rw [reduceTighter_cons hp, if_neg (not_le.mpr (h top rfl p hp))]
    | none =>
      obtain ⟨position, rfl⟩ := eq_group_of_precedence? hp
      rfl

/-! ## Implied products -/

theorem juxtapose_of_not {table : OperatorTable} {token : Token} {s : ParseState}
    (h : ¬(token.kind.startsOperand ∧ ¬operandDue s.previous)) :
    juxtapose table token s = .ok s := by
  rw [juxtapose, if_neg (by simpa [operandDue] using h)]

/-! ## Taking tokens in -/

theorem TokenKind.startsOperand_of_name {kind : TokenKind} (h : kind = .letter ∨ kind = .constant) :
    kind.startsOperand := by
  rcases h with rfl | rfl <;> rfl

/-- What becomes of a state when a token is taken in, by the kind of the token. -/
inductive Takes (table : OperatorTable) (t : Token) (rest : List Token) (s : ParseState) :
    ParseState → Prop
  | number {v : Literal} (hk : t.kind = .number) (hv : Literal.ofText? t.text.toList = some v) :
      Takes table t rest s { s with
        operands := .number (if s.negated then v.neg else v) :: s.operands, negated := false }
  | name (hk : t.kind = .letter ∨ t.kind = .constant) (hname : t.text ≠ "") :
      Takes table t rest s { s with operands := .var t.text :: s.operands }
  | call (hk : t.kind = .function) :
      Takes table t rest s
        { s with pending := .call t.text table.callPrecedence t.position :: s.pending }
  | opening (hk : t.kind = .openParen) :
      Takes table t rest s { s with pending := .group t.position :: s.pending }
  | closing {s' : ParseState} (hk : t.kind = .closeParen)
      (hclose : closeGroup t.position s = .ok s') : Takes table t rest s s'
  | sign (hk : t.kind = .operator minus) (hdue : operandDue s.previous)
      (hrest : negatesLiteral rest) : Takes table t rest s { s with negated := true }
  | negation (hk : t.kind = .operator minus) (hdue : operandDue s.previous) :
      Takes table t rest s { s with
        operands := .int (-1) :: s.operands
        pending := .operator times table.callPrecedence t.position :: s.pending }
  | operator {op : Operator} {s' : ParseState} (hk : t.kind = .operator op)
      (hpush : pushOperator table op t.position s = .ok s') : Takes table t rest s s'

section

variable {table : OperatorTable} {t : Token} {rest : List Token} {s s₀ s' : ParseState}

theorem takes_of_takeToken (h : takeToken table t rest s = .ok s') : Takes table t rest s s' := by
  rw [takeToken] at h
  cases hk : t.kind with
  | unknown =>
    rw [hk] at h
    cases h
  | number =>
    rw [hk] at h
    dsimp only at h
    split at h
    · cases h
    · next v hv =>
      cases h
      exact .number hk hv
  | letter | constant =>
    rw [hk] at h
    dsimp only at h
    split_ifs at h with hempty
    cases h
    exact .name (by simp [hk]) (by simpa using hempty)
  | function =>
    rw [hk] at h
    cases h
    exact .call hk
  | openParen =>
    rw [hk] at h
    cases h
    exact .opening hk
  | closeParen =>
    rw [hk] at h
    exact .closing hk h
  | operator op =>
    rw [hk] at h
    dsimp only at h
    split_ifs at h with hminus hrest
    · cases h
      simp only [Bool.and_eq_true, decide_eq_true_eq] at hminus
      exact .sign (hminus.1 ▸ hk) hminus.2 hrest
    · cases h
      simp only [Bool.and_eq_true, decide_eq_true_eq] at hminus
      exact .negation (hminus.1 ▸ hk) hminus.2
    · exact .operator hk h

/-- A token is taken in after the product that it may imply. -/
theorem advance_inv (h : advance table s t rest = .ok s') :
    ∃ s₀ s₁, juxtapose table t s = .ok s₀ ∧ Takes table t rest s₀ s₁ ∧
      s' = { s₁ with previous := some t.kind } := by
  rw [advance] at h
  obtain ⟨s₀, hjuxtapose, h⟩ := bind_eq_ok.mp h
  obtain ⟨s₁, htake, hs'⟩ := bind_eq_ok.mp h
  exact ⟨s₀, s₁, hjuxtapose, takes_of_takeToken htake, (Except.ok.inj hs').symm⟩

theorem juxtapose_inv (hjuxtapose : juxtapose table t s = .ok s₀)
    (ht : t.kind.startsOperand = false) : s₀ = s := by
  have hnot : ¬(t.kind.startsOperand ∧ ¬operandDue s.previous) := by simp [ht]
  exact Except.ok.inj (hjuxtapose.symm.trans (juxtapose_of_not hnot))

end

end Locus
