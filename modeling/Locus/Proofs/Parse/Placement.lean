import Locus.Proofs.Parse.Grammar

/-! Placement of tokens. A list of tokens is well placed if operands and operators come where they
are due and the parentheses pair off, which a scan with a count of open parentheses decides. The
grammar derives every well placed list: each category takes as much as it can, and what stops it
belongs to a category further out. -/

namespace Locus
set_option autoImplicit false

open Locus.Operator

/-! ## Well placed tokens -/

/-- Whether tokens are well placed, where an operand is due or has just ended, and inside of so
many parentheses. -/
def WellPlaced (due : Bool) (depth : Nat) : List Token → Prop
  | [] => due = false ∧ depth = 0
  | t :: rest =>
    match t.kind with
    | .unknown => False
    | .number | .letter | .constant => WellPlaced false depth rest
    | .function => WellPlaced true depth rest
    | .openParen => WellPlaced true (depth + 1) rest
    | .closeParen => due = false ∧ ∃ outer, depth = outer + 1 ∧ WellPlaced false outer rest
    | .operator op => (due = true → op = minus) ∧ WellPlaced true depth rest

/-- How tightly a token binds to what stands before it, if it goes on with it. -/
def TokenKind.strength? : TokenKind → Option Nat
  | .operator op => some op.precedence
  | .number | .letter | .constant | .function | .openParen => some times.precedence
  | .closeParen | .unknown => none

/-- What follows does not bind at this strength. -/
def StopsAt (level : Nat) (tokens : List Token) : Prop :=
  ∀ t ∈ tokens.head?, ∀ p ∈ t.kind.strength?, p < level

/-- A category takes a beginning of well placed tokens, up to where nothing binds at the strength
given. -/
def Accepts (c : Category) (level depth : Nat) (i : List Token) : Prop :=
  ∃ r e, Derives c i r e ∧ WellPlaced false depth r ∧ StopsAt level r

theorem Derives.length_lt {c : Category} {i r : List Token} {e : Expr} (h : Derives c i r e) :
    r.length < i.length := by
  induction h with
  | equals _ _ _ ihl ihr | plusMinus _ _ _ _ ihl ihr | timesDivide _ _ _ _ ihl ihr
  | power _ _ _ ihl ihr =>
    rw [List.length_cons] at ihl
    omega
  | juxtaposed _ _ _ ihl ihr => omega
  | call _ _ _ ih | negation _ _ _ ih =>
    rw [List.length_cons]
    omega
  | number _ | name _ | negative _ _ =>
    simp only [List.length_cons]
    omega
  | group _ _ _ ih | callGroup _ _ _ _ ih =>
    simp only [List.length_cons] at ih ⊢
    omega
  | _ => assumption

theorem stopsAt_nil (level : Nat) : StopsAt level [] := fun _ ht => nomatch ht

theorem stopsAt_cons {level : Nat} {t : Token} {rest : List Token} :
    StopsAt level (t :: rest) ↔ ∀ p ∈ t.kind.strength?, p < level := by
  constructor
  · intro h
    exact h t rfl
  · intro h u hu
    rw [List.head?_cons, Option.mem_some_iff] at hu
    exact hu ▸ h

theorem not_stopsAt {level : Nat} {tokens : List Token} (h : ¬StopsAt level tokens) :
    ∃ t rest p, tokens = t :: rest ∧ t.kind.strength? = some p ∧ level ≤ p := by
  cases tokens with
  | nil => exact absurd (stopsAt_nil level) h
  | cons t rest =>
    rw [stopsAt_cons] at h
    simp only [not_forall, not_lt, exists_prop] at h
    obtain ⟨p, hp, hle⟩ := h
    exact ⟨t, rest, p, rfl, hp, hle⟩

/-- Behind an operand, a token that binds is an operator or starts an operand. -/
theorem WellPlaced.next {depth : Nat} {t : Token} {rest : List Token} {p : Nat}
    (h : WellPlaced false depth (t :: rest)) (hp : t.kind.strength? = some p) :
    (∃ op, t.kind = .operator op ∧ p = op.precedence ∧ WellPlaced true depth rest) ∨
      (t.kind.startsOperand ∧ p = times.precedence ∧ WellPlaced true depth (t :: rest)) := by
  rw [WellPlaced] at h
  cases hk : t.kind with
  | operator op =>
    rw [hk] at h hp
    cases hp
    exact .inl ⟨op, rfl, rfl, h.2⟩
  | closeParen | unknown =>
    rw [hk] at hp
    cases hp
  | number | letter | constant | function | openParen =>
    rw [hk] at h hp
    cases hp
    refine .inr ⟨rfl, rfl, ?_⟩
    rw [WellPlaced, hk]
    exact h

/-! ## Operands -/

section

variable {n : Nat}

/-- What is assumed of what stands in parentheses: it is shorter than `n`, and if it is well placed
it is an equation up to where it ends. -/
def EquationsBelow (n : Nat) : Prop :=
  ∀ i depth, i.length < n → WellPlaced true depth i → Accepts .equation 0 depth i

/-- An equation inside of parentheses ends at the one that closes it. -/
theorem EquationsBelow.closed (h : EquationsBelow n) {i : List Token} {depth : Nat}
    (hlength : i.length < n) (hi : WellPlaced true (depth + 1) i) :
    ∃ close r e, Derives .equation i (close :: r) e ∧ close.kind = .closeParen ∧
      WellPlaced false depth r := by
  obtain ⟨r, e, hderives, hplaced, hstops⟩ := h i (depth + 1) hlength hi
  cases r with
  | nil => cases hplaced.2
  | cons close r =>
    have hnone : close.kind.strength? = none := by
      rw [Option.eq_none_iff_forall_ne_some]
      intro p hp
      exact absurd (stopsAt_cons.mp hstops p hp) (Nat.not_lt_zero p)
    rw [WellPlaced] at hplaced
    cases hk : close.kind with
    | closeParen =>
      rw [hk] at hplaced
      obtain ⟨-, outer, houter, hr⟩ := hplaced
      cases houter
      exact ⟨close, r, e, hderives, hk, hr⟩
    | unknown =>
      rw [hk] at hplaced
      exact hplaced.elim
    | _ =>
      rw [hk] at hnone
      cases hnone

theorem accepts_of_atom {i r : List Token} {e : Expr} {depth : Nat} (h : Derives .atom i r e)
    (hr : WellPlaced false depth r)
    (hunary : ∀ m, m.length < i.length → WellPlaced true depth m →
      Accepts .unary power.precedence depth m) :
    Accepts .unary power.precedence depth i := by
  by_cases hstops : StopsAt power.precedence r
  · exact ⟨r, e, .ofPower (.ofAtom h), hr, hstops⟩
  · obtain ⟨t, m, p, rfl, hp, hle⟩ := not_stopsAt hstops
    obtain ⟨op, hk, rfl, hm⟩ | ⟨-, rfl, -⟩ := hr.next hp
    · have hop : op = power := by
        cases op <;> simp [precedence] at hle ⊢
      rw [hop] at hk
      have hlength := h.length_lt
      rw [List.length_cons] at hlength
      obtain ⟨r, e', hunary, hr, hstops⟩ := hunary m (by omega) hm
      exact ⟨r, _, .ofPower (.power h hk hunary), hr, hstops⟩
    · exact absurd hle (by decide)

theorem accepts_unary (hequations : EquationsBelow n) :
    ∀ i depth, i.length ≤ n → WellPlaced true depth i → Accepts .unary power.precedence depth i := by
  intro i
  induction hi : i.length using Nat.strong_induction_on generalizing i with
  | _ length ih =>
    intro depth hlength hplaced
    subst hi
    have hshorter : ∀ m, m.length < i.length → WellPlaced true depth m →
        Accepts .unary power.precedence depth m :=
      fun m hm hplaced => ih m.length hm m rfl depth (by omega) hplaced
    cases i with
    | nil => cases hplaced.1
    | cons t rest =>
      have hrest : rest.length < (t :: rest).length := Nat.lt_succ_self _
      rw [WellPlaced] at hplaced
      cases hk : t.kind with
      | unknown =>
        rw [hk] at hplaced
        exact hplaced.elim
      | closeParen =>
        rw [hk] at hplaced
        cases hplaced.1
      | number =>
        rw [hk] at hplaced
        exact accepts_of_atom (.number hk) hplaced hshorter
      | letter =>
        rw [hk] at hplaced
        exact accepts_of_atom (.name (.inl hk)) hplaced hshorter
      | constant =>
        rw [hk] at hplaced
        exact accepts_of_atom (.name (.inr hk)) hplaced hshorter
      | openParen =>
        rw [hk] at hplaced
        obtain ⟨close, r, e, hderives, hclose, hr⟩ := hequations.closed (by omega) hplaced
        exact accepts_of_atom (.group hk hderives hclose) hr hshorter
      | function =>
        rw [hk] at hplaced
        by_cases hopen : StartsWith .openParen rest
        · obtain ⟨o, ho, hokind⟩ := hopen
          obtain ⟨inside, rfl⟩ := List.head?_eq_some_iff.mp ho
          replace hplaced : WellPlaced true depth (o :: inside) := hplaced
          rw [WellPlaced, hokind] at hplaced
          rw [List.length_cons] at hrest
          obtain ⟨close, r, e, hderives, hclose, hr⟩ := hequations.closed (by omega) hplaced
          exact accepts_of_atom (.callGroup hk hokind hderives hclose) hr hshorter
        · obtain ⟨r, e, hderives, hr, hstops⟩ := hshorter rest hrest hplaced
          exact ⟨r, _, .call hk hopen hderives, hr, hstops⟩
      | operator op =>
        rw [hk] at hplaced
        obtain ⟨hminus, hplaced⟩ := hplaced
        rw [hminus rfl] at hk
        by_cases hsigned : StartsSigned rest
        · obtain ⟨number, r, rfl, hnumber⟩ := hsigned
          rw [WellPlaced, hnumber.1] at hplaced
          exact accepts_of_atom (.negative hk hnumber) hplaced hshorter
        · obtain ⟨r, e, hderives, hr, hstops⟩ := hshorter rest hrest hplaced
          exact ⟨r, _, .negation hk hsigned hderives, hr, hstops⟩

end

/-! ## Repetitions -/

/-- A category that repeats another goes on until nothing binds at its strength any more, if it can
go on wherever something does. -/
theorem accepts_repeated {n level tighter : Nat} {c part : Category}
    (hpart : ∀ i depth, i.length ≤ n → WellPlaced true depth i → Accepts part tighter depth i)
    (hnext : ∀ i m l depth, Derives c i m l → WellPlaced false depth m → StopsAt tighter m →
      ¬StopsAt level m → ∃ m', m'.length ≤ m.length ∧ WellPlaced true depth m' ∧
        ∀ r e, Derives part m' r e → ∃ e', Derives c i r e')
    {i m : List Token} {l : Expr} {depth : Nat} (h : Derives c i m l)
    (hm : WellPlaced false depth m) (hstops : StopsAt tighter m) (hlength : m.length ≤ n) :
    Accepts c level depth i := by
  induction hk : m.length using Nat.strong_induction_on generalizing m l with
  | _ k ih =>
    subst hk
    by_cases hdone : StopsAt level m
    · exact ⟨m, l, h, hm, hdone⟩
    · obtain ⟨m', hle, hm', hextend⟩ := hnext i m l depth h hm hstops hdone
      obtain ⟨r, e, hderives, hr, hrstops⟩ := hpart m' depth (by omega) hm'
      obtain ⟨e', hderives'⟩ := hextend r e hderives
      have hlt := hderives.length_lt
      exact ih r.length (by omega) hderives' hr hrstops (by omega) rfl

section

variable {n : Nat}

theorem accepts_product (hequations : EquationsBelow n) (i : List Token) (depth : Nat)
    (hlength : i.length ≤ n) (hi : WellPlaced true depth i) :
    Accepts .product times.precedence depth i := by
  obtain ⟨r, e, hderives, hr, hstops⟩ := accepts_unary hequations i depth hlength hi
  have hlt := hderives.length_lt
  refine accepts_repeated (accepts_unary hequations) ?_ (.ofUnary hderives) hr hstops (by omega)
  intro i m l depth hl hm hpower htimes
  obtain ⟨t, rest, p, rfl, hp, hle⟩ := not_stopsAt htimes
  have hpower := stopsAt_cons.mp hpower p hp
  obtain ⟨op, hk, rfl, hrest⟩ | ⟨hstarts, -, hoperand⟩ := hm.next hp
  · have hop : op = times ∨ op = divide := by
      cases op <;> simp [precedence] at hle hpower ⊢
    exact ⟨rest, Nat.le_succ _, hrest, fun r e hr => ⟨_, .timesDivide hl hk hop hr⟩⟩
  · refine ⟨t :: rest, le_rfl, hoperand, fun r e hr => ⟨_, .juxtaposed hl ?_ hr⟩⟩
    rintro ⟨u, hu, hminus⟩
    cases hu
    rw [hminus] at hstarts
    cases hstarts

theorem accepts_sum (hequations : EquationsBelow n) (i : List Token) (depth : Nat)
    (hlength : i.length ≤ n) (hi : WellPlaced true depth i) :
    Accepts .sum plus.precedence depth i := by
  obtain ⟨r, e, hderives, hr, hstops⟩ := accepts_product hequations i depth hlength hi
  have hlt := hderives.length_lt
  refine accepts_repeated (accepts_product hequations) ?_ (.ofProduct hderives) hr hstops (by omega)
  intro i m l depth hl hm htimes hplus
  obtain ⟨t, rest, p, rfl, hp, hle⟩ := not_stopsAt hplus
  have htimes := stopsAt_cons.mp htimes p hp
  obtain ⟨op, hk, rfl, hrest⟩ | ⟨-, rfl, -⟩ := hm.next hp
  · have hop : op = plus ∨ op = minus := by
      cases op <;> simp [precedence] at hle htimes ⊢
    exact ⟨rest, Nat.le_succ _, hrest, fun r e hr => ⟨_, .plusMinus hl hk hop hr⟩⟩
  · exact absurd htimes (by decide)

theorem accepts_equation (hequations : EquationsBelow n) (i : List Token) (depth : Nat)
    (hlength : i.length ≤ n) (hi : WellPlaced true depth i) : Accepts .equation 0 depth i := by
  obtain ⟨r, e, hderives, hr, hstops⟩ := accepts_sum hequations i depth hlength hi
  have hlt := hderives.length_lt
  refine accepts_repeated (accepts_sum hequations) ?_ (.ofSum hderives) hr hstops (by omega)
  intro i m l depth hl hm hplus hequals
  obtain ⟨t, rest, p, rfl, hp, -⟩ := not_stopsAt hequals
  have hplus := stopsAt_cons.mp hplus p hp
  obtain ⟨op, hk, rfl, hrest⟩ | ⟨-, rfl, -⟩ := hm.next hp
  · have hop : op = equals := by
      cases op <;> simp [precedence] at hplus ⊢
    rw [hop] at hk
    exact ⟨rest, Nat.le_succ _, hrest, fun r e hr => ⟨_, .equals hl hk hr⟩⟩
  · exact absurd hplus (by decide)

end

theorem equationsBelow (n : Nat) : EquationsBelow n := by
  induction n with
  | zero => exact fun i depth hlength _ => absurd hlength (Nat.not_lt_zero _)
  | succ n ih => exact fun i depth hlength hi => accepts_equation ih i depth (by omega) hi

/-- Well placed tokens, taken together, are an equation of the grammar. -/
theorem WellPlaced.derives {tokens : List Token} (h : WellPlaced true 0 tokens) :
    ∃ e, Derives .equation tokens [] e := by
  obtain ⟨r, e, hderives, hr, hstops⟩ := equationsBelow _ tokens 0 (Nat.lt_succ_self _) h
  cases r with
  | nil => exact ⟨e, hderives⟩
  | cons t r =>
    -- what ends the equation would close a parenthesis, and none is open
    rw [WellPlaced] at hr
    cases hk : t.kind with
    | closeParen =>
      rw [hk] at hr
      obtain ⟨-, outer, houter, -⟩ := hr
      cases houter
    | unknown =>
      rw [hk] at hr
      exact hr.elim
    | _ =>
      have hlt := stopsAt_cons.mp hstops _ (by rw [hk]; rfl)
      exact absurd hlt (Nat.not_lt_zero _)

end Locus
