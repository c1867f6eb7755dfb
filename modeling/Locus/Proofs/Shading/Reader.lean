import Locus.Proofs.Shading.Language

/-! Reading shading code token by token. A reader keeps what stands before the operand at hand: the
sums and products that wait for it, and around them the open parentheses. It finds every term that
the grammar assigns (`read_of_reads`), so the grammar assigns at most one (`Reads.unique`). -/

namespace Locus
set_option autoImplicit false

namespace Shading

/-! ## Readers -/

/-- What was read since a parenthesis was opened: the call that it belongs to with the arguments so
far, and the left sides of a sum and of a product that wait for an operand. -/
structure Frame where
  callee : Option (String × List Term)
  sum : Option (Term × Operator)
  product : Option (Term × Operator)
  negations : Nat

/-- The operand at hand. A name is kept apart, for a parenthesis makes a call of it. -/
inductive Operand where
  | missing
  | name (x : String)
  | term (t : Term)

def Operand.term? : Operand → Option Term
  | missing => none
  | name x => some (.name x)
  | term t => some t

structure Reader where
  outer : List Frame
  frame : Frame
  operand : Operand

/-- A term as the right side of what waits for it. -/
def attach (waiting : Option (Term × Operator)) (t : Term) : Term :=
  match waiting with
  | none => t
  | some (l, op) => .binary op l t

namespace Frame

def start (callee : Option (String × List Term)) : Frame := ⟨callee, none, none, 0⟩

def productOf (f : Frame) (t : Term) : Term := attach f.product (Term.negation^[f.negations] t)

def sumOf (f : Frame) (t : Term) : Term := attach f.sum (f.productOf t)

end Frame

namespace Reader

/-- A comma or a closing parenthesis after an operand. -/
def punctuate (s : Reader) (t : Term) (c : Char) : Option Reader :=
  match c, s.frame.callee, s.outer with
  | ',', some (f, arguments), outer =>
    some ⟨outer, .start (some (f, arguments ++ [s.frame.sumOf t])), .missing⟩
  | ')', some (f, arguments), frame :: outer =>
    some ⟨outer, frame, .term (.call f (arguments ++ [s.frame.sumOf t]))⟩
  | ')', none, frame :: outer => some ⟨outer, frame, .term (s.frame.sumOf t)⟩
  | _, _, _ => none

/-- A sign after an operand. -/
def combine (s : Reader) (t : Term) (c : Char) : Option Reader :=
  match sumOperator? c, productOperator? c with
  | some op, _ => some ⟨s.outer, ⟨s.frame.callee, some (s.frame.sumOf t, op), none, 0⟩, .missing⟩
  | none, some op =>
    some ⟨s.outer, ⟨s.frame.callee, s.frame.sum, some (s.frame.productOf t, op), 0⟩, .missing⟩
  | none, none => s.punctuate t c

def advance (s : Reader) : CodeToken → Option Reader
  | .number word =>
    match s.operand with
    | .missing => (numeralValue? word).map fun v => ⟨s.outer, s.frame, .term (.number v)⟩
    | _ => none
  | .name word =>
    match s.operand with
    | .missing => some ⟨s.outer, s.frame, .name (String.ofList word)⟩
    | _ => none
  | .sign c =>
    match s.operand, c with
    | .missing, '-' =>
      some ⟨s.outer, { s.frame with negations := s.frame.negations + 1 }, .missing⟩
    | .missing, '(' => some ⟨s.frame :: s.outer, .start none, .missing⟩
    | .name f, '(' => some ⟨s.frame :: s.outer, .start (some (f, [])), .missing⟩
    | operand, c => do s.combine (← operand.term?) c

def run (s : Reader) (tokens : List CodeToken) : Option Reader := tokens.foldlM advance s

end Reader

/-- The term that tokens stand for, if nothing is left open. -/
def read (tokens : List CodeToken) : Option Term := do
  let s ← Reader.run ⟨[], .start none, .missing⟩ tokens
  if s.outer.isEmpty then return s.frame.sumOf (← s.operand.term?) else none

/-! ## Runs -/

namespace Reader

theorem run_append (s : Reader) (i j : List CodeToken) :
    s.run (i ++ j) = (s.run i).bind (·.run j) := List.foldlM_append

theorem run_cons (s : Reader) (token : CodeToken) (rest : List CodeToken) :
    s.run (token :: rest) = (s.advance token).bind (·.run rest) := List.foldlM_cons

section

attribute [local simp] combine punctuate

theorem advance_sign {s : Reader} {t : Term} (ht : s.operand.term? = some t) {c : Char}
    (hc : c ≠ '(') : s.advance (.sign c) = s.combine t c := by
  unfold advance
  cases hoperand : s.operand with
  | missing =>
    rw [hoperand] at ht
    cases ht
  | name f =>
    rw [hoperand] at ht
    obtain rfl := Option.some.inj ht
    dsimp only
    split
    · contradiction
    · contradiction
    · next h => exact absurd rfl hc
    · rfl
  | term u =>
    rw [hoperand] at ht
    obtain rfl := Option.some.inj ht
    rfl

theorem run_then_sign {s s' : Reader} {t : Term} {i j : List CodeToken} {c : Char}
    (hrun : s.run i = some s') (ht : s'.operand.term? = some t) (hc : c ≠ '(') :
    s.run (i ++ .sign c :: j) = (s'.combine t c).bind (·.run j) := by
  rw [run_append, hrun, Option.bind_some, run_cons, advance_sign ht hc]

theorem combine_sum {s : Reader} {c : Char} {op : Operator} (h : sumOperator? c = some op)
    (t : Term) : s.combine t c
      = some ⟨s.outer, ⟨s.frame.callee, some (s.frame.sumOf t, op), none, 0⟩, .missing⟩ := by
  rw [combine, h]

theorem combine_product {s : Reader} {c : Char} {op : Operator} (h : productOperator? c = some op)
    (t : Term) : s.combine t c
      = some ⟨s.outer, ⟨s.frame.callee, s.frame.sum, some (s.frame.productOf t, op), 0⟩,
          .missing⟩ := by
  have hsum : sumOperator? c = none := by
    rcases eq_of_productOperator? (Option.isSome_of_eq_some h) with rfl | rfl <;> rfl
  rw [combine, hsum, h]

theorem combine_comma {s : Reader} {f : String} {arguments : List Term}
    (h : s.frame.callee = some (f, arguments)) (t : Term) : s.combine t ','
      = some ⟨s.outer, .start (some (f, arguments ++ [s.frame.sumOf t])), .missing⟩ := by
  simp [sumOperator?, productOperator?, h]

theorem combine_closeCall {s : Reader} {f : String} {arguments : List Term} {frame : Frame}
    {outer : List Frame} (h : s.frame.callee = some (f, arguments))
    (houter : s.outer = frame :: outer) (t : Term) : s.combine t ')'
      = some ⟨outer, frame, .term (.call f (arguments ++ [s.frame.sumOf t]))⟩ := by
  simp [sumOperator?, productOperator?, h, houter]

theorem combine_closeGroup {s : Reader} {frame : Frame} {outer : List Frame}
    (h : s.frame.callee = none) (houter : s.outer = frame :: outer) (t : Term) :
    s.combine t ')' = some ⟨outer, frame, .term (s.frame.sumOf t)⟩ := by
  simp [sumOperator?, productOperator?, h, houter]

end

end Reader

/-! ## The grammar is followed -/

/-- Where a reader gets with tokens of a level that stand for `t`. -/
def Reaches : Level → List CodeToken → Term → Prop
  | .sum, i, t => ∀ outer callee, ∃ frame operand u,
      Reader.run ⟨outer, .start callee, .missing⟩ i = some ⟨outer, frame, operand⟩ ∧
        operand.term? = some u ∧ frame.callee = callee ∧ frame.sumOf u = t
  | .product, i, t => ∀ outer callee sum, ∃ frame operand u,
      Reader.run ⟨outer, ⟨callee, sum, none, 0⟩, .missing⟩ i = some ⟨outer, frame, operand⟩ ∧
        operand.term? = some u ∧ frame.callee = callee ∧ frame.sum = sum ∧ frame.productOf u = t
  | .unary, i, t => ∀ outer callee sum product negations, ∃ n operand u,
      Reader.run ⟨outer, ⟨callee, sum, product, negations⟩, .missing⟩ i
          = some ⟨outer, ⟨callee, sum, product, negations + n⟩, operand⟩ ∧
        operand.term? = some u ∧ Term.negation^[n] u = t
  | .primary, i, t => ∀ outer frame, ∃ operand,
      Reader.run ⟨outer, frame, .missing⟩ i = some ⟨outer, frame, operand⟩ ∧ operand.term? = some t
  | .opened, i, t => ∀ outer frame, ∃ inside operand u f arguments,
      Reader.run ⟨outer, frame, .missing⟩ i = some ⟨frame :: outer, inside, operand⟩ ∧
        operand.term? = some u ∧ inside.callee = some (f, arguments) ∧
        t = .call f (arguments ++ [inside.sumOf u])

section Productions

open Reader

variable {c : Char} {op : Operator} {i j : List CodeToken} {l r t : Term} {word : List Char}
  {f : String} {arguments : List Term}

theorem Reaches.sum (hl : Reaches .sum i l) (hc : sumOperator? c = some op)
    (hr : Reaches .product j r) : Reaches .sum (i ++ .sign c :: j) (.binary op l r) := by
  intro outer callee
  obtain ⟨frame, operand, u, hrun, hu, hcallee, hl⟩ := hl outer callee
  obtain ⟨frame', operand', u', hrun', hu', hcallee', hsum, hr⟩ := hr outer callee (some (l, op))
  have hopen : c ≠ '(' := by
    rintro rfl
    cases hc
  refine ⟨frame', operand', u', ?_, hu', hcallee', by rw [Frame.sumOf, hsum, hr, attach]⟩
  rw [run_then_sign hrun hu hopen, combine_sum hc, hl, hcallee]
  exact hrun'

theorem Reaches.product (hl : Reaches .product i l) (hc : productOperator? c = some op)
    (hr : Reaches .unary j r) : Reaches .product (i ++ .sign c :: j) (.binary op l r) := by
  intro outer callee sum
  obtain ⟨frame, operand, u, hrun, hu, hcallee, hsum, hl⟩ := hl outer callee sum
  obtain ⟨n, operand', u', hrun', hu', hr⟩ := hr outer callee sum (some (l, op)) 0
  rw [Nat.zero_add] at hrun'
  have hopen : c ≠ '(' := by
    rintro rfl
    cases hc
  refine ⟨⟨callee, sum, some (l, op), n⟩, operand', u', ?_, hu', rfl, rfl,
    by rw [Frame.productOf, hr, attach]⟩
  rw [run_then_sign hrun hu hopen, combine_product hc, hl, hcallee, hsum]
  exact hrun'

theorem Reaches.negation (h : Reaches .unary i t) :
    Reaches .unary (.sign '-' :: i) (.negation t) := by
  intro outer callee sum product negations
  obtain ⟨n, operand, u, hrun, hu, hn⟩ := h outer callee sum product (negations + 1)
  refine ⟨n + 1, operand, u, ?_, hu, by rw [Function.iterate_succ_apply', hn]⟩
  rw [run_cons]
  refine hrun.trans ?_
  rw [Nat.add_assoc, Nat.add_comm 1 n]

theorem Reaches.group (h : Reaches .sum i t) :
    Reaches .primary (.sign '(' :: i ++ [.sign ')']) t := by
  intro outer frame
  obtain ⟨inside, operand, u, hrun, hu, hcallee, hsum⟩ := h (frame :: outer) none
  refine ⟨.term _, ?_, rfl⟩
  rw [List.cons_append, run_cons]
  refine (run_then_sign hrun hu (by decide)).trans ?_
  rw [combine_closeGroup hcallee rfl, hsum]
  rfl

theorem Reaches.call (h : Reaches .opened i (.call f arguments)) :
    Reaches .primary (i ++ [.sign ')']) (.call f arguments) := by
  intro outer frame
  obtain ⟨inside, operand, u, g, before, hrun, hu, hcallee, hcall⟩ := h outer frame
  refine ⟨.term _, ?_, rfl⟩
  rw [run_then_sign hrun hu (by decide), combine_closeCall hcallee rfl, ← hcall]
  rfl

theorem Reaches.first (h : Reaches .sum i t) :
    Reaches .opened (.name word :: .sign '(' :: i) (.call (String.ofList word) [t]) := by
  intro outer frame
  obtain ⟨inside, operand, u, hrun, hu, hcallee, hsum⟩ :=
    h (frame :: outer) (some (String.ofList word, []))
  exact ⟨inside, operand, u, _, [], hrun, hu, hcallee, by rw [hsum, List.nil_append]⟩

theorem Reaches.next (h : Reaches .opened i (.call f arguments)) (hlast : Reaches .sum j t) :
    Reaches .opened (i ++ .sign ',' :: j) (.call f (arguments ++ [t])) := by
  intro outer frame
  obtain ⟨inside, operand, u, g, before, hrun, hu, hcallee, hcall⟩ := h outer frame
  rw [Term.call.injEq] at hcall
  obtain ⟨rfl, harguments⟩ := hcall
  obtain ⟨inside', operand', u', hrun', hu', hcallee', hsum⟩ :=
    hlast (frame :: outer) (some (f, arguments))
  refine ⟨inside', operand', u', f, arguments, ?_, hu', hcallee', by rw [hsum]⟩
  rw [run_then_sign hrun hu (by decide), combine_comma hcallee, ← harguments]
  exact hrun'

end Productions

/-- A reader follows each derivation: it arrives with the operand and with what waits for it. -/
theorem Reads.reaches {level : Level} {i : List CodeToken} {t : Term} (h : Reads level i t) :
    Reaches level i t := by
  induction h with
  | ofProduct _ ih =>
    intro outer callee
    obtain ⟨frame, operand, u, hrun, hu, hcallee, hsum, hproduct⟩ := ih outer callee none
    exact ⟨frame, operand, u, hrun, hu, hcallee, by rw [Frame.sumOf, hsum, hproduct, attach]⟩
  | sum _ hc _ ihl ihr => exact ihl.sum hc ihr
  | ofUnary _ ih =>
    intro outer callee sum
    obtain ⟨n, operand, u, hrun, hu, hn⟩ := ih outer callee sum none 0
    rw [Nat.zero_add] at hrun
    exact ⟨_, operand, u, hrun, hu, rfl, rfl, by rw [Frame.productOf, hn, attach]⟩
  | product _ hc _ ihl ihr => exact ihl.product hc ihr
  | ofPrimary _ ih =>
    intro outer callee sum product negations
    obtain ⟨operand, hrun, hu⟩ := ih outer ⟨callee, sum, product, negations⟩
    exact ⟨0, operand, _, hrun, hu, rfl⟩
  | negation _ ih => exact ih.negation
  | number hv =>
    intro outer frame
    refine ⟨.term _, ?_, rfl⟩
    rw [Reader.run_cons, Reader.advance, hv]
    rfl
  | name => exact fun outer frame => ⟨_, rfl, rfl⟩
  | group _ ih => exact ih.group
  | call _ ih => exact ih.call
  | first _ ih => exact ih.first
  | next _ _ ih ihlast => exact ih.next ihlast

/-- Reading tokens finds the term that the grammar assigns to them. -/
theorem read_of_reads {i : List CodeToken} {t : Term} (h : Reads .sum i t) : read i = some t := by
  obtain ⟨frame, operand, u, hrun, hu, -, hsum⟩ := h.reaches [] none
  rw [read, hrun]
  simp [hu, hsum]

/-- The grammar assigns at most one term. -/
theorem Reads.unique {i : List CodeToken} {t t' : Term} (h : Reads .sum i t)
    (h' : Reads .sum i t') : t = t' :=
  Option.some.inj ((read_of_reads h).symm.trans (read_of_reads h'))

end Shading
end Locus
