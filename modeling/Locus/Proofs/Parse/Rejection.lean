import Locus.Plot.Basic
import Locus.Proofs.Numeric.Digits
import Locus.Proofs.Parse.Counting
import Locus.Proofs.Parse.Reduction
import Locus.Proofs.Simplify.Literals

/-! What parsing a text can come to: an expression whose literals are in range, or an error that is the
fault of the text. The lexer leaves no name empty and the standard table knows every operator, so the
other errors do not occur (`orRejected_parse`). -/

namespace Locus
set_option autoImplicit false

open Locus.Expr Locus.Operator

/-! ## Outcomes -/

/-- A result that satisfies `p`, or an error for which the input is to blame. -/
def OrRejected {α : Type} (p : α → Prop) : Except ParseError α → Prop
  | .ok a => p a
  | .error error => error.isRejection

section

variable {α β : Type} {p : α → Prop} {q : β → Prop}

theorem orRejected_iff {x : Except ParseError α} :
    OrRejected p x ↔ EndsWith (fun error => error.isRejection) p x := by
  cases x <;> rfl

theorem OrRejected.bind {x : Except ParseError α} {f : α → Except ParseError β}
    (hx : OrRejected p x) (hf : ∀ a, p a → OrRejected q (f a)) : OrRejected q (x >>= f) :=
  orRejected_iff.mpr ((orRejected_iff.mp hx).bind fun a ha => orRejected_iff.mp (hf a ha))

end

/-! ## Lexing -/

theorem lowerCase_ne_nil {s : List Char} (h : s ≠ []) : lowerCase s ≠ [] := by
  cases s with
  | nil => exact absurd rfl h
  | cons c rest =>
    rw [lowerCase, lowerAfter]
    split_ifs <;> simp

theorem constantText_ne_empty {name : List Char} (h : name ≠ []) : constantText name ≠ "" := by
  rw [constantText]
  cases hfind : constants.lookup (String.ofList (lowerCase name)) with
  | none =>
    intro hempty
    apply h
    simpa using congrArg String.toList hempty
  | some letter =>
    have hletters : ∀ entry ∈ constants, entry.2 ≠ "" := by decide
    obtain ⟨l₁, l₂, hsplit, -⟩ := List.lookup_eq_some_iff.mp hfind
    have hmem : (String.ofList (lowerCase name), letter) ∈ constants := by
      rw [hsplit]
      simp
    exact hletters _ hmem

/-- The characters of a name that a text begins with. -/
theorem take_leadingName_ne_nil {names : List String} {c : Char} {rest : List Char} {name : String}
    (h : leadingName? names (c :: rest) = some name) : (c :: rest).take name.length ≠ [] := by
  have hname := List.find?_some h
  simp only [Bool.and_eq_true, Bool.not_eq_true'] at hname
  have hlength : name.length ≠ 0 := by
    rintro hzero
    rw [String.length_eq_zero_iff] at hzero
    rw [hzero] at hname
    exact absurd hname.1 (by decide)
  cases hcount : name.length with
  | zero => exact absurd hcount hlength
  | succ n => simp

theorem leadingLexeme_ne_empty (names : List String) (c : Char) (rest : List Char) :
    (leadingLexeme names c rest).text ≠ "" := by
  have hofList : ∀ s : List Char, s ≠ [] → String.ofList s ≠ "" := by
    intro s hs hempty
    apply hs
    simpa using congrArg String.toList hempty
  unfold leadingLexeme
  dsimp only
  split
  · next name hname => exact hofList _ (lowerCase_ne_nil (take_leadingName_ne_nil hname))
  · split
    · next name hname => exact constantText_ne_empty (take_leadingName_ne_nil hname)
    · split_ifs with hletter hascii hnumeral
      · exact constantText_ne_empty (by simp)
      · exact hofList _ (by simp)
      · refine hofList _ ?_
        cases hcount : numeralLength (c :: rest) with
        | zero => exact absurd hcount hnumeral
        | succ n => simp
      · exact hofList _ (by simp)

theorem tokensFrom_ne_empty {names : List String} {position : Nat} {s : List Char} {t : Token}
    (ht : t ∈ tokensFrom names position s) : t.text ≠ "" := by
  obtain ⟨c, rest, -, htext⟩ := exists_lexeme_of_mem ht
  rw [htext]
  exact leadingLexeme_ne_empty names c rest

/-! ## Stacks -/

/-- Nothing that waits lacks a name, and no operand leaves the range of the doubles. -/
structure InOrder (pending : List Pending) (operands : List Expr) : Prop where
  named : AllNamed pending
  inRange : ∀ e ∈ operands, e.AllLiterals Literal.InRange

variable {top : Pending} {pending waiting : List Pending} {operands : List Expr}

theorem InOrder.pop (h : InOrder (top :: waiting) operands) : InOrder waiting operands :=
  ⟨fun p hp => h.named p (List.mem_cons_of_mem _ hp), h.inRange⟩

theorem InOrder.push (h : InOrder pending operands) (htop : top.IsNamed) :
    InOrder (top :: pending) operands :=
  ⟨List.forall_mem_cons.mpr ⟨htop, h.named⟩, h.inRange⟩

theorem InOrder.pushOperand (h : InOrder pending operands) {e : Expr}
    (he : e.AllLiterals Literal.InRange) : InOrder pending (e :: operands) :=
  ⟨h.named, List.forall_mem_cons.mpr ⟨he, h.inRange⟩⟩

theorem orRejected_reduce (h : InOrder (top :: waiting) operands) :
    OrRejected (InOrder waiting) (reduce top operands) := by
  have hnamed : top.IsNamed := h.named top List.mem_cons_self
  cases top with
  | operator op precedence position =>
    match operands, h.inRange with
    | [], _ | [_], _ => rfl
    | right :: left :: rest, hrange =>
      exact ⟨h.pop.named, List.forall_mem_cons.mpr
        ⟨⟨hrange left (by simp), hrange right (by simp)⟩, fun e he => hrange e (by simp [he])⟩⟩
  | call name precedence position =>
    match operands, h.inRange with
    | [], _ => rfl
    | argument :: rest, hrange =>
      have hname : name.isEmpty = false := by
        simpa using (show name ≠ "" from hnamed)
      rw [reduce, hname]
      exact ⟨h.pop.named, List.forall_mem_cons.mpr
        ⟨hrange argument (by simp), fun e he => hrange e (by simp [he])⟩⟩
  | group position => exact h.pop

/-- Whatever is reduced, order is kept. -/
theorem reduce_keeps_inOrder (top : Pending) (p : Int) (waiting : List Pending)
    (operands : List Expr) (_ : top.precedence? = some p) (h : InOrder (top :: waiting) operands) :
    EndsWith (fun error => error.isRejection) (InOrder waiting) (reduce top operands) :=
  orRejected_iff.mp (orRejected_reduce h)

theorem orRejected_reduceTighter {incoming : Int} (h : InOrder pending operands) :
    OrRejected (fun r => InOrder r.1 r.2) (reduceTighter incoming pending operands) :=
  orRejected_iff.mpr (reduceTighter_endsWith reduce_keeps_inOrder h incoming)

theorem orRejected_reduceGroup {position : Int} (h : InOrder pending operands) :
    OrRejected (fun r => InOrder r.1 r.2) (reduceGroup position pending operands) := by
  rw [orRejected_iff]
  refine (reduceGroup_endsWith reduce_keeps_inOrder h fun _ _ => rfl).mono ?_
  rintro r ⟨start, hgroup⟩
  exact hgroup.pop

theorem orRejected_reduceAll (h : InOrder pending operands) :
    OrRejected (InOrder []) (reduceAll pending operands) :=
  orRejected_iff.mpr (reduceAll_endsWith reduce_keeps_inOrder h fun _ _ _ _ => rfl)

/-! ## Tokens -/

def ParseState.InOrder (s : ParseState) : Prop := Locus.InOrder s.pending s.operands

variable {s : ParseState}

theorem orRejected_pushOperator {op : Operator} {position : Int} (h : s.InOrder) :
    OrRejected ParseState.InOrder (pushOperator .standard op position s) := by
  obtain ⟨entry, hentry, -⟩ := find?_standard op
  rw [pushOperator, hentry]
  exact (orRejected_reduceTighter h).bind fun r hr => hr.push trivial

theorem orRejected_closeGroup {position : Int} (h : s.InOrder) :
    OrRejected ParseState.InOrder (closeGroup position s) := by
  refine (orRejected_reduceGroup h).bind fun r hr => ?_
  obtain ⟨pending, operands⟩ := r
  dsimp only
  split
  · exact (orRejected_reduce hr).bind fun reduced hreduced => hreduced
  · exact hr

theorem inRange_of_ofText? {text : List Char} {v : Literal} (h : Literal.ofText? text = some v) :
    v.InRange := by
  rw [Literal.ofText?] at h
  split at h
  · split at h
    · split at h
      · next hfinite =>
        cases h
        exact hfinite
      · cases h
    · cases h
  · split at h
    · split at h
      · next hsome =>
        cases h
        exact hsome
      · cases h
    · cases h

theorem inRange_neg {v : Literal} (h : v.InRange) : v.neg.InRange := by
  match v with
  | .int n =>
    rwa [Literal.neg, Literal.inRange_int_iff, Int.natAbs_neg, ← Literal.inRange_int_iff]
  | .double .nan => exact h
  | .double (.infinite _) => exact h
  | .double (.finite _ _) => rfl

theorem orRejected_takeToken {t : Token} {rest : List Token} (h : s.InOrder)
    (htext : t.text ≠ "") : OrRejected ParseState.InOrder (takeToken .standard t rest s) := by
  have hname : t.text.isEmpty = false := by simpa using htext
  rw [takeToken, hname]
  split
  · rfl
  · split
    · rfl
    · next v hv =>
      have hrange : v.InRange := inRange_of_ofText? hv
      cases s.negated with
      | false => exact InOrder.pushOperand h hrange
      | true => exact InOrder.pushOperand h (inRange_neg hrange)
  · exact InOrder.pushOperand h trivial
  · exact InOrder.pushOperand h trivial
  · exact InOrder.push h htext
  · exact InOrder.push h trivial
  · exact orRejected_closeGroup h
  · split_ifs
    · exact h
    · have hone : (Expr.int (-1)).AllLiterals Literal.InRange := by decide +kernel
      exact (InOrder.pushOperand h hone).push trivial
    · exact orRejected_pushOperator h

theorem orRejected_advance {t : Token} {rest : List Token} (h : s.InOrder)
    (htext : t.text ≠ "") : OrRejected ParseState.InOrder (advance .standard s t rest) := by
  have hjuxtapose : OrRejected ParseState.InOrder (juxtapose .standard t s) := by
    rw [juxtapose]
    split_ifs
    · exact orRejected_pushOperator h
    · exact h
  exact hjuxtapose.bind fun s₀ h₀ => (orRejected_takeToken h₀ htext).bind fun s₁ h₁ => h₁

theorem orRejected_advanceAll {tokens : List Token} (h : s.InOrder)
    (htexts : ∀ t ∈ tokens, t.text ≠ "") :
    OrRejected ParseState.InOrder (advanceAll .standard s tokens) := by
  induction tokens generalizing s with
  | nil => exact h
  | cons t rest ih =>
    refine (orRejected_advance h (htexts t List.mem_cons_self)).bind fun s' h' => ?_
    exact ih h' fun u hu => htexts u (List.mem_cons_of_mem _ hu)

theorem orRejected_finish (h : s.InOrder) :
    OrRejected (Expr.AllLiterals Literal.InRange) (finish s) := by
  refine (orRejected_reduceAll h).bind fun operands hoperands => ?_
  split
  · exact hoperands.inRange _ List.mem_cons_self
  · rfl

/-- Parsing a text gives an expression in range or rejects the text. -/
theorem orRejected_parse (text : String) :
    OrRejected (Expr.AllLiterals Literal.InRange) (parse standardNames .standard text) := by
  have hstart : ParseState.start.InOrder := ⟨fun _ h => (nomatch h), fun _ h => (nomatch h)⟩
  rw [parse]
  split
  · trivial
  · exact (orRejected_advanceAll hstart fun t ht => tokensFrom_ne_empty ht).bind fun s hs =>
      orRejected_finish hs

end Locus
