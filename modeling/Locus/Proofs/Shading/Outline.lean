import Locus.Proofs.Shading.Definedness
import Locus.Proofs.Shading.Words

/-! Outlines of shading code: what stands outside all parentheses. The code of an expression never
leaves the parentheses around it, so the outline of a power is that of the product or the call that
it is written as, and which of them it is can be told from the exponent (`outline_of_power`). -/

namespace Locus
set_option autoImplicit false

open Locus.Operator

/-! ## Plain names -/

namespace Shading

/-- Parentheses and the signs of sums and products. -/
def isStructural (c : Char) : Bool :=
  c == '(' || c == ')' || (sumOperator? c).isSome || (productOperator? c).isSome

/-- A name, or other code, without such characters. -/
def isPlain (name : String) : Bool := name.toList.all fun c => !isStructural c

theorem isPlain_of_isAlphanum {name : String} (h : ∀ c ∈ name.toList, c.isAlphanum) :
    isPlain name := by
  refine List.all_eq_true.mpr fun c hc => ?_
  have hne : ∀ d, d.isAlphanum = false → c ≠ d := by
    rintro d hd rfl
    rw [h c hc] at hd
    cases hd
  simp [isStructural, sumOperator?, productOperator?, hne '(' rfl, hne ')' rfl, hne '+' rfl,
    hne '-' rfl, hne '*' rfl, hne '/' rfl]

end Shading

/-- The variables and functions in an expression have plain names. -/
def Expr.HasPlainNames : Expr → Prop
  | .var x => Shading.isPlain x
  | .call f a => Shading.isPlain f ∧ a.HasPlainNames
  | .binary _ l r => l.HasPlainNames ∧ r.HasPlainNames
  | _ => True

namespace Shading

/-! ## Outlines -/

/-- What has been seen of code: how many parentheses are open, whether an operand may have ended, and
whether there was a sign of a product or of a sum outside all parentheses. A plus or a minus is one of
a sum only behind an operand. -/
structure Outline where
  depth : Nat
  ended : Bool
  product : Bool
  sum : Bool
deriving DecidableEq, Repr

/-- Whether an operand may end with a sign other than a parenthesis. -/
def endsOperand (c : Char) : Bool :=
  !((sumOperator? c).isSome || (productOperator? c).isSome || c == ',')

namespace Outline

def start : Outline := ⟨0, false, false, false⟩

def advance (s : Outline) : CodeToken → Outline
  | .sign '(' => { s with depth := s.depth + 1, ended := false }
  | .sign ')' => { s with depth := s.depth - 1, ended := true }
  | .sign c =>
    { s with
      ended := endsOperand c
      product := s.product || s.depth == 0 && (productOperator? c).isSome
      sum := s.sum || s.depth == 0 && s.ended && (sumOperator? c).isSome }
  | _ => { s with ended := true }

def run (s : Outline) (tokens : List CodeToken) : Outline := tokens.foldl advance s

end Outline

def outline (code : String) : Outline := Outline.start.run (codeTokens code)

example : outline "-0.0*(x - y)" = ⟨0, true, true, false⟩ := by decide

example : outline "(x*y) - 1.5e-05" = ⟨0, true, false, true⟩ := by decide

namespace Outline

theorem run_append (s : Outline) (i j : List CodeToken) : s.run (i ++ j) = (s.run i).run j :=
  List.foldl_append

theorem run_cons (s : Outline) (t : CodeToken) (i : List CodeToken) :
    s.run (t :: i) = (s.advance t).run i := rfl

theorem advance_sign {s : Outline} {c : Char} (hopen : c ≠ '(') (hclose : c ≠ ')') :
    s.advance (.sign c) =
      { s with
        ended := endsOperand c
        product := s.product || s.depth == 0 && (productOperator? c).isSome
        sum := s.sum || s.depth == 0 && s.ended && (sumOperator? c).isSome } := by
  unfold advance
  split
  · next h => exact absurd (CodeToken.sign.inj h) hopen
  · next h => exact absurd (CodeToken.sign.inj h) hclose
  · next h =>
    cases h
    rfl
  · next h => exact absurd rfl (h c)

theorem advance_product {s : Outline} {c : Char} (hs : s.depth = 0)
    (hc : (productOperator? c).isSome) : s.advance (.sign c) = ⟨0, false, true, s.sum⟩ := by
  rcases eq_of_productOperator? hc with rfl | rfl
  · rw [advance_sign (by decide) (by decide), hs]
    simp [endsOperand, sumOperator?, productOperator?]
  · rw [advance_sign (by decide) (by decide), hs]
    simp [endsOperand, sumOperator?, productOperator?]

theorem advance_word (s : Outline) (word : List Char) :
    s.advance (wordToken word) = { s with ended := true } := by
  rw [wordToken]
  split <;> rfl

end Outline

/-! ## Plain tokens -/

theorem mem_of_sign_mem {c : Char} {s : List Char} {word : List Char}
    (h : .sign c ∈ tokensAfter word s) : c ∈ s := by
  have hfinish : ∀ word, .sign c ∉ finish word := by
    intro word
    unfold finish wordToken
    split_ifs <;> simp
  induction s generalizing word with
  | nil => exact absurd h (hfinish word)
  | cons d s ih =>
    rw [tokensAfter] at h
    split at h
    · exact List.mem_cons_of_mem d (ih h)
    · rw [List.append_assoc, List.mem_append, List.mem_append] at h
      rcases h with h | h | h
      · exact absurd h (hfinish word)
      · rw [signToken] at h
        split at h
        · cases h
        · rw [List.mem_singleton, CodeToken.sign.injEq] at h
          exact h ▸ List.mem_cons_self
      · exact List.mem_cons_of_mem d (ih h)

namespace Outline

/-- Plain tokens do not count. -/
theorem run_of_plain {i : List CodeToken} (h : ∀ c, .sign c ∈ i → isStructural c = false)
    (s : Outline) : ∃ ended, s.run i = { s with ended } := by
  induction i generalizing s with
  | nil => exact ⟨s.ended, rfl⟩
  | cons t i ih =>
    have hfirst : ∃ ended, s.advance t = { s with ended } := by
      cases t with
      | number word => exact ⟨true, rfl⟩
      | name word => exact ⟨true, rfl⟩
      | sign c =>
        have hc := h c List.mem_cons_self
        simp only [isStructural, Bool.or_eq_false_iff, beq_eq_false_iff_ne] at hc
        obtain ⟨⟨⟨hopen, hclose⟩, hsum⟩, hproduct⟩ := hc
        refine ⟨endsOperand c, ?_⟩
        rw [advance_sign hopen hclose, hsum, hproduct, Bool.and_false, Bool.and_false,
          Bool.or_false, Bool.or_false]
    obtain ⟨ended, hfirst⟩ := hfirst
    rw [run_cons, hfirst]
    exact ih (fun c hc => h c (List.mem_cons_of_mem t hc)) _

theorem run_of_isPlain {name : String} (h : isPlain name) (s : Outline) :
    ∃ ended, s.run (codeTokens name) = { s with ended } := by
  refine run_of_plain (fun c hc => ?_) s
  have hplain := List.all_eq_true.mp h c (mem_of_sign_mem hc)
  exact Bool.not_eq_true' _ ▸ hplain

end Outline

/-! ## Enclosed tokens -/

/-- Tokens that do not count where they are in parentheses, and leave these open. -/
def Enclosed (i : List CodeToken) : Prop :=
  ∀ s : Outline, 0 < s.depth → ∃ ended, s.run i = { s with ended }

/-- Tokens that have a sign of a product outside all parentheses or have none, but no sign of a sum,
where they are not behind an operand. -/
def Shows (product : Bool) (i : List CodeToken) : Prop :=
  ∀ s : Outline, s.depth = 0 → s.ended = false →
    ∃ ended, s.run i = { s with ended, product := s.product || product }

section

variable {i j : List CodeToken} {c : Char} {p q : Bool}

theorem Enclosed.append (hi : Enclosed i) (hj : Enclosed j) : Enclosed (i ++ j) := by
  intro s hs
  obtain ⟨ended, hrun⟩ := hi s hs
  rw [Outline.run_append, hrun]
  exact hj { s with ended } hs

theorem enclosed_sign (hopen : c ≠ '(') (hclose : c ≠ ')') : Enclosed [.sign c] := by
  intro s hs
  have hdepth : (s.depth == 0) = false := beq_eq_false_iff_ne.mpr hs.ne'
  refine ⟨endsOperand c, ?_⟩
  rw [Outline.run_cons, Outline.advance_sign hopen hclose, hdepth, Bool.false_and,
    Bool.false_and, Bool.false_and, Bool.or_false, Bool.or_false]
  rfl

theorem Outline.run_group (hi : Enclosed i) (s : Outline) :
    s.run (.sign '(' :: i ++ [.sign ')']) = { s with ended := true } := by
  obtain ⟨ended, hrun⟩ := hi { s with depth := s.depth + 1, ended := false } s.depth.succ_pos
  rw [List.cons_append, Outline.run_cons, Outline.run_append]
  refine (congrArg (Outline.run · [.sign ')']) hrun).trans ?_
  show ({ s with depth := s.depth + 1 - 1, ended := true } : Outline) = _
  rw [Nat.add_sub_cancel]

theorem shows_of_run (h : ∀ s : Outline, ∃ ended, s.run i = { s with ended }) : Shows false i := by
  intro s _ _
  obtain ⟨ended, hrun⟩ := h s
  exact ⟨ended, by rw [hrun, Bool.or_false]⟩

/-- The sign of a product is seen between operands. -/
theorem Shows.join (hi : Shows p i) (hc : (productOperator? c).isSome) (hj : Shows q j) :
    Shows true (i ++ .sign c :: j) := by
  intro s hs hended
  obtain ⟨ended, hrun⟩ := hi s hs hended
  obtain ⟨ended', hrun'⟩ := hj ⟨0, false, true, s.sum⟩ rfl rfl
  refine ⟨ended', ?_⟩
  rw [Outline.run_append, hrun, Outline.run_cons, hs, Bool.or_true]
  exact (congrArg (Outline.run · j) (Outline.advance_product rfl hc)).trans hrun'

end

/-! ## Fragments -/

/-- Code that is enclosed where it is in parentheses, and elsewhere shows a product or none. -/
structure Fragment (product : Bool) (code : String) : Prop where
  enclosed : Enclosed (codeTokens code)
  shows : Shows product (codeTokens code)

section

variable {a b : String} {p q : Bool}

theorem fragment_of_run (h : ∀ s : Outline, ∃ ended, s.run (codeTokens a) = { s with ended }) :
    Fragment false a :=
  ⟨fun s _ => h s, shows_of_run h⟩

theorem fragment_of_isPlain (h : isPlain a) : Fragment false a :=
  fragment_of_run (Outline.run_of_isPlain h)

theorem fragment_of_isSigned (h : IsSigned a) : Fragment false a := by
  obtain ⟨word, hword | hword⟩ := h
  · refine fragment_of_run fun s => ⟨true, ?_⟩
    rw [hword]
    exact Outline.advance_word s word
  · have hrun : ∀ s : Outline, s.run (codeTokens a)
        = { s with ended := true, sum := s.sum || s.depth == 0 && s.ended } := by
      intro s
      rw [hword, Outline.run_cons, Outline.advance_sign (by decide) (by decide)]
      refine (Outline.advance_word _ word).trans ?_
      simp [sumOperator?, productOperator?]
    refine ⟨fun s hs => ⟨true, ?_⟩, fun s hs hended => ⟨true, ?_⟩⟩
    · rw [hrun, beq_eq_false_iff_ne.mpr hs.ne', Bool.false_and, Bool.or_false]
    · rw [hrun, hended, Bool.and_false, Bool.or_false, Bool.or_false]

theorem fragment_group (ha : Enclosed (codeTokens a)) : Fragment false ("(" ++ a ++ ")") := by
  refine fragment_of_run fun s => ⟨true, ?_⟩
  rw [codeTokens_paren]
  exact Outline.run_group ha s

theorem Fragment.parenthesizeIf (h : Fragment p a) {condition : Bool} (hcondition : condition = p) :
    Fragment false (parenthesizeIf condition a) := by
  subst hcondition
  cases condition with
  | false => exact h
  | true => exact fragment_group h.enclosed

theorem enclosed_parenthesizeIf (h : Enclosed (codeTokens a)) (condition : Bool) :
    Enclosed (codeTokens (parenthesizeIf condition a)) := by
  cases condition with
  | false => exact h
  | true => exact (fragment_group h).enclosed

theorem fragment_literal {v : Literal} (h : v.code = .ok a) : Fragment false a := by
  rw [Literal.code] at h
  split at h
  · next text htext =>
    cases h
    have hfragment := fragment_of_isSigned (isSigned_unwrappedCode htext)
    split
    · exact fragment_group hfragment.enclosed
    · exact hfragment
  · cases h

theorem fragment_applied {f : String} (hf : isPlain f) (ha : Enclosed (codeTokens a)) :
    Fragment false (f ++ "(" ++ a ++ ")") := by
  refine fragment_of_run fun s => ⟨true, ?_⟩
  obtain ⟨ended, hrun⟩ := Outline.run_of_isPlain hf s
  rw [codeTokens_applied, List.append_assoc, Outline.run_append, hrun]
  exact Outline.run_group ha _

theorem enclosed_between {sep : String} {c : Char} (hsep : Separates sep c) (hopen : c ≠ '(')
    (hclose : c ≠ ')') (ha : Enclosed (codeTokens a)) (hb : Enclosed (codeTokens b)) :
    Enclosed (codeTokens (a ++ sep ++ b)) := by
  rw [hsep]
  exact ha.append ((enclosed_sign hopen hclose).append hb)

theorem Fragment.join {sep : String} {c : Char} (hsep : Separates sep c)
    (hc : (productOperator? c).isSome) (ha : Fragment p a) (hb : Fragment q b) :
    Fragment true (a ++ sep ++ b) := by
  have hparen : c ≠ '(' ∧ c ≠ ')' := by
    rcases eq_of_productOperator? hc with rfl | rfl <;> decide
  refine ⟨enclosed_between hsep hparen.1 hparen.2 ha.enclosed hb.enclosed, ?_⟩
  rw [hsep]
  exact ha.shows.join hc hb.shows

theorem fragment_pow (ha : Enclosed (codeTokens a)) (hb : Enclosed (codeTokens b)) :
    Fragment false ("pow(abs(" ++ a ++ "), " ++ b ++ ")") := by
  have hcomma : Separates ", " ',' := fun _ b => codeTokens_around rfl (by decide) b
  have habs : isPlain "abs" := rfl
  have hpow : isPlain "pow" := rfl
  have htext : "pow(abs(" ++ a ++ "), " ++ b ++ ")"
      = "pow" ++ "(" ++ ("abs" ++ "(" ++ a ++ ")" ++ ", " ++ b) ++ ")" := by
    apply String.toList_injective
    simp
  rw [htext]
  exact fragment_applied hpow (enclosed_between hcomma (by decide) (by decide)
    (fragment_applied habs ha).enclosed hb)

/-- A repeated factor is a product unless it stands alone. -/
theorem Fragment.repeated (h : Fragment false a) {n : Int} (hn : 0 < n) :
    Fragment (decide (2 ≤ n)) (String.intercalate "*" (List.replicate n.toNat a)) := by
  obtain ⟨k, rfl⟩ : ∃ k : Nat, n = ((k + 1 : Nat) : Int) := ⟨(n - 1).toNat, by omega⟩
  rw [Int.toNat_natCast]
  clear hn
  induction k with
  | zero =>
    rw [List.replicate_one, String.intercalate_singleton]
    exact h
  | succ k ih =>
    rw [List.replicate_succ, List.replicate_succ, String.intercalate_cons_cons,
      ← List.replicate_succ, decide_eq_true (by omega)]
    exact h.join separates_times rfl ih

end

/-! ## Powers -/

/-- The code of an expression is enclosed, and if this is no operator other than a power, the code
shows a product where one is predicted. -/
structure Predicted (limit : Int) (e : Expr) (code : String) : Prop where
  enclosed : Enclosed (codeTokens code)
  fragment : (∀ op, e.operator? = some op → op = .power) →
    ∀ b, isProduct limit e = .ok b → Fragment b code

section

variable {limit : Int} {base exponent l r : Expr} {a b text : String} {op : Operator}

theorem predicted_of_fragment {e : Expr} (h : Fragment false text)
    (he : isProduct limit e = .ok false) : Predicted limit e text := by
  refine ⟨h.enclosed, fun _ p hp => ?_⟩
  obtain rfl := Except.ok.inj (he.symm.trans hp)
  exact h

theorem fragment_factor (h : Predicted limit base a) {f : String}
    (hf : factor limit base a = .ok f) : Fragment false f := by
  cases base with
  | binary op l r =>
    cases op with
    | power =>
      obtain ⟨p, hp, hf⟩ := bind_eq_ok.mp hf
      cases hf
      exact (h.fragment (fun _ hop => (Option.some.inj hop).symm) p hp).parenthesizeIf rfl
    | _ =>
      cases hf
      exact fragment_group h.enclosed
  | _ =>
    cases hf
    exact h.fragment (fun _ hop => nomatch hop) false rfl

theorem fragment_naturalPower (h : Predicted limit base a) {n : Int} (hn : 0 ≤ n)
    (htext : naturalPower limit base n (.ok a) = .ok text) :
    Fragment (exponentUnrolls limit n) text := by
  rw [exponentUnrolls, if_neg (not_lt.mpr hn)]
  rw [naturalPower] at htext
  split at htext
  · next hlimit =>
    rw [if_pos hlimit]
    split at htext
    · next hzero =>
      cases htext
      rw [hzero]
      exact fragment_of_isPlain rfl
    · next hzero =>
      rw [ok_bind] at htext
      obtain ⟨f, hf, htext⟩ := bind_eq_ok.mp htext
      cases htext
      exact (fragment_factor h hf).repeated (by omega)
  · next hlimit =>
    rw [if_neg hlimit]
    dsimp only at htext
    rw [ok_bind] at htext
    split at htext
    · next heven =>
      obtain ⟨magnitude, hmagnitude, htext⟩ := bind_eq_ok.mp htext
      cases htext
      rw [heven]
      exact fragment_pow h.enclosed (fragment_literal hmagnitude).enclosed
    · next hodd =>
      obtain ⟨even, heven, htext⟩ := bind_eq_ok.mp htext
      rw [ok_bind] at htext
      obtain ⟨f, hf, htext⟩ := bind_eq_ok.mp htext
      cases htext
      rw [show n % 2 = 1 by omega]
      have hproduct := (fragment_pow h.enclosed (fragment_literal heven).enclosed).join
        separates_spacedTimes rfl (fragment_factor h hf)
      rwa [append_closeTimes] at hproduct

theorem fragment_reciprocal (h : Enclosed (codeTokens a)) : Fragment true ("1.0/(" ++ a ++ ")") := by
  rw [reciprocal_eq]
  exact (fragment_of_isPlain rfl).join separates_divide rfl (fragment_group h)

theorem fragment_power (h : Predicted limit base a) (h' : Enclosed (codeTokens b))
    (htext : power limit base exponent (.ok a) (.ok b) = .ok text) {p : Bool}
    (hp : isProduct limit (.binary .power base exponent) = .ok p) : Fragment p text := by
  obtain ⟨r, hr, hp⟩ := bind_eq_ok.mp hp
  cases hp
  rw [power, hr, ok_bind] at htext
  cases r with
  | none =>
    cases htext
    exact fragment_pow h.enclosed h'
  | some n =>
    dsimp only at htext
    rw [Option.map_some, Option.getD_some]
    split at htext
    · next hn =>
      obtain ⟨positive, hpositive, htext⟩ := bind_eq_ok.mp htext
      cases htext
      rw [exponentUnrolls, if_pos hn]
      exact fragment_reciprocal (fragment_naturalPower h (by omega) hpositive).enclosed
    · next hn => exact fragment_naturalPower h (not_lt.mp hn) htext

/-! ## Expressions -/

theorem exists_separates (op : Operator) :
    ∃ c, Separates (separator op) c ∧ c ≠ '(' ∧ c ≠ ')' := by
  cases op with
  | plus => exact ⟨'+', separates_plus, by decide, by decide⟩
  | times => exact ⟨'*', separates_times, by decide, by decide⟩
  | divide => exact ⟨'/', separates_divide, by decide, by decide⟩
  | equals | minus => exact ⟨'-', separates_minus, by decide, by decide⟩
  | power =>
    exact ⟨'^', fun _ b => codeTokens_around rfl (by decide) b, by decide, by decide⟩

theorem enclosed_joined (ha : Enclosed (codeTokens a)) (hb : Enclosed (codeTokens b))
    (htext : joined limit op l r (.ok a) (.ok b) = .ok text) : Enclosed (codeTokens text) := by
  rw [joined] at htext
  dsimp only at htext
  rw [ok_bind, ok_bind] at htext
  have hsides : ∃ onLeft onRight,
      text = parenthesizeIf onLeft a ++ separator op ++ parenthesizeIf onRight b := by
    split at htext
    · cases htext
      exact ⟨_, true, rfl⟩
    · split at htext
      · obtain ⟨grouped, -, htext⟩ := bind_eq_ok.mp htext
        cases htext
        exact ⟨_, grouped, rfl⟩
      · cases htext
        exact ⟨_, false, rfl⟩
  obtain ⟨onLeft, onRight, rfl⟩ := hsides
  obtain ⟨c, hsep, hopen, hclose⟩ := exists_separates op
  exact enclosed_between hsep hopen hclose (enclosed_parenthesizeIf ha _)
    (enclosed_parenthesizeIf hb _)

theorem fragment_letter {x : String} (h : isPlain x) :
    Fragment false ((letterCode.lookup x).getD x) := by
  by_cases hpi : x = "π"
  · subst hpi
    exact fragment_of_isPlain rfl
  by_cases htheta : x = "θ"
  · subst htheta
    have hcoordinates : isPlain "y, x" := rfl
    have hatan : isPlain "atan" := rfl
    exact fragment_applied hatan (fragment_of_isPlain hcoordinates).enclosed
  · rw [letterCode, List.lookup_cons, beq_eq_false_iff_ne.mpr hpi]
    dsimp only
    rw [List.lookup_cons, beq_eq_false_iff_ne.mpr htheta]
    exact fragment_of_isPlain h

theorem isPlain_callee {functions : FunctionTable}
    (hcodes : ∀ entry ∈ functions.entries, isPlain entry.code) {f : String} (hf : isPlain f) :
    isPlain (callee functions f) := by
  rw [callee]
  split
  · next entry hentry => exact hcodes entry (List.mem_of_find?_eq_some hentry)
  · exact hf

theorem predicted_code {style : CodeStyle}
    (hcodes : ∀ entry ∈ style.functions.entries, isPlain entry.code) {e : Expr}
    (hnames : e.HasPlainNames) (hrange : e.AllLiterals Literal.InRange)
    (h : Shading.code style e = .ok text) : Predicted style.unrollLimit e text := by
  induction e generalizing text with
  | empty =>
    cases h
    exact predicted_of_fragment (fragment_of_isPlain rfl) rfl
  | number v => exact predicted_of_fragment (fragment_literal h) rfl
  | var x =>
    cases h
    exact predicted_of_fragment (fragment_letter hnames) rfl
  | call f x ih =>
    obtain ⟨a, ha, h⟩ := bind_eq_ok.mp h
    cases h
    exact predicted_of_fragment
      (fragment_applied (isPlain_callee hcodes hnames.1) (ih hnames.2 hrange ha).enclosed) rfl
  | binary op l r ihl ihr =>
    obtain ⟨a, ha⟩ := code_isOk style hrange.1
    obtain ⟨b, hb⟩ := code_isOk style hrange.2
    have hl := ihl hnames.1 hrange.1 ha
    have hr := ihr hnames.2 hrange.2 hb
    cases op with
    | power =>
      rw [Shading.code, ha, hb] at h
      obtain ⟨p, hp⟩ := isProduct_isOk style.unrollLimit hrange
      exact ⟨(fragment_power hl hr.enclosed h hp).enclosed, fun _ _ => fragment_power hl hr.enclosed h⟩
    | _ =>
      rw [Shading.code, ha, hb] at h
      · exact ⟨enclosed_joined hl.enclosed hr.enclosed h,
          fun hop => absurd (hop _ rfl) (by decide)⟩
      all_goals decide

end

/-- The code of a power has the sign of a product outside all parentheses if and only if it is
predicted to be a product, and it has no sign of a sum there. This holds for every greatest exponent
of a power that is unrolled, also below zero, and for every table of functions with plain code. -/
theorem outline_of_power (style : CodeStyle)
    (hcodes : ∀ entry ∈ style.functions.entries, isPlain entry.code) (base exponent : Expr)
    (hnames : (Expr.binary .power base exponent).HasPlainNames)
    (hrange : (Expr.binary .power base exponent).AllLiterals Literal.InRange) :
    ∃ text p, Shading.code style (.binary .power base exponent) = .ok text ∧
      isProduct style.unrollLimit (.binary .power base exponent) = .ok p ∧
      (outline text).product = p ∧ (outline text).sum = false := by
  obtain ⟨text, htext⟩ := code_isOk style hrange
  obtain ⟨p, hp⟩ := isProduct_isOk style.unrollLimit hrange
  have hfragment := (predicted_code hcodes hnames hrange htext).fragment
    (fun _ hop => (Option.some.inj hop).symm) p hp
  obtain ⟨ended, hrun⟩ := hfragment.shows .start rfl rfl
  exact ⟨text, p, htext, hp, by rw [outline, hrun]; rfl, by rw [outline, hrun]; rfl⟩

/-- The first power of a quotient, which is a product unless it is unrolled. -/
def firstPower : Expr :=
  .binary .power (.binary .power (.call "sin" (.binary minus (.var "x") (.int 1))) (.int (-2)))
    (.int 1)

theorem outline_of_firstPower :
    (∃ text, Shading.code ⟨.standard, 0⟩ firstPower = .ok text ∧
      (outline text).product = true ∧ (outline text).sum = false) ∧
    ∃ text, Shading.code ⟨.standard, 1⟩ firstPower = .ok text ∧
      (outline text).product = false ∧ (outline text).sum = false := by
  have hcodes : ∀ entry ∈ FunctionTable.standard.entries, isPlain entry.code := by decide
  have hsine : isPlain "sin" := isPlain_of_isAlphanum (List.all_eq_true.mp rfl)
  have hx : isPlain "x" := isPlain_of_isAlphanum (List.all_eq_true.mp rfl)
  have hnames : firstPower.HasPlainNames := ⟨⟨⟨hsine, hx, trivial⟩, trivial⟩, trivial⟩
  have hrange : firstPower.AllLiterals Literal.InRange := by decide +kernel
  have hproduct : isProduct 0 firstPower = .ok true := by decide +kernel
  have hproduct' : isProduct 1 firstPower = .ok false := by decide +kernel
  obtain ⟨text, p, htext, hp, hproducts, hsums⟩ :=
    outline_of_power ⟨.standard, 0⟩ hcodes _ _ hnames hrange
  obtain ⟨text', p', htext', hp', hproducts', hsums'⟩ :=
    outline_of_power ⟨.standard, 1⟩ hcodes _ _ hnames hrange
  cases hp.symm.trans hproduct
  cases hp'.symm.trans hproduct'
  exact ⟨⟨text, htext, hproducts, hsums⟩, text', htext', hproducts', hsums'⟩

end Shading
end Locus
