import Mathlib.Logic.Relation
import Locus.Expr.Commuted
import Locus.Proofs.Simplify.Literals

/-! Equality up to the order of operands. A rearrangement swaps the operands of one `+`, `*` or `=`,
or writes one literal as another of the same value, anywhere in an expression (`Rearranges`).
Comparing two expressions decides whether rearrangements lead from one to the other, however many
it takes and at whatever depths (`sameUpToOrder_iff_rearranges`). -/

namespace Locus
set_option autoImplicit false

open Locus.Expr Locus.Operator

/-! ## Literals -/

namespace Literal

variable {u v w : Literal}

/-- Literals are the same if they stand for one rational, or for the infinity of one sign. -/
theorem sameValue_iff : v.sameValue w ↔
    (∃ x, v.toRat? = some x ∧ w.toRat? = some x) ∨
      ∃ negative, v = double (.infinite negative) ∧ w = double (.infinite negative) := by
  unfold sameValue
  split
  · next p q =>
    have hno : ¬∃ x, (double (.infinite p)).toRat? = some x ∧
        (double (.infinite q)).toRat? = some x :=
      fun ⟨x, hx, _⟩ => nomatch hx
    simpa [hno] using eq_comm
  · next hinfinite =>
    have hno : ¬∃ negative, v = double (.infinite negative) ∧ w = double (.infinite negative) :=
      fun ⟨negative, hv, hw⟩ => hinfinite negative negative hv hw
    cases hv : v.toRat? with
    | none => simp [hno]
    | some x =>
      cases hw : w.toRat? with
      | none => simp [hno]
      | some y => simpa [hno] using eq_comm

theorem sameValue_refl (h : v ≠ double .nan) : v.sameValue v := by
  rw [sameValue_iff]
  match v with
  | int n => exact .inl ⟨n, rfl, rfl⟩
  | double (.finite negative rank) => exact .inl ⟨_, rfl, rfl⟩
  | double (.infinite negative) => exact .inr ⟨negative, rfl, rfl⟩
  | double .nan => exact absurd rfl h

theorem sameValue_symm (h : v.sameValue w) : w.sameValue v := by
  rw [sameValue_iff] at h ⊢
  rcases h with ⟨x, hv, hw⟩ | ⟨negative, hv, hw⟩
  · exact .inl ⟨x, hw, hv⟩
  · exact .inr ⟨negative, hw, hv⟩

theorem sameValue_trans (h : u.sameValue v) (h' : v.sameValue w) : u.sameValue w := by
  rw [sameValue_iff] at h h' ⊢
  rcases h with ⟨x, hu, hv⟩ | ⟨negative, hu, rfl⟩
  · rcases h' with ⟨y, hv', hw⟩ | ⟨negative, rfl, -⟩
    · rw [hv, Option.some.injEq] at hv'
      subst hv'
      exact .inl ⟨x, hu, hw⟩
    · cases hv
  · rcases h' with ⟨y, hv, -⟩ | ⟨negative', heq, hw⟩
    · cases hv
    · exact .inr ⟨negative, hu, hw.trans heq.symm⟩

end Literal

/-! ## An equivalence -/

variable {op op' : Operator} {e e' e'' l l' r r' : Expr}

section

attribute [local simp] sameUpToOrder

theorem sameUpToOrder_binary : (binary op l r).sameUpToOrder (binary op' l' r') ↔
    op = op' ∧ (l.sameUpToOrder l' ∧ r.sameUpToOrder r' ∨
      op.isSymmetric ∧ l.sameUpToOrder r' ∧ r.sameUpToOrder l') := by
  simp [and_assoc]

theorem sameUpToOrder_call {f g : String} :
    (call f e).sameUpToOrder (call g e') ↔ f = g ∧ e.sameUpToOrder e' := by
  simp

theorem sameUpToOrder_refl (h : e.AllLiterals (· ≠ .double .nan)) : e.sameUpToOrder e := by
  induction e with
  | empty => rfl
  | number v => exact Literal.sameValue_refl h
  | var x => simp
  | call f a ih => exact sameUpToOrder_call.mpr ⟨rfl, ih h⟩
  | binary op l r ihl ihr => exact sameUpToOrder_binary.mpr ⟨rfl, .inl ⟨ihl h.1, ihr h.2⟩⟩

theorem sameUpToOrder_symm (h : e.sameUpToOrder e') : e'.sameUpToOrder e := by
  induction e generalizing e' with
  | empty => cases e' <;> first | rfl | cases h
  | number v =>
    cases e' with
    | number w => exact Literal.sameValue_symm h
    | _ => cases h
  | var x =>
    cases e' with
    | var y =>
      obtain rfl : x = y := by simpa using h
      exact h
    | _ => cases h
  | call f a ih =>
    cases e' with
    | call g b =>
      obtain ⟨rfl, ha⟩ := sameUpToOrder_call.mp h
      exact sameUpToOrder_call.mpr ⟨rfl, ih ha⟩
    | _ => cases h
  | binary op l r ihl ihr =>
    cases e' with
    | binary op' l' r' =>
      obtain ⟨rfl, ⟨hl, hr⟩ | ⟨hsymmetric, hl, hr⟩⟩ := sameUpToOrder_binary.mp h
      · exact sameUpToOrder_binary.mpr ⟨rfl, .inl ⟨ihl hl, ihr hr⟩⟩
      · exact sameUpToOrder_binary.mpr ⟨rfl, .inr ⟨hsymmetric, ihr hr, ihl hl⟩⟩
    | _ => cases h

/-- Of two comparisons in a row each goes straight or crosswise, and together they go straight if
both go the same way. -/
theorem sameUpToOrder_trans (h : e.sameUpToOrder e') (h' : e'.sameUpToOrder e'') :
    e.sameUpToOrder e'' := by
  induction e generalizing e' e'' with
  | empty => cases e' <;> first | exact h' | cases h
  | number v =>
    cases e' with
    | number w =>
      cases e'' with
      | number u => exact Literal.sameValue_trans h h'
      | _ => cases h'
    | _ => cases h
  | var x =>
    cases e' with
    | var y =>
      obtain rfl : x = y := by simpa using h
      exact h'
    | _ => cases h
  | call f a ih =>
    cases e' with
    | call g b =>
      cases e'' with
      | call g' c =>
        obtain ⟨rfl, ha⟩ := sameUpToOrder_call.mp h
        obtain ⟨rfl, hb⟩ := sameUpToOrder_call.mp h'
        exact sameUpToOrder_call.mpr ⟨rfl, ih ha hb⟩
      | _ => cases h'
    | _ => cases h
  | binary op l r ihl ihr =>
    cases e' with
    | binary op' l' r' =>
      cases e'' with
      | binary op'' l'' r'' =>
        obtain ⟨rfl, hfirst⟩ := sameUpToOrder_binary.mp h
        obtain ⟨rfl, hsecond⟩ := sameUpToOrder_binary.mp h'
        refine sameUpToOrder_binary.mpr ⟨rfl, ?_⟩
        rcases hfirst with ⟨hl, hr⟩ | ⟨hsymmetric, hl, hr⟩
        · rcases hsecond with ⟨hl', hr'⟩ | ⟨hsymmetric, hl', hr'⟩
          · exact .inl ⟨ihl hl hl', ihr hr hr'⟩
          · exact .inr ⟨hsymmetric, ihl hl hl', ihr hr hr'⟩
        · rcases hsecond with ⟨hl', hr'⟩ | ⟨-, hl', hr'⟩
          · exact .inr ⟨hsymmetric, ihl hl hr', ihr hr hl'⟩
          · exact .inl ⟨ihl hl hr', ihr hr hl'⟩
      | _ => cases h'
    | _ => cases h

end

/-! ## Rearrangements -/

/-- One change at one place: the operands of an operator for which their order does not matter are
swapped, or a literal is replaced by one that stands for the same number. -/
inductive Rearranges : Expr → Expr → Prop
  | literal {v w : Literal} {x : Rat} : v.toRat? = some x → w.toRat? = some x →
      Rearranges (number v) (number w)
  | operands {op : Operator} {l r : Expr} : op = plus ∨ op = times ∨ op = equals →
      Rearranges (binary op l r) (binary op r l)
  | argument {f : String} {a a' : Expr} : Rearranges a a' → Rearranges (call f a) (call f a')
  | left {op : Operator} {l l' r : Expr} : Rearranges l l' →
      Rearranges (binary op l r) (binary op l' r)
  | right {op : Operator} {l r r' : Expr} : Rearranges r r' →
      Rearranges (binary op l r) (binary op l r')

theorem Operator.isSymmetric_iff : op.isSymmetric ↔ op = plus ∨ op = times ∨ op = equals := by
  cases op <;> simp [isSymmetric]

theorem Rearranges.sameUpToOrder (h : Rearranges e e') (he : e.AllLiterals (· ≠ .double .nan)) :
    e.sameUpToOrder e' := by
  induction h with
  | literal hv hw => exact Literal.sameValue_iff.mpr (.inl ⟨_, hv, hw⟩)
  | operands hop =>
    exact sameUpToOrder_binary.mpr
      ⟨rfl, .inr ⟨isSymmetric_iff.mpr hop, sameUpToOrder_refl he.1, sameUpToOrder_refl he.2⟩⟩
  | argument _ ih => exact sameUpToOrder_call.mpr ⟨rfl, ih he⟩
  | left _ ih => exact sameUpToOrder_binary.mpr ⟨rfl, .inl ⟨ih he.1, sameUpToOrder_refl he.2⟩⟩
  | right _ ih => exact sameUpToOrder_binary.mpr ⟨rfl, .inl ⟨sameUpToOrder_refl he.1, ih he.2⟩⟩

theorem Rearranges.not_nan (h : Rearranges e e') (he : e.AllLiterals (· ≠ .double .nan)) :
    e'.AllLiterals (· ≠ .double .nan) := by
  induction h with
  | literal _ hw =>
    rintro rfl
    cases hw
  | operands _ => exact ⟨he.2, he.1⟩
  | argument _ ih => exact ih he
  | left _ ih => exact ⟨ih he.1, he.2⟩
  | right _ ih => exact ⟨he.1, ih he.2⟩

theorem sameUpToOrder_of_rearranged (he : e.AllLiterals (· ≠ .double .nan))
    (h : Relation.ReflTransGen Rearranges e e') : e.sameUpToOrder e' := by
  induction h using Relation.ReflTransGen.head_induction_on with
  | refl => exact sameUpToOrder_refl he
  | head hstep _ ih => exact sameUpToOrder_trans (hstep.sameUpToOrder he) (ih (hstep.not_nan he))

theorem rearranged_binary (op : Operator) (hl : Relation.ReflTransGen Rearranges l l')
    (hr : Relation.ReflTransGen Rearranges r r') :
    Relation.ReflTransGen Rearranges (binary op l r) (binary op l' r') := by
  apply Relation.ReflTransGen.trans
  · exact hl.lift (binary op · r) fun _ _ h => .left h
  · exact hr.lift (binary op l' ·) fun _ _ h => .right h

/-- Operands that agree crosswise are brought to their forms first and swapped then. -/
theorem rearranged_of_sameUpToOrder (h : e.sameUpToOrder e') :
    Relation.ReflTransGen Rearranges e e' := by
  induction e generalizing e' with
  | empty => cases e' <;> first | exact .refl | cases h
  | number v =>
    cases e' with
    | number w =>
      rcases Literal.sameValue_iff.mp h with ⟨x, hv, hw⟩ | ⟨negative, rfl, rfl⟩
      · exact .single (.literal hv hw)
      · exact .refl
    | _ => cases h
  | var x =>
    cases e' with
    | var y =>
      obtain rfl : x = y := by simpa [sameUpToOrder] using h
      exact .refl
    | _ => cases h
  | call f a ih =>
    cases e' with
    | call g b =>
      obtain ⟨rfl, ha⟩ := sameUpToOrder_call.mp h
      exact (ih ha).lift (call f) fun _ _ h => .argument h
    | _ => cases h
  | binary op l r ihl ihr =>
    cases e' with
    | binary op' l' r' =>
      obtain ⟨rfl, ⟨hl, hr⟩ | ⟨hsymmetric, hl, hr⟩⟩ := sameUpToOrder_binary.mp h
      · exact rearranged_binary op (ihl hl) (ihr hr)
      · exact (rearranged_binary op (ihl hl) (ihr hr)).tail
          (.operands (isSymmetric_iff.mp hsymmetric))
    | _ => cases h

/-- Comparing expressions up to the order of operands is an equivalence, where no literal is a NaN,
and goes through calls and operators. Two expressions are the same up to order if and only if
finitely many rearrangements lead from one to the other. -/
theorem sameUpToOrder_iff_rearranges :
    (∀ e : Expr, e.AllLiterals (· ≠ .double .nan) → e.sameUpToOrder e) ∧
      (∀ e e' : Expr, e.sameUpToOrder e' → e'.sameUpToOrder e) ∧
      (∀ e e' e'' : Expr, e.sameUpToOrder e' → e'.sameUpToOrder e'' → e.sameUpToOrder e'') ∧
      (∀ (f : String) (a b : Expr), a.sameUpToOrder b → (call f a).sameUpToOrder (call f b)) ∧
      (∀ (op : Operator) (l l' r r' : Expr), l.sameUpToOrder l' → r.sameUpToOrder r' →
        (binary op l r).sameUpToOrder (binary op l' r')) ∧
      ∀ e e' : Expr, e.AllLiterals (· ≠ .double .nan) →
        (e.sameUpToOrder e' ↔ Relation.ReflTransGen Rearranges e e') := by
  refine ⟨fun e => sameUpToOrder_refl, fun e e' => sameUpToOrder_symm,
    fun e e' e'' => sameUpToOrder_trans, ?_, ?_, ?_⟩
  · intro f a b h
    exact sameUpToOrder_call.mpr ⟨rfl, h⟩
  · intro op l l' r r' hl hr
    exact sameUpToOrder_binary.mpr ⟨rfl, .inl ⟨hl, hr⟩⟩
  · intro e e' he
    exact ⟨rearranged_of_sameUpToOrder, sameUpToOrder_of_rearranged he⟩

/-- `x 2 + 1`. -/
def shiftedDouble : Expr := binary plus (binary times (var "x") (int 2)) (int 1)

/-- `1. + 2 x`, with a double for the integer. -/
def turnedDouble : Expr :=
  binary plus (number (.double (Double.nearest false 1))) (binary times (int 2) (var "x"))

theorem shiftedDouble_rearranges :
    shiftedDouble.AllLiterals (· ≠ .double .nan) ∧ shiftedDouble.sameUpToOrder shiftedDouble ∧
      shiftedDouble.sameUpToOrder turnedDouble ∧ turnedDouble.sameUpToOrder shiftedDouble ∧
      turnedDouble.sameUpToOrder turnedDouble ∧
      (binary minus (call "sin" shiftedDouble) shiftedDouble).sameUpToOrder
        (binary minus (call "sin" turnedDouble) turnedDouble) ∧
      Relation.ReflTransGen Rearranges shiftedDouble turnedDouble ∧
      ¬Relation.ReflTransGen Rearranges (binary minus (var "x") (int 1))
        (binary minus (int 1) (var "x")) := by
  obtain ⟨hrefl, hsymm, htrans, hcall, hbinary, hiff⟩ := sameUpToOrder_iff_rearranges
  have hnumbers : shiftedDouble.AllLiterals (· ≠ .double .nan) := by decide
  have hsame : shiftedDouble.sameUpToOrder turnedDouble := by decide +kernel
  have hback := hsymm _ _ hsame
  refine ⟨hnumbers, hrefl _ hnumbers, hsame, hback, htrans _ _ _ hback hsame,
    hbinary minus _ _ _ _ (hcall "sin" _ _ hsame) hsame, (hiff _ _ hnumbers).mp hsame, ?_⟩
  intro hrearranges
  have hdifference := (hiff _ _ (by decide)).mpr hrearranges
  exact absurd hdifference (by decide)

end Locus
