import Locus.Proofs.Expr.Nodes
import Locus.Proofs.Simplify.Rewriting

/-! The nodes of an expression along simplification. Rewriting moves and copies nodes, drops some of
them, and makes new ones only of operators and of what it folds; so what holds of all nodes holds after
a rewrite if it does of what is folded (`Rewrites.allHeads_of_fold`). -/

namespace Locus
set_option autoImplicit false

open Locus.Expr Locus.Operator

/-- A property of nodes that exponents keep when powers are merged. -/
structure ExponentsKeep (P : Head → Prop) : Prop where
  one : P (.number (.int 1))
  sum : ∀ {a b : Literal} {e : Expr}, P (.number a) → P (.number b) →
    foldConstants (binary plus (number a) (number b)) = .ok (some e) → e.AllHeads P

section

variable {P : Head → Prop} (hP : ExponentsKeep P) {e e' : Expr}

include hP

theorem allHeads_splitPower (h : e.AllHeads P) :
    (splitPower e).1.AllHeads P ∧ (splitPower e).2.AllHeads P := by
  rcases splitPower_cases e with he | ⟨he, -⟩
  · rw [he] at h
    exact h
  · rw [he]
    exact ⟨h, hP.one⟩

theorem Merges.allHeads {first second merged : Expr} (h : Merges first second merged)
    (hfirst : first.AllHeads P) (hsecond : second.AllHeads P) : merged.AllHeads P := by
  obtain ⟨-, -, x, hx, rfl⟩ := h
  obtain ⟨hbase, hm⟩ := allHeads_splitPower hP hfirst
  have hn := (allHeads_splitPower hP hsecond).2
  refine ⟨hbase, ?_⟩
  obtain ⟨a, b, ha, hb, hfold⟩ | ⟨-, rfl⟩ := addExponents_cases hx
  · rw [ha] at hm
    rw [hb] at hn
    exact hP.sum hm hn hfold
  · exact ⟨hm, hn⟩

theorem Contracts.allHeads (h : Contracts e e') (he : e.AllHeads P)
    (hfold : ∀ {folded}, foldConstants e = .ok (some folded) → folded.AllHeads P) :
    e'.AllHeads P := by
  cases h with
  | fold _ folds => exact hfold folds
  | oneTimes | zeroPlus => exact he.2
  | timesOne | plusZero | minusZero | divideOne | powerOne => exact he.1
  | timesRatios => exact ⟨⟨he.1.1, he.2.1⟩, he.1.2, he.2.2⟩
  | addRatios =>
    unfold joinRatios
    split
    · exact ⟨⟨he.1.1, he.2.1⟩, he.1.2⟩
    · exact ⟨⟨⟨he.1.1, he.2.2⟩, he.2.1, he.1.2⟩, he.1.2, he.2.2⟩
  | merge merges => exact merges.allHeads hP he.1 he.2
  | mergeOuter merges => exact ⟨he.1.1, merges.allHeads hP he.1.2 he.2⟩
  | mergeInner merges => exact ⟨merges.allHeads hP he.1.1 he.2, he.1.2⟩
  | order => exact ⟨he.2, he.1⟩

/-- A rewrite keeps what holds of all nodes if folding does on the expression at hand. -/
theorem Rewrites.allHeads_of_fold (h : Rewrites e e') (he : e.AllHeads P)
    (hfold : ∀ {part folded}, part.IsPart e →
      foldConstants part = .ok (some folded) → folded.AllHeads P) : e'.AllHeads P := by
  induction h with
  | here h => exact h.allHeads hP he (hfold .self)
  | argument _ ih => exact ⟨he.1, ih he.2 fun hpart => hfold hpart.argument⟩
  | left _ ih => exact ⟨ih he.1 fun hpart => hfold hpart.left, he.2⟩
  | right _ ih => exact ⟨he.1, ih he.2 fun hpart => hfold hpart.right⟩

end

end Locus
