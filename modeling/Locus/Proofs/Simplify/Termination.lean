import Mathlib
import Locus.Proofs.Simplify.Weight

/-! Termination of simplification. The weights of an expression, level by level, and then its
untidiness fall lexicographically with every rewrite. Rewrites add no level, so this order is well
founded along a run, and simplification settles after finitely many steps. -/

namespace Locus
set_option autoImplicit false

open Locus.Expr Locus.Operator

/-! ## The measure -/

/-- The weights at the levels up to `d`, the lowest one first, and the untidiness. -/
def Expr.profile (d : Nat) (e : Expr) : Lex (Lex (Fin (d + 1) → Nat) × Nat) :=
  toLex (toLex fun level => e.weight level, e.untidiness)

theorem Lightens.profile_lt {e e' : Expr} (h : Lightens e e') {d : Nat} (hd : e.levels ≤ d) :
    e'.profile d < e.profile d := by
  rw [profile, profile, Prod.Lex.toLex_lt_toLex]
  cases h with
  | fall n below falls =>
    have hn : n < d + 1 := by
      have := le_levels_of_weight_pos (Nat.lt_of_le_of_lt (Nat.zero_le _) falls)
      omega
    exact .inl ⟨⟨n, hn⟩, fun level hlevel => below level hlevel, falls⟩
  | tidy same _ _ tidier =>
    exact .inr ⟨congrArg toLex (funext fun level => same level), tidier⟩

/-! ## No infinite rewriting -/

theorem wellFounded_rewrites_below (d : Nat) :
    WellFounded fun e' e : Expr => e.levels ≤ d ∧ Rewrites e e' :=
  Subrelation.wf (fun h => h.2.lightens.profile_lt h.1) (InvImage.wf (profile d) wellFounded_lt)

theorem wellFounded_rewrites : WellFounded fun e' e : Expr => Rewrites e e' := by
  refine ⟨fun e => ?_⟩
  suffices hbounded : ∀ d, e.levels ≤ d → Acc (fun e' e => Rewrites e e') e from
    hbounded e.levels (Nat.le_refl _)
  intro d hd
  induction (wellFounded_rewrites_below d).apply e with
  | intro e _ ih =>
    exact .intro e fun e' h => ih e' ⟨hd, h⟩ (h.levels_le.trans hd)

/-- Simplification settles. On an expression with finite literals there is no infinite sequence of
steps, and after finitely many of them no rule applies any more, so that further steps do not change
the result. -/
theorem simplification_settles (e : Expr) (he : e.AllLiterals Literal.IsFinite) :
    (¬∃ run : Nat → Expr, run 0 = e ∧
      ∀ n, step standardRules (run n) = .ok (some (run (n + 1)))) ∧
    ∃ n settled, step standardRules settled = .ok none ∧
      ∀ m, n ≤ m → simplify standardRules m e = .ok settled := by
  constructor
  · rintro ⟨run, -, hrun⟩
    exact (wellFounded_iff_isEmpty_descending_chain.mp wellFounded_rewrites).false
      ⟨run, fun n => rewrites_of_step (hrun n)⟩
  · induction wellFounded_rewrites.apply e with
    | intro e _ ih =>
      obtain ⟨r, hr⟩ := step_isOk finite_foldClosed he
      cases r with
      | none => exact ⟨0, e, hr, fun m _ => simplify_of_settled hr m⟩
      | some e' =>
        have hrewrites := rewrites_of_step hr
        obtain ⟨n, settled, hsettled, hlimit⟩ :=
          ih e' hrewrites (hrewrites.allLiterals finite_foldClosed he)
        refine ⟨n + 1, settled, hsettled, fun m hm => ?_⟩
        obtain ⟨m, rfl⟩ : ∃ k, m = k + 1 := ⟨m - 1, by omega⟩
        rw [simplify, hr, ok_bind]
        exact hlimit m (by omega)

/-- `x ^ 2 * x / 3 + x / 1.5`, in which `1.5` is a double. -/
def cubicQuotients : Expr :=
  binary plus
    (binary divide (binary times (binary power (var "x") (int 2)) (var "x")) (int 3))
    (binary divide (var "x") (number (.double (.nearest false 1.5))))

theorem simplification_of_cubicQuotients_settles :
    cubicQuotients.AllLiterals Literal.IsFinite ∧
      (¬∃ run : Nat → Expr, run 0 = cubicQuotients ∧
        ∀ n, step standardRules (run n) = .ok (some (run (n + 1)))) ∧
      ∃ n settled, step standardRules settled = .ok none ∧
        ∀ m, n ≤ m → simplify standardRules m cubicQuotients = .ok settled := by
  have hfinite : cubicQuotients.AllLiterals Literal.IsFinite := by
    refine ⟨⟨⟨⟨trivial, trivial⟩, trivial⟩, trivial⟩, trivial, ?_⟩
    show (Double.nearest false 1.5).isFinite = true
    decide +kernel
  exact ⟨hfinite, simplification_settles _ hfinite⟩

end Locus
