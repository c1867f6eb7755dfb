import Locus.Proofs.Markup.Distinct
import Locus.Proofs.Simplify.Change

/-! Trails settle where simplification does. Following the markup stops early only at an expression
that no rule changes, since every step shows; so a trail ends with the expression that simplification
returns, and is settled if and only if fewer steps were taken than allowed (`trails_settle`). -/

namespace Locus
set_option autoImplicit false

open Locus.Expr Locus.Operator

/-! ## Parts -/

theorem rule_of_applyFirst_none {rules : List Rule} {e : Expr} (h : applyFirst rules e = .ok none) :
    ∀ rule ∈ rules, rule e = .ok none := by
  induction rules with
  | nil => simp
  | cons rule rest ih =>
    rw [applyFirst] at h
    split at h
    · next hrule => exact List.forall_mem_cons.mpr ⟨hrule, ih h⟩
    · next hother => exact absurd h hother

theorem applyFirst_of_step_none {rules : List Rule} {e : Expr} (h : step rules e = .ok none) :
    applyFirst rules e = .ok none := by
  cases e with
  | call f a =>
    obtain ⟨here, hhere, h⟩ := bind_eq_ok.mp h
    cases here with
    | some e' => cases h
    | none => exact hhere
  | binary op l r =>
    obtain ⟨here, hhere, h⟩ := bind_eq_ok.mp h
    cases here with
    | some e' => cases h
    | none => exact hhere
  | _ => exact h

/-- Where no step is left, no rule applies to any part. -/
theorem rule_of_step_none {rules : List Rule} {e part : Expr} (h : step rules e = .ok none)
    (hpart : part.IsPart e) : ∀ rule ∈ rules, rule part = .ok none := by
  induction hpart with
  | self => exact rule_of_applyFirst_none (applyFirst_of_step_none h)
  | argument _ ih =>
    have hhere := applyFirst_of_step_none h
    rw [step, hhere, ok_bind] at h
    obtain ⟨inside, hinside, h⟩ := bind_eq_ok.mp h
    cases inside with
    | some a' => cases h
    | none => exact ih hinside
  | left _ ih =>
    have hhere := applyFirst_of_step_none h
    rw [step, hhere, ok_bind] at h
    obtain ⟨left, hleft, h⟩ := bind_eq_ok.mp h
    cases left with
    | some l' => cases h
    | none => exact ih hleft
  | right _ ih =>
    have hhere := applyFirst_of_step_none h
    rw [step, hhere, ok_bind] at h
    obtain ⟨left, -, h⟩ := bind_eq_ok.mp h
    cases left with
    | some l' => cases h
    | none =>
      obtain ⟨right, hright, h⟩ := bind_eq_ok.mp h
      cases right with
      | some r' => cases h
      | none => exact ih hright

/-! ## Steps show -/

variable {e e' : Expr}

/-- A step changes the markup. -/
theorem render_ne_of_step (hnamed : e.Named) (hfinite : e.AllLiterals Literal.IsFinite)
    (hstep : step standardRules e = .ok (some e')) {markup markup' : String}
    (h : Markup.render standardReserved e = .ok markup)
    (h' : Markup.render standardReserved e' = .ok markup') : markup ≠ markup' := by
  rintro rfl
  have hrewrites := rewrites_of_step hstep
  obtain ⟨t, ht, ht'⟩ := agrees_of_render hnamed hfinite (hrewrites.named hnamed)
    (hrewrites.allLiterals finite_foldClosed hfinite) h h'
  exact hrewrites.not_agrees ht ht'

/-! ## Trails -/

/-- What a trail of at most `n` steps tells: where simplification leads, the markup of what it
passes, and whether it took fewer steps than allowed. -/
structure Trail.Tells (trail : Trail) (n : Nat) (e : Expr) (passed : List Expr) : Prop where
  simplified : simplify standardRules n e = .ok trail.expr
  passes : simplifications standardRules n e = .ok passed
  shows : List.Forall₂ (fun e text => Markup.render standardReserved e = .ok text) passed trail.steps
  settled : trail.settled ↔ passed.length < n
  stops : trail.settled → step standardRules trail.expr = .ok none

/-- Where everything on the way can be rendered, the trail is found and tells the run. -/
theorem exists_tells (hnamed : e.Named) (hfinite : e.AllLiterals Literal.IsFinite) {n : Nat}
    {text : String} (htext : Markup.render standardReserved e = .ok text)
    (hrenders : ∀ k ≤ n, ∀ e', simplify standardRules k e = .ok e' →
      ∃ markup, Markup.render standardReserved e' = .ok markup) :
    ∃ trail passed, follow standardRules (Markup.render standardReserved) n e text = .ok trail ∧
      trail.Tells n e passed := by
  induction n generalizing e text with
  | zero => exact ⟨_, [], rfl, rfl, rfl, .nil, by simp, by simp⟩
  | succ n ih =>
    obtain ⟨r, hstep⟩ := step_isOk finite_foldClosed hfinite
    rw [follow, hstep, ok_bind]
    cases r with
    | none =>
      refine ⟨_, [], rfl, ?_, ?_, .nil, by simp, fun _ => hstep⟩
      · rw [simplify, hstep]
        rfl
      · rw [simplifications, hstep]
        rfl
    | some e' =>
      have hrewrites := rewrites_of_step hstep
      obtain ⟨text', htext'⟩ := hrenders 1 (by omega) e' (simplify_succ 0 hstep)
      have hshows := render_ne_of_step hnamed hfinite hstep htext htext'
      obtain ⟨trail, passed, hfollow, htells⟩ := ih (hrewrites.named hnamed)
        (hrewrites.allLiterals finite_foldClosed hfinite) htext' fun k hk e'' hrun =>
          hrenders (k + 1) (by omega) e'' ((simplify_succ k hstep).trans hrun)
      refine ⟨{ trail with steps := text' :: trail.steps }, e' :: passed, ?_, ?_, ?_, ?_, ?_, ?_⟩
      · dsimp only
        rw [htext', ok_bind, if_neg hshows.symm, hfollow]
        rfl
      · exact (simplify_succ n hstep).trans htells.simplified
      · rw [simplifications, hstep, ok_bind]
        dsimp only
        rw [htells.passes]
        rfl
      · exact .cons htext' htells.shows
      · simpa using htells.settled
      · exact htells.stops

/-- A trail follows simplification to its end. Every step of simplification shows in the markup, so
where all markup on the way exists, the trail ends with the expression that simplification returns;
it is settled if and only if fewer steps fired than were allowed, and then no rule applies to any part
of that expression. -/
theorem trails_settle (e : Expr) (hnamed : e.Named) (hfinite : e.AllLiterals Literal.IsFinite) :
    (∀ e' markup markup', step standardRules e = .ok (some e') →
        Markup.render standardReserved e = .ok markup →
        Markup.render standardReserved e' = .ok markup' → markup ≠ markup') ∧
      ∀ n, (∀ k ≤ n, ∀ e', simplify standardRules k e = .ok e' →
          ∃ markup, Markup.render standardReserved e' = .ok markup) →
        ∃ trail passed, simplifyShown standardRules n e = .ok trail ∧
          simplify standardRules n e = .ok trail.expr ∧
          simplifications standardRules n e = .ok passed ∧
          List.Forall₂ (fun e text => Markup.render standardReserved e = .ok text) (e :: passed)
            trail.steps ∧
          (trail.settled ↔ passed.length < n) ∧
          (trail.settled → ∀ part, part.IsPart trail.expr → ∀ rule ∈ standardRules,
            rule part = .ok none) := by
  constructor
  · intro e' markup markup' hstep
    exact render_ne_of_step hnamed hfinite hstep
  · intro n hrenders
    obtain ⟨text, htext⟩ := hrenders 0 (by omega) e rfl
    obtain ⟨trail, passed, hfollow, htells⟩ := exists_tells hnamed hfinite htext hrenders
    refine ⟨{ trail with steps := text :: trail.steps }, passed, ?_, htells.simplified,
      htells.passes, .cons htext htells.shows, htells.settled, fun hsettled part hpart => ?_⟩
    · rw [simplifyShown, settle, htext, ok_bind, hfollow]
      rfl
    · exact rule_of_step_none (htells.stops hsettled) hpart

/-- `x 2 x`, two steps from `2 x^2`. -/
def scatteredSquare : Expr := binary times (binary times (var "x") (int 2)) (var "x")

theorem trail_of_scatteredSquare_settles :
    scatteredSquare.Named ∧ scatteredSquare.AllLiterals Literal.IsFinite ∧
      (∀ k ≤ 3, ∀ e', simplify standardRules k scatteredSquare = .ok e' →
        ∃ markup, Markup.render standardReserved e' = .ok markup) ∧
      ∃ trail, simplifyShown standardRules 3 scatteredSquare = .ok trail ∧
        trail.expr = binary times (int 2) (binary power (var "x") (int 2)) ∧ trail.settled ∧
        ∀ part, part.IsPart trail.expr → ∀ rule ∈ standardRules, rule part = .ok none := by
  have hx : (var "x").Named := ⟨'x', .inl rfl, rfl⟩
  have hnamed : scatteredSquare.Named := ⟨⟨hx, trivial⟩, hx⟩
  have hfinite : scatteredSquare.AllLiterals Literal.IsFinite := ⟨⟨trivial, trivial⟩, trivial⟩
  have hrun : simplify standardRules 3 scatteredSquare
      = .ok (binary times (int 2) (binary power (var "x") (int 2))) := by decide +kernel
  have hpassed : simplifications standardRules 3 scatteredSquare
      = .ok [binary times (binary power (var "x") (int 2)) (int 2),
        binary times (int 2) (binary power (var "x") (int 2))] := by decide +kernel
  have hrenders : ∀ k ≤ 3, ∀ e', simplify standardRules k scatteredSquare = .ok e' →
      ∃ markup, Markup.render standardReserved e' = .ok markup := by
    have hall : ∀ k < 4, ((simplify standardRules k scatteredSquare).bind
        (Markup.render standardReserved)).isOk := by decide +kernel
    intro k hk e' he'
    have hok := hall k (by omega)
    rw [he'] at hok
    cases hrender : Markup.render standardReserved e' with
    | ok markup => exact ⟨markup, rfl⟩
    | error fault => simp [Except.bind, hrender, Except.isOk, Except.toBool] at hok
  obtain ⟨trail, passed, hshown, hsimplified, hpasses, -, hsettled, hstops⟩ :=
    (trails_settle scatteredSquare hnamed hfinite).2 3 hrenders
  rw [hrun, Except.ok.injEq] at hsimplified
  rw [hpassed, Except.ok.injEq] at hpasses
  have hfewer : trail.settled := hsettled.mpr (by rw [← hpasses]; decide)
  exact ⟨hnamed, hfinite, hrenders, trail, hshown, hsimplified.symm, hfewer, hstops hfewer⟩

end Locus
