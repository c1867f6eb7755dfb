import Mathlib.Data.List.Chain
import Locus.Plot.Basic
import Locus.Proofs.Outcome

/-! Trails under any rules. Following the markup has four ways to go on or to end (`Leads`), and each
keeps the log in step with the expressions: no text twice in a row, the last text that of the
expression returned, and a longer run only adds to it (`trails_cohere`). -/

namespace Locus
set_option autoImplicit false

open Locus.Expr Locus.Operator

/-! ## Ways to go on -/

section

variable {rules : List Rule} {display : Expr → Except NumericFault String}

/-- `Leads rules display n e shown trail`: at most `n` further steps from `e`, whose text `shown` has
been logged, give `trail`. -/
inductive Leads (rules : List Rule) (display : Expr → Except NumericFault String) :
    Nat → Expr → String → Trail → Prop
  | capped {e : Expr} {shown : String} : Leads rules display 0 e shown ⟨e, [], false⟩
  | settled {n : Nat} {e : Expr} {shown : String} :
      step rules e = .ok none → Leads rules display (n + 1) e shown ⟨e, [], true⟩
  | unseen {n : Nat} {e e' : Expr} {shown : String} :
      step rules e = .ok (some e') → display e' = .ok shown →
      Leads rules display (n + 1) e shown ⟨e', [], true⟩
  | seen {n : Nat} {e e' : Expr} {shown text : String} {trail : Trail} :
      step rules e = .ok (some e') → display e' = .ok text → text ≠ shown →
      Leads rules display n e' text trail →
      Leads rules display (n + 1) e shown { trail with steps := text :: trail.steps }

variable {n m : Nat} {e : Expr} {shown : String} {trail longer : Trail}

theorem Leads.follow_eq_ok (h : Leads rules display n e shown trail) :
    follow rules display n e shown = .ok trail := by
  induction h with
  | capped => rfl
  | settled hstep =>
    rw [follow, hstep]
    rfl
  | unseen hstep htext =>
    rw [follow, hstep, ok_bind]
    dsimp only
    rw [htext, ok_bind, if_pos rfl]
    rfl
  | seen hstep htext hne _ ih =>
    rw [follow, hstep, ok_bind]
    dsimp only
    rw [htext, ok_bind, if_neg hne, ih]
    rfl

theorem leads_of_eq_ok (h : follow rules display n e shown = .ok trail) :
    Leads rules display n e shown trail := by
  induction n generalizing e shown trail with
  | zero =>
    cases h
    exact .capped
  | succ n ih =>
    rw [follow] at h
    obtain ⟨next, hstep, h⟩ := bind_eq_ok.mp h
    cases next with
    | none =>
      cases h
      exact .settled hstep
    | some e' =>
      obtain ⟨text, htext, h⟩ := bind_eq_ok.mp h
      split_ifs at h with heq
      · cases h
        exact .unseen hstep (heq ▸ htext)
      · obtain ⟨rest, hrest, h⟩ := bind_eq_ok.mp h
        cases h
        exact .seen hstep htext heq (ih hrest)

theorem follow_eq_ok_iff :
    follow rules display n e shown = .ok trail ↔ Leads rules display n e shown trail :=
  ⟨leads_of_eq_ok, Leads.follow_eq_ok⟩

theorem Leads.unique (h : Leads rules display n e shown trail)
    (h' : Leads rules display n e shown longer) : trail = longer :=
  Except.ok.inj (h.follow_eq_ok.symm.trans h'.follow_eq_ok)

/-! ## One run -/

theorem Leads.length_le (h : Leads rules display n e shown trail) : trail.steps.length ≤ n := by
  induction h with
  | capped => exact le_rfl
  | settled _ | unseen _ _ => exact Nat.zero_le _
  | seen _ _ _ _ ih => exact Nat.succ_le_succ ih

theorem Leads.length_eq (h : Leads rules display n e shown trail) (hcap : trail.settled = false) :
    trail.steps.length = n := by
  induction h with
  | capped => rfl
  | settled _ | unseen _ _ => cases hcap
  | seen _ _ _ _ ih => exact congrArg (· + 1) (ih hcap)

theorem Leads.isChain (h : Leads rules display n e shown trail) :
    (shown :: trail.steps).IsChain (· ≠ ·) := by
  induction h with
  | capped | settled _ | unseen _ _ => exact .singleton _
  | seen _ _ hne _ ih => exact .cons_cons hne.symm ih

/-- The last text is that of the expression where the trail ends, also where the last step did not
show. -/
theorem Leads.getLast?_eq (h : Leads rules display n e shown trail)
    (hshown : display e = .ok shown) :
    ∃ text, display trail.expr = .ok text ∧ (shown :: trail.steps).getLast? = some text := by
  induction h with
  | capped | settled _ => exact ⟨_, hshown, rfl⟩
  | unseen _ htext => exact ⟨_, htext, rfl⟩
  | seen _ htext _ _ ih =>
    obtain ⟨text, hlast, heq⟩ := ih htext
    refine ⟨text, hlast, ?_⟩
    rw [List.getLast?_cons_cons]
    exact heq

/-! ## Two runs -/

/-- A run that settles takes no more steps where more are allowed. -/
theorem Leads.extend (h : Leads rules display n e shown trail) (hsettled : trail.settled)
    (hle : n ≤ m) : Leads rules display m e shown trail := by
  induction h generalizing m with
  | capped => cases hsettled
  | settled hstep =>
    obtain ⟨m, rfl⟩ := Nat.exists_eq_succ_of_ne_zero (Nat.ne_zero_of_lt hle)
    exact .settled hstep
  | unseen hstep htext =>
    obtain ⟨m, rfl⟩ := Nat.exists_eq_succ_of_ne_zero (Nat.ne_zero_of_lt hle)
    exact .unseen hstep htext
  | seen hstep htext hne _ ih =>
    obtain ⟨m, rfl⟩ := Nat.exists_eq_succ_of_ne_zero (Nat.ne_zero_of_lt hle)
    exact .seen hstep htext hne (ih hsettled (Nat.le_of_succ_le_succ hle))

/-- Where a run comes to an end, so does one with fewer steps allowed, and its log is the beginning of
the other. -/
theorem Leads.shorten (h : Leads rules display m e shown longer) (hle : n ≤ m) :
    ∃ trail, Leads rules display n e shown trail ∧ trail.steps <+: longer.steps := by
  induction h generalizing n with
  | capped =>
    obtain rfl := Nat.le_zero.mp hle
    exact ⟨_, .capped, List.prefix_rfl⟩
  | settled hstep =>
    cases n with
    | zero => exact ⟨_, .capped, List.nil_prefix⟩
    | succ n => exact ⟨_, .settled hstep, List.nil_prefix⟩
  | unseen hstep htext =>
    cases n with
    | zero => exact ⟨_, .capped, List.nil_prefix⟩
    | succ n => exact ⟨_, .unseen hstep htext, List.nil_prefix⟩
  | seen hstep htext hne _ ih =>
    cases n with
    | zero => exact ⟨_, .capped, List.nil_prefix⟩
    | succ n =>
      obtain ⟨trail, hleads, hprefix⟩ := ih (Nat.le_of_succ_le_succ hle)
      exact ⟨_, .seen hstep htext hne hleads, List.cons_prefix_cons.mpr ⟨rfl, hprefix⟩⟩

/-! ## From the beginning -/

theorem settle_eq_ok_iff : settle rules display n e = .ok trail ↔
    ∃ shown rest, display e = .ok shown ∧ Leads rules display n e shown rest ∧
      trail = { rest with steps := shown :: rest.steps } := by
  rw [settle]
  constructor
  · intro h
    obtain ⟨shown, hshown, h⟩ := bind_eq_ok.mp h
    obtain ⟨rest, hrest, h⟩ := bind_eq_ok.mp h
    cases h
    exact ⟨shown, rest, hshown, follow_eq_ok_iff.mp hrest, rfl⟩
  · rintro ⟨shown, rest, hshown, hrest, rfl⟩
    rw [hshown, ok_bind, hrest.follow_eq_ok]
    rfl

end

/-- What a trail logs, whatever the rules are. It begins with the markup of the expression and ends
with that of the one returned, has no text twice in a row and at most one more than steps are allowed,
exactly so many if it is not settled. With more steps allowed the log goes on where it ended, and a
settled trail stays as it is. -/
theorem trails_cohere (rules : List Rule) (e : Expr) (n : Nat) (trail : Trail)
    (h : simplifyShown rules n e = .ok trail) :
    (1 ≤ trail.steps.length ∧ trail.steps.length ≤ n + 1) ∧
      (∃ text, Markup.render standardReserved e = .ok text ∧ trail.steps.head? = some text) ∧
      trail.steps.IsChain (· ≠ ·) ∧
      (∃ text, Markup.render standardReserved trail.expr = .ok text ∧
        trail.steps.getLast? = some text) ∧
      (trail.settled = false → trail.steps.length = n + 1) ∧
      (∀ m longer, n ≤ m → simplifyShown rules m e = .ok longer → trail.steps <+: longer.steps) ∧
      (∀ m, n ≤ m → trail.settled → simplifyShown rules m e = .ok trail) := by
  obtain ⟨shown, rest, hshown, hleads, rfl⟩ := settle_eq_ok_iff.mp h
  refine ⟨⟨?_, Nat.succ_le_succ hleads.length_le⟩, ⟨shown, hshown, rfl⟩, hleads.isChain,
    hleads.getLast?_eq hshown, fun hcap => congrArg (· + 1) (hleads.length_eq hcap), ?_, ?_⟩
  · exact Nat.succ_le_succ (Nat.zero_le _)
  · intro m longer hle hlonger
    obtain ⟨shown', rest', hshown', hleads', rfl⟩ := settle_eq_ok_iff.mp hlonger
    obtain rfl := Except.ok.inj (hshown.symm.trans hshown')
    obtain ⟨begun, hbegun, hprefix⟩ := hleads'.shorten hle
    obtain rfl := hleads.unique hbegun
    exact List.cons_prefix_cons.mpr ⟨rfl, hprefix⟩
  · intro m hle hsettled
    exact settle_eq_ok_iff.mpr ⟨shown, rest, hshown, hleads.extend hsettled hle, rfl⟩

/-- `1 + 2 + 3`, two steps from `6`. -/
def chainedSum : Expr := binary plus (binary plus (int 1) (int 2)) (int 3)

theorem trail_of_chainedSum_coheres :
    ∃ first last, simplifyShown standardRules 1 chainedSum = .ok first ∧
      simplifyShown standardRules 3 chainedSum = .ok last ∧
      first.steps = ["1 + 2 + 3", "3 + 3"] ∧ first.settled = false ∧
      first.steps.length = 2 ∧ first.steps <+: last.steps ∧
      last.settled ∧ last.steps.getLast? = some "6" ∧
      simplifyShown standardRules 8 chainedSum = .ok last := by
  have hfirst : simplifyShown standardRules 1 chainedSum
      = .ok ⟨binary plus (int 3) (int 3), ["1 + 2 + 3", "3 + 3"], false⟩ := by decide +kernel
  have hlast : simplifyShown standardRules 3 chainedSum
      = .ok ⟨int 6, ["1 + 2 + 3", "3 + 3", "6"], true⟩ := by decide +kernel
  obtain ⟨-, -, -, -, hcapped, hprefix, -⟩ := trails_cohere standardRules chainedSum 1 _ hfirst
  obtain ⟨-, -, -, -, -, -, hsame⟩ := trails_cohere standardRules chainedSum 3 _ hlast
  exact ⟨_, _, hfirst, hlast, rfl, rfl, hcapped rfl, hprefix 3 _ (by decide) hlast, rfl, rfl,
    hsame 8 (by decide) rfl⟩

end Locus
