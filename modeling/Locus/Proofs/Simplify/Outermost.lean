import Mathlib.Data.List.Basic
import Locus.Proofs.Simplify.Literals

/-! Where a step rewrites. A place is the way from an expression to one of its parts; the places of an
expression are ordered so that an expression comes before its parts and the left part before the
right. Whatever the rules are, a step replaces what stands at the first place at which one of them
applies, by what the first such rule gives, and leaves all other places as they were
(`step_rewrites_first_place`). -/

namespace Locus
set_option autoImplicit false

open Locus.Expr Locus.Operator

/-! ## Places -/

inductive Turn where
  | argument
  | left
  | right
deriving DecidableEq, Repr

abbrev Place : Type := List Turn

namespace Expr

def child? : Expr → Turn → Option Expr
  | call _ a, .argument => some a
  | binary _ l _, .left => some l
  | binary _ _ r, .right => some r
  | _, _ => none

def part? (e : Expr) : Place → Option Expr
  | [] => some e
  | t :: p => (e.child? t).bind fun c => c.part? p

/-- The places of an expression: the expression itself, then those in its argument, or those in its
left part and then those in its right part. -/
def places : Expr → List Place
  | call _ a => [] :: a.places.map (.argument :: ·)
  | binary _ l r => [] :: (l.places.map (.left :: ·) ++ r.places.map (.right :: ·))
  | _ => [[]]

end Expr

variable {e e' c c' part new : Expr} {t : Turn} {p q : Place} {rules : List Rule}

theorem part?_cons (hchild : e.child? t = some c) (p : Place) : e.part? (t :: p) = c.part? p := by
  rw [part?, hchild, Option.bind_some]

theorem part?_append (e : Expr) (p q : Place) :
    e.part? (p ++ q) = (e.part? p).bind fun part => part.part? q := by
  induction p generalizing e with
  | nil => rfl
  | cons t p ih => simp [part?, ih, Option.bind_assoc]

/-- An expression has a part at each of its places and nowhere else. -/
theorem mem_places_iff : p ∈ e.places ↔ (e.part? p).isSome := by
  induction e generalizing p with
  | call f a ih =>
    cases p with
    | nil => simp [places, part?]
    | cons t p => cases t <;> simp [places, part?, child?, ih]
  | binary op l r ihl ihr =>
    cases p with
    | nil => simp [places, part?]
    | cons t p => cases t <;> simp [places, part?, child?, ihl, ihr]
  | _ =>
    cases p with
    | nil => simp [places, part?]
    | cons t p => cases t <;> simp [places, part?, child?]

/-- Expressions with the same heads at the same places are equal. -/
theorem eq_of_heads (h : ∀ q, (e.part? q).map head = (e'.part? q).map head) : e = e' := by
  have hhead : e.head = e'.head := Option.some.inj (h [])
  induction e generalizing e' with
  | call f a ih =>
    cases e' with
    | call g b =>
      obtain rfl := Head.call.inj hhead
      have hargument : ∀ q, (a.part? q).map head = (b.part? q).map head := fun q => h (.argument :: q)
      rw [ih hargument (Option.some.inj (hargument []))]
    | _ => cases hhead
  | binary op l r ihl ihr =>
    cases e' with
    | binary op' l' r' =>
      obtain rfl := Head.binary.inj hhead
      have hleft : ∀ q, (l.part? q).map head = (l'.part? q).map head := fun q => h (.left :: q)
      have hright : ∀ q, (r.part? q).map head = (r'.part? q).map head := fun q => h (.right :: q)
      rw [ihl hleft (Option.some.inj (hleft [])), ihr hright (Option.some.inj (hright []))]
    | _ => cases hhead
  | _ =>
    cases e' <;> cases hhead
    rfl

/-! ## Replacements -/

/-- One expression comes from another by a replacement at a place. At every other place, those in the
part that was replaced apart, there is what was there before. -/
structure ReplacedAt (p : Place) (new e e' : Expr) : Prop where
  isPlace : p ∈ e.places
  inside : e'.part? p = some new
  outside : ∀ q, ¬p <+: q → (e'.part? q).map head = (e.part? q).map head

theorem ReplacedAt.root (e new : Expr) : ReplacedAt [] new e new where
  isPlace := mem_places_iff.mpr rfl
  inside := rfl
  outside _ h := absurd List.nil_prefix h

/-- A replacement in one part of an expression, where its head and its other parts stay. -/
theorem ReplacedAt.child (h : ReplacedAt p new c c') (hchild : e.child? t = some c)
    (hchild' : e'.child? t = some c') (hhead : e'.head = e.head)
    (hothers : ∀ u, u ≠ t → e'.child? u = e.child? u) : ReplacedAt (t :: p) new e e' where
  isPlace := by
    rw [mem_places_iff, part?_cons hchild]
    exact mem_places_iff.mp h.isPlace
  inside := (part?_cons hchild' p).trans h.inside
  outside q hq := by
    cases q with
    | nil => exact congrArg some hhead
    | cons u q =>
      by_cases hu : u = t
      · subst hu
        rw [part?_cons hchild, part?_cons hchild']
        exact h.outside q fun hprefix => hq (List.cons_prefix_cons.mpr ⟨rfl, hprefix⟩)
      · rw [part?, part?, hothers u hu]

/-- A replacement determines the whole expression. -/
theorem ReplacedAt.unique {e₁ e₂ : Expr} (h₁ : ReplacedAt p new e e₁) (h₂ : ReplacedAt p new e e₂) :
    e₁ = e₂ := by
  refine eq_of_heads fun q => ?_
  by_cases hq : p <+: q
  · obtain ⟨r, rfl⟩ := hq
    rw [part?_append, part?_append, h₁.inside, h₂.inside]
  · rw [h₁.outside q hq, h₂.outside q hq]

/-! ## Rules -/

/-- No rule applies to an expression. -/
def Declined (rules : List Rule) (e : Expr) : Prop := ∀ rule ∈ rules, rule e = .ok none

/-- What the first rule of a list that applies to an expression makes of it. -/
def FirstGives (rules : List Rule) (e new : Expr) : Prop :=
  ∃ earlier rule later, rules = earlier ++ rule :: later ∧ Declined earlier e ∧
    rule e = .ok (some new)

theorem applyFirst_of_declined (h : Declined rules e) : applyFirst rules e = .ok none := by
  induction rules with
  | nil => rfl
  | cons rule rest ih =>
    rw [applyFirst, h rule List.mem_cons_self]
    exact ih fun rule' hmem => h rule' (List.mem_cons_of_mem _ hmem)

theorem declined_or_firstGives (h : ∀ rule ∈ rules, ∃ r, rule e = .ok r) :
    Declined rules e ∨ ∃ new, FirstGives rules e new := by
  induction rules with
  | nil => exact .inl fun _ hmem => (nomatch hmem)
  | cons rule rest ih =>
    obtain ⟨hrule, hrest⟩ := List.forall_mem_cons.mp h
    obtain ⟨r, hr⟩ := hrule
    cases r with
    | some new => exact .inr ⟨new, [], rule, rest, rfl, fun _ hmem => (nomatch hmem), hr⟩
    | none =>
      rcases ih hrest with hdeclined | ⟨new, earlier, rule', later, rfl, hearlier, hrule'⟩
      · exact .inl (List.forall_mem_cons.mpr ⟨hr, hdeclined⟩)
      · exact .inr ⟨new, rule :: earlier, rule', later, rfl,
          List.forall_mem_cons.mpr ⟨hr, hearlier⟩, hrule'⟩

theorem FirstGives.not_declined (h : FirstGives rules e new) : ¬Declined rules e := by
  obtain ⟨earlier, rule, later, rfl, -, hrule⟩ := h
  intro hdeclined
  have hnone := hdeclined rule (by simp)
  rw [hrule] at hnone
  cases hnone

theorem applyFirst_of_firstGives (h : FirstGives rules e new) :
    applyFirst rules e = .ok (some new) := by
  obtain ⟨earlier, rule, later, rfl, hearlier, hrule⟩ := h
  induction earlier with
  | nil => rw [List.nil_append, applyFirst, hrule]
  | cons first rest ih =>
    obtain ⟨hfirst, hrest⟩ := List.forall_mem_cons.mp hearlier
    rw [List.cons_append, applyFirst, hfirst]
    exact ih hrest

/-! ## The first place -/

/-- No rule applies at any of these places. -/
def DeclinedAt (rules : List Rule) (e : Expr) (places : List Place) : Prop :=
  ∀ p ∈ places, ∀ part, e.part? p = some part → Declined rules part

/-- One expression comes from another by a replacement at the first place at which a rule applies. The
first rule that applies there gives the replacement. -/
def RewritesFirstPlace (rules : List Rule) (e e' : Expr) : Prop :=
  ∃ before p after part new, e.places = before ++ p :: after ∧ DeclinedAt rules e before ∧
    e.part? p = some part ∧ FirstGives rules part new ∧ ReplacedAt p new e e'

theorem places_eq_cons (e : Expr) : ∃ rest, e.places = [] :: rest := by
  cases e <;> exact ⟨_, rfl⟩

theorem FirstGives.rewritesFirstPlace (h : FirstGives rules e new) :
    RewritesFirstPlace rules e new := by
  obtain ⟨rest, hplaces⟩ := places_eq_cons e
  exact ⟨[], [], rest, e, new, hplaces, fun _ hmem => (nomatch hmem), rfl, h, .root e new⟩

theorem DeclinedAt.map (hchild : e.child? t = some c) {places : List Place}
    (h : DeclinedAt rules c places) : DeclinedAt rules e (places.map (t :: ·)) := by
  intro p hp part hpart
  obtain ⟨q, hq, rfl⟩ := List.mem_map.mp hp
  rw [part?_cons hchild] at hpart
  exact h q hq part hpart

theorem DeclinedAt.append {before after : List Place} (hbefore : DeclinedAt rules e before)
    (hafter : DeclinedAt rules e after) : DeclinedAt rules e (before ++ after) := fun p hp =>
  (List.mem_append.mp hp).elim (hbefore p) (hafter p)

theorem declinedAt_root (h : Declined rules e) : DeclinedAt rules e [[]] := by
  intro p hp part hpart
  obtain rfl := List.mem_singleton.mp hp
  obtain rfl := Option.some.inj hpart
  exact h

/-- The first place in one part is the first one of the whole if no rule applies at the places before
those of this part. -/
theorem RewritesFirstPlace.child (h : RewritesFirstPlace rules c c') (hchild : e.child? t = some c)
    (hchild' : e'.child? t = some c') (hhead : e'.head = e.head)
    (hothers : ∀ u, u ≠ t → e'.child? u = e.child? u) {earlier later : List Place}
    (hplaces : e.places = earlier ++ (c.places.map (t :: ·) ++ later))
    (hearlier : DeclinedAt rules e earlier) : RewritesFirstPlace rules e e' := by
  obtain ⟨before, p, after, part, new, hsplit, hbefore, hpart, hgives, hreplaced⟩ := h
  refine ⟨earlier ++ before.map (t :: ·), t :: p, after.map (t :: ·) ++ later, part, new, ?_,
    hearlier.append (hbefore.map hchild), (part?_cons hchild p).trans hpart, hgives,
    hreplaced.child hchild hchild' hhead hothers⟩
  rw [hplaces, hsplit]
  simp

theorem RewritesFirstPlace.argument {f : String} {a a' : Expr} (h : RewritesFirstPlace rules a a')
    (hroot : Declined rules (call f a)) : RewritesFirstPlace rules (call f a) (call f a') := by
  have hplaces : (call f a).places = [[]] ++ (a.places.map (.argument :: ·) ++ []) := by
    rw [List.append_nil]
    rfl
  refine h.child (t := .argument) rfl rfl rfl (fun u hu => ?_) hplaces (declinedAt_root hroot)
  cases u with
  | argument => exact absurd rfl hu
  | left | right => rfl

section

variable {op : Operator} {l l' r r' : Expr}

theorem RewritesFirstPlace.left (h : RewritesFirstPlace rules l l')
    (hroot : Declined rules (binary op l r)) :
    RewritesFirstPlace rules (binary op l r) (binary op l' r) := by
  refine h.child (t := .left) rfl rfl rfl (fun u hu => ?_) rfl (declinedAt_root hroot)
  cases u with
  | left => exact absurd rfl hu
  | argument | right => rfl

theorem RewritesFirstPlace.right (h : RewritesFirstPlace rules r r')
    (hroot : Declined rules (binary op l r)) (hleft : DeclinedAt rules l l.places) :
    RewritesFirstPlace rules (binary op l r) (binary op l r') := by
  have hbefore : DeclinedAt rules (binary op l r) ([[]] ++ l.places.map (.left :: ·)) :=
    (declinedAt_root hroot).append (hleft.map rfl)
  have hplaces : (binary op l r).places
      = [[]] ++ l.places.map (.left :: ·) ++ (r.places.map (.right :: ·) ++ []) := by
    rw [List.append_nil]
    rfl
  refine h.child (t := .right) rfl rfl rfl (fun u hu => ?_) hplaces hbefore
  cases u with
  | right => exact absurd rfl hu
  | argument | left => rfl

end

theorem RewritesFirstPlace.not_declinedAt (h : RewritesFirstPlace rules e e') :
    ¬DeclinedAt rules e e.places := by
  obtain ⟨before, p, after, part, new, hplaces, -, hpart, hgives, -⟩ := h
  intro hdeclined
  exact hgives.not_declined (hdeclined p (by simp [hplaces]) part hpart)

/-- There is only one first place, one first rule at it and one replacement. -/
theorem RewritesFirstPlace.unique {e₁ e₂ : Expr} (h₁ : RewritesFirstPlace rules e e₁)
    (h₂ : RewritesFirstPlace rules e e₂) : e₁ = e₂ := by
  obtain ⟨before₁, p₁, after₁, part₁, new₁, hplaces₁, hbefore₁, hpart₁, hgives₁, hreplaced₁⟩ := h₁
  obtain ⟨before₂, p₂, after₂, part₂, new₂, hplaces₂, hbefore₂, hpart₂, hgives₂, hreplaced₂⟩ := h₂
  have hsame : p₁ = p₂ := by
    rcases List.append_eq_append_iff.mp (hplaces₁.symm.trans hplaces₂) with
      ⟨between, hbefore, hafter⟩ | ⟨between, hbefore, hafter⟩
    · cases between with
      | nil => exact (List.cons.inj hafter).1
      | cons q between =>
        obtain rfl := (List.cons.inj hafter).1
        exact absurd (hbefore₂ p₁ (by simp [hbefore]) part₁ hpart₁) hgives₁.not_declined
    · cases between with
      | nil => exact (List.cons.inj hafter).1.symm
      | cons q between =>
        obtain rfl := (List.cons.inj hafter).1
        exact absurd (hbefore₁ p₂ (by simp [hbefore]) part₂ hpart₂) hgives₂.not_declined
  subst hsame
  obtain rfl := Option.some.inj (hpart₁.symm.trans hpart₂)
  have hnew := (applyFirst_of_firstGives hgives₁).symm.trans (applyFirst_of_firstGives hgives₂)
  obtain rfl := Option.some.inj (Except.ok.inj hnew)
  exact hreplaced₁.unique hreplaced₂

/-! ## Steps -/

/-- The rules fail nowhere in an expression. -/
def Succeeds (rules : List Rule) (e : Expr) : Prop :=
  ∀ p part, e.part? p = some part → ∀ rule ∈ rules, ∃ r, rule part = .ok r

theorem Succeeds.child (h : Succeeds rules e) (hchild : e.child? t = some c) : Succeeds rules c :=
  fun p part hpart => h (t :: p) part ((part?_cons hchild p).trans hpart)

theorem step_of_firstGives (h : FirstGives rules e new) : step rules e = .ok (some new) := by
  have hfirst := applyFirst_of_firstGives h
  cases e with
  | call f a => rw [step, hfirst]; rfl
  | binary op l r => rw [step, hfirst]; rfl
  | _ => exact hfirst

/-- A step finds the first place at which a rule applies, if there is one. -/
theorem step_cases (h : Succeeds rules e) :
    (step rules e = .ok none ∧ DeclinedAt rules e e.places) ∨
      ∃ e', step rules e = .ok (some e') ∧ RewritesFirstPlace rules e e' := by
  induction e with
  | call f a ih =>
    rcases declined_or_firstGives (h [] _ rfl) with hroot | ⟨new, hgives⟩
    · rw [step, applyFirst_of_declined hroot, ok_bind]
      dsimp only
      rcases ih (h.child (t := .argument) rfl) with ⟨hstep, hnone⟩ | ⟨a', hstep, hfirst⟩
      · rw [hstep]
        exact .inl ⟨rfl, (declinedAt_root hroot).append (hnone.map rfl)⟩
      · rw [hstep]
        exact .inr ⟨_, rfl, hfirst.argument hroot⟩
    · exact .inr ⟨new, step_of_firstGives hgives, hgives.rewritesFirstPlace⟩
  | binary op l r ihl ihr =>
    rcases declined_or_firstGives (h [] _ rfl) with hroot | ⟨new, hgives⟩
    · rw [step, applyFirst_of_declined hroot, ok_bind]
      dsimp only
      rcases ihl (h.child (t := .left) rfl) with ⟨hstep, hleft⟩ | ⟨l', hstep, hfirst⟩
      · rw [hstep, ok_bind]
        dsimp only
        rcases ihr (h.child (t := .right) rfl) with ⟨hstep, hright⟩ | ⟨r', hstep, hfirst⟩
        · rw [hstep]
          exact .inl ⟨rfl, ((declinedAt_root hroot).append (hleft.map rfl)).append (hright.map rfl)⟩
        · rw [hstep]
          exact .inr ⟨_, rfl, hfirst.right hroot hleft⟩
      · rw [hstep]
        exact .inr ⟨_, rfl, hfirst.left hroot⟩
    · exact .inr ⟨new, step_of_firstGives hgives, hgives.rewritesFirstPlace⟩
  | _ =>
    rcases declined_or_firstGives (h [] _ rfl) with hroot | ⟨new, hgives⟩
    · exact .inl ⟨applyFirst_of_declined hroot, declinedAt_root hroot⟩
    · exact .inr ⟨new, step_of_firstGives hgives, hgives.rewritesFirstPlace⟩

theorem simplify_one {r : Option Expr} (h : step rules e = .ok r) :
    simplify rules 1 e = .ok (r.getD e) := by
  rw [simplify, h]
  cases r <;> rfl

/-- One step is one rewrite, at the leftmost outermost place. Where no rule fails, a step finds
nothing to do if and only if no rule applies at any place, and then leaves the expression as it is.
Otherwise it replaces what stands at the first place at which a rule applies, by what the first such
rule gives, and nothing else. -/
theorem step_rewrites_first_place (rules : List Rule) (e : Expr) (h : Succeeds rules e) :
    ∃ r, step rules e = .ok r ∧ simplify rules 1 e = .ok (r.getD e) ∧
      (r = none ↔ DeclinedAt rules e e.places) ∧
      ∀ e', r = some e' ↔ RewritesFirstPlace rules e e' := by
  rcases step_cases h with ⟨hstep, hnone⟩ | ⟨e₁, hstep, hfirst⟩
  · refine ⟨none, hstep, simplify_one hstep, iff_of_true rfl hnone, fun e' => ?_⟩
    exact iff_of_false (by simp) fun hfirst => hfirst.not_declinedAt hnone
  · refine ⟨some e₁, hstep, simplify_one hstep, iff_of_false (by simp) hfirst.not_declinedAt,
      fun e' => ⟨fun heq => ?_, fun hfirst' => ?_⟩⟩
    · exact Option.some.inj heq ▸ hfirst
    · exact congrArg some (hfirst.unique hfirst')

/-! ## The standard rules -/

theorem allLiterals_of_part? {P : Literal → Prop} (he : e.AllLiterals P)
    (hpart : e.part? p = some part) : part.AllLiterals P := by
  induction p generalizing e with
  | nil => exact Option.some.inj hpart ▸ he
  | cons t p ih =>
    obtain ⟨c, hchild, hpart⟩ := Option.bind_eq_some_iff.mp hpart
    refine ih ?_ hpart
    cases e with
    | call f a => cases t <;> cases hchild; exact he
    | binary op l r =>
      cases t <;> cases hchild
      · exact he.1
      · exact he.2
    | _ => cases hchild

/-- Standard rules, in any order, fail nowhere in an expression with finite literals. -/
theorem succeeds_of_finite (hrules : rules ⊆ standardRules)
    (he : e.AllLiterals Literal.IsFinite) : Succeeds rules e := fun _ _ hpart _ hrule =>
  rule_isOk finite_foldClosed (hrules hrule) (allLiterals_of_part? he hpart)

/-- `cos(x (2 + 3)) / (y 2)`, where rules apply in both parts. -/
def shuffledQuotient (sum : Expr) : Expr :=
  binary divide (call "cos" (binary times (var "x") sum)) (binary times (var "y") (int 2))

/-- The sum inside of the call comes before the product on the right. -/
theorem shuffledQuotient_rewrites_first_place :
    Succeeds [orderCoefficients, foldConstants] (shuffledQuotient (binary plus (int 2) (int 3))) ∧
      RewritesFirstPlace [orderCoefficients, foldConstants]
        (shuffledQuotient (binary plus (int 2) (int 3))) (shuffledQuotient (int 5)) := by
  have hsucceeds : Succeeds [orderCoefficients, foldConstants]
      (shuffledQuotient (binary plus (int 2) (int 3))) := by
    refine succeeds_of_finite (fun rule hrule => ?_) ⟨⟨trivial, trivial, trivial⟩, trivial, trivial⟩
    simp only [List.mem_cons, List.not_mem_nil, or_false] at hrule
    rcases hrule with rfl | rfl <;> simp [standardRules, catalogue]
  obtain ⟨r, hstep, -, -, hfirst⟩ := step_rewrites_first_place _ _ hsucceeds
  have hstep' : step [orderCoefficients, foldConstants]
      (shuffledQuotient (binary plus (int 2) (int 3))) = .ok (some (shuffledQuotient (int 5))) := by
    decide +kernel
  exact ⟨hsucceeds, (hfirst _).mp (Except.ok.inj (hstep.symm.trans hstep'))⟩

end Locus
