import Mathlib
import Locus.Token.Basic

/-! Parentheses and their partners. Tokens pair off if every parenthesis has a partner, with tokens
that pair off between the two (`Paired`). What has been read of a text leaves some parentheses open,
and the next token opens one more, closes the last one or leaves them as they are (`LeavesOpen`). -/

namespace Locus
set_option autoImplicit false

variable {a b tokens : List Token} {t : Token}

/-! ## Pairs -/

/-- Every parenthesis has its partner. -/
inductive Paired : List Token → Prop
  | nil : Paired []
  | skip {t : Token} {rest : List Token} (hopen : t.kind ≠ .openParen)
      (hclose : t.kind ≠ .closeParen) : Paired rest → Paired (t :: rest)
  | pair {start stop : Token} {inner rest : List Token} (hstart : start.kind = .openParen)
      (hstop : stop.kind = .closeParen) : Paired inner → Paired rest →
      Paired (start :: (inner ++ stop :: rest))

/-- A closing parenthesis behind these tokens has its partner among them. -/
def HasOpening (before : List Token) : Prop :=
  ∃ outer start inner, before = outer ++ start :: inner ∧ start.kind = .openParen ∧ Paired inner

/-- An opening parenthesis in front of these tokens has its partner among them. -/
def HasClosing (after : List Token) : Prop :=
  ∃ inner stop outer, after = inner ++ stop :: outer ∧ stop.kind = .closeParen ∧ Paired inner

/-- Every closing parenthesis has its partner. -/
def ClosesPaired (tokens : List Token) : Prop :=
  ∀ before t after, tokens = before ++ t :: after → t.kind = .closeParen → HasOpening before

/-- Every opening parenthesis has its partner. -/
def OpensPaired (tokens : List Token) : Prop :=
  ∀ before t after, tokens = before ++ t :: after → t.kind = .openParen → HasClosing after

/-- The first closing parenthesis that has no partner. -/
def IsFirstUnopened (tokens : List Token) (t : Token) : Prop :=
  ∃ before after, tokens = before ++ t :: after ∧ t.kind = .closeParen ∧ ¬HasOpening before ∧
    ClosesPaired before

/-- The last opening parenthesis that has no partner. -/
def IsLastUnclosed (tokens : List Token) (t : Token) : Prop :=
  ∃ before after, tokens = before ++ t :: after ∧ t.kind = .openParen ∧ ¬HasClosing after ∧
    OpensPaired after

theorem Paired.append (ha : Paired a) (hb : Paired b) : Paired (a ++ b) := by
  induction ha with
  | nil => exact hb
  | skip hopen hclose _ ih => exact .skip hopen hclose ih
  | pair hstart hstop hinner _ _ ih =>
    rw [List.cons_append, List.append_assoc]
    exact .pair hstart hstop hinner ih

/-! ## Depth -/

def Token.nesting (t : Token) : Int :=
  match t.kind with
  | .openParen => 1
  | .closeParen => -1
  | _ => 0

/-- How much deeper in parentheses the end of tokens is than their beginning. -/
def nesting (tokens : List Token) : Int := (tokens.map Token.nesting).sum

theorem nesting_cons (t : Token) (tokens : List Token) :
    nesting (t :: tokens) = t.nesting + nesting tokens := rfl

theorem nesting_append (a b : List Token) : nesting (a ++ b) = nesting a + nesting b := by
  rw [nesting, List.map_append, List.sum_append]
  rfl

theorem Token.nesting_open (h : t.kind = .openParen) : t.nesting = 1 := by rw [nesting, h]

theorem Token.nesting_close (h : t.kind = .closeParen) : t.nesting = -1 := by rw [nesting, h]

theorem Token.nesting_skip (hopen : t.kind ≠ .openParen) (hclose : t.kind ≠ .closeParen) :
    t.nesting = 0 := by
  rw [nesting]
  split <;> first | contradiction | rfl

theorem Paired.nesting_eq (h : Paired tokens) : nesting tokens = 0 := by
  induction h with
  | nil => rfl
  | skip hopen hclose _ ih => rw [nesting_cons, Token.nesting_skip hopen hclose, ih, add_zero]
  | pair hstart hstop _ _ ihi ihr =>
    rw [nesting_cons, nesting_append, nesting_cons, Token.nesting_open hstart,
      Token.nesting_close hstop, ihi, ihr]
    rfl

/-- No beginning of tokens that pair off closes more than it opens. -/
theorem Paired.nesting_prefix (h : Paired tokens) :
    ∀ a b, tokens = a ++ b → 0 ≤ nesting a := by
  induction h with
  | nil =>
    intro a b hab
    rw [(List.append_eq_nil_iff.mp hab.symm).1]
    exact le_rfl
  | skip hopen hclose _ ih =>
    intro a b hab
    rcases List.cons_eq_append_iff.mp hab with ⟨rfl, -⟩ | ⟨a', rfl, hrest⟩
    · exact le_rfl
    · rw [nesting_cons, Token.nesting_skip hopen hclose, zero_add]
      exact ih a' b hrest
  | pair hstart hstop hinner _ ihi ihr =>
    intro a b hab
    rcases List.cons_eq_append_iff.mp hab with ⟨rfl, -⟩ | ⟨a', rfl, hrest⟩
    · exact le_rfl
    rw [nesting_cons, Token.nesting_open hstart]
    rcases List.append_eq_append_iff.mp hrest with ⟨m, rfl, hm⟩ | ⟨m, hm, -⟩
    · rw [nesting_append, hinner.nesting_eq]
      rcases List.cons_eq_append_iff.mp hm with ⟨rfl, -⟩ | ⟨m', rfl, hbehind⟩
      · decide
      · have hnonneg := ihr m' b hbehind
        rw [nesting_cons, Token.nesting_close hstop]
        omega
    · have hnonneg := ihi a' m hm
      omega

theorem Paired.not_hasOpening (h : Paired tokens) : ¬HasOpening tokens := by
  rintro ⟨outer, start, inner, rfl, hstart, hinner⟩
  have hall := h.nesting_eq
  have hprefix := h.nesting_prefix outer _ rfl
  rw [nesting_append, nesting_cons, Token.nesting_open hstart, hinner.nesting_eq] at hall
  omega

theorem Paired.not_hasClosing (h : Paired tokens) : ¬HasClosing tokens := by
  rintro ⟨inner, stop, outer, rfl, hstop, hinner⟩
  have hprefix := h.nesting_prefix (inner ++ [stop]) outer (List.append_cons ..)
  rw [nesting_append, nesting_cons, Token.nesting_close hstop, hinner.nesting_eq] at hprefix
  exact absurd hprefix (by decide)

/-! ## Partners -/

theorem HasOpening.append_left (h : HasOpening b) (a : List Token) : HasOpening (a ++ b) := by
  obtain ⟨outer, start, inner, rfl, hstart, hinner⟩ := h
  exact ⟨a ++ outer, start, inner, (List.append_assoc ..).symm, hstart, hinner⟩

theorem HasClosing.append_right (h : HasClosing a) (b : List Token) : HasClosing (a ++ b) := by
  obtain ⟨inner, stop, outer, rfl, hstop, hinner⟩ := h
  exact ⟨inner, stop, outer ++ b, by simp, hstop, hinner⟩

theorem closesPaired_nil : ClosesPaired [] := fun _ _ _ h => absurd h (by simp)

theorem opensPaired_nil : OpensPaired [] := fun _ _ _ h => absurd h (by simp)

/-- A token of two lists, one behind the other, is in the first or in the second. -/
theorem split_append {before after : List Token} (h : a ++ b = before ++ t :: after) :
    (∃ rest, a = before ++ t :: rest ∧ after = rest ++ b) ∨
      ∃ start, before = a ++ start ∧ b = start ++ t :: after := by
  rcases List.append_eq_append_iff.mp h with ⟨m, hbefore, hb⟩ | ⟨m, ha, hafter⟩
  · exact .inr ⟨m, hbefore, hb⟩
  · rcases List.cons_eq_append_iff.mp hafter with ⟨rfl, hb⟩ | ⟨rest, rfl, hrest⟩
    · exact .inr ⟨[], by rw [ha, List.append_nil, List.append_nil], hb⟩
    · exact .inl ⟨rest, ha, hrest⟩

theorem ClosesPaired.append (ha : ClosesPaired a) (hb : ClosesPaired b) : ClosesPaired (a ++ b) := by
  intro before t after h ht
  rcases split_append h with ⟨rest, hsplit, -⟩ | ⟨start, rfl, hsplit⟩
  · exact ha before t rest hsplit ht
  · exact (hb start t after hsplit ht).append_left a

theorem OpensPaired.append (ha : OpensPaired a) (hb : OpensPaired b) : OpensPaired (a ++ b) := by
  intro before t after h ht
  rcases split_append h with ⟨rest, hsplit, rfl⟩ | ⟨start, -, hsplit⟩
  · exact (ha before t rest hsplit ht).append_right b
  · exact hb start t after hsplit ht

theorem ClosesPaired.concat (ha : ClosesPaired a) (ht : t.kind = .closeParen → HasOpening a) :
    ClosesPaired (a ++ [t]) := by
  intro before u after h hu
  rcases split_append h with ⟨rest, hsplit, -⟩ | ⟨start, rfl, hsplit⟩
  · exact ha before u rest hsplit hu
  · rcases List.singleton_eq_append_iff.mp hsplit with ⟨rfl, hsingle⟩ | ⟨-, hnil⟩
    · obtain ⟨rfl, -⟩ := List.cons.inj hsingle
      rw [List.append_nil]
      exact ht hu
    · cases hnil

theorem OpensPaired.cons (hb : OpensPaired b) (ht : t.kind = .openParen → HasClosing b) :
    OpensPaired (t :: b) := by
  intro before u after h hu
  rcases List.cons_eq_append_iff.mp h with ⟨-, hsplit⟩ | ⟨before', -, hsplit⟩
  · obtain ⟨rfl, rfl⟩ := List.cons.inj hsplit
    exact ht hu
  · exact hb before' u after hsplit hu

theorem Paired.closesPaired (h : Paired tokens) : ClosesPaired tokens := by
  induction h with
  | nil => exact closesPaired_nil
  | skip _ hclose _ ih => exact (closesPaired_nil.concat fun h => absurd h hclose).append ih
  | @pair start stop inner rest hstart hstop hinner _ ihi ihr =>
    have hopening : HasOpening ([start] ++ inner) := ⟨[], start, inner, rfl, hstart, hinner⟩
    have hbefore : ClosesPaired ([start] ++ inner) :=
      (closesPaired_nil.concat fun h => absurd (hstart.symm.trans h) (by decide)).append ihi
    have hgroup := (hbefore.concat (t := stop) fun _ => hopening).append ihr
    rwa [List.append_assoc, List.append_assoc, List.singleton_append, List.singleton_append]
      at hgroup

theorem Paired.opensPaired (h : Paired tokens) : OpensPaired tokens := by
  induction h with
  | nil => exact opensPaired_nil
  | skip hopen _ _ ih => exact ih.cons fun h => absurd h hopen
  | @pair start stop inner rest hstart hstop hinner _ ihi ihr =>
    have hclosing : HasClosing (inner ++ stop :: rest) := ⟨inner, stop, rest, rfl, hstop, hinner⟩
    have hbehind : OpensPaired (stop :: rest) :=
      ihr.cons fun h => absurd (hstop.symm.trans h) (by decide)
    exact (ihi.append hbehind).cons fun _ => hclosing

theorem IsFirstUnopened.not_paired (h : IsFirstUnopened tokens t) : ¬Paired tokens := by
  obtain ⟨before, after, hsplit, ht, hnone, -⟩ := h
  exact fun hpaired => hnone (hpaired.closesPaired before t after hsplit ht)

theorem IsLastUnclosed.not_paired (h : IsLastUnclosed tokens t) : ¬Paired tokens := by
  obtain ⟨before, after, hsplit, ht, hnone, -⟩ := h
  exact fun hpaired => hnone (hpaired.opensPaired before t after hsplit ht)

/-! ## What is left open -/

/-- The parentheses at these positions, the last one first, are left open, and all others have
their partners. -/
inductive LeavesOpen : List Token → List Int → Prop
  | paired {tokens : List Token} : Paired tokens → LeavesOpen tokens []
  | opened {before inner : List Token} {positions : List Int} {start : Token} :
      LeavesOpen before positions → start.kind = .openParen → Paired inner →
      LeavesOpen (before ++ start :: inner) (start.position :: positions)

namespace LeavesOpen

variable {position : Int} {positions : List Int}

theorem append (h : LeavesOpen a positions) (hb : Paired b) : LeavesOpen (a ++ b) positions := by
  cases h with
  | paired ha => exact .paired (ha.append hb)
  | opened hbefore hstart hinner =>
    rw [List.append_assoc, List.cons_append]
    exact .opened hbefore hstart (hinner.append hb)

theorem skip (h : LeavesOpen tokens positions) (hopen : t.kind ≠ .openParen)
    (hclose : t.kind ≠ .closeParen) : LeavesOpen (tokens ++ [t]) positions :=
  h.append (.skip hopen hclose .nil)

theorem close (h : LeavesOpen tokens (position :: positions)) (ht : t.kind = .closeParen) :
    LeavesOpen (tokens ++ [t]) positions := by
  cases h with
  | opened hbefore hstart hinner =>
    rw [List.append_assoc, List.cons_append]
    exact hbefore.append (.pair hstart ht hinner .nil)

theorem closesPaired (h : LeavesOpen tokens positions) : ClosesPaired tokens := by
  induction h with
  | paired hpaired => exact hpaired.closesPaired
  | opened _ hstart hinner ih =>
    have hbefore := ih.concat fun h => absurd (hstart.symm.trans h) (by decide)
    rw [List.append_cons]
    exact hbefore.append hinner.closesPaired

theorem isLastUnclosed (h : LeavesOpen tokens (position :: positions)) :
    ∃ t, IsLastUnclosed tokens t ∧ t.position = position := by
  cases h with
  | @opened before inner _ start _ hstart hinner =>
    exact ⟨start, ⟨before, inner, rfl, hstart, hinner.not_hasClosing, hinner.opensPaired⟩, rfl⟩

/-- Where nothing is left open, a closing parenthesis has no partner. -/
theorem isFirstUnopened (h : LeavesOpen a []) (ht : t.kind = .closeParen) (b : List Token) :
    IsFirstUnopened (a ++ t :: b) t := by
  cases h with
  | paired ha => exact ⟨a, b, rfl, ht, ha.not_hasOpening, ha.closesPaired⟩

end LeavesOpen

/-! ## Nothing but parentheses -/

/-- Opening parentheses and then as many closing ones. -/
def IsNested (tokens : List Token) : Prop :=
  ∃ opening closing, tokens = opening ++ closing ∧ (∀ t ∈ opening, t.kind = .openParen) ∧
    (∀ t ∈ closing, t.kind = .closeParen) ∧ opening.length = closing.length

end Locus
