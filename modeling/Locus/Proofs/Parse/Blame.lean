import Locus.Proofs.Parse.Pairing
import Locus.Proofs.Parse.Reduction

/-! Whom the errors of parsing blame. Everything that waits comes from a token, and the groups that
wait are the parentheses that the tokens read so far leave open, so an error points at the token that
is at fault (`advanceAll_blames`). -/

namespace Locus
set_option autoImplicit false

open Locus.Operator

/-! ## What is at fault -/

/-- A variable, a constant or a function without a name. No text has such a token. -/
def Token.IsNameless (t : Token) : Prop :=
  (t.kind = .letter ∨ t.kind = .constant ∨ t.kind = .function) ∧ t.text = ""

/-- What an error says of the tokens. -/
def ParseError.Blames (tokens : List Token) : ParseError → Prop
  | .unexpected text p => ∃ t ∈ tokens, t.kind = .unknown ∧ t.text = text ∧ t.position = p
  | .literalTooLarge length p =>
    ∃ t ∈ tokens, t.kind = .number ∧ t.text.length = length ∧ t.position = p
  | .missingArgument name p => ∃ t ∈ tokens, t.kind = .function ∧ t.text = name ∧ t.position = p
  | .missingOperand _ p => ∃ t ∈ tokens, t.position = p
  | .unmatchedClose p => ∃ t, IsFirstUnopened tokens t ∧ t.position = p
  | .unmatchedOpen p => ∃ t, ClosesPaired tokens ∧ IsLastUnclosed tokens t ∧ t.position = p
  | .notSingle count => count = 0 ∧ IsNested tokens
  | .undefinedOperator _ => False
  | .unnamedVariable | .unnamedCall => ∃ t ∈ tokens, t.IsNameless

/-- What waits was left there by a token. -/
def Pending.ComesFrom (tokens : List Token) : Pending → Prop
  | .operator _ _ p => ∃ t ∈ tokens, t.position = p
  | .call name _ p => ∃ t ∈ tokens, t.kind = .function ∧ t.text = name ∧ t.position = p
  | .group _ => True

/-- The positions of the groups that wait, the last one first. -/
def openGroups (pending : List Pending) : List Int :=
  pending.filterMap fun
    | .group position => some position
    | _ => none

/-- What waits comes from tokens, and these are the groups among it. -/
structure Waits (tokens : List Token) (groups : List Int) (pending : List Pending) : Prop where
  groups : openGroups pending = groups
  origin : ∀ top ∈ pending, top.ComesFrom tokens

section

variable {tokens : List Token} {groups : List Int} {top : Pending} {pending below : List Pending}
  {operands : List Expr} {position : Int}

theorem Waits.push (h : Waits tokens groups pending) {p : Int} (hp : top.precedence? = some p)
    (htop : top.ComesFrom tokens) : Waits tokens groups (top :: pending) := by
  refine ⟨?_, List.forall_mem_cons.mpr ⟨htop, h.origin⟩⟩
  cases top with
  | group _ => cases hp
  | operator _ _ _ | call _ _ _ => exact h.groups

theorem Waits.pushGroup (h : Waits tokens groups pending) (position : Int) :
    Waits tokens (position :: groups) (.group position :: pending) :=
  ⟨congrArg (position :: ·) h.groups, List.forall_mem_cons.mpr ⟨trivial, h.origin⟩⟩

theorem Waits.pop (h : Waits tokens groups (top :: below)) {p : Int}
    (hp : top.precedence? = some p) : Waits tokens groups below := by
  refine ⟨?_, (List.forall_mem_cons.mp h.origin).2⟩
  cases top with
  | group _ => cases hp
  | operator _ _ _ | call _ _ _ => exact h.groups

theorem Waits.popGroup (h : Waits tokens groups (.group position :: below)) :
    ∃ outer, groups = position :: outer ∧ Waits tokens outer below :=
  ⟨openGroups below, h.groups.symm, rfl, (List.forall_mem_cons.mp h.origin).2⟩

/-! ## Reduction -/

theorem reduce_blames (h : top.ComesFrom tokens) (operands : List Expr) :
    EndsWith (ParseError.Blames tokens) (fun _ => True) (reduce top operands) := by
  cases top with
  | operator op precedence position =>
    match operands with
    | [] | [_] => exact h
    | _ :: _ :: _ => trivial
  | call name precedence position =>
    obtain ⟨t, ht, hkind, hname, hposition⟩ := h
    cases operands with
    | nil => exact ⟨t, ht, hkind, hname, hposition⟩
    | cons argument rest =>
      rw [reduce]
      split_ifs with hempty
      · exact ⟨t, ht, .inr (.inr hkind), by simpa [hname] using hempty⟩
      · trivial
  | group position => trivial

theorem reduce_keeps_waits (top : Pending) (p : Int) (below : List Pending) (operands : List Expr)
    (hp : top.precedence? = some p) (h : Waits tokens groups (top :: below)) :
    EndsWith (ParseError.Blames tokens) (fun _ => Waits tokens groups below)
      (reduce top operands) :=
  (reduce_blames (h.origin top List.mem_cons_self) operands).mono fun _ _ => h.pop hp

theorem reduceTighter_blames (h : Waits tokens groups pending) (incoming : Int)
    (operands : List Expr) :
    EndsWith (ParseError.Blames tokens) (fun r => Waits tokens groups r.1)
      (reduceTighter incoming pending operands) :=
  reduceTighter_endsWith (I := fun pending _ => Waits tokens groups pending) reduce_keeps_waits h
    incoming

theorem reduceGroup_blames (h : Waits tokens groups pending) (operands : List Expr)
    (hnone : groups = [] → (ParseError.unmatchedClose position).Blames tokens) :
    EndsWith (ParseError.Blames tokens)
      (fun r => ∃ p outer, groups = p :: outer ∧ Waits tokens outer r.1)
      (reduceGroup position pending operands) := by
  refine (reduceGroup_endsWith (I := fun pending _ => Waits tokens groups pending)
    reduce_keeps_waits h fun _ hnil => hnone hnil.groups.symm).mono ?_
  rintro r ⟨start, hgroup⟩
  exact ⟨start, hgroup.popGroup⟩

theorem reduceAll_blames (h : Waits tokens groups pending) (operands : List Expr)
    (hopen : ∀ p outer, groups = p :: outer → (ParseError.unmatchedOpen p).Blames tokens) :
    EndsWith (ParseError.Blames tokens) (fun _ => True) (reduceAll pending operands) := by
  refine (reduceAll_endsWith (I := fun pending _ => Waits tokens groups pending)
    reduce_keeps_waits h fun start below _ hgroup => ?_).mono fun _ _ => trivial
  obtain ⟨outer, hgroups, -⟩ := hgroup.popGroup
  exact hopen start outer hgroups

/-! ## Tokens -/

variable {s : ParseState} {t : Token} {rest : List Token}

theorem pushOperator_blames (h : Waits tokens groups s.pending) (op : Operator)
    (hposition : ∃ t ∈ tokens, t.position = position) :
    EndsWith (ParseError.Blames tokens) (fun s' => Waits tokens groups s'.pending)
      (pushOperator .standard op position s) := by
  obtain ⟨entry, hentry, -⟩ := find?_standard op
  rw [pushOperator, hentry]
  exact (reduceTighter_blames h entry.incoming s.operands).bind fun r hr => hr.push rfl hposition

theorem closeGroup_blames (h : Waits tokens groups s.pending)
    (hnone : groups = [] → (ParseError.unmatchedClose position).Blames tokens) :
    EndsWith (ParseError.Blames tokens)
      (fun s' => ∃ p outer, groups = p :: outer ∧ Waits tokens outer s'.pending)
      (closeGroup position s) := by
  refine (reduceGroup_blames h s.operands hnone).bind fun r hr => ?_
  obtain ⟨pending, operands⟩ := r
  obtain ⟨p, outer, hgroups, hwaits⟩ := hr
  dsimp only
  split
  · exact (reduce_blames (hwaits.origin _ List.mem_cons_self) operands).bind fun _ _ =>
      ⟨p, outer, hgroups, hwaits.pop rfl⟩
  · exact ⟨p, outer, hgroups, hwaits⟩

/-- What waits after tokens have been read: the groups are the parentheses that they leave open. -/
def Tracks (tokens before : List Token) (s : ParseState) : Prop :=
  ∃ groups, LeavesOpen before groups ∧ Waits tokens groups s.pending

theorem takeToken_blames {before : List Token} (h : Tracks tokens before s)
    (hsplit : tokens = before ++ t :: rest) :
    EndsWith (ParseError.Blames tokens) (Tracks tokens (before ++ [t]))
      (takeToken .standard t rest s) := by
  obtain ⟨groups, hopen, hwaits⟩ := h
  have ht : t ∈ tokens := by simp [hsplit]
  have hskip : t.kind ≠ .openParen → t.kind ≠ .closeParen → LeavesOpen (before ++ [t]) groups :=
    hopen.skip
  rw [takeToken]
  cases hk : t.kind with
  | unknown => exact ⟨t, ht, hk, rfl, rfl⟩
  | number =>
    dsimp only
    split
    · exact ⟨t, ht, hk, rfl, rfl⟩
    · exact ⟨groups, hskip (by simp [hk]) (by simp [hk]), hwaits⟩
  | letter =>
    dsimp only
    split_ifs with hempty
    · exact ⟨t, ht, .inl hk, by simpa using hempty⟩
    · exact ⟨groups, hskip (by simp [hk]) (by simp [hk]), hwaits⟩
  | constant =>
    dsimp only
    split_ifs with hempty
    · exact ⟨t, ht, .inr (.inl hk), by simpa using hempty⟩
    · exact ⟨groups, hskip (by simp [hk]) (by simp [hk]), hwaits⟩
  | function =>
    exact ⟨groups, hskip (by simp [hk]) (by simp [hk]), hwaits.push rfl ⟨t, ht, hk, rfl, rfl⟩⟩
  | openParen => exact ⟨_, .opened hopen hk .nil, hwaits.pushGroup t.position⟩
  | closeParen =>
    have hnone : groups = [] → (ParseError.unmatchedClose t.position).Blames tokens := by
      rintro rfl
      exact ⟨t, hsplit ▸ hopen.isFirstUnopened hk rest, rfl⟩
    refine (closeGroup_blames hwaits hnone).mono fun s' hs' => ?_
    obtain ⟨p, outer, rfl, houter⟩ := hs'
    exact ⟨outer, hopen.close hk, houter⟩
  | operator op =>
    dsimp only
    split_ifs
    · exact ⟨groups, hskip (by simp [hk]) (by simp [hk]), hwaits⟩
    · exact ⟨groups, hskip (by simp [hk]) (by simp [hk]), hwaits.push rfl ⟨t, ht, rfl⟩⟩
    · exact (pushOperator_blames hwaits op ⟨t, ht, rfl⟩).mono fun s' hs' =>
        ⟨groups, hskip (by simp [hk]) (by simp [hk]), hs'⟩

theorem advance_blames {before : List Token} (h : Tracks tokens before s)
    (hsplit : tokens = before ++ t :: rest) :
    EndsWith (ParseError.Blames tokens) (Tracks tokens (before ++ [t]))
      (advance .standard s t rest) := by
  obtain ⟨groups, hopen, hwaits⟩ := h
  have hjuxtapose : EndsWith (ParseError.Blames tokens) (fun s' => Waits tokens groups s'.pending)
      (juxtapose .standard t s) := by
    rw [juxtapose]
    split_ifs
    · exact pushOperator_blames hwaits times ⟨t, by simp [hsplit], rfl⟩
    · exact hwaits
  exact hjuxtapose.bind fun s₀ h₀ =>
    (takeToken_blames ⟨groups, hopen, h₀⟩ hsplit).bind fun s₁ h₁ => h₁

theorem advanceAll_blames {before : List Token} (h : Tracks tokens before s)
    (hsplit : tokens = before ++ rest) :
    EndsWith (ParseError.Blames tokens) (Tracks tokens tokens)
      (advanceAll .standard s rest) := by
  induction rest generalizing before s with
  | nil =>
    rw [List.append_nil] at hsplit
    subst hsplit
    exact h
  | cons t rest ih =>
    exact (advance_blames h hsplit).bind fun s' h' => ih h' (by simp [hsplit])

end

end Locus
