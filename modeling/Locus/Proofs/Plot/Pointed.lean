import Mathlib.Logic.Relation
import Locus.Proofs.Parse.Unambiguous
import Locus.Proofs.Parse.Correctness
import Locus.Proofs.Plot.Whole
import Locus.Proofs.Token.Pointed

/-! Points behind integers do not show. Texts that differ in them have the same tokens up to the
numerals of equal numbers, so they are parsed to the same trees up to whole doubles, and plots of
these show the same (`points_not_shown`). -/

namespace Locus
set_option autoImplicit false

open Locus.Expr Locus.Operator

/-! ## Numerals -/

/-- The numeral of a number without a point where the number is whole. -/
def wholeText (s : List Char) : String :=
  match (Numeral.literal s).whole with
  | .int n => String.ofList (decimalDigits n.natAbs)
  | .double _ => String.ofList s

theorem Literal.Unsigned.whole {v : Literal} (h : v.Unsigned) : v.whole.Unsigned := by
  rcases whole_cases v with hsame | ⟨x, n, rfl, hwhole, hint⟩
  · rwa [hsame]
  · obtain ⟨rank, rfl, -⟩ := hwhole.exists_rank
    have hsign : ¬n < 0 := of_decide_eq_false h
    rw [hint, unsigned_int]
    omega

theorem literal_wholeText (s : List Char) :
    Numeral.literal (wholeText s).toList = (Numeral.literal s).whole := by
  have hunsigned := (Literal.unsigned_literal s).whole
  rw [wholeText]
  cases hwhole : (Numeral.literal s).whole with
  | int n =>
    rw [hwhole, Literal.unsigned_int] at hunsigned
    rw [String.toList_ofList, Numeral.literal_decimalDigits, Int.natAbs_of_nonneg hunsigned]
  | double x =>
    rcases Literal.whole_cases (Numeral.literal s) with hsame | ⟨y, n, -, -, hint⟩
    · rw [String.toList_ofList, ← hwhole, hsame]
    · rw [hint] at hwhole
      cases hwhole

/-- A point behind an integer makes it a double of the same value. -/
theorem wholeText_pointed {digits : List Char} {n : Nat} (hdigits : ∀ c ∈ digits, isDecimalDigit c)
    (hvalue : digitsValue (Numeral.digits digits) = n) (hpos : n ≠ 0) (hn : n < 2 ^ 53) :
    wholeText (digits ++ ['.']) = wholeText digits := by
  have hpointed : Numeral.literal (digits ++ ['.']) = .double (Double.nearest false n) := by
    have hmem : '.' ∈ digits ++ ['.'] := by simp
    rw [Numeral.literal, if_pos hmem, Numeral.value_decimal hdigits]
    simp [Numeral.digits, ← hvalue]
  have hplain : Numeral.literal digits = .int n := by
    rw [Numeral.literal, if_neg (Numeral.point_notMem hdigits), hvalue]
  rw [wholeText, wholeText, hpointed, hplain, Literal.whole_double (Double.isWhole_nearest hpos hn),
    Literal.whole_int]

/-! ## Tokens -/

/-- A token apart from its position and from a point behind a whole number. -/
def Token.whole (t : Token) : Token :=
  ⟨t.kind, if t.kind = .number then wholeText t.text.toList else t.text, 0⟩

theorem renumbers_whole : Renumbers Literal.whole Token.whole where
  kind := fun t => rfl
  text := fun t ht => if_neg ht
  literal := fun t ht => by rw [Token.whole, if_pos ht, literal_wholeText]
  neg := Literal.whole_neg
  minusOne := rfl

/-! ## Texts -/

/-- The second text is the first one with a point behind one of its integers, which is at least one
and below `2 ^ 53`. -/
def GainsPoint (s t : String) : Prop :=
  ∃ (before digits after : String) (n : Nat), s = before ++ digits ++ after ∧
    t = before ++ digits ++ "." ++ after ∧
    ⟨.number, digits, before.length⟩ ∈ tokenize standardNames s ∧
    Literal.ofText? digits.toList = some (.int n) ∧ 1 ≤ n ∧ n < 2 ^ 53

variable {s t : String} {e e' : Expr}

/-- A numeral that is read as an integer has digits only. -/
theorem digits_of_ofText? {text : List Char} {n : Int} (hplain : Numeral.IsPlain text)
    (h : Literal.ofText? text = some (.int n)) :
    (∀ c ∈ text, isDecimalDigit c) ∧ text ≠ [] ∧ (digitsValue (Numeral.digits text) : Int) = n := by
  have hliteral := ((Literal.ofText?_eq_some_iff hplain _).mp h).2
  have hpoint : '.' ∉ text := fun hmem => by
    rw [Numeral.literal, if_pos hmem] at hliteral
    cases hliteral
  rw [Numeral.literal, if_neg hpoint] at hliteral
  cases hplain with
  | integer hwhole hne => exact ⟨hwhole, hne, (Literal.int.inj hliteral).symm⟩
  | decimal _ _ _ => exact absurd (by simp) hpoint

theorem GainsPoint.tokens_eq (h : GainsPoint s t) :
    (tokenize standardNames s).map Token.whole = (tokenize standardNames t).map Token.whole := by
  obtain ⟨before, digits, after, n, rfl, rfl, hmem, hread, hpos, hn⟩ := h
  have hplain : Numeral.IsPlain digits.toList := tokensFrom_number hmem rfl
  obtain ⟨hdigits, hne, hvalue⟩ := digits_of_ofText? hplain hread
  have hs : tokenize standardNames (before ++ digits ++ after)
      = lex 0 (before.toList ++ (digits.toList ++ after.toList)) := by
    rw [tokenize, String.toList_append, String.toList_append, List.append_assoc]
    rfl
  have ht : tokenize standardNames (before ++ digits ++ "." ++ after)
      = lex 0 (before.toList ++ (digits.toList ++ '.' :: after.toList)) := by
    rw [tokenize, String.toList_append, String.toList_append, String.toList_append,
      List.append_assoc, List.append_assoc]
    rfl
  rw [hs, ← String.length_toList, ← digits.ofList_toList, String.toList_ofList,
    ← Nat.zero_add before.toList.length] at hmem
  obtain ⟨first, rest, hplain, hpointed⟩ := tokensFrom_pointed hdigits hne hmem
  have htext := wholeText_pointed hdigits (by exact_mod_cast hvalue) (by omega) hn
  have hnumber : ∀ position,
      (⟨.number, String.ofList digits.toList, position⟩ : Token).whole
        = (⟨.number, String.ofList (digits.toList ++ ['.']), position⟩ : Token).whole := by
    intro position
    rw [Token.whole, Token.whole, if_pos rfl, if_pos rfl, String.toList_ofList,
      String.toList_ofList, htext]
  rw [hs, ht, hplain, hpointed, List.map_append, List.map_append, List.map_cons, List.map_cons,
    hnumber, List.map_map]
  rfl

/-- Texts that differ in points behind integers only. -/
theorem tokens_eq_of_points (h : Relation.EqvGen GainsPoint s t) :
    (tokenize standardNames s).map Token.whole = (tokenize standardNames t).map Token.whole := by
  induction h with
  | rel s t h => exact h.tokens_eq
  | refl s => rfl
  | symm s t _ ih => exact ih.symm
  | trans s t u _ _ ih ih' => exact ih.trans ih'

/-! ## Expressions -/

/-- A text that is parsed is blank, or its tokens are derived. -/
theorem derives_of_parse (h : parse standardNames .standard s = .ok e) :
    tokenize standardNames s = [] ∧ e = .empty ∨
      tokenize standardNames s ≠ [] ∧ Derives .equation (tokenize standardNames s) [] e ∧
        ∀ t ∈ tokenize standardNames s, t.IsRead := by
  rw [parse] at h
  split at h
  · next hnil => exact .inl ⟨hnil, (Except.ok.inj h).symm⟩
  · next hne =>
    refine .inr ⟨hne, derives_of_parseTokens (fun t ht => tokensFrom_number ht) h, ?_⟩
    exact (wellPlaced_of_parseTokens h).2

/-- Tokens that differ in points only are parsed to expressions that differ in whole doubles only. -/
theorem whole_eq_of_parse (htokens :
      (tokenize standardNames s).map Token.whole = (tokenize standardNames t).map Token.whole)
    (hs : parse standardNames .standard s = .ok e) (ht : parse standardNames .standard t = .ok e') :
    e.whole = e'.whole := by
  rcases derives_of_parse hs with ⟨hnil, rfl⟩ | ⟨hne, hderives, hread⟩
  · rw [hnil, List.map_nil, eq_comm, List.map_eq_nil_iff] at htokens
    rcases derives_of_parse ht with ⟨-, rfl⟩ | ⟨hne, -, -⟩
    · rfl
    · exact absurd htokens hne
  · rcases derives_of_parse ht with ⟨hnil, -⟩ | ⟨-, hderives', -⟩
    · rw [hnil, List.map_nil, List.map_eq_nil_iff] at htokens
      exact absurd htokens hne
    · have hnamed : ∀ u ∈ (tokenize standardNames s).map Token.whole,
          u.kind = .letter ∨ u.kind = .constant ∨ u.kind = .function → u.text ≠ "" := by
        intro u hu hkind
        obtain ⟨v, hv, rfl⟩ := List.mem_map.mp hu
        have hkept : v.whole.text = v.text := renumbers_whole.text v fun hnumber => by
          have hnumber' : v.whole.kind = .number := hnumber
          rw [hnumber'] at hkind
          rcases hkind with hkind | hkind | hkind <;> cases hkind
        rw [hkept]
        exact (hread v hv).named hkind
      have hwhole := hderives'.renumbered renumbers_whole
      rw [← htokens] at hwhole
      exact Derives.unique hnamed (hderives.renumbered renumbers_whole) hwhole

/-! ## Plots -/

/-- The plot of a parsed expression, which is empty only where the text is blank. -/
def plotParsed (options : PlotOptions) (e : Expr) : Except NumericFault Plot :=
  if e = .empty then .ok .blank else plotExpr options e

theorem plot_of_parse (h : parse standardNames .standard s = .ok e) (options : PlotOptions) :
    plot options s = match plotParsed options e with
      | .ok p => .ok ⟨s, (tokenize standardNames s).length, .ok p⟩
      | .error fault => .error (.numeric fault) := by
  have hreport : parseReport standardNames .standard s
      = .ok ⟨s, .ok e, (tokenize standardNames s).length⟩ := by
    rw [parseReport, h]
  rw [plot, hreport, Except.mapError, ok_bind, plotParsed]
  by_cases hempty : e = .empty
  · rw [hempty, if_pos rfl]
    rfl
  · rw [if_neg hempty]
    cases e with
    | empty => exact absurd rfl hempty
    | _ =>
      dsimp only
      cases plotExpr options _ <;> rfl

theorem empty_of_whole (h : e.whole = .empty) : e = .empty := by
  cases e with
  | empty => rfl
  | _ => cases h

theorem agreeOn_plotParsed (options : PlotOptions) (h : e.whole = e'.whole) :
    AgreeOn Plot.shown (plotParsed options e) (plotParsed options e') := by
  rw [plotParsed, plotParsed]
  by_cases hempty : e = .empty
  · subst hempty
    rw [if_pos rfl, if_pos (empty_of_whole h.symm)]
    exact rfl
  · have hempty' : e' ≠ .empty := by
      rintro rfl
      exact hempty (empty_of_whole h)
    rw [if_neg hempty, if_neg hempty']
    exact agreeOn_plotExpr options h

/-- Two outcomes are plots that show the same. -/
def Outcome.LooksLike (o o' : Outcome) : Prop :=
  ∃ p p', o.result = .ok p ∧ o'.result = .ok p' ∧ p.shown = p'.shown

/-- Texts that differ only in points behind integers are plotted alike, whatever the options: both
fail for the same reason, or both are plots that show the same. -/
theorem points_not_shown (h : Relation.EqvGen GainsPoint s t)
    (hs : parse standardNames .standard s = .ok e) (ht : parse standardNames .standard t = .ok e')
    (options : PlotOptions) :
    (∃ fault, plot options s = .error fault ∧ plot options t = .error fault) ∨
      ∃ o o', plot options s = .ok o ∧ plot options t = .ok o' ∧ o.LooksLike o' := by
  have hwhole := whole_eq_of_parse (tokens_eq_of_points h) hs ht
  rw [plot_of_parse hs, plot_of_parse ht]
  rcases (agreeOn_plotParsed options hwhole).cases with
    ⟨fault, hfault, hfault'⟩ | ⟨p, p', hp, hp', hshown⟩
  · rw [hfault, hfault']
    exact .inl ⟨_, rfl, rfl⟩
  · rw [hp, hp']
    exact .inr ⟨_, _, rfl, rfl, p, p', rfl, rfl, hshown⟩

/-- `2x + 3.` and `2.x + 3` are plotted alike. -/
theorem points_of_line_not_shown :
    ∃ o o', plot .standard "2x + 3." = .ok o ∧ plot .standard "2.x + 3" = .ok o' ∧
      o.LooksLike o' := by
  have hfirst : GainsPoint "2x + 3." "2.x + 3." :=
    ⟨"", "2", "x + 3.", 2, rfl, rfl, by decide +kernel, by decide +kernel, by decide, by decide⟩
  have hlast : GainsPoint "2.x + 3" "2.x + 3." :=
    ⟨"2.x + ", "3", "", 3, rfl, rfl, by decide +kernel, by decide +kernel, by decide, by decide⟩
  have hpoints : Relation.EqvGen GainsPoint "2x + 3." "2.x + 3" :=
    .trans _ _ _ (.rel _ _ hfirst) (.symm _ _ (.rel _ _ hlast))
  obtain ⟨e, hs⟩ : ∃ e, parse standardNames .standard "2x + 3." = .ok e :=
    exists_of_isOk (by decide +kernel)
  obtain ⟨e', ht⟩ : ∃ e', parse standardNames .standard "2.x + 3" = .ok e' :=
    exists_of_isOk (by decide +kernel)
  have hplot : (plot .standard "2x + 3.").isOk := by decide +kernel
  refine (points_not_shown hpoints hs ht .standard).resolve_left ?_
  rintro ⟨fault, hfault, -⟩
  rw [hfault] at hplot
  cases hplot

end Locus
