import Locus.Proofs.Markup.RoundTrip
import Locus.Proofs.Numeric.Integers

/-! Printed doubles and the doubles that are computed with. Notation writes an integral double out
by its exact value, folding computes with the shortest decimal of a double. A printed double reads
back as the literal whose value the text denotes, so the two agree for all doubles but integral ones
whose shortest decimal is not exact (`printed_denotes_typed_iff`). -/

namespace Locus
set_option autoImplicit false

open Locus.Expr Locus.Operator

/-! ## Folding -/

section

variable {a b : Literal}

theorem foldConstants_congr_left (htyped : a.typedValue = b.typedValue)
    (hint : a.toInt? = b.toInt?) (op : Operator) (r : Expr) :
    foldConstants (binary op (number a) r) = foldConstants (binary op (number b) r) := by
  cases op <;> cases r <;> simp [foldConstants, htyped, hint]

theorem foldConstants_congr_right (htyped : a.typedValue = b.typedValue) (op : Operator)
    (l : Expr) :
    foldConstants (binary op l (number a)) = foldConstants (binary op l (number b)) := by
  cases op <;> cases l <;> simp [foldConstants, htyped]

end

theorem resultOf_int {n : Int} (h : (Literal.int n).InRange) (exact : Bool) :
    resultOf n exact = some (.int n) := by
  obtain ⟨x, hx⟩ := Option.isSome_iff_exists.mp h
  rw [resultOf, hx, Option.map_some, if_pos (Rat.den_intCast n), Rat.num_intCast]

/-- Only an integer has that integer for its result. -/
theorem eq_of_resultOf_eq_int {v : Rat} {n : Int} (h : resultOf v false = some (.int n)) :
    v = n := by
  obtain ⟨x, -, hx⟩ := Option.map_eq_some_iff.mp h
  split at hx
  · next hden =>
    have hnum : v.num = n := Literal.int.inj (Expr.number.inj hx)
    rw [← hnum]
    exact ((Rat.den_eq_one_iff v).mp hden).symm
  · cases hx

/-! ## Numerals with a sign -/

/-- The number that a numeral denotes, with a minus in front of it or without. -/
def Numeral.signedValue : List Char → Rat
  | '-' :: s => -value s
  | s => value s

/-- A literal is written as a text that reads as a literal and denotes its typed value. -/
structure Literal.ReadsAs (v w : Literal) (text : String) : Prop where
  typed : v.typed = .ok text
  parsed : parse FunctionTable.standard.names .standard text = .ok (.number w)
  value : w.typedValue = .ok (Numeral.signedValue text.toList)

namespace Literal

theorem IsTyped.signedValue_eq {v : Literal} {s : List Char} (h : v.IsTyped s) :
    Numeral.signedValue s = Numeral.value s := by
  unfold Numeral.signedValue
  split
  · next rest =>
    rcases h.ascii '-' List.mem_cons_self with hdigit | hpoint
    · cases hdigit
    · cases hpoint
  · rfl

/-- A numeral in range is read with its sign. -/
theorem IsTyped.readsAs {v w : Literal} {s : List Char} (h : v.IsTyped s)
    (hrange : Numeral.InRange s)
    (htext : v.typed = .ok (String.ofList (if v.isNegative then '-' :: s else s)))
    (hw : w = if v.isNegative then (Numeral.literal s).neg else Numeral.literal s)
    (hvalue : w.typedValue = .ok (if v.isNegative then -Numeral.value s else Numeral.value s)) :
    ∃ text, v.ReadsAs w text := by
  refine ⟨_, htext, ?_, ?_⟩
  · cases hsign : v.isNegative with
    | false =>
      rw [hsign, if_neg Bool.false_ne_true] at hw
      rw [hw, if_neg Bool.false_ne_true]
      exact (spells_numeral h hrange).parse_eq_ok
    | true =>
      rw [hsign, if_pos rfl] at hw
      rw [hw, if_pos rfl]
      exact (spells_negative h hrange).parse_eq_ok
  · rw [hvalue, String.toList_ofList]
    cases v.isNegative with
    | false => rw [if_neg Bool.false_ne_true, if_neg Bool.false_ne_true, h.signedValue_eq]
    | true => rfl

/-! ## Doubles -/

variable {x : Double}

theorem toInt?_ofDouble (x : Double) : (ofDouble x).toInt? = (double x).toInt? := by
  unfold ofDouble
  split
  · next n hn => exact hn.symm
  · rfl

/-- What is written of a finite double reads as the integer that it equals, or as itself. -/
theorem exists_readsAs_ofDouble (hx : x.isFinite) :
    ∃ text, (double x).ReadsAs (ofDouble x) text := by
  cases x with
  | nan => cases hx
  | infinite negative => cases hx
  | finite negative rank =>
    cases hint : (Double.finite negative rank).toInt? with
    | some n =>
      have hrange : (double (.finite negative rank)).InRange := hx
      obtain ⟨hvalue, hnegative, -⟩ := toInt?_eq_some hint
      obtain ⟨htext, htyped, hdigits⟩ := hrange.intText_eq hvalue hnegative
      have hof : ofDouble (.finite negative rank) = int n := by rw [ofDouble, hint]
      have hsign : n = if n < 0 then -(n.natAbs : Int) else n.natAbs := by split_ifs <;> omega
      refine htyped.readsAs hdigits (by rw [typed, hint]; exact htext) ?_ ?_
      · rw [hof, Numeral.literal_decimalDigits, hnegative]
        by_cases hn : n < 0 <;> simpa [hn, neg] using hsign
      · rw [hof, Numeral.value_decimalDigits, hnegative, typedValue]
        by_cases hn : n < 0 <;> simpa [hn] using congrArg (Int.cast (R := Rat)) hsign
    | none =>
      have hrank := rank_ne_zero_of_toInt? hint
      obtain ⟨s, htext, htyped, hrange, hliteral, hvalue⟩ := isTyped_positional negative hrank
      have hof : ofDouble (.finite negative rank) = double (.finite negative rank) := by
        rw [ofDouble, hint]
      refine htyped.readsAs hrange (typed_of_not_integral hint htext) ?_ ?_ <;>
        rw [hof, isNegative_of_rank_ne_zero negative hrank]
      · rw [hliteral]
        cases negative <;> rfl
      · rw [hvalue]
        cases negative <;> rfl

end Literal

/-! ## Agreement -/

/-- Where the double equals an integer, so does its shortest decimal. -/
def Double.KeepsDecimal (x : Double) : Prop :=
  ∀ n, x.toInt? = some n → x.typedValue? = some (n : Rat)

namespace Double

variable {x : Double}

theorem keepsDecimal_iff : x.KeepsDecimal ↔
    ∀ n, x.toInt? = some n → (Literal.double x).typedValue = .ok (n : Rat) := by
  refine forall₂_congr fun n _ => ?_
  rw [Literal.typedValue]
  cases x.typedValue? <;> simp

theorem typedValue_ofDouble_iff :
    (Literal.ofDouble x).typedValue = (Literal.double x).typedValue ↔ x.KeepsDecimal := by
  rw [keepsDecimal_iff, Literal.ofDouble]
  cases x.toInt? with
  | none => simp
  | some n => simp [Literal.typedValue, eq_comm]

/-- Only even integers beyond `2 ^ 53` may have another number for their shortest decimal. -/
theorem exists_large_of_not_keepsDecimal (h : ¬x.KeepsDecimal) :
    ∃ n, x.toInt? = some n ∧ 2 ^ 53 < n.natAbs ∧ (2 : Int) ∣ n := by
  rw [keepsDecimal_iff] at h
  push Not at h
  obtain ⟨n, hn, htyped⟩ := h
  have hvalue : (Literal.double x).toRat? = some (n : Rat) := Literal.toRat?_of_toInt? hn
  exact ⟨n, hn, (Literal.typedValue_of_integral hvalue).resolve_left htyped⟩

end Double

/-- Two literals fold alike next to every operand, on either side of every operator. -/
def Literal.FoldsAs (a b : Literal) : Prop :=
  ∀ op e, foldConstants (binary op (number a) e) = foldConstants (binary op (number b) e) ∧
    foldConstants (binary op e (number a)) = foldConstants (binary op e (number b))

theorem Literal.foldsAs_of_typedValue {a b : Literal} (htyped : a.typedValue = b.typedValue)
    (hint : a.toInt? = b.toInt?) : a.FoldsAs b := fun op e =>
  ⟨foldConstants_congr_left htyped hint op e, foldConstants_congr_right htyped op e⟩

/-- A product with one tells an integer from every other typed value. -/
theorem Literal.typedValue_eq_of_foldsAs {n : Int} {b : Literal} {w : Rat}
    (hn : (Literal.int n).InRange) (hb : b.typedValue = .ok w) (h : (int n).FoldsAs b) :
    w = n := by
  have hone : (int 1).typedValue = .ok 1 := rfl
  have hproduct := (h times (.int 1)).1
  rw [Expr.int, foldConstants_numbers (by decide) rfl hone,
    foldConstants_numbers (by decide) hb hone, Except.ok.injEq] at hproduct
  dsimp only at hproduct
  rw [mul_one, mul_one, resultOf_int hn] at hproduct
  exact eq_of_resultOf_eq_int hproduct.symm

theorem Double.foldsAs_ofDouble_iff {x : Double} (hx : x.isFinite) :
    (Literal.ofDouble x).FoldsAs (.double x) ↔ x.KeepsDecimal := by
  constructor
  · intro hfolds
    rw [keepsDecimal_iff]
    intro n hn
    have hdouble : (Literal.double x).InRange := hx
    have hrange : (Literal.int n).InRange :=
      (Literal.inRange_int_iff n).mpr (hdouble.ofMagnitude? (Literal.toRat?_of_toInt? hn))
    obtain ⟨w, hw⟩ := Literal.typedValue_of_isFinite (a := .double x) hx
    rw [Literal.ofDouble, hn] at hfolds
    rw [hw, Literal.typedValue_eq_of_foldsAs hrange hw hfolds]
  · intro hkeeps
    exact Literal.foldsAs_of_typedValue (typedValue_ofDouble_iff.mpr hkeeps)
      (Literal.toInt?_ofDouble x)

/-- A finite double is written as a text that reads back as the double, or as the integer that it
equals. The text denotes the number that is computed with, and what is read back folds as the
double does, unless the double is an even integer beyond `2 ^ 53` whose shortest decimal is another
number. -/
theorem printed_denotes_typed_iff (x : Double) (hx : x.isFinite) :
    ∃ text v, (Literal.double x).typed = .ok text ∧ (Literal.double x).typedValue = .ok v ∧
      parse FunctionTable.standard.names .standard text = .ok (number (.ofDouble x)) ∧
      (Numeral.signedValue text.toList = v ↔ x.KeepsDecimal) ∧
      ((Literal.ofDouble x).FoldsAs (.double x) ↔ x.KeepsDecimal) ∧
      (¬x.KeepsDecimal → ∃ n, x.toInt? = some n ∧ 2 ^ 53 < n.natAbs ∧ (2 : Int) ∣ n) := by
  obtain ⟨text, htext⟩ := Literal.exists_readsAs_ofDouble hx
  obtain ⟨v, hv⟩ := Literal.typedValue_of_isFinite (a := .double x) hx
  refine ⟨text, v, htext.typed, hv, htext.parsed, ?_, Double.foldsAs_ofDouble_iff hx,
    Double.exists_large_of_not_keepsDecimal⟩
  rw [← Double.typedValue_ofDouble_iff, htext.value, hv, Except.ok.injEq]

/-- The double nearest to `10 ^ k`. -/
def powerOfTen (k : Nat) : Double := Double.nearest false (10 ^ k)

theorem printed_powerOfTen_agrees :
    (powerOfTen 22).isFinite ∧ (powerOfTen 22).KeepsDecimal ∧
      ∃ text v, (Literal.double (powerOfTen 22)).typed = .ok text ∧
        (Literal.double (powerOfTen 22)).typedValue = .ok v ∧
        parse FunctionTable.standard.names .standard text
          = .ok (number (.ofDouble (powerOfTen 22))) ∧
        Numeral.signedValue text.toList = v ∧
        (Literal.ofDouble (powerOfTen 22)).FoldsAs (.double (powerOfTen 22)) := by
  have hfinite : (powerOfTen 22).isFinite := by decide +kernel
  have hint : (powerOfTen 22).toInt? = some (10 ^ 22) := by decide +kernel
  have htyped : (powerOfTen 22).typedValue? = some ((10 ^ 22 : Int) : Rat) := by decide +kernel
  have hkeeps : (powerOfTen 22).KeepsDecimal := by
    intro n hn
    rw [hint, Option.some.injEq] at hn
    rw [htyped, hn]
  obtain ⟨text, v, htext, hv, hparse, hdenotes, hfolds, -⟩ :=
    printed_denotes_typed_iff (powerOfTen 22) hfinite
  exact ⟨hfinite, hkeeps, text, v, htext, hv, hparse, hdenotes.mpr hkeeps, hfolds.mpr hkeeps⟩

/-- The double nearest to `10 ^ 23` is not `10 ^ 23`, which is its shortest decimal all the same. -/
theorem printed_powerOfTen_differs :
    (powerOfTen 23).isFinite ∧
      (Literal.double (powerOfTen 23)).typed = .ok "99999999999999991611392" ∧
      (Literal.double (powerOfTen 23)).typedValue = .ok (10 ^ 23) ∧
      Numeral.signedValue "99999999999999991611392".toList ≠ 10 ^ 23 := by
  decide +kernel

end Locus
