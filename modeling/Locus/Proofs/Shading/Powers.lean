import Locus.Proofs.Shading.Numerals

/-! Powers in shading code. Whether a power is written as one factor or as a product or a quotient
depends on its exponent and on the greatest exponent that is unrolled. For each of them the code
denotes the power (`denotes_power`). -/

namespace Locus
set_option autoImplicit false

open Locus.Expr Locus.Operator

/-! ## Small literals -/

/-- The integer that an expression is the literal of. -/
def Expr.integer? : Expr → Option Int
  | .number a => a.toInt?
  | _ => none

namespace Literal

/-- An integer of magnitude at most `2 ^ 53`. All of these are doubles. -/
def IsSmall : Literal → Prop
  | int n => n.natAbs ≤ 2 ^ 53
  | double _ => False

theorem IsSmall.inRange {v : Literal} (h : v.IsSmall) : v.InRange := by
  cases v with
  | int n =>
    have hfound : Double.ofMagnitude? false (n.natAbs : Rat)
        = some (.finite _ ⟨Double.nearestRank n.natAbs, Double.nearestRank_lt_of_le h⟩) :=
      Double.ofMagnitude?_eq_some rfl
    rw [inRange_int_iff, hfound, Option.isSome_some]
  | double x => exact h.elim

end Literal

namespace Shading

variable (limit : Int) {e base exponent : Expr}

theorem integralExponent?_eq (h : e.AllLiterals Literal.IsSmall) :
    integralExponent? e = .ok e.integer? := by
  unfold integralExponent?
  split
  · next n =>
    have hrange : (Literal.int n).InRange := Literal.IsSmall.inRange h
    exact if_pos hrange
  · next x => exact h.elim
  · next hint _ =>
    cases e with
    | number a =>
      cases a with
      | int n => exact absurd rfl (hint n)
      | double x => exact h.elim
    | _ => rfl

/-! ## Levels -/

/-- Whether an expression is a power that is written as a product or a quotient. -/
def unrolls : Expr → Bool
  | .binary .power _ x => ((x.integer?).map (exponentUnrolls limit)).getD false
  | _ => false

/-- The level at which the code of an expression is read. -/
def codeLevel (e : Expr) : Level :=
  match e with
  | .binary .power _ _ => if unrolls limit e then .product else .primary
  | .binary .times _ _ | .binary .divide _ _ => .product
  | .binary _ _ _ => .sum
  | _ => .primary

theorem isProduct_eq (h : e.AllLiterals Literal.IsSmall) :
    isProduct limit e = .ok (unrolls limit e) := by
  unfold isProduct
  split
  · next x =>
    rw [integralExponent?_eq h.2]
    rfl
  · next hpower =>
    rw [unrolls]
    exact fun b x h => hpower b x h

variable {limit} {code : String} {q : Quantity}

theorem codeLevel_power : codeLevel limit (binary .power base exponent)
    = if unrolls limit (binary .power base exponent) then .product else .primary := rfl

variable (limit e) in
theorem codeLevel_cases :
    codeLevel limit e = .primary ∨ codeLevel limit e = .product ∨ codeLevel limit e = .sum := by
  unfold codeLevel
  split
  · split <;> simp
  all_goals simp

/-- Code of an expression can be read as a sum. -/
theorem Denotes.to_sum (h : Denotes (codeLevel limit e) code q) : Denotes .sum code q := by
  rcases codeLevel_cases limit e with hlevel | hlevel | hlevel
  · rw [hlevel] at h
    exact h.primary_to_product.product_to_sum
  · rw [hlevel] at h
    exact h.product_to_sum
  · rwa [hlevel] at h

theorem Denotes.to_product (h : Denotes (codeLevel limit e) code q)
    (hsum : codeLevel limit e ≠ .sum) : Denotes .product code q := by
  rcases codeLevel_cases limit e with hlevel | hlevel | hlevel
  · rw [hlevel] at h
    exact h.primary_to_product
  · rwa [hlevel] at h
  · exact absurd hlevel hsum

theorem Denotes.parenthesized (h : Denotes (codeLevel limit e) code q) {grouped : Bool}
    (hprimary : grouped = false → codeLevel limit e = .primary) :
    Denotes .primary (parenthesizeIf grouped code) q := by
  cases grouped with
  | true => exact h.to_sum.paren
  | false =>
    rw [hprimary rfl] at h
    exact h

/-! ## Powers -/

/-- The base of a power is read as one factor. -/
theorem denotes_factor (hsmall : base.AllLiterals Literal.IsSmall)
    (h : Denotes (codeLevel limit base) code q) :
    ∃ f, factor limit base code = .ok f ∧ Denotes .primary f q := by
  unfold factor
  split
  · rw [isProduct_eq limit hsmall, ok_bind]
    refine ⟨_, rfl, h.parenthesized fun hunrolls => ?_⟩
    rw [codeLevel_power, hunrolls, if_neg Bool.false_ne_true]
  · exact ⟨_, rfl, h.to_sum.paren⟩
  · next hbinary =>
    refine ⟨_, rfl, ?_⟩
    cases base with
    | binary op l r => exact absurd rfl (hbinary op l r)
    | _ => exact h

/-- Up to the limit a power is written out. -/
theorem denotes_unrolledPower {f : String} (hf : Denotes .primary f q) {n : Int} (hn : 0 < n) :
    Denotes (if 2 ≤ n then .product else .primary)
      (String.intercalate "*" (List.replicate n.toNat f)) (raised q n) := by
  obtain ⟨k, rfl⟩ : ∃ k : Nat, n = ((k + 1 : Nat) : Int) := ⟨(n - 1).toNat, by omega⟩
  rw [Int.toNat_natCast]
  split
  · exact hf.repeated k
  · obtain rfl : k = 0 := by omega
    exact hf.of_raised_one

/-- An even power goes through the absolute value. -/
theorem denotes_evenPower (h : Denotes .sum code q) {n : Int} (hn : 0 ≤ n) (heven : Even n)
    (hle : n.natAbs ≤ 2 ^ 53) :
    ∃ exponent, (Literal.int n).code = .ok exponent ∧
      Denotes .primary ("pow(abs(" ++ code ++ "), " ++ exponent ++ ")") (raised q n) := by
  obtain ⟨exponent, hexponent, hdenotes⟩ := denotes_int hle
  refine ⟨exponent, hexponent, (h.pow hdenotes.primary_to_product.product_to_sum).of_le ?_⟩
  intro I v hv
  obtain ⟨x, hx, rfl⟩ := raised_eq_some.mp hv
  simp [hx, I.pow |x| n (abs_nonneg x) fun _ => hn, heven.zpow_abs]

/-- An odd power is an even one with one more factor, which has the sign. -/
theorem denotes_oddPower (h : Denotes .sum code q) {f : String} (hf : Denotes .primary f q)
    {n : Int} (hn : 0 ≤ n) (hodd : n % 2 = 1) (hle : n.natAbs ≤ 2 ^ 53) :
    ∃ exponent, (Literal.int (n - 1)).code = .ok exponent ∧
      Denotes .product ("pow(abs(" ++ code ++ "), " ++ exponent ++ ") * " ++ f) (raised q n) := by
  have heven : Even (n - 1) := Int.even_iff.mpr (by omega)
  obtain ⟨exponent, hexponent, hpower⟩ := denotes_evenPower h (by omega) heven (by omega)
  have htimes := hpower.primary_to_product.times separates_spacedTimes hf.primary_to_product
  rw [append_closeTimes] at htimes
  refine ⟨exponent, hexponent, htimes.of_le fun I v hv => ?_⟩
  obtain ⟨x, hx, rfl⟩ := raised_eq_some.mp hv
  refine combined_eq_some.mpr ⟨x ^ (n - 1), x, raised_eq_some.mpr ⟨x, hx, rfl⟩, hx, ?_⟩
  rw [compute?, zpow_sub_one_mul (by omega)]

theorem denotes_naturalPower (hsmall : base.AllLiterals Literal.IsSmall)
    (h : Denotes (codeLevel limit base) code q) {n : Int} (hn : 0 ≤ n) (hle : n.natAbs ≤ 2 ^ 53) :
    ∃ text, naturalPower limit base n (.ok code) = .ok text ∧
      Denotes (if exponentUnrolls limit n then .product else .primary) text (raised q n) := by
  obtain ⟨f, hf, hfactor⟩ := denotes_factor hsmall h
  have hnegative : ¬n < 0 := not_lt.mpr hn
  unfold naturalPower exponentUnrolls
  rw [if_neg hnegative]
  by_cases hlimit : n ≤ limit
  · rw [if_pos hlimit, if_pos hlimit]
    by_cases hzero : n = 0
    · subst hzero
      refine ⟨_, rfl, denotes_one.of_le fun I v hv => ?_⟩
      obtain ⟨x, hx, rfl⟩ := raised_eq_some.mp hv
      rw [zpow_zero]
    · rw [if_neg hzero, ok_bind, hf, ok_bind]
      simp only [decide_eq_true_eq]
      exact ⟨_, rfl, denotes_unrolledPower hfactor (by omega)⟩
  · rw [if_neg hlimit, if_neg hlimit, ok_bind]
    dsimp only
    by_cases heven : n % 2 = 0
    · obtain ⟨exponent, hexponent, hpower⟩ :=
        denotes_evenPower h.to_sum hn (Int.even_iff.mpr heven) hle
      rw [if_pos heven, hexponent, ok_bind, heven]
      exact ⟨_, rfl, hpower⟩
    · have hodd : n % 2 = 1 := by omega
      obtain ⟨exponent, hexponent, hpower⟩ :=
        denotes_oddPower h.to_sum hfactor hn hodd hle
      rw [if_neg heven, hexponent, ok_bind, ok_bind, hf, ok_bind, hodd]
      exact ⟨_, rfl, hpower⟩

theorem natAbs_le_of_integer? (h : e.AllLiterals Literal.IsSmall) {n : Int}
    (hn : e.integer? = some n) : n.natAbs ≤ 2 ^ 53 := by
  cases e with
  | number a =>
    cases a with
    | int m =>
      obtain rfl := Option.some.inj hn
      exact h
    | double x => exact h.elim
  | _ => cases hn

theorem rationalPower?_intCast_eq_some {x v : Rat} {n : Int} :
    rationalPower? x n = some v ↔ ¬(x = 0 ∧ n < 0) ∧ x ^ n = v := by
  simp [rationalPower?]

/-- A negative power is the reciprocal of the opposite one. -/
theorem denotes_reciprocal {n : Int} (hn : n < 0) (h : Denotes .sum code (raised q (-n))) :
    Denotes .product ("1.0/(" ++ code ++ ")") (fun I => do rationalPower? (← q I) n) := by
  rw [reciprocal_eq]
  refine (denotes_one.primary_to_product.product separates_divide rfl h.paren).of_le ?_
  intro I v hv
  obtain ⟨x, hx, hv⟩ := Option.bind_eq_some_iff.mp hv
  obtain ⟨hdefined, rfl⟩ := rationalPower?_intCast_eq_some.mp hv
  have hzero : x ≠ 0 := fun hzero => hdefined ⟨hzero, hn⟩
  refine combined_eq_some.mpr ⟨1, x ^ (-n), rfl, raised_eq_some.mpr ⟨x, hx, rfl⟩, ?_⟩
  rw [compute?, if_neg (zpow_ne_zero _ hzero), one_div, zpow_neg, inv_inv]

/-- A power, given what the code of its base and of its exponent denotes. -/
theorem denotes_power (hbase : base.AllLiterals Literal.IsSmall)
    (hexponent : exponent.AllLiterals Literal.IsSmall) {code' : String} {q' : Quantity}
    (h : Denotes (codeLevel limit base) code q)
    (h' : Denotes (codeLevel limit exponent) code' q') :
    ∃ text, power limit base exponent (.ok code) (.ok code') = .ok text ∧
      Denotes (codeLevel limit (.binary .power base exponent)) text
        (match exponent.integer? with
          | some n => fun I => do rationalPower? (← q I) n
          | none => fun I => do I.ofCall "pow" [|← q I|, ← q' I]) := by
  rw [power, integralExponent?_eq hexponent, ok_bind, codeLevel_power, unrolls]
  cases hinteger : exponent.integer? with
  | none => exact ⟨_, rfl, h.to_sum.pow h'.to_sum⟩
  | some n =>
    have hle := natAbs_le_of_integer? hexponent hinteger
    rw [Option.map_some, Option.getD_some]
    dsimp only
    by_cases hn : n < 0
    · obtain ⟨text, htext, hpower⟩ :=
        denotes_naturalPower (n := -n) hbase h (by omega) (by rwa [Int.natAbs_neg])
      have hsum : Denotes .sum text (raised q (-n)) := by
        split at hpower
        · exact hpower.product_to_sum
        · exact hpower.primary_to_product.product_to_sum
      have hunrolls : exponentUnrolls limit n = true := if_pos hn
      rw [if_pos hn, htext, ok_bind, hunrolls, if_pos rfl]
      exact ⟨_, rfl, denotes_reciprocal hn hsum⟩
    · obtain ⟨text, htext, hpower⟩ := denotes_naturalPower hbase h (not_lt.mp hn) hle
      rw [if_neg hn]
      refine ⟨text, htext, hpower.of_le fun I v hv => ?_⟩
      obtain ⟨x, hx, hv⟩ := Option.bind_eq_some_iff.mp hv
      exact raised_eq_some.mpr ⟨x, hx, (rationalPower?_intCast_eq_some.mp hv).2⟩

end Shading
end Locus
