import Locus.Proofs.Simplify.Literals
import Locus.Shading.Code

/-! Where shading code exists. An exponent has to be held by a double and an integer to be written
with few enough digits; both are so if all literals are in range (`code_isOk`). -/

namespace Locus
set_option autoImplicit false

open Locus.Expr Locus.Operator

/-! ## Literals -/

theorem intText_isOk {n : Int} {k : Nat} (h : n.natAbs ≤ 2 ^ k) (hk : k < Numeral.digitLimit) :
    ∃ text, intText n = .ok text := by
  have hbound : n.natAbs < 10 ^ Numeral.digitLimit := by
    calc n.natAbs ≤ 2 ^ k := h
      _ < 2 ^ (k + 1) := Nat.pow_lt_pow_succ (by decide)
      _ ≤ 10 ^ Numeral.digitLimit := Literal.two_pow_le_ten_pow hk
  have hlength : (decimalDigits n.natAbs).length ≤ Numeral.digitLimit :=
    (Nat.length_toDigits_le_iff (by decide) (by decide)).mpr hbound
  exact ⟨_, if_neg (not_lt.mpr hlength)⟩

theorem natAbs_sub_one_le {n : Int} {bound : Nat} (h : n.natAbs < bound) :
    (n - 1).natAbs ≤ bound := by
  omega

namespace Literal

theorem code_isOk_int {n : Int} (h : n.natAbs ≤ 2 ^ 1024) : ∃ text, (int n).code = .ok text := by
  have hunwrapped : ∃ text, (int n).unwrappedCode = .ok text := by
    rw [unwrappedCode]
    split_ifs
    · exact ⟨_, rfl⟩
    · obtain ⟨text, htext⟩ := intText_isOk h (by decide)
      exact ⟨text ++ ".0", by rw [htext]⟩
  obtain ⟨text, htext⟩ := hunwrapped
  exact ⟨_, by rw [code, htext]⟩

/-- An integral literal in range lies below `2 ^ 1024`. -/
theorem InRange.natAbs_lt {v : Literal} {n : Int} (h : v.InRange)
    (hvalue : v.toRat? = some (n : Rat)) : n.natAbs < 2 ^ 1024 := by
  exact_mod_cast Double.lt_of_ofMagnitude? (h.ofMagnitude? hvalue)

theorem code_isOk {v : Literal} (h : v.InRange) : ∃ text, v.code = .ok text := by
  cases v with
  | int n => exact code_isOk_int (h.natAbs_lt rfl).le
  | double x => exact ⟨_, rfl⟩

end Literal

/-! ## Powers -/

namespace Shading

variable (limit : Int) {e base : Expr}

theorem integralExponent?_isOk (h : e.AllLiterals Literal.InRange) :
    ∃ r, integralExponent? e = .ok r ∧ ∀ n ∈ r, n.natAbs < 2 ^ 1024 := by
  unfold integralExponent?
  split
  · next n =>
    have hsome : (Double.ofRat? (n : Rat)).isSome := h
    rw [if_pos hsome]
    refine ⟨_, rfl, fun m hm => ?_⟩
    obtain rfl := Option.mem_some_iff.mp hm
    exact Literal.InRange.natAbs_lt h rfl
  · next x =>
    refine ⟨_, rfl, fun n hn => ?_⟩
    obtain ⟨v, hv, hn⟩ := Option.bind_eq_some_iff.mp hn
    split_ifs at hn with hden
    refine Literal.InRange.natAbs_lt h (hv.trans ?_)
    rw [← Option.some.inj hn, (Rat.den_eq_one_iff v).mp hden]
  · exact ⟨none, rfl, fun _ hn => (nomatch hn)⟩

theorem isProduct_isOk (h : e.AllLiterals Literal.InRange) : ∃ b, isProduct limit e = .ok b := by
  unfold isProduct
  split
  · obtain ⟨r, hr, -⟩ := integralExponent?_isOk h.2
    exact ⟨_, by rw [hr]; rfl⟩
  · exact ⟨_, rfl⟩

theorem factor_isOk (h : base.AllLiterals Literal.InRange) (code : String) :
    ∃ text, factor limit base code = .ok text := by
  unfold factor
  split
  · obtain ⟨b, hb⟩ := isProduct_isOk limit h
    exact ⟨_, by rw [hb]; rfl⟩
  · exact ⟨_, rfl⟩
  · exact ⟨_, rfl⟩

theorem naturalPower_isOk (h : base.AllLiterals Literal.InRange) {n : Int}
    (hn : n.natAbs < 2 ^ 1024) {baseCode : Except NumericFault String}
    (hcode : ∃ text, baseCode = .ok text) :
    ∃ text, naturalPower limit base n baseCode = .ok text := by
  obtain ⟨code, rfl⟩ := hcode
  obtain ⟨f, hf⟩ := factor_isOk limit h code
  obtain ⟨exponent, hexponent⟩ := Literal.code_isOk_int hn.le
  obtain ⟨even, heven⟩ := Literal.code_isOk_int (natAbs_sub_one_le hn)
  unfold naturalPower
  split_ifs
  · exact ⟨_, rfl⟩
  · exact ⟨_, by rw [ok_bind, hf]; rfl⟩
  · exact ⟨_, by rw [ok_bind, hexponent]; rfl⟩
  · exact ⟨_, by rw [ok_bind, heven, ok_bind, ok_bind, hf]; rfl⟩

theorem power_isOk {exponent : Expr} (hbase : base.AllLiterals Literal.InRange)
    (hexponent : exponent.AllLiterals Literal.InRange)
    {baseCode exponentCode : Except NumericFault String} (hcode : ∃ text, baseCode = .ok text)
    (hcode' : ∃ text, exponentCode = .ok text) :
    ∃ text, power limit base exponent baseCode exponentCode = .ok text := by
  obtain ⟨r, hr, hbound⟩ := integralExponent?_isOk hexponent
  rw [power, hr, ok_bind]
  cases r with
  | none =>
    obtain ⟨code, rfl⟩ := hcode
    obtain ⟨code', rfl⟩ := hcode'
    exact ⟨_, rfl⟩
  | some n =>
    have hn : n.natAbs < 2 ^ 1024 := hbound n rfl
    dsimp only
    split_ifs
    · obtain ⟨text, htext⟩ :=
        naturalPower_isOk limit hbase (n := -n) (by rwa [Int.natAbs_neg]) hcode
      exact ⟨_, by rw [htext]; rfl⟩
    · exact naturalPower_isOk limit hbase hn hcode

theorem joined_isOk {op : Operator} {l r : Expr} (hr : r.AllLiterals Literal.InRange)
    {leftCode rightCode : Except NumericFault String} (hcode : ∃ text, leftCode = .ok text)
    (hcode' : ∃ text, rightCode = .ok text) :
    ∃ text, joined limit op l r leftCode rightCode = .ok text := by
  obtain ⟨code, rfl⟩ := hcode
  obtain ⟨code', rfl⟩ := hcode'
  obtain ⟨b, hb⟩ := isProduct_isOk limit hr
  unfold joined
  dsimp only
  split_ifs
  · exact ⟨_, rfl⟩
  · exact ⟨_, by rw [hb]; rfl⟩
  · exact ⟨_, rfl⟩

/-! ## Expressions -/

theorem code_isOk (style : CodeStyle) (h : e.AllLiterals Literal.InRange) :
    ∃ text, code style e = .ok text := by
  induction e with
  | empty => exact ⟨_, rfl⟩
  | number v => exact Literal.code_isOk h
  | var x => exact ⟨_, rfl⟩
  | call f a ih =>
    obtain ⟨text, htext⟩ := ih h
    exact ⟨_, by rw [code, htext]; rfl⟩
  | binary op l r ihl ihr =>
    cases op with
    | power => exact power_isOk style.unrollLimit h.1 h.2 (ihl h.1) (ihr h.2)
    | _ => exact joined_isOk style.unrollLimit h.2 (ihl h.1) (ihr h.2)

end Shading
end Locus
