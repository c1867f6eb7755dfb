import Mathlib
import Locus.Proofs.Numeric.Numeral
import Locus.Proofs.Numeric.Rounding

/-! Literals as they are typed. A literal that a double can hold is written with digits of one
script, and reading these digits gives back a literal of the same value (`Literal.typed_spec`). The
shortest decimal of a double needs no more than that it was found by reading it back. -/

namespace Locus
set_option autoImplicit false

/-! ## Digits of one script -/

theorem decimalDigit?_of_isDigit {c : Char} (h : c.isDigit) :
    decimalDigit? c = some (c.toNat - '0'.toNat) := by
  have hrange : 0x30 ≤ c.toNat ∧ c.toNat < 0x30 + 10 := by
    simp only [Char.isDigit, Bool.and_eq_true, decide_eq_true_eq] at h
    obtain ⟨hlower, hupper⟩ := h
    have hlower' : '0'.toNat ≤ c.toNat := hlower
    have hupper' : c.toNat ≤ '9'.toNat := hupper
    exact ⟨hlower', Nat.lt_succ_of_le hupper'⟩
  rw [decimalDigit?, digitZeros, List.find?_cons_of_pos (by simpa using hrange)]
  rfl

theorem isDecimalDigit_of_isDigit {c : Char} (h : c.isDigit) : isDecimalDigit c := by
  rw [isDecimalDigit, decimalDigit?_of_isDigit h]
  rfl

theorem isDigit_of_mem_decimalDigits {n : Nat} {c : Char} (h : c ∈ decimalDigits n) : c.isDigit :=
  Nat.isDigit_of_mem_toDigits (by decide) (by decide) h

theorem decimalDigits_ne_nil (n : Nat) : decimalDigits n ≠ [] := Nat.toDigits_ne_nil

theorem digitsValue_digits {s : List Char} (h : ∀ c ∈ s, c.isDigit) :
    digitsValue (Numeral.digits s) = Nat.ofDigitChars 10 s 0 := by
  suffices hfold : ∀ n, (Numeral.digits s).foldl (fun n d => 10 * n + d) n = Nat.ofDigitChars 10 s n
    from hfold 0
  induction s with
  | nil => exact fun n => rfl
  | cons c rest ih =>
    intro n
    rw [Numeral.digits, List.filterMap_cons_some (decimalDigit?_of_isDigit (h c List.mem_cons_self)),
      List.foldl_cons, Nat.ofDigitChars_cons]
    exact ih (fun d hd => h d (List.mem_cons_of_mem c hd)) _

/-! ## Decimals -/

namespace Decimal

theorem toRat_trim (d : Decimal) : d.trim.toRat = d.toRat := by
  induction d using trim.induct with
  | case1 d h ih =>
    rw [trim, dif_pos h, ih, toRat, toRat]
    have hdigits : (d.digits : Rat) = ((d.digits / 10 : Nat) : Rat) * 10 := by
      have := Nat.div_add_mod d.digits 10
      rw [h.2, Nat.add_zero] at this
      conv_lhs => rw [← this]
      push_cast
      ring
    rw [hdigits, zpow_add_one₀ (by norm_num)]
    ring
  | case2 d h => rw [trim, dif_neg h]

/-- Digits on either side of a point, which denote the value of a decimal. -/
structure IsPointed (d : Decimal) (whole fraction : List Char) : Prop where
  left : ∀ c ∈ whole, c.isDigit
  right : ∀ c ∈ fraction, c.isDigit
  left_ne_nil : whole ≠ []
  right_ne_nil : fraction ≠ []
  value : (Nat.ofDigitChars 10 (whole ++ fraction) 0 : Rat) / 10 ^ fraction.length = d.toRat

theorem isDigit_of_mem_replicate {n : Nat} {c : Char} (h : c ∈ List.replicate n '0') :
    c.isDigit := by
  rw [List.eq_of_mem_replicate h]
  rfl

theorem ofDigitChars_decimalDigits (n : Nat) :
    Nat.ofDigitChars 10 (decimalDigits n) 0 = n := Nat.ofDigitChars_ten_toDigits

variable {d : Decimal}

theorem isPointed_integral (h : 0 ≤ d.exponent) :
    d.IsPointed (decimalDigits d.digits ++ List.replicate d.exponent.toNat '0') ['0'] := by
  have hpower : (10 : Rat) ^ d.exponent = 10 ^ d.exponent.toNat := by
    rw [← zpow_natCast, Int.toNat_of_nonneg h]
  refine ⟨fun c hc => ?_, by simp, by simp [decimalDigits_ne_nil], by simp, ?_⟩
  · exact (List.mem_append.mp hc).elim isDigit_of_mem_decimalDigits isDigit_of_mem_replicate
  · rw [List.append_assoc, Nat.ofDigitChars_append, ofDigitChars_decimalDigits,
      Nat.ofDigitChars_append, Nat.ofDigitChars_replicate_zero, Nat.ofDigitChars_cons,
      Nat.ofDigitChars_nil, toRat, hpower]
    push_cast
    simp
    ring

/-- With a negative exponent the point stands as many places from the right. -/
theorem toRat_of_places {places : Nat} (h : (places : Int) = -d.exponent) :
    d.toRat = d.digits / 10 ^ places := by
  have hplaces : (10 : Rat) ^ d.exponent = (10 ^ places)⁻¹ := by
    rw [← zpow_natCast, h, zpow_neg, inv_inv]
  rw [toRat, hplaces, div_eq_mul_inv]

theorem isPointed_inside {places : Nat} (h : (places : Int) = -d.exponent) (hpos : 0 < places)
    (hfew : places < (decimalDigits d.digits).length) :
    d.IsPointed ((decimalDigits d.digits).take ((decimalDigits d.digits).length - places))
      ((decimalDigits d.digits).drop ((decimalDigits d.digits).length - places)) := by
  have hlength : ((decimalDigits d.digits).drop
      ((decimalDigits d.digits).length - places)).length = places := by
    rw [List.length_drop]
    omega
  refine ⟨fun c hc => isDigit_of_mem_decimalDigits (List.mem_of_mem_take hc),
    fun c hc => isDigit_of_mem_decimalDigits (List.mem_of_mem_drop hc), ?_, ?_, ?_⟩
  · rw [← List.length_pos_iff, List.length_take]
    omega
  · rwa [← List.length_pos_iff, hlength]
  · rw [List.take_append_drop, ofDigitChars_decimalDigits, hlength, toRat_of_places h]

theorem isPointed_below {places : Nat} (h : (places : Int) = -d.exponent)
    (hmany : (decimalDigits d.digits).length ≤ places) :
    d.IsPointed ['0'] (List.replicate (places - (decimalDigits d.digits).length) '0'
      ++ decimalDigits d.digits) := by
  have hlength : (List.replicate (places - (decimalDigits d.digits).length) '0'
      ++ decimalDigits d.digits).length = places := by
    rw [List.length_append, List.length_replicate]
    omega
  refine ⟨by simp, fun c hc => ?_, by simp, by simp [decimalDigits_ne_nil], ?_⟩
  · exact (List.mem_append.mp hc).elim isDigit_of_mem_replicate isDigit_of_mem_decimalDigits
  · rw [hlength, toRat_of_places h, Nat.ofDigitChars_append, Nat.ofDigitChars_append,
      Nat.ofDigitChars_cons, Nat.ofDigitChars_nil, Nat.ofDigitChars_replicate_zero]
    simp only [Nat.mul_zero, Nat.sub_self, Nat.add_zero]
    rw [ofDigitChars_decimalDigits]

theorem positional_spec (d : Decimal) :
    ∃ whole fraction, d.positional = String.ofList (whole ++ '.' :: fraction) ∧
      d.IsPointed whole fraction := by
  rw [positional]
  dsimp only
  by_cases hexponent : 0 ≤ d.exponent
  · rw [if_pos hexponent]
    exact ⟨_, _, rfl, isPointed_integral hexponent⟩
  · rw [if_neg hexponent]
    have hplaces : ((-d.exponent).toNat : Int) = -d.exponent := by omega
    by_cases hfew : (-d.exponent).toNat < (decimalDigits d.digits).length
    · rw [if_pos hfew]
      exact ⟨_, _, rfl, isPointed_inside hplaces (by omega) hfew⟩
    · rw [if_neg hfew]
      exact ⟨['0'], _, rfl, isPointed_below hplaces (by omega)⟩

end Decimal

/-! ## The numerals that are written -/

namespace Numeral

theorem isDecimalDigit_of_mem_decimalDigits {n : Nat} : ∀ c ∈ decimalDigits n, isDecimalDigit c :=
  fun _ hc => isDecimalDigit_of_isDigit (isDigit_of_mem_decimalDigits hc)

theorem digitsValue_decimalDigits (n : Nat) : digitsValue (digits (decimalDigits n)) = n :=
  (digitsValue_digits fun _ => isDigit_of_mem_decimalDigits).trans Nat.ofDigitChars_ten_toDigits

theorem literal_decimalDigits (n : Nat) : literal (decimalDigits n) = .int n := by
  rw [literal, if_neg (point_notMem isDecimalDigit_of_mem_decimalDigits),
    digitsValue_decimalDigits]

theorem value_decimalDigits (n : Nat) : value (decimalDigits n) = n := by
  rw [value_integer isDecimalDigit_of_mem_decimalDigits, digitsValue_decimalDigits]

theorem value_of_isPointed {d : Decimal} {whole fraction : List Char}
    (h : d.IsPointed whole fraction) : value (whole ++ '.' :: fraction) = d.toRat := by
  have hdigit : ∀ c ∈ whole ++ fraction, c.isDigit := fun c hc =>
    (List.mem_append.mp hc).elim (h.left c) (h.right c)
  rw [value_decimal fun c hc => isDecimalDigit_of_isDigit (h.left c hc), ← h.value,
    ← digitsValue_digits hdigit, digits_append]

end Numeral

/-! ## The shortest decimal of a double -/

namespace Double

theorem toRat_exactDecimal (rank : Nat) : (exactDecimal rank).toRat = magnitude rank := by
  rw [exactDecimal]
  simp only [Nat.pow_eq]
  split_ifs with hscale
  · rw [Decimal.toRat, magnitude, ← Int.toNat_of_nonneg hscale, zpow_natCast]
    push_cast
    rw [mul_one, Int.toNat_natCast]
  · have hpower : (2 : Rat) ^ scale rank = 5 ^ (-scale rank).toNat * 10 ^ scale rank := by
      rw [← zpow_natCast, Int.toNat_of_nonneg (by omega), zpow_neg, inv_mul_eq_div, ← div_zpow]
      norm_num
    rw [Decimal.toRat, magnitude, hpower]
    push_cast
    ring

theorem readsBack_of_decimalOfLength? {rank n : Nat} {d : Decimal}
    (h : decimalOfLength? rank n = some d) : readsBack rank d := by
  rw [decimalOfLength?] at h
  dsimp only at h
  split at h
  · next hlow hhigh =>
    rw [Option.some.injEq, nearer] at h
    dsimp only at h
    split_ifs at h <;> subst h <;> assumption
  · next hlow _ =>
    rw [← Option.some.inj h]
    exact hlow
  · next _ hhigh =>
    rw [← Option.some.inj h]
    exact hhigh
  · cases h

/-- The shortest decimal stands for the double itself, or it was found on a grid. -/
theorem toRat_shortest_cases (rank : Nat) :
    (shortest rank).toRat = magnitude rank ∨
      ∃ n d, 1 ≤ n ∧ decimalOfLength? rank n = some d ∧ (shortest rank).toRat = d.toRat := by
  rw [shortest]
  split_ifs with hzero
  · rw [hzero, magnitude_zero, Decimal.toRat, Nat.cast_zero, zero_mul]
    exact .inl rfl
  · rw [Decimal.toRat_trim]
    cases hsearch : (List.range' 1 17).findSome? (decimalOfLength? rank) with
    | none => exact .inl (toRat_exactDecimal rank)
    | some d =>
      obtain ⟨n, hmem, hn⟩ := List.exists_of_findSome?_eq_some hsearch
      exact .inr ⟨n, d, (List.mem_range'_1.mp hmem).1, hn, rfl⟩

theorem nearestRank_shortest (rank : Nat) : nearestRank (shortest rank).toRat = rank := by
  rcases toRat_shortest_cases rank with hexact | ⟨n, d, -, hd, hvalue⟩
  · rw [hexact, nearestRank_magnitude]
  · rw [hvalue]
    exact beq_iff_eq.mp (readsBack_of_decimalOfLength? hd)

end Double

/-! ## Literals -/

namespace Literal

def IsInteger : Literal → Prop
  | int _ => True
  | double _ => False

def IsFinite : Literal → Prop
  | int _ => True
  | double x => x.isFinite

/-- A double can hold the literal. -/
def InRange : Literal → Prop
  | int n => (Double.ofRat? n).isSome
  | double x => x.isFinite

instance : DecidablePred InRange
  | int n => inferInstanceAs (Decidable ((Double.ofRat? n).isSome = true))
  | double x => inferInstanceAs (Decidable (x.isFinite = true))

/-- `s` is the numeral of a literal without its sign: digits, perhaps with a point between them,
that denote the literal or its opposite. -/
structure IsTyped (v : Literal) (s : List Char) : Prop where
  plain : Numeral.IsPlain s
  ascii : ∀ c ∈ s, c.isDigit ∨ c = '.'
  last : ∃ c ∈ s.getLast?, c.isDigit
  same : v.sameValue (if v.isNegative then (Numeral.literal s).neg else Numeral.literal s)

theorem sameValue_of_toRat? {a b : Literal} {v : Rat} (ha : a.toRat? = some v)
    (hb : b.toRat? = some v) : a.sameValue b := by
  unfold sameValue
  split
  · cases ha
  · rw [ha, hb]
    exact beq_self_eq_true v

theorem two_pow_le_ten_pow {m n : Nat} (h : m ≤ n) : 2 ^ m ≤ 10 ^ n :=
  (Nat.pow_le_pow_right (by decide) h).trans (Nat.pow_le_pow_left (by decide) n)

/-- A literal is written as a numeral that satisfies `p`, with a minus in front if it is negative. -/
def IsWritten (p : List Char → Prop) (v : Literal) : Prop :=
  ∃ s, v.typed = .ok (String.ofList (if v.isNegative then '-' :: s else s)) ∧ v.IsTyped s ∧ p s

theorem isTyped_decimalDigits {v : Literal} {n : Int} (hvalue : v.toRat? = some (n : Rat))
    (hnegative : v.isNegative = decide (n < 0)) : IsTyped v (decimalDigits n.natAbs) := by
  have hdigit : ∀ c ∈ decimalDigits n.natAbs, c.isDigit := fun c hc =>
    isDigit_of_mem_decimalDigits hc
  refine ⟨.integer Numeral.isDecimalDigit_of_mem_decimalDigits (decimalDigits_ne_nil _),
    fun c hc => .inl (hdigit c hc), ?_, ?_⟩
  · have hlast := List.getLast?_eq_getLast_of_ne_nil (decimalDigits_ne_nil n.natAbs)
    exact ⟨_, hlast, hdigit _ (List.getLast_mem _)⟩
  · rw [Numeral.literal_decimalDigits, hnegative]
    refine sameValue_of_toRat? hvalue ?_
    split_ifs with hn
    · rw [neg, toRat?]
      congr 2
      simp only [decide_eq_true_eq] at hn
      omega
    · rw [toRat?]
      congr 2
      simp only [decide_eq_true_eq] at hn
      omega

/-- An integer that a double can hold has few enough digits, and they are in range. -/
theorem inRange_decimalDigits {n : Nat} (h : (Double.ofMagnitude? false (n : Rat)).isSome) :
    (decimalDigits n).length ≤ Numeral.digitLimit ∧ Numeral.InRange (decimalDigits n) := by
  have hlength : (decimalDigits n).length ≤ Numeral.digitLimit := by
    have hlt : n < 2 ^ 1024 := by exact_mod_cast Double.lt_of_ofMagnitude? h
    exact (Nat.length_toDigits_le_iff (by decide) (by decide)).mpr
      (hlt.trans_le (two_pow_le_ten_pow (by decide)))
  refine ⟨hlength, ?_, .inr hlength⟩
  rw [Numeral.value_decimalDigits, Double.ofRat?_of_nonneg (Nat.cast_nonneg _)]
  exact h

theorem intText_spec {v : Literal} {n : Int} {text : String} (hvalue : v.toRat? = some (n : Rat))
    (hnegative : v.isNegative = decide (n < 0)) (htext : intText n = .ok text) :
    text = String.ofList (if v.isNegative then '-' :: decimalDigits n.natAbs
      else decimalDigits n.natAbs) ∧ IsTyped v (decimalDigits n.natAbs) := by
  rw [intText] at htext
  split at htext
  · cases htext
  · rw [Except.ok.injEq] at htext
    refine ⟨?_, isTyped_decimalDigits hvalue hnegative⟩
    rw [← htext, hnegative, intDigits]
    simp only [decide_eq_true_eq]

theorem ofMagnitude?_isSome (a b : Bool) (v : Rat) :
    (Double.ofMagnitude? a v).isSome = (Double.ofMagnitude? b v).isSome := by
  unfold Double.ofMagnitude?
  dsimp only
  split <;> rfl

theorem isNegative_of_rank_ne_zero (negative : Bool) {rank : Fin Double.rankCount}
    (hrank : rank.val ≠ 0) : (double (.finite negative rank)).isNegative = negative := by
  rw [isNegative, Double.isNegative, bne_iff_ne.mpr hrank, Bool.and_true]

/-- The shortest decimal of a double that is not zero, written out with a point, is a numeral of the
double without its sign. -/
theorem isTyped_positional (negative : Bool) {rank : Fin Double.rankCount} (hrank : rank.val ≠ 0) :
    ∃ s, (Double.shortest rank).positional = String.ofList s ∧
      IsTyped (double (.finite negative rank)) s ∧ Numeral.InRange s ∧
      Numeral.literal s = double (.finite false rank) ∧
      Numeral.value s = (Double.shortest rank).toRat := by
  obtain ⟨whole, fraction, htext, hpointed⟩ := (Double.shortest rank).positional_spec
  have hread := Numeral.value_of_isPointed hpointed
  obtain ⟨hwhole, hfraction, hne, hne', -⟩ := hpointed
  have hdecimal := fun c hc => isDecimalDigit_of_isDigit (hwhole c hc)
  have hdecimal' := fun c hc => isDecimalDigit_of_isDigit (hfraction c hc)
  have hpoint : '.' ∈ whole ++ '.' :: fraction := by simp
  have hnearest : Double.ofMagnitude? false (Double.shortest rank).toRat
      = some (.finite false rank) :=
    Double.ofMagnitude?_eq_some (Double.nearestRank_shortest rank)
  have hliteral : Numeral.literal (whole ++ '.' :: fraction) = double (.finite false rank) := by
    rw [Numeral.literal, if_pos hpoint, hread, Double.nearest, hnearest]
    rfl
  refine ⟨_, htext, ⟨.decimal hdecimal hdecimal' (by simp [hne]), ?_, ?_, ?_⟩, ⟨?_, .inl hpoint⟩,
    hliteral, hread⟩
  · intro c hc
    rcases List.mem_append.mp hc with hc | hc
    · exact .inl (hwhole c hc)
    · rcases List.mem_cons.mp hc with rfl | hc
      · exact .inr rfl
      · exact .inl (hfraction c hc)
  · have hlast := List.getLast?_eq_getLast_of_ne_nil hne'
    refine ⟨_, ?_, hfraction _ (List.getLast_mem hne')⟩
    rw [List.getLast?_append, List.getLast?_cons, hlast]
    rfl
  · rw [isNegative_of_rank_ne_zero negative hrank, hliteral]
    refine sameValue_of_toRat? rfl ?_
    cases negative <;> rfl
  · rw [Double.ofRat?_of_nonneg (Numeral.value_nonneg _), hread, hnearest]
    rfl

theorem cast_natAbs_eq (n : Int) : (n.natAbs : Rat) = if (n : Rat) < 0 then -(n : Rat) else n := by
  rw [Nat.cast_natAbs, Int.cast_abs]
  split_ifs with hn
  · exact abs_of_neg hn
  · exact abs_of_nonneg (not_lt.mp hn)

theorem toInt?_eq_some {negative : Bool} {rank : Fin Double.rankCount} {n : Int}
    (h : (Double.finite negative rank).toInt? = some n) :
    (double (.finite negative rank)).toRat? = some (n : Rat) ∧
      (double (.finite negative rank)).isNegative = decide (n < 0) ∧
      Double.magnitude rank = n.natAbs := by
  have hvalue : Double.signed negative (Double.magnitude rank) = n := by
    rw [Double.toInt?, Double.toRat?, Option.bind_some] at h
    split_ifs at h with hden
    rw [← Option.some.inj h]
    exact (Rat.den_eq_one_iff _).mp hden |>.symm
  have hnonneg := Double.magnitude_nonneg rank
  refine ⟨congrArg some hvalue, ?_, ?_⟩
  · rw [isNegative, Double.isNegative, Bool.eq_iff_iff, decide_eq_true_eq, Bool.and_eq_true,
      bne_iff_ne, ← Int.cast_lt_zero (R := Rat), ← hvalue, Double.signed]
    cases negative with
    | false => simpa using hnonneg
    | true => simp [hnonneg.lt_iff_ne', Double.magnitude_eq_zero]
  · rw [cast_natAbs_eq, ← hvalue, Double.signed]
    cases negative with
    | false => simp [hnonneg.not_gt]
    | true =>
      rcases hnonneg.eq_or_lt with hzero | hpos
      · simp [← hzero]
      · simp [hpos]

theorem toInt?_of_toRat? {x : Double} {n : Int} (h : x.toRat? = some (n : Rat)) :
    x.toInt? = some n := by
  rw [Double.toInt?, h]
  rfl

theorem toRat?_of_toInt? {x : Double} {n : Int} (h : x.toInt? = some n) :
    x.toRat? = some (n : Rat) := by
  cases x with
  | finite negative rank => exact (toInt?_eq_some h).1
  | _ => cases h

theorem rank_ne_zero_of_toInt? {negative : Bool} {rank : Fin Double.rankCount}
    (h : (Double.finite negative rank).toInt? = none) : rank.val ≠ 0 := by
  intro hzero
  rw [Double.toInt?, Double.toRat?, Option.bind_some, hzero, Double.magnitude_zero] at h
  cases negative <;> cases h

theorem typed_of_not_integral {negative : Bool} {rank : Fin Double.rankCount} {s : List Char}
    (h : (Double.finite negative rank).toInt? = none)
    (htext : (Double.shortest rank).positional = String.ofList s) :
    (double (.finite negative rank)).typed = .ok (String.ofList
      (if (double (.finite negative rank)).isNegative then '-' :: s else s)) := by
  rw [typed, h]
  dsimp only
  rw [htext, isNegative_of_rank_ne_zero negative (rank_ne_zero_of_toInt? h)]
  cases negative with
  | false => rfl
  | true => rw [if_pos rfl, if_pos rfl, ← List.singleton_append, String.ofList_append]

/-- A finite literal is written as an integer or as a decimal. -/
theorem typed_cases {v : Literal} (h : v.IsFinite) :
    (∃ n : Int, v.toRat? = some (n : Rat) ∧ v.isNegative = decide (n < 0) ∧ v.typed = intText n) ∨
      v.IsWritten Numeral.InRange := by
  match v with
  | int n => exact .inl ⟨n, rfl, rfl, rfl⟩
  | double .nan => cases h
  | double (.infinite negative) => cases h
  | double (.finite negative rank) =>
    cases hint : (Double.finite negative rank).toInt? with
    | some n =>
      obtain ⟨hvalue, hnegative, -⟩ := toInt?_eq_some hint
      exact .inl ⟨n, hvalue, hnegative, by rw [typed, hint]⟩
    | none =>
      obtain ⟨s, htext, htyped, hrange, -⟩ :=
        isTyped_positional negative (rank_ne_zero_of_toInt? hint)
      exact .inr ⟨s, typed_of_not_integral hint htext, htyped, hrange⟩

/-- What is written of a finite literal denotes a literal of the same value. -/
theorem isWritten_of_typed {v : Literal} {text : String} (hv : v.IsFinite)
    (h : v.typed = .ok text) : v.IsWritten fun _ => True := by
  rcases typed_cases hv with ⟨n, hvalue, hnegative, htyped⟩ | ⟨s, htext, htyped, -⟩
  · obtain ⟨rfl, hdigits⟩ := intText_spec hvalue hnegative (htyped.symm.trans h)
    exact ⟨_, h, hdigits, trivial⟩
  · exact ⟨s, htext, htyped, trivial⟩

theorem InRange.isFinite {v : Literal} (h : v.InRange) : v.IsFinite := by
  cases v with
  | int n => trivial
  | double x => exact h

theorem inRange_int_iff (n : Int) :
    (int n).InRange ↔ (Double.ofMagnitude? false (n.natAbs : Rat)).isSome := by
  rw [InRange, Double.ofRat?, ← cast_natAbs_eq, ofMagnitude?_isSome _ false]

/-- An integral literal in range is an integer in range. -/
theorem InRange.ofMagnitude? {v : Literal} {n : Int} (h : v.InRange)
    (hvalue : v.toRat? = some (n : Rat)) :
    (Double.ofMagnitude? false (n.natAbs : Rat)).isSome := by
  match v with
  | int m =>
    rw [toRat?, Option.some.injEq, Int.cast_inj] at hvalue
    rwa [inRange_int_iff, hvalue] at h
  | double .nan => cases h
  | double (.infinite negative) => cases h
  | double (.finite negative rank) =>
    obtain ⟨-, -, hmagnitude⟩ := toInt?_eq_some (toInt?_of_toRat? hvalue)
    rw [← hmagnitude, Double.ofMagnitude?_eq_some (Double.nearestRank_magnitude rank)]
    rfl

/-- An integral literal in range is written with the digits of its integer. -/
theorem InRange.intText_eq {v : Literal} {n : Int} (h : v.InRange)
    (hvalue : v.toRat? = some (n : Rat)) (hnegative : v.isNegative = decide (n < 0)) :
    intText n = .ok (String.ofList (if v.isNegative then '-' :: decimalDigits n.natAbs
      else decimalDigits n.natAbs)) ∧
      IsTyped v (decimalDigits n.natAbs) ∧ Numeral.InRange (decimalDigits n.natAbs) := by
  obtain ⟨hlength, hrange⟩ := inRange_decimalDigits (h.ofMagnitude? hvalue)
  have htext : intText n = .ok (String.ofList (intDigits n)) := if_neg (Nat.not_lt.mpr hlength)
  obtain ⟨hsigned, hdigits⟩ := intText_spec hvalue hnegative htext
  exact ⟨htext.trans (congrArg Except.ok hsigned), hdigits, hrange⟩

/-- A literal in range is written, and what is written is read as a literal of the same value. -/
theorem isWritten_of_inRange {v : Literal} (h : v.InRange) : v.IsWritten Numeral.InRange := by
  rcases typed_cases h.isFinite with ⟨n, hvalue, hnegative, htyped⟩ | hwritten
  · obtain ⟨htext, hdigits, hrange⟩ := h.intText_eq hvalue hnegative
    exact ⟨_, htyped.trans htext, hdigits, hrange⟩
  · exact hwritten

end Literal
end Locus
