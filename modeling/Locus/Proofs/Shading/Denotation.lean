import Locus.Proofs.Shading.Reader
import Locus.Shading.Code

/-! What pieces of shading code denote. A piece of a level denotes a partial rational if the grammar
reads it as a term that has this value in every interpretation; pieces are put together as terms
are. -/

namespace Locus
set_option autoImplicit false

open Locus.Operator

namespace Shading

/-- A rational for each interpretation, or none. -/
abbrev Quantity : Type := Interpretation → Option Rat

/-- Code of a level in which all numerals are floating point literals, and which is read as a term
that has the value of a quantity where the quantity has one. -/
structure Denotes (level : Level) (code : String) (q : Quantity) : Prop where
  floating : ∀ word, .number word ∈ codeTokens code → IsFloating word
  reads : ∃ t, Reads level (codeTokens code) t ∧ ∀ I v, q I = some v → t.value? I = some v

variable {a b : String} {p q : Quantity}

/-- Code denotes whatever has fewer values. -/
theorem Denotes.of_le {level : Level} (h : Denotes level a q)
    (hle : ∀ I v, p I = some v → q I = some v) : Denotes level a p := by
  obtain ⟨t, ht, hvalue⟩ := h.reads
  exact ⟨h.floating, t, ht, fun I v hv => hvalue I v (hle I v hv)⟩

theorem Denotes.level {level level' : Level} (h : Denotes level a q)
    (hlevel : ∀ {i t}, Reads level i t → Reads level' i t) : Denotes level' a q := by
  obtain ⟨t, ht, hvalue⟩ := h.reads
  exact ⟨h.floating, t, hlevel ht, hvalue⟩

theorem Denotes.primary_to_product (h : Denotes .primary a q) : Denotes .product a q :=
  h.level fun ht => .ofUnary (.ofPrimary ht)

theorem Denotes.product_to_sum (h : Denotes .product a q) : Denotes .sum a q := h.level .ofProduct

/-! ## Tokens of pieces -/

theorem codeTokens_paren (a : String) :
    codeTokens ("(" ++ a ++ ")") = .sign '(' :: codeTokens a ++ [.sign ')'] := by
  rw [codeTokens_append rfl (by decide), codeTokens, String.toList_append]
  rfl

theorem codeTokens_minus (a : String) : codeTokens ("-" ++ a) = .sign '-' :: codeTokens a := by
  rw [codeTokens, String.toList_append]
  rfl

theorem codeTokens_applied (f a : String) : codeTokens (f ++ "(" ++ a ++ ")")
    = codeTokens f ++ .sign '(' :: codeTokens a ++ [.sign ')'] := by
  rw [codeTokens_append rfl (by decide), codeTokens_around rfl (by decide)]
  rfl

theorem codeTokens_call {f : String} (hf : codeTokens f = [.name f.toList]) (a : String) :
    codeTokens (f ++ "(" ++ a ++ ")")
      = .name f.toList :: .sign '(' :: codeTokens a ++ [.sign ')'] := by
  rw [codeTokens_applied, hf]
  rfl

theorem codeTokens_pow (a b : String) :
    codeTokens ("pow(abs(" ++ a ++ "), " ++ b ++ ")")
      = .name ['p', 'o', 'w'] :: .sign '(' :: (.name ['a', 'b', 's'] :: .sign '(' :: codeTokens a
        ++ [.sign ')']) ++ .sign ',' :: codeTokens b ++ [.sign ')'] := by
  have hopen : codeTokens ("pow(abs(" ++ a) = .name ['p', 'o', 'w'] :: .sign '('
      :: .name ['a', 'b', 's'] :: .sign '(' :: codeTokens a := by
    rw [codeTokens, String.toList_append]
    rfl
  have hmiddle : tokensAfter [] ("), ".toList ++ b.toList)
      = .sign ')' :: .sign ',' :: codeTokens b := rfl
  have hclose : codeTokens ")" = [.sign ')'] := rfl
  rw [codeTokens_append rfl (by decide), codeTokens_around rfl (by decide), hopen, hmiddle, hclose]
  simp

/-- A text that puts one sign between what it separates. -/
def Separates (sep : String) (c : Char) : Prop :=
  ∀ a b, codeTokens (a ++ sep ++ b) = codeTokens a ++ .sign c :: codeTokens b

theorem separates_times : Separates "*" '*' := fun _ b => codeTokens_around rfl (by decide) b

theorem separates_divide : Separates "/" '/' := fun _ b => codeTokens_around rfl (by decide) b

theorem separates_spacedTimes : Separates " * " '*' := fun _ b =>
  codeTokens_around rfl (by decide) b

theorem append_closeTimes (s : String) : s ++ ")" ++ " * " = s ++ ") * " := by
  rw [String.append_assoc]
  rfl

theorem reciprocal_eq (a : String) : "1.0/(" ++ a ++ ")" = "1.0" ++ "/" ++ ("(" ++ a ++ ")") := by
  rw [← String.append_assoc, ← String.append_assoc]
  rfl

theorem separates_plus : Separates " + " '+' := fun _ b => codeTokens_around rfl (by decide) b

theorem separates_minus : Separates " - " '-' := fun _ b => codeTokens_around rfl (by decide) b

/-! ## Pieces put together -/

theorem Denotes.paren (h : Denotes .sum a q) : Denotes .primary ("(" ++ a ++ ")") q := by
  obtain ⟨t, ht, hvalue⟩ := h.reads
  refine ⟨fun word hword => h.floating word ?_, t, ?_, hvalue⟩
  · simpa [codeTokens_paren] using hword
  · rw [codeTokens_paren]
    exact .group ht

theorem Denotes.call {f : String} (hf : codeTokens f = [.name f.toList]) (h : Denotes .sum a q) :
    Denotes .primary (f ++ "(" ++ a ++ ")") (fun I => do I.ofCall f [← q I]) := by
  obtain ⟨t, ht, hvalue⟩ := h.reads
  refine ⟨fun word hword => h.floating word ?_, .call f [t], ?_, fun I v hv => ?_⟩
  · simpa [codeTokens_call hf] using hword
  · have hopened := @Reads.first f.toList _ _ ht
    rw [String.ofList_toList] at hopened
    rw [codeTokens_call hf]
    exact .call hopened
  · obtain ⟨x, hx, hcall⟩ := Option.bind_eq_some_iff.mp hv
    simpa [Term.value?, valuesOf?, hvalue I x hx] using hcall

/-- A power of a magnitude. -/
theorem Denotes.pow (ha : Denotes .sum a p) (hb : Denotes .sum b q) :
    Denotes .primary ("pow(abs(" ++ a ++ "), " ++ b ++ ")")
      (fun I => do I.ofCall "pow" [|← p I|, ← q I]) := by
  obtain ⟨t, ht, htvalue⟩ := ha.reads
  obtain ⟨u, hu, huvalue⟩ := hb.reads
  refine ⟨fun word hword => ?_, .call "pow" [.call "abs" [t], u], ?_, fun I v hv => ?_⟩
  · simp only [codeTokens_pow, List.mem_append, List.mem_cons, List.not_mem_nil, reduceCtorEq,
      false_or, or_false] at hword
    exact hword.elim (ha.floating word) (hb.floating word)
  · rw [codeTokens_pow]
    have hmagnitude := Reads.call (@Reads.first ['a', 'b', 's'] _ _ ht)
    exact .call (.next (.first (.ofProduct (.ofUnary (.ofPrimary hmagnitude)))) hu)
  · obtain ⟨x, hx, hv⟩ := Option.bind_eq_some_iff.mp hv
    obtain ⟨y, hy, hv⟩ := Option.bind_eq_some_iff.mp hv
    simpa [Term.value?, valuesOf?, htvalue I x hx, huvalue I y hy, I.abs] using hv

/-! ## Sums and products -/

/-- The value of an operator applied to two quantities. -/
def combined (op : Operator) (p q : Quantity) : Quantity := fun I => do
  op.compute? (← p I) (← q I)

theorem combined_eq_some {op : Operator} {I : Interpretation} {v : Rat} :
    combined op p q I = some v ↔
      ∃ x y, p I = some x ∧ q I = some y ∧ op.compute? x y = some v := by
  simp only [combined, Option.bind_eq_bind, Option.bind_eq_some_iff]
  constructor
  · rintro ⟨x, hx, y, hy, h⟩
    exact ⟨x, y, hx, hy, h⟩
  · rintro ⟨x, y, hx, hy, h⟩
    exact ⟨x, hx, y, hy, h⟩

theorem Term.value?_binary {op : Operator} {l r : Term} {I : Interpretation} {x y : Rat}
    (hl : l.value? I = some x) (hr : r.value? I = some y) :
    (Term.binary op l r).value? I = op.compute? x y := by
  simp [Term.value?, hl, hr]

theorem Term.value?_binary_eq_some {op : Operator} {l r : Term} {I : Interpretation} {v : Rat} :
    (Term.binary op l r).value? I = some v ↔
      ∃ x y, l.value? I = some x ∧ r.value? I = some y ∧ op.compute? x y = some v := by
  simp only [Term.value?, Option.bind_eq_bind, Option.bind_eq_some_iff]
  constructor
  · rintro ⟨x, hx, y, hy, h⟩
    exact ⟨x, y, hx, hy, h⟩
  · rintro ⟨x, y, hx, hy, h⟩
    exact ⟨x, hx, y, hy, h⟩

/-- Pieces around a separator are read as an operator, if terms of their levels are. -/
theorem Denotes.join {sep : String} {c : Char} {op : Operator} {level level' level'' : Level}
    (hsep : Separates sep c) (ha : Denotes level a p) (hb : Denotes level' b q)
    (hreads : ∀ {i j l r}, Reads level i l → Reads level' j r →
      ∃ t, Reads level'' (i ++ .sign c :: j) t ∧ ∀ I x y, l.value? I = some x →
        r.value? I = some y → ∀ v, op.compute? x y = some v → t.value? I = some v) :
    Denotes level'' (a ++ sep ++ b) (combined op p q) := by
  obtain ⟨l, hl, hlvalue⟩ := ha.reads
  obtain ⟨r, hr, hrvalue⟩ := hb.reads
  obtain ⟨t, ht, htvalue⟩ := hreads hl hr
  refine ⟨fun word hword => ?_, t, ?_, fun I v hv => ?_⟩
  · rw [hsep] at hword
    simp only [List.mem_append, List.mem_cons, reduceCtorEq, false_or] at hword
    exact hword.elim (ha.floating word) (hb.floating word)
  · rw [hsep]
    exact ht
  · obtain ⟨x, y, hx, hy, hop⟩ := combined_eq_some.mp hv
    exact htvalue I x y (hlvalue I x hx) (hrvalue I y hy) v hop

theorem Denotes.sum {sep : String} {c : Char} {op : Operator} (hsep : Separates sep c)
    (hop : sumOperator? c = some op) (ha : Denotes .sum a p) (hb : Denotes .product b q) :
    Denotes .sum (a ++ sep ++ b) (combined op p q) :=
  ha.join hsep hb fun hl hr => ⟨_, .sum hl hop hr, fun _ _ _ hx hy _ hv =>
    (Term.value?_binary hx hy).trans hv⟩

theorem Denotes.product {sep : String} {c : Char} {op : Operator} (hsep : Separates sep c)
    (hop : productOperator? c = some op) (ha : Denotes .product a p) (hb : Denotes .primary b q) :
    Denotes .product (a ++ sep ++ b) (combined op p q) :=
  ha.join hsep hb fun hl hr => ⟨_, .product hl hop (.ofPrimary hr), fun _ _ _ hx hy _ hv =>
    (Term.value?_binary hx hy).trans hv⟩

/-- A factor passes into a product or a quotient from the left. -/
theorem compute?_times {c : Char} {op : Operator} (hop : productOperator? c = some op)
    {u w y : Rat} (h : op.compute? u w = some y) (x : Rat) :
    op.compute? (x * u) w = some (x * y) := by
  unfold productOperator? at hop
  split at hop
  · cases hop
    rw [compute?, Option.some.injEq] at h ⊢
    rw [← h, mul_assoc]
  · cases hop
    rw [compute?] at h ⊢
    split at h
    · cases h
    · next hw =>
      rw [if_neg hw, ← Option.some.inj h, mul_div_assoc]
  · cases hop

/-- A product as the right factor of another one. It is read from the left, which does not change
its value. -/
theorem Reads.times_product {i j : List CodeToken} {l r : Term} (hl : Reads .product i l)
    (hr : Reads .product j r) :
    ∃ t, Reads .product (i ++ .sign '*' :: j) t ∧ ∀ I x y, l.value? I = some x →
      r.value? I = some y → t.value? I = some (x * y) := by
  generalize hlevel : Level.product = level at hr
  -- the last factor of the right side comes off first, and is the last one of the whole
  induction hr with
  | ofUnary hr =>
    exact ⟨_, .product hl rfl hr, fun _ _ _ hx hy => Term.value?_binary hx hy⟩
  | @product c op j k m r hm hop hr ih =>
    obtain ⟨t, ht, hvalue⟩ := ih rfl
    refine ⟨.binary op t r, ?_, fun I x y hx hy => ?_⟩
    · have := Reads.product ht hop hr
      rwa [List.append_assoc, List.cons_append] at this
    · obtain ⟨u, w, hu, hw, hy⟩ := Term.value?_binary_eq_some.mp hy
      rw [Term.value?_binary (hvalue I x u hx hu) hw, compute?_times hop hy]
  | _ => cases hlevel

theorem Denotes.times {sep : String} (hsep : Separates sep '*') (ha : Denotes .product a p)
    (hb : Denotes .product b q) : Denotes .product (a ++ sep ++ b) (combined times p q) := by
  refine ha.join hsep hb fun hl hr => ?_
  obtain ⟨t, ht, hvalue⟩ := hl.times_product hr
  exact ⟨t, ht, fun I x y hx hy v hv => (hvalue I x y hx hy).trans hv⟩

/-! ## Repeated factors -/

/-- The quantity raised to an integral power. -/
def raised (q : Quantity) (n : Int) : Quantity := fun I => do return (← q I) ^ n

theorem raised_eq_some {n : Int} {I : Interpretation} {v : Rat} :
    raised q n I = some v ↔ ∃ x, q I = some x ∧ x ^ n = v := by
  simp [raised, Option.bind_eq_some_iff]

theorem zpow_sub_one_mul {x : Rat} {n : Int} (hn : 0 < n) : x ^ (n - 1) * x = x ^ n := by
  obtain ⟨k, rfl⟩ : ∃ k : Nat, n = ((k + 1 : Nat) : Int) := ⟨(n - 1).toNat, by omega⟩
  rw [zpow_natCast, Nat.cast_succ, add_sub_cancel_right, zpow_natCast, pow_succ]

theorem Denotes.of_raised_one {level : Level} (h : Denotes level a q) :
    Denotes level a (raised q 1) := by
  refine h.of_le fun I v hv => ?_
  obtain ⟨x, hx, rfl⟩ := raised_eq_some.mp hv
  rw [hx, zpow_one]

/-- A repeated factor is a power. -/
theorem Denotes.repeated (h : Denotes .primary a q) (k : Nat) :
    Denotes .product (String.intercalate "*" (List.replicate (k + 1) a))
      (raised q ((k + 1 : Nat) : Int)) := by
  induction k with
  | zero =>
    rw [List.replicate_one, String.intercalate_singleton]
    exact h.primary_to_product.of_raised_one
  | succ k ih =>
    rw [List.replicate_succ, List.replicate_succ, String.intercalate_cons_cons,
      ← List.replicate_succ]
    refine (h.primary_to_product.times separates_times ih).of_le fun I v hv => ?_
    obtain ⟨x, hx, rfl⟩ := raised_eq_some.mp hv
    refine combined_eq_some.mpr ⟨x, _, hx, raised_eq_some.mpr ⟨x, hx, rfl⟩, ?_⟩
    rw [compute?, zpow_natCast, zpow_natCast, ← pow_succ']

end Shading
end Locus
