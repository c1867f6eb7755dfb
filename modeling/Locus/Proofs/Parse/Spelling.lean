import Locus.Proofs.Parse.Completeness
import Locus.Proofs.Token.Splitting

/-! Texts that spell expressions. A text spells an expression if it is lexed by itself, whatever it
stands next to, and the grammar derives the expression from its tokens (`Spells`). Parentheses, signs
and spaces put such texts together. -/

namespace Locus
set_option autoImplicit false

open Locus.Expr Locus.Operator

variable {p : List Char → Prop} {s t l r rest : List Char} {a b e : Expr} {c d : Category}
  {position : Nat}

/-! ## Between texts -/

/-- The characters that belong to no lexeme but their own. -/
def breaks : List Char := ' ' :: signs

theorem breaks_spec : ∀ a ∈ breaks, a ∈ marks ∧ a.isDigit = false ∧ a ≠ '.' :=
  forall_mem_of_all rfl

theorem clear_before {a : Char} (ha : a ∈ breaks) (s rest : List Char) : Clear s (a :: rest) := by
  obtain ⟨hmark, hdigit, hpoint⟩ := breaks_spec a ha
  exact clear_mark s hmark hdigit hpoint rest

theorem clear_after {a : Char} (ha : a ∈ breaks) (hrest : ∀ b ∈ rest, b ∈ alphabet) :
    Clear [a] rest := by
  obtain ⟨hmark, hdigit, -⟩ := breaks_spec a ha
  intro a' ha' b hb
  rw [List.getLast?_singleton, Option.mem_some_iff] at ha'
  subst ha'
  refine ⟨hrest b (List.mem_of_mem_head? hb), fun h => ?_,
    fun h => not_mark_of_beginsName h (by simp) hmark⟩
  rw [hdigit] at h
  cases h

/-! ## Legible p texts -/

/-- The text of a number satisfies `p`, and a name is not empty. -/
structure Token.Meets (p : List Char → Prop) (t : Token) : Prop where
  number : t.kind = .number → p t.text.toList
  named : t.kind = .letter ∨ t.kind = .constant ∨ t.kind = .function → t.text ≠ ""

/-- A text over the alphabet that is lexed by itself, into tokens the numbers of which satisfy `p`. -/
structure Legible (p : List Char → Prop) (s : List Char) : Prop where
  ne_nil : s ≠ []
  known : ∀ a ∈ s, a ∈ alphabet
  splits : Splits s
  meets : ∀ position, ∀ t ∈ lex position s, t.Meets p

theorem Legible.append (hs : Legible p s) (ht : Legible p t) (h : Clear s t) : Legible p (s ++ t) := by
  refine ⟨List.append_ne_nil_of_right_ne_nil s ht.ne_nil, ?_, hs.splits.append ht.splits ht.ne_nil h,
    ?_⟩
  · intro a ha
    exact (List.mem_append.mp ha).elim (hs.known a) (ht.known a)
  · intro position token htoken
    rw [lex_append hs.splits h, List.mem_append] at htoken
    exact htoken.elim (hs.meets position token) (ht.meets _ token)

theorem legible_space : Legible p [' '] := by
  refine ⟨List.cons_ne_nil _ _, ?_, splits_space.1, fun position t ht => ?_⟩
  · intro a ha
    rw [List.mem_singleton.mp ha]
    exact List.mem_append_right _ (breaks_spec ' ' (by simp [breaks])).1
  · rw [splits_space.2] at ht
    cases ht

def signToken (a : Char) (kind : TokenKind) (position : Nat) : Token :=
  ⟨kind, String.ofList [a], position⟩

@[simp]
theorem signToken_kind (a : Char) (kind : TokenKind) (position : Nat) :
    (signToken a kind position).kind = kind := rfl

/-- A sign and the kind of its token. -/
structure IsSign (a : Char) (kind : TokenKind) : Prop where
  sign : a ∈ signs
  kind : signKind? a = some kind

theorem IsSign.kind_ne {a : Char} {kind : TokenKind} (h : IsSign a kind) :
    kind ≠ .number ∧ kind ≠ .letter ∧ kind ≠ .constant ∧ kind ≠ .function := by
  have htable : ∀ a ∈ signs, ∀ kind ∈ signKind? a,
      kind ≠ .number ∧ kind ≠ .letter ∧ kind ≠ .constant ∧ kind ≠ .function :=
    forall_mem_of_all rfl
  exact htable a h.sign kind h.kind

theorem IsSign.mem_breaks {a : Char} {kind : TokenKind} (h : IsSign a kind) : a ∈ breaks :=
  List.mem_cons_of_mem _ h.sign

theorem legible_sign {a : Char} {kind : TokenKind} (h : IsSign a kind) : Legible p [a] := by
  obtain ⟨hsplits, hlex⟩ := splits_sign h.sign h.kind
  refine ⟨List.cons_ne_nil _ _, ?_, hsplits, fun position t ht => ?_⟩
  · intro b hb
    rw [List.mem_singleton.mp hb]
    exact List.mem_append_right _ (mem_marks_of_mem_signs a h.sign)
  · obtain ⟨hnumber, hletter, hconstant, hfunction⟩ := h.kind_ne
    rw [hlex, List.mem_singleton] at ht
    rw [ht]
    refine ⟨fun hk => absurd hk hnumber, fun hk => ?_⟩
    rcases hk with hk | hk | hk
    · exact absurd hk hletter
    · exact absurd hk hconstant
    · exact absurd hk hfunction

theorem Legible.afterSpace (hs : Legible p s) : Legible p (' ' :: s) :=
  legible_space.append hs (clear_after (by simp [breaks]) hs.known)

theorem Legible.afterSign {a : Char} {kind : TokenKind} (h : IsSign a kind) (hs : Legible p s) :
    Legible p (a :: s) :=
  (legible_sign h).append hs (clear_after h.mem_breaks hs.known)

theorem lex_space (hs : Legible p s) : lex position (' ' :: s) = lex (position + 1) s := by
  have h := lex_append splits_space.1 (clear_after (by simp [breaks]) hs.known) position
  rwa [splits_space.2] at h

theorem lex_sign {a : Char} {kind : TokenKind} (h : IsSign a kind) (hs : ∀ b ∈ s, b ∈ alphabet) :
    lex position (a :: s) = signToken a kind position :: lex (position + 1) s := by
  obtain ⟨hsplits, hlex⟩ := splits_sign h.sign h.kind
  have hself := lex_append hsplits (clear_after h.mem_breaks hs) position
  rwa [hlex] at hself

theorem lex_before (hs : Legible p s) {a : Char} (ha : a ∈ breaks) (t : List Char) :
    lex position (s ++ a :: t) = lex position s ++ lex (position + s.length) (a :: t) :=
  lex_append hs.splits (clear_before ha s t) position

/-! ## Spelling -/

/-- What may follow a text of a category. An atom alone can be the base of a power. -/
def Follows (c : Category) (rest : List Token) : Prop :=
  c = .atom ∨ ¬StartsWith (.operator power) rest

/-- A legible text whose tokens are of a category and stand for an expression. -/
structure Spells (p : List Char → Prop) (c : Category) (s : List Char) (e : Expr) : Prop where
  legible : Legible p s
  derives : ∀ position rest, Follows c rest → Derives c (lex position s ++ rest) rest e

/-- The categories in order, each of them within the one before. -/
def Category.tightness : Category → Nat
  | equation => 0
  | sum => 1
  | product => 2
  | unary => 3
  | power => 4
  | atom => 5

/-- What binds more tightly is of every looser category, too. -/
theorem Derives.widen {i r : List Token} (h : Derives c i r e) (hle : d.tightness ≤ c.tightness) :
    Derives d i r e := by
  have hpower : 4 ≤ c.tightness → Derives .power i r e := fun hc => by
    cases c <;> first | exact h | exact .ofAtom h | exact absurd hc (by decide)
  have hunary : 3 ≤ c.tightness → Derives .unary i r e := fun hc => by
    cases c <;> first | exact h | exact .ofPower (hpower (by decide)) | exact absurd hc (by decide)
  have hproduct : 2 ≤ c.tightness → Derives .product i r e := fun hc => by
    cases c <;> first | exact h | exact .ofUnary (hunary (by decide)) | exact absurd hc (by decide)
  have hsum : 1 ≤ c.tightness → Derives .sum i r e := fun hc => by
    cases c <;> first | exact h | exact .ofProduct (hproduct (by decide)) | exact absurd hc (by decide)
  cases d with
  | equation =>
    cases c <;> first | exact h | exact .ofSum (hsum (by decide))
  | sum => exact hsum hle
  | product => exact hproduct hle
  | unary => exact hunary hle
  | power => exact hpower hle
  | atom => cases c <;> first | exact h | exact absurd hle (by decide)

theorem Follows.widen {rest : List Token} (h : Follows d rest) (hle : d.tightness ≤ c.tightness) :
    Follows c rest := by
  rcases h with rfl | h
  · left
    cases c <;> first | rfl | exact absurd hle (by decide)
  · exact .inr h

theorem Spells.widen (h : Spells p c s e) (hle : d.tightness ≤ c.tightness) : Spells p d s e :=
  ⟨h.legible, fun position rest hrest => (h.derives position rest (hrest.widen hle)).widen hle⟩

/-! ## Putting texts together -/

theorem Spells.known (h : Spells p c s e) : ∀ a ∈ s, a ∈ alphabet := h.legible.known

theorem Spells.afterSpace (h : Spells p c s e) : Spells p c (' ' :: s) e := by
  refine ⟨h.legible.afterSpace, fun position rest hrest => ?_⟩
  rw [lex_space h.legible]
  exact h.derives _ rest hrest

theorem Spells.beforeSpace (h : Spells p c s e) : Spells p c (s ++ [' ']) e := by
  have hclear : Clear s [' '] := clear_before (by simp [breaks]) s []
  refine ⟨h.legible.append legible_space hclear, fun position rest hrest => ?_⟩
  rw [lex_append h.legible.splits hclear, splits_space.2, List.append_nil]
  exact h.derives _ rest hrest

theorem isSign_open : IsSign '(' .openParen := ⟨by simp [signs], rfl⟩

theorem isSign_close : IsSign ')' .closeParen := ⟨by simp [signs], rfl⟩

theorem follows_sign {t : Token} (ht : t.kind ≠ .operator power) (c : Category)
    (rest : List Token) : Follows c (t :: rest) :=
  .inr (startsWith_cons.not.mpr ht)

/-- The text of an equation in front of the parenthesis that closes it. -/
theorem Spells.closed (h : Spells p .equation s e) (position : Nat) (rest : List Token) :
    ∃ t, t.kind = .closeParen ∧
      Derives .equation (lex position (s ++ [')']) ++ rest) (t :: rest) e := by
  have hclose : lex (position + s.length) [')']
      = [signToken ')' .closeParen (position + s.length)] := by
    rw [lex_sign isSign_close (by simp), lex_nil]
  refine ⟨signToken ')' .closeParen (position + s.length), rfl, ?_⟩
  rw [lex_before h.legible isSign_close.mem_breaks, hclose, List.append_assoc]
  exact h.derives position _ (follows_sign (by simp) _ rest)

theorem Legible.beforeClose (h : Legible p s) : Legible p (s ++ [')']) :=
  h.append (legible_sign isSign_close) (clear_before isSign_close.mem_breaks s [])

theorem Spells.group (h : Spells p .equation s e) : Spells p .atom ('(' :: (s ++ [')'])) e := by
  refine ⟨h.legible.beforeClose.afterSign isSign_open, fun position rest _ => ?_⟩
  obtain ⟨t, ht, hderives⟩ := h.closed (position + 1) rest
  rw [lex_sign isSign_open h.legible.beforeClose.known]
  exact .group rfl hderives ht

theorem Spells.operate {op : Operator} {sign : Char} (hsign : IsSign sign (.operator op))
    {first second : Category}
    (hrule : ∀ {t : Token} {i m r : List Token}, Derives first i (t :: m) a →
      t.kind = .operator op → Derives second m r b → Derives c i r (.binary op a b))
    (hfirst : first = .atom ∨ op ≠ power) (hc : c ≠ .atom) (hl : Spells p first l a)
    (hr : Spells p second r b) : Spells p c (l ++ sign :: r) (.binary op a b) := by
  have hbreak := hsign.mem_breaks
  refine ⟨hl.legible.append (hr.legible.afterSign hsign) (clear_before hbreak l r), ?_⟩
  intro position rest hrest
  rw [lex_before hl.legible hbreak, lex_sign hsign hr.known, List.append_assoc]
  refine hrule (hl.derives position _ ?_) rfl (hr.derives _ rest (.inr (hrest.resolve_left hc)))
  rcases hfirst with hatom | hop
  · exact .inl hatom
  · exact follows_sign (by simpa using hop) first _

theorem Spells.power (hl : Spells p .atom l a) (hr : Spells p .equation r b) :
    Spells p .power (l ++ '^' :: '(' :: (r ++ [')'])) (.binary power a b) :=
  hl.operate ⟨by simp [signs], rfl⟩ (fun hl ht hr => .power hl ht hr) (.inl rfl) (by decide)
    (hr.group.widen (d := .unary) (by decide))

/-! ## Products without a sign -/

/-- Tokens of a text start neither with a minus nor with a number that a minus would belong to. -/
def Unsigned (s : List Char) : Prop :=
  ∀ position rest, ¬StartsWith (.operator minus) (lex position s ++ rest) ∧
    ¬StartsSigned (lex position s ++ rest)

theorem unsigned_of_head
    (h : ∀ position, ∃ t ∈ (lex position s).head?, t.kind ≠ .operator minus ∧ t.kind ≠ .number) :
    Unsigned s := by
  intro position rest
  obtain ⟨t, ht, hminus, hnumber⟩ := h position
  obtain ⟨more, hmore⟩ := List.head?_eq_some_iff.mp ht
  rw [hmore, List.cons_append, startsWith_cons, startsSigned_cons]
  exact ⟨hminus, fun hsigned => hnumber hsigned.1⟩

theorem unsigned_group (h : Spells p .equation s e) : Unsigned ('(' :: (s ++ [')'])) := by
  refine unsigned_of_head fun position => ⟨signToken '(' .openParen position, ?_, ?_⟩
  · rw [lex_sign isSign_open h.legible.beforeClose.known]
    rfl
  · exact ⟨by simp, by simp⟩

theorem Unsigned.append (hs : Unsigned s) (hlegible : Legible p s) (hclear : Clear s t) :
    Unsigned (s ++ t) := by
  intro position rest
  rw [lex_append hlegible.splits hclear, List.append_assoc]
  exact hs position _

theorem Spells.juxtaposed (hl : Spells p .product l a) (hr : Spells p .unary r b)
    (hunsigned : Unsigned r) (hclear : Clear l r) :
    Spells p .product (l ++ r) (.binary times a b) := by
  refine ⟨hl.legible.append hr.legible hclear, fun position rest hrest => ?_⟩
  rw [lex_append hl.legible.splits hclear, List.append_assoc]
  have hminus := (hunsigned (position + l.length) rest).1
  have hr' := hr.derives (position + l.length) rest (.inr (hrest.resolve_left (by decide)))
  refine .juxtaposed (hl.derives position _ (.inr fun hpower => ?_)) hminus hr'
  obtain ⟨t, more, hhead, hstarts⟩ := hr'.head
  rw [hhead, startsWith_cons] at hpower
  rw [hpower] at hstarts
  rcases hstarts with hstarts | hstarts <;> cases hstarts

/-- A minus in front of what is no number stands for a product with `-1`. -/
theorem Spells.negation (hr : Spells p .unary r b) (hunsigned : Unsigned r) :
    Spells p .unary ('-' :: r) (.binary times (.int (-1)) b) := by
  have hsign : IsSign '-' (.operator minus) := ⟨by simp [signs], rfl⟩
  refine ⟨hr.legible.afterSign hsign, fun position rest hrest => ?_⟩
  rw [lex_sign hsign hr.known]
  exact .negation rfl (hunsigned (position + 1) rest).2 (hr.derives _ rest hrest)

/-! ## Operands -/

theorem spells_letter {x : Char} (hx : x ∈ letters) :
    Spells p .atom [x] (.var (String.ofList [x])) ∧ Unsigned [x] := by
  obtain ⟨kind, hkind, hsplits, hlex⟩ := splits_letter hx
  have hname : kind ≠ .operator minus ∧ kind ≠ .number := by
    rcases hkind with rfl | rfl <;> exact ⟨by decide, by decide⟩
  refine ⟨⟨⟨List.cons_ne_nil _ _, ?_, hsplits, ?_⟩, ?_⟩, ?_⟩
  · intro b hb
    rw [List.mem_singleton.mp hb]
    exact List.mem_append_left _ hx
  · intro position t ht
    rw [hlex, List.mem_singleton] at ht
    rw [ht]
    exact ⟨fun hk => absurd hk hname.2, fun _ => by simp⟩
  · intro position rest _
    rw [hlex]
    exact .name hkind
  · refine unsigned_of_head fun position => ⟨⟨kind, String.ofList [x], position⟩, ?_, hname⟩
    rw [hlex]
    rfl

theorem spells_call {f : String} (hf : f ∈ FunctionTable.standard.names)
    (h : Spells p .equation s e) :
    Spells p .atom (f.toList ++ '(' :: (s ++ [')'])) (.call f e) ∧
      Unsigned (f.toList ++ '(' :: (s ++ [')'])) := by
  obtain ⟨hsplits, hlex⟩ := splits_call hf
  have hne : f ≠ "" := by
    rintro rfl
    have hlength := (lexedNames_spelling "" (List.mem_append_left _ hf)).1
    cases hlength
  have hopen : Legible p (f.toList ++ ['(']) := by
    refine ⟨by simp, fun b hb => ?_, hsplits, fun position t ht => ?_⟩
    · rcases List.mem_append.mp hb with hb | hb
      · exact List.mem_append_left _ (List.mem_append_left _ (functionName_spelling hf b hb))
      · rw [List.mem_singleton.mp hb]
        exact List.mem_append_right _ (mem_marks_of_mem_signs '(' isSign_open.sign)
    · rw [hlex, List.mem_pair] at ht
      rcases ht with rfl | rfl
      · exact ⟨by simp, fun _ => hne⟩
      · exact ⟨by simp, by simp⟩
  have hclear : Clear (f.toList ++ ['(']) (s ++ [')']) :=
    (clear_append (List.cons_ne_nil _ _) _).mpr
      (clear_after isSign_open.mem_breaks h.legible.beforeClose.known)
  rw [List.append_cons]
  refine ⟨⟨hopen.append h.legible.beforeClose hclear, fun position rest _ => ?_⟩, ?_⟩
  · obtain ⟨t, ht, hderives⟩ := h.closed (position + (f.toList ++ ['(']).length) rest
    rw [lex_append hsplits hclear, hlex, List.append_assoc]
    exact .callGroup rfl rfl hderives ht
  · refine Unsigned.append (unsigned_of_head fun position => ?_) hopen hclear
    refine ⟨⟨.function, f, position⟩, ?_, by simp, by simp⟩
    rw [hlex]
    rfl

/-! ## Numerals -/

section

variable {v : Literal}

def numeralToken (s : List Char) (position : Nat) : Token :=
  ⟨.number, String.ofList s, position⟩

theorem lex_numeral (h : v.IsTyped s) : lex position s = [numeralToken s position] :=
  (splits_numeral h.plain h.ascii h.last).2 position

theorem legible_numeral (h : v.IsTyped s) (hp : p s) : Legible p s := by
  refine ⟨?_, fun a ha => ?_, (splits_numeral h.plain h.ascii h.last).1, fun position t ht => ?_⟩
  · rintro rfl
    obtain ⟨last, hlast, -⟩ := h.last
    cases hlast
  · rcases h.ascii a ha with hdigit | rfl
    · exact List.mem_append_right _ (mem_marks_of_isDigit hdigit)
    · exact List.mem_append_right _ (List.mem_append_left _ (by simp))
  · rw [lex_numeral h, List.mem_singleton] at ht
    subst ht
    exact ⟨fun _ => by rwa [numeralToken, String.toList_ofList], fun hk => by simp [numeralToken] at hk⟩

theorem spells_numeral (h : v.IsTyped s) (hp : p s) :
    Spells p .atom s (.number (Numeral.literal s)) := by
  refine ⟨legible_numeral h hp, fun position rest _ => ?_⟩
  have hnumber : Derives .atom (numeralToken s position :: rest) rest _ := .number rfl
  rw [numeralToken, String.toList_ofList] at hnumber
  rw [lex_numeral h]
  exact hnumber

/-- A minus belongs to the numeral behind it unless that is the base of a power. -/
theorem spells_negative (h : v.IsTyped s) (hp : p s) :
    Spells p .power ('-' :: s) (.number (Numeral.literal s).neg) := by
  have hsign : IsSign '-' (.operator minus) := ⟨by simp [signs], rfl⟩
  refine ⟨(legible_numeral h hp).afterSign hsign, fun position rest hrest => ?_⟩
  have hfollows : IsSigned (numeralToken s (position + 1)) rest :=
    ⟨rfl, hrest.resolve_left (by decide)⟩
  have hnegative : Derives .atom
      (signToken '-' (.operator minus) position :: numeralToken s (position + 1) :: rest) rest _ :=
    .negative rfl hfollows
  rw [numeralToken, String.toList_ofList] at hnegative
  rw [lex_sign hsign (legible_numeral h hp).known, lex_numeral h]
  exact .ofAtom hnegative

/-- A power of a numeral does not take a minus in front of it for the numeral's own. -/
theorem unsigned_numeralPower (h : v.IsTyped s) (hp : p s) (ht : ∀ b ∈ t, b ∈ alphabet) :
    Unsigned (s ++ '^' :: t) := by
  have hsign : IsSign '^' (.operator power) := ⟨by simp [signs], rfl⟩
  intro position rest
  rw [lex_before (legible_numeral h hp) hsign.mem_breaks, lex_numeral h, lex_sign hsign ht]
  rw [List.singleton_append, List.cons_append, List.cons_append, startsWith_cons, startsSigned_cons,
    IsSigned, startsWith_cons]
  exact ⟨by simp [numeralToken], fun hsigned => hsigned.2 rfl⟩

end

end Locus
