import Locus.Markup

/-! Markup as plain infix. The text is gone through from left to right: a superscript becomes `^`
with parentheses, a ratio `/` between two pairs of them. A piece of markup that is rewritten by itself,
whatever follows it, can be put together with others (`Unmarks`). -/

namespace Locus
set_option autoImplicit false

namespace Markup

/-! ## Tags -/

inductive Tag where
  | ratio
  | divider
  | endRatio
  | superscript
  | endSuperscript
deriving DecidableEq

namespace Tag

def all : List Tag := [ratio, divider, endRatio, superscript, endSuperscript]

def text : Tag → String
  | ratio => "<span class=\"ratio\"><span>"
  | divider => "</span><span>"
  | endRatio => "</span></span>"
  | superscript => "<sup>"
  | endSuperscript => "</sup>"

/-- The plain infix that stands for a tag. -/
def plain : Tag → List Char
  | ratio => ['(', '(']
  | divider => [')', '/', '(']
  | endRatio => [')', ')']
  | superscript => ['^', '(']
  | endSuperscript => [')']

def leading? (s : List Char) : Option Tag := all.find? (·.text.toList.isPrefixOf s)

theorem mem_all (tag : Tag) : tag ∈ all := by cases tag <;> decide

theorem text_apart : ∀ a ∈ all, ∀ b ∈ all, a.text.toList <+: b.text.toList → a = b := by decide

theorem exists_text_cons (tag : Tag) : ∃ s, tag.text.toList = '<' :: s := by
  have htable : ∀ tag ∈ all, tag.text.toList.head? = some '<' := by decide
  exact List.head?_eq_some_iff.mp (htable tag tag.mem_all)

theorem leading?_append (tag : Tag) (rest : List Char) :
    leading? (tag.text.toList ++ rest) = some tag := by
  have hself : tag.text.toList <+: tag.text.toList ++ rest := List.prefix_append _ _
  rw [leading?]
  cases hfind : all.find? (·.text.toList.isPrefixOf (tag.text.toList ++ rest)) with
  | none =>
    have hnot := List.find?_eq_none.mp hfind tag tag.mem_all
    exact absurd (List.isPrefixOf_iff_prefix.mpr hself) hnot
  | some other =>
    have hprefix := List.find?_some hfind
    rw [List.isPrefixOf_iff_prefix] at hprefix
    rcases List.prefix_or_prefix_of_prefix hprefix hself with hle | hle
    · rw [text_apart other other.mem_all tag tag.mem_all hle]
    · rw [text_apart tag tag.mem_all other other.mem_all hle]

theorem leading?_eq_none {c : Char} (h : c ≠ '<') (s : List Char) : leading? (c :: s) = none := by
  rw [leading?, List.find?_eq_none]
  intro tag _ hprefix
  obtain ⟨t, ht⟩ := tag.exists_text_cons
  rw [ht, List.isPrefixOf_iff_prefix, List.cons_prefix_cons] at hprefix
  exact h hprefix.1.symm

end Tag

/-! ## Rewriting -/

def unmark : List Char → List Char
  | [] => []
  | c :: s =>
    match Tag.leading? (c :: s) with
    | some tag => tag.plain ++ unmark (s.drop (tag.text.length - 1))
    | none => c :: unmark s
termination_by s => s.length

/-- The plain infix that markup stands for. -/
def plain (markup : String) : String := String.ofList (unmark markup.toList)

/-! ## Pieces of markup -/

/-- `s` is rewritten as `t`, whatever follows it. -/
def Unmarks (s t : List Char) : Prop :=
  ∀ rest, unmark (s ++ rest) = t ++ unmark rest

theorem Unmarks.nil : Unmarks [] [] := fun _ => rfl

theorem Unmarks.append {s t s' t' : List Char} (h : Unmarks s t) (h' : Unmarks s' t') :
    Unmarks (s ++ s') (t ++ t') := fun rest => by
  rw [List.append_assoc, h, h', List.append_assoc]

theorem Unmarks.tag (tag : Tag) : Unmarks tag.text.toList tag.plain := by
  intro rest
  obtain ⟨s, hs⟩ := tag.exists_text_cons
  have hleading := tag.leading?_append rest
  rw [hs, List.cons_append] at hleading
  rw [hs, List.cons_append, unmark, hleading]
  dsimp only
  rw [← String.length_toList, hs, List.length_cons, Nat.add_sub_cancel, List.drop_left]

theorem Unmarks.text {s : List Char} (h : ∀ c ∈ s, c ≠ '<') : Unmarks s s := by
  induction s with
  | nil => exact Unmarks.nil
  | cons c s ih =>
    intro rest
    rw [List.cons_append, unmark, Tag.leading?_eq_none (h c List.mem_cons_self)]
    dsimp only
    rw [ih fun d hd => h d (List.mem_cons_of_mem c hd)]
    rfl

theorem Unmarks.plain_eq {markup : String} {t : List Char} (h : Unmarks markup.toList t) :
    plain markup = String.ofList t := by
  have hnil : unmark [] = [] := by rw [unmark]
  have hself := h []
  rw [List.append_nil, hnil, List.append_nil] at hself
  rw [plain, hself]

/-! ## Containers -/

variable {l r : String} {l' r' : List Char}

def wrapIf (condition : Bool) (s : List Char) : List Char :=
  if condition then '(' :: (s ++ [')']) else s

theorem unmarks_parenthesizeIf (condition : Bool) (h : Unmarks l.toList l') :
    Unmarks (parenthesizeIf condition l).toList (wrapIf condition l') := by
  cases condition with
  | false => exact h
  | true =>
    have hopen : Unmarks ['('] ['('] := .text (by simp)
    have hclose : Unmarks [')'] [')'] := .text (by simp)
    simpa [parenthesizeIf, wrapIf] using hopen.append (h.append hclose)

theorem unmarks_superscript (h : Unmarks l.toList l') :
    Unmarks (superscript l).toList ('^' :: '(' :: (l' ++ [')'])) := by
  have htext : superscript l = Tag.superscript.text ++ l ++ Tag.endSuperscript.text := rfl
  rw [htext, String.toList_append, String.toList_append, List.append_assoc]
  exact (Unmarks.tag .superscript).append (h.append (Unmarks.tag .endSuperscript))

theorem unmarks_fraction (hl : Unmarks l.toList l') (hr : Unmarks r.toList r') :
    Unmarks (fraction l r).toList
      ('(' :: '(' :: (l' ++ ')' :: '/' :: '(' :: (r' ++ [')', ')']))) := by
  have htext : fraction l r
      = Tag.ratio.text ++ l ++ Tag.divider.text ++ r ++ Tag.endRatio.text := rfl
  rw [htext, String.toList_append, String.toList_append, String.toList_append,
    String.toList_append, List.append_assoc, List.append_assoc, List.append_assoc]
  exact (Unmarks.tag .ratio).append
    (hl.append ((Unmarks.tag .divider).append (hr.append (Unmarks.tag .endRatio))))

end Markup
end Locus
