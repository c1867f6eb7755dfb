import Locus.Proofs.Markup.RoundTrip
import Locus.Proofs.Parse.Unambiguous

/-! Markup tells expressions apart. Two expressions with the same markup are the same node for node,
literals by value (`agrees_of_render`). This holds beyond the range of what can be read back. -/

namespace Locus
set_option autoImplicit false

open Locus.Expr Locus.Operator Locus.Markup

variable {reserved : List String} {e e' : Expr} {markup : String}

/-- An expression is rendered only if each of its literals is written. -/
theorem isWritten_of_render (hfinite : e.AllLiterals Literal.IsFinite)
    (h : Markup.render reserved e = .ok markup) :
    e.AllLiterals (Literal.IsWritten fun _ => True) := by
  induction e generalizing markup with
  | number v => exact Literal.isWritten_of_typed hfinite h
  | call f a ih =>
    obtain ⟨text, ha, -⟩ := bind_eq_ok.mp h
    exact ih hfinite ha
  | binary op l r ihl ihr =>
    obtain ⟨left, hl, h⟩ := bind_eq_ok.mp h
    obtain ⟨right, hr, -⟩ := bind_eq_ok.mp h
    exact ⟨ihl hfinite.1 hl, ihr hfinite.2 hr⟩
  | _ => trivial

theorem rendered_of_render (hnamed : e.Named) (hfinite : e.AllLiterals Literal.IsFinite)
    (h : Markup.render standardReserved e = .ok markup) :
    ∃ s t, Rendered (fun _ => True) e markup s t := by
  obtain ⟨text, s, t, hrendered⟩ := exists_rendered hnamed (isWritten_of_render hfinite h)
  obtain rfl : markup = text := Except.ok.inj (h.symm.trans hrendered.renders)
  exact ⟨s, t, hrendered⟩

theorem agrees_of_render (hnamed : e.Named) (hfinite : e.AllLiterals Literal.IsFinite)
    (hnamed' : e'.Named) (hfinite' : e'.AllLiterals Literal.IsFinite)
    (h : Markup.render standardReserved e = .ok markup)
    (h' : Markup.render standardReserved e' = .ok markup) : ∃ t, e.Agrees t ∧ e'.Agrees t := by
  obtain ⟨s, t, hrendered⟩ := rendered_of_render hnamed hfinite h
  obtain ⟨s', t', hrendered'⟩ := rendered_of_render hnamed' hfinite' h'
  have htext : s = s' := by
    have hplain := hrendered.unmarks.plain_eq.symm.trans hrendered'.unmarks.plain_eq
    simpa using congrArg String.toList hplain
  subst htext
  have hspells : Spells (fun _ => True) .equation s t := hrendered.spells.widen (Nat.zero_le _)
  have hspells' : Spells (fun _ => True) .equation s t' := hrendered'.spells.widen (Nat.zero_le _)
  have hend : Follows .equation [] := .inr fun ⟨_, ht, _⟩ => nomatch ht
  obtain rfl : t = t' := Derives.unique
    (fun u hu => (hspells.legible.meets 0 u (by simpa using hu)).named)
    (hspells.derives 0 [] hend) (hspells'.derives 0 [] hend)
  exact ⟨t, hrendered.agrees, hrendered'.agrees⟩

end Locus
