import Locus.Lenient

/-!
Options of a plot, and how they are read from a record. Fields that are not given have standard
values, and every issue with the record is reported.
-/

namespace Locus
set_option autoImplicit false

structure PlotOptions where
  maxSteps : Nat := 20
  completes : Bool := true
  simplifies : Bool := true
deriving Repr, DecidableEq

namespace PlotOptions

def standard : PlotOptions := {}

/-- A number of steps. There is at least one. -/
def readSteps (d : Datum) : Except IssueCause Nat := do
  let n ← Lenient.integer d
  if n < 1 then throw .tooSmall else return n.toNat

/-! ## Records -/

def fieldNames : List String := ["max_iterations", "auto_complete_equation", "simplify"]

/-- The value of a field, or a standard one where the field is not given. -/
def readField {α : Type} (fields : List (String × Datum)) (name : String) (standard : α)
    (read : Datum → Except IssueCause α) : Except Issue α :=
  match fields.lookup name with
  | none => .ok standard
  | some d => (read d).mapError (⟨[name], ·⟩)

def issueOf {α : Type} : Except Issue α → List Issue
  | .ok _ => []
  | .error issue => [issue]

/-- The options that fields describe, or all issues with them. -/
def ofFields (fields : List (String × Datum)) : Except (List Issue) PlotOptions :=
  let maxSteps := readField fields "max_iterations" standard.maxSteps readSteps
  let completes := readField fields "auto_complete_equation" standard.completes Lenient.truthValue
  let simplifies := readField fields "simplify" standard.simplifies Lenient.truthValue
  let unknown := (fields.map (·.1)).filter (!fieldNames.contains ·)
  let issues := issueOf maxSteps ++ issueOf completes ++ issueOf simplifies
    ++ unknown.map (⟨[·], .unknownField⟩)
  match maxSteps, completes, simplifies, issues with
  | .ok n, .ok c, .ok s, [] => .ok ⟨n, c, s⟩
  | _, _, _, _ => .error issues

end PlotOptions
end Locus
