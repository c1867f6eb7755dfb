import Locus.Expr.Node
import Locus.Json
import Locus.Plot.Basic
import Locus.Text.Quoted

/-!
Reports on plots: as lines to read, or as a record in JSON.
-/

namespace Locus
set_option autoImplicit false

/-! ## Lines -/

def numberedLines : Nat → List String → List String
  | _, [] => []
  | n, text :: rest => ("  " ++ toString n ++ ". " ++ text) :: numberedLines (n + 1) rest

def stepLines (p : Plot) : List String :=
  if p.iterations = 0 then [] else "" :: "Simplification steps:" :: numberedLines 0 p.steps

def stopLines (p : Plot) : List String :=
  if p.settled then []
  else
    ["", "⚠️  Stopped after " ++ toString p.iterations ++ " steps without reaching a fixpoint"]

def Plot.lines (p : Plot) : List String :=
  ["Notation: " ++ p.markup]
  ++ stepLines p
  ++ stopLines p
  ++ ["", "Simplified: " ++ p.simplifiedMarkup, "Code: " ++ p.code]

def rejectionLine (text : String) (error : ParseError) : String :=
  "❌ Could not parse " ++ quoted text ++ ": " ++ error.message

/-! ## Records -/

def natDatum (n : Nat) : Datum := .number (.int n)

def plotFields (p : Plot) : List (String × Datum) := [
  ("root", p.expr.toNode.toDatum),
  ("simplified_root", p.simplified.toNode.toDatum),
  ("notation", .text p.markup),
  ("simplified_notation", .text p.simplifiedMarkup),
  ("steps", .list (p.steps.map .text)),
  ("code", .text p.code),
  ("iterations", natDatum p.iterations),
  ("reached_fixpoint", .bool p.settled)]

/-- The same fields where there is no plot. -/
def noPlotFields : List (String × Datum) := [
  ("root", .null),
  ("simplified_root", .null),
  ("notation", .text ""),
  ("simplified_notation", .text ""),
  ("steps", .list []),
  ("code", .text ""),
  ("iterations", natDatum 0),
  ("reached_fixpoint", .bool true)]

def Outcome.record (o : Outcome) : Datum :=
  let success := match o.result with | .ok _ => true | .error _ => false
  let (fields, nodesCount, error) :=
    match o.result with
    | .ok p => (plotFields p, p.nodesCount, Datum.null)
    | .error e => (noPlotFields, 0, .text e.message)
  .record (
    [("success", .bool success), ("original_expression", .text o.text)]
    ++ fields
    ++ [("tokens_count", natDatum o.tokensCount), ("nodes_count", natDatum nodesCount),
      ("error_message", error)])

end Locus
