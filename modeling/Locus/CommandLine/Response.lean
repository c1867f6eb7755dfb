import Locus.CommandLine.Arguments
import Locus.Report
import Locus.Shading.File

/-!
Responses to the command line: an exit code, the output and perhaps the file of a shader.
-/

namespace Locus
set_option autoImplicit false

namespace CommandLine

structure Response where
  exitCode : Nat
  output : String
  file : Option Shading.SourceFile
deriving DecidableEq, Repr

inductive CommandFault where
  | plot (fault : PlotFault)
  | file (fault : Shading.FileFault)
deriving DecidableEq, Repr

def CommandFault.message : CommandFault → String
  | plot (.numeric fault) => fault.message
  | plot (.parse error) => error.message
  | file fault => fault.message

def unlines (lines : List String) : String := String.join (lines.map (· ++ "\n"))

def helpLines : List String := [
  "usage: equation-grapher [-h] [--max-iterations N] [--no-simplify]",
  "                        [--no-auto-complete] [--shader PATH] [--json]",
  "                        [--verbose]",
  "                        expression",
  "",
  "Simplify an equation and convert it to shader code",
  "",
  "positional arguments:",
  "  expression          Expression or equation to process",
  "",
  "options:",
  "  -h, --help          show this help message and exit",
  "  --max-iterations N  Maximum number of simplification steps (default: 20)",
  "  --no-simplify       Render the parsed expression without simplifying it",
  "  --no-auto-complete  Do not turn a bare expression into an equation",
  "  --shader PATH       Write a fragment shader plotting the expression to PATH",
  "  --json              Print the full result as JSON",
  "  --verbose, -v       Enable debug logging",
  "",
  "Examples:",
  "  # Show the simplification steps and the generated code",
  "  equation-grapher \"y = x^2 - 2x + 1\"",
  "",
  "  # Write a fragment shader that plots a circle",
  "  equation-grapher \"x^2 + y^2 = 4\" --shader circle.frag",
  "",
  "  # Print the full result as JSON",
  "  equation-grapher \"sin(x)\" --json",
  "        "]

def plotLines (request : Request) (outcome : Outcome) (p : Plot) : List String :=
  if request.json then [Json.text outcome.record] else p.lines

/-- The line about a written file, which stays out of JSON. -/
def fileLines (request : Request) (file : Option Shading.SourceFile) : List String :=
  match file with
  | some f => if request.json then [] else ["", "✅ Fragment shader written to " ++ f.path.toText]
  | none => []

def shaderFile (request : Request) (p : Plot) :
    Except CommandFault (Option Shading.SourceFile) :=
  match request.shader with
  | none => .ok none
  | some path => do
    let file ← (Shading.SourceStyle.standard.file p.code path).mapError .file
    return some file

def Request.respond (request : Request) : Except CommandFault Response := do
  let outcome ← (plot request.options request.expression).mapError .plot
  match outcome.result with
  | .error error => return ⟨1, unlines [rejectionLine outcome.text error], none⟩
  | .ok p =>
    let file ← shaderFile request p
    return ⟨0, unlines (plotLines request outcome p ++ fileLines request file), file⟩

def Invocation.respond : Invocation → Except CommandFault Response
  | .help => .ok ⟨0, unlines helpLines, none⟩
  | .invalid => .ok ⟨2, "", none⟩
  | .run request => request.respond

def respond (texts : List String) : Except CommandFault Response := (invocation texts).respond

end CommandLine
end Locus
