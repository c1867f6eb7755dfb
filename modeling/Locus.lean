import Locus.CommandLine.Response
import Locus.Expr.Commuted
import Locus.Main
import Locus.Proofs.Parse.Correctness
import Locus.Proofs.Parse.Names
import Locus.Proofs.Plot.Coherence
import Locus.Proofs.Plot.Completion
import Locus.Proofs.Plot.Settling
import Locus.Proofs.Shading.Meaning
import Locus.Proofs.Simplify.Criterion
import Locus.Proofs.Simplify.Termination
import Locus.Proofs.Shading.Callees
import Locus.Workbench
import Locus.Proofs.Expr.Commuted
import Locus.Proofs.Simplify.Variables
import Locus.Proofs.Numeric.Nearest
import Locus.Proofs.Numeric.Whole
import Locus.Proofs.Plot.Pointed
import Locus.Proofs.Simplify.Vanishing
import Locus.Proofs.Simplify.Outermost
import Locus.Proofs.Markup.Printed
import Locus.Proofs.Parse.Culprit
import Locus.Proofs.Shading.Outline
import Locus.Proofs.Shading.Identifiers
