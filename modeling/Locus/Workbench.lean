import Locus.Markup
import Locus.Parse.Basic
import Locus.Shading.Code

/-!
Workbenches: tables of functions and operators that can be added to, with the tools built on them.
The tools look entries up when they need them, but the names that lexing and markup go by are those
that the table held when the tools were built.
-/

namespace Locus
set_option autoImplicit false

structure Workbench where
  functions : FunctionTable
  operators : OperatorTable
  names : List String
  reserved : List String
  unrollLimit : Int

namespace Workbench

def build (functions : FunctionTable) (operators : OperatorTable) (unrollLimit : Int) :
    Workbench where
  functions
  operators
  names := functions.names
  reserved := Markup.reservedNames functions
  unrollLimit

def standard : Workbench := build .standard .standard Shading.standardUnrollLimit

def addFunction (b : Workbench) (entry : FunctionEntry) : Workbench :=
  { b with functions := b.functions.add entry }

def addOperator (b : Workbench) (entry : OperatorEntry) : Workbench :=
  { b with operators := b.operators.add entry }

def rebuild (b : Workbench) (unrollLimit : Int) : Workbench :=
  build b.functions b.operators unrollLimit

def tokenize (b : Workbench) (text : String) : List Token := Locus.tokenize b.names text

def parse (b : Workbench) (text : String) : Except ParseError Expr :=
  Locus.parse b.names b.operators text

def parseReport (b : Workbench) (text : String) : Except ParseError ParseReport :=
  Locus.parseReport b.names b.operators text

def markup (b : Workbench) (e : Expr) : Except NumericFault String := Markup.render b.reserved e

def code (b : Workbench) (e : Expr) : Except NumericFault String :=
  Shading.code ⟨b.functions, b.unrollLimit⟩ e

end Workbench
end Locus
