import Locus.Text.LetterCase

/-!
The functions that can be called, with what each is called in shading code. A table keeps one entry
per name. Looking a name up lowers its case first.
-/

namespace Locus
set_option autoImplicit false

structure FunctionEntry where
  name : String
  code : String
  description : String
deriving DecidableEq, Repr

structure FunctionTable where
  entries : List FunctionEntry

namespace FunctionTable

def empty : FunctionTable := ⟨[]⟩

def add (t : FunctionTable) (e : FunctionEntry) : FunctionTable :=
  ⟨t.entries.filter (·.name != e.name) ++ [e]⟩

def find? (t : FunctionTable) (name : String) : Option FunctionEntry :=
  let lowered := String.ofList (lowerCase name.toList)
  t.entries.find? (·.name == lowered)

def contains (t : FunctionTable) (name : String) : Bool := (t.find? name).isSome

/-- Longer names come first, and names of one length in the order of their code points. -/
def comesBefore (a b : String) : Bool :=
  decide (b.length < a.length) || (a.length == b.length && decide (a ≤ b))

def insertName (name : String) : List String → List String
  | [] => [name]
  | n :: rest => if comesBefore name n then name :: n :: rest else n :: insertName name rest

def names (t : FunctionTable) : List String :=
  (t.entries.map (·.name)).foldr insertName []

def standard : FunctionTable := ⟨[
  ⟨"sin", "sin", "Sine"⟩,
  ⟨"cos", "cos", "Cosine"⟩,
  ⟨"tan", "tan", "Tangent"⟩,
  ⟨"abs", "abs", "Absolute value"⟩,
  ⟨"floor", "floor", "Round down"⟩,
  ⟨"ceil", "ceil", "Round up"⟩,
  ⟨"sqrt", "sqrt", "Square root"⟩,
  ⟨"exp", "exp", "Natural exponential"⟩,
  ⟨"ln", "log", "Natural logarithm"⟩]⟩

end FunctionTable
end Locus
