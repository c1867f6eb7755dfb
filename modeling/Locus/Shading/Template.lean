import Locus.Datum
import Locus.Text.Word

/-!
Templates: source texts with holes that the values of a context fill. A hole says in which form its
value is written. A part of a template may depend on whether a value holds.
-/

namespace Locus
set_option autoImplicit false

namespace Shading

/-- Values by name. -/
abbrev Context : Type := List (String × Datum)

/-- How the value of a hole is written: as its text, as a floating point literal, as a vector of four
of them, or as an identifier. -/
inductive HoleForm where
  | plain
  | literal
  | color
  | identifier
deriving DecidableEq, Repr

inductive Piece where
  | text (s : String)
  | hole (form : HoleForm) (name : String)
  | whenHolds (name : String) (pieces : List Piece)

inductive SourceFault where
  | undefinedName (name : String)
  | unknownTemplate (name : String)
  | unknownSetting (name : String)
  | wrongCount (n : Nat)
  | notNumber
  | notSequence
  | notText
  | notFolder
  | numeric (fault : NumericFault)
deriving DecidableEq, Repr

def SourceFault.message : SourceFault → String
  | undefinedName name => "'" ++ name ++ "' is undefined"
  | unknownTemplate name => "No template " ++ name
  | unknownSetting name => "No setting " ++ name
  | wrongCount n => "vec4 needs 4 components, got " ++ toString n
  | notNumber => "A number is needed"
  | notSequence => "A sequence is needed"
  | notText => "A text is needed"
  | notFolder => "A folder is needed"
  | numeric fault => fault.message

/-! ## Forms -/

def literalText (d : Datum) : Except SourceFault String :=
  match d.literal? with
  | some v => v.code.mapError .numeric
  | none => .error .notNumber

/-- The elements of a sequence: of a text its characters, of a record its field names. -/
def elements? : Datum → Option (List Datum)
  | .list items => some items
  | .text s => some (s.toList.map fun c => .text (String.ofList [c]))
  | .record fields => some (fields.map fun field => .text field.1)
  | _ => none

/-- The value as a vector of four literals. The number of elements is checked before them. -/
def colorText (d : Datum) : Except SourceFault String := do
  match elements? d with
  | none => throw .notSequence
  | some items =>
    if items.length ≠ 4 then throw (.wrongCount items.length)
    let components ← items.mapM literalText
    return "vec4(" ++ String.intercalate ", " components ++ ")"

def identifierText : Datum → Except SourceFault String
  | .text s => .ok (String.ofList (identifier s.toList))
  | _ => .error .notText

def HoleForm.write : HoleForm → Datum → Except SourceFault String
  | plain, d => d.display.mapError .numeric
  | literal, d => literalText d
  | color, d => colorText d
  | identifier, d => identifierText d

/-! ## Filling -/

def valueOf (context : Context) (name : String) : Except SourceFault Datum :=
  match context.lookup name with
  | some d => .ok d
  | none => .error (.undefinedName name)

mutual

def Piece.fill (context : Context) : Piece → Except SourceFault String
  | .text s => .ok s
  | .hole form name => do form.write (← valueOf context name)
  | .whenHolds name pieces => do
    if (← valueOf context name).holds then fillAll context pieces else return ""

/-- The text of pieces one after the other. The first one that cannot be filled decides the fault. -/
def fillAll (context : Context) : List Piece → Except SourceFault String
  | [] => .ok ""
  | piece :: rest => do
    let text ← piece.fill context
    return text ++ (← fillAll context rest)

end

end Shading
end Locus
