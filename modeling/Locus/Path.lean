/-!
Paths of files. A path is read with what leads nowhere left out: empty steps and single dots. Two
dots remain, since a step up may not undo the step before it.
-/

namespace Locus
set_option autoImplicit false

/-- The slashes in front of an absolute path, and the steps. -/
structure Path where
  root : String
  steps : List String
deriving DecidableEq, Repr

namespace Path

/-- A path that begins with exactly two slashes keeps both. -/
def rootOf (s : List Char) : String :=
  match (s.takeWhile (· == '/')).length with
  | 0 => ""
  | 2 => "//"
  | _ => "/"

def stepsOf (s : List Char) : List String :=
  ((s.splitOn '/').filter fun part => part ≠ [] && part ≠ ['.']).map String.ofList

def ofText (text : String) : Path := ⟨rootOf text.toList, stepsOf text.toList⟩

def toText (p : Path) : String :=
  if p.root.isEmpty && p.steps.isEmpty then "."
  else p.root ++ String.intercalate "/" p.steps

/-! ## Suffixes -/

/-- Whether a name has a suffix: a point with something on either side of it, and no point after
it. -/
def hasSuffix (name : String) : Bool :=
  let reversed := name.toList.reverse
  match reversed.dropWhile (· ≠ '.') with
  | [] => false
  | _ :: before => !before.isEmpty && (reversed.head?).any (· ≠ '.')

/-- The path with a suffix added to its last step, unless that has one. A path without steps has no
place for it. -/
def withSuffix? (suffix : String) (p : Path) : Option Path :=
  match p.steps.getLast? with
  | none => none
  | some name =>
    if hasSuffix name then some p
    else some { p with steps := p.steps.dropLast ++ [name ++ suffix] }

/-! ## Places -/

/-- Follows steps from a folder below the working folder, whose own steps are reversed. -/
def walk : List String → List String → Option (List String)
  | place, [] => some place.reverse
  | place, step :: rest =>
    if step = ".." then
      match place with
      | [] => none
      | _ :: above => walk above rest
    else walk (step :: place) rest

/-- Where in the working folder a path leads, if it stays there. -/
def placeInside? (p : Path) : Option (List String) :=
  if p.root.isEmpty then walk [] p.steps else none

/-- Whether a file can have this path. No name holds the null character. -/
def isUsable (p : Path) : Bool := p.steps.all fun step => !step.contains (Char.ofNat 0)

end Path
end Locus
