import Locus.CommandLine.Response

/-!
The program: responds to its arguments, writes the file that the response holds, and exits with its
code.
-/

namespace Locus
set_option autoImplicit false

def Path.folder (p : Path) : Path := { p with steps := p.steps.dropLast }

def Shading.SourceFile.write (file : Shading.SourceFile) : IO Unit := do
  IO.FS.createDirAll file.path.folder.toText
  IO.FS.writeFile file.path.toText file.content

def CommandLine.Response.deliver (response : CommandLine.Response) : IO UInt32 := do
  match response.file with
  | some file => file.write
  | none => pure ()
  IO.print response.output
  return response.exitCode.toUInt32

end Locus

def main (arguments : List String) : IO UInt32 := do
  match Locus.CommandLine.respond arguments with
  | .ok response => response.deliver
  | .error fault =>
    IO.eprintln fault.message
    return 1
