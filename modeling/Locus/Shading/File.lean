import Locus.Path
import Locus.Shading.Source

/-!
Files of fragment shaders. A path without a suffix gets the one of fragment shaders.
-/

namespace Locus
set_option autoImplicit false

namespace Shading

structure SourceFile where
  path : Path
  content : String
deriving DecidableEq, Repr

inductive FileFault where
  | unnamed
  | unusable
  | source (fault : SourceFault)
deriving DecidableEq, Repr

def FileFault.message : FileFault → String
  | unnamed => "The path names no file"
  | unusable => "No file can have this path"
  | source fault => fault.message

def fragmentSuffix : String := ".frag"

/-- The file of the fragment shader of some code. A path that names no file is rejected before the
source is made, and one that no file can have after it. -/
def SourceStyle.file (style : SourceStyle) (code path : String) : Except FileFault SourceFile :=
  match (Path.ofText path).withSuffix? fragmentSuffix with
  | none => .error .unnamed
  | some path => do
    let content ← (style.render fragmentShaderName code).mapError .source
    if path.isUsable then return ⟨path, content⟩ else throw .unusable

end Shading
end Locus
