import Locus.Shading.Template

/-!
Sources of shaders. A sample function holds the shading code of a formula. A fragment shader
evaluates it at the four neighbours of a pixel and colours the pixel where the sign changes, which
traces the curve on which the code is zero.
-/

namespace Locus
set_option autoImplicit false

namespace Shading

/-! ## Templates -/

def sampleFunction : List Piece := [
  .text "float ", .hole .identifier "function_name", .text "(float x, float y) \x7b\n",
  .text "    return ", .hole .plain "code", .text ";\n",
  .text "\x7d\n"]

/-- A line that samples the curve beside the pixel. -/
def neighbour (variableName arguments : String) : List Piece := [
  .text ("    float " ++ variableName ++ " = "), .hole .identifier "function_name",
  .text ("(" ++ arguments ++ ");\n")]

def axes : List Piece := [
  .text "    float axisWidth = max(", .hole .literal "axis_width", .text ", uWidth);\n",
  .text "    if (abs(vPosition.x) < axisWidth || abs(vPosition.y) < axisWidth) \x7b\n",
  .text "        color = ", .hole .color "axis_color", .text ";\n",
  .text "    \x7d\n"]

def curve : List Piece := [
  .text "    if (leftSample * rightSample < 0.0 || downSample * upSample < 0.0) \x7b\n",
  .text "        color = ", .hole .color "curve_color", .text ";\n",
  .text "    \x7d\n"]

def fragmentShader : List Piece :=
  [.text "precision ", .hole .plain "precision", .text " float;\n",
    .text "uniform sampler2D uSampler;\n",
    .text "uniform float uWidth;\n",
    .text "varying vec2 vPosition;\n\n"]
  ++ sampleFunction
  ++ [.text "\nvoid main(void) \x7b\n",
    .text "    lowp vec4 color = texture2D(uSampler, vPosition);\n",
    .whenHolds "draw_axes" axes,
    .text "\n"]
  ++ neighbour "leftSample" "vPosition.x - uWidth, vPosition.y"
  ++ neighbour "rightSample" "vPosition.x + uWidth, vPosition.y"
  ++ neighbour "downSample" "vPosition.x, vPosition.y - uWidth"
  ++ neighbour "upSample" "vPosition.x, vPosition.y + uWidth"
  ++ [.text "\n"]
  ++ curve
  ++ [.text "\n    gl_FragColor = color;\n\x7d\n"]

/-! ## The shipped templates by name -/

def fragmentShaderName : String := "fragment_shader.glsl.j2"

def sampleFunctionName : String := "sample_function.glsl.j2"

def templates : List (String × List Piece) :=
  [(fragmentShaderName, fragmentShader), (sampleFunctionName, sampleFunction)]

/-- A folder of templates: the shipped one or one that is not there. -/
inductive TemplateFolder where
  | shipped
  | missing
deriving DecidableEq, Repr

namespace TemplateFolder

def templates : TemplateFolder → List (String × List Piece)
  | shipped => Shading.templates
  | missing => []

def names (folder : TemplateFolder) : List String := folder.templates.map (·.1)

/-- The steps of a name that lead somewhere. -/
def steps (name : String) : List (List Char) :=
  (name.toList.splitOn '/').filter fun part => part ≠ [] && part ≠ ['.']

/-- Whether a name leads to something: to the folder itself, to a template, or to a folder that holds
this one. A name that begins with a slash starts from the root, of which nothing else is known. -/
def contains (folder : TemplateFolder) (name : String) : Bool :=
  if name.startsWith "/" then (steps name).isEmpty
  else
    match folder, steps name with
    | missing, _ => false
    | shipped, [part] => part == ['.', '.'] || folder.names.contains (String.ofList part)
    | shipped, parts => parts.all (· == ['.', '.'])

/-- The template of a name. No step of the name leads out of the folder. -/
def find? (folder : TemplateFolder) (name : String) : Option (List Piece) :=
  match steps name with
  | [part] => folder.templates.lookup (String.ofList part)
  | _ => none

def render (folder : TemplateFolder) (name : String) (context : Context) :
    Except SourceFault String :=
  match folder.find? name with
  | some pieces => fillAll context pieces
  | none => .error (.unknownTemplate name)

end TemplateFolder

/-! ## Settings -/

def black : List Datum := [0, 0, 0, 1].map fun n => .number (.double (.nearest false n))

def blue : List Datum := [0, 0, 1, 1].map fun n => .number (.double (.nearest false n))

/-- What the sources depend on besides the code, unless it is set otherwise. -/
def standardSettings : Context := [
  ("function_name", .text "getSample"),
  ("precision", .text "mediump"),
  ("axis_width", .number (.double (.nearest false (1 / 32)))),
  ("axis_color", .list black),
  ("curve_color", .list blue),
  ("draw_axes", .bool true)]

def folderSetting : String := "template_dir"

/-- Settings for sources: a context without the code, and the folder of the templates. -/
structure SourceStyle where
  settings : Context
  folder : TemplateFolder

namespace SourceStyle

def standard : SourceStyle := ⟨standardSettings, .shipped⟩

/-- A folder that is named holds no templates. -/
def readFolder : Option Datum → Except SourceFault TemplateFolder
  | none | some .null => .ok .shipped
  | some (.text _) => .ok .missing
  | some _ => .error .notFolder

/-- The style in which the options take the place of standard settings. -/
def ofOptions (options : Context) : Except SourceFault SourceStyle :=
  match options.find? fun option =>
      option.1 ≠ folderSetting && !(standardSettings.any (·.1 == option.1)) with
  | some (name, _) => .error (.unknownSetting name)
  | none => do
    let folder ← readFolder (options.lookup folderSetting)
    let settings := standardSettings.map fun (name, d) => (name, (options.lookup name).getD d)
    return ⟨settings, folder⟩

end SourceStyle

/-- A constant never changes its sign, so nothing is plotted. -/
def emptySample : String := "1.0"

def SourceStyle.render (style : SourceStyle) (name code : String) : Except SourceFault String :=
  let sample := if code.isEmpty then emptySample else code
  style.folder.render name (("code", .text sample) :: style.settings)

end Shading
end Locus
