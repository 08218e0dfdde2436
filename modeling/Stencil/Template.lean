import Stencil.FileTree
import Stencil.Instruction
import Stencil.Script.Exec
import Stencil.Script.Stmt.Reader
import Stencil.Tag.Scan

/-!
Templates compiled from text, and what can go wrong from their text to their output.
-/

namespace Stencil

/-- Why a loader has no text for a key. -/
inductive LoadError where
  | missing (key : String)
  | file (e : FileError)
deriving DecidableEq, Repr

def LoadError.message : LoadError → String
  | missing key => "no template registered for '" ++ key ++ "'"
  | file e => e.message

inductive TemplateError where
  | unknownTag (opening marker template : String)
  | malformed (template : String) (fault : Script.Fault)
  | notFound (key : String)
  | load (key : String) (e : LoadError)
  | evaluation (template : String) (e : EvalError)
deriving DecidableEq, Repr

namespace TemplateError

def message : TemplateError → String
  | unknownTag opening marker template =>
    "unknown template tag '" ++ opening ++ marker ++ "' in " ++ template
  | malformed template fault =>
    "syntax error in " ++ template ++ " at line " ++ fault.line.repr ++ ": " ++
      fault.cause.message
  | notFound key => "template not found: " ++ key
  | load key e => "failed to load template '" ++ key ++ "': " ++ e.message
  | evaluation template e => "error rendering " ++ template ++ ": " ++ e.message

/-- Whether the text of the template is at fault. -/
def isCompileError : TemplateError → Bool
  | unknownTag .. | malformed .. => true
  | _ => false

/-- The message followed by that of the underlying error, if there is one. -/
def report (e : TemplateError) : String :=
  match e with
  | load _ inner => e.message ++ ": " ++ inner.message
  | evaluation _ inner => e.message ++ ": " ++ inner.message
  | _ => e.message

end TemplateError

/-- A compiled template. -/
structure Template where
  name : String
  instructions : List Instruction
  program : Script.Program

namespace Template

/-- The name of a template that is compiled without one. -/
def anonymous : String := "<anonymous>"

/-- Compiles a text under a name. -/
def compile (markers : Markers) (rules : Rules) (name text : String) :
    Except TemplateError Template :=
  match Instruction.generate rules (markers.scan text) with
  | .error u => .error (.unknownTag markers.opening u.marker name)
  | .ok instructions =>
    match Script.parseProgram instructions with
    | .error fault => .error (.malformed name fault)
    | .ok program => .ok ⟨name, instructions, program⟩

/-- The lines of code that a template's instructions stand for. -/
def listing (t : Template) : String := Instruction.listing t.instructions

/-- Runs a template. There is no answer when a loop goes beyond the bound. -/
def render (t : Template) (tiers : Tiers) (bound : Nat) : Option (Except TemplateError String) :=
  (Script.run tiers bound t.program).map fun
    | .ok text => .ok text
    | .error e => .error (.evaluation t.name e)

end Template

end Stencil
