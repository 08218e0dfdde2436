import Stencil.Rewrite
import Stencil.Tag
import Stencil.Text.Quoted

/-!
Instructions: a template as the ordered list of what it appends and executes.
-/

namespace Stencil

/-- Code from a tag and the line the tag is on. -/
structure Code where
  source : String
  line : Nat
deriving DecidableEq, Repr

inductive Instruction where
  | appendLiteral (text : String)
  | execute (code : Code)
  | appendEscaped (code : Code)
  | appendRaw (code : Code)
  | noop
deriving DecidableEq, Repr

/-- A tag has a type marker that stands for no kind. -/
structure UnknownMarker where
  marker : String
deriving DecidableEq, Repr

namespace Instruction

/-- The instruction of a tag. Statements go through the rewrite rules, and a tag without
content gives no instruction. -/
def ofTag (rules : Rules) (t : Tag) : Except UnknownMarker (List Instruction) :=
  match TagKind.ofMarker? t.marker with
  | none => .error ⟨t.marker⟩
  | some kind =>
    if t.content = "" then .ok []
    else .ok [match kind with
      | .statement => .execute ⟨rules.apply t.content, t.line⟩
      | .escaped => .appendEscaped ⟨t.content, t.line⟩
      | .raw => .appendRaw ⟨t.content, t.line⟩
      | .comment => .noop]

/-- The instructions of a template, or its first unknown marker. -/
def generate (rules : Rules) : List Segment → Except UnknownMarker (List Instruction)
  | [] => .ok []
  | .literal text :: rest => do return .appendLiteral text :: (← generate rules rest)
  | .tag t :: rest => do
    let here ← ofTag rules t
    return here ++ (← generate rules rest)

/-! ### Listing -/

/-- An instruction as a line of code. -/
def text : Instruction → String
  | .appendLiteral s => "append(" ++ Text.quoted s ++ ");"
  | .execute code => code.source
  | .appendEscaped code => "append(escapeText(" ++ code.source ++ "));"
  | .appendRaw code => "append(" ++ code.source ++ ");"
  | .noop => "// comment"

def listing (instructions : List Instruction) : String :=
  "\n".intercalate (instructions.map text)

end Instruction

end Stencil
