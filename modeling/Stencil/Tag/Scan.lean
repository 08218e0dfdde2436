import Stencil.Tag
import Stencil.Text.CharClass

/-!
Cutting a template into literal text and tags.

A tag is the opening marker, symbols, blanks, content, blanks and the closing marker. The
symbols and the blanks before the content take as much as they can, the content as little as
it can. A part gives characters back only where no tag would be found otherwise.
-/

namespace Stencil.Tag

/-- The symbols of a type marker. -/
def isSymbol (c : Char) : Bool := !(Text.isBlank c || Text.isWord c || c == '}')

/-- A tag from its content on, and the text after it. -/
structure Body where
  lead : List Char
  content : List Char
  trail : List Char
  rest : List Char
deriving DecidableEq, Repr

/-- The text before a tag, the tag and the text after it. -/
structure Found where
  before : List Char
  marker : List Char
  body : Body
deriving DecidableEq, Repr

/-- As many blanks as the closing marker after them allows. -/
def ending? (closing : List Char) : List Char → Option Body
  | [] => (closing.isPrefixOf? []).map (⟨[], [], [], ·⟩)
  | c :: cs =>
    ((if Text.isBlank c then ending? closing cs else none).map
      fun b => { b with trail := c :: b.trail }).or
    ((closing.isPrefixOf? (c :: cs)).map (⟨[], [], [], ·⟩))

/-- The shortest content with an ending after it. -/
def content? (closing : List Char) : List Char → Option Body
  | [] => ending? closing []
  | c :: cs =>
    (ending? closing (c :: cs)).or
    ((content? closing cs).map fun b => { b with content := c :: b.content })

/-- As many blanks as possible, then content. -/
def body? (closing : List Char) : List Char → Option Body
  | [] => content? closing []
  | c :: cs =>
    ((if Text.isBlank c then body? closing cs else none).map
      fun b => { b with lead := c :: b.lead }).or
    (content? closing (c :: cs))

/-- As many symbols as possible, then a body. -/
def marked? (closing : List Char) : List Char → Option Found
  | [] => (body? closing []).map (⟨[], [], ·⟩)
  | c :: cs =>
    ((if isSymbol c then marked? closing cs else none).map
      fun f => { f with marker := c :: f.marker }).or
    ((body? closing (c :: cs)).map (⟨[], [], ·⟩))

/-- Whether the text holds the word. -/
def occurs (word : List Char) : List Char → Bool
  | [] => word.isEmpty
  | c :: cs => word.isPrefixOf (c :: cs) || occurs word cs

/-- The tag at the start of a text. A closing marker has to come somewhere after the opening
one, and that is enough for a tag. -/
def at? (opening closing cs : List Char) : Option Found :=
  match opening.isPrefixOf? cs with
  | some rest => if occurs closing rest then marked? closing rest else none
  | none => none

/-- The first tag of a text. -/
def find? (opening closing : List Char) : List Char → Option Found
  | [] => at? opening closing []
  | c :: cs =>
    (at? opening closing (c :: cs)).or
    ((find? opening closing cs).map fun f => { f with before := c :: f.before })

/-- The line breaks inside a tag. -/
def Found.breaks (opening closing : List Char) (f : Found) : Nat :=
  Text.breaks opening + Text.breaks f.marker + Text.breaks f.body.lead +
    Text.breaks f.body.content + Text.breaks f.body.trail + Text.breaks closing

/-- The segments of a text that starts on the given line. The bound is the number of
characters that are left. -/
def segmentsWithin (opening closing : List Char) : Nat → Nat → List Char → List Segment
  | 0, _, cs => [.literal (.ofList cs)]
  | n + 1, line, cs =>
    match find? opening closing cs with
    | none => [.literal (.ofList cs)]
    | some f =>
      let line := line + Text.breaks f.before
      .literal (.ofList f.before) ::
        .tag ⟨.ofList f.marker, .ofList f.body.content, line⟩ ::
        segmentsWithin opening closing n (line + f.breaks opening closing) f.body.rest

end Stencil.Tag

namespace Stencil

/-- The segments of a template: literal text and tags in turn, beginning and ending with
literal text. -/
def Markers.scan (m : Markers) (source : String) : List Segment :=
  let cs := source.toList
  Tag.segmentsWithin m.opening.toList m.closing.toList cs.length 1 cs

end Stencil
