/-!
Tags: the parts of a template between an opening and a closing marker.
-/

namespace Stencil

/-- What a tag does with its content. -/
inductive TagKind where
  | statement
  | escaped
  | raw
  | comment
deriving DecidableEq, Repr

/-- The kind a type marker stands for. -/
def TagKind.ofMarker? : String → Option TagKind
  | "" => some .statement
  | "=" => some .escaped
  | "==" | "-" => some .raw
  | "#" => some .comment
  | _ => none

/-- A tag with the symbols after its opening marker, its trimmed content, and the line its
opening marker is on. -/
structure Tag where
  marker : String
  content : String
  line : Nat
deriving DecidableEq, Repr

/-- A piece of a template. -/
inductive Segment where
  | literal (text : String)
  | tag (t : Tag)
deriving DecidableEq, Repr

/-- A pair of tag markers, neither of them empty. -/
structure Markers where
  opening : String
  closing : String
  opening_ne : opening ≠ ""
  closing_ne : closing ≠ ""

namespace Markers

def ofStrings? (opening closing : String) : Option Markers :=
  if h : opening ≠ "" ∧ closing ≠ "" then some ⟨opening, closing, h.1, h.2⟩ else none

def standard : Markers := ⟨"<%", "%>", by decide, by decide⟩

end Markers

end Stencil
