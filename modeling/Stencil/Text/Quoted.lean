/-!
Text written as a constant between single quotes.
-/

namespace Stencil.Text

/-- How a character is written inside the quotes. Line ends of all kinds become escapes, so
that the constant stays on one line. -/
def quotedChar (c : Char) : String :=
  if c = '\\' then "\\\\"
  else if c = '\'' then "\\'"
  else if c = '\n' then "\\n"
  else if c = '\r' then "\\r"
  else if c = '\u2028' then "\\u2028"
  else if c = '\u2029' then "\\u2029"
  else String.singleton c

def escapeLiteral (s : String) : String := String.join (s.toList.map quotedChar)

theorem escapeLiteral_append (s t : String) :
    escapeLiteral (s ++ t) = escapeLiteral s ++ escapeLiteral t := by
  rw [escapeLiteral, String.toList_append, List.map_append, String.join_append]
  rfl

/-- The constant for a text. -/
def quoted (s : String) : String := "'" ++ escapeLiteral s ++ "'"

end Stencil.Text
