/-!
Escaping for HTML: character references for the characters that markup gives a meaning.
-/

namespace Stencil.Text

/-- The reference for a character of markup, and any other character as it is. -/
def entity : Char → String
  | '&' => "&amp;"
  | '<' => "&lt;"
  | '>' => "&gt;"
  | '"' => "&quot;"
  | '\'' => "&#39;"
  | '/' => "&#x2F;"
  | c => String.singleton c

def escapeText (s : String) : String :=
  String.join (s.toList.map entity)

theorem escapeText_append (s t : String) : escapeText (s ++ t) = escapeText s ++ escapeText t := by
  rw [escapeText, String.toList_append, List.map_append, String.join_append]
  rfl

/-- Double quotes escaped, for a value that stands between double quotes. -/
def escapeAttribute (s : String) : String :=
  String.join (s.toList.map fun c => if c = '"' then "&quot;" else String.singleton c)

end Stencil.Text
