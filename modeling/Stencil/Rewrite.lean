import Stencil.Pattern.Reader
import Stencil.Pattern.Replacement

/-!
Rewrite rules for the code of statement tags.

The rules run in order, each over the whole code. They see text only and know nothing of the
code they rewrite.
-/

namespace Stencil

/-- A pattern, the text it was read from, and what replaces its matches. -/
structure Rule where
  source : String
  pattern : Pattern
  replacement : Pattern.Replacement

namespace Rule

def read? (source replacement : String) : Option Rule := do
  return ⟨source, ← Pattern.read? source, Pattern.Replacement.read replacement⟩

def apply (r : Rule) (code : String) : String := r.pattern.replaceAll r.replacement code

/-! ### Loops over elements -/

open Pattern in
/-- Matches the header `for (name in elements)`, with the name and the elements as groups. -/
def forInPattern : Pattern :=
  let blanks := Pattern.maybe true (.many true (.char .blank))
  let someBlanks := Pattern.many true (.char .blank)
  let word := fun (s : String) => s.toList.map fun c => Pattern.char (.one c)
  let parts := word "for" ++ [blanks] ++ word "(" ++
    [blanks, .group 1 (.many true (.char .word)), someBlanks] ++ word "in" ++
    [someBlanks, .group 2 (.many false (.char .anyButBreak)), .char (.one ')')]
  parts.dropLast.foldr .seq (.char (.one ')'))

/-- Counts through the elements with an index and a length of its own, each named after the
loop variable. -/
def forInReplacement : Pattern.Replacement :=
  [.text "for (var _".toList, .group 1, .text " = 0, __".toList, .group 1,
   .text " = (".toList, .group 2, .text ").length, ".toList, .group 1, .text "; ".toList,
   .group 1, .text " = (".toList, .group 2, .text ")[_".toList, .group 1,
   .text "], _".toList, .group 1, .text " < __".toList, .group 1, .text "; ++_".toList,
   .group 1, .text ")".toList]

def forIn : Rule :=
  ⟨"for\\s*\\(\\s*(\\w+)\\s+in\\s+(.+?)\\)", forInPattern, forInReplacement⟩

/-- The header pattern is the one its written form describes. -/
theorem read?_source_forIn : Pattern.read? forIn.source = some forIn.pattern := rfl

end Rule

/-- Rewrite rules in the order they run. -/
abbrev Rules := List Rule

namespace Rules

def standard : Rules := [.forIn]

def apply (rules : Rules) (code : String) : String := rules.foldl (fun code r => r.apply code) code

end Rules

end Stencil
