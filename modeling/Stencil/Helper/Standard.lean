import Stencil.Helper
import Stencil.Text.Entity

/-!
The standard helpers, which build pieces of HTML.
-/

namespace Stencil.Helper

/-! ### Placeholders -/

/-- Text with its question marks filled in from the left. The first `literal` of them are
kept as they are. -/
def fill : Nat → List Char → List Value → List String
  | _, [], _ => []
  | literal, c :: cs, values =>
    if c ≠ '?' then String.singleton c :: fill literal cs values
    else
      match literal, values with
      | n + 1, _ => "?" :: fill n cs values
      | 0, v :: vs => v.toText :: fill 0 cs vs
      | 0, [] => fill 0 cs []

/-- Replaces question marks by values. With fewer values than marks the last marks are the
placeholders, so that a query separator in front of them stays; further values are unused. -/
def sprintf (template : String) (values : List Value) : String :=
  let cs := template.toList
  String.join (fill (cs.count '?' - values.length) cs values)

/-! ### Attributes -/

/-- The text an attribute shows: the formatted value, or the default, unformatted, when the
value is null or the empty string. -/
def attributeText (value : Value) (args : List Value) (default? : Option Value) : String :=
  match value with
  | .null | .str "" => (default?.map Value.toText).getD ""
  | v => sprintf v.toText args

/-- An attribute with its value in double quotes, or nothing when the value is empty. -/
def attr (name : String) (value : Value) (args : List Value) (default? : Option Value) :
    String :=
  let text := attributeText value args default?
  if text.isEmpty then "" else name ++ "=\"" ++ Text.escapeAttribute text ++ "\""

/-- The style that hides an element unless the test holds. -/
def showIf (test : Bool) : String := if test then "" else "style=\"display:none\""

/-- The names of the entries with a true value, joined by a separator. -/
def dynalist (entries : Entries Value) (sep : String) : String :=
  sep.intercalate ((entries.filter fun e => e.2.isTruthy).map (·.1))

/-! ### As helpers of templates -/

def ofText (f : String → String) : Helper := fun args => .ok (.str (f (argument args 0).toText))

/-- Takes a name, a value, the values for its placeholders and a default. A single value
stands for a list of one, and a null for none. -/
def attrHelper : Helper := fun args =>
  match argument args 0 with
  | .str name =>
    let values := match argument args 2 with
      | .null => []
      | .arr items => items
      | v => [v]
    let default? := match argument args 3 with
      | .null => none
      | v => some v
    .ok (.str (attr name (argument args 1) values default?))
  | _ => .error "attr expects an attribute name"

def showIfHelper : Helper := fun args => .ok (.str (showIf (argument args 0).isTruthy))

def dynalistHelper : Helper := fun args =>
  let sep := match argument args 1 with
    | .null => " "
    | v => v.toText
  match argument args 0 with
  | .obj entries => .ok (.str (dynalist entries sep))
  | _ => .ok (.str "")

def sprintfHelper : Helper := fun args =>
  match argument args 0 with
  | .str template => .ok (.str (sprintf template (args.drop 1)))
  | _ => .ok (.str "")

/-- The helpers every engine starts with. -/
def standard : HelperTable :=
  [("escapeText", ofText Text.escapeText), ("e", ofText Text.escapeText),
   ("escapeAttr", ofText Text.escapeAttribute), ("ea", ofText Text.escapeAttribute),
   ("attr", attrHelper), ("showIf", showIfHelper), ("dynalist", dynalistHelper),
   ("sprintf", sprintfHelper)]

end Stencil.Helper
