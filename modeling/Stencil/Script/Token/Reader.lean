import Stencil.Decimal.Reading
import Stencil.Script.Fault
import Stencil.Text.CharClass

/-!
Cutting code into tokens.

Blanks and comments separate tokens. Every token carries the line it starts on.
-/

namespace Stencil.Script

def isIdentStart (c : Char) : Bool := Text.isLetter c || c == '_' || c == '$'

def isIdentPart (c : Char) : Bool := Text.isLetterOrNumber c || c == '_' || c == '$'

namespace Token

/-- The characters of a number and what follows them. A sign belongs to it right after the
letter of an exponent. -/
def spanNumber (prev : Char) : List Char → List Char × List Char
  | [] => ([], [])
  | c :: cs =>
    let sign := (c == '+' || c == '-') && (prev == 'e' || prev == 'E')
    if c.isAlphanum || c == '.' || sign then
      let (number, rest) := spanNumber c cs
      (c :: number, rest)
    else ([], c :: cs)

/-- The character a backslash makes of the one after it. -/
def unescape : Char → Char
  | 'n' => '\n'
  | 't' => '\t'
  | 'r' => '\r'
  | '0' => '\x00'
  | c => c

/-- The content of a string up to its closing quote, and what follows. A line break ends the
search unless it is escaped. -/
def string? (quote : Char) : List Char → Option (List Char × List Char)
  | [] => none
  | '\\' :: c :: cs => (string? quote cs).map fun (s, rest) => (unescape c :: s, rest)
  | c :: cs =>
    if c = quote then some ([], cs)
    else if c = '\n' ∨ c = '\\' then none
    else (string? quote cs).map fun (s, rest) => (c :: s, rest)

/-- The text after a block comment and the line reached, or the line where the text ends
inside the comment. -/
def closeComment (prev : Char) (line : Nat) : List Char → Except Nat (List Char × Nat)
  | [] => .error line
  | c :: cs =>
    let line := if c = '\n' then line + 1 else line
    if prev = '*' ∧ c = '/' then .ok (cs, line) else closeComment c line cs

def punct? (cs : List Char) : Option (Punct × List Char) :=
  Punct.all.findSome? fun p => (p.text.toList.isPrefixOf? cs).map (p, ·)

/-- The token at the start of a text that begins neither with a blank nor with a comment,
and what follows. -/
def next (line : Nat) (c : Char) (cs : List Char) : Except Fault (TokenKind × List Char) :=
  if isIdentStart c then
    let (name, rest) := (c :: cs).span isIdentPart
    .ok (.ident (.ofList name), rest)
  else if c.isDigit || (c == '.' && cs.head?.any Char.isDigit) then
    let (number, rest) := spanNumber ' ' (c :: cs)
    match Decimal.readFloat? number with
    | some f => .ok (.number f, rest)
    | none => .error ⟨.invalidNumber (.ofList number), line⟩
  else if c == '"' || c == '\'' then
    match string? c cs with
    | some (s, rest) => .ok (.str (.ofList s), rest)
    | none => .error ⟨.unterminatedString, line⟩
  else
    match punct? (c :: cs) with
    | some (p, rest) => .ok (.punct p, rest)
    | none => .error ⟨.unexpectedChar c, line⟩

/-- The tokens of a text that starts on the given line. The bound is the number of characters
that are left. -/
def readWithin : Nat → Nat → List Char → Except Fault (List Token)
  | _, _, [] => .ok []
  | 0, _, _ => .ok []
  | n + 1, line, c :: cs =>
    if c = '\n' then readWithin n (line + 1) cs
    else if Text.isBlank c then readWithin n line cs
    else
      match c, cs with
      | '/', '/' :: rest => readWithin n line (rest.dropWhile (· != '\n'))
      | '/', '*' :: rest =>
        match closeComment ' ' line rest with
        | .ok (rest, line) => readWithin n line rest
        | .error line => .error ⟨.unterminatedComment, line⟩
      | c, cs => do
        let (kind, rest) ← next line c cs
        return ⟨kind, line⟩ :: (← readWithin n line rest)

end Token

/-- The tokens of a piece of code that starts on the given line. -/
def tokenize (source : String) (line : Nat) : Except Fault (List Token) :=
  let cs := source.toList
  Token.readWithin cs.length line cs

end Stencil.Script
