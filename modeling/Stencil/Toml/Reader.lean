import Stencil.Toml.Scalar
import Stencil.Toml.Table

/-!
Reading TOML documents.

The readers answer with nothing where a text is malformed.
-/

namespace Stencil.Toml

/-! ### Blanks, comments and line ends -/

def isGap (c : Char) : Bool := c == ' ' || c == '\t'

def skipGap (cs : List Char) : List Char := cs.dropWhile isGap

/-- Control characters other than the tab are not part of any line. -/
def isControl (c : Char) : Bool := (c.toNat < 0x20 && c != '\t') || c.toNat == 0x7f

/-- The rest of the line after a comment. -/
def skipComment (cs : List Char) : List Char :=
  match cs with
  | '#' :: rest => rest.dropWhile (!isControl ·)
  | _ => cs

/-- The text after a line break. -/
def lineBreak? : List Char → Option (List Char)
  | '\n' :: rest => some rest
  | '\r' :: '\n' :: rest => some rest
  | _ => none

/-- The text after the end of a line, which may hold a comment. -/
def lineEnd? (cs : List Char) : Option (List Char) :=
  match skipComment (skipGap cs) with
  | [] => some []
  | rest => lineBreak? rest

/-- Drops blanks, comments and line breaks. The bound is the number of characters. -/
def skipLines : Nat → List Char → List Char
  | 0, cs => cs
  | n + 1, cs =>
    let rest := skipComment (skipGap cs)
    match lineBreak? rest with
    | some rest => skipLines n rest
    | none => rest

/-! ### Strings -/

/-- The character for hexadecimal digits of a fixed count. -/
def codePoint? (count : Nat) (cs : List Char) : Option (Char × List Char) :=
  let ds := cs.take count
  if ds.length = count ∧ ds.all isHexDigit then
    let n := inBase 16 ds
    if n.isValidChar then some (.ofNat n, cs.drop count) else none
  else none

/-- The character an escape stands for, after its backslash. -/
def escape? : List Char → Option (Char × List Char)
  | 'b' :: rest => some ('\x08', rest)
  | 't' :: rest => some ('\t', rest)
  | 'n' :: rest => some ('\n', rest)
  | 'f' :: rest => some ('\x0c', rest)
  | 'r' :: rest => some ('\r', rest)
  | 'e' :: rest => some ('\x1b', rest)
  | '"' :: rest => some ('"', rest)
  | '\\' :: rest => some ('\\', rest)
  | 'x' :: rest => codePoint? 2 rest
  | 'u' :: rest => codePoint? 4 rest
  | 'U' :: rest => codePoint? 8 rest
  | _ => none

def isLineContent (c : Char) : Bool := !isControl c

/-- A string between double quotes, after the first. -/
def basic? : Nat → List Char → Option (List Char × List Char)
  | 0, _ => none
  | _ + 1, [] => none
  | _ + 1, '"' :: rest => some ([], rest)
  | n + 1, '\\' :: rest => do
    let (c, rest) ← escape? rest
    let (s, rest) ← basic? n rest
    return (c :: s, rest)
  | n + 1, c :: rest => do
    if isLineContent c then
      let (s, rest) ← basic? n rest
      return (c :: s, rest)
    else none

/-- A string between single quotes, after the first. -/
def verbatim? : List Char → Option (List Char × List Char)
  | [] => none
  | '\'' :: rest => some ([], rest)
  | c :: rest => do
    if isLineContent c then
      let (s, rest) ← verbatim? rest
      return (c :: s, rest)
    else none

/-- The end of a string over several lines: up to two quotes may stand before the closing
three. -/
def closing? (quote : Char) (cs : List Char) : Option (List Char × List Char) :=
  let quotes := (cs.takeWhile (· == quote)).length
  if quotes < 3 then none
  else
    let kept := min (quotes - 3) 2
    some (.replicate kept quote, cs.drop (kept + 3))

/-- Drops blanks and line breaks. The bound is the number of characters. -/
def skipBreaks : Nat → List Char → List Char
  | 0, cs => cs
  | n + 1, cs =>
    match lineBreak? (skipGap cs) with
    | some rest => skipBreaks n rest
    | none => skipGap cs

/-- The text after a backslash at the end of a line, with all blanks and line breaks
dropped. -/
def joinLines? (cs : List Char) : Option (List Char) :=
  (lineBreak? (skipGap cs)).map fun rest => skipBreaks rest.length rest

/-- A string over several lines between double quotes, after the first three. Each of its line
breaks is a single character. -/
def longBasic? : Nat → List Char → Option (List Char × List Char)
  | 0, _ => none
  | n + 1, cs =>
    match closing? '"' cs with
    | some found => some found
    | none =>
      match cs with
      | [] => none
      | '\\' :: rest =>
        match joinLines? rest with
        | some rest => longBasic? n rest
        | none => do
          let (c, rest) ← escape? rest
          let (s, rest) ← longBasic? n rest
          return (c :: s, rest)
      | c :: rest =>
        match lineBreak? cs with
        | some after => do
          let (s, rest) ← longBasic? n after
          return ('\n' :: s, rest)
        | none => do
          if isLineContent c then
            let (s, rest) ← longBasic? n rest
            return (c :: s, rest)
          else none

/-- A string over several lines between single quotes, after the first three. Its line breaks
stay as they are. -/
def longVerbatim? : Nat → List Char → Option (List Char × List Char)
  | 0, _ => none
  | n + 1, cs =>
    match closing? '\'' cs with
    | some found => some found
    | none =>
      match cs with
      | [] => none
      | c :: rest => do
        if isLineContent c || (lineBreak? cs).isSome then
          let (s, rest) ← longVerbatim? n rest
          return (c :: s, rest)
        else none

/-- A line break right after the opening quotes does not count. -/
def dropFirstBreak (cs : List Char) : List Char := (lineBreak? cs).getD cs

/-- A string of any of the four kinds. -/
def string? : List Char → Option (String × List Char)
  | '"' :: '"' :: '"' :: rest =>
    (longBasic? (rest.length + 1) (dropFirstBreak rest)).map fun (s, rest) => (.ofList s, rest)
  | '"' :: rest => (basic? (rest.length + 1) rest).map fun (s, rest) => (.ofList s, rest)
  | '\'' :: '\'' :: '\'' :: rest =>
    (longVerbatim? (rest.length + 1) (dropFirstBreak rest)).map fun (s, rest) => (.ofList s, rest)
  | '\'' :: rest => (verbatim? rest).map fun (s, rest) => (.ofList s, rest)
  | _ => none

/-! ### Keys -/

def isBareKeyChar (c : Char) : Bool := c.isAlphanum || c == '_' || c == '-'

def simpleKey? (cs : List Char) : Option (String × List Char) :=
  match cs with
  | '"' :: rest => (basic? (rest.length + 1) rest).map fun (s, rest) => (.ofList s, rest)
  | '\'' :: rest => (verbatim? rest).map fun (s, rest) => (.ofList s, rest)
  | _ =>
    match cs.span isBareKeyChar with
    | ([], _) => none
    | (name, rest) => some (.ofList name, rest)

/-- The most parts a key may have. -/
def maxKeyParts : Nat := 80

/-- A key of at most the given number of parts, which are separated by dots. The blanks around
it are dropped. -/
def keyWithin? : Nat → List Char → Option (List String × List Char)
  | 0, _ => none
  | n + 1, cs => do
    let (name, rest) ← simpleKey? (skipGap cs)
    match skipGap rest with
    | '.' :: rest =>
      let (path, rest) ← keyWithin? n rest
      return (name :: path, rest)
    | rest => return ([name], rest)

def key? (cs : List Char) : Option (List String × List Char) := keyWithin? maxKeyParts cs

/-! ### Values -/

/-- How deep arrays and inline tables may be nested. -/
def maxNesting : Nat := 80

def isWordChar (c : Char) : Bool :=
  c.isAlphanum || c == '+' || c == '-' || c == '_' || c == '.' || c == ':'

/-- The characters of a number, a truth value, a date or a time. A blank is part of it between
a date and a time. -/
def wordOf (cs : List Char) : List Char × List Char :=
  let (word, rest) := cs.span isWordChar
  match rest with
  | ' ' :: d :: more =>
    if (date? word).any List.isEmpty && d.isDigit then
      let (time, rest) := (d :: more).span isWordChar
      (word ++ ' ' :: time, rest)
    else (word, rest)
  | _ => (word, rest)

/-- A reader of the values inside a container. -/
abbrev ValueReader := List Char → Option (Value × List Char)

/-- The elements of an array up to its closing bracket. -/
def elements? (value? : ValueReader) : Nat → List Char → Option (List Value × List Char)
  | 0, _ => none
  | n + 1, cs =>
    match skipLines cs.length cs with
    | ']' :: rest => some ([], rest)
    | cs => do
      let (v, rest) ← value? cs
      match skipLines rest.length rest with
      | ',' :: rest =>
        let (vs, rest) ← elements? value? n rest
        return (v :: vs, rest)
      | ']' :: rest => return ([v], rest)
      | _ => none

/-- The entries of an inline table up to its closing brace. Lines may end around every mark, but
not inside a key. -/
def inline? (value? : ValueReader) : Nat → Table → List Char → Option (Table × List Char)
  | 0, _, _ => none
  | n + 1, t, cs =>
    match skipLines cs.length cs with
    | '}' :: rest => some (t, rest)
    | cs => do
      let (path, rest) ← key? cs
      match skipLines rest.length rest with
      | '=' :: rest =>
        let (v, rest) ← value? (skipLines rest.length rest)
        let t ← t.setDotted v path
        match skipLines rest.length rest with
        | ',' :: rest => inline? value? n t rest
        | '}' :: rest => return (t, rest)
        | _ => none
      | _ => none

/-- A value when the given number of containers may still be nested. -/
def value? : Nat → ValueReader
  | _, '"' :: rest => (string? ('"' :: rest)).map fun (s, rest) => (.str s, rest)
  | _, '\'' :: rest => (string? ('\'' :: rest)).map fun (s, rest) => (.str s, rest)
  | 0, '[' :: _ => none
  | depth + 1, '[' :: rest =>
    (elements? (value? depth) (rest.length + 1) rest).map fun (vs, rest) => (.arr vs, rest)
  | 0, '{' :: _ => none
  | depth + 1, '{' :: rest =>
    (inline? (value? depth) (rest.length + 1) [] rest).map fun (t, rest) => (.obj t.values, rest)
  | _, cs => do
    let (word, rest) := wordOf cs
    return (← scalar? word, rest)

/-! ### Documents -/

/-- A document that is read up to some line: its tables and the header in force. -/
structure Draft where
  root : Table
  header : List String

/-- The header after its opening brackets. -/
def header? (element : Bool) (cs : List Char) : Option (Header × List Char) := do
  let (path, rest) ← key? cs
  match element, rest with
  | true, ']' :: ']' :: rest => return (⟨path, true⟩, rest)
  | false, ']' :: rest => return (⟨path, false⟩, rest)
  | _, _ => none

def Draft.define (d : Draft) (h : Header) : Option Draft := do
  return ⟨← d.root.define h, h.path⟩

/-- Reads one line, which begins with neither a blank nor a comment. -/
def Draft.line? (d : Draft) : List Char → Option (Draft × List Char)
  | '[' :: '[' :: rest => do
    let (h, rest) ← header? true rest
    return (← d.define h, rest)
  | '[' :: rest => do
    let (h, rest) ← header? false rest
    return (← d.define h, rest)
  | cs => do
    let (path, rest) ← key? cs
    match rest with
    | '=' :: rest =>
      let (v, rest) ← value? maxNesting (skipGap rest)
      return ({ d with root := ← d.root.set d.header path v }, rest)
    | _ => none

def Draft.lines? (d : Draft) : Nat → List Char → Option Draft
  | 0, _ => none
  | n + 1, cs =>
    match skipLines cs.length cs with
    | [] => some d
    | cs => do
      let (d, rest) ← d.line? cs
      d.lines? n (← lineEnd? rest)

/-- The entries of a document, in order of their names at every level. A byte order mark in
front of it does not count. -/
def read? (source : String) : Option (Entries Value) := do
  let cs := match source.toList with
    | '\ufeff' :: rest => rest
    | cs => cs
  let d ← Draft.lines? ⟨[], []⟩ (cs.length + 1) cs
  return d.root.values

end Stencil.Toml
