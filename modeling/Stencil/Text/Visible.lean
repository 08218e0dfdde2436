/-!
Text as it is shown where nothing is styled.

Escape sequences are left out, and so are control characters other than white space. White space
inside a sequence is shown where the sequence lets control characters act. The text after it is
then shown as well, up to the next character that is not.
-/

namespace Stencil.Text

/-- Where in an escape sequence a text is. -/
inductive EscapeState where
  | outside
  | introduced
  | intermediate
  | parameters
  | title
  | device
  | deviceParameters
  | deviceIntermediate
  | data
deriving DecidableEq, Repr

/-- White space among the control characters. -/
def isLayout (c : Char) : Bool := c == '\t' || c == '\n' || c == '\x0c' || c == '\r'

def isShown (c : Char) : Bool := isLayout c || (0x20 ≤ c.toNat && c.toNat != 0x7f)

/-- Whether the encoding of a character holds the byte that ends the data of a sequence. In
UTF-8 a byte after the first one stands for six bits, which are 28 here. -/
def holdsTerminator (c : Char) : Bool :=
  let n := c.toNat
  (0x80 ≤ n && n % 64 == 28) || (0x800 ≤ n && n / 64 % 64 == 28) ||
    (0x10000 ≤ n && n / 4096 % 64 == 28)

namespace EscapeState

/-- The state after the character that follows the introducer. -/
def afterIntroducer (c : Char) : EscapeState :=
  let n := c.toNat
  if 0x20 ≤ n ∧ n ≤ 0x2f then .intermediate
  else if c = '[' then .parameters
  else if c = ']' then .title
  else if c = 'P' then .device
  else if c = 'X' ∨ c = '^' ∨ c = '_' then .data
  else if 0x30 ≤ n ∧ n ≤ 0x7e then .outside
  else .introduced

/-- The state after a character that is not shown. -/
def next (s : EscapeState) (c : Char) : EscapeState :=
  let n := c.toNat
  if c = '\x1b' then .introduced
  else if c = '\x18' ∨ c = '\x1a' then .outside
  else
    match s with
    | .outside => .outside
    | .introduced => afterIntroducer c
    | .intermediate => if 0x30 ≤ n ∧ n ≤ 0x7e then .outside else s
    | .parameters => if 0x40 ≤ n ∧ n ≤ 0x7e then .outside else s
    | .title => if c = '\x07' then .outside else s
    | .device =>
      if 0x20 ≤ n ∧ n ≤ 0x2f then .deviceIntermediate
      else if 0x30 ≤ n ∧ n ≤ 0x3f then .deviceParameters
      else if 0x40 ≤ n ∧ n ≤ 0x7e then .data
      else s
    | .deviceParameters =>
      if 0x20 ≤ n ∧ n ≤ 0x2f then .deviceIntermediate
      else if 0x3c ≤ n ∧ n ≤ 0x7e then .data
      else s
    | .deviceIntermediate => if 0x30 ≤ n ∧ n ≤ 0x7e then .data else s
    | .data => if holdsTerminator c then .outside else s

/-- Whether a character is shown in a state. -/
def shows (s : EscapeState) (c : Char) : Bool :=
  match s with
  | .outside => isShown c
  | .introduced | .intermediate | .parameters => isLayout c
  | .title | .device | .deviceParameters | .deviceIntermediate | .data => false

end EscapeState

/-- The shown part of a text. The flag says whether the character before was shown. A character
beyond ASCII that is shown ends any sequence. -/
def visibleFrom (shown : Bool) (s : EscapeState) : List Char → List Char
  | [] => []
  | c :: cs =>
    if if shown then isShown c else s.shows c then
      c :: visibleFrom true (if c.toNat < 0x80 then s else .outside) cs
    else visibleFrom false (s.next c) cs

def visible (s : String) : String := .ofList (visibleFrom false .outside s.toList)

end Stencil.Text
