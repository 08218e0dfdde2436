import Stencil.Pattern

/-!
Reading patterns from their usual written form.

A text is first cut into lexemes. Groups and alternatives are then put together with a stack
of the groups that are still open. Counted repetition is not part of this form.
-/

namespace Stencil.Pattern

inductive Lexeme where
  | atom (p : Pattern)
  | openGroup (capturing : Bool)
  | closeGroup
  | bar
  | maybe (greedy : Bool)
  | many (greedy : Bool)
  | star (greedy : Bool)
deriving Repr

/-! ### Lexemes -/

/-- The set a letter stands for after a backslash. -/
def namedSet? : Char → Option CharSet
  | 'w' => some .word
  | 'W' => some (.negated .word)
  | 's' => some .blank
  | 'S' => some (.negated .blank)
  | 'd' => some .digit
  | 'D' => some (.negated .digit)
  | _ => none

/-- The character a backslash makes of the one after it. Letters and digits without a meaning
are refused, and so is everything beyond ASCII. -/
def escapedChar? (c : Char) : Option Char :=
  match c with
  | 'n' => some '\n'
  | 't' => some '\t'
  | 'r' => some '\r'
  | 'f' => some '\x0c'
  | 'v' => some '\x0b'
  | 'a' => some '\x07'
  | c => if c.isAlphanum || c == '<' || c == '>' || 128 ≤ c.toNat then none else some c

def escapedSet? (c : Char) : Option CharSet :=
  (namedSet? c).orElse fun _ => (escapedChar? c).map .one

def escapedAtom? : Char → Option Pattern
  | 'b' => some (.boundary false)
  | 'B' => some (.boundary true)
  | 'A' => some .start
  | 'z' => some .finish
  | c => (escapedSet? c).map .char

/-- One more member for the set read so far, if there is one. -/
def addTo (set? : Option CharSet) (s : CharSet) : CharSet :=
  match set? with
  | some t => .union t s
  | none => s

/-- The members of a bracketed set up to its closing bracket. -/
def readMembers (set? : Option CharSet) : List Char → Option (CharSet × List Char)
  | [] => none
  | '\\' :: c :: rest => do readMembers (some (addTo set? (← escapedSet? c))) rest
  | '[' :: _ => none
  | ']' :: rest => set?.map (·, rest)
  | low :: '-' :: ']' :: rest => some (addTo (some (addTo set? (.one low))) (.one '-'), rest)
  | low :: '-' :: high :: rest =>
    if low ≤ high && high != '\\' && high != '[' then
      readMembers (some (addTo set? (.range low high))) rest
    else none
  | c :: rest => readMembers (some (addTo set? (.one c))) rest

/-- A bracketed set. A closing bracket in first place is a member. -/
def readSet? (cs : List Char) : Option (CharSet × List Char) :=
  let (negated, cs) := match cs with
    | '^' :: rest => (true, rest)
    | _ => (false, cs)
  let found := match cs with
    | ']' :: rest => readMembers (some (.one ']')) rest
    | _ => readMembers none cs
  found.map fun (s, rest) => (if negated then .negated s else s, rest)

/-- A mark of laziness after a repetition, and what follows. -/
def readGreedy : List Char → Bool × List Char
  | '?' :: rest => (false, rest)
  | rest => (true, rest)

/-- The first lexeme of a text and what follows it. -/
def lexeme? : List Char → Option (Lexeme × List Char)
  | [] => none
  | '(' :: '?' :: ':' :: rest => some (.openGroup false, rest)
  | '(' :: '?' :: _ => none
  | '(' :: rest => some (.openGroup true, rest)
  | ')' :: rest => some (.closeGroup, rest)
  | '|' :: rest => some (.bar, rest)
  | '*' :: rest => let (greedy, rest) := readGreedy rest; some (.star greedy, rest)
  | '+' :: rest => let (greedy, rest) := readGreedy rest; some (.many greedy, rest)
  | '?' :: rest => let (greedy, rest) := readGreedy rest; some (.maybe greedy, rest)
  | '.' :: rest => some (.atom (.char .anyButBreak), rest)
  | '^' :: rest => some (.atom .start, rest)
  | '$' :: rest => some (.atom .finish, rest)
  | '[' :: rest => (readSet? rest).map fun (s, rest) => (.atom (.char s), rest)
  | '{' :: _ => none
  | '\\' :: c :: rest => (escapedAtom? c).map fun p => (.atom p, rest)
  | '\\' :: [] => none
  | c :: rest => some (.atom (.char (.one c)), rest)

/-- All lexemes of a text. The bound is the number of characters that are left. -/
def lexemesWithin : Nat → List Char → Option (List Lexeme)
  | _, [] => some []
  | 0, _ => none
  | n + 1, cs => do
    let (l, rest) ← lexeme? cs
    return l :: (← lexemesWithin n rest)

/-! ### Groups -/

/-- A group that is still open: its number, the alternatives before the current one and the
items of the current one, both latest first. -/
structure Frame where
  index : Option Nat
  alternatives : List Pattern
  items : List Pattern

def Frame.sequence (f : Frame) : Pattern :=
  match f.items with
  | [] => .empty
  | last :: before => before.foldl (fun p q => .seq q p) last

def Frame.close (f : Frame) : Pattern :=
  let body := f.alternatives.foldl (fun p q => .alt q p) f.sequence
  match f.index with
  | some i => .group i body
  | none => body

/-- The groups that are open, innermost first, and the number of groups so far. -/
structure Stack where
  top : Frame
  outer : List Frame
  groups : Nat

def Stack.push (s : Stack) (p : Pattern) : Stack :=
  { s with top := { s.top with items := p :: s.top.items } }

/-- Repeats the latest item, which has to exist. -/
def Stack.repeatLast (s : Stack) (f : Pattern → Pattern) : Option Stack :=
  match s.top.items with
  | [] => none
  | p :: before => some { s with top := { s.top with items := f p :: before } }

def Stack.step (s : Stack) : Lexeme → Option Stack
  | .atom p => some (s.push p)
  | .openGroup true =>
    some ⟨⟨some (s.groups + 1), [], []⟩, s.top :: s.outer, s.groups + 1⟩
  | .openGroup false => some ⟨⟨none, [], []⟩, s.top :: s.outer, s.groups⟩
  | .closeGroup =>
    match s.outer with
    | [] => none
    | f :: outer => some (Stack.push ⟨f, outer, s.groups⟩ s.top.close)
  | .bar =>
    some { s with top := ⟨s.top.index, s.top.sequence :: s.top.alternatives, []⟩ }
  | .maybe greedy => s.repeatLast (.maybe greedy)
  | .many greedy => s.repeatLast (.many greedy)
  | .star greedy => s.repeatLast fun p => .maybe greedy (.many greedy p)

/-- The pattern a text describes, if it describes one. -/
def read? (source : String) : Option Pattern := do
  let cs := source.toList
  let lexemes ← lexemesWithin cs.length cs
  let s ← lexemes.foldlM Stack.step ⟨⟨none, [], []⟩, [], 0⟩
  if s.outer.isEmpty then some s.top.close else none

end Stencil.Pattern
