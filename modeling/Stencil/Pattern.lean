import Stencil.Text.CharClass

/-!
Patterns over text and how they match.

A pattern tries its alternatives from left to right and repeats greedily unless it is lazy.
The first way through the whole pattern is the match, and the leftmost position that has one
is where it is found.
-/

namespace Stencil

/-- A set of characters. -/
inductive CharSet where
  | one (c : Char)
  | range (low high : Char)
  | blank
  | word
  | digit
  | anyButBreak
  | union (a b : CharSet)
  | negated (s : CharSet)
deriving DecidableEq, Repr

def CharSet.has : CharSet → Char → Bool
  | .one d, c => c == d
  | .range low high, c => low ≤ c && c ≤ high
  | .blank, c => Text.isBlank c
  | .word, c => Text.isWord c
  | .digit, c => Text.isDecimalDigit c
  | .anyButBreak, c => c != '\n'
  | .union a b, c => a.has c || b.has c
  | .negated s, c => !s.has c

inductive Pattern where
  | empty
  | char (s : CharSet)
  | boundary (negated : Bool)
  | start
  | finish
  | seq (a b : Pattern)
  | alt (a b : Pattern)
  | maybe (greedy : Bool) (p : Pattern)
  | many (greedy : Bool) (p : Pattern)
  | group (index : Nat) (p : Pattern)
deriving DecidableEq, Repr

namespace Pattern

/-- A position in a text, as what lies before it, nearest first, and what follows. -/
structure Cursor where
  before : List Char
  rest : List Char
deriving DecidableEq, Repr

/-- The text between an earlier position and this one. -/
def Cursor.since (c earlier : Cursor) : List Char :=
  (c.before.take (c.before.length - earlier.before.length)).reverse

/-- Whether exactly one side of the position is a word character. -/
def Cursor.atBoundary (c : Cursor) : Bool :=
  c.before.head?.any Text.isWord != c.rest.head?.any Text.isWord

/-- What the groups matched, latest first. -/
abbrev Captures := List (Nat × List Char)

/-- A position reached by matching, with the captures so far. -/
structure State where
  cursor : Cursor
  captures : Captures
deriving DecidableEq, Repr

/-- Repeats a step once or more. After the first round each must consume something, which
also bounds their number. -/
def rounds (greedy : Bool) (step : State → (State → Option State) → Option State) :
    Nat → State → (State → Option State) → Option State
  | 0, s, k => k s
  | n + 1, s, k =>
    let again := fun (_ : Unit) => step s fun t =>
      if t.cursor.rest.length < s.cursor.rest.length then rounds greedy step n t k else none
    if greedy then (again ()).orElse fun _ => k s else (k s).orElse again

/-- The first way to match from a state that the continuation accepts. -/
def run : Pattern → State → (State → Option State) → Option State
  | .empty, s, k => k s
  | .char set, s, k =>
    match s.cursor.rest with
    | c :: rest => if set.has c then k { s with cursor := ⟨c :: s.cursor.before, rest⟩ } else none
    | [] => none
  | .boundary negated, s, k => if s.cursor.atBoundary != negated then k s else none
  | .start, s, k => if s.cursor.before.isEmpty then k s else none
  | .finish, s, k => if s.cursor.rest.isEmpty then k s else none
  | .seq a b, s, k => run a s fun t => run b t k
  | .alt a b, s, k => (run a s k).orElse fun _ => run b s k
  | .maybe true p, s, k => (run p s k).orElse fun _ => k s
  | .maybe false p, s, k => (k s).orElse fun _ => run p s k
  | .many greedy p, s, k =>
    run p s fun t => rounds greedy (run p) t.cursor.rest.length t k
  | .group i p, s, k =>
    run p s fun t => k { t with captures := (i, t.cursor.since s.cursor) :: t.captures }

/-- The match that starts at a position, with the whole match as group 0. -/
def matchAt? (p : Pattern) (c : Cursor) : Option State :=
  run (.group 0 p) ⟨c, []⟩ some

end Pattern

end Stencil
