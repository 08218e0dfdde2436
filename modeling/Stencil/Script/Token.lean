/-!
Tokens of the script language.
-/

namespace Stencil.Script

inductive Punct where
  | eqEqEq | notEqEq | eqEq | notEq | lessEq | greaterEq | andAnd | orOr
  | plusPlus | minusMinus | plusEq | minusEq
  | openParen | closeParen | openBrace | closeBrace | openBracket | closeBracket
  | comma | semicolon | dot | question | colon | assign | less | greater
  | plus | minus | star | slash | percent | bang
deriving DecidableEq, Repr

namespace Punct

def text : Punct → String
  | eqEqEq => "===" | notEqEq => "!==" | eqEq => "==" | notEq => "!="
  | lessEq => "<=" | greaterEq => ">=" | andAnd => "&&" | orOr => "||"
  | plusPlus => "++" | minusMinus => "--" | plusEq => "+=" | minusEq => "-="
  | openParen => "(" | closeParen => ")" | openBrace => "\x7b" | closeBrace => "\x7d"
  | openBracket => "[" | closeBracket => "]"
  | comma => "," | semicolon => ";" | dot => "." | question => "?" | colon => ":"
  | assign => "=" | less => "<" | greater => ">"
  | plus => "+" | minus => "-" | star => "*" | slash => "/" | percent => "%" | bang => "!"

/-- All marks, longer ones before their own beginnings. -/
def all : List Punct :=
  [eqEqEq, notEqEq, eqEq, notEq, lessEq, greaterEq, andAnd, orOr, plusPlus, minusMinus,
   plusEq, minusEq, openParen, closeParen, openBrace, closeBrace, openBracket, closeBracket,
   comma, semicolon, dot, question, colon, assign, less, greater, plus, minus, star, slash,
   percent, bang]

end Punct

inductive TokenKind where
  | ident (name : String)
  | number (f : Float)
  | str (s : String)
  | punct (p : Punct)
deriving DecidableEq

structure Token where
  kind : TokenKind
  line : Nat
deriving DecidableEq

/-- The words that name no variable. -/
def reserved : List String :=
  ["if", "else", "for", "while", "var", "let", "const", "break", "continue", "in"]

end Stencil.Script
