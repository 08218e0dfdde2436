import Stencil.Environment
import Stencil.FileTree
import Stencil.Tag
import Stencil.Toml.Reader

/-!
Configuration of an engine: its tag markers and its shared context.
-/

namespace Stencil

structure Config where
  opening : String
  closing : String
  context : Context

inductive ConfigError where
  | unreadable (path : String) (e : FileError)
  | malformed (path : String)
  | emptyMarker
deriving DecidableEq, Repr

namespace ConfigError

def malformedCause : String := "TOML parse error"

def message : ConfigError → String
  | unreadable path e => "failed to read " ++ path ++ ": " ++ e.message
  | malformed path => "failed to parse " ++ path ++ ": " ++ malformedCause
  | emptyMarker => "invalid tag markers: open and close markers must not be empty"

/-- The message followed by that of the underlying error, if there is one. -/
def report (e : ConfigError) : String :=
  match e with
  | unreadable _ inner => e.message ++ ": " ++ inner.message
  | malformed _ => e.message ++ ": " ++ malformedCause
  | _ => e.message

end ConfigError

namespace Config

def standard : Config := ⟨Markers.standard.opening, Markers.standard.closing, .empty⟩

/-- A marker of a document, the standard one when there is none. -/
def marker? (entries : Entries Value) (name default : String) : Option String :=
  match Entries.find? entries name with
  | none => some default
  | some (.str s) => some s
  | some _ => none

/-- The configuration a TOML document describes. Entries it has no use for are ignored, and so
is the size of the numbers in them. -/
def ofToml? (source : String) : Option Config := do
  let entries ← Toml.read? source
  let opening ← marker? entries "open" standard.opening
  let closing ← marker? entries "close" standard.closing
  let values ← match Entries.find? entries "context" with
    | none => some []
    | some (.obj values) => if Value.entriesFit values then some values else none
    | some _ => none
  return ⟨opening, closing, ⟨values, []⟩⟩

def load (t : FileTree) (path : String) : Except ConfigError Config :=
  match t.read path with
  | .error e => .error (.unreadable path e)
  | .ok text =>
    match ofToml? text with
    | some c => .ok c
    | none => .error (.malformed path)

/-- The markers of a configuration, neither of which may be empty. -/
def markers (c : Config) : Except ConfigError Markers :=
  match Markers.ofStrings? c.opening c.closing with
  | some m => .ok m
  | none => .error .emptyMarker

end Config

end Stencil
