import Stencil.Command.Arguments
import Stencil.Engine
import Stencil.Json.Reader
import Stencil.Text.Visible

/-!
The command line: rendering one template file, and checking several.

A run is a function of the arguments, the environment and the files. A render produces its
text only after everything that can fail has succeeded.
-/

namespace Stencil.Command

/-- What a run prints, its exit code and the files after it. -/
structure Outcome where
  code : Nat
  stdout : String
  stderr : String
  files : FileTree

def versionText : String := "scriptlet-ctl 0.1.0"

/-- A line of the report. The style that ends before the line break also ends any escape
sequence of the text. -/
def line (s : String) : String := Text.visible s ++ "\n"

/-- A line without a style at its end. An escape sequence that the text leaves open may take the
line break. -/
def plainLine (s : String) : String := Text.visible (s ++ "\n")

def failed (files : FileTree) (message : String) : Outcome :=
  ⟨1, "", line ("✗ " ++ message), files⟩

/-! ### Configuration -/

def localConfig : String := ".scriptlet.toml"

def homeConfig : String := ".config/scriptlet.toml"

/-- The configuration files that are looked for when none is named. -/
def configPaths (home : Option String) : List String :=
  localConfig :: home.toList.map fun dir => dir ++ "/" ++ homeConfig

/-- The configuration of a run. One that is named has to load. Otherwise the file of the
directory is taken, or else that of the home directory, and the standard configuration where
there is none that loads. -/
def config (files : FileTree) (home : Option String) :
    Option String → Except ConfigError Config
  | some path => Config.load files path
  | none =>
    match (configPaths home).find? files.isFile with
    | none => .ok .standard
    | some path =>
      match Config.load files path with
      | .ok c => .ok c
      | .error _ => .ok .standard

/-! ### Rendering -/

/-- The data of a render, or why there is none. -/
def readData (files : FileTree) : Option String → Except String Value
  | none => .ok (.obj [])
  | some path =>
    match files.read path with
    | .error e => .error ("failed to read data file " ++ path ++ ": " ++ e.message)
    | .ok text =>
      match Json.read? text with
      | some v => .ok v
      | none => .error ("failed to parse data file " ++ path ++ " as JSON: malformed data")

/-- The text of a render, or the report of its failure. There is no answer when a loop of the
template goes beyond the bound. -/
def renderText (files : FileTree) (bound : Nat) (c : Config) (template : String)
    (data : Option String) : Option (Except String String) :=
  match readData files data with
  | .error message => some (.error message)
  | .ok v =>
    match Engine.ofConfig c with
    | .error e => some (.error e.report)
    | .ok engine =>
      (engine.renderFile bound (fun key => (files.read key).mapError .file) template v).1.map
        fun
        | .ok text => .ok text
        | .error e => .error e.report

/-- Hands out a rendered text: to a file, or as the output of the run. -/
def deliver (files : FileTree) (template text : String) : Option String → Outcome
  | none => ⟨0, text, "", files⟩
  | some path =>
    match files.write path text with
    | .error e => failed files ("failed to write " ++ path ++ ": " ++ e.message)
    | .ok written => ⟨0, line ("✓ Rendered " ++ template ++ " to " ++ path), "", written⟩

def render (files : FileTree) (bound : Nat) (c : Config) (template : String)
    (data output : Option String) : Option Outcome :=
  (renderText files bound c template data).map fun
    | .error message => failed files message
    | .ok text => deliver files template text output

/-! ### Checking -/

/-- Reads and compiles one template. -/
def checkFile (files : FileTree) (engine : Engine) (path : String) :
    Except String Template × Engine :=
  match files.read path with
  | .error e => (.error ("failed to read " ++ path ++ ": " ++ e.message), engine)
  | .ok text =>
    let (result, engine) := engine.precompile path text
    (result.mapError TemplateError.report, engine)

/-- The lines for one template. -/
def status (path : String) (listing : Bool) : Except String Template → String
  | .ok t => plainLine ("  ✓ " ++ path) ++ if listing then line t.listing else ""
  | .error message => plainLine ("  ✗ " ++ path ++ ": " ++ message)

/-- The lines for several templates and the number of those that failed. -/
def statuses (files : FileTree) (listing : Bool) : Engine → List String → String × Nat
  | _, [] => ("", 0)
  | engine, path :: rest =>
    let (result, engine) := checkFile files engine path
    let (text, failures) := statuses files listing engine rest
    (status path listing result ++ text, failures + if result.isOk then 0 else 1)

def check (files : FileTree) (c : Config) (templates : List String) (listing : Bool) :
    Outcome :=
  match Engine.ofConfig c with
  | .error e => failed files e.report
  | .ok engine =>
    let (text, failures) := statuses files listing engine templates
    let total := templates.length.repr
    let text := line ("Checking " ++ total ++ " template(s):") ++ text
    if failures = 0 then ⟨0, text ++ line "✓ All templates compiled", "", files⟩
    else
      ⟨1, text, line ("✗ " ++ failures.repr ++ " of " ++ total ++ " template(s) failed"), files⟩

/-! ### Runs -/

def perform (files : FileTree) (bound : Nat) (c : Config) : Action → Option Outcome
  | .render template data output => render files bound c template data output
  | .check templates listing => some (check files c templates listing)

/-- Runs a command line. The environment may name a configuration and a home directory. -/
def run (files : FileTree) (bound : Nat) (args : List String) (environment home : Option String) :
    Option Outcome :=
  match parse args environment with
  | .error .version => some ⟨0, line versionText, "", files⟩
  | .error .help => some ⟨0, "", "", files⟩
  | .error .usage => some ⟨2, "", "", files⟩
  | .ok invocation =>
    match config files home invocation.config with
    | .error e => some (failed files e.report)
    | .ok c => perform files bound c invocation.action

/-- The directory a file is in, as a path. -/
def directoryOf (path : String) : String :=
  match (path.splitOn "/").dropLast with
  | [] => "."
  | [""] => "/"
  | parts => "/".intercalate parts

/-- The paths a run may look at. -/
def paths (args : List String) (environment home : Option String) : List String :=
  match parse args environment with
  | .error _ => []
  | .ok invocation =>
    invocation.config.toList ++ configPaths home ++
      match invocation.action with
      | .check templates _ => templates
      | .render template data output =>
        template :: data.toList ++ output.toList.flatMap fun path => [directoryOf path, path]

end Stencil.Command
