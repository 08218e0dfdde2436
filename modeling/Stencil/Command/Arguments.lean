/-!
Arguments of the command line.

Options may stand before or after the positional arguments. The configuration may be named in
front of the command and after it, and the later place wins.
-/

namespace Stencil.Command

inductive Action where
  | render (template : String) (data output : Option String)
  | check (templates : List String) (listing : Bool)
deriving DecidableEq, Repr

/-- What a command line asks for. -/
structure Invocation where
  config : Option String
  action : Action
deriving DecidableEq, Repr

/-- Why a command line asks for no action. -/
inductive Stop where
  | usage
  | help
  | version
deriving DecidableEq, Repr

/-- An option: its long name, its letter, and whether it takes a value. -/
structure OptionSpec where
  name : String
  letter : Option Char
  valued : Bool

def configSpec : OptionSpec := ⟨"config", none, true⟩
def helpSpec : OptionSpec := ⟨"help", some 'h', false⟩
def versionSpec : OptionSpec := ⟨"version", some 'V', false⟩
def dataSpec : OptionSpec := ⟨"data", some 'd', true⟩
def outputSpec : OptionSpec := ⟨"output", some 'o', true⟩
def listingSpec : OptionSpec := ⟨"listing", none, false⟩

def topOptions : List OptionSpec := [configSpec, helpSpec, versionSpec]
def renderOptions : List OptionSpec := [configSpec, helpSpec, dataSpec, outputSpec]
def checkOptions : List OptionSpec := [configSpec, helpSpec, listingSpec]

/-! ### One word -/

/-- What a word is before it is known which options there are. -/
inductive Word where
  | long (name : String) (value : Option String)
  | letters (cs : List Char)
  | separator
  | plain (s : String)
deriving DecidableEq, Repr

def Word.ofString (s : String) : Word :=
  match s.toList with
  | ['-', '-'] => .separator
  | '-' :: '-' :: cs =>
    match cs.span (· != '=') with
    | (name, _ :: value) => .long (.ofList name) (some (.ofList value))
    | (name, []) => .long (.ofList name) none
  | '-' :: c :: cs => .letters (c :: cs)
  | _ => .plain s

/-! ### All words -/

/-- The values and the positional arguments so far, latest first. -/
structure Collected where
  options : List (String × String)
  positional : List String

namespace Collected

def value? (c : Collected) (o : OptionSpec) : Option String := c.options.lookup o.name

/-- Notes an option, which may be given once. -/
def note (c : Collected) (o : OptionSpec) (value : String) : Except Stop Collected :=
  if o.name = helpSpec.name then .error .help
  else if o.name = versionSpec.name then .error .version
  else if (c.value? o).isSome || (o.valued && value.isEmpty) then .error .usage
  else .ok { c with options := (o.name, value) :: c.options }

/-- Notes a positional argument while there is room for one. -/
def position (c : Collected) (room : Option Nat) (s : String) : Except Stop Collected :=
  if s.isEmpty || room.any (· ≤ c.positional.length) then .error .usage
  else .ok { c with positional := s :: c.positional }

/-- Notes the letters of one word. A letter that takes a value takes the rest of the word, and
is left over for the next word when there is none. -/
def letters (specs : List OptionSpec) (c : Collected) :
    List Char → Except Stop (Collected × Option OptionSpec)
  | [] => .ok (c, none)
  | l :: rest =>
    match specs.find? (·.letter == some l) with
    | none => .error .usage
    | some o =>
      if o.valued then
        match rest with
        | [] => .ok (c, some o)
        | '=' :: value => (c.note o (.ofList value)).map (·, none)
        | value => (c.note o (.ofList value)).map (·, none)
      else do letters specs (← c.note o "") rest

end Collected

/-- Reads words into options and positional arguments, of which there may be `room` many. An
option that waits for its value takes the next word, which must not look like an option. At
the top level the first positional word is a command and ends the reading. -/
def collect (specs : List OptionSpec) (room : Option Nat) (top : Bool) :
    Option OptionSpec → Collected → List String → Except Stop (Collected × List String)
  | none, c, [] => .ok (c, [])
  | some _, _, [] => .error .usage
  | some o, c, s :: rest =>
    match Word.ofString s with
    | .plain v => do collect specs room top none (← c.note o v) rest
    | _ => .error .usage
  | none, c, s :: rest =>
    match Word.ofString s with
    | .separator =>
      if top then .error .usage
      else do return (← rest.foldlM (fun c s => c.position room s) c, [])
    | .long name value =>
      match specs.find? (·.name == name) with
      | none => .error .usage
      | some o =>
        match o.valued, value with
        | true, some v => do collect specs room top none (← c.note o v) rest
        | true, none => collect specs room top (some o) c rest
        | false, none => do collect specs room top none (← c.note o "") rest
        | false, some _ => .error .usage
    | .letters cs => do
      let (c, pending) ← c.letters specs cs
      collect specs room top pending c rest
    | .plain s =>
      if top then .ok (c, s :: rest)
      else do collect specs room top none (← c.position room s) rest

/-! ### Command lines -/

def actionOf (c : Collected) : String → Except Stop Action
  | "render" =>
    match c.positional with
    | [template] => .ok (.render template (c.value? dataSpec) (c.value? outputSpec))
    | _ => .error .usage
  | _ =>
    if c.positional.isEmpty then .error .usage
    else .ok (.check c.positional.reverse (c.value? listingSpec).isSome)

/-- What a command line asks for. The environment may name a configuration for when the
arguments do not, and an empty name is no name of a file. -/
def parse (args : List String) (environment : Option String) : Except Stop Invocation := do
  let (top, rest) ← collect topOptions (some 0) true none ⟨[], []⟩ args
  match rest with
  | [] => .error .usage
  | "help" :: names =>
    .error (if names.all fun n => n ∈ ["render", "check", "help"] then .help else .usage)
  | command :: rest =>
    let (specs, room) ← match command with
      | "render" => .ok (renderOptions, some 1)
      | "check" => .ok (checkOptions, none)
      | _ => .error .usage
    let (c, _) ← collect specs room false none ⟨[], []⟩ rest
    let action ← actionOf c command
    let named := [c.value? configSpec, top.value? configSpec]
    if environment = some "" ∧ named.contains none then .error .usage
    else .ok ⟨(named.findSome? id).or environment, action⟩

end Stencil.Command
