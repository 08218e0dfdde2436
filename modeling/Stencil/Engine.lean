import Stencil.Config
import Stencil.Helper.Standard
import Stencil.Template

/-!
Engines: a configuration, rewrite rules and helpers, with a cache of compiled templates.

Operations that may change an engine answer with the engine after them. Renders are given a
bound on the rounds of each loop and have no answer beyond it.
-/

namespace Stencil

/-- Texts by key, or the reason why there is none. -/
abbrev Loader := String → Except LoadError String

namespace Loader

def ofEntries (texts : Entries String) : Loader := fun key =>
  match Entries.find? texts key with
  | some text => .ok text
  | none => .error (.missing key)

/-- Loads from the files below a directory. The empty key is the directory itself. -/
def ofFiles (t : FileTree) : Loader := fun key =>
  match t.read (if key = "" then "." else key) with
  | .ok text => .ok text
  | .error e => .error (.file e)

end Loader

structure Engine where
  config : Config
  markers : Markers
  rules : Rules
  api : HelperTable
  cache : Entries Template

/-- The outcome of a render: its text or its error, and nothing when a loop went on beyond
the bound. -/
abbrev Rendered := Option (Except TemplateError String)

namespace Engine

/-- A new engine, with the standard rules and helpers and nothing in its cache. -/
def ofConfig (c : Config) : Except ConfigError Engine := do
  return ⟨c, ← c.markers, .standard, Helper.standard, []⟩

/-- Replaces the configuration. Templates compiled before keep the markers they were compiled
with. -/
def configure (e : Engine) (c : Config) : Except ConfigError Engine := do
  return { e with config := c, markers := ← c.markers }

def registerHelper (e : Engine) (name : String) (h : Helper) : Engine :=
  { e with api := Entries.put e.api name h }

def mapContext (e : Engine) (f : Context → Context) : Engine :=
  { e with config := { e.config with context := f e.config.context } }

/-- Changes the rules for templates that are compiled from now on. -/
def mapRules (e : Engine) (f : Rules → Rules) : Engine := { e with rules := f e.rules }

def tiers (e : Engine) (data : Value) : Tiers := ⟨data, e.config.context, e.api⟩

/-! ### Compiling -/

def compileNamed (e : Engine) (name text : String) : Except TemplateError Template :=
  Template.compile e.markers e.rules name text

def compile (e : Engine) (text : String) : Except TemplateError Template :=
  e.compileNamed Template.anonymous text

/-- Compiles a text into the cache, where it replaces what was there. -/
def precompile (e : Engine) (key text : String) : Except TemplateError Template × Engine :=
  match e.compileNamed key text with
  | .error error => (.error error, e)
  | .ok t => (.ok t, { e with cache := Entries.put e.cache key t })

/-- The cached template of a key. The text is compiled only if there is none. -/
def getOrCompile (e : Engine) (key text : String) : Except TemplateError Template × Engine :=
  match Entries.find? e.cache key with
  | some t => (.ok t, e)
  | none => e.precompile key text

def removeCached (e : Engine) (key : String) : Engine :=
  { e with cache := Entries.erase e.cache key }

def clearCache (e : Engine) : Engine := { e with cache := [] }

/-! ### Rendering -/

def execute (e : Engine) (bound : Nat) (t : Template) (data : Value) : Rendered :=
  t.render (e.tiers data) bound

/-- Runs what was compiled, unless that failed. -/
def executeCompiled (e : Engine) (bound : Nat) (t : Except TemplateError Template)
    (data : Value) : Rendered :=
  match t with
  | .error error => some (.error error)
  | .ok t => e.execute bound t data

def render (e : Engine) (bound : Nat) (text : String) (data : Value) : Rendered :=
  e.executeCompiled bound (e.compile text) data

/-- Renders through the cache. The text is ignored once the key is cached. -/
def renderCached (e : Engine) (bound : Nat) (key text : String) (data : Value) :
    Rendered × Engine :=
  let (t, e) := e.getOrCompile key text
  (e.executeCompiled bound t data, e)

/-- Renders a template that is in the cache. -/
def renderTemplate (e : Engine) (bound : Nat) (key : String) (data : Value) : Rendered :=
  match Entries.find? e.cache key with
  | none => some (.error (.notFound key))
  | some t => e.execute bound t data

/-- Loads a text and renders it through the cache under its key. -/
def renderFile (e : Engine) (bound : Nat) (load : Loader) (key : String) (data : Value) :
    Rendered × Engine :=
  match load key with
  | .error error => (some (.error (.load key error)), e)
  | .ok text => e.renderCached bound key text data

end Engine

end Stencil
