import Stencil.Helper
import Stencil.Value.Property

/-!
The names a template sees.

They resolve in tiers: the locals of the run, the data of the call, the shared context. A
value in any tier hides the helpers of its name.
-/

namespace Stencil

/-- Values and helpers shared by all templates of an engine. -/
structure Context where
  values : Entries Value
  helpers : HelperTable

namespace Context

def empty : Context := ⟨[], []⟩

def isEmpty (c : Context) : Bool := c.values.isEmpty && c.helpers.isEmpty

def insert (c : Context) (name : String) (v : Value) : Context :=
  { c with values := Entries.put c.values name v }

def registerHelper (c : Context) (name : String) (h : Helper) : Context :=
  { c with helpers := Entries.put c.helpers name h }

end Context

/-- Why an evaluation failed. -/
inductive EvalError where
  | undefined (name : String)
  | notCallable (name : String)
  | helperAsValue (name : String)
  | property (e : PropertyError)
  | helper (name : String) (message : String)
deriving DecidableEq, Repr

def PropertyError.message : PropertyError → String
  | .ofNull p => "cannot read property '" ++ p ++ "' of null"
  | .notAssignable p target => "cannot set property '" ++ p ++ "' on " ++ target

def EvalError.message : EvalError → String
  | .undefined n => n ++ " is not defined"
  | .notCallable n => n ++ " is not a helper function"
  | .helperAsValue n => "helper '" ++ n ++ "' cannot be used as a value"
  | .property e => e.message
  | .helper n message => "helper '" ++ n ++ "' failed: " ++ message

/-- The values a run has declared, assigned or changed. -/
abbrev Locals := Entries Value

/-- The tiers that stay the same during a run. Data contributes names only when it is an
object. -/
structure Tiers where
  scope : Value
  context : Context
  api : HelperTable

namespace Tiers

def scopeValue? (t : Tiers) (name : String) : Option Value :=
  match t.scope with
  | .obj es => Entries.find? es name
  | _ => none

/-- The value bound to a name, innermost tier first. -/
def value? (t : Tiers) (locals : Locals) (name : String) : Option Value :=
  (Entries.find? locals name).or ((t.scopeValue? name).or (Entries.find? t.context.values name))

/-- The helper of a name. Those of the context come before those of the engine. -/
def helper? (t : Tiers) (name : String) : Option Helper :=
  (Entries.find? t.context.helpers name).or (Entries.find? t.api name)

/-- A name used as a value. -/
def lookup (t : Tiers) (locals : Locals) (name : String) : Except EvalError Value :=
  match t.value? locals name with
  | some v => .ok v
  | none =>
    match t.helper? name with
    | some _ => .error (.helperAsValue name)
    | none => .error (.undefined name)

/-- A name used as a callee. -/
def callee (t : Tiers) (locals : Locals) (name : String) : Except EvalError Helper :=
  match t.value? locals name with
  | some _ => .error (.notCallable name)
  | none =>
    match t.helper? name with
    | some h => .ok h
    | none => .error (.undefined name)

/-- The locals after a declaration. Without a value it only makes sure that the name is
bound. -/
def declare (t : Tiers) (locals : Locals) (name : String) : Option Value → Locals
  | some v => Entries.put locals name v
  | none =>
    match t.value? locals name with
    | some _ => locals
    | none => Entries.put locals name .null

/-- The locals with a binding of a name. A name without one gets a copy of its value from an
outer tier. -/
def bindLocal (t : Tiers) (locals : Locals) (name : String) : Except EvalError Locals :=
  if Entries.contains locals name then .ok locals
  else Entries.put locals name <$> t.lookup locals name

/-- The local value of a name, and the locals that it is in. -/
def localCopy (t : Tiers) (locals : Locals) (name : String) :
    Except EvalError (Value × Locals) := do
  let locals ← t.bindLocal locals name
  match Entries.find? locals name with
  | some v => return (v, locals)
  | none => throw (.undefined name)

/-- A name is bound as soon as it has a value at all. -/
theorem bindLocal_eq (t : Tiers) (locals : Locals) (name : String) :
    t.bindLocal locals name = Entries.put locals name <$> t.lookup locals name := by
  rcases h : Entries.find? locals name with _ | v
  · simp [bindLocal, Entries.contains, h]
  · have hl : t.lookup locals name = .ok v := by simp [lookup, value?, h]
    simp [bindLocal, Entries.contains, h, hl, Functor.map, Except.map, Entries.put_of_find? h]

theorem localCopy_eq (t : Tiers) (locals : Locals) (name : String) :
    t.localCopy locals name =
      (fun v => (v, Entries.put locals name v)) <$> t.lookup locals name := by
  rw [localCopy, bindLocal_eq]
  rcases t.lookup locals name with e | v
  · rfl
  · simp [bind, Except.bind, Functor.map, Except.map, pure, Except.pure]

end Tiers

end Stencil
