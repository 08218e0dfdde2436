/-!
Named entries in insertion order, the shape of objects, bindings and tables.

Writing an entry that exists keeps its place, and a new one comes last.
-/

namespace Stencil

abbrev Entries (α : Type) := List (String × α)

namespace Entries

variable {α : Type}

def find? (es : Entries α) (name : String) : Option α := es.lookup name

def contains (es : Entries α) (name : String) : Bool := (es.find? name).isSome

def put (es : Entries α) (name : String) (a : α) : Entries α :=
  match es with
  | [] => [(name, a)]
  | (n, b) :: rest => if n = name then (n, a) :: rest else (n, b) :: put rest name a

def erase (es : Entries α) (name : String) : Entries α := es.filter (·.1 != name)

def names (es : Entries α) : List String := es.map (·.1)

/-- The names in code point order. -/
def sortedNames (es : Entries α) : List String := es.names.mergeSort fun a b => a ≤ b

/-- Entries written one after the other into an empty table. -/
def ofList (es : List (String × α)) : Entries α := es.foldl (fun t e => put t e.1 e.2) []

@[simp] theorem find?_nil (name : String) : find? ([] : Entries α) name = none := rfl

theorem find?_cons (n : String) (a : α) (es : Entries α) (name : String) :
    find? ((n, a) :: es) name = if n = name then some a else find? es name := by
  by_cases h : n = name
  · simp [find?, h]
  · simp [find?, h, List.lookup_cons, beq_eq_false_iff_ne.2 (Ne.symm h)]

@[simp] theorem find?_put_self (es : Entries α) (name : String) (a : α) :
    (es.put name a).find? name = some a := by
  induction es with
  | nil => simp [put, find?_cons]
  | cons e es ih =>
    obtain ⟨n, b⟩ := e
    by_cases h : n = name <;> simp [put, h, find?_cons, ih]

theorem find?_put_of_ne {es : Entries α} {name other : String} {a : α} (h : other ≠ name) :
    (es.put name a).find? other = es.find? other := by
  induction es with
  | nil => simp [put, find?_cons, Ne.symm h]
  | cons e es ih =>
    obtain ⟨n, b⟩ := e
    by_cases hn : n = name
    · simp [put, hn, find?_cons, Ne.symm h]
    · simp [put, hn, find?_cons, ih]

/-- Writing the value that an entry has already changes nothing. -/
theorem put_of_find? {es : Entries α} {name : String} {a : α} (h : es.find? name = some a) :
    es.put name a = es := by
  induction es with
  | nil => simp at h
  | cons e es ih =>
    obtain ⟨n, b⟩ := e
    rw [find?_cons] at h
    by_cases hn : n = name
    · rw [if_pos hn] at h
      cases h
      simp [put, hn]
    · rw [if_neg hn] at h
      simp [put, hn, ih h]

@[simp] theorem find?_erase_self (es : Entries α) (name : String) :
    (es.erase name).find? name = none := by
  induction es with
  | nil => rfl
  | cons e es ih =>
    obtain ⟨n, b⟩ := e
    by_cases hn : n = name
    · simpa [erase, hn] using ih
    · simpa [erase, hn, find?_cons] using ih

theorem find?_erase_of_ne {es : Entries α} {name other : String} (h : other ≠ name) :
    (es.erase name).find? other = es.find? other := by
  induction es with
  | nil => rfl
  | cons e es ih =>
    obtain ⟨n, b⟩ := e
    by_cases hn : n = name
    · simpa [erase, hn, find?_cons, Ne.symm h] using ih
    · simpa [erase, hn, find?_cons] using congrArg (if n = other then some b else ·) ih

/-! ### Order -/

theorem names_put_of_mem {es : Entries α} {name : String} (a : α) (h : name ∈ es.names) :
    (es.put name a).names = es.names := by
  induction es with
  | nil => simp [names] at h
  | cons e es ih =>
    obtain ⟨n, b⟩ := e
    by_cases hn : n = name
    · simp [put, hn, names]
    · have hmem : name ∈ names es := by
        simpa [names, Ne.symm hn] using h
      simp only [put, hn, if_false, names, List.map_cons]
      exact congrArg (n :: ·) (ih hmem)

theorem names_put_of_not_mem {es : Entries α} {name : String} (a : α) (h : name ∉ es.names) :
    (es.put name a).names = es.names ++ [name] := by
  induction es with
  | nil => rfl
  | cons e es ih =>
    obtain ⟨n, b⟩ := e
    have hn : n ≠ name := fun hn => h (by simp [names, hn])
    have hmem : name ∉ names es := fun hm => h (List.mem_cons_of_mem _ hm)
    simp only [put, hn, if_false, names, List.map_cons, List.cons_append]
    exact congrArg (n :: ·) (ih hmem)

end Entries

end Stencil
