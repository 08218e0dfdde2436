import Mathlib.Data.List.Basic
import Mathlib.Tactic.Common
import Stencil.Value.Property

/-!
The slots of a container, and what a write to one of them does to the others.

An object has a slot for each of its keys. An array has one for each position, and a position has
more than one text: leading zeros and a plus sign make no difference. A write changes one slot,
which may be a new one at the end.
-/

namespace Stencil

namespace Entries

variable {α : Type} {es front back : Entries α} {name : String}

lemma find?_eq_none (h : name ∉ es.names) : find? es name = none := by
  refine List.lookup_eq_none_iff.mpr fun e he => bne_iff_ne.mpr fun heq => h ?_
  exact List.mem_map.mpr ⟨e, he, heq.symm⟩

lemma find?_append_of_not_mem (h : name ∉ front.names) :
    find? (front ++ back) name = find? back name := by
  have hfront : List.lookup name front = none := find?_eq_none h
  rw [find?, List.lookup_append, hfront, Option.none_or]
  rfl

/-- Writing an entry keeps all others in their order. An entry of a new name comes last. -/
lemma put_cases (es : Entries α) (name : String) (a : α) :
    (∃ front b back, name ∉ front.names ∧ es = front ++ (name, b) :: back ∧
      es.put name a = front ++ (name, a) :: back) ∨
      name ∉ es.names ∧ es.put name a = es ++ [(name, a)] := by
  induction es with
  | nil => exact .inr ⟨by simp [names], rfl⟩
  | cons e es ih =>
    obtain ⟨n, c⟩ := e
    by_cases hn : n = name
    · subst hn
      exact .inl ⟨[], c, es, by simp [names], rfl, by simp [put]⟩
    · have hput : put ((n, c) :: es) name a = (n, c) :: put es name a := by simp [put, hn]
      have hcons {rest : Entries α} (h : name ∉ rest.names) : name ∉ names ((n, c) :: rest) := by
        simpa [names, Ne.symm hn] using h
      rcases ih with ⟨front, b, back, hfront, rfl, heq⟩ | ⟨hmem, heq⟩
      · exact .inl ⟨(n, c) :: front, b, back, hcons hfront, rfl, by rw [hput, heq]; rfl⟩
      · exact .inr ⟨hcons hmem, by rw [hput, heq]; rfl⟩

end Entries

namespace Value

variable {old new v inner : Value} {key p q : String}

/-- Two keys designate one slot: they are the same, or an array has them at the same position. -/
def SameSlot : Value → String → String → Prop
  | .arr _, p, q => p = q ∨ ∃ i, position? p = some i ∧ position? q = some i
  | _, p, q => p = q

/-- The value in the slot of a key is replaced by another, and nothing else is changed. -/
inductive Replaced (key : String) (v : Value) : Value → Value → Prop
  | entry {front back : Entries Value} (w : Value) : key ∉ front.names →
    Replaced key v (.obj (front ++ (key, w) :: back)) (.obj (front ++ (key, v) :: back))
  | element {items : List Value} {i : ℕ} : position? key = some i → i < items.length →
    Replaced key v (.arr items) (.arr (items.set i v))

/-- A slot for a key is added at the end, and nothing else is changed. -/
inductive Extended (key : String) (v : Value) : Value → Value → Prop
  | entry {es : Entries Value} : key ∉ es.names →
    Extended key v (.obj es) (.obj (es ++ [(key, v)]))
  | element {items : List Value} : position? key = some items.length →
    Extended key v (.arr items) (.arr (items ++ [v]))

/-! ### Writing -/

/-- A write changes one slot. -/
lemma changed_of_setProperty (h : old.setProperty key v = .ok new) :
    Replaced key v old new ∨ Extended key v old new := by
  unfold setProperty at h
  split at h
  · cases h
  · rename_i es
    cases h
    rcases Entries.put_cases es key v with ⟨front, w, back, hfront, rfl, heq⟩ | ⟨hmem, heq⟩
    · rw [heq]
      exact .inl (.entry w hfront)
    · rw [heq]
      exact .inr (.entry hmem)
  · rename_i items
    split at h
    · cases h
    · rename_i i hi
      split_ifs at h with hlt heq
      · cases h
        exact .inl (.element hi hlt)
      · cases h
        subst heq
        exact .inr (.element hi)
  · cases h

/-- A child is what is in the slot of its key. -/
lemma child_cases (h : old.child key = .ok inner) :
    (∃ es, old = .obj es ∧ Entries.find? es key = some inner) ∨
      ∃ items i, old = .arr items ∧ position? key = some i ∧ items[i]? = some inner := by
  have hpresent {o : Option Value} (ho : child.present key o = .ok inner) : o = some inner := by
    unfold child.present at ho
    split at ho <;> cases ho
    rfl
  unfold child at h
  split at h
  · exact .inl ⟨_, rfl, hpresent h⟩
  · obtain ⟨i, hi, helement⟩ := Option.bind_eq_some_iff.mp (hpresent h)
    exact .inr ⟨_, i, rfl, hi, helement⟩
  · cases h

/-- A child has a slot already, and so a write of it adds none. -/
lemma replaced_of_child (hchild : old.child key = .ok inner)
    (h : old.setProperty key v = .ok new) : Replaced key v old new := by
  rcases changed_of_setProperty h with h | h
  · exact h
  rcases child_cases hchild with ⟨es, rfl, hfind⟩ | ⟨items, i, rfl, hi, helement⟩
  · cases h with
    | entry hmem =>
      rw [Entries.find?_eq_none hmem] at hfind
      cases hfind
  · cases h with
    | element hlast =>
      obtain rfl : i = items.length := Option.some.inj (hi.symm.trans hlast)
      rw [List.getElem?_length] at helement
      cases helement

/-! ### Reading -/

lemma ne_length_of_position {i : ℕ} (h : position? key = some i) : key ≠ "length" := by
  rintro rfl
  have hlength : position? "length" = none := by decide
  rw [hlength] at h
  cases h

lemma getProperty_position {items : List Value} {i : ℕ} (h : position? key = some i) :
    (arr items).getProperty key = .ok (items[i]?.getD .null) := by
  rw [getProperty, if_neg (ne_length_of_position h), element?, h, Option.bind_some]

lemma getProperty_of_child (h : old.child key = .ok inner) : old.getProperty key = .ok inner := by
  rcases child_cases h with ⟨es, rfl, hfind⟩ | ⟨items, i, rfl, hi, helement⟩
  · rw [getProperty, hfind, Option.getD_some]
  · rw [getProperty_position hi, helement, Option.getD_some]

/-- What a key reads is the same wherever the array has the same at its position. -/
lemma element?_congr {items items' : List Value}
    (h : ∀ i, position? q = some i → items[i]? = items'[i]?) :
    element? items q = element? items' q := by
  rw [element?, element?]
  cases hq : position? q with
  | none => rfl
  | some i => exact h i hq

/-- The keys of one slot read the same. -/
lemma SameSlot.getProperty_eq (h : old.SameSlot p q) : old.getProperty p = old.getProperty q := by
  cases old with
  | arr items =>
    rcases h with rfl | ⟨i, hp, hq⟩
    · rfl
    · rw [getProperty_position hp, getProperty_position hq]
  | null | bool | num | str | obj =>
    obtain rfl : p = q := h
    rfl

namespace Replaced

lemma sameSlot (h : Replaced key v old new) (hs : old.SameSlot p q) : new.SameSlot p q := by
  cases h <;> exact hs

lemma getProperty_self (h : Replaced key v old new) : new.getProperty key = .ok v := by
  cases h with
  | entry w hfront =>
    rw [getProperty, Entries.find?_append_of_not_mem hfront, Entries.find?_cons, if_pos rfl,
      Option.getD_some]
  | element hi hlt =>
    rw [getProperty_position hi, List.getElem?_set_self hlt, Option.getD_some]

lemma getProperty_other (h : Replaced p v old new) (hq : ¬ old.SameSlot p q) :
    new.getProperty q = old.getProperty q := by
  cases h with
  | @entry front back w hfront =>
    have hpq : p ≠ q := hq
    have hfind (u : Value) : Entries.find? (front ++ (p, u) :: back) q =
        (List.lookup q front).or (Entries.find? back q) := by
      have hback : List.lookup q ((p, u) :: back) = Entries.find? back q := by
        rw [← Entries.find?, Entries.find?_cons, if_neg hpq]
      rw [Entries.find?, List.lookup_append, hback]
    rw [getProperty, getProperty, hfind, hfind]
  | @element items i hi hlt =>
    have hsame : element? (items.set i v) q = element? items q := element?_congr fun j hj => by
      have hne : i ≠ j := fun heq => hq (.inr ⟨j, heq ▸ hi, hj⟩)
      exact List.getElem?_set_ne hne
    rw [getProperty, getProperty, List.length_set, hsame]

end Replaced

namespace Extended

lemma sameSlot (h : Extended key v old new) (hs : old.SameSlot p q) : new.SameSlot p q := by
  cases h <;> exact hs

lemma getProperty_self (h : Extended key v old new) : new.getProperty key = .ok v := by
  cases h with
  | entry hmem =>
    rw [getProperty, Entries.find?_append_of_not_mem hmem, Entries.find?_cons, if_pos rfl,
      Option.getD_some]
  | element hi =>
    rw [getProperty_position hi, List.getElem?_concat_length, Option.getD_some]

lemma getProperty_other (h : Extended p v old new) (hq : ¬ old.SameSlot p q) :
    new.getProperty q = old.getProperty q ∨
      q = "length" ∧ ∃ items, old = .arr items ∧ new = .arr (items ++ [v]) := by
  cases h with
  | @entry es hmem =>
    have hpq : p ≠ q := hq
    have hlast : List.lookup q [(p, v)] = none := by
      rw [← Entries.find?, Entries.find?_cons, if_neg hpq, Entries.find?_nil]
    left
    rw [getProperty, getProperty, Entries.find?, List.lookup_append, hlast, Option.or_none]
    rfl
  | @element items hi =>
    by_cases hlength : q = "length"
    · exact .inr ⟨hlength, items, rfl, rfl⟩
    · have hsame : element? (items ++ [v]) q = element? items q := element?_congr fun j hj => by
        have hne : j ≠ items.length := fun heq => hq (.inr ⟨j, heq ▸ hi, hj⟩)
        rcases Nat.lt_or_gt_of_ne hne with hlt | hgt
        · exact List.getElem?_append_left hlt
        · rw [List.getElem?_eq_none (by simp; omega), List.getElem?_eq_none (by omega)]
      left
      rw [getProperty, getProperty, if_neg hlength, if_neg hlength, hsame]

end Extended

/-- **Slots are apart.** After a write the keys of its slot read the value that was written, and
every other key reads what it did before. Only the length of an array may be another one, when the
write has appended an element. -/
theorem getProperty_setProperty (c c' v : Value) (p q : String)
    (h : c.setProperty p v = .ok c') :
    (c.SameSlot p q → c'.getProperty q = .ok v) ∧
      (¬ c.SameSlot p q → c'.getProperty q = c.getProperty q ∨
        q = "length" ∧ ∃ items, c = .arr items ∧ c' = .arr (items ++ [v])) := by
  rcases changed_of_setProperty h with hr | he
  · refine ⟨fun hsame => ?_, fun hother => .inl (hr.getProperty_other hother)⟩
    rw [← (hr.sameSlot hsame).getProperty_eq]
    exact hr.getProperty_self
  · refine ⟨fun hsame => ?_, he.getProperty_other⟩
    rw [← (he.sameSlot hsame).getProperty_eq]
    exact he.getProperty_self

/-- An array grows by an element, and an object has an entry changed between two others. -/
theorem getProperty_setProperty_grown :
    let xs : Value := .arr [.str "a"]
    let grown : Value := .arr [.str "a", .str "b"]
    let o : Value := .obj [("x", .null), ("01", .null), ("1", .null)]
    let changed : Value := .obj [("x", .null), ("01", .str "b"), ("1", .null)]
    xs.setProperty "01" (.str "b") = .ok grown ∧ grown.getProperty "+1" = .ok (.str "b") ∧
      grown.getProperty "0" = xs.getProperty "0" ∧
      o.setProperty "01" (.str "b") = .ok changed ∧ changed.getProperty "1" = o.getProperty "1" := by
  intro xs grown o changed
  have hxs : xs.setProperty "01" (.str "b") = .ok grown := rfl
  have ho : o.setProperty "01" (.str "b") = .ok changed := rfl
  have hslots (q : String) := getProperty_setProperty xs grown (.str "b") "01" q hxs
  have hsame : xs.SameSlot "01" "+1" := .inr ⟨1, rfl, rfl⟩
  have hzero : ¬ xs.SameSlot "01" "0" := by
    rintro (h | ⟨i, hone, hzero⟩)
    · revert h
      decide
    · cases hone.symm.trans (show position? "01" = some 1 from rfl)
      revert hzero
      decide
  have hother : ¬ o.SameSlot "01" "1" := show ¬ "01" = "1" by decide
  refine ⟨hxs, (hslots "+1").1 hsame, ?_, ho, ?_⟩
  · exact ((hslots "0").2 hzero).resolve_right fun h => absurd h.1 (by decide)
  · have hread := (getProperty_setProperty o changed (.str "b") "01" "1" ho).2 hother
    exact hread.resolve_right fun h => absurd h.1 (by decide)

/-- Two texts of one number lead to one element of an array. -/
theorem getProperty_setProperty_alias :
    let xs : Value := .arr [.str "a", .str "b"]
    let changed : Value := .arr [.str "a", .str "c"]
    xs.setProperty "01" (.str "c") = .ok changed ∧ "01" ≠ "1" ∧ "1" ≠ "length" ∧
      xs.getProperty "1" = .ok (.str "b") ∧ changed.getProperty "1" = .ok (.str "c") ∧
      changed.getProperty "1" ≠ xs.getProperty "1" := by
  intro xs changed
  have hbefore : xs.getProperty "1" = .ok (.str "b") := rfl
  have hafter : changed.getProperty "1" = .ok (.str "c") := rfl
  refine ⟨rfl, by decide, by decide, hbefore, hafter, ?_⟩
  rw [hbefore, hafter]
  simp

end Value

end Stencil
