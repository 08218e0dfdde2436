import Mathlib.Data.List.Nodup
import Mathlib.Data.List.Perm.Subperm
import Stencil.Proofs.Value.Slots
import Stencil.Value.Operator

/-!
Values that are alike but for their numbers.

Two values are alike if they have the same shape and the same texts and truth values, and if their
corresponding numbers are in a given relation. Entries of objects correspond by their keys, whatever
their order. Structural equality finds out whether two values are alike with the same numbers, since
an object that has as many keys as another and all of them there has no other keys.
-/

namespace Stencil

namespace Entries

variable {α : Type} {es bs : Entries α} {name : String} {a : α}

lemma find?_of_mem (hkeys : es.names.Nodup) (h : (name, a) ∈ es) : find? es name = some a := by
  induction es with
  | nil => cases h
  | cons e es ih =>
    obtain ⟨n, b⟩ := e
    obtain ⟨hnot, hkeys⟩ := List.nodup_cons.mp hkeys
    rw [find?_cons]
    rcases List.mem_cons.mp h with heq | h
    · cases heq
      rw [if_pos rfl]
    · have hne : n ≠ name := fun hn => hnot (hn ▸ List.mem_map.mpr ⟨_, h, rfl⟩)
      rw [if_neg hne, ih hkeys h]

lemma mem_of_find? (h : find? es name = some a) : (name, a) ∈ es := by
  induction es with
  | nil => cases h
  | cons e es ih =>
    obtain ⟨n, b⟩ := e
    rw [find?_cons] at h
    split_ifs at h with hn
    · cases h
      exact hn ▸ List.mem_cons_self
    · exact List.mem_cons_of_mem _ (ih h)

lemma mem_names_iff : name ∈ es.names ↔ ∃ a, find? es name = some a := by
  constructor
  · intro hmem
    rcases hfind : find? es name with _ | a
    · obtain ⟨e, he, rfl⟩ := List.mem_map.mp hmem
      exact absurd (beq_self_eq_true e.1) (by simpa using List.lookup_eq_none_iff.mp hfind e he)
    · exact ⟨a, rfl⟩
  · rintro ⟨a, hfind⟩
    exact List.mem_map.mpr ⟨(name, a), mem_of_find? hfind, rfl⟩

/-- Keys that are all among as many others are the others. -/
lemma names_iff_of_length (ha : es.names.Nodup) (hlen : es.length = bs.length)
    (h : ∀ name ∈ es.names, name ∈ bs.names) (name : String) :
    name ∈ es.names ↔ name ∈ bs.names := by
  have hsub : es.names.Subperm bs.names := ha.subperm h
  have hperm : es.names.Perm bs.names := hsub.perm_of_length_le (by simp [names, hlen])
  exact hperm.mem_iff

/-- An object has an entry for each of another with as many keys just if the two have the same
keys. -/
lemma paired_iff {R : α → α → Prop} (ha : es.names.Nodup) (hb : bs.names.Nodup) :
    (es.length = bs.length ∧ ∀ name a, (name, a) ∈ es → ∃ b, find? bs name = some b ∧ R a b) ↔
      (∀ name, name ∈ es.names ↔ name ∈ bs.names) ∧
        ∀ name a b, find? es name = some a → find? bs name = some b → R a b := by
  constructor
  · rintro ⟨hlen, hpaired⟩
    have hsub : ∀ name ∈ es.names, name ∈ bs.names := fun name hname => by
      obtain ⟨a, hfind⟩ := mem_names_iff.mp hname
      obtain ⟨b, hfind', -⟩ := hpaired name a (mem_of_find? hfind)
      exact mem_names_iff.mpr ⟨b, hfind'⟩
    refine ⟨names_iff_of_length ha hlen hsub, fun name a b hfind hfind' => ?_⟩
    obtain ⟨b', hb', hR⟩ := hpaired name a (mem_of_find? hfind)
    obtain rfl := Option.some.inj (hfind'.symm.trans hb')
    exact hR
  · rintro ⟨hnames, hentries⟩
    have hperm : es.names.Perm bs.names := (List.perm_ext_iff_of_nodup ha hb).mpr hnames
    refine ⟨by simpa [names] using hperm.length_eq, fun name a hmem => ?_⟩
    have hfind := find?_of_mem ha hmem
    obtain ⟨b, hfind'⟩ := mem_names_iff.mp ((hnames name).mp (mem_names_iff.mpr ⟨a, hfind⟩))
    exact ⟨b, hfind', hentries name a b hfind hfind'⟩

end Entries

namespace Value

/-! ### Shapes -/

/-- No object in the value has a key twice, and all numbers in it have the property. -/
inductive Holds (P : Number → Prop) : Value → Prop
  | null : Holds P .null
  | bool (b : Bool) : Holds P (.bool b)
  | num {n : Number} : P n → Holds P (.num n)
  | str (s : String) : Holds P (.str s)
  | arr {items : List Value} : (∀ v ∈ items, Holds P v) → Holds P (.arr items)
  | obj {es : Entries Value} : es.names.Nodup → (∀ name v, (name, v) ∈ es → Holds P v) →
    Holds P (.obj es)

/-- The values have the same shape, with the same texts and truth values in it, and corresponding
numbers are related. -/
inductive Like (R : Number → Number → Prop) : Value → Value → Prop
  | null : Like R .null .null
  | bool (b : Bool) : Like R (.bool b) (.bool b)
  | num {x y : Number} : R x y → Like R (.num x) (.num y)
  | str (s : String) : Like R (.str s) (.str s)
  | arr {as bs : List Value} : as.length = bs.length →
    (∀ (i : ℕ) (a b : Value), as[i]? = some a → bs[i]? = some b → Like R a b) →
    Like R (.arr as) (.arr bs)
  | obj {as bs : Entries Value} : (∀ name, name ∈ as.names ↔ name ∈ bs.names) →
    (∀ name a b, Entries.find? as name = some a → Entries.find? bs name = some b → Like R a b) →
    Like R (.obj as) (.obj bs)

variable {P : Number → Prop} {R S T : Number → Number → Prop} {a b c : Value}

lemma Holds.of_num {n : Number} (h : Holds P (.num n)) : P n := by
  cases h
  assumption

lemma Holds.of_mem {items : List Value} (h : Holds P (.arr items)) {v : Value} (hv : v ∈ items) :
    Holds P v := by
  cases h with
  | arr hitems => exact hitems v hv

lemma Holds.of_find? {es : Entries Value} (h : Holds P (.obj es)) {name : String} {v : Value}
    (hv : Entries.find? es name = some v) : Holds P v := by
  cases h with
  | obj _ hentries => exact hentries name v (Entries.mem_of_find? hv)

lemma like_num_iff {x y : Number} : Like R (.num x) (.num y) ↔ R x y :=
  ⟨fun h => by cases h; assumption, .num⟩

lemma like_arr_iff {as bs : List Value} : Like R (.arr as) (.arr bs) ↔ as.length = bs.length ∧
    ∀ (i : ℕ) (a b : Value), as[i]? = some a → bs[i]? = some b → Like R a b :=
  ⟨fun h => by cases h; exact ⟨‹_›, ‹_›⟩, fun h => .arr h.1 h.2⟩

lemma like_obj_iff {as bs : Entries Value} : Like R (.obj as) (.obj bs) ↔
    (∀ name, name ∈ as.names ↔ name ∈ bs.names) ∧
      ∀ name a b, Entries.find? as name = some a → Entries.find? bs name = some b → Like R a b :=
  ⟨fun h => by cases h; exact ⟨‹_›, ‹_›⟩, fun h => .obj h.1 h.2⟩

lemma Like.refl (h : Holds P a) (hR : ∀ n, P n → R n n) : Like R a a := by
  induction h with
  | null => exact .null
  | bool b => exact .bool b
  | num hn => exact .num (hR _ hn)
  | str s => exact .str s
  | arr _ ih =>
    refine .arr rfl fun i a b ha hb => ?_
    obtain rfl := Option.some.inj (ha.symm.trans hb)
    exact ih a (List.mem_of_getElem? ha)
  | obj _ _ ih =>
    refine .obj (fun _ => Iff.rfl) fun name a b ha hb => ?_
    obtain rfl := Option.some.inj (ha.symm.trans hb)
    exact ih name a (Entries.mem_of_find? ha)

lemma Like.symm (h : Like R a b) (hR : ∀ x y, R x y → S y x) : Like S b a := by
  induction h with
  | null => exact .null
  | bool b => exact .bool b
  | num hxy => exact .num (hR _ _ hxy)
  | str s => exact .str s
  | arr hlen _ ih => exact .arr hlen.symm fun i b a hb ha => ih i a b ha hb
  | obj hkeys _ ih =>
    exact .obj (fun name => (hkeys name).symm) fun name b a hb ha => ih name a b ha hb

lemma Like.trans (h : Like R a b) (h' : Like S b c) (hR : ∀ x y z, R x y → S y z → T x z) :
    Like T a c := by
  induction h generalizing c with
  | null =>
    cases h'
    exact .null
  | bool b =>
    cases h'
    exact .bool b
  | num hxy =>
    cases h' with
    | num hyz => exact .num (hR _ _ _ hxy hyz)
  | str s =>
    cases h'
    exact .str s
  | @arr as bs hlen _ ih =>
    cases h' with
    | @arr _ cs hlen' hitems =>
      refine .arr (hlen.trans hlen') fun i a c ha hc => ?_
      obtain ⟨hi, -⟩ := List.getElem?_eq_some_iff.mp ha
      have hb : bs[i]? = some bs[i] := List.getElem?_eq_getElem (hlen ▸ hi)
      exact ih i a _ ha hb (hitems i _ c hb hc)
  | @obj as bs hkeys _ ih =>
    cases h' with
    | @obj _ cs hkeys' hentries =>
      refine .obj (fun name => (hkeys name).trans (hkeys' name)) fun name a c ha hc => ?_
      obtain ⟨b, hb⟩ := Entries.mem_names_iff.mp
        ((hkeys name).mp (Entries.mem_names_iff.mpr ⟨a, ha⟩))
      exact ih name a b ha hb (hentries name b c hb hc)

/-- The relation matters only between numbers that are in the values. -/
lemma Like.mono {Q : Number → Prop} (h : Like R a b) (ha : Holds P a) (hb : Holds Q b)
    (hR : ∀ x y, P x → Q y → R x y → S x y) : Like S a b := by
  induction h with
  | null => exact .null
  | bool b => exact .bool b
  | num hxy => exact .num (hR _ _ ha.of_num hb.of_num hxy)
  | str s => exact .str s
  | arr hlen _ ih =>
    exact .arr hlen fun i a b hi hi' => ih i a b hi hi' (ha.of_mem (List.mem_of_getElem? hi))
      (hb.of_mem (List.mem_of_getElem? hi'))
  | obj hkeys _ ih =>
    exact .obj hkeys fun name a b hfind hfind' =>
      ih name a b hfind hfind' (ha.of_find? hfind) (hb.of_find? hfind')

/-! ### Structural equality -/

lemma sameItems_iff (as bs : List Value) : sameItems as bs = true ↔ as.length = bs.length ∧
    ∀ (i : ℕ) (a b : Value), as[i]? = some a → bs[i]? = some b → same a b = true := by
  induction as generalizing bs with
  | nil => cases bs <;> simp [sameItems]
  | cons a as ih =>
    cases bs with
    | nil => simp [sameItems]
    | cons b bs =>
      rw [sameItems, Bool.and_eq_true, ih bs, List.length_cons, List.length_cons]
      constructor
      · rintro ⟨hab, hlen, hrest⟩
        refine ⟨congrArg (· + 1) hlen, fun i a' b' ha' hb' => ?_⟩
        cases i with
        | zero =>
          cases ha'
          cases hb'
          exact hab
        | succ i => exact hrest i a' b' ha' hb'
      · rintro ⟨hlen, hall⟩
        exact ⟨hall 0 a b rfl rfl, Nat.succ.inj hlen, fun i => hall (i + 1)⟩

lemma sameEntries_iff (as bs : Entries Value) : sameEntries as bs = true ↔
    ∀ name a, (name, a) ∈ as → ∃ b, Entries.find? bs name = some b ∧ same a b = true := by
  induction as with
  | nil => simp [sameEntries]
  | cons e as ih =>
    obtain ⟨n, a⟩ := e
    have hcons : sameEntries ((n, a) :: as) bs =
        (sameEntries [(n, a)] bs && sameEntries as bs) := by
      simp [sameEntries]
    have hhead : sameEntries [(n, a)] bs = true ↔
        ∃ b, Entries.find? bs n = some b ∧ same a b = true := by
      rw [sameEntries, sameEntries, Bool.and_true]
      rcases Entries.find? bs n with _ | b <;> simp
    rw [hcons, Bool.and_eq_true, ih]
    refine (and_congr_left' hhead).trans ?_
    constructor
    · rintro ⟨hfirst, hrest⟩ name a' hmem
      rcases List.mem_cons.mp hmem with heq | hmem
      · cases heq
        exact hfirst
      · exact hrest name a' hmem
    · intro hall
      exact ⟨hall n a List.mem_cons_self, fun name a' hmem =>
        hall name a' (List.mem_cons_of_mem _ hmem)⟩

/-- The numbers are the same for structural equality. -/
def SameNumber (x y : Number) : Prop := x.same y = true

/-- **Structural equality is likeness**, as objects have no key twice. -/
theorem same_iff_like {Q : Number → Prop} (ha : Holds P a) (hb : Holds Q b) :
    same a b = true ↔ Like SameNumber a b := by
  induction ha generalizing b with
  | null =>
    cases hb
    case null => exact iff_of_true rfl .null
    all_goals exact iff_of_false (by simp [same]) (by rintro ⟨⟩)
  | bool x =>
    cases hb
    case bool y =>
      rw [same, beq_iff_eq]
      exact ⟨fun h => h ▸ .bool x, fun h => by cases h; rfl⟩
    all_goals exact iff_of_false (by simp [same]) (by rintro ⟨⟩)
  | num =>
    cases hb
    case num =>
      rw [same, like_num_iff]
      rfl
    all_goals exact iff_of_false (by simp [same]) (by rintro ⟨⟩)
  | str s =>
    cases hb
    case str t =>
      rw [same, beq_iff_eq]
      exact ⟨fun h => h ▸ .str s, fun h => by cases h; rfl⟩
    all_goals exact iff_of_false (by simp [same]) (by rintro ⟨⟩)
  | @arr as _ ih =>
    cases hb
    case arr bs hbs =>
      rw [same, sameItems_iff, like_arr_iff]
      refine and_congr_right fun _ => forall₃_congr fun i a b => forall₂_congr fun hi hi' => ?_
      exact ih a (List.mem_of_getElem? hi) (hbs b (List.mem_of_getElem? hi'))
    all_goals exact iff_of_false (by simp [same]) (by rintro ⟨⟩)
  | @obj as hkeys _ ih =>
    cases hb
    case obj bs hkeys' hbs =>
      rw [same, Bool.and_eq_true, beq_iff_eq, sameEntries_iff, Entries.paired_iff hkeys hkeys',
        like_obj_iff]
      refine and_congr_right fun _ => forall₃_congr fun name a b =>
        forall₂_congr fun hfind hfind' => ?_
      exact ih name a (Entries.mem_of_find? hfind) (hbs name b (Entries.mem_of_find? hfind'))
    all_goals exact iff_of_false (by simp [same]) (by rintro ⟨⟩)

end Value

end Stencil
