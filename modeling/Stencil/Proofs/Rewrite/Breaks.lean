import Stencil.Proofs.Rewrite.Occurrences

/-!
What rewrite rules do to the lines of code.

A replacement may repeat what its groups matched and drop the rest of the match. The standard rules
repeat only text without line breaks, so they can take lines away from code but add none.
-/

namespace Stencil

namespace Pattern

variable {p : Pattern} {r : Replacement}

/-- The text of a match lies ahead of where the match ends, and its replacement has no more line
breaks. -/
def Shrinks (p : Pattern) (r : Replacement) : Prop :=
  ∀ {c s}, p.matchAt? c = some s → ∃ taken, c.rest = taken ++ s.cursor.rest ∧
    Text.breaks (r.expand s.captures) ≤ Text.breaks taken

lemma breaks_copyOne {next : Cursor → List Char}
    (hnext : ∀ c, Text.breaks (next c) ≤ Text.breaks c.rest) (c : Cursor) :
    Text.breaks (copyOne next c) ≤ Text.breaks c.rest := by
  obtain ⟨before, _ | ⟨ch, rest⟩⟩ := c
  · exact Nat.le_refl _
  · have hlater := hnext ⟨ch :: before, rest⟩
    show Text.breaks ([ch] ++ next ⟨ch :: before, rest⟩) ≤ Text.breaks ([ch] ++ rest)
    rw [Text.breaks_append, Text.breaks_append]
    exact Nat.add_le_add_left hlater _

lemma breaks_replaceWithin (hp : p.Shrinks r) (n : ℕ) (afterMatch : Bool) (c : Cursor) :
    Text.breaks (replaceWithin p r n afterMatch c) ≤ Text.breaks c.rest := by
  induction n generalizing afterMatch c with
  | zero => exact Nat.le_refl _
  | succ n ih =>
    have hcopy := breaks_copyOne (ih false) c
    rw [replaceWithin]
    split
    · exact hcopy
    · rename_i s hs
      obtain ⟨taken, hrest, hexpand⟩ := hp hs
      split_ifs with hlt hafter
      · have hlater := ih true s.cursor
        rw [hrest, Text.breaks_append, Text.breaks_append]
        exact Nat.add_le_add hexpand hlater
      · exact hcopy
      · -- an empty match, whose replacement has no line break
        obtain rfl : taken = [] := by
          have hlen := congrArg List.length hrest
          rw [List.length_append] at hlen
          exact List.eq_nil_of_length_eq_zero (by omega)
        rw [Text.breaks_nil] at hexpand
        rw [Text.breaks_append]
        omega

lemma breaks_replaceAll (hp : p.Shrinks r) (text : String) :
    Text.breaks (p.replaceAll r text).toList ≤ Text.breaks text.toList := by
  rw [replaceAll, String.toList_ofList]
  exact breaks_replaceWithin hp _ false ⟨[], text.toList⟩

end Pattern

namespace Rule

open Pattern

variable {h : Header}

lemma Header.Shaped.breaks_counting (hs : h.Shaped) : Text.breaks h.counting = 0 := by
  have hname : Text.breaks h.name = 0 := List.count_eq_zero.mpr fun hbreak => by
    have hword : Text.isWord '\n' = false := Text.isWord_eq_false (by decide)
    rw [hs.name _ hbreak] at hword
    cases hword
  have helements : Text.breaks h.elements = 0 := List.count_eq_zero.mpr hs.elements
  unfold Header.counting
  simp only [Text.breaks_append, hname, helements, Nat.add_zero]
  decide +kernel

lemma shrinks_forIn : forInPattern.Shrinks forInReplacement := by
  rintro ⟨before, rest⟩ s hs
  obtain ⟨t, ⟨mid, hmid, rfl⟩, hst⟩ := (searches (.group 0 forInPattern)).sound hs
  obtain ⟨h, hshaped, after, rfl, rfl⟩ := matches_forIn_iff.mp hmid
  cases hst
  refine ⟨h.text, rfl, ?_⟩
  dsimp only
  rw [since_append, expand_header, hshaped.breaks_counting]
  exact Nat.zero_le _

end Rule

/-- **The standard rules add no lines** to the code that they rewrite. -/
theorem Rules.breaks_apply_standard (code : String) :
    Text.breaks (Rules.standard.apply code).toList ≤ Text.breaks code.toList :=
  Pattern.breaks_replaceAll Rule.shrinks_forIn code

end Stencil
