import Stencil.Proofs.Script.Progress
import Stencil.Proofs.Script.TokenLines

/-!
The lines of faults.

Reading counts lines in the code of each tag, and the reader of the program counts them in the text
between tags. No count goes beyond the line that the template has there, so a fault is on a line of
the template, whether characters, tokens or the end of them are at fault.
-/

namespace Stencil.Script

/-- The line is one of those of a text that begins on the line `start`. -/
def InText (start : ℕ) (cs : List Char) (line : ℕ) : Prop :=
  start ≤ line ∧ line ≤ start + Text.breaks cs

variable {n line start : ℕ} {cs rest : List Char} {tokens : List Token} {f : Fault}

lemma InText.first : InText start cs start := ⟨Nat.le_refl _, Nat.le_add_right _ _⟩

lemma InText.last : InText start cs (start + Text.breaks cs) :=
  ⟨Nat.le_add_right _ _, Nat.le_refl _⟩

/-- What is read behind a part of a text is in the text. -/
lemma InText.behind (before : List Char) (h : InText (start + Text.breaks before) rest line) :
    InText start (before ++ rest) line := by
  obtain ⟨hlow, hhigh⟩ := h
  exact ⟨by omega, by rw [Text.breaks_append]; omega⟩

lemma InText.of_suffix (h : InText start rest line) (hrest : rest <:+ cs) :
    InText start cs line := by
  obtain ⟨before, rfl⟩ := hrest
  obtain ⟨hlow, hhigh⟩ := h
  exact ⟨hlow, by rw [Text.breaks_append]; omega⟩

/-! ### Tokens -/

namespace Token

lemma line_of_next_error {c : Char} (h : next line c cs = .error f) : f.line = line := by
  unfold next at h
  dsimp only at h
  split_ifs at h
  · split at h <;> cases h
    rfl
  · split at h <;> cases h
    rfl
  · split at h <;> cases h
    rfl

lemma line_of_closeComment_error {prev : Char} {stop : ℕ}
    (h : closeComment prev line cs = .error stop) : stop = line + Text.breaks cs := by
  induction cs generalizing prev line with
  | nil =>
    cases h
    rfl
  | cons c cs ih =>
    rw [closeComment_cons] at h
    split_ifs at h
    rw [ih h, Nat.add_assoc, ← Text.breaks_append]
    rfl

/-- A text that cannot be cut into tokens is at fault on one of its lines. -/
lemma inText_of_readWithin_error (h : readWithin n line cs = .error f) : InText line cs f.line := by
  induction n generalizing line cs with
  | zero => cases cs <;> cases h
  | succ n ih =>
    rcases cs with _ | ⟨c, cs⟩
    · cases h
    · rw [readWithin_cons] at h
      split_ifs at h with hbreak hblank
      · subst hbreak
        exact (ih h).behind ['\n']
      · exact (ih h).of_suffix (List.suffix_cons c cs)
      · split at h
        · rename_i after
          have hdrop : after.dropWhile (· != '\n') <:+ '/' :: '/' :: after :=
            (List.dropWhile_suffix _).trans (List.suffix_append ['/', '/'] after)
          exact (ih h).of_suffix hdrop
        · rename_i after
          split at h
          · rename_i hclose
            obtain ⟨body, hbody, rfl, rfl⟩ := block_of_closeComment hclose
            rw [← breaks_block hbody] at h
            have hread := (ih h).behind (Filler.block body hbody).text
            simpa [Filler.text] using hread
          · rename_i hclose
            cases h
            rw [line_of_closeComment_error hclose]
            have hlast : InText line after (line + Text.breaks after) := .last
            exact hlast.of_suffix (List.suffix_append ['/', '*'] after)
        · rcases except_bind_error.mp h with hnext | ⟨⟨kind, after⟩, hnext, h⟩
          · rw [line_of_next_error hnext]
            exact .first
          · obtain ⟨text, -, hsplit⟩ := written_of_next hnext
            rcases except_bind_error.mp h with hrest | ⟨more, -, h⟩
            · exact (ih hrest).of_suffix (hsplit ▸ List.suffix_append text after)
            · cases h

end Token

/-- Every token is on a line of the text. -/
lemma inText_of_mem_tokensFrom {ps : List PlacedToken} {t : Token} (ht : t ∈ tokensFrom line ps) :
    InText line (ps.flatMap PlacedToken.source) t.line := by
  induction ps generalizing line with
  | nil => cases ht
  | cons p ps ih =>
    rw [List.flatMap_cons, PlacedToken.source, List.append_assoc]
    refine .behind p.space ?_
    rcases List.mem_cons.mp ht with rfl | ht
    · exact .first
    · exact (ih ht).of_suffix (List.suffix_append p.text _)

lemma inText_of_mem_tokenize {source : String} (h : tokenize source line = .ok tokens) {t : Token}
    (ht : t ∈ tokens) : InText line source.toList t.line := by
  obtain ⟨p, rfl⟩ := placeable_of_readWithin (Nat.le_refl _) h
  obtain ⟨hlow, hhigh⟩ := inText_of_mem_tokensFrom ht
  refine ⟨hlow, ?_⟩
  rw [p.assembled, Text.breaks_append]
  omega

/-! ### Expressions -/

/-- Code that is no expression is at fault on one of its lines. -/
lemma inText_of_parseExpression_error {source : String}
    (h : parseExpression source line = .error f) : InText line source.toList f.line := by
  rcases except_bind_error.mp h with htokens | ⟨tokens, htokens, h⟩
  · exact Token.inText_of_readWithin_error htokens
  · split_ifs at h with hempty
    · cases h
      exact .first
    · rcases completeExpression_consumes.runOn_error h with ⟨i, hi, hline⟩ | ⟨hnil, -⟩
      · obtain ⟨t, ht, rfl⟩ := List.mem_map.mp hi
        rw [← hline]
        exact inText_of_mem_tokenize htokens ht
      · rw [List.map_eq_nil_iff.mp hnil] at hempty
        exact absurd rfl hempty

/-! ### Programs -/

/-- The line is one of the lines of a template, up to the given one. -/
def Upto (last line : ℕ) : Prop := 1 ≤ line ∧ line ≤ last

/-- No line that the instructions count is beyond the last one, when the count is at the given
line. -/
def Counts (last : ℕ) : ℕ → List Instruction → Prop
  | _, [] => True
  | line, .appendLiteral text :: rest =>
    line + Text.breaks text.toList ≤ last ∧ Counts last (line + Text.breaks text.toList) rest
  | _, .execute code :: rest | _, .appendEscaped code :: rest | _, .appendRaw code :: rest =>
    1 ≤ code.line ∧ code.line + Text.breaks code.source.toList ≤ last ∧ Counts last code.line rest
  | line, .noop :: rest => Counts last line rest

variable {α : Type} {last : ℕ} {x : Except Fault (List Item)}

lemma InText.upto (h : InText start cs line) (hstart : 1 ≤ start)
    (hlast : start + Text.breaks cs ≤ last) : Upto last line :=
  ⟨Nat.le_trans hstart h.1, Nat.le_trans h.2 hlast⟩

/-- The items that are read are on lines of the template, or else the fault is. -/
structure Located (last : ℕ) (x : Except Fault (List Item)) : Prop where
  items : ∀ {items}, x = .ok items → ∀ i ∈ items, Upto last i.line
  fault : ∀ {f}, x = .error f → Upto last f.line

lemma Located.bind {y : Except Fault α} {g : α → Except Fault (List Item)}
    (hy : ∀ f, y = .error f → Upto last f.line) (hg : ∀ a, y = .ok a → Located last (g a)) :
    Located last (y >>= g) where
  items h := by
    obtain ⟨a, ha, h⟩ := except_bind_ok.mp h
    exact (hg a ha).items h
  fault h := by
    rcases except_bind_error.mp h with h | ⟨a, ha, h⟩
    · exact hy _ h
    · exact (hg a ha).fault h

lemma Located.append {here : List Item} (hhere : ∀ i ∈ here, Upto last i.line)
    (h : Located last x) : Located last (x >>= fun more => pure (here ++ more)) :=
  .bind (fun _ => h.fault) fun more hmore =>
    { items := fun heq i hi => by
        cases heq
        rcases List.mem_append.mp hi with hi | hi
        · exact hhere i hi
        · exact h.items hmore i hi
      fault := fun heq => by cases heq }

lemma Located.cons {i : Item} (hi : Upto last i.line) (h : Located last x) :
    Located last (x >>= fun more => pure (i :: more)) :=
  .append (List.forall_mem_singleton.mpr hi) h

/-- The items of instructions that count no line beyond the last one. -/
lemma located_itemsFrom {instructions : List Instruction} (hc : Counts last line instructions)
    (hline : 1 ≤ line) : Located last (itemsFrom line instructions) := by
  induction instructions generalizing line with
  | nil =>
    refine ⟨fun {items} h i hi => ?_, fun h => by cases h⟩
    cases h
    cases hi
  | cons instruction rest ih =>
    cases instruction with
    | appendLiteral text =>
      obtain ⟨hlast, hrest⟩ := hc
      exact .cons ⟨hline, Nat.le_of_add_right_le hlast⟩ (ih hrest (Nat.le_add_right_of_le hline))
    | execute code =>
      obtain ⟨hfirst, hlast, hrest⟩ := hc
      refine .bind (fun f hf => ?_) fun tokens htokens => .append (fun i hi => ?_) (ih hrest hfirst)
      · exact (Token.inText_of_readWithin_error hf).upto hfirst hlast
      · obtain ⟨t, ht, rfl⟩ := List.mem_map.mp hi
        exact (inText_of_mem_tokenize htokens ht).upto hfirst hlast
    | appendEscaped code | appendRaw code =>
      obtain ⟨hfirst, hlast, hrest⟩ := hc
      refine .bind (fun f hf => ?_) fun e _ => .cons ?_ (ih hrest hfirst)
      · exact (inText_of_parseExpression_error hf).upto hfirst hlast
      · exact ⟨hfirst, Nat.le_of_add_right_le hlast⟩
    | noop => exact ih hc hline

/-- **A program that cannot be read is at fault on a line of its template.** -/
theorem upto_of_parseProgram_error {instructions : List Instruction}
    (hc : Counts last 1 instructions) (hlast : 1 ≤ last)
    (h : parseProgram instructions = .error f) : Upto last f.line := by
  have hitems := located_itemsFrom hc (Nat.le_refl 1)
  rcases except_bind_error.mp h with herror | ⟨items, hok, h⟩
  · exact hitems.fault herror
  · rcases except_bind_error.mp h with hrun | ⟨body, -, h⟩
    · have hprogram : (Reader.bounded statements).Consumes 0 :=
        .bounded fun n => statements_consumes (n + 1)
      rcases hprogram.runOn_error hrun with ⟨i, hi, hline⟩ | ⟨-, hline⟩
      · exact hline ▸ hitems.items hok i hi
      · exact hline ▸ ⟨Nat.le_refl 1, hlast⟩
    · cases h

end Stencil.Script
