import Mathlib.Data.List.Infix
import Stencil.Proofs.Script.Strings

/-!
Tokens that are written out with blanks and comments between them.

Words, strings and marks are read back whatever separates them, as long as every separator begins
with a blank: no mark then grows into a longer one or into a comment, and no word into a longer
word.
-/

namespace Stencil.Script

open Token

variable {line : ℕ} {c : Char} {cs rest body : List Char} {tokens : List Token}

/-! ### Separators -/

/-- A blank or a comment. -/
inductive Filler where
  | blank (c : Char) (hblank : Text.isBlank c = true)
  /-- A comment that ends at the first end mark in it. -/
  | block (body : List Char) (hbody : ¬ ['*', '/'] <:+: body)
  /-- A comment that ends with its line. -/
  | remark (body : List Char) (hbody : '\n' ∉ body)

def Filler.text : Filler → List Char
  | .blank c _ => [c]
  | .block body _ => '/' :: '*' :: (body ++ ['*', '/'])
  | .remark body _ => '/' :: '/' :: (body ++ ['\n'])

/-- What stands between tokens: a blank, and then blanks and comments. -/
structure Separator where
  first : Char
  blank : Text.isBlank first = true
  others : List Filler

def Separator.text (s : Separator) : List Char := s.first :: s.others.flatMap Filler.text

lemma Lexes.lineBreak (h : Lexes (line + 1) cs tokens) : Lexes line ('\n' :: cs) tokens :=
  lexes_cons fun n hn => by rw [readWithin_cons, if_pos rfl, h n hn]

lemma Lexes.anyBlank (h : Lexes (line + Text.breaks [c]) cs tokens) (hc : Text.isBlank c = true) :
    Lexes line (c :: cs) tokens := by
  by_cases hbreak : c = '\n'
  · subst hbreak
    exact h.lineBreak
  · have hnone : Text.breaks [c] = 0 := by simp [Text.breaks, hbreak]
    rw [hnone] at h
    exact h.blank hc hbreak

/-- The comment is skipped and its line break is not. -/
lemma Lexes.remark (h : Lexes line ('\n' :: cs) tokens) (hbody : '\n' ∉ body) :
    Lexes line ('/' :: '/' :: (body ++ '\n' :: cs)) tokens := by
  refine lexes_cons fun n hn => ?_
  simp only [List.length_cons, List.length_append] at hn
  have hdrop : (body ++ '\n' :: cs).dropWhile (· != '\n') = '\n' :: cs := by
    rw [List.dropWhile_append_of_pos fun c hc => by simpa using ne_of_mem_of_not_mem hc hbody]
    rfl
  rw [readWithin_cons, if_neg (by decide), if_neg (by decide)]
  simp only [hdrop]
  exact h n (by rw [List.length_cons]; omega)

/-- A comment is left at the end mark behind its body unless there is one before that. An earlier
one may also begin with the character before the body. -/
lemma closeComment_body {prev : Char} (hbody : ¬ ['*', '/'] <:+: prev :: body) :
    closeComment prev line (body ++ '*' :: '/' :: cs) = .ok (cs, line + Text.breaks body) := by
  induction body generalizing prev line with
  | nil => simp [closeComment]
  | cons c body ih =>
    have hnext : ¬ ['*', '/'] <:+: c :: body := fun hearly =>
      hbody (hearly.trans (List.suffix_cons _ _).isInfix)
    have hopen : ¬ (prev = '*' ∧ c = '/') := by
      rintro ⟨rfl, rfl⟩
      exact hbody ⟨[], body, rfl⟩
    rw [List.cons_append, closeComment, if_neg hopen, ih hnext]
    by_cases hbreak : c = '\n'
    · simp [hbreak, Text.breaks]
      omega
    · simp [hbreak, Text.breaks]

lemma Lexes.block (h : Lexes (line + Text.breaks body) cs tokens)
    (hbody : ¬ ['*', '/'] <:+: body) :
    Lexes line ('/' :: '*' :: (body ++ '*' :: '/' :: cs)) tokens := by
  refine lexes_cons fun n hn => ?_
  simp only [List.length_cons, List.length_append] at hn
  have hclose : closeComment ' ' line (body ++ '*' :: '/' :: cs) =
      .ok (cs, line + Text.breaks body) := by
    refine closeComment_body fun hearly => ?_
    rcases List.infix_cons_iff.mp hearly with hstart | hearly
    · simp at hstart
    · exact hbody hearly
  rw [readWithin_cons, if_neg (by decide), if_neg (by decide)]
  simp only [hclose]
  exact h n (by omega)

lemma Lexes.filler (f : Filler) (h : Lexes (line + Text.breaks f.text) rest tokens) :
    Lexes line (f.text ++ rest) tokens := by
  cases f with
  | blank c hblank => exact h.anyBlank hblank
  | block body hbody =>
    have hbreaks : Text.breaks (Filler.block body hbody).text = Text.breaks body := by
      simp [Filler.text, Text.breaks]
    rw [hbreaks] at h
    simpa [Filler.text] using h.block hbody
  | remark body hbody =>
    have hbreaks : Text.breaks (Filler.remark body hbody).text = 1 := by
      simp [Filler.text, Text.breaks, List.count_eq_zero_of_not_mem hbody]
    rw [hbreaks] at h
    simpa [Filler.text] using h.lineBreak.remark hbody

lemma Lexes.fillers (fs : List Filler)
    (h : Lexes (line + Text.breaks (fs.flatMap Filler.text)) rest tokens) :
    Lexes line (fs.flatMap Filler.text ++ rest) tokens := by
  induction fs generalizing line with
  | nil => exact h
  | cons f fs ih =>
    rw [List.flatMap_cons, List.append_assoc]
    rw [List.flatMap_cons, Text.breaks_append, ← Nat.add_assoc] at h
    exact (ih h).filler f

lemma Lexes.separator (s : Separator) (h : Lexes (line + Text.breaks s.text) rest tokens) :
    Lexes line (s.text ++ rest) tokens :=
  h.fillers (.blank s.first s.blank :: s.others)

/-! ### Tokens -/

/-- A token that is not a number, as it is written. -/
inductive Lexeme where
  | word (start : Char) (part : List Char) (hstart : isIdentStart start = true)
      (hpart : ∀ c ∈ part, isIdentPart c = true)
  | string (q : Quote) (s : String)
  | mark (p : Punct)

namespace Lexeme

def kind : Lexeme → TokenKind
  | .word start part _ _ => .ident (.ofList (start :: part))
  | .string _ s => .str s
  | .mark p => .punct p

def text : Lexeme → List Char
  | .word start part _ _ => start :: part
  | .string q s => q.char :: (s.toList.flatMap q.written ++ [q.char])
  | .mark p => p.text.toList

end Lexeme

lemma isIdentPart_of_start (h : isIdentStart c = true) : isIdentPart c = true := by
  simp only [isIdentStart, isIdentPart, Text.isLetterOrNumber, Bool.or_eq_true] at h ⊢
  tauto

lemma Lexes.lexeme (x : Lexeme) (h : Lexes line rest tokens)
    (hrest : ∀ d ∈ rest.head?, Text.isBlank d = true) :
    Lexes line (x.text ++ rest) (⟨x.kind, line⟩ :: tokens) := by
  cases x with
  | word start part hstart hpart =>
    have hname : Spelled (start :: part) :=
      ⟨⟨start, part, rfl, hstart⟩, List.forall_mem_cons.mpr ⟨isIdentPart_of_start hstart, hpart⟩⟩
    exact h.word hname fun d hd => isIdentPart_eq_false (hrest d hd)
  | string q s =>
    have hs : Between q (s.toList.flatMap q.written) (s.toList.flatMap fun c => [c]) :=
      between_flatMap (between_written q) s.toList
    rw [List.flatMap_singleton'] at hs
    simpa [Lexeme.text, Lexeme.kind] using h.string hs
  | mark p =>
    have hother : ∀ e ∈ ['=', '+', '-', '/', '*'], ∀ d ∈ rest.head?, d ≠ e := by
      rintro e he d hd rfl
      have hmarks : ∀ e ∈ ['=', '+', '-', '/', '*'], (!Text.isBlank e) = true :=
        List.all_eq_true.mp (by decide)
      have hblank := hmarks d he
      rw [hrest d hd] at hblank
      cases hblank
    have hdigit : ∀ d ∈ rest.head?, d.isDigit = false := fun d hd =>
      Text.eq_false_of_isBlank (by decide) (hrest d hd)
    exact h.mark
      { mark := fun d hd => ⟨hother '=' (by decide) d hd, hother '+' (by decide) d hd,
          hother '-' (by decide) d hd⟩
        digit := fun _ => hdigit
        comment := fun _ d hd => ⟨hother '/' (by decide) d hd, hother '*' (by decide) d hd⟩ }

/-! ### Code -/

/-- Tokens one after the other, with a separator before the first and one after each. -/
def layout (before : Separator) : List (Lexeme × Separator) → List Char
  | [] => before.text
  | (x, after) :: xs => before.text ++ (x.text ++ layout after xs)

variable {before : Separator} {xs : List (Lexeme × Separator)}

lemma head?_layout : ∀ d ∈ (layout before xs).head?, Text.isBlank d = true := by
  intro d hd
  have hfirst : (layout before xs).head? = some before.first := by
    cases xs with
    | nil => rfl
    | cons => rfl
  rw [hfirst, Option.mem_some_iff] at hd
  exact hd ▸ before.blank

lemma lexes_layout (before : Separator) (xs : List (Lexeme × Separator)) (line : ℕ) :
    ∃ tokens, Lexes line (layout before xs) tokens ∧
      tokens.map Token.kind = xs.map fun x => x.1.kind := by
  induction xs generalizing before line with
  | nil =>
    have hend : Lexes line (before.text ++ []) [] := (lexes_nil _).separator before
    exact ⟨[], by simpa [layout] using hend, rfl⟩
  | cons x xs ih =>
    obtain ⟨x, after⟩ := x
    obtain ⟨tokens, htokens, hkinds⟩ := ih after (line + Text.breaks before.text)
    have hread := (htokens.lexeme x head?_layout).separator before
    exact ⟨_, hread, by rw [List.map_cons, List.map_cons, hkinds]⟩

/-- **Tokens are read back from their layout.** Words, strings between quotes of either kind and
marks, with any separators between and around them, are read as these tokens in their order. -/
theorem tokenize_layout (before : Separator) (xs : List (Lexeme × Separator)) (line : ℕ) :
    ∃ tokens, tokenize (.ofList (layout before xs)) line = .ok tokens ∧
      tokens.map Token.kind = xs.map fun x => x.1.kind := by
  obtain ⟨tokens, hread, hkinds⟩ := lexes_layout before xs line
  rw [← String.toList_ofList (l := layout before xs)] at hread
  exact ⟨tokens, hread.tokenize, hkinds⟩

end Stencil.Script
