import Mathlib.Data.List.Basic
import Mathlib.Data.List.TakeDrop
import Mathlib.Data.List.TakeWhile
import Stencil.Proofs.Decimal.Whole
import Stencil.Proofs.Text.Blank

/-!
Tokens from the texts of words, marks and zeros.

A token ends where its text ends if what follows could not go on with it.
-/

namespace Stencil.Script

open Token

/-! ### One token after the other -/

/-- With any bound that is large enough the text is cut into the tokens. -/
def Lexes (line : ℕ) (cs : List Char) (tokens : List Token) : Prop :=
  ∀ n, cs.length ≤ n → readWithin n line cs = .ok tokens

variable {n line : ℕ} {c : Char} {cs rest : List Char} {k : TokenKind} {tokens : List Token}

/-- What a text starts with decides how it is read. -/
lemma readWithin_cons : readWithin (n + 1) line (c :: cs) =
    if c = '\n' then readWithin n (line + 1) cs
    else if Text.isBlank c then readWithin n line cs
    else
      match c, cs with
      | '/', '/' :: rest => readWithin n line (rest.dropWhile (· != '\n'))
      | '/', '*' :: rest =>
        match closeComment ' ' line rest with
        | .ok (rest, line) => readWithin n line rest
        | .error line => .error ⟨.unterminatedComment, line⟩
      | c, cs => do
        let (kind, rest) ← next line c cs
        return ⟨kind, line⟩ :: (← readWithin n line rest) := rfl

lemma lexes_nil (line : ℕ) : Lexes line [] [] := fun n _ => by cases n <;> rfl

/-- The bound of a text that is not empty leaves one for the text after its first character. -/
lemma lexes_cons (h : ∀ n, cs.length ≤ n → readWithin (n + 1) line (c :: cs) = .ok tokens) :
    Lexes line (c :: cs) tokens := by
  intro n hn
  rw [List.length_cons] at hn
  obtain ⟨n, rfl⟩ := Nat.exists_eq_add_one_of_ne_zero (n := n) (by omega)
  exact h n (by omega)

lemma Lexes.blank (h : Lexes line cs tokens) (hc : Text.isBlank c = true) (hbreak : c ≠ '\n') :
    Lexes line (c :: cs) tokens :=
  lexes_cons fun n hn => by rw [readWithin_cons, if_neg hbreak, if_pos hc, h n hn]

lemma Lexes.token (h : Lexes line rest tokens) (hnext : next line c cs = .ok (k, rest))
    (hlen : rest.length ≤ cs.length) (hblank : Text.isBlank c = false)
    (hcomment : c = '/' → ∀ d ∈ cs.head?, d ≠ '/' ∧ d ≠ '*') :
    Lexes line (c :: cs) (⟨k, line⟩ :: tokens) := by
  refine lexes_cons fun n hn => ?_
  have hbreak : c ≠ '\n' := by
    rintro rfl
    revert hblank
    decide
  have hrest : readWithin n line rest = .ok tokens := h n (by omega)
  rw [readWithin_cons, if_neg hbreak, if_neg (by simp [hblank])]
  split
  · exact ((hcomment rfl '/' rfl).1 rfl).elim
  · exact ((hcomment rfl '*' rfl).2 rfl).elim
  · rw [hnext]
    show (readWithin n line rest >>= fun tokens => pure (⟨k, line⟩ :: tokens)) = _
    rw [hrest]
    rfl

lemma Lexes.tokenize {code : String} (h : Lexes line code.toList tokens) :
    tokenize code line = .ok tokens := h _ (Nat.le_refl _)

/-! ### Words, marks and zeros -/

/-- The text is read as one word. -/
structure Spelled (name : List Char) : Prop where
  start : ∃ c cs, name = c :: cs ∧ isIdentStart c = true
  part : ∀ c ∈ name, isIdentPart c = true

lemma spelled_iff {name : List Char} :
    Spelled name ↔ name.head?.any isIdentStart = true ∧ name.all isIdentPart = true := by
  constructor
  · rintro ⟨⟨c, cs, rfl, hc⟩, hpart⟩
    exact ⟨hc, List.all_eq_true.mpr hpart⟩
  · rintro ⟨hstart, hpart⟩
    obtain ⟨c, hhead, hc⟩ := (Option.any_eq_true _ _).mp hstart
    obtain ⟨cs, rfl⟩ := List.head?_eq_some_iff.mp hhead
    exact ⟨⟨c, cs, rfl, hc⟩, List.all_eq_true.mp hpart⟩

instance (name : List Char) : Decidable (Spelled name) := decidable_of_iff' _ spelled_iff

lemma Spelled.underscore {name : List Char} (h : Spelled name) : Spelled ('_' :: name) := by
  have hunder : isIdentStart '_' = true ∧ isIdentPart '_' = true := by decide +kernel
  exact ⟨⟨_, _, rfl, hunder.1⟩, List.forall_mem_cons.mpr ⟨hunder.2, h.part⟩⟩

lemma next_word {name : List Char} (hname : ∀ d ∈ c :: name, isIdentPart d = true)
    (hc : isIdentStart c = true) (hrest : ∀ d ∈ rest.head?, isIdentPart d = false) :
    next line c (name ++ rest) = .ok (.ident (.ofList (c :: name)), rest) := by
  have htake : rest.takeWhile isIdentPart = [] := by
    cases rest with
    | nil => rfl
    | cons d rest => rw [List.takeWhile_cons_of_neg (by simpa using hrest d rfl)]
  have hdrop : rest.dropWhile isIdentPart = rest := by
    cases rest with
    | nil => rfl
    | cons d rest => rw [List.dropWhile_cons_of_neg (by simpa using hrest d rfl)]
  have hspan : (c :: (name ++ rest)).span isIdentPart = (c :: name, rest) := by
    rw [List.span_eq_takeWhile_dropWhile, ← List.cons_append, List.takeWhile_append_of_pos hname,
      List.dropWhile_append_of_pos hname, htake, hdrop, List.append_nil]
  rw [next, if_pos hc, hspan]

lemma Lexes.word {name : List Char} (h : Lexes line rest tokens) (hname : Spelled name)
    (hrest : ∀ d ∈ rest.head?, isIdentPart d = false) :
    Lexes line (name ++ rest) (⟨.ident (.ofList name), line⟩ :: tokens) := by
  obtain ⟨c, cs, rfl, hc⟩ := hname.start
  have hblank : Text.isBlank c = false := by
    by_contra hblank
    have hnot := isIdentPart_eq_false (by simpa using hblank)
    rw [hname.part c List.mem_cons_self] at hnot
    cases hnot
  have hslash : c ≠ '/' := by
    rintro rfl
    revert hc
    decide +kernel
  have hlen : rest.length ≤ (cs ++ rest).length := by
    rw [List.length_append]
    omega
  exact h.token (next_word hname.part hc hrest) hlen hblank fun heq => (hslash heq).elim

/-- Every mark is read if what follows makes no longer mark, no comment and no number of it. -/
lemma punct?_mark (p : Punct) (hrest : ∀ d ∈ rest.head?, d ≠ '=' ∧ d ≠ '+' ∧ d ≠ '-') :
    punct? (p.text.toList ++ rest) = some (p, rest) := by
  cases rest with
  | nil => cases p <;> rfl
  | cons d rest =>
    obtain ⟨h1, h2, h3⟩ := hrest d rfl
    cases p <;> simp [punct?, Punct.all, Punct.text, List.isPrefixOf?, Ne.symm h1, Ne.symm h2,
      Ne.symm h3]

lemma Punct.exists_text (p : Punct) : ∃ c cs, p.text.toList = c :: cs := by
  cases p <;> exact ⟨_, _, rfl⟩

/-- A mark begins with a character that begins no other token. -/
lemma mark_head {p : Punct} (h : p.text.toList = c :: cs) :
    isIdentStart c = false ∧ c.isDigit = false ∧ Text.isBlank c = false ∧ c ≠ '"' ∧ c ≠ '\'' ∧
      (c = '.' → p = .dot) ∧ (c = '/' → p = .slash) := by
  cases p <;> simp [Punct.text] at h <;> obtain ⟨rfl, -⟩ := h <;> decide +kernel

lemma next_mark {p : Punct} (h : p.text.toList = c :: cs)
    (hrest : ∀ d ∈ rest.head?, d ≠ '=' ∧ d ≠ '+' ∧ d ≠ '-')
    (hdot : p = .dot → ∀ d ∈ rest.head?, d.isDigit = false) :
    next line c (cs ++ rest) = .ok (.punct p, rest) := by
  obtain ⟨hstart, hdigit, -, hquote, hquote', hpoint, -⟩ := mark_head h
  have hnumber : (c == '.' && (cs ++ rest).head?.any Char.isDigit) = false := by
    rw [Bool.and_eq_false_imp]
    intro hc
    obtain rfl := hpoint (by simpa using hc)
    obtain ⟨-, rfl⟩ : '.' = c ∧ cs = [] := by simpa [Punct.text] using h
    rw [List.nil_append]
    cases rest with
    | nil => rfl
    | cons d rest => exact hdot rfl d rfl
  have hpunct : punct? (c :: (cs ++ rest)) = some (p, rest) := by
    have hmark := punct?_mark p hrest
    rwa [h] at hmark
  rw [next, if_neg (by simp [hstart]), if_neg (by rw [hdigit, hnumber]; decide),
    if_neg (by simp [hquote, hquote']), hpunct]

/-- What may follow the text of a mark. -/
structure Punct.Ends (p : Punct) (rest : List Char) : Prop where
  mark : ∀ d ∈ rest.head?, d ≠ '=' ∧ d ≠ '+' ∧ d ≠ '-'
  digit : p = .dot → ∀ d ∈ rest.head?, d.isDigit = false
  comment : p = .slash → ∀ d ∈ rest.head?, d ≠ '/' ∧ d ≠ '*'

lemma Lexes.mark {p : Punct} (h : Lexes line rest tokens) (hp : p.Ends rest) :
    Lexes line (p.text.toList ++ rest) (⟨.punct p, line⟩ :: tokens) := by
  obtain ⟨c, cs, hcs⟩ := p.exists_text
  obtain ⟨-, -, hblank, -, -, -, hslash⟩ := mark_head hcs
  have hlen : rest.length ≤ (cs ++ rest).length := by
    rw [List.length_append]
    omega
  rw [hcs]
  refine h.token (next_mark hcs hp.mark hp.digit) hlen hblank fun hc => ?_
  obtain rfl := hslash hc
  obtain ⟨-, rfl⟩ : '/' = c ∧ cs = [] := by simpa [Punct.text] using hcs
  exact hp.comment rfl

lemma next_zero (hrest : ∀ d ∈ rest.head?, d.isAlphanum = false ∧ d ≠ '.') :
    next line '0' rest = .ok (.number (Decimal.ofInt 0), rest) := by
  have hstart : isIdentStart '0' = false := by decide +kernel
  have hvalue : Decimal.readFloat? ['0'] = some (Decimal.ofInt 0) := by decide +kernel
  have hspan : spanNumber ' ' ('0' :: rest) = (['0'], rest) := by
    cases rest with
    | nil => rfl
    | cons d rest =>
      obtain ⟨hd, hpoint⟩ := hrest d rfl
      simp [spanNumber, hd, hpoint]
  have hdigit : '0'.isDigit = true := rfl
  rw [next, if_neg (by simp [hstart]), if_pos (by rw [hdigit]; rfl), hspan]
  dsimp only
  rw [hvalue]

lemma Lexes.zero (h : Lexes line rest tokens)
    (hrest : ∀ d ∈ rest.head?, d.isAlphanum = false ∧ d ≠ '.') :
    Lexes line ('0' :: rest) (⟨.number (Decimal.ofInt 0), line⟩ :: tokens) :=
  h.token (next_zero hrest) (Nat.le_refl _) (by decide) fun hc => by cases hc

/-! ### Pieces of code -/

/-- A piece of code on one line. -/
inductive Piece where
  | word (name : List Char)
  | mark (p : Punct)
  | zero
  | gap

namespace Piece

def text : Piece → List Char
  | .word name => name
  | .mark p => p.text.toList
  | .zero => ['0']
  | .gap => [' ']

def kind? : Piece → Option TokenKind
  | .word name => some (.ident (.ofList name))
  | .mark p => some (.punct p)
  | .zero => some (.number (Decimal.ofInt 0))
  | .gap => none

/-- Whether a piece that is followed by another one ends there. Words and zeros need a mark or a
gap after them, and a mark must not grow. -/
def apart : Piece → Piece → Bool
  | .gap, _ | _, .gap => true
  | .word _, .mark _ => true
  | .word _, _ => false
  | .zero, .mark q => q != .dot
  | .zero, _ => false
  | .mark _, .word _ => true
  | .mark p, .zero => p != .dot
  | .mark p, .mark q => p != .slash && q.text.toList.head?.all fun c => !(['=', '+', '-'].contains c)

/-- Every piece ends where the next one begins. -/
def spaced : List Piece → Bool
  | [] | [_] => true
  | p :: q :: ps => p.apart q && spaced (q :: ps)

/-- The code that the pieces make up. -/
def code (ps : List Piece) : List Char := ps.flatMap text

/-- What a piece can begin with. -/
def Starts (c : Char) : Piece → Prop
  | .word _ => isIdentStart c = true
  | .mark p => ∃ cs, p.text.toList = c :: cs
  | .zero => c = '0'
  | .gap => c = ' '

end Piece

open Piece

lemma isDigit_eq_false (h : isIdentStart c = true) : c.isDigit = false := by
  by_contra hdigit
  rw [Bool.not_eq_false, Char.isDigit, Bool.and_eq_true, decide_eq_true_eq, decide_eq_true_eq]
    at hdigit
  have hdigits : ∀ n ∈ List.range' 48 10, isIdentStart (Char.ofNat n) = false := by decide +kernel
  have hlow : 48 ≤ c.toNat := hdigit.1
  have hhigh : c.toNat ≤ 57 := hdigit.2
  have hc := hdigits c.toNat (by rw [List.mem_range'_1]; omega)
  rw [Char.ofNat_toNat, h] at hc
  cases hc

variable {q : Piece} {ps : List Piece}

lemma starts_after_word {name : List Char} (h : q.Starts c) (ha : (word name).apart q = true) :
    isIdentPart c = false := by
  cases q with
  | word | zero => cases ha
  | mark p =>
    obtain ⟨cs, hcs⟩ := h
    cases p <;> simp [Punct.text] at hcs <;> obtain ⟨rfl, -⟩ := hcs <;> decide +kernel
  | gap =>
    obtain rfl : c = ' ' := h
    decide +kernel

lemma starts_after_zero (h : q.Starts c) (ha : zero.apart q = true) :
    c.isAlphanum = false ∧ c ≠ '.' := by
  cases q with
  | word | zero => cases ha
  | mark p =>
    obtain ⟨cs, hcs⟩ := h
    cases p <;> simp [Punct.text] at hcs <;> obtain ⟨rfl, -⟩ := hcs <;> revert ha <;> decide
  | gap =>
    obtain rfl : c = ' ' := h
    decide

lemma starts_after_mark {p : Punct} (h : q.Starts c) (ha : (mark p).apart q = true) :
    (c ≠ '=' ∧ c ≠ '+' ∧ c ≠ '-') ∧ (p = .dot → c.isDigit = false) ∧
      (p = .slash → c ≠ '/' ∧ c ≠ '*') := by
  cases q with
  | word name =>
    have hc : isIdentStart c = true := h
    have hother : ∀ d ∈ ['=', '+', '-', '/', '*'], c ≠ d := by
      rintro d hd rfl
      simp only [List.mem_cons, List.not_mem_nil, or_false] at hd
      rcases hd with rfl | rfl | rfl | rfl | rfl <;> revert hc <;> decide +kernel
    have hdigit : c.isDigit = false := isDigit_eq_false hc
    simp only [List.mem_cons, List.not_mem_nil, or_false, forall_eq_or_imp, forall_eq] at hother
    tauto
  | mark r =>
    obtain ⟨cs, hcs⟩ := h
    simp only [apart, hcs, Bool.and_eq_true, bne_iff_ne] at ha
    obtain ⟨hp, hc⟩ := ha
    refine ⟨by simpa [not_or] using hc, ?_, fun heq => (hp heq).elim⟩
    rintro rfl
    exact (mark_head hcs).2.1
  | zero =>
    obtain rfl : c = '0' := h
    have hp : p ≠ .dot := by simpa [apart] using ha
    exact ⟨by decide, fun heq => (hp heq).elim, fun _ => by decide⟩
  | gap =>
    obtain rfl : c = ' ' := h
    exact ⟨by decide, fun _ => by decide, fun _ => by decide⟩

/-- What comes after the pieces begins as a piece can that is apart from the last of them. -/
def EndsBefore (ps : List Piece) (rest : List Char) : Prop :=
  ∀ p ∈ ps.getLast?, ∀ c ∈ rest.head?, ∃ q : Piece, q.Starts c ∧ p.apart q = true

lemma endsBefore_mark {p : Punct} (h : ∀ q ∈ ps.getLast?, q.apart (.mark p) = true) :
    EndsBefore ps (p.text.toList ++ rest) := by
  intro q hq c hc
  obtain ⟨d, cs, hcs⟩ := p.exists_text
  obtain rfl : d = c := by simpa [hcs] using hc
  exact ⟨.mark p, ⟨cs, hcs⟩, h q hq⟩

/-- The text after a piece begins as a piece can that is apart from it. -/
lemma head?_code {p : Piece} (hwords : ∀ name, .word name ∈ ps → Spelled name)
    (hspaced : spaced (p :: ps) = true) (hends : EndsBefore (p :: ps) rest)
    (hc : c ∈ (code ps ++ rest).head?) : ∃ q : Piece, q.Starts c ∧ p.apart q = true := by
  cases ps with
  | nil => exact hends p rfl c hc
  | cons q ps =>
    rw [spaced, Bool.and_eq_true] at hspaced
    refine ⟨q, ?_, hspaced.1⟩
    rw [code, List.flatMap_cons, List.append_assoc] at hc
    cases q with
    | word name =>
      obtain ⟨d, cs, rfl, hd⟩ := (hwords name List.mem_cons_self).start
      obtain rfl : d = c := by simpa [text] using hc
      exact hd
    | mark p =>
      obtain ⟨d, cs, hcs⟩ := p.exists_text
      obtain rfl : d = c := by simpa [text, hcs] using hc
      exact ⟨cs, hcs⟩
    | zero =>
      obtain rfl : '0' = c := by simpa [text] using hc
      rfl
    | gap =>
      obtain rfl : ' ' = c := by simpa [text] using hc
      rfl

lemma spaced_of_cons {p : Piece} (h : spaced (p :: ps) = true) : spaced ps = true := by
  cases ps with
  | nil => rfl
  | cons q ps =>
    rw [spaced, Bool.and_eq_true] at h
    exact h.2

lemma endsBefore_of_cons {p : Piece} (h : EndsBefore (p :: ps) rest) : EndsBefore ps rest := by
  cases ps with
  | nil => exact fun _ hp => by cases hp
  | cons q ps => exact fun r hr => h r (by rwa [List.getLast?_cons_cons])

/-- **Code is read as the pieces that it is made of**, and what comes after it as before. -/
theorem Lexes.code (h : Lexes line rest tokens) (hwords : ∀ name, .word name ∈ ps → Spelled name)
    (hspaced : spaced ps = true) (hends : EndsBefore ps rest) :
    Lexes line (Piece.code ps ++ rest) ((ps.filterMap kind?).map (⟨·, line⟩) ++ tokens) := by
  induction ps with
  | nil => exact h
  | cons p ps ih =>
    have hwords' : ∀ name, .word name ∈ ps → Spelled name := fun name h =>
      hwords name (List.mem_cons_of_mem _ h)
    have hread := ih hwords' (spaced_of_cons hspaced) (endsBefore_of_cons hends)
    have hnext : ∀ d ∈ (Piece.code ps ++ rest).head?, ∃ q : Piece, q.Starts d ∧ p.apart q = true :=
      fun d hd => head?_code hwords' hspaced hends hd
    have hcode : Piece.code (p :: ps) ++ rest = p.text ++ (Piece.code ps ++ rest) := by
      rw [Piece.code, List.flatMap_cons, List.append_assoc]
      rfl
    rw [hcode]
    cases p with
    | gap => exact hread.blank (by decide) (by decide)
    | zero =>
      refine hread.zero fun d hd => ?_
      obtain ⟨q, hstarts, hapart⟩ := hnext d hd
      exact starts_after_zero hstarts hapart
    | word name =>
      refine hread.word (hwords name List.mem_cons_self) fun d hd => ?_
      obtain ⟨q, hstarts, hapart⟩ := hnext d hd
      exact starts_after_word hstarts hapart
    | mark p =>
      have hmark : ∀ d ∈ (Piece.code ps ++ rest).head?, (d ≠ '=' ∧ d ≠ '+' ∧ d ≠ '-') ∧
          (p = .dot → d.isDigit = false) ∧ (p = .slash → d ≠ '/' ∧ d ≠ '*') := fun d hd => by
        obtain ⟨q, hstarts, hapart⟩ := hnext d hd
        exact starts_after_mark hstarts hapart
      exact hread.mark ⟨fun d hd => (hmark d hd).1, fun hp d hd => (hmark d hd).2.1 hp,
        fun hp d hd => (hmark d hd).2.2 hp⟩

/-- A parenthesis is read whatever comes after it. -/
lemma Lexes.paren {p : Punct} (h : Lexes line rest tokens) (hp : p = .openParen ∨ p = .closeParen) :
    Lexes line (p.text.toList ++ rest) (⟨.punct p, line⟩ :: tokens) := by
  have hnext (c : Char) (hstart : isIdentStart c = false) (hdigit : c.isDigit = false)
      (hother : c ≠ '.' ∧ c ≠ '"' ∧ c ≠ '\'') (hpunct : punct? (c :: rest) = some (p, rest)) :
      next line c rest = .ok (.punct p, rest) := by
    rw [next, if_neg (by simp [hstart]), if_neg (by simp [hdigit, hother]),
      if_neg (by simp [hother]), hpunct]
  rcases hp with rfl | rfl
  · exact h.token (hnext '(' (by decide +kernel) rfl (by decide) rfl) (Nat.le_refl _) (by decide)
      nofun
  · exact h.token (hnext ')' (by decide +kernel) rfl (by decide) rfl) (Nat.le_refl _) (by decide)
      nofun

end Stencil.Script
