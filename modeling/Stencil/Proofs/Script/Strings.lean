import Mathlib.Data.List.Basic
import Stencil.Proofs.Script.Lexing
import Stencil.Text.Quoted

/-!
Strings of the script language, and texts written as constants.

Between its quotes a string is read one character or one escape at a time. A constant uses two
escapes that the language does not have, those for the line and the paragraph separator, so it is
read back as its text only if the text holds neither.
-/

namespace Stencil.Script

open Token

/-! ### What stands between quotes -/

/-- The two kinds of quotes around a string. -/
inductive Quote where
  | single
  | double
deriving DecidableEq

namespace Quote

def char : Quote → Char
  | single => '\''
  | double => '"'

/-- How a character of a string is written between quotes of this kind. -/
def written (q : Quote) (c : Char) : List Char :=
  if c = '\\' then ['\\', '\\']
  else if c = q.char then ['\\', c]
  else if c = '\n' then ['\\', 'n']
  else [c]

end Quote

/-- What stands between two quotes, and what is read from it. -/
inductive Between (q : Quote) : List Char → List Char → Prop
  | nil : Between q [] []
  | plain {c : Char} {cs s : List Char} (hc : c ≠ q.char ∧ c ≠ '\n' ∧ c ≠ '\\')
      (h : Between q cs s) : Between q (c :: cs) (c :: s)
  | escaped {c : Char} {cs s : List Char} (h : Between q cs s) :
      Between q ('\\' :: c :: cs) (unescape c :: s)

variable {q : Quote} {line : ℕ} {c : Char} {cs s rest : List Char} {tokens : List Token}

lemma Between.append {ds t : List Char} (h : Between q cs s) (h' : Between q ds t) :
    Between q (cs ++ ds) (s ++ t) := by
  induction h with
  | nil => exact h'
  | plain hc _ ih => exact .plain hc ih
  | escaped _ ih => exact .escaped ih

lemma between_plain (h : ∀ c ∈ cs, c ≠ q.char ∧ c ≠ '\n' ∧ c ≠ '\\') : Between q cs cs := by
  induction cs with
  | nil => exact .nil
  | cons c cs ih =>
    obtain ⟨hc, hcs⟩ := List.forall_mem_cons.mp h
    exact .plain hc (ih hcs)

/-- A text that is written one character after the other is read one after the other. -/
lemma between_flatMap {f g : Char → List Char} (h : ∀ c, Between q (f c) (g c)) (cs : List Char) :
    Between q (cs.flatMap f) (cs.flatMap g) := by
  induction cs with
  | nil => exact .nil
  | cons c cs ih => exact (h c).append ih

lemma between_written (q : Quote) (c : Char) : Between q (q.written c) [c] := by
  unfold Quote.written
  split_ifs with hslash hquote hbreak
  · subst hslash
    exact .escaped .nil
  · subst hquote
    have hself : unescape q.char = q.char := by cases q <;> rfl
    have hescaped : Between q ['\\', q.char] [unescape q.char] := .escaped .nil
    rwa [hself] at hescaped
  · subst hbreak
    exact .escaped .nil
  · exact .plain ⟨hquote, hbreak, hslash⟩ .nil

/-! ### Reading a string -/

lemma string?_cons {quote : Char} (hc : c ≠ '\\') : string? quote (c :: cs) =
    if c = quote then some ([], cs)
    else if c = '\n' ∨ c = '\\' then none
    else (string? quote cs).map fun (s, rest) => (c :: s, rest) := by
  rw [string?]
  exact fun _ _ heq _ => hc heq

lemma Quote.char_ne (q : Quote) : q.char ≠ '\\' := by
  cases q <;> decide

lemma Between.string?_eq (h : Between q cs s) (rest : List Char) :
    string? q.char (cs ++ q.char :: rest) = some (s, rest) := by
  induction h with
  | nil => rw [List.nil_append, string?_cons q.char_ne, if_pos rfl]
  | plain hc _ ih =>
    obtain ⟨hquote, hbreak, hslash⟩ := hc
    rw [List.cons_append, string?_cons hslash, if_neg hquote, if_neg (by simp [hbreak, hslash]), ih]
    rfl
  | escaped _ ih =>
    rw [List.cons_append, List.cons_append, string?, ih]
    rfl

lemma Between.next_eq (h : Between q cs s) (rest : List Char) :
    next line q.char (cs ++ q.char :: rest) = .ok (.str (.ofList s), rest) := by
  have hstart : isIdentStart q.char = false := by cases q <;> decide +kernel
  have hdigit : q.char.isDigit = false ∧ (q.char == '.') = false := by cases q <;> decide
  have hquote : (q.char == '"' || q.char == '\'') = true := by cases q <;> rfl
  rw [next, if_neg (by simp [hstart]), if_neg (by simp [hdigit]), if_pos hquote, h.string?_eq rest]

lemma Lexes.string (h : Lexes line rest tokens) (hs : Between q cs s) :
    Lexes line (q.char :: (cs ++ q.char :: rest)) (⟨.str (.ofList s), line⟩ :: tokens) := by
  have hlen : rest.length ≤ (cs ++ q.char :: rest).length := by
    rw [List.length_append, List.length_cons]
    omega
  have hblank : Text.isBlank q.char = false := by cases q <;> decide
  have hslash : q.char ≠ '/' := by cases q <;> decide
  exact h.token (hs.next_eq rest) hlen hblank fun heq => (hslash heq).elim

/-! ### Constants -/

/-- What is read where a constant has a character of its text: the character itself, but for a
separator the letter and the digits of its escape. -/
def readBack (c : Char) : List Char :=
  if c = '\u2028' then "u2028".toList
  else if c = '\u2029' then "u2029".toList
  else [c]

/-- The ends of lines of all kinds. -/
def lineEnds : List Char := ['\n', '\r', '\u2028', '\u2029']

/-- The language has no escapes for code points: the backslash is dropped. -/
lemma between_codePoint {digits : List Char} (h : ∀ d ∈ digits, d.isDigit = true) :
    Between q ('\\' :: 'u' :: digits) ('u' :: digits) := by
  refine .escaped (between_plain fun d hd => ?_)
  have hdigit := h d hd
  refine ⟨?_, ?_, ?_⟩ <;> rintro rfl <;> revert hdigit
  · cases q <;> decide
  · decide
  · decide

lemma between_quotedChar (c : Char) :
    Between .single (Text.quotedChar c).toList (readBack c) := by
  unfold Text.quotedChar
  split_ifs with hslash hquote hbreak hreturn hline hparagraph
  · subst hslash
    exact .escaped .nil
  · subst hquote
    exact .escaped .nil
  · subst hbreak
    exact .escaped .nil
  · subst hreturn
    exact .escaped .nil
  · subst hline
    have hdigits : ∀ d ∈ "2028".toList, d.isDigit = true :=
      List.all_eq_true.mp (by decide)
    exact between_codePoint hdigits
  · subst hparagraph
    have hdigits : ∀ d ∈ "2029".toList, d.isDigit = true :=
      List.all_eq_true.mp (by decide)
    exact between_codePoint hdigits
  · rw [readBack, if_neg hline, if_neg hparagraph, String.toList_singleton]
    exact .plain ⟨hquote, hbreak, hslash⟩ .nil

lemma toList_quoted (s : String) : (Text.quoted s).toList =
    '\'' :: (s.toList.flatMap (fun c => (Text.quotedChar c).toList) ++ ['\'']) := by
  simp [Text.quoted, Text.escapeLiteral, List.flatMap_map]

lemma lexes_quoted (s : String) (line : ℕ) : Lexes line (Text.quoted s).toList
    [⟨.str (.ofList (s.toList.flatMap readBack)), line⟩] := by
  rw [toList_quoted]
  exact (lexes_nil line).string (q := .single) (between_flatMap between_quotedChar s.toList)

/-- A text is read back from its constant only if it holds no separator. -/
lemma flatMap_readBack_eq_iff :
    cs.flatMap readBack = cs ↔ '\u2028' ∉ cs ∧ '\u2029' ∉ cs := by
  constructor
  · intro h
    -- no separator is ever read, so a text that is read back has none
    have hnone : ∀ c, '\u2028' ∉ readBack c ∧ '\u2029' ∉ readBack c := by
      intro c
      unfold readBack
      split_ifs with hline hparagraph
      · decide
      · decide
      · simp [Ne.symm hline, Ne.symm hparagraph]
    rw [← h]
    simp [hnone]
  · rintro ⟨hline, hparagraph⟩
    have hself : ∀ c ∈ cs, readBack c = [c] := by
      intro c hc
      rw [readBack, if_neg (ne_of_mem_of_not_mem hc hline),
        if_neg (ne_of_mem_of_not_mem hc hparagraph)]
    rw [List.flatMap_congr hself, List.flatMap_singleton']

lemma quotedChar_one_line (c : Char) {d : Char} (hd : d ∈ lineEnds) :
    d ∉ (Text.quotedChar c).toList := by
  have hends : d = '\n' ∨ d = '\r' ∨ d = '\u2028' ∨ d = '\u2029' := by simpa [lineEnds] using hd
  unfold Text.quotedChar
  split_ifs with hslash hquote hbreak hreturn hline hparagraph
  case neg =>
    rw [String.toList_singleton, List.mem_singleton]
    rintro rfl
    tauto
  all_goals rcases hends with rfl | rfl | rfl | rfl <;> decide

/-- **Constants.** The constant for a text is one string, which is the text itself just when it
holds neither the line separator nor the paragraph separator. The constant stays on one line. -/
theorem tokenize_quoted (s : String) (line : ℕ) :
    tokenize (Text.quoted s) line = .ok [⟨.str (.ofList (s.toList.flatMap readBack)), line⟩] ∧
      (String.ofList (s.toList.flatMap readBack) = s ↔
        '\u2028' ∉ s.toList ∧ '\u2029' ∉ s.toList) ∧
      ∀ d ∈ lineEnds, d ∉ (Text.quoted s).toList := by
  refine ⟨(lexes_quoted s line).tokenize, ?_, fun d hd => ?_⟩
  · rw [← flatMap_readBack_eq_iff, ← String.toList_inj, String.toList_ofList]
  · rw [toList_quoted]
    have hquote : d ≠ '\'' := by
      rintro rfl
      revert hd
      decide
    simp [hquote, quotedChar_one_line _ hd]

/-- The constant for a text with a line separator is read as another text. -/
theorem tokenize_quoted_separator :
    tokenize (Text.quoted "a\u2028b") 1 = .ok [⟨.str "au2028b", 1⟩] ∧ "au2028b" ≠ "a\u2028b" := by
  decide +kernel

end Stencil.Script
