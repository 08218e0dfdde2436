import Stencil.Proofs.Outcome
import Stencil.Proofs.Script.Layout
import Stencil.Proofs.Tag.Decomposition

/-!
The lines of tokens.

Code is its tokens as they are written, with blanks and comments before each of them. The line of a
token counts all line breaks that stand before the tokens up to it, and none of those inside of
tokens. Only a string can have one inside, and only behind a backslash. So the line of a token is
that of its first character unless a string before it goes on on another line.
-/

namespace Stencil.Script

open Token

variable {n line stop : ℕ} {prev c : Char} {cs rest : List Char} {k : TokenKind}
  {tokens : List Token}

/-! ### How tokens are written -/

/-- The text of a token of a kind. -/
inductive Token.Written : List Char → TokenKind → Prop
  | word {name : List Char} : Spelled name → Written name (.ident (.ofList name))
  | number {digits : List Char} {f : Float} : '\n' ∉ digits →
      Decimal.readFloat? digits = some f → Written digits (.number f)
  | string {q : Quote} {body s : List Char} : Between q body s →
      Written (q.char :: (body ++ [q.char])) (.str (.ofList s))
  | mark (p : Punct) : Written p.text.toList (.punct p)

/-- A line break inside of a string stands behind a backslash. -/
lemma Between.break_escaped {q : Quote} {s : List Char} (h : Between q cs s)
    (hbreak : '\n' ∈ cs) : ['\\', '\n'] <:+: cs := by
  induction h with
  | nil => cases hbreak
  | plain hc _ ih =>
    rcases List.mem_cons.mp hbreak with rfl | hbreak
    · exact absurd rfl hc.2.1
    · exact List.infix_cons (ih hbreak)
  | @escaped c cs s _ ih =>
    rcases List.mem_cons.mp hbreak with heq | hbreak
    · cases heq
    · rcases List.mem_cons.mp hbreak with rfl | hbreak
      · exact ⟨[], cs, rfl⟩
      · exact List.infix_cons (List.infix_cons (ih hbreak))

namespace Token.Written

lemma ne_nil (h : Written cs k) : cs ≠ [] := by
  cases h with
  | word h =>
    obtain ⟨c, cs, rfl, -⟩ := h.start
    exact List.cons_ne_nil c cs
  | number _ hread =>
    rintro rfl
    cases hread
  | string _ => exact List.cons_ne_nil _ _
  | mark p =>
    obtain ⟨c, cs, hcs⟩ := p.exists_text
    rw [hcs]
    exact List.cons_ne_nil c cs

/-- A token with a line break inside is a string that goes on behind a backslash. -/
lemma break_iff (h : Written cs k) :
    '\n' ∈ cs ↔ (∃ s, k = .str s) ∧ ['\\', '\n'] <:+: cs := by
  constructor
  · intro hbreak
    cases h with
    | word h =>
      have hpart : isIdentPart '\n' = false := by decide +kernel
      rw [h.part _ hbreak] at hpart
      cases hpart
    | number hnone _ => exact absurd hbreak hnone
    | @string q body s h =>
      have hquote : '\n' ≠ q.char := by cases q <;> decide
      have hbody : '\n' ∈ body := by simpa [hquote] using hbreak
      have hinfix : body <:+: q.char :: (body ++ [q.char]) := ⟨[q.char], [q.char], by simp⟩
      exact ⟨⟨_, rfl⟩, (h.break_escaped hbody).trans hinfix⟩
    | mark p =>
      have hnone : '\n' ∉ p.text.toList := by cases p <;> decide
      exact absurd hbreak hnone
  · rintro ⟨-, hescaped⟩
    exact hescaped.subset (by simp)

end Token.Written

/-! ### What is read of a text -/

lemma spanNumber_eq (prev : Char) (cs : List Char) :
    cs = (spanNumber prev cs).1 ++ (spanNumber prev cs).2 ∧ '\n' ∉ (spanNumber prev cs).1 := by
  induction cs generalizing prev with
  | nil => exact ⟨rfl, by simp [spanNumber]⟩
  | cons c cs ih =>
    obtain ⟨hsplit, hnone⟩ := ih c
    simp only [spanNumber]
    split_ifs with hc
    · have hbreak : c ≠ '\n' := by
        rintro rfl
        have hletter : '\n'.isAlphanum = false := rfl
        simp [hletter] at hc
      exact ⟨congrArg (c :: ·) hsplit, by simp [hbreak.symm, hnone]⟩
    · exact ⟨rfl, by simp⟩

lemma between_of_string? {q : Quote} {s : List Char} (h : string? q.char cs = some (s, rest)) :
    ∃ body, cs = body ++ q.char :: rest ∧ Between q body s := by
  induction cs using string?.induct q.char generalizing s with
  | case1 => cases h
  | case2 c cs ih =>
    rw [string?, Option.map_eq_some_iff] at h
    obtain ⟨⟨s, rest⟩, hs, heq⟩ := h
    cases heq
    obtain ⟨body, rfl, hbody⟩ := ih hs
    exact ⟨'\\' :: c :: body, rfl, .escaped hbody⟩
  | case3 cs _ =>
    rw [string?_cons q.char_ne, if_pos rfl] at h
    cases h
    exact ⟨[], rfl, .nil⟩
  | case4 c cs hother hquote hstop =>
    rw [string?, if_neg hquote, if_pos hstop] at h
    · cases h
    · exact hother
  | case5 c cs hother hquote hstop ih =>
    rw [string?, if_neg hquote, if_neg hstop, Option.map_eq_some_iff] at h
    · obtain ⟨⟨s, rest⟩, hs, heq⟩ := h
      cases heq
      obtain ⟨body, rfl, hbody⟩ := ih hs
      obtain ⟨hbreak, hslash⟩ := not_or.mp hstop
      exact ⟨c :: body, rfl, .plain ⟨hquote, hbreak, hslash⟩ hbody⟩
    · exact hother

lemma punct?_eq {p : Punct} (h : punct? cs = some (p, rest)) : cs = p.text.toList ++ rest := by
  obtain ⟨q, -, hq⟩ := List.exists_of_findSome?_eq_some h
  obtain ⟨after, hafter, heq⟩ := Option.map_eq_some_iff.mp hq
  cases heq
  exact Tag.isPrefixOf?_eq_some.mp hafter

/-- What is read as a token is the text of this token. -/
lemma written_of_next (h : next line c cs = .ok (k, rest)) :
    ∃ text, Written text k ∧ c :: cs = text ++ rest := by
  unfold next at h
  split_ifs at h with hstart hnumber hquote
  · have hspan := List.span_eq_takeWhile_dropWhile (p := isIdentPart) (l := c :: cs)
    rw [hspan] at h
    cases h
    refine ⟨_, .word ⟨⟨c, cs.takeWhile isIdentPart, ?_, hstart⟩, fun d hd => ?_⟩,
      (List.takeWhile_append_dropWhile).symm⟩
    · rw [List.takeWhile_cons_of_pos (isIdentPart_of_start hstart)]
    · exact List.mem_takeWhile_imp hd
  · obtain ⟨hsplit, hnone⟩ := spanNumber_eq ' ' (c :: cs)
    rcases hread : Decimal.readFloat? (spanNumber ' ' (c :: cs)).1 with _ | f
    · simp [hread] at h
    · simp only [hread] at h
      cases h
      exact ⟨_, .number hnone hread, hsplit⟩
  · obtain ⟨q, rfl⟩ : ∃ q : Quote, c = q.char := by
      rw [Bool.or_eq_true, beq_iff_eq, beq_iff_eq] at hquote
      rcases hquote with rfl | rfl
      · exact ⟨.double, rfl⟩
      · exact ⟨.single, rfl⟩
    rcases hs : string? q.char cs with _ | ⟨s, after⟩
    · simp [hs] at h
    · simp only [hs] at h
      cases h
      obtain ⟨body, rfl, hbody⟩ := between_of_string? hs
      exact ⟨_, .string hbody, by simp⟩
  · rcases hp : punct? (c :: cs) with _ | ⟨p, after⟩
    · simp [hp] at h
    · simp only [hp] at h
      cases h
      exact ⟨_, .mark p, punct?_eq hp⟩

/-- A comment that ends with its line, or with the text. -/
lemma remark_split (cs : List Char) : ∃ body, '\n' ∉ body ∧
    (cs = body ∧ cs.dropWhile (· != '\n') = [] ∨
      ∃ more, cs = body ++ '\n' :: more ∧ cs.dropWhile (· != '\n') = '\n' :: more) := by
  induction cs with
  | nil => exact ⟨[], by simp, .inl ⟨rfl, rfl⟩⟩
  | cons c cs ih =>
    by_cases hc : c = '\n'
    · subst hc
      exact ⟨[], by simp, .inr ⟨cs, rfl, rfl⟩⟩
    · obtain ⟨body, hbody, hcases⟩ := ih
      rw [List.dropWhile_cons_of_pos (by simpa using hc)]
      refine ⟨c :: body, by simp [Ne.symm hc, hbody], ?_⟩
      rcases hcases with ⟨rfl, hdrop⟩ | ⟨more, rfl, hdrop⟩
      · exact .inl ⟨rfl, hdrop⟩
      · exact .inr ⟨more, rfl, hdrop⟩

lemma closeComment_cons : closeComment prev line (c :: cs) =
    if prev = '*' ∧ c = '/' then .ok (cs, line + Text.breaks [c])
    else closeComment c (line + Text.breaks [c]) cs := by
  have hline : (if c = '\n' then line + 1 else line) = line + Text.breaks [c] := by
    by_cases hbreak : c = '\n' <;> simp [hbreak, Text.breaks]
  rw [closeComment, hline]

/-- A comment that is left ends at the first end mark in it. -/
lemma closeComment_eq (h : closeComment prev line cs = .ok (rest, stop)) :
    ∃ mid, cs = mid ++ '/' :: rest ∧ (prev :: mid).getLast? = some '*' ∧
      ¬ ['*', '/'] <:+: prev :: mid ∧ stop = line + Text.breaks mid := by
  induction cs generalizing prev line with
  | nil => cases h
  | cons c cs ih =>
    rw [closeComment_cons] at h
    split_ifs at h with hclose
    · obtain ⟨rfl, rfl⟩ := hclose
      cases h
      exact ⟨[], rfl, rfl, by decide, rfl⟩
    · obtain ⟨mid, rfl, hlast, hnone, rfl⟩ := ih h
      refine ⟨c :: mid, rfl, by rwa [List.getLast?_cons_cons], fun hearly => ?_, ?_⟩
      · rcases List.infix_cons_iff.mp hearly with hfirst | hearly
        · obtain ⟨hprev, hsecond⟩ := List.cons_prefix_cons.mp hfirst
          exact hclose ⟨hprev.symm, (List.cons_prefix_cons.mp hsecond).1.symm⟩
        · exact hnone hearly
      · rw [Nat.add_assoc, ← Text.breaks_append, List.singleton_append]

/-- A block comment up to its end. -/
lemma block_of_closeComment (h : closeComment ' ' line cs = .ok (rest, stop)) :
    ∃ body, ¬ ['*', '/'] <:+: body ∧ cs = body ++ '*' :: '/' :: rest ∧
      stop = line + Text.breaks body := by
  obtain ⟨mid, rfl, hlast, hnone, rfl⟩ := closeComment_eq h
  rcases List.eq_nil_or_concat' mid with rfl | ⟨body, d, rfl⟩
  · cases hlast
  · rw [← List.cons_append, List.getLast?_concat] at hlast
    obtain rfl := Option.some.inj hlast
    refine ⟨body, fun hearly => hnone ?_, by simp, by simp [Text.breaks]⟩
    exact hearly.trans ⟨[' '], ['*'], by simp⟩

/-! ### Tokens in their places -/

/-- A token in its text: what stands before it, and how it is written. -/
structure PlacedToken where
  gap : List Filler
  text : List Char
  kind : TokenKind
  written : Token.Written text kind

namespace PlacedToken

/-- The blanks and comments before the token. -/
def space (p : PlacedToken) : List Char := p.gap.flatMap Filler.text

def source (p : PlacedToken) : List Char := p.space ++ p.text

/-- The same token, with one more blank or comment in front. -/
def behind (f : Filler) (p : PlacedToken) : PlacedToken := { p with gap := f :: p.gap }

lemma space_behind (f : Filler) (p : PlacedToken) : (p.behind f).space = f.text ++ p.space :=
  List.flatMap_cons

lemma source_behind (f : Filler) (p : PlacedToken) : (p.behind f).source = f.text ++ p.source := by
  rw [source, space_behind, List.append_assoc]
  rfl

/-- The token is a string that goes on on another line, behind a backslash. -/
def Continued (p : PlacedToken) : Prop := (∃ s, p.kind = .str s) ∧ ['\\', '\n'] <:+: p.text

end PlacedToken

/-- What may come after the last token: blanks and comments, and a comment that the end of the text
ends. -/
inductive Closing : List Char → Prop
  | gap (fs : List Filler) : Closing (fs.flatMap Filler.text)
  | remark (fs : List Filler) {body : List Char} : '\n' ∉ body →
      Closing (fs.flatMap Filler.text ++ '/' :: '/' :: body)

/-- A text as its tokens in their places. -/
structure Placement (cs : List Char) where
  tokens : List PlacedToken
  last : List Char
  closing : Closing last
  assembled : cs = tokens.flatMap PlacedToken.source ++ last

/-- The tokens as they are read from the given line on: only what stands before tokens counts. -/
def tokensFrom : ℕ → List PlacedToken → List Token
  | _, [] => []
  | line, p :: ps =>
    ⟨p.kind, line + Text.breaks p.space⟩ :: tokensFrom (line + Text.breaks p.space) ps

/-- The text can be taken apart into these tokens. -/
def Placeable (line : ℕ) (cs : List Char) (tokens : List Token) : Prop :=
  ∃ p : Placement cs, tokens = tokensFrom line p.tokens

lemma Closing.filler (f : Filler) (h : Closing cs) : Closing (f.text ++ cs) := by
  cases h with
  | gap fs => exact .gap (f :: fs)
  | @remark fs body hbody =>
    rw [← List.append_assoc, ← List.flatMap_cons]
    exact .remark (f :: fs) hbody

lemma placeable_closing (h : Closing cs) : Placeable line cs [] := ⟨⟨[], cs, h, rfl⟩, rfl⟩

lemma Placeable.filler (f : Filler) (h : Placeable (line + Text.breaks f.text) cs tokens) :
    Placeable line (f.text ++ cs) tokens := by
  obtain ⟨⟨ps, last, hlast, rfl⟩, rfl⟩ := h
  cases ps with
  | nil => exact placeable_closing (hlast.filler f)
  | cons p ps =>
    refine ⟨⟨p.behind f :: ps, last, hlast, ?_⟩, ?_⟩
    · rw [List.flatMap_cons, List.flatMap_cons, PlacedToken.source_behind]
      simp only [List.append_assoc]
    · rw [tokensFrom, tokensFrom, PlacedToken.space_behind, Text.breaks_append, Nat.add_assoc]
      rfl

lemma Placeable.token {text : List Char} (hw : Token.Written text k)
    (h : Placeable line rest tokens) : Placeable line (text ++ rest) (⟨k, line⟩ :: tokens) := by
  obtain ⟨⟨ps, last, hlast, rfl⟩, rfl⟩ := h
  exact ⟨⟨⟨[], text, k, hw⟩ :: ps, last, hlast, by simp [PlacedToken.source, PlacedToken.space]⟩,
    rfl⟩

lemma breaks_block {body : List Char} (hbody : ¬ ['*', '/'] <:+: body) :
    Text.breaks (Filler.block body hbody).text = Text.breaks body := by
  simp [Filler.text, Text.breaks]

lemma breaks_remark {body : List Char} (hbody : '\n' ∉ body) :
    Text.breaks (Filler.remark body hbody).text = 1 := by
  simp [Filler.text, Text.breaks, List.count_eq_zero_of_not_mem hbody]

/-- A block comment counts for its line breaks. -/
lemma Placeable.block {body : List Char} (hbody : ¬ ['*', '/'] <:+: body)
    (h : Placeable (line + Text.breaks body) rest tokens) :
    Placeable line ('/' :: '*' :: (body ++ '*' :: '/' :: rest)) tokens := by
  rw [← breaks_block hbody] at h
  simpa [Filler.text] using h.filler (.block body hbody)

/-- A comment up to the end of its line counts for one line break. -/
lemma Placeable.remark {body : List Char} (hbody : '\n' ∉ body)
    (h : Placeable (line + 1) rest tokens) :
    Placeable line ('/' :: '/' :: (body ++ '\n' :: rest)) tokens := by
  rw [← breaks_remark hbody] at h
  simpa [Filler.text] using h.filler (.remark body hbody)

/-- What is read as tokens can be taken apart into them. -/
lemma placeable_of_readWithin (hn : cs.length ≤ n) (h : readWithin n line cs = .ok tokens) :
    Placeable line cs tokens := by
  have hnil (n line : ℕ) : readWithin n line [] = .ok [] := by cases n <;> rfl
  induction n using Nat.strong_induction_on generalizing line cs tokens with
  | h n ih =>
    rcases cs with _ | ⟨c, cs⟩
    · cases (hnil n line).symm.trans h
      exact placeable_closing (.gap [])
    · obtain ⟨n, rfl⟩ := Nat.exists_eq_add_one_of_ne_zero (n := n) (by simp at hn; omega)
      rw [List.length_cons] at hn
      rw [readWithin_cons] at h
      split_ifs at h with hbreak hblank
      · subst hbreak
        exact (ih n (by omega) (by omega) h).filler (.blank '\n' (by decide))
      · have hnone : Text.breaks [c] = 0 := by simp [Text.breaks, hbreak]
        refine Placeable.filler (.blank c hblank) ?_
        show Placeable (line + Text.breaks [c]) cs tokens
        rw [hnone]
        exact ih n (by omega) (by omega) h
      · split at h
        · rename_i after
          obtain ⟨body, hbody, ⟨rfl, hdrop⟩ | ⟨more, rfl, hdrop⟩⟩ := remark_split after
          · rw [hdrop] at h
            cases (hnil n line).symm.trans h
            exact placeable_closing (.remark [] hbody)
          · -- the line break behind the comment is read as a blank
            simp only [List.length_cons, List.length_append] at hn
            obtain ⟨n, rfl⟩ := Nat.exists_eq_add_one_of_ne_zero (n := n) (by omega)
            rw [hdrop, readWithin_cons, if_pos rfl] at h
            exact (ih n (by omega) (by omega) h).remark hbody
        · split at h
          · rename_i hclose
            obtain ⟨body, hbody, rfl, rfl⟩ := block_of_closeComment hclose
            simp only [List.length_cons, List.length_append] at hn
            exact (ih n (by omega) (by omega) h).block hbody
          · cases h
        · obtain ⟨⟨kind, after⟩, hnext, h⟩ := except_bind_ok.mp h
          obtain ⟨more, hmore, h⟩ := except_bind_ok.mp h
          cases h
          obtain ⟨text, hw, hsplit⟩ := written_of_next hnext
          have hpos := List.length_pos_of_ne_nil hw.ne_nil
          have hlen := congrArg List.length hsplit
          rw [List.length_cons, List.length_append] at hlen
          rw [hsplit]
          exact (ih n (by omega) (by omega) hmore).token hw

/-! ### Lines -/

namespace Placement

variable (p : Placement cs) (i : ℕ)

/-- The text before the first character of a token. -/
def before : List Char :=
  (p.tokens.take i).flatMap PlacedToken.source ++ (p.tokens[i]?.map PlacedToken.space).getD []

/-- The texts of the tokens before a token. -/
def inside : List Char := (p.tokens.take i).flatMap PlacedToken.text

/-- The text behind a token. -/
def behind : List Char := (p.tokens.drop (i + 1)).flatMap PlacedToken.source ++ p.last

lemma eq_at {p : Placement cs} {i : ℕ} {t : PlacedToken} (ht : p.tokens[i]? = some t) :
    cs = (p.tokens.take i).flatMap PlacedToken.source ++ t.space ++ t.text ++ p.behind i := by
  obtain ⟨hi, rfl⟩ := List.getElem?_eq_some_iff.mp ht
  have hsplit : p.tokens.take i ++ p.tokens[i] :: p.tokens.drop (i + 1) = p.tokens := by
    rw [← List.drop_eq_getElem_cons hi, List.take_append_drop]
  have hflat := congrArg (List.flatMap PlacedToken.source) hsplit
  rw [List.flatMap_append, List.flatMap_cons, PlacedToken.source] at hflat
  refine p.assembled.trans ?_
  rw [← hflat, behind]
  simp only [List.append_assoc]

end Placement

lemma length_tokensFrom (ps : List PlacedToken) (line : ℕ) :
    (tokensFrom line ps).length = ps.length := by
  induction ps generalizing line with
  | nil => rfl
  | cons p ps ih => rw [tokensFrom, List.length_cons, List.length_cons, ih]

lemma breaks_source (ps : List PlacedToken) : Text.breaks (ps.flatMap PlacedToken.source) =
    Text.breaks (ps.flatMap PlacedToken.space) + Text.breaks (ps.flatMap PlacedToken.text) := by
  induction ps with
  | nil => rfl
  | cons p ps ih =>
    simp only [List.flatMap_cons, Text.breaks_append, PlacedToken.source, ih]
    omega

lemma getElem?_tokensFrom (ps : List PlacedToken) (line i : ℕ) : (tokensFrom line ps)[i]? =
    ps[i]?.map fun p =>
      ⟨p.kind, line + Text.breaks ((ps.take i).flatMap PlacedToken.space ++ p.space)⟩ := by
  induction ps generalizing line i with
  | nil => rfl
  | cons p ps ih =>
    cases i with
    | zero => rfl
    | succ i =>
      rw [tokensFrom, List.getElem?_cons_succ, List.getElem?_cons_succ, ih]
      simp only [List.take_succ_cons, List.flatMap_cons, Text.breaks_append, Nat.add_assoc]

lemma breaks_text_eq_zero_iff (ps : List PlacedToken) :
    Text.breaks (ps.flatMap PlacedToken.text) = 0 ↔ ∀ p ∈ ps, ¬ p.Continued := by
  rw [Text.breaks, List.count_eq_zero, List.mem_flatMap]
  constructor
  · rintro h p hp hcontinued
    exact h ⟨p, hp, p.written.break_iff.mpr hcontinued⟩
  · rintro h ⟨p, hp, hbreak⟩
    exact h p hp (p.written.break_iff.mp hbreak)

/-- **The lines of tokens.** Code that is read can be taken apart into its tokens, with blanks and
comments between them. The line of each token counts the line breaks before its first character but
for those inside of tokens. It is the line of that character just if no string before it goes on on
another line. -/
theorem tokenize_lines {source : String} (h : tokenize source line = .ok tokens) :
    ∃ p : Placement source.toList, tokens.length = p.tokens.length ∧
      ∀ i token, tokens[i]? = some token →
        (∃ t after, p.tokens[i]? = some t ∧ t.kind = token.kind ∧
          source.toList = p.before i ++ t.text ++ after) ∧
        token.line + Text.breaks (p.inside i) = line + Text.breaks (p.before i) ∧
        (token.line = line + Text.breaks (p.before i) ↔
          ∀ t ∈ p.tokens.take i, ¬ t.Continued) := by
  obtain ⟨p, rfl⟩ := placeable_of_readWithin (Nat.le_refl _) h
  refine ⟨p, length_tokensFrom p.tokens line, fun i token hi => ?_⟩
  rw [getElem?_tokensFrom, Option.map_eq_some_iff] at hi
  obtain ⟨t, ht, rfl⟩ := hi
  have hbefore : p.before i = (p.tokens.take i).flatMap PlacedToken.source ++ t.space := by
    rw [Placement.before, ht]
    rfl
  have hcounted : line + Text.breaks ((p.tokens.take i).flatMap PlacedToken.space ++ t.space) +
      Text.breaks (p.inside i) = line + Text.breaks (p.before i) := by
    rw [hbefore, Text.breaks_append, Text.breaks_append, breaks_source, Placement.inside]
    omega
  refine ⟨⟨t, p.behind i, ht, rfl, hbefore ▸ Placement.eq_at ht⟩, hcounted, ?_⟩
  rw [← breaks_text_eq_zero_iff, ← Placement.inside]
  dsimp only
  omega

/-- Comments of both kinds between two tokens. -/
theorem tokenize_lines_comments :
    tokenize "a // one\n/* two\n */ b" 5 = .ok [⟨.ident "a", 5⟩, ⟨.ident "b", 7⟩] ∧
      ∃ p : Placement "a // one\n/* two\n */ b".toList, 2 = p.tokens.length ∧
        ∀ i token, [(⟨.ident "a", 5⟩ : Token), ⟨.ident "b", 7⟩][i]? = some token →
          (∃ t after, p.tokens[i]? = some t ∧ t.kind = token.kind ∧
            "a // one\n/* two\n */ b".toList = p.before i ++ t.text ++ after) ∧
          token.line + Text.breaks (p.inside i) = 5 + Text.breaks (p.before i) ∧
          (token.line = 5 + Text.breaks (p.before i) ↔
            ∀ t ∈ p.tokens.take i, ¬ t.Continued) := by
  have hread : tokenize "a // one\n/* two\n */ b" 5 = .ok [⟨.ident "a", 5⟩, ⟨.ident "b", 7⟩] := by
    decide +kernel
  exact ⟨hread, tokenize_lines hread⟩

/-- The word `c` stands on the second line, and the string before it hides that. -/
theorem tokenize_lines_continued :
    "'a\\\nb' c" = "'a\\\nb' " ++ "c" ∧
      tokenize "'a\\\nb' c" 1 = .ok [⟨.str "a\nb", 1⟩, ⟨.ident "c", 1⟩] ∧
      1 ≠ 1 + Text.breaks "'a\\\nb' ".toList := by
  decide +kernel

end Stencil.Script
