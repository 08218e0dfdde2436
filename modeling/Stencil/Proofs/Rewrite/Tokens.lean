import Stencil.Proofs.Rewrite.Header
import Stencil.Proofs.Script.Counting
import Stencil.Proofs.Script.Lexing

/-!
The tokens of a header that the rewrite rule for loops over elements has made.

The elements can be any text that is read as tokens of its own between parentheses. The rest of
the header is made of words, marks and a zero.
-/

namespace Stencil.Rule

open Script Script.Piece Script.Counting

variable {line : ℕ} {cs rest : List Char} {ts : List TokenKind} {tokens : List Token}

/-- The text is read as the tokens wherever a closing parenthesis comes after it. -/
def LexesInside (line : ℕ) (cs : List Char) (ts : List TokenKind) : Prop :=
  ∀ rest tokens, Lexes line (')' :: rest) tokens →
    Lexes line (cs ++ ')' :: rest) (ts.map (⟨·, line⟩) ++ tokens)

/-- Pieces of code are read inside parentheses if the last of them ends there. -/
lemma lexesInside_code {ps : List Piece} (hwords : ∀ name, .word name ∈ ps → Spelled name)
    (hspaced : spaced ps = true) (hlast : ∀ p ∈ ps.getLast?, p.apart (.mark .closeParen) = true) :
    LexesInside line (code ps) (ps.filterMap kind?) := by
  intro rest tokens h
  exact h.code hwords hspaced (endsBefore_mark hlast)

lemma lexesInside_word {name : List Char} (h : Spelled name) :
    LexesInside line name [.ident (.ofList name)] := by
  have hwords : ∀ word, .word word ∈ [Piece.word name] → Spelled word := by
    intro word hword
    obtain rfl : word = name := by simpa using hword
    exact h
  have hinside : LexesInside line (code [.word name]) _ :=
    lexesInside_code hwords rfl (by simp [apart])
  simpa [code, Piece.text, kind?] using hinside

namespace Header

variable (name : List Char)

/-- The pieces of a header up to the parenthesis around its elements. -/
def initPieces : List Piece :=
  [.word "for".toList, .gap, .mark .openParen, .word "var".toList, .gap, .word ('_' :: name), .gap,
   .mark .assign, .gap, .zero, .mark .comma, .gap, .word ('_' :: '_' :: name), .gap,
   .mark .assign, .gap]

/-- The pieces from there to where the elements stand again. -/
def testPieces : List Piece :=
  [.mark .closeParen, .mark .dot, .word "length".toList, .mark .comma, .gap, .word name,
   .mark .semicolon, .gap, .word name, .gap, .mark .assign, .gap]

/-- The pieces after the elements, without the last parenthesis. -/
def updatePieces : List Piece :=
  [.mark .closeParen, .mark .openBracket, .word ('_' :: name), .mark .closeBracket, .mark .comma,
   .gap, .word ('_' :: name), .gap, .mark .less, .gap, .word ('_' :: '_' :: name),
   .mark .semicolon, .gap, .mark .plusPlus, .word ('_' :: name)]

end Header

open Header

variable {h : Header}

lemma counting_eq (rest : List Char) : h.counting ++ rest =
    code (initPieces h.name) ++ ('(' :: (h.elements ++ (code (testPieces h.name) ++
      ('(' :: (h.elements ++ (code (updatePieces h.name) ++ (')' :: rest))))))) := by
  unfold code initPieces testPieces updatePieces Header.counting
  simp [Piece.text, Punct.text]

lemma headerTokens_eq (name : List Char) (ts : List TokenKind) :
    headerTokens (.ofList name) ts =
      (initPieces name).filterMap kind? ++ (.punct .openParen :: (ts ++
        ((testPieces name).filterMap kind? ++ (.punct .openParen :: (ts ++
          ((updatePieces name).filterMap kind? ++ [.punct .closeParen])))))) := by
  have hindex : String.ofList ('_' :: name) = indexName (.ofList name) := by
    rw [indexName, ← String.toList_inj]
    simp
  have hlength : String.ofList ('_' :: '_' :: name) = lengthName (.ofList name) := by
    rw [lengthName, ← String.toList_inj]
    simp
  simp only [initPieces, testPieces, updatePieces, List.filterMap_cons, List.filterMap_nil, kind?,
    hindex, hlength]
  simp [headerTokens, Counting.initTokens, Counting.testTokens, Counting.updateTokens]

lemma spelled_pieces {name word : List Char} (hname : Spelled name)
    (hword : .word word ∈ initPieces name ++ testPieces name ++ updatePieces name) :
    Spelled word := by
  have hfixed : ∀ w ∈ ["for".toList, "var".toList, "length".toList], Spelled w := by
    decide +kernel
  have hcases : word ∈ ["for".toList, "var".toList, "length".toList] ∨ word = name ∨
      word = '_' :: name ∨ word = '_' :: '_' :: name := by
    simp only [initPieces, testPieces, updatePieces, List.mem_append, List.mem_cons,
      Piece.word.injEq, List.not_mem_nil, reduceCtorEq, false_or, or_false] at hword ⊢
    tauto
  rcases hcases with hmem | rfl | rfl | rfl
  · exact hfixed word hmem
  · exact hname
  · exact hname.underscore
  · exact hname.underscore.underscore

/-- **A rewritten header is read as the header of a counting loop**, whatever comes after it. -/
theorem lexes_counting (hname : Spelled h.name) (helements : LexesInside line h.elements ts)
    (hrest : Lexes line rest tokens) :
    Lexes line (h.counting ++ rest)
      ((headerTokens (.ofList h.name) ts).map (⟨·, line⟩) ++ tokens) := by
  have hlast : Lexes line (code (updatePieces h.name) ++ (')' :: rest)) _ :=
    (hrest.paren (.inr rfl)).code (fun _ hw => spelled_pieces hname (by simp [hw])) rfl
      (endsBefore_mark (by simp [updatePieces, apart]))
  have hindexed : Lexes line (h.elements ++ (code (updatePieces h.name) ++ (')' :: rest))) _ :=
    helements _ _ hlast
  have hmid : Lexes line (code (testPieces h.name) ++ ('(' :: _)) _ :=
    (hindexed.paren (.inl rfl)).code (fun _ hw => spelled_pieces hname (by simp [hw])) rfl
      (endsBefore_mark (by simp [testPieces, apart]))
  have hcounted : Lexes line (h.elements ++ (code (testPieces h.name) ++ ('(' :: (h.elements ++
      (code (updatePieces h.name) ++ (')' :: rest)))))) _ := helements _ _ hmid
  rw [counting_eq, headerTokens_eq]
  simp only [List.map_append, List.map_cons, List.map_nil, List.append_assoc, List.cons_append,
    List.nil_append]
  exact (hcounted.paren (.inl rfl)).code (fun _ hw => spelled_pieces hname (by simp [hw])) rfl
    (endsBefore_mark (by simp [initPieces, apart]))

end Stencil.Rule
