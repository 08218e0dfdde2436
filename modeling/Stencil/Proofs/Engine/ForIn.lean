import Stencil.Engine
import Stencil.Proofs.Rewrite.Tokens
import Stencil.Proofs.Script.Items
import Stencil.Proofs.Tag.Written

/-!
Templates with a loop over the elements of an array, from their text to their output.

The tags are found as they are written, the header is rewritten into that of a counting loop, and
the tokens of the two statement tags make up a loop with the outputs between them as its body.
-/

namespace Stencil

open Script Reader Grammar Counting

/-! ### Names -/

/-- A name in ASCII that is no word of the language. -/
structure PlainName (name : String) : Prop where
  start : ∃ c cs, name.toList = c :: cs ∧ c.isDigit = false
  part : ∀ c ∈ name.toList, c.isAlphanum = true ∨ c = '_'
  free : name ∉ reserved ++ ["true", "false", "null", "undefined"]

/-- What the characters of a plain name are, and what they are not. -/
structure PlainChar (c : Char) : Prop where
  part : isIdentPart c = true
  word : Text.isWord c = true
  blank : Text.isBlank c = false
  other : c ∉ [')', '\n', '%']
  start : c.isDigit = false → isIdentStart c = true

lemma plainChar_of {c : Char} (h : c.isAlphanum = true ∨ c = '_') : PlainChar c := by
  have hlt : c.toNat < 128 := by
    rcases h with h | rfl
    · have hranges : (decide ('A'.val ≤ c.val ∧ c.val ≤ 'Z'.val) ||
          (decide ('a'.val ≤ c.val) && decide (c.val ≤ 'z'.val)) ||
          (decide ('0'.val ≤ c.val) && decide (c.val ≤ '9'.val))) = true := h
      simp only [Bool.or_eq_true, Bool.and_eq_true, decide_eq_true_eq,
        UInt32.le_iff_toNat_le] at hranges
      have hval : c.toNat = c.val.toNat := rfl
      have hupper : 'Z'.val.toNat = 90 := rfl
      have hlower : 'z'.val.toNat = 122 := rfl
      have hdigit : '9'.val.toNat = 57 := rfl
      omega
    · decide
  have hall : ∀ n ∈ List.range 128, (Char.ofNat n).isAlphanum = true ∨ Char.ofNat n = '_' →
      isIdentPart (Char.ofNat n) = true ∧ Text.isWord (Char.ofNat n) = true ∧
      Text.isBlank (Char.ofNat n) = false ∧ Char.ofNat n ∉ [')', '\n', '%'] ∧
      ((Char.ofNat n).isDigit = false → isIdentStart (Char.ofNat n) = true) := by decide +kernel
  have hc := hall c.toNat (List.mem_range.mpr hlt)
  rw [Char.ofNat_toNat] at hc
  obtain ⟨hpart, hword, hblank, hother, hstart⟩ := hc h
  exact ⟨hpart, hword, hblank, hother, hstart⟩

namespace PlainName

variable {name : String}

lemma chars (h : PlainName name) : ∀ c ∈ name.toList, PlainChar c := fun c hc =>
  plainChar_of (h.part c hc)

lemma names (h : PlainName name) : Variable name := variable_of_not_mem h.free

lemma spelled (h : PlainName name) : Spelled name.toList := by
  obtain ⟨c, cs, hcs, hdigit⟩ := h.start
  have hc : PlainChar c := h.chars c (by simp [hcs])
  exact ⟨⟨c, cs, hcs, hc.start hdigit⟩, fun d hd => (h.chars d hd).part⟩

lemma toList_ne (h : PlainName name) : name.toList ≠ [] := by
  obtain ⟨c, cs, hcs, -⟩ := h.start
  simp [hcs]

end PlainName

/-! ### Tags -/

/-- A loop that shows each element between two texts. -/
def forInTemplate (name source before after : String) : String :=
  "<% for (" ++ name ++ " in " ++ source ++ ") \x7b %>" ++ before ++ "<%= " ++ name ++ " %>" ++
    after ++ "<% \x7d %>"

def forInHeader (name source : String) : Rule.Header where
  name := name.toList
  elements := source.toList
  beforeParen := [' ']
  afterParen := []
  beforeIn := [' ']
  afterIn := [' ']

def forInTags (name source before after : String) : List Tag.Found :=
  [⟨[], [], ⟨[' '], (forInHeader name source).text ++ [' ', '\x7b'], [' '], []⟩⟩,
   ⟨before.toList, ['='], ⟨[' '], name.toList, [' '], []⟩⟩,
   ⟨after.toList, [], ⟨[' '], ['\x7d'], [' '], []⟩⟩]

variable {name source before after : String}

lemma toList_forInTemplate : (forInTemplate name source before after).toList =
    Tag.textOf Markers.standard.opening.toList Markers.standard.closing.toList
      (forInTags name source before after) ++ [] := by
  unfold forInTemplate Tag.textOf forInTags forInHeader Rule.Header.text Tag.Found.inside
  simp [Markers.standard]

lemma isBlank_space : ∀ c ∈ [' '], Text.isBlank c = true := List.forall_mem_singleton.mpr rfl

lemma proper_forInHeader (hname : PlainName name) (hsource : PlainName source) :
    (forInHeader name source).Proper where
  name_ne := hname.toList_ne
  name c hc := (hname.chars c hc).word
  elements_ne := hsource.toList_ne
  elements c hc := by
    have hother := (hsource.chars c hc).other
    simp only [List.mem_cons, not_or] at hother
    exact ⟨hother.1, hother.2.1⟩
  head c hc := (hsource.chars c (List.mem_of_mem_head? hc)).blank
  beforeParen := isBlank_space
  afterParen := fun _ hc => by cases hc
  beforeIn_ne := List.cons_ne_nil _ _
  beforeIn := isBlank_space
  afterIn_ne := List.cons_ne_nil _ _
  afterIn := isBlank_space

/-- A tag with blanks around a content that has no character of the closing marker is found as it
is written. -/
lemma written_tag {before marker content : List Char} (hbefore : ¬ "<%".toList <:+: before)
    (hmarker : ∀ c ∈ marker, Tag.isSymbol c = true) (hne : content ≠ [])
    (hhead : ∀ c ∈ content.head?, Text.isBlank c = false)
    (hlast : ∀ c ∈ content.getLast?, Text.isBlank c = false) (hpercent : '%' ∉ content) :
    Tag.Found.Written Markers.standard.opening.toList Markers.standard.closing.toList
      ⟨before, marker, ⟨[' '], content, [' '], []⟩⟩ := by
  have hinfix : ¬ ['%', '>'] <:+: content ++ [' '] := fun hin => by
    have hmem : '%' ∈ content ++ [' '] := hin.mem List.mem_cons_self
    simp [hpercent] at hmem
  have hspace : Tag.isSymbol ' ' = false := by decide
  refine ⟨⟨isBlank_space, isBlank_space, ⟨hhead, hlast⟩, fun h => (hne h).elim,
    Tag.onlyLast_pair (by decide) hinfix⟩, hmarker, fun c hc => ?_,
    Tag.onlyLast_pair (by decide) hbefore⟩
  obtain rfl : ' ' = c := by simpa using hc
  exact hspace

lemma written_forInTags (hname : PlainName name) (hsource : PlainName source)
    (hbefore : ¬ "<%".toList <:+: before.toList) (hafter : ¬ "<%".toList <:+: after.toList) :
    ∀ f ∈ forInTags name source before after,
      f.Written Markers.standard.opening.toList Markers.standard.closing.toList := by
  have hpercent {s : String} (hs : PlainName s) : '%' ∉ s.toList := fun hmem => by
    simpa using (hs.chars '%' hmem).other
  have hheader : '%' ∉ (forInHeader name source).text ++ [' ', '\x7b'] := by
    unfold Rule.Header.text forInHeader
    simp [hpercent hname, hpercent hsource]
  have hstart : ∀ c ∈ ((forInHeader name source).text ++ [' ', '\x7b']).head?,
      Text.isBlank c = false := fun c hc => by
    unfold Rule.Header.text forInHeader at hc
    obtain rfl : 'f' = c := by simpa using hc
    decide
  have hend : ∀ c ∈ ((forInHeader name source).text ++ [' ', '\x7b']).getLast?,
      Text.isBlank c = false := fun c hc => by
    obtain rfl : '\x7b' = c := by simpa using hc
    decide
  have hbrace : ∀ c ∈ some '\x7d', Text.isBlank c = false := by
    rintro _ ⟨⟩
    decide
  have hempty : ∀ c ∈ [], Tag.isSymbol c = true := List.forall_mem_nil _
  have hequals : ∀ c ∈ ['='], Tag.isSymbol c = true := List.forall_mem_singleton.mpr rfl
  simp only [forInTags, List.forall_mem_cons, List.not_mem_nil, false_implies, implies_true,
    and_true]
  exact ⟨written_tag (by decide) hempty (by simp) hstart hend hheader,
    written_tag hbefore hequals hname.toList_ne
      (fun c hc => (hname.chars c (List.mem_of_mem_head? hc)).blank)
      (fun c hc => (hname.chars c (List.mem_of_mem_getLast? hc)).blank) (hpercent hname),
    written_tag hafter hempty (List.cons_ne_nil _ _) hbrace hbrace (by decide)⟩

lemma scan_forInTemplate (hname : PlainName name) (hsource : PlainName source)
    (hbefore : ¬ "<%".toList <:+: before.toList) (hafter : ¬ "<%".toList <:+: after.toList) :
    ∃ line line', Markers.standard.scan (forInTemplate name source before after) =
      [.literal "", .tag ⟨"", .ofList ((forInHeader name source).text ++ [' ', '\x7b']), 1⟩,
        .literal before, .tag ⟨"=", name, line⟩, .literal after, .tag ⟨"", "\x7d", line'⟩,
        .literal ""] := by
  have hwritten := written_forInTags hname hsource hbefore hafter
  have hclosing : Tag.Solid Markers.standard.closing.toList := ⟨'%', ['>'], rfl, by decide⟩
  have hend (n line : ℕ) : Tag.segmentsWithin Markers.standard.opening.toList
      Markers.standard.closing.toList n line [] = [.literal ""] := by
    cases n with
    | zero => rfl
    | succ n => rfl
  have hscan := Markers.scan_written toList_forInTemplate hwritten hclosing
  rw [hend] at hscan
  simp only [forInTags, Tag.segmentsOf, List.cons_append, List.nil_append, String.ofList_toList,
    Text.breaks_nil, Nat.add_zero] at hscan
  exact ⟨_, _, hscan⟩

/-! ### Instructions -/

lemma tokenize_header (hname : PlainName name) (hsource : PlainName source) (line : ℕ) :
    tokenize (.ofList ((forInHeader name source).counting ++ [' ', '\x7b'])) line =
      .ok (List.map (⟨·, line⟩) (headerTokens name [.ident source] ++ [.punct .openBrace])) := by
  have helements : Rule.LexesInside line source.toList [.ident source] := by
    have hinside : Rule.LexesInside line source.toList _ := Rule.lexesInside_word hsource.spelled
    rwa [String.ofList_toList] at hinside
  have hbrace : Lexes line [' ', '\x7b'] [⟨.punct .openBrace, line⟩] := by
    have hmark := (lexes_nil line).mark (p := .openBrace) ⟨by simp, by simp, by simp⟩
    exact hmark.blank (by decide) (by decide)
  have hlexes := Rule.lexes_counting (h := forInHeader name source) hname.spelled helements hbrace
  refine Lexes.tokenize ?_
  rw [String.toList_ofList, List.map_append]
  simpa [forInHeader] using hlexes

lemma tokenize_name (hname : PlainName name) (line : ℕ) :
    tokenize name line = .ok [⟨.ident name, line⟩] := by
  have hlexes := (lexes_nil line).word hname.spelled (by simp)
  rw [List.append_nil, String.ofList_toList] at hlexes
  exact hlexes.tokenize

/-- The rule changes the header of a loop and nothing else. -/
lemma apply_forInHeader (hname : PlainName name) (hsource : PlainName source) :
    Rules.standard.apply (.ofList ((forInHeader name source).text ++ [' ', '\x7b'])) =
      .ofList ((forInHeader name source).counting ++ [' ', '\x7b']) := by
  have hstart : ¬ "for".toList <:+: [] := by decide
  have hrest : ¬ "for".toList <:+: [' ', '\x7b'] := by decide
  have happly := Rule.apply_header (proper_forInHeader hname hsource) hstart hrest
  rw [List.nil_append, List.nil_append] at happly
  exact happly

lemma apply_brace : Rules.standard.apply "\x7d" = "\x7d" :=
  Rule.apply_of_not_infix (by decide)

/-! ### The program -/

def forInBody (name before after : String) : Stmt :=
  .block [.output (.literal before), .output (.escaped (.ident name)), .output (.literal after)]

def forInProgram (name source before after : String) : Program :=
  ⟨[.output (.literal ""), loop name (.ident source) (forInBody name before after),
    .output (.literal "")]⟩

/-- The items of the template make up the program, whatever lines they are on. -/
lemma runs_forIn (hname : PlainName name) (hsource : PlainName source) {header : List Item}
    {line l₁ l₂ l₃ l₄ l₅ l₆ : ℕ}
    (hheader : Spans header (.token ⟨.punct .openBrace, l₁⟩ :: .emit (.literal before) l₂ ::
      .emit (.escaped (.ident name)) l₃ :: .emit (.literal after) l₄ ::
      .token ⟨.punct .closeBrace, l₅⟩ :: [.emit (.literal "") l₆])
      (headerTokens name [.ident source])) :
    Runs (statement maxNesting false) (.emit (.literal "") line :: header) []
      (forInProgram name source before after).body := by
  have helements : Derives (124 + 1) .expression [.ident source] (.ident source) :=
    .single (derives_assignment hsource.names.primary)
  have hemits : Emits [.emit (.literal before) l₂, .emit (.escaped (.ident name)) l₃,
      .emit (.literal after) l₄]
      [.literal before, .escaped (.ident name), .literal after] :=
    .cons ⟨_, rfl⟩ (.cons ⟨_, rfl⟩ (.cons ⟨_, rfl⟩ .nil))
  have hbody : statement (124 + 3) true (.token ⟨.punct .openBrace, l₁⟩ :: .emit (.literal before) l₂ ::
      .emit (.escaped (.ident name)) l₃ :: .emit (.literal after) l₄ ::
      .token ⟨.punct .closeBrace, l₅⟩ :: [.emit (.literal "") l₆]) =
      .ok (forInBody name before after, [.emit (.literal "") l₆]) :=
    statement_block (hemits.runs _)
  have hloop : statement (124 + 4) false header =
      .ok (loop name (.ident source) (forInBody name before after), [.emit (.literal "") l₆]) :=
    statement_loop hname.names helements hheader hbody
  have hnext : next? header = some (.ident "for") := hheader.next?_eq
  have hne : header ≠ [] := by
    rintro rfl
    cases hnext
  have hlen := hheader.length_eq
  simp only [List.length_cons, List.length_nil] at hlen
  refine .cons (by simp) (by simp [next?]) statement_output (by simp) ?_
  refine .cons hne (by simp [hnext]) hloop (by simp only [List.length_cons, List.length_nil]; omega) ?_
  exact .cons (by simp) (by simp [next?]) statement_output (by simp) .nil

def forInInstructions (name source before after : String) (line line' : ℕ) : List Instruction :=
  [.appendLiteral "", .execute ⟨.ofList ((forInHeader name source).counting ++ [' ', '\x7b']), 1⟩,
    .appendLiteral before, .appendEscaped ⟨name, line⟩, .appendLiteral after,
    .execute ⟨"\x7d", line'⟩, .appendLiteral ""]

lemma generate_forIn (hname : PlainName name) (hsource : PlainName source)
    (hbefore : ¬ "<%".toList <:+: before.toList) (hafter : ¬ "<%".toList <:+: after.toList) :
    ∃ line line', Instruction.generate .standard
      (Markers.standard.scan (forInTemplate name source before after)) =
        .ok (forInInstructions name source before after line line') := by
  obtain ⟨line, line', hscan⟩ := scan_forInTemplate hname hsource hbefore hafter
  have hheader : Instruction.ofTag .standard
      ⟨"", .ofList ((forInHeader name source).text ++ [' ', '\x7b']), 1⟩ =
        .ok [.execute ⟨.ofList ((forInHeader name source).counting ++ [' ', '\x7b']), 1⟩] := by
    have hne : String.ofList ((forInHeader name source).text ++ [' ', '\x7b']) ≠ "" := by simp
    rw [Instruction.ofTag]
    simp only [TagKind.ofMarker?, if_neg hne, apply_forInHeader hname hsource]
  have hshow : Instruction.ofTag .standard ⟨"=", name, line⟩ =
      .ok [.appendEscaped ⟨name, line⟩] := by
    have hne : name ≠ "" := fun h => hname.toList_ne (by rw [h]; rfl)
    simp [Instruction.ofTag, TagKind.ofMarker?, hne]
  have hbrace : Instruction.ofTag .standard ⟨"", "\x7d", line'⟩ =
      .ok [.execute ⟨"\x7d", line'⟩] := by
    simp [Instruction.ofTag, TagKind.ofMarker?, apply_brace]
  refine ⟨line, line', ?_⟩
  rw [hscan]
  simp only [Instruction.generate, hheader, hshow, hbrace]
  rfl

lemma parseProgram_forIn (hname : PlainName name) (hsource : PlainName source) (line line' : ℕ) :
    parseProgram (forInInstructions name source before after line line') =
      .ok (forInProgram name source before after) := by
  have hbrace : tokenize "\x7d" line' = .ok [⟨.punct .closeBrace, line'⟩] := by
    have hends : Punct.closeBrace.Ends [] := ⟨by simp, by simp, by simp⟩
    have hlexes := (lexes_nil line').mark hends
    exact hlexes.tokenize
  have hident : parseExpression name line = .ok (.ident name) := by
    have hd : Derives maxNesting .expression [.ident name] (.ident name) :=
      .single (derives_assignment (n := 127) hname.names.primary)
    exact parseExpression_of_derives (tokenize_name hname line) (by simp) hd
  let body : List Item := [.emit (.literal before) 1, .emit (.escaped (.ident name)) line,
    .emit (.literal after) line, .token ⟨.punct .closeBrace, line'⟩, .emit (.literal "") line']
  let header : List Token :=
    List.map (⟨·, 1⟩) (headerTokens name [.ident source] ++ [.punct .openBrace])
  have hlast : itemsFrom line' [.appendLiteral ""] = .ok [.emit (.literal "") line'] :=
    itemsFrom_of_makes (.literal "") rfl
  have hbody : itemsFrom 1 [.appendLiteral before, .appendEscaped ⟨name, line⟩,
      .appendLiteral after, .execute ⟨"\x7d", line'⟩, .appendLiteral ""] = .ok body := by
    refine itemsFrom_of_makes (.literal before) ?_
    refine itemsFrom_of_makes (.escaped _ hident) ?_
    refine itemsFrom_of_makes (.literal after) ?_
    exact itemsFrom_of_makes (.execute ⟨"\x7d", line'⟩ hbrace) hlast
  have hitems : itemsFrom 1 (forInInstructions name source before after line line') =
      .ok (.emit (.literal "") 1 :: (header.map .token ++ body)) :=
    itemsFrom_cons_ok.mpr ⟨_, _, _, .literal "", itemsFrom_cons_ok.mpr
      ⟨_, _, _, .execute _ (tokenize_header hname hsource 1), hbody, rfl⟩, rfl⟩
  have hspan : Spans (header.map .token ++ body) (.token ⟨.punct .openBrace, 1⟩ :: body)
      (headerTokens name [.ident source]) := by
    refine ⟨(headerTokens name [.ident source]).map fun k => ⟨k, 1⟩, ?_, ?_⟩
    · simp [header]
    · simp [Function.comp_def]
  have hruns : Runs (statement maxNesting false) (.emit (.literal "") 1 :: (header.map .token ++ body))
      [] (forInProgram name source before after).body := runs_forIn hname hsource hspan
  exact except_bind_ok.mpr ⟨_, hitems, except_bind_ok.mpr ⟨_, runOn_of_runs hruns, rfl⟩⟩

/-- **The template is compiled** into the loop with its body. -/
lemma compile_forIn (hname : PlainName name) (hsource : PlainName source)
    (hbefore : ¬ "<%".toList <:+: before.toList) (hafter : ¬ "<%".toList <:+: after.toList)
    (key : String) :
    ∃ is, Template.compile .standard .standard key (forInTemplate name source before after) =
      .ok ⟨key, is, forInProgram name source before after⟩ := by
  obtain ⟨line, line', hgenerate⟩ := generate_forIn hname hsource hbefore hafter
  refine ⟨forInInstructions name source before after line line', ?_⟩
  rw [Template.compile, hgenerate]
  dsimp only
  rw [parseProgram_forIn hname hsource]

/-! ### Running -/

variable {tiers : Tiers} {bound : ℕ}

lemma exec_literal (text : String) (locals : Locals) (out : String) :
    exec tiers bound (.output (.literal text)) ⟨locals, out⟩ =
      some (.ok (.normal, ⟨locals, out ++ text⟩)) := by
  rw [exec]
  rfl

lemma displays_body (name before after : String) :
    Displays (exec tiers bound (forInBody name before after)) name
      fun v => before ++ Text.escapeText v.toText ++ after := by
  intro locals v out hv
  have hvalue (out : String) : exec tiers bound (.output (.escaped (.ident name))) ⟨locals, out⟩ =
      some (.ok (.normal, ⟨locals, out ++ Text.escapeText v.toText⟩)) := by
    rw [exec, writeOutput]
    exact run_bind_ok.mpr ⟨(), _, run_bind_ok.mpr ⟨v, _, ofEval_ok (eval_local hv), rfl⟩, rfl⟩
  have hcons {s : Stmt} {rest : List Stmt} {frame mid last : Frame}
      (hs : exec tiers bound s frame = some (.ok (.normal, mid)))
      (hrest : execAll tiers bound rest mid = some (.ok (.normal, last))) :
      execAll tiers bound (s :: rest) frame = some (.ok (.normal, last)) := by
    rw [execAll]
    refine run_bind_ok.mpr ⟨.normal, _, hs, ?_⟩
    rw [if_pos rfl, hrest]
  rw [forInBody, exec]
  have hnil (frame : Frame) : execAll tiers bound [] frame = some (.ok (.normal, frame)) := by
    rw [execAll]
    rfl
  simp only [← String.append_assoc]
  exact hcons (exec_literal _ _ _) (hcons (hvalue _) (hcons (exec_literal _ _ _) (hnil _)))

/-- **Loops over elements, end to end**: with the standard markers and rules, a template that loops
over the elements of an array in its data shows each of them, in order, between the two texts of
the body. -/
theorem render_for_in (e : Engine) (bound : ℕ) (name source before after : String)
    (entries : Entries Value) (items : List Value)
    (hmarkers : e.markers = .standard) (hrules : e.rules = .standard)
    (hname : PlainName name) (hsource : PlainName source) (hne : source ≠ name)
    (hindex : source ≠ indexName name) (hlength : source ≠ lengthName name)
    (hbefore : ¬ "<%".toList <:+: before.toList) (hafter : ¬ "<%".toList <:+: after.toList)
    (hitems : Entries.find? entries source = some (.arr items)) (hsize : items.length < 2 ^ 53)
    (hbound : items.length < bound) :
    e.render bound (forInTemplate name source before after) (.obj entries) =
      some (.ok (String.join (items.map fun v => before ++ Text.escapeText v.toText ++ after))) := by
  obtain ⟨is, hcompile⟩ := compile_forIn hname hsource hbefore hafter Template.anonymous
  have hscope : (e.tiers (.obj entries)).scopeValue? source = some (.arr items) := hitems
  have hbody : Displays (exec (e.tiers (.obj entries)) bound (forInBody name before after)) name _ :=
    displays_body name before after
  obtain ⟨locals, hloop⟩ := exec_loop hbody hne hindex hlength hscope hsize hbound
    (Entries.find?_nil source) ""
  have htop : execTop (e.tiers (.obj entries)) bound (forInProgram name source before after).body
      ⟨[], ""⟩ = some (.ok ((), ⟨locals, String.join
        (items.map fun v => before ++ Text.escapeText v.toText ++ after)⟩)) := by
    rw [String.empty_append] at hloop
    have hlast (out : String) : exec (e.tiers (.obj entries)) bound (.output (.literal ""))
        ⟨locals, out⟩ = some (.ok (.normal, ⟨locals, out⟩)) := by
      rw [exec_literal, String.append_empty]
    simp only [forInProgram, execTop]
    refine run_bind_ok.mpr ⟨(), _, discard_ok (exec_literal "" [] ""), ?_⟩
    refine run_bind_ok.mpr ⟨(), _, discard_ok hloop, ?_⟩
    exact run_bind_ok.mpr ⟨(), _, discard_ok (hlast _), rfl⟩
  have hrun : run (e.tiers (.obj entries)) bound (forInProgram name source before after) =
      some (.ok (String.join (items.map fun v => before ++ Text.escapeText v.toText ++ after))) := by
    rw [run, htop]
  rw [Engine.render, Engine.compile, Engine.compileNamed, hmarkers, hrules, hcompile,
    Engine.executeCompiled, Engine.execute, Template.render, hrun]
  rfl

/-- Data with a list of two elements, one of which shows nothing. -/
def listData : Entries Value := [("items", .arr [.str "a & b", .null])]

theorem render_for_in_list : ∃ e : Engine, Engine.ofConfig .standard = .ok e ∧
    PlainName "item" ∧ PlainName "items" ∧
    e.render 3 (forInTemplate "item" "items" "<li>" "</li>") (.obj listData) =
      some (.ok "<li>a &amp; b</li><li></li>") := by
  let e : Engine := ⟨.standard, .standard, .standard, Helper.standard, []⟩
  have hitem : PlainName "item" := ⟨⟨'i', ['t', 'e', 'm'], rfl, by decide⟩, by simp, by decide⟩
  have hitems : PlainName "items" :=
    ⟨⟨'i', ['t', 'e', 'm', 's'], rfl, by decide⟩, by simp, by decide⟩
  have hrender := render_for_in e 3 "item" "items" "<li>" "</li>" listData _ rfl rfl hitem hitems
    (by decide) (by decide) (by decide) (by decide) (by decide) rfl (by decide) (by decide)
  exact ⟨e, rfl, hitem, hitems, hrender⟩

end Stencil
