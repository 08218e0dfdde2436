import Mathlib.Data.List.Basic
import Mathlib.Data.List.Infix
import Stencil.FileTree
import Stencil.Proofs.Outcome

/-!
Trees of files after a write.

A path that can be written leads to a file, or to nothing in a directory that exists. So a write makes
no directory, and nothing but the file at the end of its path is another one afterwards.
-/

namespace Stencil

namespace FileTree

variable {t : FileTree} {names other : List String} {content : ByteArray} {part path text : String}

/-! ### Where paths lead -/

lemma isDirectory_above (h : t.isDirectory names = true) (hp : other <+: names) :
    t.isDirectory other = true := by
  simp only [isDirectory, Bool.or_eq_true, List.any_eq_true, List.isPrefixOf_iff_prefix] at h ⊢
  rcases h with (h | ⟨d, hd, h⟩) | ⟨f, hf, h⟩
  · exact .inl (.inl (hp.trans h))
  · exact .inl (.inr ⟨d, hd, hp.trans h⟩)
  · exact .inr ⟨f, hf, hp.trans h⟩

lemma isDirectory_start (t : FileTree) (path : String) : t.isDirectory (t.start path) = true := by
  have hhere : t.isDirectory t.here = true := by simp [isDirectory]
  unfold start
  split
  · exact isDirectory_above hhere List.nil_prefix
  · exact hhere

/-- What a path can lead to: a directory, or a file or nothing in a directory. -/
def Found (t : FileTree) : Node → Prop
  | .directory names => t.isDirectory names = true
  | .file names content => t.node names = .file names content ∧ t.isDirectory names.dropLast = true
  | .absent names => t.node names = .absent names ∧ t.isDirectory names.dropLast = true

lemma node_cases (t : FileTree) (names : List String) :
    (∃ content, t.node names = .file names content) ∨ t.node names = .absent names ∨
      t.node names = .directory names ∧ t.isDirectory names = true := by
  rcases hfind : t.files.find? (·.1 == names) with _ | ⟨_, content⟩
  · by_cases hdirectory : t.isDirectory names = true
    · exact .inr (.inr ⟨by simp [node, hfind, hdirectory], hdirectory⟩)
    · exact .inr (.inl (by simp [node, hfind, hdirectory]))
  · exact .inl ⟨content, by simp [node, hfind]⟩

/-- What is found under a name tells the name. -/
lemma node_injective (h : t.node names = t.node other) : names = other := by
  rcases t.node_cases names with ⟨content, hnames⟩ | hnames | ⟨hnames, -⟩ <;>
    rcases t.node_cases other with ⟨content', hother⟩ | hother | ⟨hother, -⟩ <;>
    rw [hnames, hother] at h <;> cases h <;> rfl

lemma found_node (h : t.isDirectory names = true) (part : String) :
    t.Found (t.node (names ++ [part])) := by
  have hparent : t.isDirectory (names ++ [part]).dropLast = true := by
    rwa [List.dropLast_concat]
  rcases t.node_cases (names ++ [part]) with ⟨content, hnode⟩ | hnode | ⟨hnode, hdirectory⟩
  · rw [hnode]
    exact ⟨hnode, hparent⟩
  · rw [hnode]
    exact ⟨hnode, hparent⟩
  · rw [hnode]
    exact hdirectory

lemma step_ok {position next : Node} (h : t.step position part = .ok next) :
    ∃ names, position = .directory names ∧
      ((part = "" ∨ part = ".") ∧ next = .directory names ∨
        part = ".." ∧ next = .directory names.dropLast ∨ next = t.node (names ++ [part])) := by
  cases position with
  | file | absent => cases h
  | directory names =>
    refine ⟨names, rfl, ?_⟩
    simp only [step] at h
    split_ifs at h with hhere hup
    · cases h
      exact .inl ⟨hhere, rfl⟩
    · cases h
      exact .inr (.inl ⟨hup, rfl⟩)
    · cases h
      exact .inr (.inr rfl)

/-- Every path leads on from a directory to what is found there. -/
lemma found_foldlM {parts : List String} {n : Node} (hstart : t.isDirectory names = true)
    (h : parts.foldlM t.step (.directory names) = .ok n) : t.Found n := by
  have hfrom : ∀ position, t.Found position → parts.foldlM t.step position = .ok n →
      t.Found n := by
    clear h
    induction parts with
    | nil =>
      intro position hposition h
      cases h
      exact hposition
    | cons part parts ih =>
      intro position hposition h
      obtain ⟨next, hnext, h⟩ := except_bind_ok.mp h
      refine ih next ?_ h
      obtain ⟨d, rfl, ⟨-, rfl⟩ | ⟨-, rfl⟩ | rfl⟩ := step_ok hnext
      · exact hposition
      · exact isDirectory_above hposition (List.dropLast_prefix d)
      · exact found_node hposition part
  exact hfrom (.directory names) hstart h

lemma follow_ok {parts : List String} {n : Node} (h : t.follow path parts = .ok n) :
    path ≠ "" ∧ parts.foldlM t.step (.directory (t.start path)) = .ok n := by
  unfold follow at h
  split_ifs at h with hempty
  exact ⟨hempty, h⟩

/-! ### Files that are put -/

/-- What a write makes of a tree: the file of the given names has the content, and all else is as it
was. -/
structure Wrote (before : FileTree) (names : List String) (content : ByteArray)
    (after : FileTree) : Prop where
  here : after.here = before.here
  written : after.node names = .file names content
  others : ∀ other, other ≠ names → after.node other = before.node other
  changes : ∀ f ∈ before.changes after, f = (names, content)

/-- No file counts as changed that was there before. -/
lemma not_mem_changes {before after : FileTree} {f : List String × ByteArray}
    (h : f ∈ before.files) : f ∉ before.changes after := by
  have hsame : (f == f) = true := by
    rcases f with ⟨names, ⟨data⟩⟩
    show (names == names && data == data) = true
    simp
  have hbefore : before.files.any (· == f) = true := List.any_eq_true.mpr ⟨f, h, hsame⟩
  intro hf
  have hchanged := (List.mem_filter.mp hf).2
  rw [hbefore] at hchanged
  cases hchanged

/-- A file put where there was one. -/
lemma find?_replaced (files : List (List String × ByteArray)) (hne : other ≠ names) :
    (files.map fun f => if f.1 == names then (names, content) else f).find? (·.1 == other) =
      files.find? (·.1 == other) := by
  induction files with
  | nil => rfl
  | cons f files ih =>
    rw [List.map_cons, List.find?_cons, List.find?_cons, ih]
    by_cases hf : f.1 = names
    · have hother : (names == other) = false := by simpa using hne.symm
      simp [hf, hother]
    · simp [hf]

lemma find?_replaced_self (files : List (List String × ByteArray))
    (h : files.any (·.1 == names) = true) :
    (files.map fun f => if f.1 == names then (names, content) else f).find? (·.1 == names) =
      some (names, content) := by
  induction files with
  | nil => cases h
  | cons f files ih =>
    rw [List.map_cons, List.find?_cons]
    by_cases hf : f.1 = names
    · simp [hf]
    · have hmore : files.any (·.1 == names) = true := by simpa [hf] using h
      have hfalse : (f.1 == names) = false := by simpa using hf
      simp only [hfalse, Bool.false_eq_true, if_false]
      exact ih hmore

lemma any_replaced (files : List (List String × ByteArray)) (q : List String → Bool) :
    (files.map fun f => if f.1 == names then (names, content) else f).any (fun f => q f.1) =
      files.any fun f => q f.1 := by
  rw [List.any_map]
  congr 1
  funext f
  by_cases hf : f.1 = names <;> simp [hf]

/-- A path that leads to a proper part of a new file leads to a directory that was there. -/
lemma isDirectory_put_new (hdirectory : t.isDirectory names.dropLast = true) (hne : other ≠ names) :
    FileTree.isDirectory { t with files := t.files ++ [(names, content)] } other =
      t.isDirectory other := by
  have hnew : t.isDirectory other = false → other.isPrefixOf names = false := by
    intro hother
    by_contra hprefix
    rw [Bool.not_eq_false, List.isPrefixOf_iff_prefix] at hprefix
    have hparent : other <+: names.dropLast := by
      rcases List.eq_nil_or_concat' names with rfl | ⟨parent, part, rfl⟩
      · exact absurd (List.prefix_nil.mp hprefix) hne
      · rw [List.dropLast_concat]
        exact (List.prefix_concat_iff.mp hprefix).resolve_left hne
    rw [isDirectory_above hdirectory hparent] at hother
    cases hother
  unfold isDirectory at hnew ⊢
  rw [List.any_append]
  simp only [List.any_cons, List.any_nil, Bool.or_false]
  cases h : (other.isPrefixOf t.here || t.directories.any other.isPrefixOf ||
    t.files.any fun f => other.isPrefixOf f.1)
  · rw [← Bool.or_assoc, h, hnew h, Bool.or_false]
  · rw [← Bool.or_assoc, h, Bool.true_or]

lemma wrote_put (hdirectory : t.isDirectory names.dropLast = true) (content : ByteArray) :
    t.Wrote names content (t.put names content) := by
  by_cases hany : t.files.any (·.1 == names) = true
  · have hput : t.put names content =
        { t with files := t.files.map fun f => if f.1 == names then (names, content) else f } :=
      if_pos hany
    rw [hput]
    refine ⟨rfl, ?_, fun other hne => ?_, fun f hf => ?_⟩
    · unfold node
      rw [find?_replaced_self _ hany]
    · unfold node isDirectory
      rw [find?_replaced _ hne, any_replaced _ other.isPrefixOf]
    · obtain ⟨g, hg, rfl⟩ := List.mem_map.mp (List.mem_filter.mp hf).1
      split_ifs at hf ⊢
      · rfl
      · exact (not_mem_changes hg hf).elim
  · have hput : t.put names content = { t with files := t.files ++ [(names, content)] } :=
      if_neg hany
    have hnone : t.files.find? (·.1 == names) = none :=
      List.find?_eq_none.mpr fun f hf hnames => hany (List.any_eq_true.mpr ⟨f, hf, hnames⟩)
    rw [hput]
    refine ⟨rfl, ?_, fun other hne => ?_, fun f hf => ?_⟩
    · unfold node
      rw [List.find?_append, hnone]
      simp
    · have hlast : ([(names, content)] : List (List String × ByteArray)).find? (·.1 == other) =
          none := by simpa using hne.symm
      unfold node
      rw [isDirectory_put_new hdirectory hne, List.find?_append, hlast, Option.or_none]
    · rcases List.mem_append.mp (List.mem_filter.mp hf).1 with hold | hnew
      · exact (not_mem_changes hold hf).elim
      · exact List.mem_singleton.mp hnew

/-! ### Paths after a write -/

/-- No path leads on from where there is no directory. -/
lemma foldlM_end {parts : List String} {position n : Node} (hend : ∀ d, position ≠ .directory d)
    (h : parts.foldlM t.step position = .ok n) : parts = [] ∧ n = position := by
  cases parts with
  | nil =>
    cases h
    exact ⟨rfl, rfl⟩
  | cons part parts =>
    obtain ⟨next, hnext, -⟩ := except_bind_ok.mp h
    obtain ⟨d, heq, -⟩ := step_ok hnext
    exact (hend d heq).elim

/-- A path to the file that is written leads through directories before it, and the write leaves
these alone. -/
lemma Wrote.foldlM {after : FileTree} (h : t.Wrote names content after) {n : Node}
    (hn : n = t.node names) (hfile : ∀ d, n ≠ .directory d) {parts d : List String}
    (hread : parts.foldlM t.step (.directory d) = .ok n) :
    parts.foldlM after.step (.directory d) = .ok (.file names content) := by
  induction parts generalizing d with
  | nil =>
    cases hread
    exact (hfile d rfl).elim
  | cons part parts ih =>
    obtain ⟨next, hnext, hread⟩ := except_bind_ok.mp hread
    refine except_bind_ok.mpr ?_
    simp only [step] at hnext ⊢
    split_ifs at hnext ⊢
    · cases hnext
      exact ⟨_, rfl, ih hread⟩
    · cases hnext
      exact ⟨_, rfl, ih hread⟩
    · cases hnext
      refine ⟨_, rfl, ?_⟩
      by_cases hend : ∀ d', t.node (d ++ [part]) ≠ .directory d'
      · obtain ⟨rfl, hlast⟩ := foldlM_end hend hread
        rw [node_injective (hlast.symm.trans hn), h.written]
        rfl
      · obtain ⟨d', hnode⟩ := not_forall_not.mp hend
        have hne : d ++ [part] ≠ names := by
          rintro rfl
          exact hfile d' (hn.trans hnode)
        rw [h.others _ hne, hnode]
        rw [hnode] at hread
        exact ih hread

/-- A path that does not end with a slash keeps all its parts. -/
lemma trimmedParts_eq {parts : List String} (h : trimmedParts path = (parts, false)) :
    parts = path.splitOn "/" := by
  obtain ⟨hparts, hslash⟩ := Prod.mk.inj h
  have hlast : (path.splitOn "/").getLast? ≠ some "" := by simpa using hslash
  rw [← hparts]
  rcases List.eq_nil_or_concat' (path.splitOn "/") with hnil | ⟨first, last, hsplit⟩
  · rw [hnil]
    rfl
  · rw [hsplit, List.getLast?_concat] at hlast
    have hkept : ¬ last.isEmpty = true := by simpa using hlast
    rw [hsplit, List.reverse_concat, List.dropWhile_cons_of_neg hkept, List.reverse_cons,
      List.reverse_reverse]

/-- What a write that succeeds has written, and to which file. -/
lemma write_ok {after : FileTree} (h : t.write path text = .ok after) :
    ∃ names, t.follow path (path.splitOn "/") = .ok (t.node names) ∧
      (∀ d, t.node names ≠ .directory d) ∧ t.isDirectory names.dropLast = true ∧
      after = t.put names text.toUTF8 := by
  unfold write at h
  rcases hparts : trimmedParts path with ⟨parts, slash⟩
  simp only [hparts] at h
  obtain ⟨n, hn, h⟩ := except_bind_ok.mp h
  have hfound := found_foldlM (t.isDirectory_start path) (follow_ok hn).2
  cases slash with
  | true => cases n <;> cases h
  | false =>
    rw [← trimmedParts_eq hparts]
    cases n with
    | directory names => cases h
    | file names content | absent names =>
      cases h
      exact ⟨names, hn.trans (by rw [hfound.1]), by simp [hfound.1], hfound.2, rfl⟩

/-- **A write changes one file.** The path then leads to the file with the text, and whatever else
there is or is not is as it was. -/
theorem wrote_write {after : FileTree} (h : t.write path text = .ok after) :
    ∃ names, t.Wrote names text.toUTF8 after ∧
      after.resolve path = .ok (.file names text.toUTF8) := by
  obtain ⟨names, hpath, hfile, hdirectory, rfl⟩ := write_ok h
  have hwrote := wrote_put hdirectory text.toUTF8
  refine ⟨names, hwrote, ?_⟩
  have hread := hwrote.foldlM rfl hfile (follow_ok hpath).2
  have hstart : (t.put names text.toUTF8).start path = t.start path := by
    rw [start, hwrote.here, start]
  unfold resolve follow
  unfold follow at hpath
  split_ifs at hpath ⊢
  rw [hstart]
  exact hread

lemma read_of_resolve (h : t.resolve path = .ok (.file names text.toUTF8)) :
    t.read path = .ok text := by
  have htext : String.fromUTF8? text.toUTF8 = some text := dif_pos text.isValidUTF8
  unfold read
  refine except_bind_ok.mpr ⟨_, h, ?_⟩
  simp only [htext]

end FileTree

end Stencil
