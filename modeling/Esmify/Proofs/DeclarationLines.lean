import Esmify.Proofs.ExportLine

/-!
# Declarations, and a line that exports some of them

A text of declarations that each fill a line (`DeclarationLine`), and a last line that assigns an
object with some of their names to the exports of the module (`exportLine`). **The declarations are
quiet about the exports** (`DeclarationLine.quiet_shown`), so what the last line exports is read,
and nothing is required (`noCall_declaredText`). -/

namespace Esmify

open Text Source

/-! ## Lines -/

/-- How a name is declared. -/
inductive Declarator
  | ofKeyword (keyword : Keyword)
  | ofFunction (isAsync : Bool)
  | ofClass

/-- What stands in front of the name. -/
def Declarator.word : Declarator → Text
  | .ofKeyword keyword => keyword.1 ++ [' ']
  | .ofFunction false => "function ".toList
  | .ofFunction true => "async function ".toList
  | .ofClass => "class ".toList

/-- What stands right behind the name. -/
def Declarator.mark : Declarator → Text
  | .ofKeyword _ => " = ".toList
  | .ofFunction _ => ['(']
  | .ofClass => [' ']

/-- A declaration of a name. -/
structure Declaration where
  declarator : Declarator
  name : Name
  tail : Text

/-- The declaration as it is written. -/
def Declaration.text (d : Declaration) : Text :=
  d.declarator.word ++ (d.name.1 ++ (d.declarator.mark ++ d.tail))

/-- A declaration that fills a line and has neither of the words that the readers look for. -/
structure DeclarationLine extends Declaration where
  break_not_mem : '\n' ∉ tail
  not_exports : ¬ "exports".toList <:+: toDeclaration.text
  not_require : ¬ "require".toList <:+: toDeclaration.text

/-- A declaration of the text while names are being exported: marked once its name is among those
`done`. -/
def DeclarationLine.shown (done : List Text) (d : DeclarationLine) : Text :=
  shownAs done d.name.1 ("export ".toList ++ d.text) d.text

/-! ## Words -/

namespace DeclarationLine

variable {d : DeclarationLine} {done : List Text}

/-- A declaration stands on one line. -/
lemma break_not_mem_text (d : DeclarationLine) : '\n' ∉ d.text := by
  have hword : '\n' ∉ d.declarator.word := by
    rcases d.declarator with k | isAsync | _
    · exact (by decide : ∀ word ∈ variableKeywords, '\n' ∉ word ++ [' ']) k.1 k.2
    · cases isAsync <;> decide
    · decide
  have hmark : '\n' ∉ d.declarator.mark := by
    cases d.declarator <;> simp [Declarator.mark]
  have hname : '\n' ∉ d.name.1 := d.name.2.not_mem (by decide)
  simp [Declaration.text, hword, hmark, hname, d.break_not_mem]

/-- So does what it is shown as. -/
lemma break_not_mem_shown (done : List Text) (d : DeclarationLine) : '\n' ∉ d.shown done := by
  unfold shown shownAs
  split_ifs
  · intro hmem
    rcases List.mem_append.mp hmem with hmem | hmem
    · exact absurd hmem (by decide)
    · exact d.break_not_mem_text hmem
  · exact d.break_not_mem_text

/-- A long word of a line that is shown is one of the declaration. -/
lemma infix_text_of_shown (done : List Text) {w : Text} (hspace : ' ' ∉ w) (hlong : 6 < w.length)
    (h : w <:+: d.shown done) : w <:+: d.text := by
  unfold shown shownAs at h
  split_ifs at h
  · have hmarked : w <:+: "export".toList ++ ' ' :: d.text := h
    rcases infix_append_cons hspace hmarked with hshort | htext
    · exact absurd hshort.length_le (by simpa using hlong)
    · exact htext
  · exact h

/-- A declaration does not begin with white space. -/
lemma exists_cons_text (d : DeclarationLine) :
    ∃ c rest, d.text = c :: rest ∧ isBlank c = false := by
  rw [Declaration.text]
  rcases d.declarator with k | isAsync | _
  · have hkeyword : ∀ word ∈ variableKeywords, ∃ c cs, word = c :: cs ∧ isBlank c = false := by
      intro word hword
      simp only [variableKeywords, List.mem_cons, List.not_mem_nil, or_false] at hword
      rcases hword with rfl | rfl | rfl
      all_goals exact ⟨_, _, rfl, by decide⟩
    obtain ⟨c, cs, hk, hc⟩ := hkeyword k.1 k.2
    have hword : (Declarator.ofKeyword k).word = c :: (cs ++ [' ']) := by
      show k.1 ++ [' '] = c :: (cs ++ [' '])
      rw [hk]
      rfl
    exact ⟨c, _, by rw [hword]; rfl, hc⟩
  · cases isAsync
    all_goals exact ⟨_, _, rfl, by decide⟩
  · exact ⟨_, _, rfl, by decide⟩

/-- **A declaration is quiet about the exports**, marked or not. -/
lemma quiet_shown (done : List Text) (d : DeclarationLine) : QuietLine (d.shown done) := by
  have hexports : ¬ "exports".toList <:+: d.shown done := fun h =>
    d.not_exports (infix_text_of_shown done (by decide) (by decide) h)
  refine ⟨?_, d.break_not_mem_shown done, fun h => hexports ?_, fun h => hexports ?_⟩
  · unfold shown shownAs
    split_ifs
    · exact ⟨'e', _, rfl, by decide⟩
    · exact d.exists_cons_text
  · exact (List.infix_append [] "exports".toList ['.']).trans h
  · exact (List.infix_append ['.'] "exports".toList []).trans h

end DeclarationLine

section text

variable {ended : Bool} {done : List Text} {decls : List DeclarationLine} {names : List Name}

/-- The text while names are being exported. -/
abbrev declaredText (ended : Bool) (done : List Text) (decls : List DeclarationLine)
    (names : List Name) : Text :=
  linesText ended (decls.map (DeclarationLine.shown done) ++ [exportLine names])

/-- The lines of the declarations, each with its line break. -/
abbrev shownLines (done : List Text) (decls : List DeclarationLine) : Text :=
  linesText true (decls.map (DeclarationLine.shown done))

/-- A line of the text is the last one or that of a declaration. -/
lemma line_cases_declared {above below : List Text} {line : Text}
    (h : decls.map (DeclarationLine.shown done) ++ [exportLine names] = above ++ line :: below) :
    (above = decls.map (DeclarationLine.shown done) ∧ line = exportLine names ∧ below = []) ∨
      ∃ a d b, decls = a ++ d :: b ∧ above = a.map (DeclarationLine.shown done)
        ∧ line = d.shown done := by
  rcases line_cases h with hlast | ⟨below', hlines⟩
  · exact Or.inl hlast
  · obtain ⟨a, rest, rfl, rfl, hrest⟩ := List.map_eq_append_iff.mp hlines
    obtain ⟨d, b, rfl, rfl, rfl⟩ := List.map_eq_cons_iff.mp hrest
    exact Or.inr ⟨a, d, b, rfl, rfl, rfl⟩

/-- Nothing is required. -/
lemma noCall_declaredText : NoCall (declaredText ended done decls names) := by
  intro front blanks back _ h
  obtain ⟨above, line, below, m, m', hlines, hline, -, hback⟩ :=
    exists_line_of_word (by decide) (by decide) h
  rcases line_cases_declared hlines with ⟨-, rfl, rfl⟩ | ⟨a, d, b, -, -, rfl⟩
  · -- a call needs a parenthesis, and the last line has none
    have hmem : '(' ∈ m' ++ lineTail ended [] := by
      rw [← hback]
      simp
    rcases List.mem_append.mp hmem with hmem | hmem
    · exact parenthesis_not_mem_exportLine names (by rw [hline]; simp [hmem])
    · cases ended
      all_goals exact absurd hmem (by decide)
  · exact d.not_require (DeclarationLine.infix_text_of_shown done (by decide) (by decide)
      ⟨m, m', by rw [hline, List.append_assoc]⟩)

end text

end Esmify
