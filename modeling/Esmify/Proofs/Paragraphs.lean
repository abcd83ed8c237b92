import Mathlib.Data.List.Infix
import Esmify.Proofs.GlobalPass
import Esmify.Proofs.MemberExport

/-!
# Statements in place of an exported object

The members of an exported object that become statements of their own are put in front of the old
statement, one paragraph each, and then the old statement is dropped. **What is left has a closed
form** (`writeGlobal_paragraphs`): the text above, the statements in order with one blank line
between them, and the text below.

Each insertion and the removal put the blank lines around their place in order, and each works on
what the one before it has left. The text above the old statement is therefore followed through the
run (`aboveBlock`): a paragraph that has been put in already has its blank line below it, so the
next insertion finds nothing to put in order (`aboveBlock_concat`), and line breaks neither pile up
nor get lost. -/

namespace Esmify

open Text Source

/-! ## Paragraphs -/

/-- A blank line behind a line. -/
def blankLine : Text :=
  ['\n', '\n']

/-- A text without the line breaks at its ends. -/
def stripBreaks (t : Text) : Text :=
  dropFrontBreaks (dropEndBreaks t)

/-- What follows the last paragraph once the old statement is gone: a line break at the end of the
text, or a blank line and the text below. -/
def paragraphEnd (back : Text) : Text :=
  if isBlankText back then ['\n'] else blankLine ++ dropFrontBreaks back

/-- What stands above the old statement when the paragraphs `done` are there. -/
def aboveBlock (front : Text) : List Text → Text
  | [] => front
  | r :: rs => paragraphHead front ++ (r :: rs).flatMap (· ++ blankLine)

/-- Line breaks are white space. -/
lemma isBlankText_of_breaks {t : Text} (h : ∀ c ∈ t, isBreak c = true) : isBlankText t = true := by
  refine List.all_eq_true.mpr fun c hc => ?_
  have hbreak : c = '\n' := beq_iff_eq.mp (h c hc)
  rw [hbreak]
  decide

/-- **A text that is not blank is a paragraph** without the line breaks at its ends. -/
lemma solid_stripBreaks {t : Text} (h : isBlankText t = false) : Solid (stripBreaks t) := by
  obtain ⟨ending, hending, hsplit, hlast⟩ := dropEndWhile_split isBreak t
  obtain ⟨start, hstart, hsplit', hhead⟩ := dropWhile_split isBreak (dropEndBreaks t)
  have hnotBlank : isBlankText (stripBreaks t) = false := by
    have hinner : isBlankText (dropEndBreaks t) = false := by
      rw [hsplit, isBlankText_append, isBlankText_of_breaks hending, Bool.and_true] at h
      exact h
    rw [hsplit', isBlankText_append, isBlankText_of_breaks hstart, Bool.true_and] at hinner
    exact hinner
  refine ⟨hnotBlank, fun hbreak => ?_, fun hbreak => ?_⟩
  · obtain ⟨rest, hrest⟩ := List.head?_eq_some_iff.mp hbreak
    exact absurd (hhead _ _ hrest) (by decide)
  · rcases getLast?_dropFrontBreaks (dropEndBreaks t) with hnil | hsame
    · rw [stripBreaks, hnil] at hbreak
      exact absurd hbreak (by simp)
    · exact absurd (hlast _ (hsame.symm.trans hbreak)) (by decide)

/-- Two paragraphs with something between them. -/
lemma Solid.around {a b : Text} (ha : Solid a) (hb : Solid b) (middle : Text) :
    Solid (a ++ middle ++ b) := by
  refine ⟨?_, ?_, ?_⟩
  · rw [isBlankText_append, hb.notBlank, Bool.and_false]
  · rw [List.append_assoc, List.head?_append_of_ne_nil _ ha.ne_nil]
    exact ha.head
  · rw [List.getLast?_append_of_ne_nil _ hb.ne_nil]
    exact hb.last

section paragraphs

variable {rs : List Text}

/-- Solid texts with blank lines between them are solid. -/
lemma solid_intercalate (h : ∀ r ∈ rs, Solid r) (hne : rs ≠ []) :
    Solid (blankLine.intercalate rs) := by
  induction rs with
  | nil => exact absurd rfl hne
  | cons r rs ih =>
    obtain ⟨hr, hrs⟩ := List.forall_mem_cons.mp h
    by_cases hlast : rs = []
    · rw [hlast, List.intercalate_singleton]
      exact hr
    · rw [List.intercalate_cons_of_ne_nil hlast]
      exact hr.around (ih hrs hlast) blankLine

/-- A blank line behind each text is one between any two and one at the end. -/
lemma flatMap_blankLine (hne : rs ≠ []) :
    rs.flatMap (· ++ blankLine) = blankLine.intercalate rs ++ blankLine := by
  induction rs with
  | nil => exact absurd rfl hne
  | cons r rs ih =>
    by_cases hlast : rs = []
    · rw [hlast, List.intercalate_singleton, List.flatMap_singleton]
    · rw [List.flatMap_cons, ih hlast, List.intercalate_cons_of_ne_nil hlast]
      simp only [List.append_assoc]

/-- What stands above the old statement, as paragraphs and the blank line below them. -/
lemma aboveBlock_eq (front : Text) (hne : rs ≠ []) :
    aboveBlock front rs = paragraphHead front ++ (blankLine.intercalate rs ++ blankLine) := by
  obtain ⟨r, rs, rfl⟩ := List.exists_cons_of_ne_nil hne
  rw [aboveBlock, flatMap_blankLine hne]

/-- **A paragraph has its blank line already** when the next one is put in. -/
lemma paragraphHead_aboveBlock (front : Text) (h : ∀ r ∈ rs, Solid r) (hne : rs ≠ []) :
    paragraphHead (aboveBlock front rs) = aboveBlock front rs := by
  have hsolid := solid_intercalate h hne
  have hbreaks : dropEndBreaks blankLine = [] := by decide
  have hblank : isBlankText (aboveBlock front rs) = false := by
    rw [aboveBlock_eq front hne, isBlankText_append, isBlankText_append, hsolid.notBlank,
      Bool.false_and, Bool.and_false]
  rw [paragraphHead, hblank, aboveBlock_eq front hne, hsolid.dropEndBreaks, hbreaks]
  simp [blankLine]

/-- One more paragraph above the old statement. -/
lemma aboveBlock_concat (front : Text) (h : ∀ r ∈ rs, Solid r) (r : Text) :
    aboveBlock front (rs ++ [r]) = paragraphHead (aboveBlock front rs) ++ (r ++ blankLine) := by
  by_cases hne : rs = []
  · rw [hne]
    simp [aboveBlock]
  · rw [paragraphHead_aboveBlock front h hne]
    obtain ⟨s, rs, rfl⟩ := List.exists_cons_of_ne_nil hne
    rw [List.cons_append, aboveBlock, aboveBlock, ← List.cons_append, List.flatMap_append,
      List.flatMap_singleton, List.append_assoc]

/-- **Behind paragraphs the gap is closed** by a blank line, or by one line break at the end of the
text. -/
lemma closeGap_aboveBlock (front back : Text) (h : ∀ r ∈ rs, Solid r) (hne : rs ≠ []) :
    closeGap (aboveBlock front rs) back =
      paragraphHead front ++ blankLine.intercalate rs ++ paragraphEnd back := by
  have hsolid := solid_intercalate h hne
  have hbreaks : dropEndBreaks blankLine = [] := by decide
  have hdrop : dropEndBreaks (aboveBlock front rs) = paragraphHead front
      ++ blankLine.intercalate rs := by
    rw [aboveBlock_eq front hne, hsolid.dropEndBreaks, hbreaks, List.append_nil]
  have hlength : (aboveBlock front rs).length =
      (paragraphHead front ++ blankLine.intercalate rs).length + 2 := by
    rw [aboveBlock_eq front hne, ← List.append_assoc, List.length_append]
    rfl
  have hempty : (aboveBlock front rs).isEmpty = false := by
    rw [List.isEmpty_eq_false_iff, ← List.length_pos_iff_ne_nil, hlength]
    omega
  have hblank : isBlankText (paragraphHead front ++ blankLine.intercalate rs) = false := by
    rw [isBlankText_append, hsolid.notBlank, Bool.and_false]
  unfold closeGap paragraphEnd
  simp only [hdrop, hempty, hblank, Bool.false_eq_true, if_false]
  split_ifs
  · rfl
  · have htwo : ∀ k : Nat, min (max ((aboveBlock front rs).length
        - (paragraphHead front ++ blankLine.intercalate rs).length + k) 1) 2 = 2 := by
      intro k
      omega
    rw [htwo, List.append_assoc]
    rfl

end paragraphs

/-! ## Statements of members -/

/-- The statement of a member, as it stands between blank lines. -/
def Assignment.statement (a : Assignment) : Text :=
  stripBreaks a.render

/-- The statements that stand in place of an exported object: those of the renamed properties, and
then those of the members with a value. -/
def GlobalExports.statements (e : GlobalExports) : List Text :=
  (renamedAssignments e.properties ++ e.assignments).map Assignment.statement

/-- The statement of a member is a paragraph. -/
lemma Assignment.solid_statement (a : Assignment) : Solid a.statement := by
  apply solid_stripBreaks
  have hvalue : isBlankText (renderValue a.key a.value) = false := by
    have hword : ∀ t, isBlankText ("export ".toList ++ t) = false := by
      intro t
      rw [isBlankText_append, show isBlankText "export ".toList = false by decide, Bool.false_and]
    rcases renderValue_cases a.key a.value with ⟨-, heq⟩ | ⟨-, t, heq, -⟩
    · rw [heq]
      exact hword _
    · rw [heq]
      exact hword t
  have hbelow : isBlankText (['\n'] ++ renderValue a.key a.value) = false := by
    rw [isBlankText_append, hvalue, Bool.and_false]
  unfold Assignment.render
  split
  · rw [isBlankText_append]
    exact (congrArg _ hbelow).trans (Bool.and_false _)
  · exact hvalue

/-- The statements are paragraphs: one blank line between two of them is all that is between
them. -/
lemma GlobalExports.solid_statements (e : GlobalExports) : ∀ s ∈ e.statements, Solid s :=
  List.forall_mem_map.mpr fun a _ => a.solid_statement

/-- Below statements the old one goes away. -/
lemma dropBlock_aboveBlock {raw front back : Text} {rs : List Text} (hrs : ∀ r ∈ rs, Solid r)
    (hsome : rs ≠ [])
    (h : indexOf? raw (aboveBlock front rs ++ (raw ++ back)) = some (aboveBlock front rs).length) :
    dropBlock (aboveBlock front rs ++ (raw ++ back)) raw =
      .ok (paragraphHead front ++ blankLine.intercalate rs ++ paragraphEnd back) := by
  rw [dropBlock, h]
  dsimp only
  rw [List.take_left, ← List.length_append, ← List.append_assoc, List.drop_left,
    closeGap_aboveBlock front back hrs hsome]

section run

variable {raw : Text} (hne : raw ≠ []) {front back : Text}

include hne

/-- **One member**: its statement is put in front of the old one. -/
lemma insertParagraphBefore_eq (piece : Text)
    (h : indexOf? raw (front ++ (raw ++ back)) = some front.length) :
    insertParagraphBefore (front ++ (raw ++ back)) raw piece =
      .ok (paragraphHead front ++ (stripBreaks piece ++ blankLine) ++ (raw ++ back)) := by
  have hempty : (raw ++ back).isEmpty = false := by
    rw [List.isEmpty_eq_false_iff]
    exact List.append_ne_nil_of_left_ne_nil hne back
  rw [insertParagraphBefore, h]
  simp only [List.take_left, List.drop_left, paragraphTail, hempty, Bool.false_eq_true, if_false]
  simp [stripBreaks, blankLine]

/-- **All members**: their statements stand above the old one in order. -/
lemma insertAssignments_eq (as : List Assignment) {done : List Text}
    (hdone : ∀ r ∈ done, Solid r)
    (hfirst : ∀ more, more <+: as.map Assignment.statement →
      indexOf? raw (aboveBlock front (done ++ more) ++ (raw ++ back)) =
        some (aboveBlock front (done ++ more)).length) :
    insertAssignments raw (aboveBlock front done ++ (raw ++ back)) as =
      .ok (aboveBlock front (done ++ as.map Assignment.statement) ++ (raw ++ back)) := by
  induction as generalizing done with
  | nil => rw [insertAssignments, List.map_nil, List.append_nil]
  | cons a as ih =>
    have hhere := hfirst [] List.nil_prefix
    rw [List.append_nil] at hhere
    rw [insertAssignments, insertParagraphBefore_eq hne a.render hhere, ← Assignment.statement,
      ← aboveBlock_concat front hdone]
    dsimp only
    rw [ih, List.map_cons, List.append_assoc, List.singleton_append]
    · intro r hr
      rcases List.mem_append.mp hr with hr | hr
      · exact hdone r hr
      · rw [List.mem_singleton.mp hr]
        exact a.solid_statement
    · intro more hmore
      rw [List.append_assoc, List.singleton_append]
      exact hfirst _ (List.cons_prefix_cons.mpr ⟨rfl, hmore⟩)

end run

/-- **Writing members that all become statements** puts them in place of the old one. -/
lemma run_writeMembers_paragraphs {raw : Text} {e : GlobalExports} (front back : Text)
    (hne : raw ≠ []) (hrenamed : ∀ p ∈ e.properties, (renamedFrom? p).isSome = true)
    (hkeySets : e.keySets = []) (hsome : e.statements ≠ [])
    (hfirst : ∀ done ∈ e.statements.inits, indexOf? raw (aboveBlock front done ++ (raw ++ back))
      = some (aboveBlock front done).length) :
    (writeMembers (front ++ (raw ++ back)) raw e).run =
      ⟨.ok (paragraphHead front ++ blankLine.intercalate e.statements ++ paragraphEnd back),
        []⟩ := by
  have hbare : e.properties.filter (fun p => (renamedFrom? p).isNone) = [] := by
    rw [List.filter_eq_nil_iff]
    intro p hp hnone
    have hsome := hrenamed p hp
    rw [Option.isNone_iff_eq_none.mp hnone] at hsome
    exact absurd hsome (by decide)
  have hstatements : e.statements = (renamedAssignments e.properties).map Assignment.statement
      ++ e.assignments.map Assignment.statement := List.map_append
  have hsolid : ∀ r ∈ (renamedAssignments e.properties).map Assignment.statement, Solid r :=
    List.forall_mem_map.mpr fun a _ => a.solid_statement
  have hfirst' : ∀ done, done <+: e.statements →
      indexOf? raw (aboveBlock front done ++ (raw ++ back)) =
        some (aboveBlock front done).length :=
    fun done hdone => hfirst done ((List.mem_inits _ _).mpr hdone)
  have hinserted : insertAssignments raw (front ++ (raw ++ back))
      (renamedAssignments e.properties) = _ :=
    insertAssignments_eq hne (renamedAssignments e.properties) (List.forall_mem_nil Solid)
      fun more hmore => hfirst' more
        (hmore.trans (by rw [hstatements]; exact List.prefix_append _ _))
  have hadded := insertAssignments_eq hne e.assignments hsolid
      fun more hmore => hfirst' _
        (by rw [hstatements]; exact (List.prefix_append_right_inj _).mpr hmore)
  have hdropped := dropBlock_aboveBlock e.solid_statements hsome (hfirst' _ (List.prefix_refl _))
  rw [← hstatements] at hadded
  unfold writeMembers
  have hsets : ∀ t : Text, (Revision.ofReported (promoteKeySets raw t [])).run = ⟨.ok t, []⟩ :=
    fun _ => rfl
  rw [hbare, hkeySets, hinserted, Revision.run_bind_of_ok (Revision.run_ofExcept _),
    List.nil_append, Revision.run_bind_of_ok (run_promoteProperties_of_declared rfl raw),
    Revision.run_bind_of_ok (hsets _), hadded,
    Revision.run_bind_of_ok (Revision.run_ofExcept _), hdropped]
  rfl

/-! ## Around the statements -/

/-- **Of the text above** only line breaks at its end are changed, unless all of it is blank. -/
lemma paragraphHead_cases (front : Text) :
    (isBlankText front = true ∧ paragraphHead front = [])
      ∨ isBlankText front = false ∧ ∃ kept breaks, front = kept ++ breaks ∧ (∀ c ∈ breaks, c = '\n')
        ∧ kept.getLast? ≠ some '\n' ∧ paragraphHead front = kept ++ blankLine := by
  cases hblank : isBlankText front with
  | true => exact Or.inl ⟨rfl, if_pos hblank⟩
  | false =>
    obtain ⟨breaks, hbreaks, hsplit, hlast⟩ := dropEndWhile_split isBreak front
    refine Or.inr ⟨rfl, dropEndBreaks front, breaks, hsplit,
      fun c hc => beq_iff_eq.mp (hbreaks c hc), ?_, ?_⟩
    · intro hbreak
      exact absurd (hlast _ hbreak) (by decide)
    · rw [paragraphHead, hblank]
      rfl

/-- **Of the text below** only line breaks at its front are changed, unless all of it is blank. -/
lemma paragraphEnd_cases (back : Text) :
    (isBlankText back = true ∧ paragraphEnd back = ['\n'])
      ∨ isBlankText back = false ∧ ∃ breaks kept, back = breaks ++ kept ∧ (∀ c ∈ breaks, c = '\n')
        ∧ kept.head? ≠ some '\n' ∧ paragraphEnd back = blankLine ++ kept := by
  cases hblank : isBlankText back with
  | true => exact Or.inl ⟨rfl, if_pos hblank⟩
  | false =>
    obtain ⟨breaks, hbreaks, hsplit, hhead⟩ := dropWhile_split isBreak back
    refine Or.inr ⟨rfl, breaks, dropFrontBreaks back, hsplit,
      fun c hc => beq_iff_eq.mp (hbreaks c hc), ?_, ?_⟩
    · intro hbreak
      obtain ⟨rest, hrest⟩ := List.head?_eq_some_iff.mp hbreak
      exact absurd (hhead _ _ hrest) (by decide)
    · rw [paragraphEnd, hblank]
      rfl

/-- **The closed form of an exported object whose members all become statements.** The statements
stand in order where the old one stood, each of them a paragraph and one blank line between two. A
blank text above them goes away, and a blank text below them becomes a line break; any other is kept
but for the line breaks next to them, which become one blank line. The old statement is looked for
once for each member and once at the end, and has to be found below what has been put in so far. -/
theorem writeGlobal_paragraphs {raw : Text} {e : GlobalExports} (front back : Text) (hne : raw ≠ [])
    (hraw : e.raw = some raw) (hdirect : e.direct.getD [] = [])
    (hrenamed : ∀ p ∈ e.properties, (renamedFrom? p).isSome = true) (hkeySets : e.keySets = [])
    (hsome : e.statements ≠ [])
    (hfirst : ∀ done ∈ e.statements.inits, indexOf? raw (aboveBlock front done ++ (raw ++ back)) =
      some (aboveBlock front done).length) :
    (writeGlobal (front ++ (raw ++ back)) e).run =
        ⟨.ok (paragraphHead front ++ blankLine.intercalate e.statements ++ paragraphEnd back), []⟩
      ∧ (∀ s ∈ e.statements, Solid s)
      ∧ ((isBlankText front = true ∧ paragraphHead front = [])
        ∨ isBlankText front = false ∧ ∃ kept breaks, front = kept ++ breaks
          ∧ (∀ c ∈ breaks, c = '\n')
          ∧ kept.getLast? ≠ some '\n' ∧ paragraphHead front = kept ++ blankLine)
      ∧ ((isBlankText back = true ∧ paragraphEnd back = ['\n'])
        ∨ isBlankText back = false ∧ ∃ breaks kept, back = breaks ++ kept ∧ (∀ c ∈ breaks, c = '\n')
          ∧ kept.head? ≠ some '\n' ∧ paragraphEnd back = blankLine ++ kept) := by
  refine ⟨?_, e.solid_statements, paragraphHead_cases front, paragraphEnd_cases back⟩
  have hwritten := run_writeMembers_paragraphs front back hne hrenamed hkeySets hsome hfirst
  have hoccurs : occursIn raw (front ++ (raw ++ back)) = true := isSome_indexOf? front raw back
  obtain ⟨c, cs, rfl⟩ := List.exists_cons_of_ne_nil hne
  unfold writeGlobal
  simp only [hraw, hdirect, Option.getD_some, hoccurs, if_true]
  exact hwritten

/-- An exported object with a renamed property and a member with a value. -/
def pairedObject : Text :=
  "module.exports = \x7b b: c, d: 2 \x7d;".toList

/-- Its members; the second has a comment that stays above its statement. -/
def pairedExports : GlobalExports where
  raw := some pairedObject
  properties := ["b:c".toList]
  assignments := [⟨"d".toList, "2".toList, some "// two".toList⟩]

/-- An alias and an assignment with a comment take the place of the object, one paragraph each. -/
theorem writeGlobal_paragraphs_paired :
    (writeGlobal ("let c;\n".toList ++ (pairedObject ++ "\n\n\n\nc = 1;\n".toList))
      pairedExports).run =
      ⟨.ok "let c;\n\nexport const b = c;\n\n// two\nexport const d = 2;\n\nc = 1;\n".toList,
        []⟩ := by
  have hfirst : ∀ done ∈ pairedExports.statements.inits,
      indexOf? pairedObject (aboveBlock "let c;\n".toList done
        ++ (pairedObject ++ "\n\n\n\nc = 1;\n".toList)) =
        some (aboveBlock "let c;\n".toList done).length := by
    decide
  have hclosed := (writeGlobal_paragraphs "let c;\n".toList "\n\n\n\nc = 1;\n".toList
    (by decide) rfl rfl (by decide) rfl (by decide) hfirst).1
  have htext : paragraphHead "let c;\n".toList ++ blankLine.intercalate pairedExports.statements
      ++ paragraphEnd "\n\n\n\nc = 1;\n".toList =
        "let c;\n\nexport const b = c;\n\n// two\nexport const d = 2;\n\nc = 1;\n".toList := by
    decide
  rw [hclosed, htext]

end Esmify
