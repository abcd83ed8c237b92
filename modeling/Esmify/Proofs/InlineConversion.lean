import Esmify.Proofs.ImportSpan
import Esmify.Proofs.InlineLines
import Esmify.Proofs.KeptPart

/-!
# Inline exports are converted line by line

**Each line that sets a property of the exports becomes the definition of an exported constant**
(`convert_sourceText`), in its place and without a warning.

The exports are written by decreasing length of their names, each at the first occurrence of its
statement, into a text in which some lines have been converted and others have not
(`InlineLine.shown`). There the exports and a dot stand only at the beginning of a line that is
still to be converted (`exists_line_of_exports`), so with distinct names the statement is found in
its own line (`indexOf?_source`), and writing it converts just that line (`run_writeInline`). -/

namespace Esmify

open Text Source

/-! ## Lines that are neither declarations nor imports -/

section lines

variable {ended : Bool} {lines : List Text}

/-- No declaration is found where no line begins like one. -/
lemma declaration?_linesText (hbreak : ∀ line ∈ lines, '\n' ∉ line)
    (hfirst : ∀ line ∈ lines, ∃ c cs, line = c :: cs ∧ c ∉ "afclv".toList) (name : Text) :
    declaration? (linesText ended lines) name = none := by
  rw [Option.eq_none_iff_forall_ne_some]
  intro d hd
  obtain ⟨front, back, hsplit, -, hbegins, head, back', rfl, hhead, -⟩ := declaration?_eq_some hd
  obtain ⟨c, cs, rfl, hc⟩ := hhead.exists_cons
  obtain ⟨above, line, below, hlines, -, hback⟩ :=
    exists_line_of_beginsLine hbreak hsplit hbegins (by simp)
  obtain ⟨c', cs', rfl, hc'⟩ := hfirst line (by rw [hlines]; simp)
  exact hc' ((List.cons.inj hback).1 ▸ hc)

/-- No import is found where no line begins like one. -/
lemma importOf?_linesText (hbreak : ∀ line ∈ lines, '\n' ∉ line)
    (hfirst : ∀ line ∈ lines, ∃ c cs, line = c :: cs ∧ c ≠ 'i') (name : Text) :
    importOf? (linesText ended lines) name = none := by
  have hnowhere : Nowhere importPattern (linesText ended lines) := by
    apply nowhere_linesText
    · rintro before t ⟨parts, rest⟩ hmatch
      obtain ⟨hbegins, m, rfl, -⟩ := importPattern_eq_some hmatch
      exact ⟨hbegins, by simp⟩
    · exact hbreak
    · intro line hline before rest
      obtain ⟨c, cs, rfl, hc⟩ := hfirst line hline
      rw [Option.eq_none_iff_forall_ne_some]
      rintro ⟨parts, rest'⟩ hmatch
      obtain ⟨-, m, hm, -⟩ := importPattern_eq_some hmatch
      exact hc (List.cons.inj hm).1
  rw [importOf?, importStatements, hnowhere.occurrences importPattern_consumes]
  rfl

end lines

/-! ## What is written -/

namespace InlineLine

/-- A line of the text while names are being exported: converted once its name is among those
`done`. -/
def shown (done : List Text) (l : InlineLine) : Text :=
  shownAs done l.name.1 l.converted l.source

/-- A line stays one line, whatever is done to it. -/
lemma break_not_mem_shown (done : List Text) (l : InlineLine) : '\n' ∉ l.shown done := by
  have hname : '\n' ∉ l.name.1 := l.name.2.not_mem (by decide)
  have hvalue := l.isValue.break_not_mem
  have hdefinition : '\n' ∉ l.definition := by simp [definition, hname, hvalue]
  have hfront : ∀ {front : Text}, '\n' ∉ front → '\n' ∉ front ++ l.definition := by
    intro front hfront hmem
    rcases List.mem_append.mp hmem with hmem | hmem
    · exact hfront hmem
    · exact hdefinition hmem
  unfold shown shownAs
  split_ifs
  · exact hfront (by decide)
  · unfold source qualifier
    rw [← List.append_assoc]
    split_ifs
    · exact hfront (by decide)
    · exact hfront (by decide)

/-- A line begins with one of two letters, whatever is done to it. -/
lemma exists_cons_shown (done : List Text) (l : InlineLine) :
    ∃ c cs, l.shown done = c :: cs ∧ (c = 'e' ∨ c = 'm') := by
  unfold shown shownAs source qualifier
  split_ifs
  · exact ⟨'e', _, rfl, Or.inl rfl⟩
  · exact ⟨'m', _, rfl, Or.inr rfl⟩
  · exact ⟨'e', _, rfl, Or.inl rfl⟩

/-- The exports and a dot do not stand in a converted line. -/
lemma not_exports_converted {l : InlineLine} {front back : Text} :
    l.converted ≠ front ++ ("exports.".toList ++ back) := by
  intro h
  have hinfix : "exports.".toList <:+: "export".toList
      ++ ' ' :: ("const".toList ++ ' ' :: l.definition) :=
    ⟨front, back, by rw [List.append_assoc, ← h]; rfl⟩
  have hdefinition : "exports.".toList <:+: l.definition := by
    have hlength : ∀ {t : Text}, t.length < 8 → ¬ "exports.".toList <:+: t := by
      intro t ht hsub
      have := hsub.length_le
      simp at this
      omega
    have hrest := (infix_append_cons (by decide) hinfix).resolve_left (hlength (by decide))
    exact (infix_append_cons (by decide) hrest).resolve_left (hlength (by decide))
  obtain ⟨a, b, hab⟩ := hdefinition
  rw [List.append_assoc] at hab
  rcases exists_of_definition (by decide) (by decide) (by decide) (by decide) hab.symm with
    ⟨n, hn, -⟩ | hvalue
  · exact l.name.2.not_mem (c := '.') (by decide) (by rw [hn]; simp)
  · exact l.isValue.not_exports (List.IsInfix.trans ⟨[], ['.'], rfl⟩ hvalue)

end InlineLine

section writing

variable {ended : Bool} {lines : List InlineLine} {done : List Text}

/-- The text while names are being exported. -/
abbrev shownText (ended : Bool) (done : List Text) (lines : List InlineLine) : Text :=
  linesText ended (lines.map (InlineLine.shown done))

/-- **The exports and a dot stand at the beginning of a line that is not done.** -/
lemma exists_line_of_exports {front back : Text}
    (h : shownText ended done lines = front ++ ("exports.".toList ++ back)) :
    ∃ above l below, lines = above ++ l :: below ∧ l.name.1 ∉ done
      ∧ front = linesText true (above.map (InlineLine.shown done)) ++ l.qualifier
      ∧ back = l.definition ++ lineTail ended (below.map (InlineLine.shown done)) := by
  obtain ⟨above', line, below', m, m', hlines, hline, hfront, hback⟩ :=
    exists_line_of_word (by decide) (by decide) h
  obtain ⟨above, rest, rfl, rfl, hrest⟩ := List.map_eq_append_iff.mp hlines
  obtain ⟨l, below, rfl, hl, rfl⟩ := List.map_eq_cons_iff.mp hrest
  rw [← hl] at hline
  unfold InlineLine.shown shownAs at hline
  split_ifs at hline with hdone
  · exact absurd hline InlineLine.not_exports_converted
  · have hword : l.source = m ++ ("exports".toList ++ ('.' :: m')) := hline
    rcases InlineLine.exports_cases hword with ⟨rfl, hm'⟩ | ⟨a, n, hn, -, hm'⟩
    · obtain rfl := (List.cons.inj hm').2
      exact ⟨above, l, below, rfl, hdone, hfront, hback⟩
    · -- behind the word a name goes on or ends, and no dot follows
      cases n with
      | nil => exact absurd (List.cons.inj hm').1 (by decide)
      | cons d n =>
        have hd : isNameChar d = true := l.name.2.forall_isNameChar d (by rw [hn]; simp)
        rw [← (List.cons.inj hm').1] at hd
        exact absurd hd (by decide)

/-- **A statement is found in its own line.** -/
lemma indexOf?_source (ended : Bool) {above below : List InlineLine} {l : InlineLine}
    (hlines : lines = above ++ l :: below) (hnodup : (lines.map (·.name.1)).Nodup)
    (hl : l.name.1 ∉ done) :
    indexOf? l.source (shownText ended done lines) =
      some (linesText true (above.map (InlineLine.shown done))).length := by
  have hshown : l.shown done = l.source := if_neg hl
  have htext : shownText ended done lines = linesText true (above.map (InlineLine.shown done)) ++
      (l.source ++ lineTail ended (below.map (InlineLine.shown done))) := by
    rw [shownText, hlines, List.map_append, List.map_cons, linesText_append_cons, hshown]
  refine indexOf?_of_unique htext ?_
  intro front back hfront
  have hword : shownText ended done lines =
      (front ++ l.qualifier) ++ ("exports.".toList ++ (l.definition ++ back)) := by
    rw [hfront, InlineLine.source]
    simp only [List.append_assoc]
  obtain ⟨above', l', below', hlines', -, hfront', hback⟩ := exists_line_of_exports hword
  -- both definitions begin with a name and a space, so the names are the same
  have hname : l.name.1 = l'.name.1 := by
    simp only [InlineLine.definition, List.append_assoc] at hback
    exact (append_cons_inj_left (l.name.2.not_mem (by decide))
      (l'.name.2.not_mem (by decide)) hback).1
  have hsplit : above ++ l :: below = above' ++ l' :: below' := by rw [← hlines, hlines']
  obtain ⟨rfl, rfl, -⟩ := eq_of_nodup_key (fun l => l.name.1) (by rw [← hlines]; exact hnodup)
    hsplit hname
  exact List.append_cancel_right hfront'

/-- The value of a line is no function. -/
lemma inlineFunction?_value (l : InlineLine) (rest name : Text) :
    inlineFunction? (l.value ++ ';' :: rest) name = none := by
  have hnone : ∀ {word : Text}, ';' ∉ word → ¬ word <+: l.value →
      after? word (l.value ++ ';' :: rest) = none := by
    intro word hword hprefix
    rw [Option.eq_none_iff_forall_ne_some]
    intro tail hafter
    have hsplit : l.value ++ ';' :: rest = [] ++ (word ++ tail) := by
      rw [List.nil_append]
      exact after?_eq_some_iff.mp hafter
    rcases append_cons_eq_append_word hword hsplit with ⟨m, hm, -⟩ | ⟨m, hm, -⟩
    · exact hprefix ⟨m, hm.symm⟩
    · exact absurd hm (by simp)
  have hfunction := hnone (by decide) l.isValue.not_function
  have hasync := hnone (by decide) l.isValue.not_async
  have hhead : functionHead? (l.value ++ ';' :: rest) = none := by
    obtain ⟨c, cs, hv, -, hc⟩ := l.isValue.first
    have hopen : ∀ t, l.value ++ ';' :: rest ≠ '(' :: t := by
      intro t ht
      rw [hv] at ht
      exact hc (List.cons.inj ht).1
    unfold functionHead?
    split
    next wrapped t heq =>
      split at heq
      · next cs' hcons => exact absurd hcons (hopen cs')
      · obtain ⟨-, rfl⟩ := Prod.mk.inj heq
        simp only [spacedWord?, hasync, Option.bind_none, Option.getD_none, hfunction]
  rw [inlineFunction?, hhead, asyncArrow?, wordThenBlanks?, hasync]
  rfl

/-- No line of the text is a declaration or an import. -/
lemma not_bound_shownText (ended : Bool) (done : List Text) (lines : List InlineLine)
    (name : Text) :
    declaration? (shownText ended done lines) name = none
      ∧ importOf? (shownText ended done lines) name = none := by
  have hbreak : ∀ line ∈ lines.map (InlineLine.shown done), '\n' ∉ line := by
    intro line hline
    obtain ⟨l, -, rfl⟩ := List.mem_map.mp hline
    exact l.break_not_mem_shown done
  have hfirst : ∀ {p : Char → Prop}, p 'e' → p 'm' → ∀ line ∈ lines.map (InlineLine.shown done),
      ∃ c cs, line = c :: cs ∧ p c := by
    intro p he hm line hline
    obtain ⟨l, -, rfl⟩ := List.mem_map.mp hline
    obtain ⟨c, cs, hcons, rfl | rfl⟩ := l.exists_cons_shown done
    · exact ⟨_, cs, hcons, he⟩
    · exact ⟨_, cs, hcons, hm⟩
  exact ⟨declaration?_linesText hbreak (hfirst (by decide) (by decide)) name,
    importOf?_linesText hbreak (hfirst (by decide) (by decide)) name⟩

/-- Once its name is done, a line is converted, and the other lines are as before. -/
lemma shownText_cons {above below : List InlineLine} {l : InlineLine}
    (hlines : lines = above ++ l :: below) (hnodup : (lines.map (·.name.1)).Nodup) :
    shownText ended (l.name.1 :: done) lines = linesText true (above.map (InlineLine.shown done)) ++
      (l.converted ++ lineTail ended (below.map (InlineLine.shown done))) := by
  have hshown : lines.map (InlineLine.shown (l.name.1 :: done)) =
      above.map (InlineLine.shown done) ++ l.converted :: below.map (InlineLine.shown done) :=
    map_done_cons (fun l : InlineLine => l.name.1) InlineLine.converted
      InlineLine.source done hlines hnodup
  rw [shownText, hshown, linesText_append_cons]

/-- **Writing an export converts its line** and no other. -/
lemma run_writeInline (ended : Bool) {l : InlineLine} (hmem : l ∈ lines)
    (hnodup : (lines.map (·.name.1)).Nodup) (hl : l.name.1 ∉ done) (start : Nat) :
    (writeInline (shownText ended done lines) (l.entry start)).run =
      ⟨.ok (shownText ended (l.name.1 :: done) lines), []⟩ := by
  obtain ⟨above, below, hlines⟩ := List.append_of_mem hmem
  obtain ⟨hdeclared, himported⟩ := not_bound_shownText ended done lines l.name.1
  have hfound := indexOf?_source ended hlines hnodup hl
  rw [shownText_cons hlines hnodup]
  -- the text around the line
  have htext : shownText ended done lines = linesText true (above.map (InlineLine.shown done)) ++
      (l.source ++ lineTail ended (below.map (InlineLine.shown done))) := by
    rw [shownText, hlines, List.map_append, List.map_cons, linesText_append_cons,
      show l.shown done = l.source from if_neg hl]
  generalize linesText true (above.map (InlineLine.shown done)) = front at hfound htext ⊢
  generalize lineTail ended (below.map (InlineLine.shown done)) = tail at htext ⊢
  have hindent : indentation l.raw = [] := by
    unfold InlineLine.raw InlineLine.qualifier
    split_ifs
    · rfl
    · rfl
  have hfront : (shownText ended done lines).take front.length = front := by
    rw [htext, List.take_left]
  have hvalue : (shownText ended done lines).drop (front.length + l.raw.length) =
      l.value ++ ';' :: tail := by
    rw [htext, l.source_eq_raw, ← List.drop_drop, List.drop_left, List.append_assoc, List.drop_left,
      List.append_assoc]
    rfl
  unfold writeInline
  rw [InlineLine.entry]
  simp only [hfound]
  unfold writeInlineAt
  simp only [hindent, hfront, hvalue, inlineFunction?_value, hdeclared, himported, List.isEmpty_nil,
    Bool.not_true, Bool.false_and, Bool.false_eq_true, if_false]
  have hresult : front ++ [] ++ "export const ".toList ++ l.name.1 ++ " = ".toList
      ++ (l.value ++ ';' :: tail) = front ++ (l.converted ++ tail) := by
    rw [List.append_cons l.value ';' tail]
    unfold InlineLine.converted InlineLine.definition
    simp only [List.append_nil, List.append_assoc]
  rw [hresult]
  rfl

/-- **Writing exports converts their lines**, whatever the order. -/
lemma run_writeEach (ended : Bool) (done : List Text) (hnodup : (lines.map (·.name.1)).Nodup)
    {es : List InlineExport}
    (hes : ∀ e ∈ es, ∃ l ∈ lines, ∃ start, e = l.entry start)
    (hproperties : (es.map (·.property)).Nodup) (hdone : ∀ e ∈ es, e.property ∉ done) :
    (writeEach (shownText ended done lines) es).run =
      ⟨.ok (shownText ended ((es.map (·.property)).reverse ++ done) lines), []⟩ := by
  induction es generalizing done with
  | nil => rfl
  | cons e es ih =>
    obtain ⟨l, hl, start, rfl⟩ := hes e List.mem_cons_self
    rw [List.map_cons, List.nodup_cons] at hproperties
    have hstep := run_writeInline ended hl hnodup (hdone _ List.mem_cons_self) start
    have hrest := ih (l.name.1 :: done) (fun e he => hes e (List.mem_cons_of_mem _ he))
      hproperties.2 (by
        intro e he hmem
        rcases List.mem_cons.mp hmem with heq | hmem
        · exact hproperties.1 (List.mem_map.mpr ⟨e, he, heq⟩)
        · exact hdone e (List.mem_cons_of_mem _ he) hmem)
    rw [writeEach, Revision.run_bind_of_ok hstep, hrest]
    simp [InlineLine.entry]

end writing

/-! ## The whole conversion -/

/-- What is read of lines is one entry for each, with its name. -/
lemma entriesFrom_spec (offset : Nat) (lines : List InlineLine) :
    (entriesFrom offset lines).map (·.property) = lines.map (·.name.1)
      ∧ ∀ e ∈ entriesFrom offset lines, ∃ l ∈ lines, ∃ start, e = l.entry start := by
  induction lines generalizing offset with
  | nil => simp [entriesFrom]
  | cons l ls ih =>
    obtain ⟨hnames, hentries⟩ := ih (offset + l.source.length + 1)
    rw [entriesFrom]
    refine ⟨by rw [List.map_cons, hnames]; rfl, fun e he => ?_⟩
    rcases List.mem_cons.mp he with rfl | he
    · exact ⟨l, List.mem_cons_self, offset, rfl⟩
    · obtain ⟨l', hl', hstart⟩ := hentries e he
      exact ⟨l', List.mem_cons_of_mem _ hl', hstart⟩

/-- At first every line is as it is written. -/
lemma shownText_nil (ended : Bool) (lines : List InlineLine) :
    shownText ended [] lines = sourceText ended lines := by
  have hshown : InlineLine.shown [] = InlineLine.source := by
    funext l
    simp [InlineLine.shown, shownAs]
  rw [shownText, hshown]

/-- In the end every line is converted. -/
lemma shownText_all {done : List Text} {lines : List InlineLine} (ended : Bool)
    (h : ∀ l ∈ lines, l.name.1 ∈ done) :
    shownText ended done lines = linesText ended (lines.map InlineLine.converted) := by
  have hshown : lines.map (InlineLine.shown done) = lines.map InlineLine.converted :=
    List.map_congr_left fun l hl => if_pos (h l hl)
  rw [shownText, hshown]

/-- **Inline exports are converted one for one.** Of lines that set distinct properties of the
exports, each becomes the definition of an exported constant in its place, and no warning is
raised. -/
theorem convert_sourceText (ended : Bool) (lines : List InlineLine)
    (hnodup : (lines.map (·.name.1)).Nodup) (path : Option Text) (config : Config)
    (index : Option DefaultIndex) :
    (convert (linesText ended (lines.map InlineLine.source)) path config index).run =
      ⟨.ok (linesText ended (lines.map InlineLine.converted)), []⟩ := by
  by_cases hempty : lines = []
  · subst hempty
    rfl
  have hread := read_sourceText ended lines config.experimental
  obtain ⟨hnames, hentries⟩ := entriesFrom_spec 0 lines
  have hexports : Exports.isEmpty ⟨{}, entriesFrom 0 lines⟩ = false := by
    obtain ⟨l, ls, rfl⟩ := List.exists_cons_of_ne_nil hempty
    rfl
  -- the exports are written in some order, at the end of which all lines are converted
  have hperm : (longestFirst (entriesFrom 0 lines)).Perm (entriesFrom 0 lines) :=
    List.mergeSort_perm _ _
  have hwritten := run_writeEach ended [] hnodup
    (fun e he => hentries e (hperm.mem_iff.mp he))
    ((hperm.map _).nodup_iff.mpr (hnames ▸ hnodup)) (by simp)
  have hdone : ∀ l ∈ lines, l.name.1 ∈
      ((longestFirst (entriesFrom 0 lines)).map (·.property)).reverse ++ [] := by
    intro l hl
    rw [List.append_nil, List.mem_reverse, (hperm.map _).mem_iff, hnames]
    exact List.mem_map_of_mem hl
  have hunused : ∀ name, Nowhere (exportsUse name)
      (linesText ended (lines.map InlineLine.converted)) := by
    refine nowhere_exportsUse fun front back h => ?_
    rw [← shownText_all ended hdone] at h
    obtain ⟨above, l, below, hlines, hnot, -⟩ := exists_line_of_exports h
    exact hnot (hdone l (by rw [hlines]; simp))
  rw [shownText_nil, shownText_all ended hdone] at hwritten
  rw [run_convert_of_exports (noCall_sourceText ended lines) hread hexports path index]
  unfold Exports.write
  have hglobal : (writeGlobal (sourceText ended lines) {}).run
      = ⟨.ok (sourceText ended lines), []⟩ := rfl
  rw [Revision.run_bind_of_ok hglobal, writeInlines, Revision.run_bind_of_ok hwritten,
    run_replaceUsages fun name _ => hunused name]
  rfl

/-- Two lines: one name begins with the other, and a value has a semicolon in a literal. -/
def prefixedLines : List InlineLine :=
  [⟨false, ⟨"a".toList, 'a', [], rfl, by decide, by decide⟩, "[1, ';']".toList,
      by decide, ⟨_, _, rfl, by decide, by decide⟩, by decide, by decide, by decide, by decide,
      by decide, by decide⟩,
    ⟨true, ⟨"ab".toList, 'a', ['b'], rfl, by decide, by decide⟩, "1".toList,
      by decide, ⟨_, _, rfl, by decide, by decide⟩, by decide, by decide, by decide, by decide,
      by decide, by decide⟩]

example : linesText true (prefixedLines.map InlineLine.source) =
    "exports.a = [1, ';'];\nmodule.exports.ab = 1;\n".toList := by
  decide

/-- Two names, one of which begins with the other, are exported by constants. -/
theorem convert_sourceText_prefixed : (prefixedLines.map (·.name.1)).Nodup ∧
    (convert (linesText true (prefixedLines.map InlineLine.source)) none {} none).run =
      ⟨.ok (linesText true (prefixedLines.map InlineLine.converted)), []⟩ := by
  have hnodup : (prefixedLines.map (·.name.1)).Nodup := by decide
  exact ⟨hnodup, convert_sourceText true prefixedLines hnodup none {} none⟩

end Esmify
