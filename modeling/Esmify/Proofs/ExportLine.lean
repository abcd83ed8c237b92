import Esmify.Proofs.ExportOnly
import Esmify.Proofs.GlobalMembers
import Esmify.Proofs.KeptPart
import Esmify.Proofs.Lines
import Esmify.Proofs.Region

/-!
# A last line that exports names

A text whose last line assigns an object with some names to the exports of the module
(`exportLine`), below lines that are quiet about the exports (`QuietLine`): the word stands in them
without a dot on either side, if at all. **The names in the last line are read as properties, in
order** (`read_exporting`): a dot in front of the word stands nowhere else (`eq_of_dot_exports`).
Once the names have been promoted in the lines above, the last line goes away and no use is replaced
(`run_write_exporting`). -/

namespace Esmify

open Text Source

/-! ## Names -/

/-- Names with a comma and a space between them. -/
def namesText (names : List Name) : Text :=
  ", ".toList.intercalate (names.map Subtype.val)

/-- What is assigned to the exports, up to the closing brace. -/
def exportedNames (names : List Name) : Text :=
  ' ' :: (namesText names ++ [' '])

/-- The line that exports the given names. -/
def exportLine (names : List Name) : Text :=
  "module.exports = ".toList ++ '\x7b' :: (exportedNames names ++ "\x7d;".toList)

/-- Names stand with a comma and a blank between them. -/
lemma namesText_cons_cons (n n' : Name) (ns : List Name) :
    namesText (n :: n' :: ns) = n.1 ++ ',' :: (' ' :: namesText (n' :: ns)) := by
  simp only [namesText, List.map_cons, List.intercalate_cons_cons, List.append_assoc]
  rfl

/-- A single name stands alone. -/
lemma namesText_singleton (n : Name) : namesText [n] = n.1 := by
  simp [namesText]

/-- Names have no characters but those of names, commas and spaces between them. -/
lemma mem_namesText {names : List Name} {c : Char} (h : c ∈ namesText names) :
    isNameChar c = true ∨ c = ',' ∨ c = ' ' := by
  induction names with
  | nil => exact absurd h (by simp [namesText])
  | cons n ns ih =>
    cases ns with
    | nil =>
      rw [namesText_singleton] at h
      exact Or.inl (n.2.forall_isNameChar c h)
    | cons n' ns =>
      rw [namesText_cons_cons] at h
      rcases List.mem_append.mp h with h | h
      · exact Or.inl (n.2.forall_isNameChar c h)
      · rcases List.mem_cons.mp h with rfl | h
        · exact Or.inr (Or.inl rfl)
        · rcases List.mem_cons.mp h with rfl | h
          · exact Or.inr (Or.inr rfl)
          · exact ih h

/-- What is neither part of a name nor between names is not in an exported object. -/
lemma not_mem_exportedNames {names : List Name} {c : Char} (hname : isNameChar c = false)
    (hcomma : c ≠ ',') (hspace : c ≠ ' ') : c ∉ exportedNames names := by
  intro h
  rcases List.mem_cons.mp h with h | h
  · exact hspace h
  · rcases List.mem_append.mp h with h | h
    · rcases mem_namesText h with h | h | h
      · rw [hname] at h
        exact absurd h (by decide)
      · exact hcomma h
      · exact hspace h
    · exact hspace (List.mem_singleton.mp h)

/-- There are no quotes and no slashes in the exported names. -/
lemma bare_exportedNames (names : List Name) : Bare (exportedNames names) := by
  intro c hc
  refine ⟨?_, ?_⟩
  · rw [← Bool.not_eq_true]
    intro hquote
    simp only [isQuote, Bool.or_eq_true, beq_iff_eq] at hquote
    rcases hquote with (rfl | rfl) | rfl
    all_goals exact not_mem_exportedNames (by decide) (by decide) (by decide) hc
  · rintro rfl
    exact not_mem_exportedNames (by decide) (by decide) (by decide) hc

/-- There are no brackets in the exported names. -/
lemma unbracketed_exportedNames (names : List Name) : Unbracketed (exportedNames names) := by
  intro c hc
  have hnone : ∀ d ∈ "()[]\x7b\x7d".toList, d ∉ exportedNames names := by
    intro d hd
    have hall : ∀ d ∈ "()[]\x7b\x7d".toList, isNameChar d = false ∧ d ≠ ',' ∧ d ≠ ' ' := by decide
    obtain ⟨hname, hcomma, hspace⟩ := hall d hd
    exact not_mem_exportedNames hname hcomma hspace
  have hbrackets : c ∉ "()[]\x7b\x7d".toList := fun hmem => hnone c hmem hc
  simp at hbrackets
  simp [isOpener, closerOf?, isCloser, hbrackets]

/-- There is no parenthesis in the line that exports names. -/
lemma parenthesis_not_mem_exportLine (names : List Name) : '(' ∉ exportLine names := by
  have hnames : '(' ∉ exportedNames names :=
    not_mem_exportedNames (by decide) (by decide) (by decide)
  have hword : '(' ∉ "module.exports = ".toList := by decide
  have hend : '(' ∉ "\x7d;".toList := by decide
  unfold exportLine
  simp only [List.mem_append, List.mem_cons, not_or]
  exact ⟨hword, by decide, hnames, hend⟩

/-- The line that exports names is one line. -/
lemma break_not_mem_exportLine (names : List Name) : '\n' ∉ exportLine names := by
  have hnames : '\n' ∉ exportedNames names :=
    not_mem_exportedNames (by decide) (by decide) (by decide)
  have hword : '\n' ∉ "module.exports = ".toList := by decide
  have hend : '\n' ∉ "\x7d;".toList := by decide
  unfold exportLine
  simp only [List.mem_append, List.mem_cons, not_or]
  exact ⟨hword, by decide, hnames, hend⟩

/-! ## Lines above -/

/-- A line that is not empty and in which no dot stands next to the word `exports`. -/
structure QuietLine (line : Text) : Prop where
  begins : ∃ c rest, line = c :: rest ∧ isBlank c = false
  break_not_mem : '\n' ∉ line
  not_before_dot : ¬ "exports.".toList <:+: line
  not_behind_dot : ¬ ".exports".toList <:+: line

/-- A quiet line is not blank and does not end with a break. -/
lemma QuietLine.solid {line : Text} (h : QuietLine line) : Solid line := by
  obtain ⟨c, rest, rfl, hc⟩ := h.begins
  exact solid_cons hc fun hlast => h.break_not_mem (List.mem_of_getLast? hlast)

/-- The lines, and below them the one that exports names. -/
abbrev exportingText (ended : Bool) (lines : List Text) (names : List Name) : Text :=
  linesText ended (lines ++ [exportLine names])

section text

variable {ended : Bool} {lines : List Text} {names : List Name}

/-- The line that exports names stands behind the other lines. -/
lemma exportingText_eq (ended : Bool) (lines : List Text) (names : List Name) :
    exportingText ended lines names =
      linesText true lines ++ (exportLine names ++ lineTail ended []) :=
  linesText_append_cons ended lines (exportLine names) []

/-- A line of the text is the last one or one of those above. -/
lemma line_cases {above below : List Text} {line last : Text}
    (h : lines ++ [last] = above ++ line :: below) :
    (above = lines ∧ line = last ∧ below = []) ∨ ∃ below', lines = above ++ line :: below' := by
  rcases List.eq_nil_or_concat' below with rfl | ⟨below, last', rfl⟩
  · obtain ⟨habove, hline⟩ := List.append_inj' h rfl
    exact Or.inl ⟨habove.symm, (List.cons.inj hline).1.symm, rfl⟩
  · have hsplit : lines ++ [last] = (above ++ line :: below) ++ [last'] := by
      rw [h]
      simp
    exact Or.inr ⟨below, (List.append_inj' hsplit rfl).1⟩

/-- **The word `exports` stands behind a dot only in the last line.** -/
lemma eq_of_dot_exports (hlines : ∀ line ∈ lines, QuietLine line) {front back : Text}
    (h : exportingText ended lines names = front ++ (".exports".toList ++ back)) :
    front = linesText true lines ++ "module".toList := by
  obtain ⟨above, line, below, m, m', hsplit, hline, hfront, -⟩ :=
    exists_line_of_word (by decide) (by decide) h
  rcases line_cases hsplit with ⟨rfl, rfl, -⟩ | ⟨below', rfl⟩
  · -- the only dot of the last line
    have hdot : '.' ∉ "exports = ".toList ++ '\x7b' :: (exportedNames names ++ "\x7d;".toList) := by
      have hnames : '.' ∉ exportedNames names :=
        not_mem_exportedNames (by decide) (by decide) (by decide)
      simp [hnames]
    have hcut : "module".toList ++ '.' :: ("exports = ".toList ++ '\x7b' :: (exportedNames names
        ++ "\x7d;".toList)) = m ++ '.' :: ("exports".toList ++ m') := hline
    obtain ⟨a, rfl, ha⟩ := append_eq_append_cons_of_not_mem (by decide) hcut
    cases a with
    | nil => rw [hfront, List.append_nil]
    | cons c a =>
      refine absurd ?_ hdot
      rw [(List.cons.inj ha).2]
      simp
  · exact absurd ⟨m, m', by rw [hline, List.append_assoc]⟩
      (hlines line (by simp)).not_behind_dot

/-- No dot follows the exports. -/
lemma ne_exports_dot (hlines : ∀ line ∈ lines, QuietLine line) (front back : Text) :
    exportingText ended lines names ≠ front ++ ("exports.".toList ++ back) := by
  intro h
  obtain ⟨above, line, below, m, m', hsplit, hline, -, -⟩ :=
    exists_line_of_word (by decide) (by decide) h
  rcases line_cases hsplit with ⟨-, rfl, -⟩ | ⟨below', rfl⟩
  · have hrest : '.' ∉ ' ' :: '=' :: ' ' :: '\x7b' :: (exportedNames names ++ "\x7d;".toList) := by
      have hnames : '.' ∉ exportedNames names :=
        not_mem_exportedNames (by decide) (by decide) (by decide)
      simp [hnames]
    have hcut : "module".toList ++ '.' :: ("exports".toList ++ ' ' :: '=' :: ' ' :: '\x7b' ::
        (exportedNames names ++ "\x7d;".toList)) = (m ++ "exports".toList) ++ '.' :: m' := by
      rw [List.append_assoc]
      exact hline
    obtain ⟨a, ha, ha'⟩ := append_eq_append_cons_of_not_mem (by decide) hcut
    cases a with
    | nil =>
      have hlast := congrArg List.getLast? ha
      simp at hlast
    | cons c a =>
      refine absurd ?_ hrest
      obtain ⟨a', -, hmem⟩ := append_eq_append_cons_of_not_mem (by decide) (List.cons.inj ha').2
      rw [hmem]
      simp
  · exact absurd ⟨m, m', by rw [hline, List.append_assoc]⟩
      (hlines line (by simp)).not_before_dot

/-! ## What is read -/

/-- The last line is found as the assignment of an object. -/
lemma objectAssignment_exportLine {before : Option Char} (hbefore : beginsStatement before = true)
    (names : List Name) (rest : Text) :
    objectAssignment before (exportLine names ++ rest) =
      some ('\x7b' :: (exportedNames names ++ '\x7d' :: ';' :: rest),
        exportedNames names ++ '\x7d' :: ';' :: rest) := by
  have hshape : exportLine names ++ rest = "module.exports = ".toList ++
      '\x7b' :: (exportedNames names ++ '\x7d' :: ';' :: rest) := by
    unfold exportLine
    simp
  rw [hshape, objectAssignment, if_pos hbefore]
  rfl

/-- **The assignment of an object is found in the last line.** -/
lemma first?_objectAssignment (ended : Bool) (hlines : ∀ line ∈ lines, QuietLine line) :
    ∃ m, first? objectAssignment (exportingText ended lines names) = some m
      ∧ m.start = (linesText true lines).length
      ∧ m.value = '\x7b' :: (exportedNames names ++ '\x7d' :: ';' :: lineTail ended []) := by
  have hbegins : beginsLine (linesText true lines).getLast? = true := beginsLine_linesText _
  have hbefore : beginsStatement (linesText true lines).getLast? = true := by
    cases hlast : (linesText true lines).getLast? with
    | none => rfl
    | some c =>
      rw [hlast] at hbegins
      simp only [beginsStatement, show (c == '\n') = true from hbegins, Bool.true_or]
  have htext := exportingText_eq ended lines names
  have hsome : holdsSomewhere objectAssignment (exportingText ended lines names) = true := by
    refine holdsSomewhere_iff.mpr ⟨_, _, htext, ?_⟩
    rw [objectAssignment_exportLine hbefore]
    rfl
  obtain ⟨m, hm⟩ := Option.isSome_iff_exists.mp hsome
  refine ⟨m, hm, ?_⟩
  obtain ⟨front, back, rest, hsplit, hstart, hmatch⟩ := first?_eq_some hm
  obtain ⟨-, indent, blanks, tail, hindent, -, hback⟩ := assignsModule_of_object hmatch
  have hword : exportingText ended lines names =
      (front ++ (indent ++ "module".toList)) ++ (".exports".toList ++ (blanks ++ '=' :: tail)) := by
    rw [hsplit, hback]
    simp
  have hfront := eq_of_dot_exports hlines hword
  rw [← List.append_assoc] at hfront
  have hfront := List.append_cancel_right hfront
  -- no indentation stands behind a line break
  obtain rfl : indent = [] := by
    rcases List.eq_nil_or_concat' indent with rfl | ⟨indent, c, rfl⟩
    · rfl
    · have hc := hindent c (by simp)
      rw [← hfront, ← List.append_assoc, List.getLast?_concat] at hbegins
      rw [beq_iff_eq.mp hbegins] at hc
      exact absurd hc (by decide)
  rw [List.append_nil] at hfront
  rw [hsplit, hfront] at htext
  rw [hfront, List.append_cancel_left htext, objectAssignment_exportLine hbefore] at hmatch
  exact ⟨by rw [hstart, hfront], (Prod.mk.inj (Option.some.inj hmatch)).1.symm⟩

/-- A name is read as a property, whatever white space stands around it. -/
lemma addMembers_name (e : GlobalExports) (n : Name) (front back : Text) (rest : List Text)
    (hfront : ∀ c ∈ front, isBlank c = true) (hback : ∀ c ∈ back, isBlank c = true) :
    addMembers e ((front ++ (n.1 ++ back)) :: rest) =
      addMembers { e with properties := e.properties ++ [n.1] } rest := by
  obtain ⟨c, cs, hcons, hc⟩ := n.2.firm.first
  have hblank : isBlankText (front ++ (n.1 ++ back)) = false := by
    rw [isBlankText, List.all_eq_false]
    exact ⟨c, by simp [hcons], by simp [hc]⟩
  rw [addMembers, hblank, n.2.firm.trim_append front back hfront hback, Member.parse_name]
  rfl

/-- Names are read as properties, in order. -/
lemma addMembers_names (e : GlobalExports) (first : Name) (others : List Name) :
    addMembers e (splitTopLevel (exportedNames (first :: others)) ',') =
      .ok { e with properties := e.properties ++ (first :: others).map Subtype.val } := by
  have hpart : ∀ {n : Name} {c : Char}, c ∈ ' ' :: n.1 → c ∈ exportedNames [n] := by
    intro n c hc
    rw [exportedNames, namesText_singleton]
    rcases List.mem_cons.mp hc with rfl | hc
    · exact List.mem_cons_self
    · exact List.mem_cons_of_mem _ (List.mem_append_left _ hc)
  have hcomma : ∀ n : Name, ',' ∉ exportedNames [n] := by
    intro n hmem
    have hname : ',' ∉ n.1 := n.2.not_mem (by decide)
    rw [exportedNames, namesText_singleton] at hmem
    exact absurd hmem (by simp [hname])
  induction others generalizing e first with
  | nil =>
    rw [splitTopLevel_of_not_mem (bare_exportedNames [first]) (unbracketed_exportedNames [first])
      (hcomma first), exportedNames, namesText_singleton]
    exact addMembers_name e first [' '] [' '] [] (by decide) (by decide)
  | cons second others ih =>
    have hsplit : exportedNames (first :: second :: others) =
        (' ' :: first.1) ++ ',' :: exportedNames (second :: others) := by
      simp only [exportedNames, namesText_cons_cons, List.append_assoc, List.cons_append]
    rw [hsplit, splitTopLevel_append_cons (fun c hc => bare_exportedNames [first] c (hpart hc))
      (fun c hc => unbracketed_exportedNames [first] c (hpart hc))
      (fun hmem => hcomma first (hpart hmem))]
    have hname := addMembers_name e first [' '] []
      (splitTopLevel (exportedNames (second :: others)) ',') (by decide) (by decide)
    rw [List.append_nil] at hname
    refine hname.trans ?_
    rw [ih]
    simp

/-- What is assigned to the exports is read as an object of names. -/
lemma readLiteral_names (hne : names ≠ []) (snippet : Text) (experimental : Bool) :
    readLiteral (exportedNames names) snippet experimental =
      .ok { properties := names.map Subtype.val } := by
  have hcode : ∀ chars : Text, (∀ c ∈ chars, c ∉ exportedNames names) →
      hasCodeChar (exportedNames names) chars = false := by
    intro chars hchars
    rw [hasCodeChar, List.any_eq_false]
    intro p hp hmem
    rw [List.contains_eq_mem, decide_eq_true_iff] at hmem
    have hcode : p ∈ codeChars .code 0 (exportedNames names) := hp
    exact hchars p.2 hmem (mem_of_mem_codeChars (List.mem_map_of_mem hcode))
  have hnot : ∀ chars : Text, (∀ c ∈ chars, isNameChar c = false ∧ c ≠ ',' ∧ c ≠ ' ') →
      hasCodeChar (exportedNames names) chars = false :=
    fun chars hall => hcode chars fun c hc =>
      not_mem_exportedNames (hall c hc).1 (hall c hc).2.1 (hall c hc).2.2
  have htrouble : literalTrouble? (exportedNames names) = none := by
    rw [literalTrouble?, hnot _ (by decide), hnot _ (by decide), hnot _ (by decide)]
    rfl
  obtain ⟨first, others, rfl⟩ := List.exists_cons_of_ne_nil hne
  rw [readLiteral, stripComments_bare (bare_exportedNames _), htrouble, addMembers_names]
  rfl

/-- What is left to read behind the closing brace of the last line. -/
lemma statementTail?_lineTail (ended : Bool) :
    statementTail? (';' :: lineTail ended []) = some [] := by
  cases ended <;> rfl

/-- The object that is assigned is read up to the end of the text. -/
lemma readObject_exporting {m : Occurrence Text} (hne : names ≠ [])
    (hstart : m.start = (linesText true lines).length)
    (hvalue : m.value = '\x7b' :: (exportedNames names ++ '\x7d' :: ';' :: lineTail ended []))
    (experimental : Bool) :
    readObject (exportingText ended lines names) m experimental =
      .ok { raw := some (exportLine names ++ lineTail ended [])
            properties := names.map Subtype.val
            start := some (linesText true lines).length } := by
  have htext : exportingText ended lines names =
      (linesText true lines ++ "module.exports = ".toList) ++ m.value := by
    rw [exportingText_eq, hvalue]
    unfold exportLine
    simp
  have hopened : (exportingText ended lines names).length - m.value.length =
      (linesText true lines ++ "module.exports = ".toList).length := by
    rw [htext, List.length_append]
    omega
  have hraw : (exportingText ended lines names).slice (linesText true lines).length
      ((exportingText ended lines names).length - ([] : Text).length) =
        exportLine names ++ lineTail ended [] := by
    rw [exportingText_eq, List.length_nil, Nat.sub_zero, slice_length, List.drop_left]
  generalize linesText true lines ++ "module.exports = ".toList = front at htext hopened
  generalize exportingText ended lines names = content at htext hopened hraw ⊢
  rw [hvalue] at htext
  have hclosing : closing? content front.length =
      some (front.length + 1 + (exportedNames names).length) := by
    rw [htext]
    exact closing?_braces (bare_exportedNames _) (unbracketed_exportedNames _) front _
  have hbehind : content.drop (front.length + 1 + (exportedNames names).length + 1) =
      ';' :: lineTail ended [] := by
    have hshape : content = (front ++ '\x7b' :: (exportedNames names ++ ['\x7d'])) ++
        ';' :: lineTail ended [] := by
      rw [htext]
      simp
    rw [hshape]
    refine List.drop_left' ?_
    simp only [List.length_append, List.length_cons, List.length_nil]
    omega
  have hinner : content.slice (front.length + 1)
      (front.length + 1 + (exportedNames names).length) = exportedNames names := by
    have hslice := slice_append (front ++ ['\x7b']) (exportedNames names)
      ('\x7d' :: ';' :: lineTail ended [])
    rw [List.length_append, List.length_singleton] at hslice
    rw [htext, List.append_cons]
    exact hslice
  unfold readObject closedStatement
  simp only [hopened, hclosing, hbehind, statementTail?_lineTail, hstart, hraw, hinner,
    readLiteral_names hne]

/-- **The names of the last line are read as properties, in order**, and nothing else is read. -/
lemma read_exporting (ended : Bool) (hne : names ≠ []) (hlines : ∀ line ∈ lines, QuietLine line)
    (experimental : Bool) :
    Exports.read (exportingText ended lines names) experimental =
      ⟨⟨{ raw := some (exportLine names ++ lineTail ended [])
          properties := names.map Subtype.val
          start := some (linesText true lines).length }, []⟩, []⟩ := by
  obtain ⟨m, hfirst, hstart, hvalue⟩ := first?_objectAssignment ended hlines
  have hglobal := readObject_exporting hne hstart hvalue experimental
  unfold Exports.read GlobalExports.read findGlobal
  rw [hfirst, readAll_eq_nil_of_exports (ne_exports_dot hlines)]
  simp only [hglobal]
  rfl

/-! ## What is written -/

/-- Nothing is left of what was dropped behind a line that ends. -/
lemma closeGap_line {u : Text} (hu : Solid u) (front : Text) :
    closeGap (front ++ (u ++ ['\n'])) [] = front ++ (u ++ ['\n']) := by
  have hdrop : dropEndBreaks (front ++ (u ++ ['\n'])) = front ++ u := by
    rw [hu.dropEndBreaks]
    show front ++ (u ++ []) = front ++ u
    rw [List.append_nil]
  have hblank : isBlankText (front ++ u) = false := by
    rw [isBlankText_append, hu.notBlank, Bool.and_false]
  have hempty : (front ++ (u ++ ['\n'])).isEmpty = false := by simp
  rw [closeGap, hdrop, hempty]
  simp only [Bool.false_eq_true, if_false, hblank]
  simp [isBlankText]

/-- The last line is found where it stands. -/
lemma indexOf?_exportLine (ended : Bool) (names : List Name)
    (hlines : ∀ line ∈ lines, QuietLine line) :
    indexOf? (exportLine names ++ lineTail ended []) (exportingText ended lines names) =
      some (linesText true lines).length := by
  have htext : exportingText ended lines names =
      linesText true lines ++ ((exportLine names ++ lineTail ended []) ++ []) := by
    rw [exportingText_eq, List.append_nil]
  refine indexOf?_of_unique htext fun front back hfront => ?_
  have hword : exportingText ended lines names = (front ++ "module".toList) ++
      (".exports".toList ++ (" = ".toList ++ '\x7b' :: (exportedNames names ++ "\x7d;".toList)
        ++ lineTail ended [] ++ back)) := by
    rw [hfront]
    unfold exportLine
    simp only [List.append_assoc]
    rfl
  exact List.append_cancel_right (eq_of_dot_exports hlines hword)

/-- **Dropping the last line** leaves the lines above. -/
lemma dropBlock_exporting (ended : Bool) (names : List Name)
    (hlines : ∀ line ∈ lines, QuietLine line) :
    dropBlock (exportingText ended lines names) (exportLine names ++ lineTail ended []) =
      .ok (linesText true lines) := by
  have hgap : closeGap (linesText true lines) [] = linesText true lines := by
    rcases List.eq_nil_or_concat' lines with rfl | ⟨above, line, rfl⟩
    · rfl
    · have hlast : linesText true (above ++ [line]) = linesText true above ++ (line ++ ['\n']) := by
        rw [linesText_append_cons]
        rfl
      rw [hlast]
      exact closeGap_line (hlines line (by simp)).solid _
  rw [dropBlock, indexOf?_exportLine ended names hlines]
  dsimp only
  rw [exportingText_eq, List.take_left, List.drop_eq_nil_of_le (by simp), hgap]

/-- A name is a property that keeps its name. -/
lemma renamedFrom?_name (n : Name) : renamedFrom? n.1 = none := by
  rw [renamedFrom?, partition_of_not_mem (n.2.not_mem (by decide))]

/-- **Writing an object of names** promotes them in the lines above and drops the object. -/
lemma run_writeMembers_exporting {lines' : List Text} (hlines' : ∀ line ∈ lines', QuietLine line)
    (hpromoted : (promoteProperties (exportingText ended lines names)
      (exportLine names ++ lineTail ended []) (names.map Subtype.val)).run
      = ⟨.ok (exportingText ended lines' names), []⟩)
    {e : GlobalExports} (hproperties : e.properties = names.map Subtype.val)
    (hkeySets : e.keySets = []) (hassignments : e.assignments = []) :
    (writeMembers (exportingText ended lines names) (exportLine names ++ lineTail ended []) e).run =
      ⟨.ok (linesText true lines'), []⟩ := by
  have hname : ∀ p ∈ e.properties, renamedFrom? p = none := by
    intro p hp
    rw [hproperties] at hp
    obtain ⟨n, -, rfl⟩ := List.mem_map.mp hp
    exact renamedFrom?_name n
  have hrenamed : renamedAssignments e.properties = [] := by
    rw [renamedAssignments, List.filterMap_eq_nil_iff]
    intro p hp
    rw [hname p hp]
    rfl
  have hkept : e.properties.filter (fun p => (renamedFrom? p).isNone) = names.map Subtype.val := by
    rw [← hproperties, List.filter_eq_self]
    intro p hp
    rw [hname p hp]
    rfl
  have hinserted : ∀ raw t : Text, (Revision.ofExcept (insertAssignments raw t [])).run
      = ⟨.ok t, []⟩ :=
    fun _ _ => rfl
  have hsets : ∀ raw t : Text, (Revision.ofReported (promoteKeySets raw t [])).run = ⟨.ok t, []⟩ :=
    fun _ _ => rfl
  unfold writeMembers
  rw [hrenamed, hkept, hkeySets, hassignments, Revision.run_bind_of_ok (hinserted _ _),
    Revision.run_bind_of_ok hpromoted, Revision.run_bind_of_ok (hsets _ _),
    Revision.run_bind_of_ok (hinserted _ _), dropBlock_exporting ended names hlines']
  rfl

/-- No name is used through the exports in quiet lines. -/
lemma nowhere_exportsUse_lines (hlines : ∀ line ∈ lines, QuietLine line) (name : Text) :
    Nowhere (exportsUse name) (linesText true lines) := by
  refine nowhere_exportsUse (fun front back h => ?_) name
  obtain ⟨above, line, below, m, m', hsplit, hline, -⟩ :=
    exists_line_of_word (by decide) (by decide) h
  refine (hlines line (by rw [hsplit]; simp)).not_before_dot ⟨m, m', ?_⟩
  rw [hline, List.append_assoc]

/-- **Writing what was read of the last line** leaves the lines above with the names promoted in
them, and no warning. -/
lemma run_write_exporting {lines' : List Text} (hlines' : ∀ line ∈ lines', QuietLine line)
    (hpromoted : (promoteProperties (exportingText ended lines names)
      (exportLine names ++ lineTail ended []) (names.map Subtype.val)).run =
        ⟨.ok (exportingText ended lines' names), []⟩) (start : Option Nat) :
    (Exports.write (exportingText ended lines names)
      ⟨{ raw := some (exportLine names ++ lineTail ended [])
         properties := names.map Subtype.val
         start := start }, []⟩).run = ⟨.ok (linesText true lines'), []⟩ := by
  have hraw : exportLine names ++ lineTail ended [] ≠ [] := by
    unfold exportLine
    exact List.cons_ne_nil _ _
  have hoccurs : occursIn (exportLine names ++ lineTail ended [])
      (exportingText ended lines names) = true := by
    have hsome := isSome_indexOf? (linesText true lines) (exportLine names ++ lineTail ended []) []
    rwa [List.append_nil, ← exportingText_eq] at hsome
  have hglobal := run_writeMembers_exporting hlines' hpromoted
    (e := { raw := some (exportLine names ++ lineTail ended [])
            properties := names.map Subtype.val
            start := start }) rfl rfl rfl
  rw [← run_writeGlobal_of_members hraw rfl rfl hoccurs] at hglobal
  have hinlines : ∀ t : Text, (writeInlines t []).run = ⟨.ok t, []⟩ := by
    intro t
    rw [writeInlines, longestFirst, List.mergeSort_nil]
    rfl
  unfold Exports.write
  rw [Revision.run_bind_of_ok hglobal, Revision.run_bind_of_ok (hinlines _),
    run_replaceUsages fun name _ => nowhere_exportsUse_lines hlines' name]
  rfl

end text

end Esmify
