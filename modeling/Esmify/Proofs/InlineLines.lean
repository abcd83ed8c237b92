import Esmify.Proofs.ExportOnly
import Esmify.Proofs.Lines
import Esmify.Proofs.Region

/-!
# Lines that export one value each

A text whose lines all set one property of the exports (`InlineLine`), each to a value that ends
with its line. **Each line is read as one inline export** (`read_sourceText`), from its beginning up
to its semicolon; no line is read as anything else, although a name may hold the words that the
readers look for (`noCall_sourceText`, `findGlobal_sourceText`). -/

namespace Esmify

open Text Source

/-! ## Lines -/

/-- A value that ends with its line: it closes its literals and brackets, has no semicolon outside
of them, is no function, and has neither of the words that the readers look for. -/
structure LineValue (v : Text) : Prop where
  break_not_mem : '\n' ∉ v
  first : ∃ c cs, v = c :: cs ∧ isBlank c = false ∧ c ≠ '('
  not_function : ¬ "function".toList <+: v
  not_async : ¬ "async".toList <+: v
  closed : modeAfter .code v = .code
  contained : Contained (codeText v)
  not_exports : ¬ "exports".toList <:+: v
  not_require : ¬ "require".toList <:+: v

/-- A line that sets one property of the exports. -/
structure InlineLine where
  /-- Whether the exports are named as those of the module. -/
  isQualified : Bool
  name : Name
  value : Text
  isValue : LineValue value

namespace InlineLine

/-- What stands in front of the exports. -/
def qualifier (l : InlineLine) : Text :=
  if l.isQualified then "module.".toList else []

/-- The name, and the value that it gets. -/
def definition (l : InlineLine) : Text :=
  l.name.1 ++ (" = ".toList ++ (l.value ++ [';']))

/-- The line as it is written. -/
def source (l : InlineLine) : Text :=
  l.qualifier ++ ("exports.".toList ++ l.definition)

/-- The line as it is converted. -/
def converted (l : InlineLine) : Text :=
  "export const ".toList ++ l.definition

/-- The line up to its value. -/
def raw (l : InlineLine) : Text :=
  l.qualifier ++ ("exports.".toList ++ (l.name.1 ++ " = ".toList))

/-- A line is the front that is assigned to, the value and a semicolon. -/
lemma source_eq_raw (l : InlineLine) : l.source = l.raw ++ (l.value ++ [';']) := by
  simp only [source, definition, raw, List.append_assoc]

/-! ## Words -/

/-- A word in a definition stands in the name or in the value. -/
lemma exists_of_definition {l : InlineLine} {front w back : Text} (hw : w ≠ []) (hspace : ' ' ∉ w)
    (hsign : '=' ∉ w) (hend : ';' ∉ w) (h : l.definition = front ++ (w ++ back)) :
    (∃ n, l.name.1 = front ++ (w ++ n) ∧ back = n ++ (" = ".toList ++ (l.value ++ [';']))) ∨
      w <:+: l.value := by
  rcases append_cons_eq_append_word hspace h with ⟨n, hname, hback⟩ | ⟨m, -, hrest⟩
  · exact Or.inl ⟨n, hname, hback⟩
  · have hnil : ¬ w <:+: [] := fun hinfix => hw (List.infix_nil.mp hinfix)
    have hinfix : w <:+: [] ++ '=' :: ([] ++ ' ' :: (l.value ++ ';' :: [])) :=
      ⟨m, back, by rw [List.append_assoc]; exact hrest.symm⟩
    have hvalue := (infix_append_cons hsign hinfix).resolve_left hnil
    have hvalue := (infix_append_cons hspace hvalue).resolve_left hnil
    exact Or.inr ((infix_append_cons hend hvalue).resolve_right hnil)

/-- A word in a line stands in front of the dot, in the name or in the value. -/
lemma exists_of_source {l : InlineLine} {front w back : Text} (hw : w ≠ []) (hdot : '.' ∉ w)
    (hspace : ' ' ∉ w) (hsign : '=' ∉ w) (hend : ';' ∉ w) (h : l.source = front ++ (w ++ back)) :
    (∃ m, l.qualifier ++ "exports".toList = front ++ (w ++ m) ∧ back = m ++ '.' :: l.definition) ∨
      (∃ m n, l.name.1 = m ++ (w ++ n) ∧ front = l.qualifier ++ ("exports.".toList ++ m)
        ∧ back = n ++ (" = ".toList ++ (l.value ++ [';']))) ∨ w <:+: l.value := by
  have hsource : l.source = (l.qualifier ++ "exports".toList) ++ '.' :: l.definition := by
    rw [source, List.append_assoc]
    rfl
  rw [hsource] at h
  rcases append_cons_eq_append_word hdot h with hleft | ⟨m, hfront, hrest⟩
  · exact Or.inl hleft
  · rcases exists_of_definition hw hspace hsign hend hrest with ⟨n, hname, hback⟩ | hvalue
    · exact Or.inr (Or.inl ⟨m, n, hname, by rw [hfront, List.append_assoc]; rfl, hback⟩)
    · exact Or.inr (Or.inr hvalue)

/-- Where the word `exports` stands in a line: at its beginning, or in the name. -/
lemma exports_cases {l : InlineLine} {front back : Text}
    (h : l.source = front ++ ("exports".toList ++ back)) :
    (front = l.qualifier ∧ back = '.' :: l.definition) ∨
      ∃ m n, l.name.1 = m ++ ("exports".toList ++ n)
        ∧ front = l.qualifier ++ ("exports.".toList ++ m)
        ∧ back = n ++ (" = ".toList ++ (l.value ++ [';'])) := by
  rcases exists_of_source (by decide) (by decide) (by decide) (by decide) (by decide) h with
    ⟨m, hm, hback⟩ | hname | hvalue
  · left
    have hsole : ∀ {a b : Text}, "exports".toList = a ++ ("exports".toList ++ b) →
        a = [] ∧ b = [] := by
      intro a b heq
      have hlength := congrArg List.length heq
      simp only [List.length_append] at hlength
      exact ⟨List.length_eq_zero_iff.mp (by omega), List.length_eq_zero_iff.mp (by omega)⟩
    unfold qualifier at hm ⊢
    split_ifs at hm ⊢
    · have hdot : "module".toList ++ '.' :: "exports".toList
          = front ++ ("exports".toList ++ m) := hm
      rcases append_cons_eq_append_word (by decide) hdot with ⟨m', hm', -⟩ | ⟨m', rfl, hm'⟩
      · have hlength := congrArg List.length hm'
        simp only [List.length_append] at hlength
        exact absurd hlength (by simp; omega)
      · obtain ⟨rfl, rfl⟩ := hsole hm'
        exact ⟨rfl, hback⟩
    · obtain ⟨rfl, rfl⟩ := hsole hm
      exact ⟨rfl, hback⟩
  · exact Or.inr hname
  · exact absurd hvalue l.isValue.not_exports

/-- Behind the end of a name and white space stands the equals sign, or the name goes on. -/
lemma eq_of_behind_name {n blanks t r : Text} {c : Char} (hn : ∀ d ∈ n, isNameChar d = true)
    (hblanks : ∀ d ∈ blanks, isBlank d = true) (hc : isBlank c = false)
    (h : n ++ ' ' :: '=' :: t = blanks ++ c :: r) : isNameChar c = true ∨ c = '=' := by
  cases n with
  | cons d n =>
    have hd := hn d List.mem_cons_self
    cases blanks with
    | nil => exact Or.inl ((List.cons.inj h).1 ▸ hd)
    | cons b blanks =>
      have hb := isNameChar_of_isBlank (hblanks b List.mem_cons_self)
      rw [← (List.cons.inj h).1, hd] at hb
      exact absurd hb (by decide)
  | nil =>
    cases blanks with
    | nil => exact absurd hc (by rw [← (List.cons.inj h).1]; decide)
    | cons b blanks =>
      have hrest := (List.cons.inj h).2
      cases blanks with
      | nil => exact Or.inr (List.cons.inj hrest).1.symm
      | cons b' blanks =>
        have hb' := hblanks b' (by simp)
        rw [← (List.cons.inj hrest).1] at hb'
        exact absurd hb' (by decide)

end InlineLine

/-! ## What is read -/

section reading

variable {ended : Bool} {lines : List InlineLine}

/-- The lines of a text as they are written. -/
abbrev sourceText (ended : Bool) (lines : List InlineLine) : Text :=
  linesText ended (lines.map InlineLine.source)

/-- The first line, and the others below it. -/
lemma sourceText_cons (ended : Bool) (l : InlineLine) (ls : List InlineLine) :
    sourceText ended (l :: ls) = l.source ++ lineTail ended (ls.map InlineLine.source) :=
  rfl

/-- A word of a text stands in one of its lines. -/
lemma exists_of_sourceText {front w back : Text} (hw : w ≠ []) (hbreak : '\n' ∉ w)
    (h : sourceText ended lines = front ++ (w ++ back)) :
    ∃ above m m' tail, ∃ l ∈ lines, l.source = m ++ (w ++ m') ∧ front = above ++ m
      ∧ back = m' ++ tail := by
  obtain ⟨above, line, below, m, m', hlines, hline, hfront, hback⟩ :=
    exists_line_of_word hw hbreak h
  have hmem : line ∈ lines.map InlineLine.source := by
    rw [hlines]
    simp
  obtain ⟨l, hl, rfl⟩ := List.mem_map.mp hmem
  exact ⟨_, m, m', _, l, hl, hline, hfront, hback⟩

/-- No line calls `require`. -/
lemma noCall_sourceText (ended : Bool) (lines : List InlineLine) :
    NoCall (sourceText ended lines) := by
  intro front blanks back hblanks h
  obtain ⟨above, m, m', tail, l, -, hl, -, hback⟩ := exists_of_sourceText (by decide) (by decide) h
  rcases InlineLine.exists_of_source (by decide) (by decide) (by decide) (by decide)
    (by decide) hl with
    ⟨n, hn, -⟩ | ⟨a, n, hn, -, rfl⟩ | hvalue
  · have hmem : 'q' ∈ l.qualifier ++ "exports".toList := by
      rw [hn]
      simp
    unfold InlineLine.qualifier at hmem
    split_ifs at hmem
    · exact absurd hmem (by decide)
    · exact absurd hmem (by decide)
  · have hname : ∀ d ∈ n, isNameChar d = true := by
      intro d hd
      exact l.name.2.forall_isNameChar d (by rw [hn]; simp [hd])
    rw [List.append_assoc] at hback
    rcases InlineLine.eq_of_behind_name hname hblanks (by decide) hback.symm with hc | hc
    · exact absurd hc (by decide)
    · exact absurd hc (by decide)
  · exact l.isValue.not_require hvalue

/-- Behind the word `exports` stands a dot, or a name and an equals sign. -/
lemma behind_exports {front blanks back : Text} {c : Char}
    (hblanks : ∀ d ∈ blanks, isBlank d = true) (hc : isBlank c = false) (hdot : c ≠ '.')
    (h : sourceText ended lines = front ++ ("exports".toList ++ (blanks ++ c :: back))) :
    (isNameChar c = true ∨ c = '=') ∧ ∃ above m,
      (∀ d ∈ m, isNameChar d = true) ∧ front = above ++ ("exports.".toList ++ m) := by
  obtain ⟨above, m, m', tail, l, -, hl, hfront, hback⟩ :=
    exists_of_sourceText (by decide) (by decide) h
  rcases InlineLine.exports_cases hl with ⟨-, rfl⟩ | ⟨a, n, hn, rfl, rfl⟩
  · cases blanks with
    | nil => exact absurd (List.cons.inj hback).1 hdot
    | cons b blanks =>
      have hb := hblanks b List.mem_cons_self
      rw [(List.cons.inj hback).1] at hb
      exact absurd hb (by decide)
  · have hname : ∀ d ∈ a ++ ("exports".toList ++ n), isNameChar d = true :=
      hn ▸ l.name.2.forall_isNameChar
    rw [List.append_assoc] at hback
    refine ⟨InlineLine.eq_of_behind_name (fun d hd => hname d (by simp [hd])) hblanks hc hback.symm,
      above ++ l.qualifier, a, fun d hd => hname d (by simp [hd]), ?_⟩
    rw [hfront, List.append_assoc]

/-- No line assigns to the exports as a whole. -/
lemma findGlobal_sourceText (ended : Bool) (lines : List InlineLine) (experimental : Bool) :
    findGlobal (sourceText ended lines) experimental = .ok {} := by
  refine findGlobal_eq_empty experimental ?_ ?_
  · rintro front back hsplit ⟨-, indent, blanks, rest, -, hblanks, rfl⟩
    have hword : sourceText ended lines =
        (front ++ (indent ++ "module.".toList))
          ++ ("exports".toList ++ (blanks ++ '=' :: rest)) := by
      rw [hsplit]
      simp
    obtain ⟨-, above, m, hm, hfront⟩ := behind_exports hblanks (by decide) (by decide) hword
    -- what stands in front ends with a dot, and in front of the dot with another letter
    have hmodule : front ++ (indent ++ "module.".toList) =
        (front ++ (indent ++ "modul".toList)) ++ ['e'] ++ ['.'] := by simp
    rcases List.eq_nil_or_concat' m with rfl | ⟨m, d, rfl⟩
    · have hexports : above ++ ("exports.".toList ++ []) =
          (above ++ "export".toList) ++ ['s'] ++ ['.'] := by simp
      rw [hmodule, hexports] at hfront
      have hletter := (List.append_inj' (List.append_inj' hfront rfl).1 rfl).2
      exact absurd hletter (by decide)
    · have hexports : above ++ ("exports.".toList ++ (m ++ [d])) =
          (above ++ ("exports.".toList ++ m)) ++ [d] := by simp
      rw [hmodule, hexports] at hfront
      obtain rfl : '.' = d := (List.cons.inj (List.append_inj' hfront rfl).2).1
      exact absurd (hm '.' (by simp)) (by decide)
  · intro front blanks back hblanks h
    obtain ⟨hc | hc, -⟩ := behind_exports hblanks (by decide) (by decide) h
    · exact absurd hc (by decide)
    · exact absurd hc (by decide)

/-- The beginning of a line is read as an inline export. -/
lemma inlineExport_source (l : InlineLine) {before : Option Char}
    (hbefore : beginsStatement before = true) (rest : Text) :
    inlineExport before (l.source ++ rest) = some (l.name.1, l.value ++ ';' :: rest) := by
  have hindent : skipIndent (l.source ++ rest) = l.source ++ rest := by
    unfold InlineLine.source InlineLine.qualifier
    split_ifs
    · exact List.dropWhile_cons_of_neg (by decide)
    · exact List.dropWhile_cons_of_neg (by decide)
  have hwords : (exportsWord? (l.source ++ rest)).bind (after? ['.']) =
      some (l.name.1 ++ ' ' :: '=' :: ' ' :: (l.value ++ ';' :: rest)) := by
    have hshape : l.source ++ rest = l.qualifier ++ ("exports".toList ++ ('.' ::
        (l.name.1 ++ ' ' :: '=' :: ' ' :: (l.value ++ ';' :: rest)))) := by
      simp [InlineLine.source, InlineLine.definition]
    rw [hshape]
    unfold InlineLine.qualifier
    split_ifs
    · rfl
    · rfl
  have hname : name? (l.name.1 ++ ' ' :: '=' :: ' ' :: (l.value ++ ';' :: rest)) =
      some (l.name.1, ' ' :: '=' :: ' ' :: (l.value ++ ';' :: rest)) := by
    refine name?_eq_some_iff.mpr ⟨l.name.2, rfl, ?_⟩
    rintro c r ⟨⟩
    decide
  have hvalue : skipBlanks (' ' :: (l.value ++ ';' :: rest)) = l.value ++ ';' :: rest := by
    obtain ⟨c, cs, hv, hc, -⟩ := l.isValue.first
    rw [hv]
    exact skipBlanks_append (show ∀ c ∈ [' '], isBlank c = true by decide) _ ▸ skipBlanks_cons hc _
  have hsign : skipBlanks (' ' :: '=' :: ' ' :: (l.value ++ ';' :: rest)) =
      '=' :: ' ' :: (l.value ++ ';' :: rest) := rfl
  have hassign : assignSign? ('=' :: ' ' :: (l.value ++ ';' :: rest)) =
      some (' ' :: (l.value ++ ';' :: rest)) := rfl
  unfold inlineExport
  rw [if_pos hbefore, hindent, hwords, Option.bind_some, hname]
  simp only [hsign, hassign, Option.map_some, hvalue]

/-- No inline export begins behind the beginning of a line. -/
lemma inlineExport_value {before : Option Char} {v : Text} (hv : ¬ "exports".toList <:+: v)
    (rest : Text) : inlineExport before (v ++ ';' :: rest) = none := by
  rw [Option.eq_none_iff_forall_ne_some]
  rintro ⟨name, rest'⟩ hmatch
  obtain ⟨-, -, indent, w, tail, hindent, hw, hsplit, -, -⟩ := inlineExport_eq_some hmatch
  have hnot : ∀ c ∈ indent, c ≠ ';' := by
    rintro c hc rfl
    exact absurd (hindent _ hc) (by decide)
  obtain ⟨front, back, hfront, hword⟩ : ∃ front back, ';' ∉ front
      ∧ v ++ ';' :: rest = front ++ ("exports".toList ++ back) := by
    rcases hw with rfl | rfl
    · exact ⟨indent, '.' :: (name ++ tail), fun hmem => hnot _ hmem rfl, by rw [hsplit]; simp⟩
    · refine ⟨indent ++ "module.".toList, '.' :: (name ++ tail), ?_, by rw [hsplit]; simp⟩
      intro hmem
      rcases List.mem_append.mp hmem with hmem | hmem
      · exact hnot _ hmem rfl
      · exact absurd hmem (by decide)
  rcases append_cons_eq_append_word (by decide) hword with ⟨m, hm, -⟩ | ⟨m, rfl, -⟩
  · exact hv ⟨front, m, by rw [List.append_assoc]; exact hm.symm⟩
  · exact hfront (by simp)

/-- No inline export begins at a line break. -/
lemma inlineExport_break (before : Option Char) (rest : Text) :
    inlineExport before ('\n' :: rest) = none := by
  unfold inlineExport
  split_ifs
  · rfl
  · rfl

/-- The pieces of a text: of each line the part up to the value is a match. -/
def inlinePieces (ended : Bool) : List InlineLine → List (Piece Text)
  | [] => []
  | l :: ls =>
    .found l.raw l.name.1 :: ((l.value ++ [';']).map Piece.plain ++
      if ls.isEmpty && !ended then [] else .plain '\n' :: inlinePieces ended ls)

/-- The pieces are those of the text. -/
lemma joined_inlinePieces (ended : Bool) (lines : List InlineLine) :
    joined (inlinePieces ended lines) = sourceText ended lines := by
  induction lines with
  | nil => rfl
  | cons l ls ih =>
    rw [inlinePieces, joined, joined_map_plain, sourceText_cons, lineTail, l.source_eq_raw,
      List.isEmpty_map]
    split_ifs
    · simp [Piece.text, joined]
    · simp [Piece.text, joined, ih]

/-- **The search finds the beginnings of the lines.** -/
lemma scan_inlinePieces (ended : Bool) (lines : List InlineLine) {before : Option Char}
    (hbefore : beginsStatement before = true) :
    Scan inlineExport before (inlinePieces ended lines) := by
  have hnil := inlineExport_consumes.eq_none_of_nil
  induction lines generalizing before with
  | nil => exact .done (hnil before)
  | cons l ls ih =>
    obtain ⟨c, cs, hraw⟩ : ∃ c cs, l.raw = c :: cs := by
      apply List.exists_cons_of_ne_nil
      simp [InlineLine.raw]
    have htail : ∀ before, Scan inlineExport before
        (if ls.isEmpty && !ended then [] else .plain '\n' :: inlinePieces ended ls) := by
      intro before
      split_ifs
      · exact .done (hnil before)
      · exact .plain (inlineExport_break _ _) (ih rfl)
    rw [inlinePieces, hraw]
    refine .found ?_ (Scan.map_plain ?_ htail)
    · rw [← hraw, joined_map_plain, ← List.append_assoc, ← l.source_eq_raw,
        inlineExport_source l hbefore, List.append_assoc]
      rfl
    · intro before a b hsplit hne
      obtain ⟨v, hv, rfl⟩ : ∃ v, v <:+ l.value ∧ b = v ++ [';'] := by
        rcases List.append_eq_append_iff.mp hsplit with ⟨m, rfl, hm⟩ | ⟨m, hm, rfl⟩
        · cases m with
          | nil => exact ⟨[], List.nil_suffix, hm.symm⟩
          | cons d m =>
            have hlength := congrArg List.length hm
            have hb := List.length_pos_iff.mpr hne
            simp only [List.length_append, List.length_cons, List.length_nil] at hlength
            omega
        · exact ⟨m, ⟨a, hm.symm⟩, rfl⟩
      rw [List.append_assoc]
      exact inlineExport_value (fun hword => l.isValue.not_exports (hword.trans hv.isInfix)) _

/-- What is read of a line that begins at `start`. -/
def InlineLine.entry (l : InlineLine) (start : Nat) : InlineExport :=
  ⟨l.raw, l.source, l.name.1, some start⟩

/-- What is read of lines from `offset` on. -/
def entriesFrom : (offset : Nat) → List InlineLine → List InlineExport
  | _, [] => []
  | offset, l :: ls => l.entry offset :: entriesFrom (offset + l.source.length + 1) ls

/-- Each line is read up to its semicolon. -/
lemma map_inlinePieces {content : Text} (front : Text)
    (hcontent : content = front ++ sourceText ended lines) :
    ((places front.length (inlinePieces ended lines)).map fun m =>
      ({ raw := m.text content
         full := content.slice m.start (statementEnd content m.stop).2
         property := m.value
         start := some m.start } : InlineExport)) = entriesFrom front.length lines := by
  induction lines generalizing front with
  | nil => rfl
  | cons l ls ih =>
    rw [sourceText_cons, l.source_eq_raw] at hcontent
    have hraw : (⟨front.length, front.length + l.raw.length, l.name.1⟩ :
        Occurrence Text).text content = l.raw := by
      have hsplit : content = front ++
          (l.raw ++ (l.value ++ ';' :: lineTail ended (ls.map InlineLine.source))) := by
        rw [hcontent]
        simp
      exact text_of_append hsplit
    have hend : (statementEnd content (front.length + l.raw.length)).2 =
        front.length + l.source.length := by
      have hshape : content = (front ++ l.raw) ++
          (l.value ++ ';' :: lineTail ended (ls.map InlineLine.source)) := by
        rw [hcontent]
        simp
      have hstop := statementEnd_append l.isValue.closed l.isValue.contained l.isValue.break_not_mem
        (front ++ l.raw) (lineTail ended (ls.map InlineLine.source))
      rw [← hshape, List.length_append] at hstop
      rw [hstop, l.source_eq_raw]
      simp only [List.length_append, List.length_singleton]
      omega
    have hfull : content.slice front.length (front.length + l.source.length) = l.source := by
      rw [hcontent, ← l.source_eq_raw]
      exact slice_append front l.source _
    rw [inlinePieces, places, places_map_plain, List.map_cons, entriesFrom, InlineLine.entry]
    dsimp only
    rw [hraw, hend, hfull]
    congr 1
    have hoffset : front.length + l.raw.length + (l.value ++ [';']).length =
        front.length + l.source.length := by
      simp only [l.source_eq_raw, List.length_append, Nat.add_assoc]
    rw [hoffset]
    split_ifs with hlast
    · obtain rfl : ls = [] := List.isEmpty_iff.mp (Bool.and_eq_true_iff.mp hlast).1
      rfl
    · have hbelow : content = (front ++ (l.source ++ ['\n'])) ++ sourceText ended ls := by
        rw [hcontent, ← l.source_eq_raw, lineTail, List.isEmpty_map, if_neg hlast]
        simp
      have hrest := ih _ hbelow
      rw [List.length_append, List.length_append, List.length_singleton, ← Nat.add_assoc] at hrest
      exact hrest

/-- **One inline export is read of each line**, and no global exports. -/
lemma read_sourceText (ended : Bool) (lines : List InlineLine) (experimental : Bool) :
    Exports.read (sourceText ended lines) experimental = ⟨⟨{}, entriesFrom 0 lines⟩, []⟩ := by
  have hinline : InlineExport.readAll (sourceText ended lines) = entriesFrom 0 lines := by
    have hfound : occurrences inlineExport (sourceText ended lines) =
        places 0 (inlinePieces ended lines) := by
      rw [← joined_inlinePieces]
      exact occurrences_eq_places (scan_inlinePieces ended lines rfl)
    rw [InlineExport.readAll, hfound]
    exact map_inlinePieces [] rfl
  unfold Exports.read GlobalExports.read
  rw [findGlobal_sourceText, hinline]
  rfl

end reading

end Esmify
