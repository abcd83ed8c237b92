import Esmify.Proofs.ExportLine
import Esmify.Proofs.ImportAgreement
import Esmify.Proofs.RequireProgram
import Esmify.Proofs.WholeReexport

/-!
# Modules that only re-export

A text of lines that each take some exports of a module under local names (`RequiredLine`), and a
last line that exports these names in any order. **It becomes one re-export per line**
(`convert_reexports`): the import pass puts an import in the place of each line, and as every name
is exported and none is used, the export pass turns the first word of each import.

The text goes through three stages that differ only in the lines above the last one (`text`,
`imported`, `exported`). Edits that replace the front of each line lead from one stage to the next
(`weave_lineEdits`), and in the second stage the import statements are read back line by line
(`importStatements_lines`). -/

namespace Esmify

open Text Source Requirement

/-! ## Edits of lines -/

section lineEdits

variable {α : Type} (old new rest : α → Text)

/-- The edits that replace the front `old` of each line by `new`, for lines from `offset` on. -/
def lineEdits : (offset : Nat) → List α → List Edit
  | _, [] => []
  | offset, a :: as =>
    ⟨offset, offset + (old a).length, new a⟩ :: lineEdits (offset + (old a ++ rest a).length + 1) as

/-- Replacing the front of each line, behind a part `middle` that stays. -/
lemma weave_lineEdits_append (items : List α) (front middle tail : Text) {content : Text}
    (h : content = front
      ++ (middle ++ (linesText true (items.map fun a => old a ++ rest a) ++ tail))) :
    weave content front.length (lineEdits old new rest (front.length + middle.length) items) =
      middle ++ (linesText true (items.map fun a => new a ++ rest a) ++ tail) := by
  induction items generalizing front middle with
  | nil =>
    rw [lineEdits, weave, h, List.drop_left]
    rfl
  | cons a items ih =>
    have hslice : content.slice front.length (front.length + middle.length) = middle := by
      rw [h, slice_append]
    have hbelow : content = (front ++ (middle ++ old a)) ++ ((rest a ++ ['\n']) ++
        (linesText true (items.map fun a => old a ++ rest a) ++ tail)) := by
      rw [h, List.map_cons, linesText_cons]
      simp [lineTail]
    have hrest := ih _ _ hbelow
    have hoffset : (front ++ (middle ++ old a)).length + (rest a ++ ['\n']).length =
        front.length + middle.length + (old a ++ rest a).length + 1 := by
      simp only [List.length_append, List.length_singleton]
      omega
    have hstop : (front ++ (middle ++ old a)).length =
        front.length + middle.length + (old a).length := by
      simp only [List.length_append]
      omega
    rw [hoffset, hstop] at hrest
    rw [lineEdits, weave, place_natCast, hslice, List.map_cons, linesText_cons]
    have hplace : content.place ((front.length + middle.length : Nat) + (old a).length : Int) =
        front.length + middle.length + (old a).length := place_natCast content _
    rw [hplace, hrest]
    simp [lineTail]

/-- **Replacing the front of each line** leaves the rest of the lines and what follows them. -/
lemma weave_lineEdits (items : List α) (tail : Text) :
    weave (linesText true (items.map fun a => old a ++ rest a) ++ tail) 0
        (lineEdits old new rest 0 items) =
      linesText true (items.map fun a => new a ++ rest a) ++ tail :=
  weave_lineEdits_append old new rest items [] [] tail rfl

end lineEdits

/-! ## Lines that require -/

/-- The name that a member of a brace group binds. -/
def Requirement.GroupMember.bound (m : GroupMember) : Name :=
  m.localName.getD m.key

/-- A line that takes some exports of a module under local names. -/
structure RequiredLine where
  first : GroupMember
  others : List GroupMember
  asked : QuotedModule
  ne_extension : asked.target ≠ ".js".toList
  not_exports : ¬ "exports".toList <:+: asked.target

namespace RequiredLine

/-- The members that the line takes from the module. -/
def members (l : RequiredLine) : List GroupMember :=
  l.first :: l.others

/-- The local names of the line. -/
def locals (l : RequiredLine) : List Name :=
  l.members.map GroupMember.bound

/-- The line as it is written. -/
def text (l : RequiredLine) : Text :=
  clauseLine "const ".toList (.group l.first l.others) l.asked .semicolon

/-- What the line requires. -/
def requirement (l : RequiredLine) : Requirement :=
  { target := l.asked.target
    raw := l.text
    quote := [l.asked.quote]
    bindings := l.members.map GroupMember.binding }

/-- The import statement of the line. -/
def imported (l : RequiredLine) : Text :=
  importOf {} none l.requirement

/-- The import statement with the word `export` in the place of `import`. -/
def exported (l : RequiredLine) : Text :=
  "export".toList ++ l.imported.drop "import".length

end RequiredLine

/-! ## The import pass -/

namespace RequiredLine

/-- The line as a call. -/
def call (l : RequiredLine) : Call :=
  .ofClause "const ".toList (.group l.first l.others) l.asked .semicolon false

/-- Lines that are required one below the other are linked. -/
lemma linked (ls : List RequiredLine) : Linked false (ls.map call) false := by
  induction ls with
  | nil => exact .nil
  | cons l ls ih =>
    exact .cons (reads_declared ⟨"const".toList, by decide⟩ (.group l.first l.others) l.asked
      (e := .semicolon) rfl) ih

/-- A member of a group names an export. -/
lemma namesExport_binding (m : GroupMember) : NamesExport m.binding := by
  refine ⟨m.key.2, fun name hname => ?_⟩
  obtain ⟨hsome, -⟩ := Option.mem_filter_iff.mp hname
  obtain ⟨n, -, rfl⟩ := Option.map_eq_some_iff.mp hsome
  exact n.2

/-- The import of a line can be read back. -/
lemma nameable (l : RequiredLine) : Nameable l.requirement := by
  refine .exports (List.cons_ne_nil _ _) ?_ (by simp [requirement])
  intro b hb
  obtain ⟨m, -, rfl⟩ := List.mem_map.mp hb
  exact namesExport_binding m

/-- A group of names does not stand for the whole module. -/
lemma isWholeModule_requirement (l : RequiredLine) : l.requirement.isWholeModule = false := by
  unfold Requirement.isWholeModule
  split
  · next b hb =>
    have hmem : b ∈ l.members.map GroupMember.binding := by
      rw [show l.members.map GroupMember.binding = [b] from hb]
      exact List.mem_singleton_self b
    obtain ⟨m, -, rfl⟩ := List.mem_map.mp hmem
    exact beq_false_of_ne (namesExport_binding m).key_ne
  · rfl

/-- The import of a line does not depend on where the line stands. -/
lemma importOf_call (l : RequiredLine) (content : Text) (start : Nat) (index : Option DefaultIndex)
    (path : Option Text) :
    importOf {} (knownDefault index path (l.call.requirement content start))
      (l.call.requirement content start) = l.imported := by
  have hwhole : (l.call.requirement content start).isWholeModule = false :=
    l.isWholeModule_requirement
  have hnone : knownDefault index path (l.call.requirement content start) = none := by
    unfold knownDefault
    split
    · rw [hwhole]
      rfl
    · rfl
  have hdefault : (l.call.requirement content start).hasDefault = false := Bool.and_false _
  rw [hnone]
  unfold imported importOf
  rw [hdefault, hwhole, isWholeModule_requirement]
  rfl

/-- The edits of the import pass replace the lines. -/
lemma importEdits_lines (content : Text) (index : Option DefaultIndex) (path : Option Text)
    (offset : Nat) (ls : List RequiredLine) :
    (requirementsFrom content offset (ls.map call)).map (importEdit {} (knownDefault index path)) =
      lineEdits text imported (fun _ => []) offset ls := by
  induction ls generalizing offset with
  | nil => rfl
  | cons l ls ih =>
    rw [List.map_cons, requirementsFrom, List.map_cons, lineEdits, List.append_nil, ih]
    rw [importEdit, importOf_call]
    rfl

/-- Required lines are not nested, so nothing is reported of them. -/
lemma nestedWarnings_lines (content : Text) (offset : Nat) (ls : List RequiredLine) :
    nestedWarnings (requirementsFrom content offset (ls.map call)) = [] := by
  induction ls generalizing offset with
  | nil => rfl
  | cons l ls ih =>
    have hnested : isNested (l.call.requirement content offset) = false := rfl
    unfold nestedWarnings at ih ⊢
    rw [List.map_cons, requirementsFrom, List.filter_cons_of_neg (by simp [hnested]), ih]

/-- **The import pass puts an import in the place of each line.** -/
lemma run_convertImports (ls : List RequiredLine) {below : Text} (hbelow : '(' ∉ below)
    (path : Option Text) (index : Option DefaultIndex) :
    readAll (linesText true (ls.map text) ++ below) =
        ⟨requirementsFrom (linesText true (ls.map text) ++ below) 0 (ls.map call), []⟩
      ∧ (convertImports (linesText true (ls.map text) ++ below) path {} index
        (requirementsFrom (linesText true (ls.map text) ++ below) 0 (ls.map call))).run =
          ⟨.ok (linesText true (ls.map imported) ++ below), []⟩ := by
  have hread : readAll (linesText true ((ls.map call).map Call.line) ++ below) = _ :=
    readAll_lines (linked ls) hbelow (Or.inl rfl)
  rw [List.map_map] at hread
  refine ⟨hread, ?_⟩
  have hstanding := standing_readAll (linesText true (ls.map text) ++ below)
  have hproper : ∀ r ∈ (readAll (linesText true (ls.map text) ++ below)).value, ∀ b ∈ r.bindings,
      ProperBinding b := properBinding_readLines
  have hvalue : (readAll (linesText true (ls.map text) ++ below)).value =
      requirementsFrom (linesText true (ls.map text) ++ below) 0 (ls.map call) :=
    congrArg Reported.value hread
  rw [hvalue] at hstanding hproper
  unfold convertImports
  rw [run_writeImports hstanding hproper, importEdits_lines, nestedWarnings_lines]
  have hweave := weave_lineEdits text imported (fun _ => []) ls below
  simp only [List.append_nil] at hweave
  rw [hweave]

end RequiredLine

/-! ## Lines that are quiet about the exports -/

/-- A line with a quoted module in which the word `exports` does not stand is quiet when there are
no dots around the module. -/
lemma quietLine_of_quoted {pre target post : Text} {q : Char} (hq : isTargetQuote q = true)
    (hbegins : ∃ c rest, pre = c :: rest ∧ isBlank c = false)
    (hbreak : '\n' ∉ pre ∧ '\n' ∉ target ∧ '\n' ∉ post) (hpre : '.' ∉ pre) (hpost : '.' ∉ post)
    (hexports : ¬ "exports".toList <:+: target) :
    QuietLine (pre ++ q :: (target ++ q :: post)) := by
  have hne : ∀ c ∈ ".exports\n".toList, c ≠ q := by
    rintro c hc rfl
    have hall : ∀ d ∈ ".exports\n".toList, isTargetQuote d = false := by decide
    rw [hall c hc] at hq
    exact absurd hq (by decide)
  have hnot : ∀ w : Text, '.' ∈ w → (∀ c ∈ w, c ∈ ".exports\n".toList) → ¬ w <:+: target →
      ¬ w <:+: pre ++ q :: (target ++ q :: post) := by
    intro w hdot hw htarget h
    have hquote : q ∉ w := fun hmem => hne q (hw q hmem) rfl
    rcases infix_append_cons hquote h with h | h
    · exact hpre (h.subset hdot)
    · rcases infix_append_cons hquote h with h | h
      · exact htarget h
      · exact hpost (h.subset hdot)
  refine ⟨?_, ?_, ?_, ?_⟩
  · obtain ⟨c, rest, rfl, hc⟩ := hbegins
    exact ⟨c, _, rfl, hc⟩
  · have hbreakq : '\n' ≠ q := hne _ (by decide)
    simp [hbreak, hbreakq]
  · exact hnot _ (by decide) (by decide) fun h =>
      hexports ((List.infix_append [] "exports".toList ['.']).trans h)
  · exact hnot _ (by decide) (by decide) fun h =>
      hexports ((List.infix_append ['.'] "exports".toList []).trans h)

namespace RequiredLine

/-- A required line is quiet. -/
lemma quiet_text (l : RequiredLine) : QuietLine l.text := by
  have hleft : ∀ c ∈ ".\n".toList, c ∉ (LeftHand.group l.first l.others).text := by
    intro c hc
    have hall : ∀ c ∈ ".\n".toList, isNameChar c = false ∧ c ∉ ":, \x7b\x7d".toList := by decide
    exact LeftHand.not_mem_text _ (hall c hc).1 (hall c hc).2
  have hnot : ∀ c ∈ ".\n".toList, c ∉ "const ".toList ++ ((LeftHand.group l.first l.others).text ++
      " = require(".toList) := by
    intro c hc
    have hall : ∀ c ∈ ".\n".toList, c ∉ "const ".toList ∧ c ∉ " = require(".toList := by decide
    simp only [List.mem_append, not_or]
    exact ⟨(hall c hc).1, hleft c hc, (hall c hc).2⟩
  have hshape : l.text = ("const ".toList ++ ((LeftHand.group l.first l.others).text ++
      " = require(".toList)) ++ l.asked.quote :: (l.asked.target
        ++ l.asked.quote :: ");".toList) := by
    unfold text clauseLine
    rw [l.asked.call_append]
    simp [Ending.text]
  rw [hshape]
  exact quietLine_of_quoted l.asked.isQuote ⟨'c', _, rfl, by decide⟩
    ⟨hnot _ (by decide), fun hmem => (l.asked.plain _ hmem).2 rfl, by decide⟩ (hnot _ (by decide))
    (by decide) l.not_exports

/-- What stands between the word `import` and the module. -/
def clause (l : RequiredLine) : Text :=
  " \x7b ".toList ++ (", ".toList.intercalate (l.requirement.bindings.map (writtenBinding false)) ++
    " \x7d from ".toList)

/-- The module as the import names it. -/
def target (l : RequiredLine) : Text :=
  writtenTarget {} l.asked.target

/-- The import of a line: a word, a clause and the quoted module. -/
lemma imported_eq (l : RequiredLine) : l.imported = "import".toList ++
    (l.clause ++ l.asked.quote :: (l.target ++ l.asked.quote :: [';'])) := by
  have happend := importOf_append {} none (r := l.requirement) rfl l.nameable.bindings_ne_nil []
  rw [List.append_nil] at happend
  unfold imported clause target
  rw [happend, writtenClause, isWholeModule_requirement, lineClause_eq]
  simp [requirement, writtenQuote]

/-- The line of a re-export, as its words one behind the other. -/
lemma exported_eq (l : RequiredLine) : l.exported = "export".toList ++
    (l.clause ++ l.asked.quote :: (l.target ++ l.asked.quote :: [';'])) := by
  unfold exported
  rw [imported_eq]
  exact congrArg _ (List.drop_left' rfl)

/-- A line is quiet before and after its first word is turned. -/
lemma quiet_word (l : RequiredLine) {word : Text}
    (hbegins : ∃ c rest, word = c :: rest ∧ isBlank c = false)
    (hword : ∀ c ∈ ".\n".toList, c ∉ word) :
    QuietLine (word ++ (l.clause ++ l.asked.quote :: (l.target ++ l.asked.quote :: [';']))) := by
  have hclause : ∀ c ∈ ".\n".toList, c ∉ word ++ l.clause := by
    intro c hc
    have hall : ∀ c ∈ ".\n".toList, c ∉ " \x7b ".toList ∧ c ∉ ", ".toList ∧ c ∉ " \x7d from ".toList
        ∧ isNameChar c = false ∧ c ≠ ' ' := by decide
    obtain ⟨hopen, hsep, hclose, hname, hspace⟩ := hall c hc
    unfold clause
    simp only [List.mem_append, not_or]
    refine ⟨hword c hc, hopen, not_mem_intercalate hsep fun item hitem hmem => ?_, hclose⟩
    obtain ⟨b, hb, rfl⟩ := List.mem_map.mp hitem
    obtain ⟨m, -, rfl⟩ := List.mem_map.mp hb
    rcases (namesExport_binding m).mem_written hmem with h | h
    · rw [hname] at h
      exact absurd h (by decide)
    · exact hspace h
  have hpart : l.target <:+: l.asked.target := by
    rcases writtenTarget_eq {} l.asked.target with heq | heq
    · rw [target, heq]
    · exact ⟨[], _, heq.symm⟩
  rw [← List.append_assoc]
  refine quietLine_of_quoted l.asked.isQuote ?_ ⟨hclause _ (by decide), fun hmem =>
    (l.asked.plain _ (hpart.subset hmem)).2 rfl, by decide⟩ (hclause _ (by decide)) (by decide)
    fun h => l.not_exports (h.trans hpart)
  obtain ⟨c, rest, rfl, hc⟩ := hbegins
  exact ⟨c, _, rfl, hc⟩

/-- The line of an import is quiet. -/
lemma quiet_imported (l : RequiredLine) : QuietLine l.imported := by
  rw [imported_eq]
  exact l.quiet_word ⟨'i', _, rfl, by decide⟩ (by decide)

/-- The line of a re-export is quiet. -/
lemma quiet_exported (l : RequiredLine) : QuietLine l.exported := by
  rw [exported_eq]
  exact l.quiet_word ⟨'e', _, rfl, by decide⟩ (by decide)

end RequiredLine

/-! ## The import statements -/

/-- No import statement is found where there is no quote. -/
lemma importPattern_eq_none {before : Option Char} {t : Text}
    (h : ∀ c ∈ t, isModuleQuote c = false) : importPattern before t = none := by
  have hfrom : ∀ {t : Text}, (∀ c ∈ t, isModuleQuote c = false) → fromModule? t = none := by
    intro t ht
    unfold fromModule?
    split
    · next quote cs hspaced =>
      have hquote := ht quote ((spacedWord?_suffix hspaced).subset List.mem_cons_self)
      rw [hquote]
    · rfl
  have hclause : ∀ {t : Text} (spaced : Bool) (read : Text), (∀ c ∈ t, isModuleQuote c = false) →
      clauseFrom? spaced read t = none := by
    intro t
    induction t with
    | nil => exact fun _ _ _ => rfl
    | cons c cs ih =>
      intro spaced read ht
      rw [clauseFrom?, hfrom ht, ite_self]
      dsimp only
      split_ifs
      · rfl
      · exact ih _ _ (List.forall_mem_cons.mp ht).2
  unfold importPattern
  split_ifs
  · split
    · next rest hafter =>
      dsimp only
      split_ifs
      · rfl
      · refine hclause _ _ fun c hc => h c ?_
        exact ((List.dropWhile_suffix _).trans (after?_suffix hafter)).subset hc
    · rfl
  · rfl

namespace RequiredLine

/-- The import statement of a line that begins at `start`. -/
def statement (l : RequiredLine) (start : Nat) : ImportStatement :=
  ⟨l.imported, start, l.asked.quote, l.target,
    ⟨l.requirement.bindings.map (Binding.imported false), true⟩⟩

/-- The import statements of lines that stand one below the other from `offset` on. -/
def statementsFrom : (offset : Nat) → List RequiredLine → List ImportStatement
  | _, [] => []
  | offset, l :: ls => l.statement offset :: statementsFrom (offset + l.imported.length + 1) ls

/-- The pieces of the lines: their imports, and the line breaks behind them. -/
def pieces : List RequiredLine → List (Piece ImportParts)
  | [] => []
  | l :: ls =>
    .found l.imported
      ⟨writtenClause {} false l.requirement ++ [' '], l.asked.quote, l.target⟩
    :: .plain '\n' :: pieces ls

/-- The pieces are those of the lines with imports. -/
lemma joined_pieces (ls : List RequiredLine) :
    joined (pieces ls) = linesText true (ls.map imported) := by
  induction ls with
  | nil => rfl
  | cons l ls ih =>
    rw [pieces, joined, joined, ih, List.map_cons, linesText_cons]
    simp [lineTail, Piece.text]

/-- The import of a line is found where a line begins. -/
lemma importPattern_imported (l : RequiredLine) {before : Option Char}
    (hbefore : beginsLine before = true) (rest : Text) : importPattern before (l.imported ++ rest) =
      some (⟨writtenClause {} false l.requirement ++ [' '], l.asked.quote, l.target⟩, rest) := by
  have hplain : PlainTarget l.requirement.target :=
    ⟨l.asked.ne_nil, l.ne_extension, fun c hc => (l.asked.plain c hc).1⟩
  exact importPattern_importOf {} none hbefore l.asked.isQuote rfl hplain l.nameable rest

/-- **The search finds the import of each line**, and nothing below them where no quote stands. -/
lemma scan_pieces (ls : List RequiredLine) {below : Text}
    (hbelow : ∀ c ∈ below, isModuleQuote c = false) {before : Option Char}
    (hbefore : beginsLine before = true) :
    Scan importPattern before (pieces ls ++ below.map Piece.plain) := by
  induction ls generalizing before with
  | nil =>
    have hplain : ∀ before a b, below = a ++ b → b ≠ [] →
        importPattern before (b ++ joined ([] : List (Piece ImportParts))) = none := by
      intro before a b hsplit _
      refine importPattern_eq_none fun c hc => hbelow c ?_
      rw [joined, List.append_nil] at hc
      rw [hsplit]
      exact List.mem_append_right _ hc
    have hscan : Scan importPattern before (below.map Piece.plain ++ []) :=
      Scan.map_plain hplain fun _ => .done (importPattern_eq_none (by simp))
    rwa [List.append_nil] at hscan
  | cons l ls ih =>
    obtain ⟨c, cs, hcons, -⟩ := l.quiet_imported.begins
    have hmatch := l.importPattern_imported hbefore
    have hlast : beginsLine (some ((c :: cs).getLast (List.cons_ne_nil c cs))) = false := by
      rw [beginsLine, beq_eq_false_iff_ne]
      intro heq
      refine l.quiet_imported.break_not_mem ?_
      rw [hcons, ← heq]
      exact List.getLast_mem _
    rw [pieces, hcons]
    rw [hcons] at hmatch
    refine .found (hmatch _) (.plain ?_ (ih rfl))
    rw [importPattern, hlast]
    rfl

/-- **The import statements of the lines are read back**, one for each. -/
lemma importStatements_lines (ls : List RequiredLine) {below : Text}
    (hbelow : ∀ c ∈ below, isModuleQuote c = false) :
    importStatements (linesText true (ls.map imported) ++ below) = statementsFrom 0 ls := by
  have hjoined : joined (pieces ls ++ below.map Piece.plain) =
      linesText true (ls.map imported) ++ below := by
    have hplain := joined_map_plain below ([] : List (Piece ImportParts))
    rw [List.append_nil, joined, List.append_nil] at hplain
    rw [joined_append, joined_pieces, hplain]
  have hplaces : ∀ (ls : List RequiredLine) (front : Text) {content : Text},
      content = front ++ (linesText true (ls.map imported) ++ below) →
      (places front.length (pieces ls ++ below.map Piece.plain)).map (fun o =>
        (⟨o.text content, o.start, o.value.quote, o.value.target,
          ImportClause.parse o.value.clause⟩ : ImportStatement))
            = statementsFrom front.length ls := by
    intro ls
    induction ls with
    | nil =>
      intro front content _
      have hplain := places_map_plain front.length below ([] : List (Piece ImportParts))
      rw [List.append_nil, places] at hplain
      rw [pieces, List.nil_append, hplain]
      rfl
    | cons l ls ih =>
      intro front content hcontent
      rw [List.map_cons, linesText_cons, List.append_assoc] at hcontent
      have hbehind : content = (front ++ (l.imported ++ ['\n'])) ++
          (linesText true (ls.map imported) ++ below) := by
        rw [hcontent]
        simp [lineTail]
      have hrest := ih _ hbehind
      rw [pieces, List.cons_append, places, List.map_cons, text_of_append hcontent,
        List.cons_append, places, statementsFrom, statement,
        (clearClause_written {} false l.nameable).parse, isWholeModule_requirement]
      rw [List.length_append, List.length_append, List.length_singleton, ← Nat.add_assoc] at hrest
      rw [hrest]
      rfl
  unfold importStatements
  rw [← hjoined, occurrences_eq_places (scan_pieces ls hbelow rfl)]
  exact hplaces ls [] (by rw [hjoined]; rfl)

end RequiredLine

/-! ## Names -/

/-- A name in a text that is not part of a longer one. -/
def wholeName (name : Text) : Pattern Unit := fun before t =>
  if outsideName before then (endedName? name t).map fun rest => ((), rest) else none

/-- Whether a name stands in a text, not as part of a longer one. -/
def standsAsName (name t : Text) : Bool :=
  holdsSomewhere (wholeName name) t

/-- A name stands as such where no character of a name stands next to it. -/
lemma standsAsName_iff {name t : Text} : standsAsName name t = true ↔ ∃ front back,
    t = front ++ (name ++ back) ∧ outsideName front.getLast? = true
      ∧ outsideName back.head? = true := by
  rw [standsAsName, holdsSomewhere_iff]
  constructor
  · rintro ⟨front, t', rfl, hsome⟩
    unfold wholeName at hsome
    split_ifs at hsome with hbefore
    · rw [Option.isSome_map] at hsome
      obtain ⟨back, hended⟩ := Option.isSome_iff_exists.mp hsome
      obtain ⟨rfl, hback⟩ := endedName?_eq_some_iff.mp hended
      exact ⟨front, back, rfl, hbefore, hback⟩
    · exact absurd hsome (by simp)
  · rintro ⟨front, back, rfl, hbefore, hback⟩
    refine ⟨front, name ++ back, rfl, ?_⟩
    rw [wholeName, if_pos hbefore, endedName?_eq_some_iff.mpr ⟨rfl, hback⟩]
    rfl

/-- A reference is the name with no character of a name next to it. -/
lemma reference_eq_some {name t rest : Text} {before : Option Char} {u : Unit}
    (h : reference name before t = some (u, rest)) :
    outsideName before = true ∧ t = name ++ rest ∧ outsideName rest.head? = true := by
  unfold reference at h
  split_ifs at h with hbefore
  split at h
  · next rest' hended =>
    split_ifs at h
    obtain ⟨-, rfl⟩ := Prod.mk.inj (Option.some.inj h)
    obtain ⟨ht, hrest⟩ := endedName?_eq_some_iff.mp hended
    refine ⟨?_, ht, hrest⟩
    cases before with
    | none => rfl
    | some c =>
      rw [beginsName, Bool.and_eq_true] at hbefore
      exact hbefore.1
  · exact absurd h (by simp)

/-- A reference is not empty. -/
lemma reference_consumes {name : Text} (hname : name ≠ []) : Consumes (reference name) := by
  intro before t u rest h
  exact ⟨name, hname, (reference_eq_some h).2.1⟩

/-- **A reference in a text of lines is a name that stands in one of them.** -/
lemma exists_line_of_reference {name : Text} (hname : ProperName name) {ended : Bool}
    {lines : List Text} {o : Occurrence Unit}
    (ho : o ∈ occurrences (reference name) (linesText ended lines)) :
    ∃ above line below, lines = above ++ line :: below ∧ standsAsName name line = true
      ∧ (linesText true above).length ≤ o.start
      ∧ o.start < (linesText true above).length + line.length := by
  obtain ⟨front, m, back, hsplit, hstart, -, -, hmatch⟩ :=
    exists_of_mem_occurrences (reference_consumes hname.ne_nil) ho
  obtain ⟨hbefore, hm, hafter⟩ := reference_eq_some hmatch
  have hword : linesText ended lines = front ++ (name ++ back) := by
    rw [hsplit, hm]
  obtain ⟨above, line, below, p, p', hlines, hline, hfront, hback⟩ :=
    exists_line_of_word hname.ne_nil (hname.not_mem (by decide)) hword
  refine ⟨above, line, below, hlines, standsAsName_iff.mpr ⟨p, p', hline, ?_, ?_⟩, ?_, ?_⟩
  · rcases List.eq_nil_or_concat' p with rfl | ⟨p, c, rfl⟩
    · rfl
    · rw [hfront, ← List.append_assoc, List.getLast?_concat] at hbefore
      rwa [List.getLast?_concat]
  · cases p' with
    | nil => rfl
    | cons c p' =>
      rw [hback] at hafter
      exact hafter
  · rw [hstart, hfront, List.length_append]
    exact Nat.le_add_right _ _
  · have hlength := List.length_pos_iff.mpr hname.ne_nil
    rw [hstart, hfront, hline]
    simp only [List.length_append]
    omega

namespace RequiredLine

/-- The statement of a line stands behind the lines above it. -/
lemma mem_statementsFrom {offset : Nat} {ls : List RequiredLine} {s : ImportStatement}
    (h : s ∈ statementsFrom offset ls) : ∃ above l below, ls = above ++ l :: below
      ∧ s = l.statement (offset + (linesText true (above.map imported)).length) := by
  induction ls generalizing offset with
  | nil => exact absurd h (by simp [statementsFrom])
  | cons l ls ih =>
    rcases List.mem_cons.mp h with rfl | h
    · exact ⟨[], l, ls, rfl, rfl⟩
    · obtain ⟨above, l', below, rfl, rfl⟩ := ih h
      refine ⟨l :: above, l', below, rfl, ?_⟩
      rw [List.map_cons, linesText_cons]
      simp only [lineTail, Bool.not_true, Bool.and_false, Bool.false_eq_true, if_false,
        List.length_append, List.length_cons]
      congr 1
      omega

/-- The names of the statement of a line are its local names. -/
lemma localNames_statement (l : RequiredLine) (start : Nat) :
    (l.statement start).names.map (·.localName) = l.locals.map Subtype.val := by
  have hname : ∀ m : GroupMember, (m.binding.imported false).localName = m.bound.1 := by
    intro m
    unfold Binding.imported
    rw [if_neg (namesExport_binding m).key_ne]
    unfold GroupMember.binding GroupMember.bound
    cases m.localName with
    | none => rfl
    | some n =>
      by_cases heq : n.1 = m.key.1
      · simp [Option.filter, heq]
      · simp [Option.filter, heq]
  simp only [statement, ImportStatement.names, requirement, locals, List.map_map]
  exact List.map_congr_left fun m _ => hname m

/-- Two lines, no local name of either of which stands in the import of the other. -/
def Apart (l l' : RequiredLine) : Prop :=
  (∀ x ∈ l.locals, standsAsName x.1 l'.imported = false)
    ∧ ∀ x ∈ l'.locals, standsAsName x.1 l.imported = false

instance : DecidableRel Apart := fun _ _ => inferInstanceAs (Decidable (_ ∧ _))

/-- The line in which a local name stands is its own. -/
lemma eq_of_apart {ls above below above' below' : List RequiredLine} {l l' : RequiredLine}
    (hapart : ls.Pairwise Apart) (h : ls = above ++ l :: below) (h' : ls = above' ++ l' :: below')
    {x : Name} (hx : x ∈ l.locals) (hstands : standsAsName x.1 l'.imported = true) :
    above = above' := by
  rcases List.append_eq_append_iff.mp (h.symm.trans h') with ⟨m, rfl, hm⟩ | ⟨m, rfl, hm⟩
  · cases m with
    | nil => rw [List.append_nil]
    | cons y m =>
      obtain ⟨rfl, rfl⟩ := List.cons.inj hm
      rw [h, List.pairwise_append, List.pairwise_cons] at hapart
      have := (hapart.2.1.1 l' (by simp)).1 x hx
      rw [hstands] at this
      exact absurd this (by decide)
  · cases m with
    | nil => rw [List.append_nil]
    | cons y m =>
      obtain ⟨rfl, rfl⟩ := List.cons.inj hm
      rw [h', List.pairwise_append, List.pairwise_cons] at hapart
      have := (hapart.2.1.1 l (by simp)).2 x hx
      rw [hstands] at this
      exact absurd this (by decide)

end RequiredLine

/-! ## The export pass -/

section reexport

variable {ended : Bool} {lines : List RequiredLine} {names : List Name}

/-- The text between the two passes. -/
abbrev importingText (ended : Bool) (lines : List RequiredLine) (names : List Name) : Text :=
  exportingText ended (lines.map RequiredLine.imported) names

/-- All lines with imports are quiet. -/
lemma quiet_map_imported (lines : List RequiredLine) :
    ∀ line ∈ lines.map RequiredLine.imported, QuietLine line := by
  intro line hline
  obtain ⟨l, -, rfl⟩ := List.mem_map.mp hline
  exact l.quiet_imported

/-- A line of the text is the last one or the import of a line. -/
lemma line_cases_imported {above below : List Text} {line : Text}
    (h : lines.map RequiredLine.imported ++ [exportLine names] = above ++ line :: below) :
    (above = lines.map RequiredLine.imported ∧ line = exportLine names ∧ below = []) ∨
      ∃ a l b, lines = a ++ l :: b ∧ above = a.map RequiredLine.imported ∧ line = l.imported := by
  rcases line_cases h with hlast | ⟨below', hlines⟩
  · exact Or.inl hlast
  · obtain ⟨a, rest, rfl, rfl, hrest⟩ := List.map_eq_append_iff.mp hlines
    obtain ⟨l, b, rfl, rfl, rfl⟩ := List.map_eq_cons_iff.mp hrest
    exact Or.inr ⟨a, l, b, rfl, rfl, rfl⟩

/-- The last line has no quotes. -/
lemma not_quote_exportLine (ended : Bool) (names : List Name) :
    ∀ c ∈ exportLine names ++ lineTail ended [], isModuleQuote c = false := by
  intro c hc
  rw [← Bool.not_eq_true]
  intro hquote
  have hmem : c ∈ ['\'', '"'] := by
    simpa [isModuleQuote] using hquote
  have hall : ∀ c ∈ ['\'', '"'], isNameChar c = false ∧ c ≠ ',' ∧ c ≠ ' ' ∧ c ≠ '\x7b'
      ∧ c ∉ "module.exports = ".toList ∧ c ∉ "\x7d;".toList ∧ c ∉ lineTail ended [] := by
    cases ended
    all_goals decide
  obtain ⟨hname, hcomma, hspace, hbrace, hword, hend, htail⟩ := hall c hmem
  have hnames : c ∉ exportedNames names := not_mem_exportedNames hname hcomma hspace
  unfold exportLine at hc
  simp only [List.mem_append, List.mem_cons] at hc
  rcases hc with (hc | hc | hc | hc) | hc
  · exact hword hc
  · exact hbrace hc
  · exact hnames hc
  · exact hend hc
  · exact htail hc

/-- **The import statements of the text are those of its lines.** -/
lemma importStatements_importing (ended : Bool) (lines : List RequiredLine) (names : List Name) :
    importStatements (importingText ended lines names) = RequiredLine.statementsFrom 0 lines := by
  rw [importingText, exportingText_eq]
  exact RequiredLine.importStatements_lines lines (not_quote_exportLine ended names)

/-- **The names that are imported are the local names of the lines.** -/
lemma importedNames_importing (ended : Bool) (lines : List RequiredLine) (names : List Name) :
    importedNames (importingText ended lines names) =
      (lines.flatMap RequiredLine.locals).map Subtype.val := by
  have hnames : ∀ (lines : List RequiredLine) (offset : Nat),
      (RequiredLine.statementsFrom offset lines).flatMap (fun s => s.names.map (·.localName)) =
        (lines.flatMap RequiredLine.locals).map Subtype.val := by
    intro lines
    induction lines with
    | nil => exact fun _ => rfl
    | cons l lines ih =>
      intro offset
      rw [RequiredLine.statementsFrom, List.flatMap_cons, ih, RequiredLine.localNames_statement,
        List.flatMap_cons, List.map_append]
  rw [← hnames lines 0, ← importStatements_importing ended lines names]
  unfold importedNames importPairs
  rw [List.map_flatMap]
  simp only [List.map_map, Function.comp_def]

/-- No line of the text begins like a declaration. -/
lemma declaration?_importing (ended : Bool) (lines : List RequiredLine) (names : List Name)
    (name : Text) :
    declaration? (importingText ended lines names) name = none := by
  rw [Option.eq_none_iff_forall_ne_some]
  intro d hd
  obtain ⟨front, back, hsplit, -, hbegins, head, back', hback, hhead, -⟩ := declaration?_eq_some hd
  obtain ⟨c, cs, rfl, hc⟩ := hhead.exists_cons
  have hbreak : ∀ line ∈ lines.map RequiredLine.imported ++ [exportLine names], '\n' ∉ line := by
    intro line hline
    rcases List.mem_append.mp hline with hline | hline
    · exact (quiet_map_imported lines line hline).break_not_mem
    · rw [List.mem_singleton.mp hline]
      exact break_not_mem_exportLine names
  obtain ⟨above, line, below, hlines, -, hline⟩ :=
    exists_line_of_beginsLine hbreak hsplit hbegins (by rw [hback]; simp)
  have hletter : ∀ {x : Char} {t : Text}, line ++ lineTail ended below = x :: t →
      x ∈ "afclv".toList := by
    intro x t ht
    rw [← hline, hback] at ht
    exact (List.cons.inj ht).1 ▸ hc
  rcases line_cases_imported hlines with ⟨-, rfl, -⟩ | ⟨a, l, b, -, -, rfl⟩
  · exact absurd (hletter (x := 'm') rfl) (by decide)
  · rw [RequiredLine.imported_eq] at hletter
    exact absurd (hletter (x := 'i') rfl) (by decide)

/-- **A local name is used nowhere** but in its own import and in the last line. -/
lemma isUsed_importing {above below : List RequiredLine} {l : RequiredLine} {x : Name}
    (hapart : lines.Pairwise RequiredLine.Apart) (hlines : lines = above ++ l :: below)
    (hx : x ∈ l.locals) {start stop : Nat}
    (hstart : start = (linesText true (above.map RequiredLine.imported)).length)
    (hstop : stop = start + l.imported.length) :
    isUsed (importingText ended lines names) x.1 ((start, stop) ::
      spansOf (importingText ended lines names) (exportLine names ++ lineTail ended []))
        = false := by
  have hspans : spansOf (importingText ended lines names) (exportLine names ++ lineTail ended []) =
      [((linesText true (lines.map RequiredLine.imported)).length,
        (linesText true (lines.map RequiredLine.imported)).length +
          (exportLine names ++ lineTail ended []).length)] := by
    rw [spansOf, indexOf?_exportLine ended names (quiet_map_imported lines)]
  rw [hspans, isUsed, List.any_eq_false]
  intro o ho
  obtain ⟨above', line, below', hsplit, hstands, hle, hlt⟩ := exists_line_of_reference x.2 ho
  rcases line_cases_imported hsplit with ⟨rfl, rfl, -⟩ | ⟨a, l', b, hlines', rfl, rfl⟩
  · have hlast : o.start < (linesText true (lines.map RequiredLine.imported)).length +
        (exportLine names ++ lineTail ended []).length := by
      rw [List.length_append]
      omega
    simp only [List.any_cons, List.any_nil, hle, hlast, decide_true, Bool.and_self, Bool.or_false,
      Bool.or_true, Bool.not_true, Bool.false_eq_true, not_false_iff]
  · obtain rfl := RequiredLine.eq_of_apart hapart hlines hlines' hx hstands
    rw [hlines] at hlines'
    obtain ⟨rfl, -⟩ := List.cons.inj (List.append_cancel_left hlines')
    have hbehind : start ≤ o.start := by rw [hstart]; exact hle
    have hbefore : o.start < stop := by rw [hstop, hstart]; exact hlt
    simp [hbehind, hbefore]

/-- Every import of the text can be turned. -/
lemma turnable_importing (hapart : lines.Pairwise RequiredLine.Apart) :
    ∀ s ∈ importStatements (importingText ended lines names),
      Turnable (importingText ended lines names) (exportLine names ++ lineTail ended []) s := by
  intro s hs
  rw [importStatements_importing] at hs
  obtain ⟨above, l, below, hlines, rfl⟩ := RequiredLine.mem_statementsFrom hs
  refine ⟨rfl, List.cons_ne_nil _ _, ?_, ?_⟩
  · intro n hn
    obtain ⟨b, hb, rfl⟩ := List.mem_map.mp hn
    obtain ⟨m, -, rfl⟩ := List.mem_map.mp hb
    unfold Binding.imported
    rw [if_neg (RequiredLine.namesExport_binding m).key_ne]
  · intro n hn
    have hmem : n.localName ∈ l.locals.map Subtype.val := by
      rw [← l.localNames_statement]
      exact List.mem_map.mpr ⟨n, hn, rfl⟩
    obtain ⟨x, hx, hname⟩ := List.mem_map.mp hmem
    rw [← hname]
    exact isUsed_importing hapart hlines hx (Nat.zero_add _) rfl

/-- **Turning the imports** turns the first word of each line. -/
lemma weave_turned (ended : Bool) (lines : List RequiredLine) (names : List Name) :
    weave (importingText ended lines names) 0
        ((RequiredLine.statementsFrom 0 lines).map ImportStatement.turned) =
      exportingText ended (lines.map RequiredLine.exported) names := by
  have hturned : ∀ (lines : List RequiredLine) (offset : Nat),
      (RequiredLine.statementsFrom offset lines).map ImportStatement.turned =
        lineEdits (fun _ => "import".toList) (fun _ => "export".toList)
          (fun l : RequiredLine => l.clause ++ l.asked.quote
            :: (l.target ++ l.asked.quote :: [';']))
          offset lines := by
    intro lines
    induction lines with
    | nil => exact fun _ => rfl
    | cons l lines ih =>
      intro offset
      rw [RequiredLine.statementsFrom, List.map_cons, ih, lineEdits, RequiredLine.imported_eq]
      rfl
  rw [hturned, importingText, exportingText_eq, exportingText_eq]
  simp only [funext RequiredLine.imported_eq, funext RequiredLine.exported_eq]
  exact weave_lineEdits _ _ _ lines _

/-- **The export pass turns every import.** -/
lemma run_promoteProperties_importing (hnames : names.Perm (lines.flatMap RequiredLine.locals))
    (hnodup : (lines.flatMap RequiredLine.locals).Nodup)
    (hapart : lines.Pairwise RequiredLine.Apart) :
    (promoteProperties (importingText ended lines names) (exportLine names ++ lineTail ended [])
        (names.map Subtype.val)).run =
      ⟨.ok (exportingText ended (lines.map RequiredLine.exported) names), []⟩ := by
  have hdistinct : (names.map Subtype.val).Nodup :=
    (hnames.nodup_iff.mpr hnodup).map Subtype.val_injective
  have hperm : (names.map Subtype.val).Perm (importedNames (importingText ended lines names)) := by
    rw [importedNames_importing]
    exact hnames.map Subtype.val
  rw [run_promoteProperties_whole hdistinct hperm
    (fun name _ => declaration?_importing ended lines names name) (turnable_importing hapart),
    importStatements_importing, weave_turned]

end reexport

/-- **Modules that only re-export become re-exports.** Lines that each take exports of a module
under local names, and a last line that exports these names in any order, become one re-export per
line, the line's import with its first word turned. Only the last line may mention a name that
another line takes. -/
theorem convert_reexports (ended : Bool) (lines : List RequiredLine) (names : List Name)
    (hnames : names.Perm (lines.flatMap RequiredLine.locals))
    (hnodup : (lines.flatMap RequiredLine.locals).Nodup)
    (hapart : lines.Pairwise RequiredLine.Apart) (path : Option Text)
    (index : Option DefaultIndex) :
    (convert (linesText ended (lines.map RequiredLine.text ++ [exportLine names]))
        path {} index).run =
      ⟨.ok (linesText true (lines.map RequiredLine.exported)), []⟩ := by
  have hquiet : ∀ line ∈ lines.map RequiredLine.text, QuietLine line := by
    intro line hline
    obtain ⟨l, -, rfl⟩ := List.mem_map.mp hline
    exact l.quiet_text
  have hquiet' : ∀ line ∈ lines.map RequiredLine.exported, QuietLine line := by
    intro line hline
    obtain ⟨l, -, rfl⟩ := List.mem_map.mp hline
    exact l.quiet_exported
  have hbelow : '(' ∉ exportLine names ++ lineTail ended [] := by
    rw [List.mem_append, not_or]
    exact ⟨parenthesis_not_mem_exportLine names, by cases ended <;> decide⟩
  have hexports : Exports.read (exportingText ended (lines.map RequiredLine.text) names) false =
      ⟨⟨{ raw := some (exportLine names ++ lineTail ended [])
          properties := names.map Subtype.val
          start := some (linesText true (lines.map RequiredLine.text)).length }, []⟩, []⟩ := by
    by_cases hne : names = []
    · -- without names there are no lines either, as each of them takes one
      subst hne
      have hnone := List.flatMap_eq_nil_iff.mp hnames.symm.eq_nil
      obtain rfl : lines = [] := by
        rw [List.eq_nil_iff_forall_not_mem]
        exact fun l hl => List.cons_ne_nil _ _ (hnone l hl)
      cases ended <;> rfl
    · exact read_exporting ended hne hquiet false
  obtain ⟨hread, himports⟩ := RequiredLine.run_convertImports lines hbelow path index
  rw [← exportingText_eq] at hread himports
  rw [← exportingText_eq] at himports
  have hpromoted : (promoteProperties (importingText ended lines names) _ _).run = _ :=
    run_promoteProperties_importing hnames hnodup hapart
  rw [run_convert_of_imports hread hexports rfl himports]
  exact run_write_exporting hquiet' hpromoted _

/-- Two lines: one takes an export under another name and a name that is the word `exports`, and the
module of the other is the word `from`. -/
def wordedLines : List RequiredLine :=
  [⟨⟨⟨"w".toList, 'w', [], rfl, by decide, by decide⟩,
        some ⟨"b".toList, 'b', [], rfl, by decide, by decide⟩⟩,
      [⟨⟨"exports".toList, 'e', "xports".toList, rfl, by decide, by decide⟩, none⟩],
      ⟨'\'', "./x.js".toList, by decide, by decide, by decide⟩, by decide, by decide⟩,
    ⟨⟨⟨"c".toList, 'c', [], rfl, by decide, by decide⟩, none⟩, [],
      ⟨'"', "from".toList, by decide, by decide, by decide⟩, by decide, by decide⟩]

/-- Their names, in another order. -/
def wordedNames : List Name :=
  [⟨"c".toList, 'c', [], rfl, by decide, by decide⟩,
    ⟨"exports".toList, 'e', "xports".toList, rfl, by decide, by decide⟩,
    ⟨"b".toList, 'b', [], rfl, by decide, by decide⟩]

example : linesText false (wordedLines.map RequiredLine.text ++ [exportLine wordedNames]) =
    ("const \x7b w: b, exports \x7d = require('./x.js');\nconst \x7b c \x7d = require(\"from\");\n"
      ++ "module.exports = \x7b c, exports, b \x7d;").toList := by
  decide

/-- Two lines with words for names are re-exported, and nothing else is left. -/
theorem convert_reexports_worded :
    (wordedNames.Perm (wordedLines.flatMap RequiredLine.locals)
      ∧ (wordedLines.flatMap RequiredLine.locals).Nodup ∧ wordedLines.Pairwise RequiredLine.Apart) ∧
    (convert (linesText false (wordedLines.map RequiredLine.text ++ [exportLine wordedNames]))
        none {} none).run =
      ⟨.ok ("export \x7b w as b, exports \x7d from './x';\n" ++
        "export \x7b c \x7d from \"from\";\n").toList, []⟩ := by
  have hnames : wordedNames.Perm (wordedLines.flatMap RequiredLine.locals) := by decide
  have hnodup : (wordedLines.flatMap RequiredLine.locals).Nodup := by decide
  have hapart : wordedLines.Pairwise RequiredLine.Apart := by decide
  have hexported : linesText true (wordedLines.map RequiredLine.exported) =
      ("export \x7b w as b, exports \x7d from './x';\n" ++
        "export \x7b c \x7d from \"from\";\n").toList := by
    decide
  refine ⟨⟨hnames, hnodup, hapart⟩, ?_⟩
  rw [convert_reexports false wordedLines wordedNames hnames hnodup hapart none none, hexported]

end Esmify
