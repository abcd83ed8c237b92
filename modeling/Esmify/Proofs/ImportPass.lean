import Esmify.Convert
import Esmify.Proofs.GlobalSource
import Esmify.Proofs.RequireLine
import Esmify.Proofs.RequireStatement
import Esmify.Proofs.Revision
import Esmify.Proofs.Weave

/-!
# The import pass

**The import pass touches exactly the statements that were read.** The requirements that a text is
read into stand in it one behind the other, each with its source at the place where it was read
(`standing_readAll`), and none binds a default export without a name. So every one of them is found
again, no edit reaches into another, and the pass is one substitution: an import in the place of
each statement and every other character as it was. -/

namespace Esmify

open Text Source

namespace Requirement

/-! ## Where requirements stand -/

/-- Requirements that stand in a text from `offset` on, one behind the other. -/
def Standing (content : Text) : (offset : Nat) → List Requirement → Prop
  | _, [] => True
  | offset, r :: rs =>
    ∃ start, r.start = some start ∧ offset ≤ start ∧ r.raw ≠ []
      ∧ standsAt r.raw content start = true ∧ Standing content (start + r.raw.length) rs

/-- Requirements that stand behind an offset stand behind every smaller one. -/
lemma Standing.mono {content : Text} {offset offset' : Nat} {rs : List Requirement}
    (hle : offset' ≤ offset) (h : Standing content offset rs) : Standing content offset' rs := by
  cases rs with
  | nil => trivial
  | cons r rs =>
    obtain ⟨start, hstart, hoffset, h⟩ := h
    exact ⟨start, hstart, hle.trans hoffset, h⟩

/-- Each requirement stands where it was read. -/
lemma Standing.slice {content : Text} {offset : Nat} {rs : List Requirement}
    (h : Standing content offset rs) :
    ∀ r ∈ rs, ∃ start, r.start = some start ∧ offset ≤ start ∧ r.raw ≠ []
      ∧ content.slice start (start + r.raw.length) = r.raw := by
  induction rs generalizing offset with
  | nil => simp
  | cons r rs ih =>
    obtain ⟨start, hstart, hoffset, hne, hstands, hrest⟩ := h
    rw [List.forall_mem_cons]
    refine ⟨⟨start, hstart, hoffset, hne, (slice_of_standsAt hstands).1⟩, fun r' hr' => ?_⟩
    obtain ⟨start', hstart', hle, h⟩ := ih hrest r' hr'
    exact ⟨start', hstart', by omega, h⟩

/-- No requirement reaches into a later one. -/
lemma Standing.pairwise {content : Text} {offset : Nat} {rs : List Requirement}
    (h : Standing content offset rs) :
    rs.Pairwise fun r r' => ∀ start start', r.start = some start → r'.start = some start' →
      start + r.raw.length ≤ start' := by
  induction rs generalizing offset with
  | nil => exact List.Pairwise.nil
  | cons r rs ih =>
    obtain ⟨start, hstart, -, -, -, hrest⟩ := h
    refine List.Pairwise.cons (fun r' hr' s s' hs hs' => ?_) (ih hrest)
    obtain ⟨start', hstart', hle, -⟩ := hrest.slice r' hr'
    rw [hstart, Option.some.injEq] at hs
    rw [hstart', Option.some.injEq] at hs'
    omega

/-! ## Reading -/

/-- The requirements read from the pieces of a text stand in it. -/
lemma standing_readLines {content : Text} {pieces : List (Piece Unit)} (front : Text)
    (continued : Bool) (h : content = front ++ joined pieces) :
    Standing content front.length (readLines content continued
      (places front.length pieces)).value := by
  induction pieces generalizing front continued with
  | nil => trivial
  | cons piece pieces ih =>
    cases piece with
    | plain c =>
      have hrest := ih (front ++ [c]) continued (by simp [h, joined, Piece.text])
      rw [List.length_append] at hrest
      exact hrest.mono (Nat.le_add_right _ _)
    | found line u =>
      have hcontent : content = front ++ (line ++ joined pieces) := h
      have hrest := fun k => ih (front ++ line) k (by rw [hcontent, List.append_assoc])
      simp only [List.length_append] at hrest
      simp only [places, readLines, text_of_append hcontent]
      cases hline : ofLine line continued with
      | error e => exact (hrest false).mono (Nat.le_add_right _ _)
      | ok r =>
        obtain ⟨s, -, hclose, hsplit, -⟩ := ofLine_eq_ok hline
        refine ⟨front.length, rfl, le_rfl, List.ne_nil_of_mem hclose, ?_, ?_⟩
        · rw [hcontent, hsplit, List.append_assoc]
          exact standsAt_append front r.raw _
        · apply (hrest r.chained).mono
          simp only [hsplit, List.length_append]
          show front.length + r.raw.length ≤ _
          omega

/-- A requirement is read from one of the lines. -/
lemma exists_placed_of_mem {content : Text} {continued : Bool} {lines : List (Occurrence Unit)}
    {r : Requirement} (h : r ∈ (readLines content continued lines).value) :
    ∃ line ∈ lines, ∃ continued' r', ofLine (line.text content) continued' = .ok r'
      ∧ r = placed content line.start continued' r' := by
  induction lines generalizing continued with
  | nil => exact absurd h List.not_mem_nil
  | cons line lines ih =>
    have hrest : ∀ {continued' : Bool}, r ∈ (readLines content continued' lines).value →
        ∃ line' ∈ line :: lines, ∃ continued' r', ofLine (line'.text content) continued' = .ok r'
          ∧ r = placed content line'.start continued' r' := by
      intro continued' hmem
      obtain ⟨line', hline', hread⟩ := ih hmem
      exact ⟨line', List.mem_cons_of_mem _ hline', hread⟩
    rw [readLines] at h
    cases hline : ofLine (line.text content) continued with
    | error e =>
      rw [hline] at h
      exact hrest h
    | ok r' =>
      rw [hline] at h
      rcases List.mem_cons.mp h with rfl | h
      · exact ⟨line, List.mem_cons_self, continued, r', hline, rfl⟩
      · exact hrest h

/-- The requirements of a text have well-formed bindings. -/
lemma properBinding_readLines {content : Text} {continued : Bool} {lines : List (Occurrence Unit)} :
    ∀ r ∈ (readLines content continued lines).value, ∀ b ∈ r.bindings, ProperBinding b := by
  intro r hr
  obtain ⟨line, -, continued', r', hread, rfl⟩ := exists_placed_of_mem hr
  obtain ⟨s, -, -, -, -, -, -, hproper, -⟩ := ofLine_eq_ok hread
  exact hproper

/-- The requirements that a text is read into are those of its lines. -/
lemma value_readAll (content : Text) :
    (readAll content).value = (readLines content false (occurrences requireLine content)).value :=
  rfl

/-- **The requirements of a text stand in it**, one behind the other. -/
lemma standing_readAll (content : Text) : Standing content 0 (readAll content).value := by
  obtain ⟨pieces, hjoined, hscan⟩ := exists_scan requireLine_consumes content none
  have hstanding : Standing _ 0 _ := standing_readLines [] false hjoined.symm
  rw [value_readAll, ← hjoined, occurrences_eq_places hscan]
  rwa [← hjoined] at hstanding

end Requirement

/-! ## Writing -/

/-- The edit that puts an import in the place of a requirement. -/
def importEdit (config : Config) (isDefault : Requirement → Option Bool) (r : Requirement) : Edit :=
  let start := r.start.getD 0
  ⟨start, start + r.raw.length, importOf config (isDefault r) r⟩

/-- The warnings about imports written in place of indented statements. -/
def nestedWarnings (rs : List Requirement) : List Warning :=
  (rs.filter isNested).map fun r => .nestedImport r.raw

/-- A requirement with well-formed bindings is written, whatever is known about default exports. -/
lemma namedImport_eq_ok {config : Config} {isDefault : Option Bool} {r : Requirement}
    (h : ∀ b ∈ r.bindings, Requirement.ProperBinding b) :
    namedImport config isDefault r = .ok (importOf config isDefault r) := by
  have hnone : unnamedBinding? (isDefault.getD r.hasDefault) r.bindings = none := by
    unfold unnamedBinding?
    rw [List.findIdx?_eq_none_iff]
    intro b hb
    by_cases hkey : b.key = wholeModule
    · simp [(h b hb).isSome_of_wholeModule hkey]
    · simp [hkey]
  unfold namedImport
  rw [hnone]

/-- A requirement is found where it stands. -/
lemma locate?_eq_some {content : Text} {taken : List Nat} {r : Requirement} {start : Nat}
    (hstart : r.start = some start) (h : standsAt r.raw content start = true) :
    locate? content taken r = some start := by
  unfold locate?
  rw [hstart]
  simp only [h, if_true]

/-- Requirements that stand in a text give one edit each, and no warning but those about nesting. -/
lemma run_importEdits {content : Text} {config : Config} {isDefault : Requirement → Option Bool}
    {offset : Nat} {taken : List Nat} {rs : List Requirement}
    (h : Requirement.Standing content offset rs)
    (hproper : ∀ r ∈ rs, ∀ b ∈ r.bindings, Requirement.ProperBinding b) :
    (importEdits content config isDefault taken rs).run =
      ⟨.ok (rs.map (importEdit config isDefault)), nestedWarnings rs⟩ := by
  induction rs generalizing offset taken with
  | nil => rfl
  | cons r rs ih =>
    obtain ⟨start, hstart, -, -, hstands, hrest⟩ := h
    rw [List.forall_mem_cons] at hproper
    have hedits : (do
          let edits ← importEdits content config isDefault (start :: taken) rs
          pure (⟨start, start + r.raw.length, importOf config (isDefault r) r⟩ :: edits) :
            Revision (List Edit)).run =
        ⟨.ok ((r :: rs).map (importEdit config isDefault)), nestedWarnings rs⟩ := by
      rw [Revision.run_bind_of_ok (ih hrest hproper.2)]
      simp [importEdit, hstart]
    rw [importEdits, locate?_eq_some hstart hstands]
    dsimp only
    rw [namedImport_eq_ok hproper.1, Revision.run_bind_of_ok (Revision.run_ofExcept _)]
    by_cases hnested : isNested r = true
    · rw [if_pos hnested, Revision.run_bind_of_ok (Revision.run_warn _), hedits]
      simp [nestedWarnings, hnested]
    · rw [if_neg hnested, hedits]
      simp [nestedWarnings, hnested]

/-- The edits of requirements that stand in a text do not reach into one another. -/
lemma separated_importEdits {content : Text} {config : Config}
    {isDefault : Requirement → Option Bool} {offset : Nat} {rs : List Requirement}
    (hoffset : offset ≤ content.length) (h : Requirement.Standing content offset rs) :
    Separated content.length offset (rs.map (importEdit config isDefault)) := by
  induction rs generalizing offset with
  | nil => exact hoffset
  | cons r rs ih =>
    obtain ⟨start, hstart, hle, -, hstands, hrest⟩ := h
    have hbound := (slice_of_standsAt hstands).2
    exact ⟨start, start + r.raw.length, by simp [importEdit, hstart], by simp [importEdit, hstart],
      hle, by omega, ih hbound hrest⟩

/-- **Requirements that stand in a text are all written**: the text is woven with an import in the
place of each, and only nesting is warned about. -/
lemma run_writeImports {content : Text} {config : Config} {isDefault : Requirement → Option Bool}
    {rs : List Requirement} (h : Requirement.Standing content 0 rs)
    (hproper : ∀ r ∈ rs, ∀ b ∈ r.bindings, Requirement.ProperBinding b) :
    (writeImports content config isDefault rs).run =
      ⟨.ok (weave content 0 (rs.map (importEdit config isDefault))), nestedWarnings rs⟩ := by
  have hne : ∀ e ∈ rs.map (importEdit config isDefault), e.start < e.stop := by
    intro e he
    obtain ⟨r, hr, rfl⟩ := List.mem_map.mp he
    obtain ⟨start, hstart, -, hraw, -⟩ := h.slice r hr
    have := List.length_pos_iff.mpr hraw
    simp only [importEdit]
    omega
  unfold writeImports
  rw [Revision.run_bind_of_ok (run_importEdits h hproper),
    applyEdits_eq_weave (separated_importEdits (Nat.zero_le _) h) hne]
  simp

/-- No requirement is reported as lost. -/
lemma lostRequire_not_mem (raw : Text) (rs : List Requirement) :
    Warning.lostRequire raw ∉ nestedWarnings rs := by
  simp [nestedWarnings]

/-- Without exports there is nothing to write into a text. -/
lemma run_write_of_isEmpty {content content' : Text} {experimental : Bool}
    (h : (Exports.read content experimental).value.isEmpty = true) :
    (Exports.write content' (Exports.read content experimental).value).run
      = ⟨.ok content', []⟩ := by
  unfold Exports.isEmpty at h
  simp only [Bool.and_eq_true, List.isEmpty_iff] at h
  obtain ⟨hraw, hinline⟩ := h
  have hproperties : (Exports.read content experimental).value.global.properties = [] :=
    properties_eq_nil_of_raw hraw
  have hglobal : (writeGlobal content' (Exports.read content experimental).value.global).run =
      ⟨.ok content', []⟩ := by
    unfold writeGlobal
    rw [hraw]
    rfl
  have hinlines : (writeInlines content' []).run = ⟨.ok content', []⟩ := by
    rw [writeInlines, longestFirst, List.mergeSort_nil]
    rfl
  have husages : (replaceUsages content' []).run = ⟨.ok content', []⟩ := by
    rw [replaceUsages, usageOrder, List.eraseDups_nil, List.mergeSort_nil]
    rfl
  unfold Exports.write Exports.names
  rw [Revision.run_bind_of_ok hglobal, hinline, hproperties, Revision.run_bind_of_ok hinlines,
    List.map_nil, List.map_nil, List.nil_append, husages]
  rfl

/-! ## The pass as a whole -/

/-- What is known about a whole module: there must be an index and a path to look from, and the
module must be named relative to that path. -/
lemma knownDefault_eq (index : Option DefaultIndex) (path : Option Text) :
    knownDefault index path = fun r =>
      if r.isWholeModule = true ∧ r.target.head? = some '.' then
        index.bind fun i => (path.filter (· ≠ [])).map fun p => i.isDefaultImport p r.target
      else none := by
  funext r
  unfold knownDefault Requirement.isRelative
  rcases index with _ | i
  · simp
  · rcases path with _ | _ | ⟨c, cs⟩
    · simp
    · simp [Option.filter]
    · simp [Option.filter]

/-- **The import pass touches exactly the statements that were read.** They stand in the text where
they were read, one behind the other; the pass does not fail, loses none of them, and gives the text
with an import in the place of each. The index decides about the default export of a module that is
required as a whole, by a relative path, from a file with a path. Without exports that is the
converted text. -/
theorem convertImports_eq_weave (content : Text) (path : Option Text) (config : Config)
    (index : Option DefaultIndex) :
    let rs := (Requirement.readAll content).value
    let isDefault : Requirement → Option Bool := fun r =>
      if r.isWholeModule = true ∧ r.target.head? = some '.' then
        index.bind fun i => (path.filter (· ≠ [])).map fun p => i.isDefaultImport p r.target
      else none
    let converted := weave content 0 (rs.map (importEdit config isDefault))
    (∀ r ∈ rs, ∃ start, r.start = some start ∧ r.raw ≠ []
        ∧ content.slice start (start + r.raw.length) = r.raw)
      ∧ (rs.Pairwise fun r r' => ∀ start start', r.start = some start → r'.start = some start' →
        start + r.raw.length ≤ start')
      ∧ (convertImports content path config index rs).run = ⟨.ok converted, nestedWarnings rs⟩
      ∧ (∀ raw, Warning.lostRequire raw ∉ nestedWarnings rs)
      ∧ ((Exports.read content config.experimental).value.isEmpty = true →
        (convert content path config index).run.value = .ok converted) := by
  intro rs isDefault converted
  have hstanding : Requirement.Standing content 0 rs := Requirement.standing_readAll content
  have hrun : (convertImports content path config index rs).run =
      ⟨.ok converted, nestedWarnings rs⟩ := by
    unfold convertImports
    rw [knownDefault_eq]
    exact run_writeImports hstanding Requirement.properBinding_readLines
  refine ⟨fun r hr => ?_, hstanding.pairwise, hrun, fun raw => lostRequire_not_mem raw rs, ?_⟩
  · obtain ⟨start, hstart, -, hne, hslice⟩ := hstanding.slice r hr
    exact ⟨start, hstart, hne, hslice⟩
  · intro hempty
    unfold convert
    rw [Revision.run_bind_of_ok (Revision.run_ofReported _),
      Revision.run_bind_of_ok (Revision.run_ofReported _)]
    dsimp only
    split_ifs with hnothing
    · -- nothing was read, so weaving leaves the text as it is
      have hnil : rs = [] := by
        rw [Bool.and_eq_true, List.isEmpty_iff] at hnothing
        exact hnothing.1
      show Except.ok content = Except.ok converted
      simp only [converted, hnil, List.map_nil, weave, List.drop_zero]
    · rw [Revision.run_bind_of_ok hrun, run_write_of_isEmpty hempty]

/-- A chained declaration is converted clause by clause, and what is declined stays. Of three
modules the index has two, and one of them is taken by its default export: of the other only a part
is required. -/
theorem convertImports_eq_weave_chained :
    (convert ("const a = require('./lib/b'),\n  c = require('./d').e;\n" ++
          "const x = require('./y');\nf(require('g'));\n").toList (some "src/a.js".toList) {}
        (some (.ofPaths "/".toList ["src/lib/b.js".toList, "/src/d.js".toList]))).run.value =
      .ok ("import a from './lib/b';\nimport \x7b e as c \x7d from './d';\n" ++
        "import * as x from './y';\nf(require('g'));\n").toList := by
  rw [(convertImports_eq_weave _ (some "src/a.js".toList) {} _).2.2.2.2 (by decide)]
  decide

end Esmify
