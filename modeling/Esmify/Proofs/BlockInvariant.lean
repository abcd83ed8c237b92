import Esmify.Proofs.Balance
import Esmify.Proofs.BlockHeader
import Esmify.Proofs.BlockParser
import Esmify.Proofs.PrintedBlock

/-!
# What the line reader keeps

The reader of an object literal is inside a value, inside a comment, or looking for the next member.
**In every state that lines can lead to, it is inside a value exactly when brackets are open**, and
then their number is what the lines of the value leave open (`BlockReader.Consistent`). A line is
declined only for what is wrong with the structure of the object, and what has been exported stays
as it is (`BlockReader.Safe`).

The number is counted on a whole line of members, while only the rewritten end of that line is kept
as the first line of a value. Both count alike: the last piece of a line leaves open what the line
does (`exists_last_piece`), and what a header loses or gains on its way to a first line has no
bracket in it (`bracketDepth_openHeader`).

`feed_safe` is the step, `feedAll_safe` the run. The parser that keeps the mode, the key, the lines
and the depth in fields of their own runs alike (`BlockParser.feedAll_fields`), so its fields fit
together after every line (`BlockParser.Consistent`). -/

namespace Esmify

open Text Source

/-! ## The last piece of a line -/

/-- **A line that leaves brackets open does so in its last piece**, and has one. -/
lemma exists_last_piece {t : Text} (h : 0 < bracketDepth t) :
    ∃ last, (pieces t).getLast? = some last ∧ bracketDepth last = bracketDepth t := by
  obtain ⟨front, last, hparts, hdepth⟩ := exists_last_part (stripComments t)
  rw [bracketDepth_stripComments] at hdepth
  have hne : trim last ≠ [] := by
    intro hnil
    rw [← bracketDepth_trim, hnil] at hdepth
    exact absurd (hdepth ▸ h) (by decide)
  refine ⟨trim last, ?_, by rw [bracketDepth_trim, hdepth]⟩
  rw [pieces, parts, hparts, piecesOf_append, piecesOf_cons, if_neg hne]
  exact List.getLast?_concat

/-! ## Headers -/

/-- What stands in a header in front of its value or its parameters. -/
def HeaderChar (c : Char) : Prop :=
  isNameChar c = true ∨ isBlank c = true ∨ c = ':' ∨ c = '*'

/-- The front of a header has no brackets, no quotes and no comment marks. -/
lemma bracketDepth_header_append {head : Text} (h : ∀ c ∈ head, HeaderChar c) (t : Text) :
    bracketDepth (head ++ t) = bracketDepth t := by
  have hnot : ∀ c ∈ head, c ∉ "'\"\x60/()[]\x7b\x7d".toList := by
    intro c hc hmem
    have hall : ∀ d ∈ "'\"\x60/()[]\x7b\x7d".toList,
        isNameChar d = false ∧ isBlank d = false ∧ d ≠ ':' ∧ d ≠ '*' := by decide
    obtain ⟨hname, hblank, hcolon, hstar⟩ := hall c hmem
    rcases h c hc with hc | hc | hc | hc
    · exact absurd hc (by simp [hname])
    · exact absurd hc (by simp [hblank])
    · exact hcolon hc
    · exact hstar hc
  apply bracketDepth_bare_append
  · intro c hc
    have hne := hnot c hc
    simp at hne
    simp [isQuote, templateQuote, hne]
  · intro c hc
    have hne := hnot c hc
    simp at hne
    simp [isOpener, closerOf?, isCloser, hne]

/-- A name has no brackets, quotes or comment marks. -/
lemma headerChars_of_name {name : Text} (h : ProperName name) : ∀ c ∈ name, HeaderChar c :=
  fun c hc => Or.inl (h.forall_isNameChar c hc)

/-- Blanks are no brackets, quotes or comment marks. -/
lemma headerChars_of_blanks {blanks : Text} (h : ∀ c ∈ blanks, isBlank c = true) :
    ∀ c ∈ blanks, HeaderChar c :=
  fun c hc => Or.inr (Or.inl (h c hc))

/-- The star of a generator and the blanks behind it are no brackets, quotes or comment marks. -/
lemma StarFront.headerChars {isGenerator : Bool} {front : Text} (h : StarFront isGenerator front) :
    ∀ c ∈ front, HeaderChar c := by
  cases isGenerator with
  | true =>
    obtain ⟨gap, hgap, rfl⟩ := h
    exact List.forall_mem_cons.mpr ⟨Or.inr (Or.inr (Or.inr rfl)), headerChars_of_blanks hgap⟩
  | false =>
    obtain rfl : front = [] := h
    exact fun c hc => absurd hc List.not_mem_nil

/-- The head of a method without `async` stands in front of its parameters. -/
lemma bracketDepth_plainHead? {isAsync : Bool} {t : Text} {m : MethodHead}
    (h : plainHead? isAsync t = some m) :
    ProperName m.name ∧ bracketDepth t = bracketDepth m.fromParams := by
  obtain ⟨-, hproper, front, gap, params, hfront, hgap, hparams, rfl⟩ := plainHead?_eq_some_iff.mp h
  refine ⟨hproper, ?_⟩
  rw [hparams, bracketDepth_header_append hfront.headerChars,
    bracketDepth_header_append (headerChars_of_name hproper),
    bracketDepth_header_append (headerChars_of_blanks hgap)]

/-- A method head has no brackets of its own, and a proper name. -/
lemma bracketDepth_methodHead? {t : Text} {m : MethodHead} (h : methodHead? t = some m) :
    ProperName m.name ∧ bracketDepth t = bracketDepth m.fromParams := by
  rcases Option.or_eq_some_iff.mp h with h | ⟨-, h⟩
  · obtain ⟨rest, hword, hm⟩ := Option.bind_eq_some_iff.mp h
    obtain ⟨blanks, -, hblanks, rfl, -⟩ := spacedWord?_eq_some_iff.mp hword
    have hasync : ∀ c ∈ "async".toList, HeaderChar c :=
      headerChars_of_name ⟨'a', "sync".toList, rfl, by decide, by decide⟩
    rw [bracketDepth_header_append hasync,
      bracketDepth_header_append (headerChars_of_blanks hblanks)]
    exact bracketDepth_plainHead? hm
  · exact bracketDepth_plainHead? h

/-- A method as a function leaves open what its parameters and its body do. -/
lemma bracketDepth_asFunction? {m : MethodHead} {value : Text} (hname : ProperName m.name)
    (h : m.asFunction? = some value) : bracketDepth value = bracketDepth m.fromParams := by
  unfold MethodHead.asFunction? at h
  split at h
  · next close hclose =>
    by_cases hbody : (trimStart (m.fromParams.drop (close + 1))).head? == some '\x7b'
    · rw [if_pos hbody] at h
      obtain rfl := Option.some.inj h
      have hwords : ∀ c ∈ (if m.isAsync then "async ".toList else []) ++ "function".toList
          ++ (if m.isGenerator then ['*'] else []) ++ [' '], HeaderChar c := by
        unfold HeaderChar
        cases m.isAsync <;> cases m.isGenerator <;> decide
      rw [List.append_cons, List.append_assoc, bracketDepth_header_append hwords,
        bracketDepth_header_append (headerChars_of_name hname)]
    · rw [if_neg hbody] at h
      exact absurd h (by simp)
  · exact absurd h (by simp)

/-- **The first line of a value leaves open what its header does.** -/
lemma bracketDepth_openHeader {header key first : Text}
    (h : BlockReader.openHeader header = .ok (key, first)) :
    bracketDepth first = bracketDepth header := by
  unfold BlockReader.openHeader at h
  split at h
  · next kv hkv =>
    obtain rfl := Except.ok.inj h
    obtain ⟨gap, c, cs, hkey, hgap, rfl, rfl⟩ := keyValue?_eq_some_iff.mp hkv
    have hcolon : ∀ x ∈ [':'], HeaderChar x :=
      List.forall_mem_singleton.mpr (Or.inr (Or.inr (Or.inl rfl)))
    rw [bracketDepth_trim, bracketDepth_header_append (headerChars_of_name hkey),
      bracketDepth_header_append (headerChars_of_blanks hgap)]
    exact (bracketDepth_header_append hcolon (c :: cs)).symm
  · split at h
    · next m hm =>
      split at h
      · next value hvalue =>
        obtain ⟨rfl, rfl⟩ := Prod.mk.inj (Except.ok.inj h)
        obtain ⟨hname, hdepth⟩ := bracketDepth_methodHead? hm
        rw [hdepth, bracketDepth_asFunction? hname hvalue]
      · exact absurd h (by simp)
    · exact absurd h (by simp)

/-! ## The invariant -/

/-- The reader is in the middle of a value. -/
def BlockState.InBlock (s : BlockState) : Prop :=
  ∃ key lines depth, s = .block key lines depth

/-- What is true of a reader between two lines. -/
structure BlockReader.Consistent (r : BlockReader) : Prop where
  depth_pos : r.state.InBlock ↔ 0 < r.state.depth
  key : r.state.InBlock ↔ r.state.key?.isSome
  lines : r.state.InBlock ↔ r.state.lines ≠ []
  depth_eq : r.state.InBlock → r.state.depth = depthBehind 0 r.state.lines
  outside : ¬ r.state.InBlock → r.state.depth = 0 ∧ r.state.key? = none ∧ r.state.lines = []
  comment : r.state = .comment → r.comments ≠ []

/-- The lists of the one are those of the other with entries added at their ends; all else is
kept. -/
structure GlobalExports.Extends (e e' : GlobalExports) : Prop where
  properties : e.properties <+: e'.properties
  keySets : e.keySets <+: e'.keySets
  assignments : e.assignments <+: e'.assignments
  kept : e'.raw = e.raw ∧ e'.direct = e.direct ∧ e'.start = e.start

/-- What can be wrong with the structure of an object. -/
def structureReasons : List Reason :=
  [.exportsInvalidTabulation, .exportsUnterminated, .exportsInvalidMember]

/-- A line with the wrong indentation is a fault of structure. -/
lemma invalidTabulation_mem : Reason.exportsInvalidTabulation ∈ structureReasons := by decide

/-- Brackets that do not fit are a fault of structure. -/
lemma unterminated_mem : Reason.exportsUnterminated ∈ structureReasons := by decide

/-- A text that is no member is a fault of structure. -/
lemma invalidMember_mem : Reason.exportsInvalidMember ∈ structureReasons := by decide

/-- What a step of the reader may come to when `e` has been exported: a consistent reader that has
exported more, or a fault of structure. -/
def BlockReader.Safe (e : GlobalExports) : Except Rejection BlockReader → Prop
  | .ok r => r.Consistent ∧ e.Extends r.exports
  | .error rejection => rejection.reason ∈ structureReasons

namespace GlobalExports.Extends

variable {e e' e'' : GlobalExports}

/-- No entries are added. -/
lemma refl (e : GlobalExports) : e.Extends e :=
  ⟨List.prefix_rfl, List.prefix_rfl, List.prefix_rfl, rfl, rfl, rfl⟩

/-- Entries are added to what entries were added to. -/
lemma trans (h : e.Extends e') (h' : e'.Extends e'') : e.Extends e'' :=
  ⟨h.properties.trans h'.properties, h.keySets.trans h'.keySets, h.assignments.trans h'.assignments,
    h'.kept.1.trans h.kept.1, h'.kept.2.1.trans h.kept.2.1, h'.kept.2.2.trans h.kept.2.2⟩

/-- A member is added at the end of its list. -/
lemma add (e : GlobalExports) (comment : Option Text) (m : Member) :
    e.Extends (e.add comment m) := by
  cases m with
  | property name => exact ⟨List.prefix_append _ _, List.prefix_rfl, List.prefix_rfl, rfl, rfl, rfl⟩
  | keySet name => exact ⟨List.prefix_rfl, List.prefix_append _ _, List.prefix_rfl, rfl, rfl, rfl⟩
  | assignment key value =>
    exact ⟨List.prefix_rfl, List.prefix_rfl, List.prefix_append _ _, rfl, rfl, rfl⟩

end GlobalExports.Extends

/-- A text that cannot be read as a member is rejected as such. -/
lemma Member.reason_of_parse {t : Text} {rejection : Rejection}
    (h : Member.parse t = .error rejection) :
    rejection.reason = .exportsInvalidMember := by
  unfold Member.parse at h
  repeat' split at h
  all_goals cases h
  all_goals rfl

namespace BlockReader

variable {r r' : BlockReader}

/-! ### Consistent states -/

/-- A reader that looks for members is consistent. -/
lemma consistent_scanning (h : r.state = .scanning) : r.Consistent := by
  have hout : ¬ r.state.InBlock := by
    rintro ⟨key, lines, depth, hstate⟩
    exact absurd (h.symm.trans hstate) (by simp)
  refine ⟨?_, ?_, ?_, fun hin => absurd hin hout, fun _ => ?_, fun hcomment => ?_⟩
  · exact iff_of_false hout (by rw [h]; decide)
  · exact iff_of_false hout (by rw [h]; decide)
  · exact iff_of_false hout (by rw [h]; decide)
  · rw [h]
    exact ⟨rfl, rfl, rfl⟩
  · exact absurd (h.symm.trans hcomment) (by decide)

/-- A reader inside a comment is consistent when it has a line of it. -/
lemma consistent_comment (h : r.state = .comment) (hcomments : r.comments ≠ []) : r.Consistent := by
  have hout : ¬ r.state.InBlock := by
    rintro ⟨key, lines, depth, hstate⟩
    exact absurd (h.symm.trans hstate) (by simp)
  refine ⟨?_, ?_, ?_, fun hin => absurd hin hout, fun _ => ?_, fun _ => hcomments⟩
  · exact iff_of_false hout (by rw [h]; decide)
  · exact iff_of_false hout (by rw [h]; decide)
  · exact iff_of_false hout (by rw [h]; decide)
  · rw [h]
    exact ⟨rfl, rfl, rfl⟩

/-- A reader inside a value is consistent when the depth is positive and that of its lines. -/
lemma consistent_block {key : Text} {lines : List Text} {depth : Int}
    (h : r.state = .block key lines depth) (hpos : 0 < depth)
    (hdepth : depth = depthBehind 0 lines) : r.Consistent := by
  have hin : r.state.InBlock := ⟨key, lines, depth, h⟩
  have hlines : lines ≠ [] := by
    rintro rfl
    exact absurd (hdepth ▸ hpos) (by decide)
  refine ⟨?_, ?_, ?_, fun _ => ?_, fun hout => absurd hin hout, fun hcomment => ?_⟩
  · exact iff_of_true hin (by rw [h]; exact hpos)
  · exact iff_of_true hin (by rw [h]; rfl)
  · exact iff_of_true hin (by rw [h]; exact hlines)
  · rw [h]
    exact hdepth
  · exact absurd (h.symm.trans hcomment) (by simp)

/-- Inside a value the depth is that of the lines read so far, and positive. -/
lemma Consistent.of_block {key : Text} {lines : List Text} {depth : Int} (h : r.Consistent)
    (hstate : r.state = .block key lines depth) : 0 < depth ∧ depth = depthBehind 0 lines := by
  have hin : r.state.InBlock := ⟨key, lines, depth, hstate⟩
  have hpos := h.depth_pos.mp hin
  have hdepth := h.depth_eq hin
  rw [hstate] at hpos hdepth
  exact ⟨hpos, hdepth⟩

/-! ### Lines of members -/

/-- Pieces are added one after the other, or one of them is no member. -/
lemma addPieces_cases (r : BlockReader) (ps : List Text) :
    (∃ r', r.addPieces ps = .ok r' ∧ r'.state = r.state ∧ r.exports.Extends r'.exports)
      ∨ ∃ rejection, r.addPieces ps = .error rejection ∧ rejection.reason ∈ structureReasons := by
  induction ps generalizing r with
  | nil => exact Or.inl ⟨r, rfl, rfl, .refl _⟩
  | cons p ps ih =>
    rw [addPieces, addPiece]
    cases hparse : Member.parse p with
    | error rejection =>
      refine Or.inr ⟨rejection, rfl, ?_⟩
      rw [Member.reason_of_parse hparse]
      exact invalidMember_mem
    | ok m =>
      have hadd : (r.addMember m).state = r.state ∧ r.exports.Extends (r.addMember m).exports := by
        cases m with
        | property name => exact ⟨rfl, .add r.exports none (.property name)⟩
        | keySet name => exact ⟨rfl, .add r.exports none (.keySet name)⟩
        | assignment key value => exact ⟨rfl, .add r.exports r.comment? (.assignment key value)⟩
      rcases ih (r.addMember m) with ⟨r', hrest, hstate, hextends⟩ | hrest
      · exact Or.inl ⟨r', hrest, hstate.trans hadd.1, hadd.2.trans hextends⟩
      · exact Or.inr hrest

/-- A header that cannot be read is a fault of structure. -/
lemma reason_of_openHeader {header : Text} {rejection : Rejection}
    (h : openHeader header = .error rejection) : rejection.reason ∈ structureReasons := by
  unfold openHeader at h
  repeat' split at h
  all_goals cases h
  all_goals exact invalidMember_mem

/-- A line of members is safe: the depth that it leaves is that of its last piece. -/
lemma startMember_safe (hstate : r.state = .scanning) (body : Text) :
    Safe r.exports (r.startMember body) := by
  rw [startMember_eq]
  split_ifs with hneg hzero
  · exact unterminated_mem
  · rcases r.addPieces_cases (pieces body) with ⟨r', hadd, hsame, hextends⟩
      | ⟨rejection, hadd, hreason⟩
    · rw [hadd]
      exact ⟨consistent_scanning (hsame.trans hstate), hextends⟩
    · rw [hadd]
      exact hreason
  · have hpos : 0 < bracketDepth body := by omega
    obtain ⟨last, hlast, hdepth⟩ := exists_last_piece hpos
    rcases r.addPieces_cases (pieces body).dropLast with
      ⟨r', hadd, hsame, hextends⟩ | ⟨rejection, hadd, hreason⟩
    · rw [hadd, hlast, Option.getD_some]
      dsimp only
      cases hopen : openHeader last with
      | error rejection => exact reason_of_openHeader hopen
      | ok header =>
        obtain ⟨key, first⟩ := header
        refine ⟨consistent_block rfl hpos ?_, hextends⟩
        rw [← hdepth, ← bracketDepth_openHeader hopen]
        exact (Int.zero_add _).symm
    · rw [hadd]
      exact hreason

/-! ### One line -/

/-- A line of a value is safe: the depth goes on from that of the lines before it. -/
lemma continueBlock_safe {key : Text} {lines : List Text} {depth : Int}
    (hdepth : depth = depthBehind 0 lines) (body : Text) :
    Safe r.exports (r.continueBlock key lines depth body) := by
  have hmore : depth + bracketDepth body = depthBehind 0 (lines ++ [body]) := by
    unfold depthBehind
    rw [List.foldl_append, hdepth]
    rfl
  unfold continueBlock
  dsimp only
  split_ifs with hneg hzero
  · exact unterminated_mem
  · exact ⟨consistent_scanning rfl, .add r.exports r.comment? (.assignment key _)⟩
  · exact ⟨consistent_block rfl (by omega) hmore, .refl _⟩

/-- A line between members is safe. -/
lemma scanLine_safe (hstate : r.state = .scanning) (body : Text) :
    Safe r.exports (r.scanLine body) := by
  unfold scanLine
  cases LineKind.of body with
  | blank => exact ⟨consistent_scanning hstate, .refl _⟩
  | lineComment => exact ⟨consistent_scanning hstate, .refl _⟩
  | commentStart =>
    dsimp only
    split_ifs
    · exact ⟨consistent_scanning hstate, .refl _⟩
    · exact ⟨consistent_comment rfl (by simp), .refl _⟩
  | member => exact startMember_safe hstate body
  | continuation => exact invalidTabulation_mem
  | blockEnd => exact unterminated_mem

/-- A line inside a value is safe. -/
lemma blockLine_safe {key : Text} {lines : List Text} {depth : Int}
    (hdepth : depth = depthBehind 0 lines) (body : Text) :
    Safe r.exports (r.blockLine key lines depth body) := by
  by_cases hkind : LineKind.of body = .member
  · unfold blockLine
    rw [hkind]
    exact unterminated_mem
  · rw [blockLine_eq hkind]
    exact continueBlock_safe hdepth body

/-- A line without the indentation unit is a fault of structure. -/
lemma reason_of_bodyOf {line : Text} {rejection : Rejection}
    (h : r.bodyOf line = .error rejection) :
    rejection.reason ∈ structureReasons := by
  unfold bodyOf at h
  split_ifs at h
  split at h
  · exact absurd h (by simp)
  · obtain rfl := Except.error.inj h
    exact invalidTabulation_mem

/-- **One line keeps the reader consistent**, or is declined for a fault of structure. -/
lemma feed_safe (h : r.Consistent) (line : Text) : Safe r.exports (r.feed line) := by
  cases hstate : r.state with
  | scanning =>
    cases hbody : r.bodyOf line with
    | ok body =>
      rw [feed_scanning hstate hbody]
      exact scanLine_safe hstate body
    | error rejection =>
      unfold feed
      rw [hstate]
      simp only [hbody]
      exact reason_of_bodyOf hbody
  | comment =>
    unfold feed
    rw [hstate]
    dsimp only
    split_ifs
    · exact ⟨consistent_scanning rfl, .refl _⟩
    · exact ⟨consistent_comment rfl (by simp), .refl _⟩
  | block key lines depth =>
    cases hbody : r.bodyOf line with
    | ok body =>
      rw [feed_block hstate hbody]
      exact blockLine_safe (h.of_block hstate).2 body
    | error rejection =>
      unfold feed
      rw [hstate]
      simp only [hbody]
      exact reason_of_bodyOf hbody

/-- **Lines keep the reader consistent**, up to the first one that is declined. -/
lemma feedAll_safe (h : r.Consistent) (lines : List Text) : Safe r.exports (r.feedAll lines) := by
  induction lines generalizing r with
  | nil => exact ⟨h, .refl _⟩
  | cons line lines ih =>
    have hstep := feed_safe h line
    rw [feedAll]
    cases hfeed : r.feed line with
    | error rejection =>
      rw [hfeed] at hstep
      exact hstep
    | ok next =>
      rw [hfeed] at hstep
      have hrest := ih hstep.1
      dsimp only
      cases hall : next.feedAll lines with
      | error rejection =>
        rw [hall] at hrest
        exact hrest
      | ok r' =>
        rw [hall] at hrest
        exact ⟨hrest.1, hstep.2.trans hrest.2⟩

end BlockReader

/-! ## The fields of the parser -/

/-- What is true of the fields of a parser between two lines. -/
structure BlockParser.Consistent (p : BlockParser) : Prop where
  depth_pos : p.mode = .block ↔ 0 < p.depth
  key : p.mode = .block ↔ p.pendingKey.isSome
  lines : p.mode = .block ↔ p.pendingLines ≠ []
  depth_eq : p.mode = .block → p.depth = depthBehind 0 p.pendingLines
  outside : p.mode ≠ .block → p.depth = 0 ∧ p.pendingKey = none ∧ p.pendingLines = []
  comment : p.mode = .comment → p.comments ≠ []

/-- What a line may lead a parser to when `e` has been exported. -/
def BlockParser.Safe (e : GlobalExports) : Except Rejection BlockParser → Prop
  | .ok p => p.Consistent ∧ e.Extends p.exports
  | .error rejection => rejection.reason ∈ structureReasons

namespace BlockReader

variable {r : BlockReader}

/-- The mode of a reader says whether it is in the middle of a value. -/
lemma mode_eq_block_iff : r.fields.mode = .block ↔ r.state.InBlock := by
  show r.state.mode = .block ↔ r.state.InBlock
  cases r.state with
  | scanning => exact iff_of_false (by decide) (by rintro ⟨key, lines, depth, ⟨⟩⟩)
  | comment => exact iff_of_false (by decide) (by rintro ⟨key, lines, depth, ⟨⟩⟩)
  | block key lines depth => exact iff_of_true rfl ⟨key, lines, depth, rfl⟩

/-- The fields of a consistent reader fit together. -/
lemma Consistent.fields (h : r.Consistent) : r.fields.Consistent where
  depth_pos := mode_eq_block_iff.trans h.depth_pos
  key := mode_eq_block_iff.trans h.key
  lines := mode_eq_block_iff.trans h.lines
  depth_eq hmode := h.depth_eq (mode_eq_block_iff.mp hmode)
  outside hmode := h.outside fun hin => hmode (mode_eq_block_iff.mpr hin)
  comment hmode := by
    refine h.comment ?_
    change r.state.mode = .comment at hmode
    cases hstate : r.state with
    | comment => rfl
    | scanning =>
      rw [hstate] at hmode
      cases hmode
    | block key lines depth =>
      rw [hstate] at hmode
      cases hmode

/-- A line that is safe for a reader is safe for its fields. -/
lemma Safe.fields {e : GlobalExports} {result : Except Rejection BlockReader} (h : Safe e result) :
    BlockParser.Safe e (result.map BlockReader.fields) := by
  cases result with
  | error rejection => exact h
  | ok r => exact ⟨h.1.fields, h.2⟩

/-! ## Reachable readers -/

/-- A line of members that leaves brackets open has a last piece, which the reader takes for the
header of a value. -/
lemma pieces_ne_nil {body : Text} (h : 0 < bracketDepth (trim (stripComments body))) :
    piecesOf (splitTopLevel (trim (stripComments body)) ',') ≠ [] := by
  rw [bracketDepth_trim, bracketDepth_stripComments] at h
  obtain ⟨last, hlast, -⟩ := exists_last_piece h
  rw [pieces_trim_stripComments]
  rintro hnil
  exact absurd hlast (by simp [hnil])

/-- **Every reader that lines can lead to is consistent, and so is the next.** Whatever the
indentation unit and the lines read so far, the reader is inside a value exactly when it has open
brackets, a key and lines; the next line extends the exports and leads to such a reader again, or it
is declined for a fault of structure. The same holds of the parser with the mode, the key, the lines
and the depth in fields of their own, which runs alike on any lines. A header is only looked for
where there is one. -/
theorem feedAll_consistent {unit : Text} {lines : List Text} {r : BlockReader}
    (h : feedAll { indent := unit } lines = .ok r) :
    r.Consistent ∧ (∀ line, Safe r.exports (r.feed line))
      ∧ (∀ lines', BlockParser.feedAll { indent := unit } lines'
          = (feedAll { indent := unit } lines').map BlockReader.fields)
      ∧ BlockParser.feedAll { indent := unit } lines = .ok r.fields ∧ r.fields.Consistent
      ∧ (∀ line, BlockParser.Safe r.fields.exports (r.fields.feed line))
      ∧ ∀ body, 0 < bracketDepth (trim (stripComments body)) →
          piecesOf (splitTopLevel (trim (stripComments body)) ',') ≠ [] := by
  have hrun := feedAll_safe (consistent_scanning (r := { indent := unit }) rfl) lines
  rw [h] at hrun
  have halike := BlockParser.feedAll_fields { indent := unit }
  refine ⟨hrun.1, fun line => feed_safe hrun.1 line, halike, ?_, hrun.1.fields, fun line => ?_,
    fun body hbody => pieces_ne_nil hbody⟩
  · exact (halike lines).trans (by rw [h]; rfl)
  · rw [BlockParser.feed_fields]
    exact (feed_safe hrun.1 line).fields

/-- A reader inside the method of an object, behind a comment and two members on one line, and the
parser with its fields; the line that opens the method has a last piece. -/
theorem feedAll_consistent_method :
    let r : BlockReader :=
      { indent := "  ".toList
        state := .block "run".toList ["async function run(x) \x7b".toList, "  go([x,".toList] 3
        comments := ["/* how it".toList, "   runs */".toList]
        exports := { properties := ["a".toList, "b:c".toList] } }
    let p : BlockParser :=
      { indent := "  ".toList
        mode := .block
        comments := ["/* how it".toList, "   runs */".toList]
        pendingKey := some "run".toList
        pendingLines := ["async function run(x) \x7b".toList, "  go([x,".toList]
        depth := 3
        exports := { properties := ["a".toList, "b:c".toList] } }
    let lines := ["  a, b: c,", "  /* how it", "     runs */", "  async run(x) \x7b // (",
      "    go([x,"].map String.toList
    let body := "async run(x) \x7b // (".toList
    feedAll { indent := "  ".toList } lines = .ok r
      ∧ r.Consistent ∧ (∀ line, Safe r.exports (r.feed line))
      ∧ BlockParser.feedAll { indent := "  ".toList } lines = .ok p
      ∧ p.Consistent ∧ (∀ line, BlockParser.Safe p.exports (p.feed line))
      ∧ 0 < bracketDepth (trim (stripComments body))
      ∧ piecesOf (splitTopLevel (trim (stripComments body)) ',') ≠ [] := by
  intro r p lines body
  have hrun : feedAll { indent := "  ".toList } lines = .ok r := by decide
  have hopen : 0 < bracketDepth (trim (stripComments body)) := by decide
  obtain ⟨hconsistent, hsafe, -, hparser, hfields, hnext, hpieces⟩ := feedAll_consistent hrun
  exact ⟨hrun, hconsistent, hsafe, hparser, hfields, hnext, hopen, hpieces body hopen⟩

end BlockReader

end Esmify
