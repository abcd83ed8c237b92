import Esmify.Proofs.BlockStep
import Esmify.Proofs.Members

/-!
# Printed objects, read back line by line

Members of an object printed one below the other, each behind an indentation unit and followed by a
comma: a name, a name under another key, three dots and a name, a key with a value on one line, or a
key with a value of several lines (`PrintedItem`). **The line reader undoes the printing**
(`readBlock_blockText`): it finds the unit, and for each member the key, the lines of its value and
the comments above it.

Two things make a member readable. Its first line is a single piece (`SinglePiece`), so that it is
cut off at the comma behind it and nowhere else; and the lines of a longer value are never taken for
a new member (`InnerLine`), so that the value goes on until its brackets are closed. -/

namespace Esmify

open Text Source

/-! ## Pieces on one line -/

/-- No comma stands outside brackets in code `cs`. -/
def Undivided (cs : Text) : Prop :=
  ∀ front ∈ cs.inits, front ++ [','] <+: cs → depthOf front ≠ 0

instance (cs : Text) : Decidable (Undivided cs) :=
  inferInstanceAs (Decidable (∀ front ∈ cs.inits, _))

/-- A trimmed text on one line, without comments, that closes its literals and has no comma outside
brackets. -/
structure SinglePiece (t : Text) : Prop where
  firm : Firm t
  break_not_mem : '\n' ∉ t
  uncommented : stripComments t = t
  closed : modeAfter .code t = .code
  undivided : Undivided (codeText t)

/-- A comma leaves no brackets open. -/
lemma bracketDepth_append_comma (t : Text) : bracketDepth (t ++ [',']) = bracketDepth t := by
  have hcomma : Unbracketed (codeIn (modeAfter .code t) [',']) := by
    intro c hc
    rw [List.mem_singleton.mp (mem_of_mem_codeChars hc)]
    decide
  rw [bracketDepth_eq, bracketDepth_eq, codeIn_append _ _ ⟨by decide, by decide⟩, depthOf_append,
    depthOf_unbracketed hcomma, Int.add_zero]

/-- A bare front without brackets leaves none open. -/
lemma bracketDepth_bare_append {head : Text} (hbare : Bare head) (hbrackets : Unbracketed head)
    (t : Text) :
    bracketDepth (head ++ t) = bracketDepth t := by
  rw [bracketDepth_eq, bracketDepth_eq, codeIn_bare_append hbare, depthOf_append,
    depthOf_unbracketed hbrackets, Int.zero_add]

namespace SinglePiece

variable {t : Text}

/-- A single piece is its only part. -/
lemma partsFrom_eq (h : SinglePiece t) : partsFrom false .code 0 t = [t] := by
  have hundivided : ∀ front, front ++ [','] <+: codeIn .code t → 0 + depthOf front ≠ 0 := by
    intro front hfront
    rw [Int.zero_add]
    exact h.undivided front ((List.mem_inits _ _).mpr ((List.prefix_append _ _).trans hfront))
      hfront
  rw [partsFrom_eq_singleton hundivided]
  exact congrArg (fun u => [u]) h.uncommented

/-- A single piece is not blank. -/
lemma trim_ne_nil (h : SinglePiece t) : trim t ≠ [] := by
  obtain ⟨c, rest, rfl, -⟩ := h.firm.first
  rw [h.firm.trim]
  exact List.cons_ne_nil _ _

/-- A single piece is its only piece. -/
lemma pieces_eq (h : SinglePiece t) : pieces t = [t] := by
  rw [pieces, parts_eq, h.partsFrom_eq, piecesOf_cons, if_neg h.trim_ne_nil, h.firm.trim]
  rfl

/-- A comma behind a single piece with its brackets closed changes nothing. -/
lemma pieces_append_comma (h : SinglePiece t) (hdepth : bracketDepth t = 0) :
    pieces (t ++ [',']) = [t] := by
  obtain ⟨front, last, hparts, happend⟩ := exists_partsFrom_append false .code 0 t
    (show Calm [','] from ⟨by decide, by decide⟩)
  rw [h.partsFrom_eq] at hparts
  obtain ⟨rfl, hlast⟩ := List.append_inj' (show [] ++ [t] = front ++ [last] from hparts) rfl
  obtain ⟨rfl, -⟩ := List.cons.inj hlast
  have hcomma : partsFrom false (modeAfter .code t) (0 + depthOf (codeIn .code t)) [',']
      = [[], []] := by
    rw [h.closed, ← bracketDepth_eq, hdepth]
    rfl
  rw [pieces, parts_eq, happend [] [[]] hcomma, List.append_nil, List.nil_append, piecesOf_cons,
    if_neg h.trim_ne_nil, h.firm.trim]
  rfl

/-- A bare text without brackets in front of a single piece. -/
lemma append (h : SinglePiece t) {head : Text} (hbare : Bare head) (hbrackets : Unbracketed head)
    (hcomma : ',' ∉ head) (hbreak : '\n' ∉ head)
    (hfirst : ∃ c rest, head = c :: rest ∧ isBlank c = false) :
    SinglePiece (head ++ t) := by
  refine ⟨?_, ?_, ?_, ?_, ?_⟩
  · obtain ⟨c, rest, rfl, hc⟩ := hfirst
    obtain ⟨front, d, hlast, hd⟩ := h.firm.last
    exact ⟨⟨c, rest ++ t, rfl, hc⟩, c :: rest ++ front, d, by rw [hlast, List.append_assoc], hd⟩
  · rw [List.mem_append, not_or]
    exact ⟨hbreak, h.break_not_mem⟩
  · rw [stripComments_bare_append hbare, h.uncommented]
  · rw [modeAfter_bare_append hbare, h.closed]
  · rw [show codeText (head ++ t) = head ++ codeText t from codeIn_bare_append hbare t]
    rintro front - ⟨back, hback⟩
    rw [List.append_assoc] at hback
    obtain ⟨front', rfl, hrest⟩ := append_eq_append_cons_of_not_mem hcomma hback.symm
    have hprefix : front' ++ [','] <+: codeText t := ⟨back, by rw [hrest]; simp⟩
    rw [depthOf_append, depthOf_unbracketed hbrackets, Int.zero_add]
    exact h.undivided front' ((List.mem_inits _ _).mpr ((List.prefix_append _ _).trans hprefix))
      hprefix

end SinglePiece

/-- A text in which neither quote, slash, bracket, comma nor line break stands. -/
structure Wordy (t : Text) : Prop where
  bare : Bare t
  unbracketed : Unbracketed t
  comma_not_mem : ',' ∉ t
  break_not_mem : '\n' ∉ t

instance (t : Text) : Decidable (Wordy t) :=
  decidable_of_iff ((∀ c ∈ t, isQuote c = false ∧ c ≠ '/')
      ∧ (∀ c ∈ t, isOpener c = false ∧ isCloser c = false) ∧ ',' ∉ t ∧ '\n' ∉ t)
    ⟨fun h => ⟨h.1, h.2.1, h.2.2.1, h.2.2.2⟩,
      fun h => ⟨h.bare, h.unbracketed, h.comma_not_mem, h.break_not_mem⟩⟩

/-- Wordy texts one behind the other are wordy. -/
lemma Wordy.append {t u : Text} (ht : Wordy t) (hu : Wordy u) : Wordy (t ++ u) := by
  refine ⟨?_, ?_, ?_, ?_⟩
  · exact List.forall_mem_append.mpr ⟨ht.bare, hu.bare⟩
  · exact List.forall_mem_append.mpr ⟨ht.unbracketed, hu.unbracketed⟩
  · rw [List.mem_append, not_or]
    exact ⟨ht.comma_not_mem, hu.comma_not_mem⟩
  · rw [List.mem_append, not_or]
    exact ⟨ht.break_not_mem, hu.break_not_mem⟩

/-- A name is wordy. -/
lemma wordy_name (n : Name) : Wordy n.1 := by
  have hnot : ∀ c ∈ n.1, c ∉ "'\"\x60/()[]\x7b\x7d,\n".toList := by
    intro c hc hmem
    have hall : ∀ d ∈ "'\"\x60/()[]\x7b\x7d,\n".toList, isNameChar d = false := by decide
    exact n.2.not_mem (hall c hmem) hc
  refine ⟨?_, ?_, fun hc => hnot _ hc (by decide), fun hc => hnot _ hc (by decide)⟩
  · intro c hc
    have hne := hnot c hc
    simp at hne
    simp [isQuote, templateQuote, hne]
  · intro c hc
    have hne := hnot c hc
    simp at hne
    simp [isOpener, closerOf?, isCloser, hne]

/-- A name is a single piece. -/
lemma singlePiece_name (n : Name) : SinglePiece n.1 := by
  have hwordy := wordy_name n
  refine ⟨n.2.firm, hwordy.break_not_mem, stripComments_bare hwordy.bare, ?_, ?_⟩
  · have hmode := modeAfter_bare_append hwordy.bare []
    rwa [List.append_nil] at hmode
  · rintro front - hfront
    have hcode := codeIn_bare_append hwordy.bare []
    rw [List.append_nil] at hcode
    rw [show codeText n.1 = n.1 ++ [] from hcode, List.append_nil] at hfront
    exact absurd (hfront.subset (by simp)) hwordy.comma_not_mem

/-- A key with its colon is wordy. -/
lemma wordy_key (key : Name) : Wordy (key.1 ++ ": ".toList) :=
  (wordy_name key).append (by decide)

/-- A key in front of a single piece. -/
lemma singlePiece_keyValue (key : Name) {v : Text} (h : SinglePiece v) :
    SinglePiece (key.1 ++ (": ".toList ++ v)) := by
  obtain ⟨c, rest, hcons, hc⟩ := key.2.firm.first
  have hwordy := wordy_key key
  rw [← List.append_assoc]
  refine h.append hwordy.bare hwordy.unbracketed hwordy.comma_not_mem hwordy.break_not_mem ?_
  exact ⟨c, rest ++ ": ".toList, by rw [hcons]; rfl, hc⟩

/-- A member leaves open what its value does. -/
lemma bracketDepth_keyValue (key : Name) (v : Text) :
    bracketDepth (key.1 ++ (": ".toList ++ v)) = bracketDepth v := by
  rw [← List.append_assoc]
  exact bracketDepth_bare_append (wordy_key key).bare (wordy_key key).unbracketed v

/-- A name leaves no brackets open. -/
lemma bracketDepth_name (n : Name) : bracketDepth n.1 = 0 := by
  have hdepth := bracketDepth_bare_append (wordy_name n).bare (wordy_name n).unbracketed []
  rwa [List.append_nil] at hdepth

/-! ## Printed members -/

/-- A value on one line that is not a name. -/
structure ShortValue where
  text : Text
  single : SinglePiece text
  balanced : bracketDepth text = 0
  not_name : isName text = false

/-- A line of a longer value: it is empty, or begins like no member does. -/
structure InnerLine (t : Text) : Prop where
  break_not_mem : '\n' ∉ t
  trimmed : trimEnd t = t
  inside : (∀ c ∈ t.head?, isIndent c = true ∨ isCloser c = true) ∨ "//".toList <+: t
    ∨ "/*".toList <+: t

/-- The number of brackets open behind some lines, `depth` of them before the first. -/
def depthBehind (depth : Int) (lines : List Text) : Int :=
  lines.foldl (fun depth line => depth + bracketDepth line) depth

/-- A value of several lines. Brackets stay open before the last line, which closes them. -/
structure LongValue where
  first : Text
  middle : List Text
  last : Text
  single : SinglePiece first
  inner : ∀ line ∈ middle ++ [last], InnerLine line
  uncommented : stripComments last = last
  unclosed : ∀ front ∈ middle.inits, 0 < depthBehind (bracketDepth first) front
  balanced : depthBehind (bracketDepth first) middle + bracketDepth last = 0

/-- The lines of a value. -/
def LongValue.lines (v : LongValue) : List Text :=
  v.first :: (v.middle ++ [v.last])

/-- A line comment. -/
structure CommentLine where
  text : Text
  slashes : "//".toList <+: text
  break_not_mem : '\n' ∉ text
  trimmed : trimEnd text = text

/-- What a member is printed as. -/
inductive PrintedItem
  /-- `name` -/
  | name (n : Name)
  /-- `key: name` -/
  | renamed (key n : Name)
  /-- `...name` -/
  | spread (n : Name)
  /-- `key: value` -/
  | value (key : Name) (v : ShortValue)
  /-- `key: value`, the value going on over several lines -/
  | block (key : Name) (v : LongValue)

/-- A member with the comments above it. -/
structure PrintedMember where
  comments : List CommentLine
  item : PrintedItem

/-- The lines of a member without indentation, a comma behind them. -/
def PrintedItem.lines : PrintedItem → List Text
  | .name n => [n.1 ++ [',']]
  | .renamed key n => [key.1 ++ (": ".toList ++ n.1) ++ [',']]
  | .spread n => ["...".toList ++ n.1 ++ [',']]
  | .value key v => [key.1 ++ (": ".toList ++ v.text) ++ [',']]
  | .block key v => (key.1 ++ (": ".toList ++ v.first)) :: (v.middle ++ [v.last ++ [',']])

/-- What the member is. -/
def PrintedItem.member : PrintedItem → Member
  | .name n => .property n.1
  | .renamed key n => .property (if n = key then key.1 else key.1 ++ ':' :: n.1)
  | .spread n => .keySet n.1
  | .value key v => .assignment key.1 v.text
  | .block key v => .assignment key.1 (unlines v.lines)

/-- A line behind the indentation unit; an empty line stays empty. -/
def indented (unit line : Text) : Text :=
  if line = [] then [] else unit ++ line

namespace PrintedMember

/-- The lines of a member and of the comments above it. -/
def lines (unit : Text) (m : PrintedMember) : List Text :=
  (m.comments.map CommentLine.text ++ m.item.lines).map (indented unit)

/-- The comments above a member as one text. -/
def comment? (m : PrintedMember) : Option Text :=
  if m.comments.isEmpty then none else some (unlines (m.comments.map CommentLine.text))

end PrintedMember

/-- Members printed between two line breaks. -/
def blockText (unit : Text) (ms : List PrintedMember) : Text :=
  '\n' :: (unlines (ms.flatMap (PrintedMember.lines unit)) ++ ['\n'])

/-! ## One line at a time -/

section kinds

/-- A line that begins like neither a comment nor the end of a block is one of members. -/
lemma kind_member {c : Char} {rest : Text} (hfirm : Firm (c :: rest)) (hc : isBlank c = false)
    (hslash : c ≠ '/') (hclose : isCloser c = false) : LineKind.of (c :: rest) = .member := by
  have hindent : isIndent c = false := by
    rw [← Bool.not_eq_true]
    intro h
    rw [isBlank_of_isIndent h] at hc
    exact absurd hc (by decide)
  have hne : (c == '/') = false := beq_false_of_ne hslash
  unfold LineKind.of
  rw [hfirm.trim]
  simp [hindent, hne, hclose]

/-- A text that begins visibly and has no white space at its end is firm. -/
lemma firm_of_trimEnd {c : Char} {rest : Text} (hc : isBlank c = false)
    (htrim : trimEnd (c :: rest) = c :: rest) : Firm (c :: rest) := by
  refine ⟨⟨c, rest, rfl, hc⟩, ?_⟩
  obtain ⟨-, -, -, hlast⟩ := trimEnd_split (c :: rest)
  rw [htrim] at hlast
  refine ⟨(c :: rest).dropLast, (c :: rest).getLast (List.cons_ne_nil _ _),
    (List.dropLast_append_getLast _).symm, hlast _ (List.getLast?_eq_some_getLast _)⟩

/-- A comment line is read as one. -/
lemma kind_comment (c : CommentLine) : LineKind.of c.text = .lineComment := by
  obtain ⟨rest, hrest⟩ := c.slashes
  have htrim := c.trimmed
  rw [← hrest] at htrim ⊢
  have hfirm : Firm ("//".toList ++ rest) := firm_of_trimEnd (by decide) htrim
  unfold LineKind.of
  rw [hfirm.trim]
  rfl

/-- A line of a longer value is not taken for one of members, whatever stands behind it. -/
lemma kind_inner {t : Text} (h : InnerLine t) (hne : t ≠ []) (back : Text) :
    LineKind.of (t ++ back) ≠ .member := by
  obtain ⟨c, rest, rfl⟩ := List.exists_cons_of_ne_nil hne
  rcases h.inside with hfirst | ⟨rest', hcons⟩ | ⟨rest', hcons⟩
  · rcases hfirst c rfl with hindent | hclose
    · unfold LineKind.of
      split
      · decide
      · simp [hindent]
    · have hfirm : Firm [c] := ⟨⟨c, [], rfl, (isBlank_of_isCloser hclose).1⟩,
        ⟨[], c, rfl, (isBlank_of_isCloser hclose).1⟩⟩
      obtain ⟨rest', htrim⟩ := hfirm.exists_trim_append (rest ++ back)
      unfold LineKind.of
      rw [show trim (c :: rest ++ back) = c :: rest' from htrim]
      dsimp only
      split_ifs
      all_goals decide
  · have hfirm : Firm "//".toList := ⟨⟨'/', ['/'], rfl, by decide⟩, ⟨['/'], '/', rfl, by decide⟩⟩
    obtain ⟨rest'', htrim⟩ := hfirm.exists_trim_append (rest' ++ back)
    have hkind : LineKind.of ("//".toList ++ (rest' ++ back)) = .lineComment := by
      unfold LineKind.of
      rw [htrim]
      rfl
    rw [← hcons, List.append_assoc, hkind]
    decide
  · have hfirm : Firm "/*".toList := ⟨⟨'/', ['*'], rfl, by decide⟩, ⟨['/'], '*', rfl, by decide⟩⟩
    obtain ⟨rest'', htrim⟩ := hfirm.exists_trim_append (rest' ++ back)
    have hkind : LineKind.of ("/*".toList ++ (rest' ++ back)) = .commentStart := by
      unfold LineKind.of
      rw [htrim]
      rfl
    rw [← hcons, List.append_assoc, hkind]
    decide

end kinds

namespace BlockReader

variable {r : BlockReader}

/-- A line that is not empty stands behind the indentation. -/
lemma indented_eq {line : Text} (hne : line ≠ []) (unit : Text) :
    indented unit line = unit ++ line :=
  if_neg hne

/-- A text without white space at its end ends visibly. -/
lemma getLast?_of_trimEnd {t : Text} (h : trimEnd t = t) :
    ∀ c, t.getLast? = some c → isBlank c = false := by
  obtain ⟨-, -, -, hlast⟩ := trimEnd_split t
  rwa [h] at hlast

/-- A comment waits for a member. -/
lemma feed_comment (c : CommentLine) (hstate : r.state = .scanning) :
    r.feed (indented r.indent c.text) = .ok { r with comments := r.comments ++ [c.text] } := by
  have hne : c.text ≠ [] := by
    rintro heq
    have hslashes := c.slashes
    rw [heq] at hslashes
    exact absurd hslashes (by decide)
  rw [indented_eq hne, feed_scanning hstate (bodyOf_append r hne (getLast?_of_trimEnd c.trimmed)),
    scanLine, kind_comment]

/-- Comments wait for a member, one after the other. -/
lemma feedAll_comments (cs : List CommentLine) (hstate : r.state = .scanning) :
    r.feedAll ((cs.map CommentLine.text).map (indented r.indent)) =
      .ok { r with comments := r.comments ++ cs.map CommentLine.text } := by
  induction cs generalizing r with
  | nil => simp [feedAll]
  | cons c cs ih =>
    have hrest := ih (r := { r with comments := r.comments ++ [c.text] }) hstate
    rw [List.map_cons, List.map_cons, feedAll_cons (feed_comment c hstate)]
    rw [hrest]
    simp

/-- The start of a line of members. -/
def BeginsMember (t : Text) : Prop :=
  ∃ c rest, t = c :: rest ∧ isBlank c = false ∧ c ≠ '/' ∧ isCloser c = false

/-- A name begins a member. -/
lemma beginsMember_name (n : Name) (rest : Text) : BeginsMember (n.1 ++ rest) := by
  obtain ⟨c, cs, hcons, hc⟩ := n.2.firm.first
  have hmem : c ∈ n.1 := by
    rw [hcons]
    exact List.mem_cons_self
  exact ⟨c, cs ++ rest, by rw [hcons]; rfl, hc, ((wordy_name n).bare c hmem).2,
    ((wordy_name n).unbracketed c hmem).2⟩

/-- A line that begins like a member is read as one of members. -/
lemma feed_start {t : Text} (hbegins : BeginsMember t) (htrim : Firm t)
    (hstate : r.state = .scanning) :
    r.feed (indented r.indent t) = r.startMember t := by
  obtain ⟨c, rest, rfl, hc, hslash, hclose⟩ := hbegins
  obtain ⟨front, d, hlast, hd⟩ := htrim.last
  have hend : ∀ x, (c :: rest).getLast? = some x → isBlank x = false := by
    intro x hx
    rw [hlast, List.getLast?_concat] at hx
    exact Option.some.inj hx ▸ hd
  rw [indented_eq (List.cons_ne_nil _ _),
    feed_scanning hstate (bodyOf_append r (List.cons_ne_nil _ _) hend), scanLine,
    kind_member htrim hc hslash hclose]

/-- **A member on one line** is added with the comments that wait for it. -/
lemma feed_member {t : Text} {m : Member} (h : SinglePiece t) (hdepth : bracketDepth t = 0)
    (hbegins : BeginsMember t) (hparse : Member.parse t = .ok m) (hstate : r.state = .scanning) :
    r.feed (indented r.indent (t ++ [','])) =
      .ok { r with comments := [], exports := r.exports.add r.comment? m } := by
  have hbegins' : BeginsMember (t ++ [',']) := by
    obtain ⟨c, rest, rfl, hc⟩ := hbegins
    exact ⟨c, rest ++ [','], rfl, hc⟩
  have hfirm : Firm (t ++ [',']) := by
    obtain ⟨c, rest, rfl, hc⟩ := h.firm.first
    exact ⟨⟨c, rest ++ [','], rfl, hc⟩, ⟨c :: rest, ',', rfl, by decide⟩⟩
  have hadd : r.addPieces [t] = .ok (r.addMember m) := by
    rw [addPieces, addPiece, hparse]
    rfl
  rw [feed_start hbegins' hfirm hstate, startMember_eq, bracketDepth_append_comma, hdepth,
    h.pieces_append_comma hdepth, hadd]
  cases m with
  | property name => rfl
  | keySet name => rfl
  | assignment key value => rfl

/-! ## Values of several lines -/

/-- **A member that leaves brackets open** begins a value. -/
lemma feed_header (key : Name) {first : Text} (h : SinglePiece first)
    (hdepth : 0 < bracketDepth first) (hstate : r.state = .scanning) :
    r.feed (indented r.indent (key.1 ++ (": ".toList ++ first))) =
      .ok { r with state := .block key.1 [first] (bracketDepth first) } := by
  have hsingle := singlePiece_keyValue key h
  have hheader : openHeader (key.1 ++ (": ".toList ++ first)) = .ok (key.1, first) := by
    rw [openHeader, keyValue?_append key h.firm]
  rw [feed_start (beginsMember_name key _) hsingle.firm hstate, startMember_eq,
    bracketDepth_keyValue, hsingle.pieces_eq, if_neg (by omega), if_neg (by omega)]
  simp only [List.dropLast_singleton, List.getLast?_singleton, Option.getD_some, addPieces, hheader]

/-- The body of an indented line is the line. -/
lemma bodyOf_indented (r : BlockReader) {line : Text} (h : trimEnd line = line) :
    r.bodyOf (indented r.indent line) = .ok line := by
  by_cases hne : line = []
  · rw [hne]
    rfl
  · rw [indented_eq hne]
    exact bodyOf_append r hne (getLast?_of_trimEnd h)

/-- **A line inside a value** is added to it while brackets stay open. -/
lemma feed_inner {key line : Text} {lines : List Text} {depth : Int} (h : InnerLine line)
    (hstate : r.state = .block key lines depth) (hdepth : 0 < depth + bracketDepth line) :
    r.feed (indented r.indent line) =
      .ok { r with state := .block key (lines ++ [line]) (depth + bracketDepth line) } := by
  have hkind : LineKind.of line ≠ .member := by
    by_cases hne : line = []
    · rw [hne]
      decide
    · have hinner := kind_inner h hne []
      rwa [List.append_nil] at hinner
  rw [feed_block hstate (bodyOf_indented r h.trimmed), blockLine_eq hkind, continueBlock,
    if_neg (by omega), if_neg (by omega)]

/-- The lines inside a value, one after the other. -/
lemma feedAll_inner {key : Text} {lines middle : List Text} {depth : Int}
    (h : ∀ line ∈ middle, InnerLine line) (hstate : r.state = .block key lines depth)
    (hdepth : ∀ front ∈ middle.inits, 0 < depthBehind depth front) :
    r.feedAll (middle.map (indented r.indent)) =
      .ok { r with state := .block key (lines ++ middle) (depthBehind depth middle) } := by
  induction middle generalizing r lines depth with
  | nil => simp [feedAll, depthBehind, ← hstate]
  | cons line middle ih =>
    obtain ⟨hline, hmiddle⟩ := List.forall_mem_cons.mp h
    have hfirst : 0 < depth + bracketDepth line :=
      hdepth [line] (by rw [List.mem_inits]; exact ⟨middle, rfl⟩)
    rw [List.map_cons, feedAll_cons (feed_inner hline hstate hfirst)]
    refine (ih hmiddle rfl fun front hfront => ?_).trans ?_
    · exact hdepth (line :: front) (by
        rw [List.mem_inits] at hfront ⊢
        exact List.cons_prefix_cons.mpr ⟨rfl, hfront⟩)
    · rw [List.append_assoc]
      rfl

/-- The comma behind the last line of a value is not part of it. -/
lemma lastLine_append_comma {last : Text} (hcomments : stripComments last = last)
    (htrim : trimEnd last = last) :
    lastLine (last ++ [',']) = last := by
  have hmode := uncommented_modeAfter rfl hcomments
  have hcomma : stripFrom (modeAfter .code last) [','] = [','] := by
    cases hm : modeAfter .code last with
    | code => rfl
    | literal quote =>
      by_cases hquote : ',' = quote
      · rw [← hquote]
        rfl
      · simp [stripFrom, Mode.step, hquote]
    | escaped quote => rfl
    | lineComment | commentOpening | blockComment | commentClosing =>
      rw [hm] at hmode
      exact absurd hmode (by decide)
  have hstrip : stripComments (last ++ [',']) = last ++ [','] := by
    unfold stripComments at hcomments ⊢
    rw [stripFrom_append _ _ ⟨by decide, by decide⟩, hcomments, hcomma]
  have hend : trimEnd (last ++ [',']) = last ++ [','] := trimEnd_concat last (by decide)
  unfold lastLine
  dsimp only
  rw [hstrip, hend, List.getLast?_concat, List.dropLast_concat, htrim]
  rfl

/-- **The line that closes the brackets** ends the value. -/
lemma feed_last {key last : Text} {lines : List Text} {depth : Int} (h : InnerLine last)
    (hcomments : stripComments last = last) (hstate : r.state = .block key lines depth)
    (hopen : 0 < depth) (hdepth : depth + bracketDepth last = 0) :
    r.feed (indented r.indent (last ++ [','])) =
      .ok { r with
        state := .scanning
        comments := []
        exports := r.exports.add r.comment? (.assignment key (unlines (lines ++ [last]))) } := by
  have hne : last ≠ [] := by
    rintro rfl
    rw [show bracketDepth [] = 0 from rfl] at hdepth
    omega
  have htrim : trimEnd (last ++ [',']) = last ++ [','] := trimEnd_concat last (by decide)
  rw [feed_block hstate (bodyOf_indented r htrim), blockLine_eq (kind_inner h hne [',']),
    continueBlock, bracketDepth_append_comma, if_neg (by omega), if_pos hdepth, flush,
    List.dropLast_concat, List.getLast?_concat, Option.getD_some,
    lastLine_append_comma hcomments h.trimmed]

/-- **A value of several lines** is read up to the line that closes its brackets. -/
lemma feedAll_block (key : Name) (v : LongValue) (hstate : r.state = .scanning) :
    r.feedAll ((PrintedItem.block key v).lines.map (indented r.indent)) =
      .ok { r with
        comments := []
        exports := r.exports.add r.comment? (PrintedItem.block key v).member } := by
  obtain ⟨hmiddle, hlast⟩ := List.forall_mem_append.mp v.inner
  have hfirst : 0 < bracketDepth v.first :=
    v.unclosed [] (by rw [List.mem_inits]; exact List.nil_prefix)
  have hopen : 0 < depthBehind (bracketDepth v.first) v.middle :=
    v.unclosed v.middle (by rw [List.mem_inits])
  rw [PrintedItem.lines, List.map_cons, feedAll_cons (feed_header key v.single hfirst hstate),
    List.map_append]
  refine (feedAll_append (feedAll_inner hmiddle rfl v.unclosed) _).trans ?_
  refine (feedAll_cons (feed_last (hlast _ (List.mem_singleton_self _)) v.uncommented rfl hopen
    v.balanced) []).trans ?_
  rw [← hstate]
  rfl

/-! ## Members -/

/-- **A member is read as what it is**, with the comments that wait for it. -/
lemma feedAll_item (item : PrintedItem) (hstate : r.state = .scanning) :
    r.feedAll (item.lines.map (indented r.indent)) =
      .ok { r with comments := [], exports := r.exports.add r.comment? item.member } := by
  cases item with
  | name n =>
    have hname : BeginsMember n.1 := by
      have hbegins := beginsMember_name n []
      rwa [List.append_nil] at hbegins
    exact feedAll_cons (feed_member (singlePiece_name n) (bracketDepth_name n) hname
      (Member.parse_name n) hstate) []
  | renamed key n =>
    exact feedAll_cons (feed_member (singlePiece_keyValue key (singlePiece_name n))
      (by rw [bracketDepth_keyValue, bracketDepth_name]) (beginsMember_name key _)
      (Member.parse_renamed key n) hstate) []
  | spread n =>
    have hwordy : Wordy "...".toList := by decide
    have hsingle : SinglePiece ("...".toList ++ n.1) :=
      (singlePiece_name n).append hwordy.bare hwordy.unbracketed hwordy.comma_not_mem
        hwordy.break_not_mem ⟨'.', "..".toList, rfl, by decide⟩
    have hdepth : bracketDepth ("...".toList ++ n.1) = 0 := by
      rw [bracketDepth_bare_append hwordy.bare hwordy.unbracketed, bracketDepth_name]
    exact feedAll_cons (feed_member hsingle hdepth ⟨'.', _, rfl, by decide, by decide, by decide⟩
      (Member.parse_spread n) hstate) []
  | value key v =>
    exact feedAll_cons (feed_member (singlePiece_keyValue key v.single)
      (by rw [bracketDepth_keyValue, v.balanced]) (beginsMember_name key _)
      (Member.parse_value key v.single.firm v.not_name) hstate) []
  | block key v => exact feedAll_block key v hstate

/-- A member and the comments above it. -/
lemma feedAll_member (m : PrintedMember) (hstate : r.state = .scanning)
    (hcomments : r.comments = []) :
    r.feedAll (m.lines r.indent) =
      .ok { r with exports := r.exports.add m.comment? m.item.member } := by
  have hwaiting := feedAll_comments m.comments hstate
  rw [hcomments, List.nil_append] at hwaiting
  have hitem : BlockReader.feedAll { r with comments := m.comments.map CommentLine.text }
      (m.item.lines.map (indented r.indent)) = _ := feedAll_item m.item hstate
  have hcomment : comment? { r with comments := m.comments.map CommentLine.text } = m.comment? := by
    unfold comment? PrintedMember.comment?
    rw [List.isEmpty_map]
  rw [hcomment] at hitem
  rw [PrintedMember.lines, List.map_append, feedAll_append hwaiting, hitem, hcomments]

/-- **Members are read one after the other.** -/
lemma feedAll_members (ms : List PrintedMember) (hstate : r.state = .scanning)
    (hcomments : r.comments = []) :
    r.feedAll (ms.flatMap (PrintedMember.lines r.indent)) =
      .ok { r with exports := ms.foldl (fun e m => e.add m.comment? m.item.member) r.exports } := by
  induction ms generalizing r with
  | nil => rfl
  | cons m ms ih =>
    have hrest : BlockReader.feedAll { r with exports := r.exports.add m.comment? m.item.member }
        (ms.flatMap (PrintedMember.lines r.indent)) = _ := ih hstate hcomments
    rw [List.flatMap_cons, feedAll_append (feedAll_member m hstate hcomments), hrest,
      List.foldl_cons]

end BlockReader

/-! ## The whole text -/

/-- The member as a value with the comments above it. -/
def PrintedMember.assignment? (m : PrintedMember) : Option Assignment :=
  match m.item.member with
  | .assignment key value => some ⟨key, value, m.comment?⟩
  | _ => none

/-- Members added one after the other are listed by their kinds. -/
lemma foldl_add (e : GlobalExports) (ms : List PrintedMember) :
    ms.foldl (fun e m => e.add m.comment? m.item.member) e =
      { e with
        properties := e.properties ++ ms.filterMap (·.item.member.property?)
        keySets := e.keySets ++ ms.filterMap (·.item.member.keySet?)
        assignments := e.assignments ++ ms.filterMap PrintedMember.assignment? } := by
  induction ms generalizing e with
  | nil => simp
  | cons m ms ih =>
    rw [List.foldl_cons, ih]
    simp only [List.filterMap_cons, PrintedMember.assignment?]
    cases m.item.member with
    | property name => simp [GlobalExports.add, Member.property?, Member.keySet?]
    | keySet name => simp [GlobalExports.add, Member.property?, Member.keySet?]
    | assignment key value => simp [GlobalExports.add, Member.property?, Member.keySet?]

/-- Some spaces and tabs. -/
abbrev Indentation := {t : Text // t ≠ [] ∧ ∀ c ∈ t, isIndent c = true}

/-- The unit is found in front of a line that begins with something else than white space. -/
lemma detectUnit_cons (unit : Indentation) {line : Text}
    (hline : ∃ c rest, line = c :: rest ∧ isBlank c = false) (lines : List Text) :
    detectUnit ((unit.1 ++ line) :: lines) = .ok unit.1 := by
  obtain ⟨c, rest, rfl, hc⟩ := hline
  have hindent : isIndent c = false := by
    rw [← Bool.not_eq_true]
    intro h
    rw [isBlank_of_isIndent h] at hc
    exact absurd hc (by decide)
  have hblank : isBlankText (unit.1 ++ c :: rest) = false := by
    rw [isBlankText, List.all_eq_false]
    exact ⟨c, by simp, by simp [hc]⟩
  have hunit : indentation (unit.1 ++ c :: rest) = unit.1 :=
    takeWhile_append_cons unit.2.2 hindent rest
  have hne : (unit.1).isEmpty = false := List.isEmpty_eq_false_iff.mpr unit.2.1
  rw [detectUnit, hblank, hunit, hne]
  rfl

/-- The lines of a text between two line breaks. -/
lemma lines_between {ls : List Text} (hne : ls ≠ []) (hbreak : ∀ line ∈ ls, '\n' ∉ line) :
    Text.lines ('\n' :: (unlines ls ++ ['\n'])) = [] :: (ls ++ [[]]) := by
  have hjoin : '\n' :: (unlines ls ++ ['\n']) = unlines ([] :: (ls ++ [[]])) := by
    have hhead := unlines_append (List.cons_ne_nil [] [])
        (List.append_ne_nil_of_left_ne_nil hne [[]])
    rw [unlines_append hne (List.cons_ne_nil _ _)] at hhead
    exact hhead.symm
  rw [hjoin]
  refine List.splitOn_intercalate '\n' ?_ (List.cons_ne_nil _ _)
  intro line hline
  rcases List.mem_cons.mp hline with rfl | hline
  · simp
  · rcases List.mem_append.mp hline with hline | hline
    · exact hbreak line hline
    · rw [List.mem_singleton.mp hline]
      simp

namespace PrintedItem

/-- A member begins with something else than white space. -/
lemma exists_first (item : PrintedItem) :
    ∃ line rest, item.lines = line :: rest ∧ ∃ c cs, line = c :: cs ∧ isBlank c = false := by
  have hname : ∀ (n : Name) (t : Text), ∃ c cs, n.1 ++ t = c :: cs ∧ isBlank c = false := by
    intro n t
    obtain ⟨c, cs, hcons, hc⟩ := n.2.firm.first
    exact ⟨c, cs ++ t, by rw [hcons]; rfl, hc⟩
  cases item with
  | name n => exact ⟨_, _, rfl, hname n _⟩
  | renamed key n =>
    refine ⟨_, _, rfl, ?_⟩
    rw [List.append_assoc]
    exact hname key _
  | spread n => exact ⟨_, _, rfl, '.', _, rfl, by decide⟩
  | value key v =>
    refine ⟨_, _, rfl, ?_⟩
    rw [List.append_assoc]
    exact hname key _
  | block key v => exact ⟨_, _, rfl, hname key _⟩

/-- The lines of an item are lines. -/
lemma break_not_mem_lines (item : PrintedItem) : ∀ line ∈ item.lines, '\n' ∉ line := by
  have hkey : ∀ (key : Name) {t : Text}, '\n' ∉ t → '\n' ∉ key.1 ++ (": ".toList ++ t) := by
    intro key t ht
    simp [(wordy_name key).break_not_mem, ht]
  have hcomma : ∀ {t : Text}, '\n' ∉ t → '\n' ∉ t ++ [','] := by
    intro t ht
    simp [ht]
  cases item with
  | name n => exact List.forall_mem_singleton.mpr (hcomma (wordy_name n).break_not_mem)
  | renamed key n =>
    exact List.forall_mem_singleton.mpr (hcomma (hkey key (wordy_name n).break_not_mem))
  | spread n =>
    refine List.forall_mem_singleton.mpr (hcomma ?_)
    simp [(wordy_name n).break_not_mem]
  | value key v => exact List.forall_mem_singleton.mpr (hcomma (hkey key v.single.break_not_mem))
  | block key v =>
    obtain ⟨hmiddle, hlast⟩ := List.forall_mem_append.mp v.inner
    refine List.forall_mem_cons.mpr ⟨hkey key v.single.break_not_mem,
      List.forall_mem_append.mpr ⟨?_, ?_⟩⟩
    · exact fun line hline => (hmiddle line hline).break_not_mem
    · exact List.forall_mem_singleton.mpr
        (hcomma (hlast _ (List.mem_singleton_self _)).break_not_mem)

end PrintedItem

namespace PrintedMember

/-- The first line of a member is one with the unit in front. -/
lemma exists_first (unit : Text) (m : PrintedMember) :
    ∃ line rest, m.lines unit = (unit ++ line) :: rest ∧ ∃ c cs, line = c :: cs
      ∧ isBlank c = false := by
  have hindented : ∀ {line : Text}, (∃ c cs, line = c :: cs ∧ isBlank c = false) →
      indented unit line = unit ++ line := by
    rintro line ⟨c, cs, rfl, -⟩
    exact if_neg (List.cons_ne_nil _ _)
  unfold lines
  cases m.comments with
  | nil =>
    obtain ⟨line, rest, hlines, hline⟩ := m.item.exists_first
    rw [List.map_nil, List.nil_append, hlines, List.map_cons, hindented hline]
    exact ⟨line, _, rfl, hline⟩
  | cons c cs =>
    have hline : ∃ x xs, c.text = x :: xs ∧ isBlank x = false := by
      obtain ⟨rest, hrest⟩ := c.slashes
      exact ⟨'/', '/' :: rest, hrest.symm, by decide⟩
    rw [List.map_cons, List.cons_append, List.map_cons, hindented hline]
    exact ⟨c.text, _, rfl, hline⟩

/-- The lines of a member are lines. -/
lemma break_not_mem_lines (unit : Indentation) (m : PrintedMember) :
    ∀ line ∈ m.lines unit.1, '\n' ∉ line := by
  have hunit : '\n' ∉ unit.1 := fun hmem => absurd (unit.2.2 _ hmem) (by decide)
  intro line hline
  obtain ⟨body, hbody, rfl⟩ := List.mem_map.mp hline
  have hbreak : '\n' ∉ body := by
    rcases List.mem_append.mp hbody with hmem | hmem
    · obtain ⟨c, -, rfl⟩ := List.mem_map.mp hmem
      exact c.break_not_mem
    · exact m.item.break_not_mem_lines body hmem
  unfold indented
  split_ifs
  · simp
  · rw [List.mem_append, not_or]
    exact ⟨hunit, hbreak⟩

end PrintedMember

/-- **The line reader undoes the printing.** Members printed one below the other behind a common
indentation are read back: the names, the objects whose keys are exported, and the values with their
keys and the comments above them. -/
theorem readBlock_blockText (unit : Indentation) (ms : List PrintedMember) :
    readBlock (blockText unit.1 ms) =
      .ok { properties := ms.filterMap (·.item.member.property?)
            keySets := ms.filterMap (·.item.member.keySet?)
            assignments := ms.filterMap PrintedMember.assignment? } := by
  cases ms with
  | nil => rfl
  | cons m ms =>
    obtain ⟨line, rest, hfirst, hline⟩ := m.exists_first unit.1
    have hne : (m :: ms).flatMap (PrintedMember.lines unit.1) ≠ [] := by
      rw [List.flatMap_cons, hfirst]
      exact List.cons_ne_nil _ _
    have hbreak : ∀ line ∈ (m :: ms).flatMap (PrintedMember.lines unit.1), '\n' ∉ line := by
      intro line hmem
      obtain ⟨m', -, hmem⟩ := List.mem_flatMap.mp hmem
      exact m'.break_not_mem_lines unit line hmem
    have hunit : detectUnit ((m :: ms).flatMap (PrintedMember.lines unit.1) ++ [[]])
        = .ok unit.1 := by
      rw [List.flatMap_cons, hfirst]
      exact detectUnit_cons unit hline _
    have hread : BlockReader.feedAll { indent := unit.1 }
        ((m :: ms).flatMap (PrintedMember.lines unit.1) ++ [[]]) = _ :=
      BlockReader.feedAll_append (BlockReader.feedAll_members (m :: ms) rfl rfl) [[]]
    have hlines : (blockText unit.1 (m :: ms)).lines =
        [] :: ((m :: ms).flatMap (PrintedMember.lines unit.1) ++ [[]]) := lines_between hne hbreak
    rw [foldl_add] at hread
    have hrun : readBlock (blockText unit.1 (m :: ms)) =
        (detectUnit ((m :: ms).flatMap (PrintedMember.lines unit.1) ++ [[]])).bind fun indent =>
          (BlockReader.feedAll { indent := indent }
            ((m :: ms).flatMap (PrintedMember.lines unit.1) ++ [[]])).bind BlockReader.finish := by
      unfold readBlock
      rw [hlines]
      rfl
    rw [hrun, hunit, Except.bind, hread]
    rfl

/-- Two members: one with a comma in a literal, and one that goes on over an empty line and a
comment with a bracket. -/
def commentedMembers : List PrintedMember :=
  [⟨[⟨"// one".toList, by decide, by decide, by decide⟩,
    ⟨"//".toList, by decide, by decide, by decide⟩],
      .value ⟨"e".toList, 'e', [], rfl, by decide, by decide⟩
        ⟨"f(1, ',')".toList,
          ⟨⟨⟨'f', _, rfl, by decide⟩, "f(1, ','".toList, ')',
            rfl, by decide⟩, by decide, by decide, by decide, by decide⟩,
          by decide, by decide⟩⟩,
    ⟨[],
      .block ⟨"g".toList, 'g', [], rfl, by decide, by decide⟩
        ⟨"function () \x7b".toList, [[], "  // \x7d".toList], "\x7d".toList,
          ⟨⟨⟨'f', _, rfl, by decide⟩, "function () ".toList, '\x7b',
            rfl, by decide⟩, by decide, by decide, by decide, by decide⟩,
          by
            have hinner : ∀ t ∈ [[], "  // \x7d".toList, "\x7d".toList], '\n' ∉ t ∧ trimEnd t = t
                ∧ t.head?.all (fun c => isIndent c || isCloser c) = true := by decide
            intro t ht
            obtain ⟨hbreak, htrim, hfirst⟩ := hinner t ht
            refine ⟨hbreak, htrim, Or.inl fun c hc => ?_⟩
            rw [← Bool.or_eq_true]
            exact (Option.all_eq_true _ _).mp hfirst c hc,
          by decide, by decide, by decide⟩⟩]

/-- A member with a comment of two lines, and one with a function over several lines, are read
back. -/
theorem readBlock_blockText_commented :
    readBlock
      "\n  // one\n  //\n  e: f(1, ','),\n  g: function () \x7b\n\n    // \x7d\n  \x7d,\n".toList =
      .ok { assignments :=
        [⟨"e".toList, "f(1, ',')".toList, some "// one\n//".toList⟩,
          ⟨"g".toList, "function () \x7b\n\n  // \x7d\n\x7d".toList, none⟩] } := by
  have htext : blockText "  ".toList commentedMembers =
      "\n  // one\n  //\n  e: f(1, ','),\n  g: function () \x7b\n\n    // \x7d\n  \x7d,\n".toList :=
    by decide
  rw [← htext]
  exact readBlock_blockText ⟨"  ".toList, by decide, by decide⟩ commentedMembers

end Esmify
