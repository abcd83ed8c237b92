import Esmify.Proofs.Lines
import Esmify.Proofs.RequireGrammar

/-!
# Programs of `require` statements, written and read

A program is a list of statements, one below the other: a call alone, a declaration, a declaration
of one member, or a chain of clauses that commas join (`SourceStatement`). Each statement is written
as lines, one for each of its calls (`SourceStatement.calls`).

**A program that is written is read back** (`readAll_program`): one requirement for each call, in
order, and no warning. One line is read behind a comma or not, and leaves a comma behind it or not
(`Call.Reads`); a program is a run of such lines (`Linked`), and the reader follows the run. -/

namespace Esmify.Requirement

open Text Source

/-! ## Programs -/

/-- A later clause of a declaration: white space, a left-hand side and a module. -/
structure Clause where
  indent : Text
  left : LeftHand
  asked : QuotedModule
  blank : ∀ c ∈ indent, isBlank c = true ∧ c ≠ '\n'
  free : left.Free

/-- A statement that the reader supports. -/
inductive SourceStatement
  /-- A call that binds nothing. -/
  | load (asked : QuotedModule)
  | declare (keyword : Keyword) (left : LeftHand) (asked : QuotedModule)
  /-- A declaration that takes one member from the module. -/
  | member (keyword : Keyword) (name : Name) (asked : QuotedModule) (path : Name)
  /-- A declaration of several clauses, each on a line of its own. -/
  | chain (keyword : Keyword) (left : LeftHand) (asked : QuotedModule) (middle : List Clause)
    (last : Clause)

/-- A line of a program with the call in it. -/
structure Call where
  line : Text
  asked : QuotedModule
  bindings : List Binding := []
  /-- The name of the module as a whole. -/
  whole? : Option Text := none
  chained : Bool := false

/-- What is to be read of a call whose line begins at `start`. -/
def Call.requirement (c : Call) (content : Text) (start : Nat) : Requirement :=
  { target := c.asked.target
    raw := c.line
    quote := [c.asked.quote]
    bindings := c.bindings
    hasDefault := isPackage c.asked.target && c.whole?.any (isUsedAsValue content)
    chained := c.chained
    indent := none
    start := some start }

/-- The line of one clause. -/
def Call.ofClause (front : Text) (l : LeftHand) (m : QuotedModule) (e : Ending) (chained : Bool) :
    Call :=
  ⟨clauseLine front l m e, m, l.bindings, l.whole?, chained⟩

/-- The lines of a statement. -/
def SourceStatement.calls : SourceStatement → List Call
  | .load m => [{ line := m.call ++ Ending.semicolon.text, asked := m }]
  | .declare k l m => [.ofClause (k.1 ++ [' ']) l m .semicolon false]
  | .member k x m p =>
    [{ line := clauseLine (k.1 ++ [' ']) (.name x) m (.member p), asked := m,
       bindings := [GroupMember.binding ⟨p, some x⟩] }]
  | .chain k l m middle last =>
    .ofClause (k.1 ++ [' ']) l m .comma true ::
      ((middle.map fun c => .ofClause c.indent c.left c.asked .comma true) ++
        [.ofClause last.indent last.left last.asked .semicolon true])

/-- The lines of a program. -/
def programCalls (program : List SourceStatement) : List Call :=
  program.flatMap SourceStatement.calls

/-- A program as it is written. -/
def programText (ended : Bool) (program : List SourceStatement) : Text :=
  linesText ended ((programCalls program).map Call.line)

/-- What is to be read of calls whose lines stand one below the other from `offset` on. -/
def requirementsFrom (content : Text) : (offset : Nat) → List Call → List Requirement
  | _, [] => []
  | offset, c :: cs =>
    c.requirement content offset :: requirementsFrom content (offset + c.line.length + 1) cs

/-! ## One line -/

/-- The line of a call is read as the call says; `continued` says that it follows a comma, and
`next` that a comma ends it. -/
structure Call.Reads (c : Call) (continued next : Bool) : Prop where
  lineText : LineText c.line
  break_not_mem : '\n' ∉ c.line
  read : ∃ r, ofLine c.line continued = .ok r ∧ r.chained = next
    ∧ ∀ content start, placed content start continued r = c.requirement content start

/-- The module as a whole is bound exactly by a name. -/
lemma hasDefault_placed (l : LeftHand) {r : Requirement} (hbindings : r.bindings = l.bindings)
    (hdefault : r.hasDefault = (isPackage r.target && r.isWholeModule)) (content : Text)
    (start : Nat) (continued : Bool) : (placed content start continued r).hasDefault =
      (isPackage r.target && l.whole?.any (isUsedAsValue content)) := by
  rw [placed, hdefault, isWholeModule, hbindings]
  cases l with
  | name x =>
    have hempty : x.1.isEmpty = false := by simp [x.2.ne_nil]
    simp [LeftHand.bindings, LeftHand.whole?, hempty]
  | group first others =>
    have hkey : (first.key.1 == wholeModule) = false := by
      rw [beq_eq_false_iff_ne]
      intro heq
      exact first.key.2.not_mem (c := '*') (by decide)
        (by rw [heq]; exact List.mem_singleton_self _)
    cases others with
    | nil => simp [LeftHand.bindings, LeftHand.whole?, GroupMember.binding, hkey]
    | cons second others => simp [LeftHand.bindings, LeftHand.whole?]

/-- What is read of a clause is what its call says, once it binds the same. -/
lemma placed_eq_requirement (l : LeftHand) {c : Call} {r : Requirement} {continued : Bool}
    (htarget : r.target = c.asked.target) (hraw : r.raw = c.line)
    (hquote : r.quote = [c.asked.quote]) (hbindings : r.bindings = l.bindings)
    (hdefault : r.hasDefault = (isPackage r.target && r.isWholeModule)) (hindent : r.indent = none)
    (hchained : (r.chained || continued) = c.chained) (hbound : c.bindings = l.bindings)
    (hwhole : c.whole? = l.whole?) (content : Text) (start : Nat) :
    placed content start continued r = c.requirement content start := by
  have hvalue := hasDefault_placed l hbindings hdefault content start continued
  unfold placed at hvalue ⊢
  unfold Call.requirement
  rw [hbound, hwhole, Requirement.mk.injEq]
  rw [htarget] at hvalue
  exact ⟨htarget, hraw, hquote, hbindings, hvalue, hchained, hindent, rfl⟩

/-- A clause is read as its call says. -/
lemma reads_ofClause {front : Text} {keyword : Option Text} {l : LeftHand} (m : QuotedModule)
    {e : Ending} {continued chained : Bool} (hfront : ∀ c ∈ front, isPlain c = true)
    (hdeclared : declared? (front ++ (l.text ++ [' '])) = some (keyword, l.text))
    (hallowed : keyword.isSome = true ∨ continued = true) (hpath : e.path? = none)
    (hchained : (e.isComma || continued) = chained) :
    (Call.ofClause front l m e chained).Reads continued e.isComma := by
  have hnot : ∀ c : Char, isPlain c = false → c ∉ front := by
    intro c hc hmem
    exact absurd (hfront c hmem) (by simp [hc])
  have hbreak : '\n' ∉ front := hnot _ (by decide)
  obtain ⟨r, hread, htarget, hraw, hquote, hbindings, hdefault, hcomma, hindent⟩ :=
    ofLine_clause (m := m) (e := e) _ (hnot _ (by decide)) (hnot _ (by decide)) hbreak
      hdeclared hallowed (show withPath _ l.read e.path? = .ok l.read by rw [hpath]; rfl)
  rw [l.map_simplified_read] at hbindings
  refine ⟨lineText_clause hfront l m e, break_not_mem_clauseLine hbreak l m e, r, hread, hcomma, ?_⟩
  exact placed_eq_requirement l htarget hraw hquote hbindings (by rw [hdefault, htarget]) hindent
    (by rw [hcomma]; exact hchained) rfl rfl

/-- A keyword and the blank behind it are plain. -/
lemma isPlain_of_keyword (k : Keyword) : ∀ c ∈ k.1 ++ [' '], isPlain c = true := by
  have hall : ∀ word ∈ variableKeywords, ∀ c ∈ word ++ [' '], isPlain c = true := by decide
  exact hall k.1 k.2

/-- A clause behind a keyword is read, whether a comma ends it or not. -/
lemma reads_declared (k : Keyword) (l : LeftHand) (m : QuotedModule) {e : Ending}
    (hpath : e.path? = none) :
    (Call.ofClause (k.1 ++ [' ']) l m e e.isComma).Reads false e.isComma := by
  have hdeclared : declared? (k.1 ++ [' '] ++ (l.text ++ [' '])) = some (some k.1, l.text) := by
    rw [List.append_assoc]
    exact declared?_keyword k l
  exact reads_ofClause m (isPlain_of_keyword k) hdeclared (Or.inl rfl) hpath (Bool.or_false _)

/-- A later clause is read behind a comma, whether a comma ends it or not. -/
lemma Clause.reads (c : Clause) {e : Ending} (hpath : e.path? = none) :
    (Call.ofClause c.indent c.left c.asked e true).Reads true e.isComma := by
  have hplain : ∀ d ∈ c.indent, isPlain d = true := by
    intro d hd
    obtain ⟨hblank, hbreak⟩ := c.blank d hd
    by_contra hplain
    simp only [isPlain, Bool.not_eq_true', Bool.not_eq_false, List.contains_eq_mem,
      decide_eq_true_iff] at hplain
    have hmarks : ∀ d ∈ ";=/*().\x7b\x7d\n".toList, isBlank d = true → d = '\n' := by decide
    exact hbreak (hmarks d hplain hblank)
  exact reads_ofClause c.asked hplain (declared?_free c.free fun d hd => (c.blank d hd).1)
    (Or.inr rfl) hpath (Bool.or_true _)

/-- A call that stands alone is read as it says. -/
lemma reads_load (m : QuotedModule) :
    ({ line := m.call ++ Ending.semicolon.text, asked := m } : Call).Reads false false := by
  refine ⟨lineText_load m, break_not_mem_call m .semicolon, _, ofLine_load m false, rfl, ?_⟩
  intro content start
  simp [placed, Call.requirement]

/-- A declaration of one member is read as a binding of that member. -/
lemma reads_member (k : Keyword) (x : Name) (m : QuotedModule) (p : Name) :
    ({ line := clauseLine (k.1 ++ [' ']) (.name x) m (.member p), asked := m,
       bindings := [GroupMember.binding ⟨p, some x⟩] } : Call).Reads false false := by
  have hfront := isPlain_of_keyword k
  have hnot : ∀ c : Char, isPlain c = false → c ∉ k.1 ++ [' '] := by
    intro c hc hmem
    exact absurd (hfront c hmem) (by simp [hc])
  have hbreak : '\n' ∉ k.1 ++ [' '] := hnot _ (by decide)
  have hdeclared : declared? (k.1 ++ [' '] ++ ((LeftHand.name x).text ++ [' '])) =
      some (some k.1, (LeftHand.name x).text) := by
    rw [List.append_assoc]
    exact declared?_keyword k (.name x)
  have hpath : withPath (clauseLine (k.1 ++ [' ']) (.name x) m (.member p)) (LeftHand.name x).read
      (Ending.member p).path? = .ok [⟨p.1, some x.1⟩] := by
    have hcall : '(' ∉ p.1 := p.2.not_mem (by decide)
    have hdot : '.' ∉ p.1 := p.2.not_mem (by decide)
    simp [Ending.path?, LeftHand.read, withPath, hcall, hdot]
  obtain ⟨r, hread, htarget, hraw, hquote, hbindings, hdefault, hcomma, hindent⟩ :=
    ofLine_clause (e := .member p) false (hnot _ (by decide)) (hnot _ (by decide))
      hbreak hdeclared (Or.inl rfl) hpath
  have hmember : r.bindings = [GroupMember.binding ⟨p, some x⟩] := by
    rw [hbindings, List.map_singleton]
    exact congrArg (fun b => [b]) (GroupMember.simplified_member ⟨p, some x⟩)
  refine ⟨lineText_clause hfront _ m _, break_not_mem_clauseLine hbreak _ m _, r, hread, hcomma, ?_⟩
  exact placed_eq_requirement (.group ⟨p, some x⟩ []) htarget hraw hquote hmember
    (by rw [hdefault, htarget]) hindent (by rw [hcomma]; rfl) rfl rfl

/-! ## Runs of lines -/

/-- Lines that are read one after the other, from behind a comma or not to behind a comma or not. -/
inductive Linked : (continued : Bool) → List Call → (next : Bool) → Prop
  | nil {continued : Bool} : Linked continued [] continued
  | cons {continued middle next : Bool} {c : Call} {cs : List Call} :
    c.Reads continued middle → Linked middle cs next → Linked continued (c :: cs) next

/-- Linked calls are linked with those that go on from them. -/
lemma Linked.append {a b d : Bool} {cs cs' : List Call} (h : Linked a cs b) (h' : Linked b cs' d) :
    Linked a (cs ++ cs') d := by
  induction h with
  | nil => exact h'
  | cons hread _ ih => exact .cons hread (ih h')

/-- The lines of a statement lead from one statement to the next. -/
lemma linked_calls (s : SourceStatement) : Linked false s.calls false := by
  cases s with
  | load m => exact .cons (reads_load m) .nil
  | declare k l m => exact .cons (reads_declared k l m (e := .semicolon) rfl) .nil
  | member k x m p => exact .cons (reads_member k x m p) .nil
  | chain k l m middle last =>
    have hmiddle : Linked true
        (middle.map fun c => Call.ofClause c.indent c.left c.asked .comma true) true := by
      induction middle with
      | nil => exact .nil
      | cons c middle ih => exact .cons (c.reads (e := .comma) rfl) ih
    exact .cons (reads_declared k l m (e := .comma) rfl)
      (hmiddle.append (.cons (last.reads (e := .semicolon) rfl) .nil))

/-- The calls of a program are linked from its first line to its last. -/
lemma linked_programCalls (program : List SourceStatement) :
    Linked false (programCalls program) false := by
  induction program with
  | nil => exact .nil
  | cons s program ih => exact (linked_calls s).append ih

/-- Each of the linked calls stands on a line of its own. -/
lemma Linked.reads {continued next : Bool} {cs : List Call} (h : Linked continued cs next) :
    ∀ c ∈ cs, LineText c.line ∧ '\n' ∉ c.line := by
  induction h with
  | nil => simp
  | cons hread _ ih =>
    intro c hc
    rcases List.mem_cons.mp hc with rfl | hc
    · exact ⟨hread.lineText, hread.break_not_mem⟩
    · exact ih c hc

/-! ## The search -/

/-- The pieces of a program: its lines, and the line breaks between them. -/
def linePieces (ended : Bool) : List Text → List (Piece Unit)
  | [] => []
  | line :: lines =>
    .found line () :: if lines.isEmpty && !ended then [] else .plain '\n' :: linePieces ended lines

/-- The pieces are those of the lines. -/
lemma joined_linePieces (ended : Bool) (lines : List Text) :
    joined (linePieces ended lines) = linesText ended lines := by
  induction lines with
  | nil => rfl
  | cons line lines ih =>
    rw [linePieces, linesText, joined]
    split_ifs with h
    · rfl
    · simp only [joined, Piece.text, ih, List.singleton_append]

/-- No line is found where there is no parenthesis. -/
lemma requireLine_eq_none {before : Option Char} {t : Text} (h : '(' ∉ t) :
    requireLine before t = none := by
  rw [Option.eq_none_iff_forall_ne_some]
  rintro ⟨u, rest⟩ hmatch
  obtain ⟨-, head, args, tail, hhead, -, -, rfl, -⟩ := requireLine_eq_some_iff.mp hmatch
  refine h (List.mem_append_left _ ?_)
  rcases hhead with hcall | ⟨front, call, -, hcall, rfl⟩
  · obtain ⟨front, rfl, -⟩ := hcall.exists_concat
    simp
  · obtain ⟨front', rfl, -⟩ := hcall.exists_concat
    simp

/-- **The search finds the lines of a program**: no match begins at a line break, each line is
matched up to its end, and nothing is found below them where no parenthesis stands. -/
lemma scan_linePieces {ended : Bool} {lines : List Text} {below : Text} (hbelow : '(' ∉ below)
    (hended : ended = true ∨ below = []) (hlines : ∀ line ∈ lines, LineText line ∧ '\n' ∉ line)
    {before : Option Char} (hbefore : beginsLine before = true) :
    Scan requireLine before (linePieces ended lines ++ below.map Piece.plain) := by
  have htail : ∀ before, Scan requireLine before (below.map Piece.plain) := by
    intro before
    have hplain : ∀ before a b, below = a ++ b → b ≠ [] →
        requireLine before (b ++ joined ([] : List (Piece Unit))) = none := by
      intro before a b hsplit _
      refine requireLine_eq_none fun hmem => hbelow ?_
      rw [joined, List.append_nil] at hmem
      rw [hsplit]
      exact List.mem_append_right _ hmem
    have hscan : Scan requireLine before (below.map Piece.plain ++ []) :=
      Scan.map_plain hplain fun _ => .done (requireLine_eq_none (by simp))
    rwa [List.append_nil] at hscan
  induction lines generalizing before with
  | nil => exact htail before
  | cons line lines ih =>
    obtain ⟨hline, hbreak⟩ := hlines line List.mem_cons_self
    obtain ⟨front, tail, -, -, -, hsplit⟩ := hline.exists_close
    obtain ⟨c, cs, hcons⟩ : ∃ c cs, line = c :: cs := by
      apply List.exists_cons_of_ne_nil
      rw [hsplit]
      simp
    have hlast : beginsLine (some ((c :: cs).getLast (List.cons_ne_nil c cs))) = false := by
      have hmem : (c :: cs).getLast (List.cons_ne_nil c cs) ∈ line := by
        rw [hcons]
        exact List.getLast_mem _
      rw [beginsLine, beq_eq_false_iff_ne]
      intro heq
      exact hbreak (heq ▸ hmem)
    have hmatch : ∀ rest, EndsLine rest →
        requireLine before (c :: cs ++ rest) = some ((), rest) := by
      intro rest hrest
      rw [← hcons]
      exact requireLine_append_iff.mpr ⟨hbefore, hline, hrest⟩
    rw [linePieces, hcons, List.cons_append]
    split_ifs with hends
    · have hnone : below = [] := by
        rw [Bool.and_eq_true, Bool.not_eq_true'] at hends
        exact hended.resolve_left (by simp [hends.2])
      rw [hnone]
      exact .found (hmatch _ (Or.inl rfl)) (.done (requireLine_eq_none (by simp)))
    · refine .found (hmatch _ (Or.inr ⟨_, rfl⟩)) (.plain ?_ (ih (fun l hl => hlines l
        (List.mem_cons_of_mem _ hl)) rfl))
      rw [requireLine, hlast]
      rfl

/-- Nothing is found below the lines. -/
lemma places_linePieces (offset : Nat) (ended : Bool) (lines : List Text) (below : Text) :
    places offset (linePieces ended lines ++ below.map Piece.plain) =
      places offset (linePieces ended lines) := by
  have hplain := places_map_plain (offset + (joined (linePieces ended lines)).length) below
    ([] : List (Piece Unit))
  rw [List.append_nil] at hplain
  rw [places_append, hplain, places, List.append_nil]

/-- The reader follows the run of lines. -/
lemma readLines_linked {continued next : Bool} {cs : List Call} (h : Linked continued cs next)
    {content : Text} (ended : Bool) (front below : Text)
    (hcontent : content = front ++ (linesText ended (cs.map Call.line) ++ below)) :
    readLines content continued (places front.length (linePieces ended (cs.map Call.line))) =
      ⟨requirementsFrom content front.length cs, []⟩ := by
  induction h generalizing front with
  | nil => rfl
  | @cons continued middle next c cs hread hlinked ih =>
    obtain ⟨r, hline, hnext, hplaced⟩ := hread.read
    have htext : (⟨front.length, front.length + c.line.length, ()⟩ : Occurrence Unit).text content =
        c.line := by
      rw [List.map_cons, linesText, List.append_assoc] at hcontent
      exact text_of_append hcontent
    have hrest : readLines content middle (places (front.length + c.line.length)
        (if (cs.map Call.line).isEmpty && !ended then []
          else .plain '\n' :: linePieces ended (cs.map Call.line))) =
        ⟨requirementsFrom content (front.length + c.line.length + 1) cs, []⟩ := by
      split_ifs with hends
      · obtain rfl : cs = [] := by simpa using (Bool.and_eq_true_iff.mp hends).1
        rfl
      · have := ih (front ++ (c.line ++ ['\n'])) (by
          rw [hcontent, List.map_cons, linesText, if_neg hends]
          simp)
        rw [places]
        simpa [Nat.add_assoc] using this
    rw [List.map_cons, linePieces, places, readLines, htext, hline]
    dsimp only
    rw [hnext, hrest, hplaced]
    rfl

/-- Between the matches of lines there are only line breaks. -/
lemma plain_mem_linePieces {ended : Bool} {lines : List Text} {c : Char}
    (h : Piece.plain c ∈ linePieces ended lines) : c = '\n' := by
  induction lines with
  | nil => exact absurd h (by simp [linePieces])
  | cons line lines ih =>
    rw [linePieces] at h
    rcases List.mem_cons.mp h with h | h
    · exact absurd h (by simp)
    · split_ifs at h
      · exact absurd h (by simp)
      · rcases List.mem_cons.mp h with h | h
        · exact Piece.plain.inj h
        · exact ih h

/-- Every call of a program stands in a line of it. -/
lemma strayCalls_eq_nil (ended : Bool) (lines : List Text) {below : Text} (hbelow : '(' ∉ below) :
    strayCalls (linesText ended lines ++ below) (places 0 (linePieces ended lines)) = [] := by
  unfold strayCalls
  rw [List.filter_eq_nil_iff]
  intro i hi
  obtain ⟨o, ho, rfl⟩ := List.mem_map.mp hi
  obtain ⟨front, m, back, hsplit, hstart, -, -, hcall⟩ :=
    exists_of_mem_occurrences requireCall_consumes (List.mem_filter.mp ho).1
  obtain ⟨blanks, -, hword⟩ := requireCall_eq_some hcall
  -- the call ends in the lines, and its first character is no line break, so a line covers it
  have hcut : linesText ended lines ++ below =
      (front ++ ("require".toList ++ blanks)) ++ '(' :: back := by
    rw [hsplit, hword]
    simp only [List.append_assoc]
  obtain ⟨rest, hlines⟩ : ∃ rest, linesText ended lines =
      (front ++ ("require".toList ++ blanks)) ++ '(' :: rest := by
    rcases append_eq_append_cons hcut with ⟨rest, hlines, -⟩ | ⟨rest, -, hrest⟩
    · exact ⟨rest, hlines⟩
    · exact absurd (by rw [hrest]; simp) hbelow
  have hplain : Piece.plain 'r' ∉ linePieces ended lines := fun hmem =>
    absurd (plain_mem_linePieces hmem) (by decide)
  have hjoined : joined (linePieces ended lines) =
      front ++ 'r' :: ("equire".toList ++ (blanks ++ '(' :: rest)) := by
    rw [joined_linePieces, hlines]
    simp
  obtain ⟨place, hplace, hfirst, hlast⟩ := exists_place_of_not_plain hplain hjoined 0
  rw [Nat.zero_add, ← hstart] at hfirst hlast
  have hcovered : ((places 0 (linePieces ended lines)).any fun line =>
      decide (line.start ≤ o.start) && decide (o.start < line.stop)) = true :=
    List.any_eq_true.mpr ⟨place, hplace, by simp [hfirst, hlast]⟩
  simp [hcovered]

/-- **Lines of calls are read back**, whatever follows them without a parenthesis. -/
lemma readAll_lines {ended next : Bool} {cs : List Call} {below : Text} (h : Linked false cs next)
    (hbelow : '(' ∉ below) (hended : ended = true ∨ below = []) :
    readAll (linesText ended (cs.map Call.line) ++ below) =
      ⟨requirementsFrom (linesText ended (cs.map Call.line) ++ below) 0 cs, []⟩ := by
  have hlines : ∀ line ∈ cs.map Call.line, LineText line ∧ '\n' ∉ line := by
    intro line hline
    obtain ⟨c, hc, rfl⟩ := List.mem_map.mp hline
    exact h.reads c hc
  have hjoined : joined (linePieces ended (cs.map Call.line) ++ below.map Piece.plain) =
      linesText ended (cs.map Call.line) ++ below := by
    have hplain := joined_map_plain below ([] : List (Piece Unit))
    rw [List.append_nil, joined, List.append_nil] at hplain
    rw [joined_append, joined_linePieces, hplain]
  have hfound : occurrences requireLine (linesText ended (cs.map Call.line) ++ below) =
      places 0 (linePieces ended (cs.map Call.line)) := by
    rw [← hjoined, occurrences_eq_places (scan_linePieces hbelow hended hlines rfl),
      places_linePieces]
  have hread := readLines_linked h ended [] below rfl
  unfold readAll
  rw [hfound]
  dsimp only
  rw [strayCalls_eq_nil ended _ hbelow]
  exact congrArg (fun r => r >>= fun rs => pure rs) hread

/-- **A program that is written is read back**: one requirement for each call, in order, with the
offset of its line, and no warning. -/
theorem readAll_program (ended : Bool) (program : List SourceStatement) :
    readAll (programText ended program) =
      ⟨requirementsFrom (programText ended program) 0 (programCalls program), []⟩ := by
  have hread : readAll (linesText ended ((programCalls program).map Call.line) ++ []) = _ :=
    readAll_lines (linked_programCalls program) (by simp) (Or.inr rfl)
  rwa [List.append_nil] at hread

/-- A chain of two clauses: the target of the second holds an equals sign and a bracket. -/
example :
    let a : Name := ⟨"a".toList, 'a', [], rfl, by decide, by decide⟩
    let b : Name := ⟨"b".toList, 'b', [], rfl, by decide, by decide⟩
    let first : QuotedModule := ⟨'"', "x".toList, by decide, by decide, by decide⟩
    let second : QuotedModule := ⟨'\'', "y=(".toList, by decide, by decide, by decide⟩
    let clause : Clause := ⟨"  ".toList, .group ⟨b, some a⟩ [], second, by decide, trivial⟩
    programText true [.chain ⟨"const".toList, by decide⟩ (.name a) first [] clause] =
      "const a = require(\"x\"),\n  \x7b b: a \x7d = require('y=(');\n".toList := by
  decide

end Esmify.Requirement
