import Esmify.Proofs.RequireLine
import Esmify.Proofs.RequireStatement

/-!
# Clauses of `require` statements, written and read

The clauses that the reader supports, as syntax: a left-hand side is a name or a brace group
(`LeftHand`), a module stands in quotes (`QuotedModule`), and a clause is the text of the one, an
equals sign and the call. **A clause that is written is read back** (`ofLine_clause`,
`ofLine_load`), with the bindings of its left-hand side, whatever brackets, equals signs and words
stand in the module; and it is found as a line of its own (`lineText_clause`, `lineText_load`).

In front of a clause stands a keyword, or in the later lines of a declaration only white space.
There the name has to be free (`LeftHand.Free`): a name that begins like a keyword would be taken
for one. -/

namespace Esmify.Requirement

open Text Source

/-! ## Names and members -/

/-- A member of a brace group: a key, and perhaps a local name. -/
structure GroupMember where
  key : Name
  localName : Option Name := none

namespace GroupMember

/-- The member as it is written. -/
def text (m : GroupMember) : Text :=
  match m.localName with
  | some name => m.key.1 ++ (": ".toList ++ name.1)
  | none => m.key.1

/-- What the member binds; a local name that is the key is not mentioned. -/
def binding (m : GroupMember) : Binding :=
  ⟨m.key.1, (m.localName.map Subtype.val).filter (· ≠ m.key.1)⟩

/-- A member has no characters but those of names, a colon and a space. -/
lemma mem_text {m : GroupMember} {c : Char} (h : c ∈ m.text) :
    isNameChar c = true ∨ c = ':' ∨ c = ' ' := by
  unfold text at h
  split at h
  · next name _ =>
    rcases List.mem_append.mp h with h | h
    · exact Or.inl (m.key.2.forall_isNameChar c h)
    · rcases List.mem_append.mp h with h | h
      · exact Or.inr (by simpa using h)
      · exact Or.inl (name.2.forall_isNameChar c h)
  · exact Or.inl (m.key.2.forall_isNameChar c h)

/-- A member is written without white space around it. -/
lemma firm_text (m : GroupMember) : Firm m.text := by
  unfold text
  split
  · next name _ => exact m.key.2.firm.around name.2.firm _
  · exact m.key.2.firm

/-- A member is read back, with white space in front of it or not. -/
lemma member?_text (m : GroupMember) {gap : Text} (hgap : ∀ c ∈ gap, isBlank c = true) :
    member? (gap ++ m.text) = some ⟨m.key.1, m.localName.map Subtype.val⟩ := by
  have htrim : trim (gap ++ m.text) = m.text := by
    simpa using m.firm_text.trim_append gap [] hgap (by simp)
  have hcolon : ':' ∉ m.key.1 := m.key.2.not_mem (by decide)
  unfold member?
  rw [htrim, text]
  cases hname : m.localName with
  | none =>
    have hnil : trim ([] : Text) = [] := rfl
    simp [partition_of_not_mem hcolon, m.key.2.firm.trim, isName_name, hnil]
  | some name =>
    have hlocal : trim (' ' :: name.1) = name.1 := by
      simpa using name.2.firm.trim_append [' '] [] (by decide) (by simp)
    have hcut : partition ':' (m.key.1 ++ (": ".toList ++ name.1))
        = (m.key.1, some (' ' :: name.1)) :=
      partition_append_cons hcolon _
    dsimp only
    rw [hcut, m.key.2.firm.trim, Option.getD_some, hlocal]
    simp [isName_name, name.2.ne_nil]

/-- What is read of a member is simplified to what it binds. -/
lemma simplified_member (m : GroupMember) :
    simplified ⟨m.key.1, m.localName.map Subtype.val⟩ = m.binding := by
  unfold simplified binding
  cases m.localName with
  | none => rfl
  | some name =>
    by_cases heq : name.1 = m.key.1
    · simp [heq, Option.filter]
    · simp [heq, Option.filter]

end GroupMember

/-! ## Left-hand sides -/

/-- What stands on the left of a call: a name, or a brace group with at least one member. -/
inductive LeftHand
  | name (x : Name)
  | group (first : GroupMember) (others : List GroupMember)

namespace LeftHand

/-- The members of a brace group as they are written. -/
def membersText (ms : List GroupMember) : Text :=
  ", ".toList.intercalate (ms.map GroupMember.text)

/-- The left-hand side as it is written. -/
def text : LeftHand → Text
  | .name x => x.1
  | .group first others => "\x7b ".toList ++ (membersText (first :: others) ++ " \x7d".toList)

/-- What the left-hand side binds. -/
def bindings : LeftHand → List Binding
  | .name x => [⟨wholeModule, some x.1⟩]
  | .group first others => (first :: others).map GroupMember.binding

/-- The name under which the module as a whole is bound. -/
def whole? : LeftHand → Option Text
  | .name x => some x.1
  | .group _ _ => none

/-- A name that can stand without a keyword: it is none, and does not begin with one and a dollar
sign. -/
def Free : LeftHand → Prop
  | .name x => ∀ word ∈ variableKeywords, x.1 ≠ word ∧ ¬ word ++ ['$'] <+: x.1
  | .group _ _ => True

/-- Members stand with a comma and a blank between them. -/
lemma membersText_cons_cons (m m' : GroupMember) (ms : List GroupMember) :
    membersText (m :: m' :: ms) = m.text ++ ',' :: ([' '] ++ membersText (m' :: ms)) := by
  simp only [membersText, List.map_cons, List.intercalate_cons_cons, List.append_assoc]
  rfl

/-- The members of a brace group are read back. -/
lemma members?_membersText (first : GroupMember) (others : List GroupMember) (gap : Text)
    (hgap : ∀ c ∈ gap, isBlank c = true) :
    members? ((gap ++ membersText (first :: others)).splitOn ',') =
      some ((first :: others).map fun m => ⟨m.key.1, m.localName.map Subtype.val⟩) := by
  have hcomma : ∀ m : GroupMember, ∀ gap : Text, (∀ c ∈ gap, isBlank c = true) →
      ',' ∉ gap ++ m.text := by
    intro m gap hgap hmem
    rcases List.mem_append.mp hmem with hmem | hmem
    · exact absurd (hgap _ hmem) (by decide)
    · rcases GroupMember.mem_text hmem with h | h | h
      · exact absurd h (by decide)
      · exact absurd h (by decide)
      · exact absurd h (by decide)
  have hread : ∀ m : GroupMember, ∀ gap : Text, (∀ c ∈ gap, isBlank c = true) → ∀ ts,
      members? ((gap ++ m.text) :: ts) =
        (members? ts).map (⟨m.key.1, m.localName.map Subtype.val⟩ :: ·) := by
    intro m gap hgap ts
    obtain ⟨c, rest, htext, hc⟩ := m.firm_text.first
    have hblank : isBlankText (gap ++ m.text) = false := by
      rw [isBlankText, List.all_eq_false]
      exact ⟨c, by simp [htext], by simp [hc]⟩
    rw [members?, hblank, m.member?_text hgap]
    rfl
  induction others generalizing first gap with
  | nil =>
    rw [membersText, List.map_singleton, List.intercalate_singleton,
      List.splitOn_eq_singleton (hcomma first gap hgap), hread first gap hgap]
    rfl
  | cons second others ih =>
    rw [membersText_cons_cons, ← List.append_assoc,
      List.splitOn_append_cons_self_of_not_mem (hcomma first gap hgap), hread first gap hgap,
      ih second [' '] (by decide)]
    rfl

/-- A brace group has no characters but those of names and of its layout. -/
lemma mem_membersText {ms : List GroupMember} {c : Char} (h : c ∈ membersText ms) :
    isNameChar c = true ∨ c = ':' ∨ c = ' ' ∨ c = ',' := by
  unfold membersText at h
  induction ms with
  | nil => exact absurd h (by simp)
  | cons m ms ih =>
    have hm : ∀ {c}, c ∈ m.text → isNameChar c = true ∨ c = ':' ∨ c = ' ' ∨ c = ',' := by
      intro c hc
      rcases GroupMember.mem_text hc with h | h | h
      · exact Or.inl h
      · exact Or.inr (Or.inl h)
      · exact Or.inr (Or.inr (Or.inl h))
    cases ms with
    | nil =>
      rw [List.map_singleton, List.intercalate_singleton] at h
      exact hm h
    | cons m' ms =>
      rw [List.map_cons, List.map_cons, List.intercalate_cons_cons] at h
      rcases List.mem_append.mp h with h | h
      · rcases List.mem_append.mp h with h | h
        · exact hm h
        · exact Or.inr (Or.inr (by simpa [or_comm] using h))
      · exact ih h

/-- Members are written without white space around them. -/
lemma firm_membersText (first : GroupMember) (others : List GroupMember) :
    Firm (membersText (first :: others)) := by
  induction others generalizing first with
  | nil =>
    rw [membersText, List.map_singleton, List.intercalate_singleton]
    exact first.firm_text
  | cons second others ih =>
    rw [membersText_cons_cons, ← List.singleton_append, ← List.append_assoc [',']]
    exact first.firm_text.around (ih second) _

/-- A left-hand side has no characters but those of names and of its layout. -/
lemma mem_text {l : LeftHand} {c : Char} (h : c ∈ l.text) :
    isNameChar c = true ∨ c ∈ ":, \x7b\x7d".toList := by
  cases l with
  | name x => exact Or.inl (x.2.forall_isNameChar c h)
  | group first others =>
    rcases List.mem_append.mp h with h | h
    · right
      simp at h ⊢
      tauto
    · rcases List.mem_append.mp h with h | h
      · rcases mem_membersText h with h | rfl | rfl | rfl
        · exact Or.inl h
        all_goals right; decide
      · right
        simp at h ⊢
        tauto

/-- What is neither part of a name nor of the layout is not in a left-hand side. -/
lemma not_mem_text (l : LeftHand) {c : Char} (hname : isNameChar c = false)
    (hlayout : c ∉ ":, \x7b\x7d".toList) : c ∉ l.text := by
  intro hmem
  rcases mem_text hmem with h | h
  · rw [hname] at h
    exact absurd h (by decide)
  · exact hlayout h

/-- The left side of a line is written without white space around it. -/
lemma firm_text (l : LeftHand) : Firm l.text := by
  cases l with
  | name x => exact x.2.firm
  | group first others =>
    have hopen : Firm ['\x7b'] := ⟨⟨_, _, rfl, by decide⟩, [], _, rfl, by decide⟩
    have hclose : Firm ['\x7d'] := ⟨⟨_, _, rfl, by decide⟩, [], _, rfl, by decide⟩
    have hfirm := hopen.around hclose ([' '] ++ (membersText (first :: others) ++ [' ']))
    simpa [text] using hfirm

/-- What the reader makes of a left-hand side, before local names that equal their keys are left
out. -/
def read : LeftHand → List Binding
  | .name x => [⟨wholeModule, some x.1⟩]
  | .group first others => (first :: others).map fun m => ⟨m.key.1, m.localName.map Subtype.val⟩

/-- **A left-hand side is read back.** -/
lemma readBindings_text (l : LeftHand) : readBindings l.text = .ok l.read := by
  have hvalue : (trim l.text).filter (· != '\n') = l.text := by
    rw [l.firm_text.trim, List.filter_eq_self]
    intro c hc
    rw [bne_iff_ne]
    rintro rfl
    exact l.not_mem_text (by decide) (by decide) hc
  unfold readBindings
  rw [hvalue]
  cases l with
  | name x =>
    obtain ⟨c, cs, hx, hc, -⟩ := id x.2
    have hopen : (x.1.head? == some '\x7b') = false := by
      rw [hx, List.head?_cons, beq_eq_false_iff_ne]
      rintro ⟨⟩
      exact absurd hc (by decide)
    simp only [text, hopen, Bool.false_and, Bool.false_eq_true, if_false, isName_name,
      if_true, read]
  | group first others =>
    have hshape : (group first others).text =
        ['\x7b'] ++ ((' ' :: (membersText (first :: others) ++ [' '])) ++ ['\x7d']) := by
      simp [text]
    have hinner : trim ((group first others).text.slice 1 ((group first others).text.length - 1)) =
        membersText (first :: others) := by
      have hlength : (group first others).text.length - 1 =
          1 + (' ' :: (membersText (first :: others) ++ [' '])).length := by
        rw [hshape]
        simp only [List.length_append, List.length_cons, List.length_nil]
        omega
      rw [hlength, hshape]
      have hslice := slice_append ['\x7b']
        (' ' :: (membersText (first :: others) ++ [' '])) ['\x7d']
      rw [List.length_singleton] at hslice
      rw [hslice]
      exact (firm_membersText first others).trim_append [' '] [' '] (by decide) (by decide)
    have hdeep : (membersText (first :: others)).contains '\x7b' = false := by
      rw [List.contains_eq_mem, decide_eq_false_iff_not]
      intro hmem
      rcases mem_membersText hmem with h | h | h | h
      all_goals exact absurd h (by decide)
    have hmembers := members?_membersText first others [] (by simp)
    rw [List.nil_append] at hmembers
    have hhead : ((group first others).text.head? == some '\x7b') = true := rfl
    have hlast : ((group first others).text.getLast? == some '\x7d') = true := by
      rw [hshape, ← List.append_assoc, List.getLast?_concat]
      rfl
    simp only [hhead, hlast, Bool.and_self, if_true, hinner, hdeep, Bool.false_eq_true, if_false,
      hmembers, List.map_cons, read]

/-- What is read is simplified to what the left-hand side binds. -/
lemma map_simplified_read (l : LeftHand) : l.read.map simplified = l.bindings := by
  cases l with
  | name x =>
    have hne : x.1 ≠ wholeModule := by
      intro heq
      exact x.2.not_mem (c := '*') (by decide) (by rw [heq]; exact List.mem_singleton_self _)
    simp [read, bindings, simplified, hne]
  | group first others =>
    simp only [read, bindings, List.map_map]
    exact List.map_congr_left fun m _ => m.simplified_member

end LeftHand

/-! ## Calls -/

/-- A module between quotes; neither a quote nor a line break stands in it. -/
structure QuotedModule where
  quote : Char
  target : Text
  isQuote : isTargetQuote quote = true
  ne_nil : target ≠ []
  plain : ∀ c ∈ target, isTargetQuote c = false ∧ c ≠ '\n'

/-- The call that asks for the module. -/
def QuotedModule.call (m : QuotedModule) : Text :=
  "require(".toList ++ (m.quote :: (m.target ++ [m.quote, ')']))

/-- A call of `require`, as its characters one behind the other. -/
lemma QuotedModule.call_append (m : QuotedModule) (rest : Text) :
    m.call ++ rest =
      "require".toList ++ '(' :: m.quote :: (m.target ++ m.quote :: ')' :: rest) := by
  unfold call
  rw [List.append_assoc, List.cons_append, List.append_assoc]
  rfl

/-- What follows a call: a mark, or a member and a semicolon. -/
inductive Ending
  | semicolon
  | comma
  | member (path : Name)

namespace Ending

/-- The ending as it is written. -/
def text : Ending → Text
  | .semicolon => [';']
  | .comma => [',']
  | .member path => '.' :: (path.1 ++ [';'])

/-- The member that is taken from the module. -/
def path? : Ending → Option Text
  | .member path => some path.1
  | _ => none

/-- Whether another clause follows. -/
def isComma : Ending → Bool
  | .comma => true
  | _ => false

/-- An ending stays on its line. -/
lemma break_not_mem_text (e : Ending) : '\n' ∉ e.text := by
  cases e with
  | semicolon => decide
  | comma => decide
  | member path =>
    have : '\n' ∉ path.1 := path.2.not_mem (by decide)
    simp [text, this]

/-- The member of a call is read up to the semicolon. -/
lemma memberPath_text (e : Ending) :
    memberPath e.text = (e.path?, if e.isComma then [','] else [';']) := by
  cases e with
  | semicolon => rfl
  | comma => rfl
  | member path =>
    have hchars : ∀ c ∈ path.1, isPathChar c = true := fun c hc =>
      ((properKey_of_properName path.2).2 c hc).1
    have hstop : isPathChar ';' = false := by decide
    obtain ⟨c, cs, hpath⟩ := List.exists_cons_of_ne_nil path.2.ne_nil
    rw [text, memberPath]
    simp only [takeWhile_append_cons hchars hstop, dropWhile_append_cons hchars hstop,
      path?, isComma]
    rw [hpath]
    rfl

end Ending

/-- A quote is no white space. -/
lemma not_isBlank_of_isTargetQuote {c : Char} (h : isTargetQuote c = true) : isBlank c = false := by
  simp only [isTargetQuote, Bool.or_eq_true, beq_iff_eq] at h
  rcases h with rfl | rfl <;> decide

/-- The argument of a call is read back. -/
lemma callArgument?_call (m : QuotedModule) {gap : Text} (hgap : ∀ c ∈ gap, isBlank c = true)
    (rest : Text) : callArgument? (gap ++ (m.call ++ rest)) = some (m.quote, m.target, rest) := by
  have hskip : skipBlanks (gap ++ (m.call ++ rest)) =
      "require".toList ++ '(' :: m.quote :: (m.target ++ m.quote :: ')' :: rest) := by
    rw [skipBlanks_append hgap, m.call_append]
    exact skipBlanks_cons (c := 'r') (by decide) _
  have hinner : (wordThenBlanks? "require".toList (skipBlanks (gap ++ (m.call ++ rest)))).bind
      (wordThenBlanks? ['(']) = some (m.quote :: (m.target ++ m.quote :: ')' :: rest)) := by
    have hopen : isBlank '(' = false := by decide
    rw [hskip, wordThenBlanks?_eq_some_iff.mpr ⟨_, rfl, rfl⟩, skipBlanks_cons hopen,
      Option.bind_some]
    refine wordThenBlanks?_eq_some_iff.mpr ⟨_, rfl, ?_⟩
    rw [skipBlanks_cons (not_isBlank_of_isTargetQuote m.isQuote)]
  have htarget : ∀ c ∈ m.target, (!isTargetQuote c) = true := by
    intro c hc
    rw [(m.plain c hc).1]
    rfl
  have hquote : (!isTargetQuote m.quote) = false := by
    rw [m.isQuote]
    rfl
  have hclose : after? [')'] (skipBlanks (')' :: rest)) = some rest := by
    rw [skipBlanks_cons (by decide)]
    exact after?_eq_some_iff.mpr rfl
  unfold callArgument?
  obtain ⟨c, cs, htext⟩ := List.exists_cons_of_ne_nil m.ne_nil
  simp only [hinner, takeWhile_append_cons htarget hquote, dropWhile_append_cons htarget hquote,
    m.isQuote]
  rw [htext]
  simp only [hclose, Option.map_some]

/-- No argument is read where only one quote stands. -/
lemma callArgument?_eq_none {front back : Text} {quote : Char}
    (hfront : ∀ c ∈ front, isTargetQuote c = false) (hback : ∀ c ∈ back, isTargetQuote c = false) :
    callArgument? (front ++ quote :: back) = none := by
  unfold callArgument?
  cases hcall : (wordThenBlanks? "require".toList (skipBlanks (front ++ quote :: back))).bind
      (wordThenBlanks? ['(']) with
  | none => rfl
  | some inner =>
    cases inner with
    | nil => rfl
    | cons q cs =>
      have hsuffix : q :: cs <:+ front ++ quote :: back := by
        obtain ⟨u, hword, hopen⟩ := Option.bind_eq_some_iff.mp hcall
        obtain ⟨v, hv, rfl⟩ := wordThenBlanks?_eq_some_iff.mp hword
        obtain ⟨w, hw, hinner⟩ := wordThenBlanks?_eq_some_iff.mp hopen
        have hw' : w <:+ skipBlanks v := ⟨['('], hw.symm⟩
        have hv' : v <:+ skipBlanks (front ++ quote :: back) := ⟨"require".toList, hv.symm⟩
        rw [hinner]
        exact (((skipBlanks_suffix w).trans hw').trans (skipBlanks_suffix v)).trans
          (hv'.trans (skipBlanks_suffix _))
      dsimp only
      cases hq : isTargetQuote q with
      | false => rfl
      | true =>
        -- the quote that was read is the only one, so nothing closes it
        have hrest : ∀ c ∈ cs, isTargetQuote c = false := by
          obtain ⟨passed, hpassed⟩ := hsuffix
          rcases List.append_eq_append_iff.mp hpassed with ⟨m, rfl, hm⟩ | ⟨m, rfl, hm⟩
          · cases m with
            | nil => exact fun c hc => hback c ((List.cons.inj hm).2 ▸ hc)
            | cons d m =>
              rw [List.cons_append, List.cons.injEq] at hm
              exact absurd hq (by simp [hm.1, hfront d (by simp)])
          · cases m with
            | nil => exact fun c hc => hback c ((List.cons.inj hm).2 ▸ hc)
            | cons d m =>
              rw [List.cons_append, List.cons.injEq] at hm
              have hmem : q ∈ back := by
                rw [hm.2]
                simp
              exact absurd hq (by simp [hback q hmem])
        rw [List.dropWhile_eq_nil_iff.mpr fun c hc => by simp [hrest c hc]]
        cases cs.takeWhile (!isTargetQuote ·) <;> rfl

/-- A call with its ending is read back. -/
lemma call?_call (keyword binding : Option Text) (m : QuotedModule) (e : Ending) (gap : Text)
    (hgap : ∀ c ∈ gap, isBlank c = true) :
    call? keyword binding (gap ++ (m.call ++ e.text)) =
      some ⟨keyword, binding, m.quote, m.target, e.path?, e.isComma, []⟩ := by
  unfold call?
  rw [callArgument?_call m hgap]
  dsimp only
  rw [e.memberPath_text]
  cases e <;> rfl

/-! ## Lines -/

/-- A clause as it is written: a left-hand side, an equals sign, and a call with its ending. -/
def clauseLine (front : Text) (l : LeftHand) (m : QuotedModule) (e : Ending) : Text :=
  front ++ (l.text ++ (" = ".toList ++ (m.call ++ e.text)))

/-- The keyword of a declaration is read, and its left-hand side is what follows. -/
lemma declared?_keyword (k : Keyword) (l : LeftHand) :
    declared? (k.1 ++ ' ' :: (l.text ++ [' '])) = some (some k.1, l.text) := by
  have htrim : trim (' ' :: (l.text ++ [' '])) = l.text :=
    l.firm_text.trim_append [' '] [' '] (by decide) (by decide)
  have hkeyword : keyword? (trimStart (k.1 ++ ' ' :: (l.text ++ [' ']))) =
      some (k.1, ' ' :: (l.text ++ [' '])) := by
    obtain ⟨word, hword⟩ := k
    simp only [variableKeywords, List.mem_cons, List.not_mem_nil, or_false] at hword
    rcases hword with rfl | rfl | rfl
    all_goals rfl
  have hempty : (k.1 ++ ' ' :: (l.text ++ [' '])).isEmpty = false := by simp
  unfold declared?
  rw [hempty, hkeyword]
  simp only [Bool.false_eq_true, if_false, htrim]

/-- Without a keyword the left-hand side is everything, if its name is free. -/
lemma declared?_free {l : LeftHand} (hfree : l.Free) {gap : Text}
    (hgap : ∀ c ∈ gap, isBlank c = true) :
    declared? (gap ++ (l.text ++ [' '])) = some (none, l.text) := by
  obtain ⟨c, rest, htext, hc⟩ := l.firm_text.first
  have hstart : trimStart (gap ++ (l.text ++ [' '])) = l.text ++ [' '] := by
    rw [htext, trimStart, List.cons_append, dropWhile_append_cons hgap hc]
  have hkeyword : keyword? (l.text ++ [' ']) = none := by
    rw [Option.eq_none_iff_forall_ne_some]
    rintro ⟨word, tail⟩ hsome
    obtain ⟨hword, hsplit, hout⟩ := keyword?_outsideWord hsome
    cases l with
    | group first others =>
      simp only [variableKeywords, List.mem_cons, List.not_mem_nil, or_false] at hword
      rcases hword with rfl | rfl | rfl
      all_goals exact absurd (List.cons.inj hsplit).1 (by decide)
    | name x =>
      obtain ⟨hne, hdollar⟩ := hfree word hword
      have hspace : ' ' ∉ word := by
        simp only [variableKeywords, List.mem_cons, List.not_mem_nil, or_false] at hword
        rcases hword with rfl | rfl | rfl
        all_goals decide
      rcases List.append_eq_append_iff.mp hsplit with ⟨m, rfl, hm⟩ | ⟨m, hx, hm⟩
      · cases m with
        | nil => exact hne (by simp [LeftHand.text])
        | cons d m =>
          obtain ⟨rfl, -⟩ := List.cons.inj hm
          exact hspace (by simp)
      · cases m with
        | nil => exact hne (by simpa [LeftHand.text] using hx)
        | cons d m =>
          -- a name goes on with a word character or a dollar sign
          have hd : isNameChar d = true :=
            x.2.forall_isNameChar d (by rw [show x.1 = _ from hx]; simp)
          rw [hm, List.cons_append, List.head?_cons] at hout
          have hmark : d = '$' := by
            simp only [outsideWord, Bool.not_eq_true'] at hout
            simpa [isNameChar, hout] using hd
          subst hmark
          exact hdollar ⟨m, by rw [show x.1 = _ from hx]; simp⟩
  have hempty : (gap ++ (l.text ++ [' '])).isEmpty = false := by simp
  unfold declared?
  rw [hempty, hstart, hkeyword]
  simp only [Bool.false_eq_true, if_false, l.firm_text.trim_append _ [' '] hgap (by decide)]

/-- A clause is taken apart at its equals sign. -/
lemma statement?_clause {front : Text} {keyword : Option Text} {l : LeftHand} (m : QuotedModule)
    (e : Ending) (hequals : '=' ∉ front) (hslash : '/' ∉ front)
    (hdeclared : declared? (front ++ (l.text ++ [' '])) = some (keyword, l.text)) :
    statement? (clauseLine front l m e) =
      some ⟨keyword, some l.text, m.quote, m.target, e.path?, e.isComma, []⟩ := by
  have hsplit : clauseLine front l m e =
      (front ++ (l.text ++ [' '])) ++ '=' :: ([' '] ++ (m.call ++ e.text)) := by
    unfold clauseLine
    simp only [List.append_assoc]
    rfl
  have hmem : ∀ c, c ∉ front → c ∉ l.text → c ≠ ' ' → c ∉ front ++ (l.text ++ [' ']) := by
    intro c hfront hl hc
    simp [hfront, hl, hc]
  have hleft : ∀ c ∈ front ++ (l.text ++ [' ']), (c != '=') = true := by
    intro c hc
    rw [bne_iff_ne]
    rintro rfl
    exact hmem _ hequals (l.not_mem_text (by decide) (by decide)) (by decide) hc
  have hnoslash : (front ++ (l.text ++ [' '])).contains '/' = false := by
    rw [List.contains_eq_mem, decide_eq_false_iff_not]
    exact hmem _ hslash (l.not_mem_text (by decide) (by decide)) (by decide)
  have hsign : ('=' != '=') = false := by decide
  unfold statement? assigned?
  rw [hsplit, takeWhile_append_cons hleft hsign, dropWhile_append_cons hleft hsign]
  dsimp only
  rw [hnoslash, hdeclared]
  simp only [Bool.false_eq_true, if_false]
  rw [call?_call keyword (some l.text) m e [' '] (by decide), Option.some_or]

/-- A call that stands alone is not taken for an assignment, even with an equals sign in the
module. -/
lemma statement?_load (m : QuotedModule) :
    statement? (m.call ++ Ending.semicolon.text) =
      some ⟨none, none, m.quote, m.target, none, false, []⟩ := by
  have hcall := call?_call none none m .semicolon [] (by simp)
  rw [List.nil_append] at hcall
  have hassigned : assigned? (m.call ++ Ending.semicolon.text) = none := by
    have hequals : '=' ∉ "require".toList ++ ['(', m.quote] := by
      have hquote : '=' ≠ m.quote := by
        intro heq
        exact absurd m.isQuote (by rw [← heq]; decide)
      simp [hquote]
    have hshape : m.call ++ Ending.semicolon.text =
        ("require".toList ++ ['(', m.quote]) ++ (m.target ++ m.quote :: [')', ';']) := by
      rw [m.call_append, List.append_assoc]
      rfl
    rw [Option.eq_none_iff_forall_ne_some]
    intro s hs
    obtain ⟨front, binding, rest, -, hsplit, -, hcalled⟩ := assigned?_eq_some hs
    rw [hshape] at hsplit
    obtain ⟨a, -, hbehind⟩ := append_eq_append_cons_of_not_mem hequals hsplit
    -- the equals sign stands in the module, and behind it there is only the closing quote
    have hargument : callArgument? rest = none := by
      rcases append_eq_append_cons hbehind with ⟨b, htarget, rfl⟩ | ⟨b, -, hclose⟩
      · refine callArgument?_eq_none (fun c hc => (m.plain c ?_).1) (by decide)
        rw [htarget]
        simp [hc]
      · have hmem : '=' ∈ m.quote :: [')', ';'] := by
          rw [hclose]
          simp
        have hquote : '=' ≠ m.quote := by
          intro heq
          exact absurd m.isQuote (by rw [← heq]; decide)
        exact absurd hmem (by simp [hquote])
    rw [call?, hargument] at hcalled
    exact absurd hcalled (by simp)
  rw [statement?, hassigned, Option.none_or, hcall]
  rfl

/-! ## Reading a line -/

/-- Without a line break there is no indentation inside. -/
lemma innerIndent?_eq_none {t : Text} (h : '\n' ∉ t) : innerIndent? t = none := by
  induction t with
  | nil => rfl
  | cons c cs ih =>
    rw [List.mem_cons, not_or] at h
    have hc : (c == '\n') = false := by
      rw [beq_eq_false_iff_ne]
      exact fun heq => h.1 heq.symm
    rw [innerIndent?, hc, Bool.false_and]
    exact ih h.2

/-- A call and its ending stand on one line. -/
lemma break_not_mem_call (m : QuotedModule) (e : Ending) : '\n' ∉ m.call ++ e.text := by
  have htarget : '\n' ∉ m.target := fun hmem => (m.plain _ hmem).2 rfl
  have hquote : '\n' ≠ m.quote := by
    intro heq
    have hbreak := m.isQuote
    rw [← heq] at hbreak
    exact absurd hbreak (by decide)
  have hword : '\n' ∉ "require".toList := by decide
  rw [m.call_append]
  simp only [List.mem_append, List.mem_cons, not_or]
  exact ⟨hword, by decide, hquote, htarget, hquote, by decide, e.break_not_mem_text⟩

/-- A line of a declaration is one line. -/
lemma break_not_mem_clauseLine {front : Text} (hfront : '\n' ∉ front) (l : LeftHand)
    (m : QuotedModule) (e : Ending) : '\n' ∉ clauseLine front l m e := by
  have hl : '\n' ∉ l.text := l.not_mem_text (by decide) (by decide)
  have hcall := break_not_mem_call m e
  rw [List.mem_append, not_or] at hcall
  simp [clauseLine, hfront, hl, hcall]

/-- **A clause is read back**: it binds what its left-hand side and its ending say. -/
lemma ofLine_clause {front : Text} {keyword : Option Text} {l : LeftHand} {m : QuotedModule}
    {e : Ending} (continued : Bool) {bs : List Binding} (hequals : '=' ∉ front)
    (hslash : '/' ∉ front) (hbreak : '\n' ∉ front)
    (hdeclared : declared? (front ++ (l.text ++ [' '])) = some (keyword, l.text))
    (hallowed : keyword.isSome = true ∨ continued = true)
    (hpath : withPath (clauseLine front l m e) l.read e.path? = .ok bs) :
    ∃ r, ofLine (clauseLine front l m e) continued = .ok r ∧ r.target = m.target
      ∧ r.raw = clauseLine front l m e ∧ r.quote = [m.quote] ∧ r.bindings = bs.map simplified
      ∧ r.hasDefault = (isPackage m.target && r.isWholeModule) ∧ r.chained = e.isComma
      ∧ r.indent = none := by
  have hgranted : (keyword.isNone && !continued) = false := by
    rcases hallowed with h | h
    · rw [Option.isNone_eq_false_iff.mpr h, Bool.false_and]
    · rw [h, Bool.not_true, Bool.and_false]
  have hraw : ∀ t : Text, t.take (t.length - ([] : Text).length) = t := by simp
  have hrest : trim (stripComments []) = [] := rfl
  unfold ofLine
  rw [statement?_clause m e hequals hslash hdeclared]
  simp only [hraw, hrest]
  unfold ofAssigned
  simp only [l.readBindings_text, hgranted, Bool.false_eq_true, if_false, hpath]
  exact ⟨_, rfl, rfl, rfl, rfl, rfl, rfl, rfl,
    innerIndent?_eq_none (break_not_mem_clauseLine hbreak l m e)⟩

/-- **A call that stands alone is read back**, and binds nothing. -/
lemma ofLine_load (m : QuotedModule) (continued : Bool) :
    ofLine (m.call ++ Ending.semicolon.text) continued = .ok
      { target := m.target, raw := m.call ++ Ending.semicolon.text, quote := [m.quote] } := by
  have hraw : ∀ t : Text, t.take (t.length - ([] : Text).length) = t := by simp
  have hrest : trim (stripComments []) = [] := rfl
  unfold ofLine
  rw [statement?_load m]
  simp only [hraw, hrest]
  rfl

/-! ## Finding a line -/

/-- What a name is made of may stand in a left-hand side. -/
lemma isPlain_of_isNameChar {c : Char} (h : isNameChar c = true) : isPlain c = true := by
  by_contra hplain
  simp only [isPlain, Bool.not_eq_true', Bool.not_eq_false, List.contains_eq_mem,
    decide_eq_true_iff] at hplain
  have hnone : ∀ d ∈ ";=/*().\x7b\x7d\n".toList, isNameChar d = false := by decide
  rw [hnone c hplain] at h
  exact absurd h (by decide)

/-- A plain character may stand inside a group. -/
lemma isGrouped_of_isPlain {c : Char} (h : isPlain c = true) : isGrouped c = true := by
  simp only [isPlain, isGrouped, Bool.not_eq_true', List.contains_eq_mem, decide_eq_false_iff_not]
    at h ⊢
  exact fun hmem => h (List.mem_append_left "\x7b\x7d\n".toList hmem)

/-- A left-hand side of the grammar is one that a line can begin with. -/
lemma leftFront_text {front : Text} (hfront : ∀ c ∈ front, isPlain c = true) (l : LeftHand) :
    LeftFront (front ++ (l.text ++ [' '])) := by
  have hspace : isPlain ' ' = true := by decide
  cases l with
  | name x =>
    left
    intro c hc
    rcases List.mem_append.mp hc with hc | hc
    · exact hfront c hc
    · rcases List.mem_append.mp hc with hc | hc
      · exact isPlain_of_isNameChar (x.2.forall_isNameChar c hc)
      · rwa [List.mem_singleton.mp hc]
  | group first others =>
    right
    refine ⟨front, ' ' :: (LeftHand.membersText (first :: others) ++ " \x7d ".toList), ?_,
      hfront, ?_, ?_⟩
    · simp [LeftHand.text]
    · intro c hc
      rcases List.mem_cons.mp hc with rfl | hc
      · decide
      · rcases List.mem_append.mp hc with hc | hc
        · rcases LeftHand.mem_membersText hc with hc | rfl | rfl | rfl
          · exact isGrouped_of_isPlain (isPlain_of_isNameChar hc)
          all_goals decide
        · exact (by decide : ∀ c ∈ " \x7d ".toList, isGrouped c = true) c hc
    · have hreverse : (' ' :: (LeftHand.membersText (first :: others) ++ " \x7d ".toList)).reverse =
          [' ']
            ++ '\x7d' :: (' ' :: (LeftHand.membersText (first :: others)).reverse ++ [' ']) := by
        simp
      rw [endsGroup, dropEndWhile, hreverse, dropWhile_append_cons (by decide) (by decide)]
      simp [List.getLast?_reverse, -List.reverse_cons]

/-- A line that begins with a head and goes on with the argument of a call. -/
lemma lineText_of_head {head : Text} (hhead : LineHead head) (m : QuotedModule) (e : Ending) :
    LineText (head ++ m.quote :: (m.target ++ m.quote :: ')' :: e.text)) := by
  have hclose : ')' ∈ m.quote :: (m.target ++ m.quote :: ')' :: e.text) := by simp
  have hbreak : '\n' ∉ m.quote :: (m.target ++ m.quote :: ')' :: e.text) := by
    have hcall := break_not_mem_call m e
    rw [m.call_append] at hcall
    intro hmem
    exact hcall (List.mem_append_right _ (List.mem_cons_of_mem _ hmem))
  obtain ⟨args, tail, hsplit, hargs⟩ := List.eq_append_cons_of_mem hclose
  refine ⟨head, args, tail, hhead, ?_, hargs, ?_, by rw [hsplit]⟩
  · rintro rfl
    rw [List.nil_append, List.cons.injEq] at hsplit
    exact absurd m.isQuote (by rw [hsplit.1]; decide)
  · rw [hsplit] at hbreak
    exact fun hmem => hbreak (by simp [hmem])

/-- A clause is found as a line. -/
lemma lineText_clause {front : Text} (hfront : ∀ c ∈ front, isPlain c = true) (l : LeftHand)
    (m : QuotedModule) (e : Ending) : LineText (clauseLine front l m e) := by
  have hcall : CallHead (" require(".toList) := ⟨[' '], [], by decide, by simp, rfl⟩
  have hhead : LineHead ((front ++ (l.text ++ [' '])) ++ '=' :: " require(".toList) :=
    Or.inr ⟨_, _, leftFront_text hfront l, hcall, rfl⟩
  have hshape : clauseLine front l m e = ((front ++ (l.text ++ [' '])) ++ '=' :: " require(".toList)
      ++ m.quote :: (m.target ++ m.quote :: ')' :: e.text) := by
    unfold clauseLine
    rw [m.call_append]
    simp only [List.append_assoc, List.cons_append]
    rfl
  rw [hshape]
  exact lineText_of_head hhead m e

/-- A call that stands alone is found as a line. -/
lemma lineText_load (m : QuotedModule) : LineText (m.call ++ Ending.semicolon.text) := by
  have hhead : LineHead ("require".toList ++ ['(']) := Or.inl ⟨[], [], by simp, by simp, rfl⟩
  rw [m.call_append]
  exact lineText_of_head hhead m .semicolon

end Esmify.Requirement
