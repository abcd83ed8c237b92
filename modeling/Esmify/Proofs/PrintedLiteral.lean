import Esmify.Export.Reader
import Esmify.Proofs.Balance
import Esmify.Proofs.PrintedBlock

/-!
# Printed objects, read back at their commas

Members of an object printed one behind the other, with commas between them and any white space
around them: a name, a name under another key, three dots and a name, or a key with a plain value
(`LiteralMember`). **The comma reader undoes the printing** (`readLiteral_literalText`): nothing is
declined, in either mode, and each member is read as what it is.

A value is plain when its code has neither brackets nor commas and its literals are closed
(`Plain`); what is in its literals does not matter, and neither do line breaks. A plain piece and a
comma behind it are cut there and nowhere else (`Plain.parts_append_comma`). -/

namespace Esmify

open Text Source

/-! ## Plain pieces -/

/-- A text that closes its literals, without comments and with neither brackets nor commas in
code. -/
structure Plain (t : Text) : Prop where
  uncommented : stripComments t = t
  closed : modeAfter .code t = .code
  unbracketed : Unbracketed (codeText t)
  comma_not_mem : ',' ∉ codeText t

instance (t : Text) : Decidable (Plain t) :=
  decidable_of_iff (stripComments t = t ∧ modeAfter .code t = .code
      ∧ (∀ c ∈ codeText t, isOpener c = false ∧ isCloser c = false) ∧ ',' ∉ codeText t)
    ⟨fun h => ⟨h.1, h.2.1, h.2.2.1, h.2.2.2⟩,
      fun h => ⟨h.uncommented, h.closed, h.unbracketed, h.comma_not_mem⟩⟩

namespace Plain

variable {t : Text}

/-- Words in front of a plain piece. -/
lemma bare_append (h : Plain t) {head : Text} (hbare : Bare head) (hbrackets : Unbracketed head)
    (hcomma : ',' ∉ head) : Plain (head ++ t) := by
  have hcode : codeText (head ++ t) = head ++ codeText t := codeIn_bare_append hbare t
  refine ⟨?_, ?_, ?_, ?_⟩
  · rw [stripComments_bare_append hbare, h.uncommented]
  · rw [modeAfter_bare_append hbare, h.closed]
  · rw [hcode]
    exact List.forall_mem_append.mpr ⟨hbrackets, h.unbracketed⟩
  · rw [hcode, List.mem_append, not_or]
    exact ⟨hcomma, h.comma_not_mem⟩

/-- White space in front of a plain piece. -/
lemma blanks_append (h : Plain t) {blanks : Text} (hblanks : ∀ c ∈ blanks, isBlank c = true) :
    Plain (blanks ++ t) := by
  obtain ⟨hbare, hbrackets⟩ := bare_of_blanks hblanks
  refine h.bare_append hbare hbrackets fun hmem => ?_
  exact absurd (hblanks _ hmem) (by decide)

/-- Nothing is plain. -/
lemma nil : Plain [] := by decide

/-- White space is plain. -/
lemma of_blanks {blanks : Text} (hblanks : ∀ c ∈ blanks, isBlank c = true) : Plain blanks := by
  have hplain := nil.blanks_append hblanks
  rwa [List.append_nil] at hplain

/-- White space behind a plain piece. -/
lemma append_blanks (h : Plain t) {blanks : Text} (hblanks : ∀ c ∈ blanks, isBlank c = true) :
    Plain (t ++ blanks) := by
  have hcalm := calm_of_blanks hblanks
  have hplain := of_blanks hblanks
  have hcode : codeText (t ++ blanks) = codeText t ++ codeText blanks := by
    refine (codeIn_append .code t hcalm).trans ?_
    rw [h.closed]
    rfl
  refine ⟨?_, ?_, ?_, ?_⟩
  · refine (stripFrom_append .code t hcalm).trans ?_
    rw [h.closed]
    exact congrArg₂ (· ++ ·) h.uncommented hplain.uncommented
  · rw [modeAfter_append .code t hcalm, h.closed, hplain.closed]
  · rw [hcode]
    exact List.forall_mem_append.mpr ⟨h.unbracketed, hplain.unbracketed⟩
  · rw [hcode, List.mem_append, not_or]
    exact ⟨h.comma_not_mem, hplain.comma_not_mem⟩

/-- A plain piece is one part. -/
lemma parts_eq_singleton (h : Plain t) : parts t = [t] := by
  rw [parts_eq, partsFrom_eq_singleton]
  · exact congrArg (fun u => [u]) h.uncommented
  · intro front hfront
    exact absurd (hfront.subset (by simp)) h.comma_not_mem

/-- **A comma behind a plain piece ends the part.** -/
lemma parts_append_comma (h : Plain t) (rest : Text) :
    parts (t ++ ',' :: rest) = t :: parts rest := by
  have hcalm : Calm (',' :: rest) := calm_cons (by decide) (by decide) rest
  obtain ⟨front, last, hparts, happend⟩ := exists_partsFrom_append false .code 0 t hcalm
  rw [← parts_eq, h.parts_eq_singleton] at hparts
  obtain ⟨rfl, hlast⟩ := List.append_inj' (show [] ++ [t] = front ++ [last] from hparts) rfl
  obtain ⟨rfl, -⟩ := List.cons.inj hlast
  have hcomma : partsFrom false (modeAfter .code t) (0 + depthOf (codeIn .code t)) (',' :: rest) =
      [] :: partsFrom false .code 0 rest := by
    rw [h.closed, show depthOf (codeIn .code t) = 0 from depthOf_unbracketed h.unbracketed]
    rfl
  rw [parts_eq, parts_eq, happend _ _ hcomma, List.append_nil, List.nil_append]

end Plain

section pieces

variable {ts : List Text}

/-- **Plain pieces with commas between them are cut apart again.** -/
lemma parts_intercalate (h : ∀ t ∈ ts, Plain t) (hne : ts ≠ []) :
    parts ([','].intercalate ts) = ts := by
  induction ts with
  | nil => exact absurd rfl hne
  | cons t ts ih =>
    obtain ⟨ht, hts⟩ := List.forall_mem_cons.mp h
    cases ts with
    | nil => rw [List.intercalate_singleton, ht.parts_eq_singleton]
    | cons u ts =>
      rw [List.intercalate_cons_cons, List.append_assoc, List.singleton_append,
        ht.parts_append_comma, ih hts (List.cons_ne_nil _ _)]

/-- There are no brackets in the code of such pieces. -/
lemma unbracketed_intercalate (h : ∀ t ∈ ts, Plain t) :
    Unbracketed (codeText ([','].intercalate ts)) := by
  induction ts with
  | nil => exact Plain.nil.unbracketed
  | cons t ts ih =>
    obtain ⟨ht, hts⟩ := List.forall_mem_cons.mp h
    cases ts with
    | nil =>
      rw [List.intercalate_singleton]
      exact ht.unbracketed
    | cons u ts =>
      have hcode : codeText (t ++ ',' :: [','].intercalate (u :: ts)) =
          codeText t ++ ',' :: codeText ([','].intercalate (u :: ts)) :=
            codeIn_append_comma ht.closed _
      rw [List.intercalate_cons_cons, List.append_assoc, List.singleton_append, hcode]
      exact List.forall_mem_append.mpr
        ⟨ht.unbracketed, List.forall_mem_cons.mpr ⟨by decide, ih hts⟩⟩

end pieces

/-- There is no trouble with a literal that has no brackets in code. -/
lemma literalTrouble?_eq_none {inner : Text} (h : Unbracketed (codeText inner)) :
    literalTrouble? (stripComments inner) = none := by
  have hcode : codeText (stripComments inner) = codeText inner := codeIn_stripFrom .code inner
  rw [← hcode] at h
  have hnot : ∀ brackets : Text, (∀ c ∈ brackets, isOpener c = true ∨ isCloser c = true) →
      hasCodeChar (stripComments inner) brackets = false := by
    intro brackets hbrackets
    rw [hasCodeChar, List.any_eq_false]
    intro p hp hmem
    obtain ⟨hopen, hclose⟩ := h p.2 (List.mem_map_of_mem hp)
    have hbracket := hbrackets p.2 (List.contains_iff_mem.mp hmem)
    rw [hopen, hclose] at hbracket
    exact absurd hbracket (by decide)
  rw [literalTrouble?, hnot _ (by decide), hnot _ (by decide), hnot _ (by decide)]
  rfl

/-! ## Printed members -/

/-- A trimmed value that is not a name, plain enough to be read without looking into it. -/
structure PlainValue where
  text : Text
  firm : Firm text
  not_name : isName text = false
  plain : Plain text

/-- A member of a printed literal. -/
inductive LiteralMember
  /-- `name` -/
  | name (n : Name)
  /-- `key: name` -/
  | renamed (key n : Name)
  /-- `...name` -/
  | spread (n : Name)
  /-- `key: value` -/
  | value (key : Name) (v : PlainValue)

/-- Any white space. -/
abbrev Blanks := {t : Text // ∀ c ∈ t, isBlank c = true}

namespace LiteralMember

/-- The text of a member. -/
def text : LiteralMember → Text
  | .name n => n.1
  | .renamed key n => key.1 ++ (": ".toList ++ n.1)
  | .spread n => "...".toList ++ n.1
  | .value key v => key.1 ++ (": ".toList ++ v.text)

/-- The exported name of a member that has no value of its own: the key, and the name that it stands
for unless that is the same. -/
def property? : LiteralMember → Option Text
  | .name n => some n.1
  | .renamed key n => some (if n = key then key.1 else key.1 ++ ':' :: n.1)
  | _ => none

/-- The object all of whose keys are exported. -/
def keySet? : LiteralMember → Option Text
  | .spread n => some n.1
  | _ => none

/-- The key and the value of a member that has both. -/
def assignment? : LiteralMember → Option Assignment
  | .value key v => some ⟨key.1, v.text, none⟩
  | _ => none

/-- A member is written without white space around it. -/
lemma firm_text (m : LiteralMember) : Firm m.text := by
  cases m with
  | name n => exact n.2.firm
  | renamed key n => exact key.2.firm.around n.2.firm ": ".toList
  | spread n =>
    have hdots : Firm "...".toList :=
      ⟨⟨'.', "..".toList, rfl, by decide⟩, "..".toList, '.', rfl, by decide⟩
    exact hdots.around n.2.firm []
  | value key v => exact key.2.firm.around v.firm ": ".toList

/-- A member is written as a plain text. -/
lemma plain_text (m : LiteralMember) : Plain m.text := by
  have hname : ∀ n : Name, Plain n.1 := by
    intro n
    have hwordy := wordy_name n
    have hplain := Plain.nil.bare_append hwordy.bare hwordy.unbracketed hwordy.comma_not_mem
    rwa [List.append_nil] at hplain
  have hkey : ∀ (key : Name) {t : Text}, Plain t → Plain (key.1 ++ (": ".toList ++ t)) := by
    intro key t ht
    have hwordy := wordy_key key
    rw [← List.append_assoc]
    exact ht.bare_append hwordy.bare hwordy.unbracketed hwordy.comma_not_mem
  cases m with
  | name n => exact hname n
  | renamed key n => exact hkey key (hname n)
  | spread n =>
    have hdots : Wordy "...".toList := by decide
    exact (hname n).bare_append hdots.bare hdots.unbracketed hdots.comma_not_mem
  | value key v => exact hkey key v.plain

end LiteralMember

/-- A member with the white space around it. -/
structure SpacedMember where
  before : Blanks
  member : LiteralMember
  after : Blanks

/-- The text of a member with the white space around it. -/
def SpacedMember.text (m : SpacedMember) : Text :=
  m.before.1 ++ (m.member.text ++ m.after.1)

/-- Members with commas between them; `trailing` is the white space behind a last comma, or all
there is in an object without members. -/
def literalText (ms : List SpacedMember) (trailing : Option Blanks) : Text :=
  [','].intercalate (ms.map SpacedMember.text ++ trailing.toList.map Subtype.val)

/-! ## Reading them back -/

/-- **A member is read as what it is**, whatever white space is around it. -/
lemma addMembers_cons (e : GlobalExports) (m : SpacedMember) (rest : List Text) :
    addMembers e (m.text :: rest) =
      addMembers
        { e with
          properties := e.properties ++ m.member.property?.toList
          keySets := e.keySets ++ m.member.keySet?.toList
          assignments := e.assignments ++ m.member.assignment?.toList } rest := by
  have htrim : trim m.text = m.member.text :=
    m.member.firm_text.trim_append m.before.1 m.after.1 m.before.2 m.after.2
  have hblank : isBlankText m.text = false := by
    obtain ⟨c, cs, hcons, hc⟩ := m.member.firm_text.first
    rw [SpacedMember.text, hcons]
    simp [isBlankText, hc]
  rw [addMembers, hblank, htrim]
  cases m.member with
  | name n =>
    simp [LiteralMember.text, Member.parse_name, GlobalExports.add, LiteralMember.property?,
      LiteralMember.keySet?, LiteralMember.assignment?]
  | renamed key n =>
    simp only [LiteralMember.text, Member.parse_renamed]
    simp [GlobalExports.add, LiteralMember.property?, LiteralMember.keySet?,
      LiteralMember.assignment?]
  | spread n =>
    simp only [LiteralMember.text, Member.parse_spread]
    simp [GlobalExports.add, LiteralMember.property?, LiteralMember.keySet?,
      LiteralMember.assignment?]
  | value key v =>
    simp only [LiteralMember.text, Member.parse_value key v.firm v.not_name]
    simp [GlobalExports.add, LiteralMember.property?, LiteralMember.keySet?,
      LiteralMember.assignment?]

/-- Members are read one after the other. -/
lemma addMembers_members (e : GlobalExports) (ms : List SpacedMember) (rest : List Text) :
    addMembers e (ms.map SpacedMember.text ++ rest) =
      addMembers
        { e with
          properties := e.properties ++ ms.filterMap (·.member.property?)
          keySets := e.keySets ++ ms.filterMap (·.member.keySet?)
          assignments := e.assignments ++ ms.filterMap (·.member.assignment?) } rest := by
  induction ms generalizing e with
  | nil => simp
  | cons m ms ih =>
    have hcons : ∀ {β : Type} (f : SpacedMember → Option β),
        (m :: ms).filterMap f = (f m).toList ++ ms.filterMap f := by
      intro β f
      rw [List.filterMap_cons]
      cases f m <;> rfl
    rw [List.map_cons, List.cons_append, addMembers_cons, ih]
    simp only [hcons, List.append_assoc]

/-- White space behind the last comma is no member. -/
lemma addMembers_blanks (e : GlobalExports) (trailing : Option Blanks) :
    addMembers e (trailing.toList.map Subtype.val) = .ok e := by
  cases trailing with
  | none => rfl
  | some blanks =>
    have hblank : isBlankText blanks.1 = true := List.all_eq_true.mpr blanks.2
    rw [Option.toList_some, List.map_singleton, addMembers, hblank]
    rfl

/-- Plain pieces are taken one by one, and where there is none the empty text counts for none. -/
lemma addMembers_parts {ts : List Text} (h : ∀ t ∈ ts, Plain t) (e : GlobalExports) :
    addMembers e (parts ([','].intercalate ts)) = addMembers e ts := by
  by_cases hne : ts = []
  · rw [hne]
    rfl
  · rw [parts_intercalate h hne]

/-- **The comma reader undoes the printing.** Members printed with commas between them and any white
space around them, with or without a comma behind the last one, are read back in order: the names,
the objects whose keys are exported, and the values with their keys. -/
theorem readLiteral_literalText (ms : List SpacedMember) (trailing : Option Blanks) (snippet : Text)
    (experimental : Bool) :
    readLiteral (literalText ms trailing) snippet experimental =
      .ok { properties := ms.filterMap (·.member.property?)
            keySets := ms.filterMap (·.member.keySet?)
            assignments := ms.filterMap (·.member.assignment?) } := by
  have hplain : ∀ t ∈ ms.map SpacedMember.text ++ trailing.toList.map Subtype.val, Plain t := by
    refine List.forall_mem_append.mpr ⟨List.forall_mem_map.mpr fun m _ => ?_,
      List.forall_mem_map.mpr fun blanks _ => Plain.of_blanks blanks.2⟩
    exact (m.member.plain_text.append_blanks m.after.2).blanks_append m.before.2
  have hread : addMembers {} (splitTopLevel (stripComments (literalText ms trailing)) ',') = _ :=
    (addMembers_parts hplain {}).trans ((addMembers_members {} ms _).trans
      (addMembers_blanks _ trailing))
  unfold readLiteral
  dsimp only
  rw [literalText] at hread ⊢
  rw [literalTrouble?_eq_none (unbracketed_intercalate hplain), hread]
  rfl

/-- A value over two lines with a comma, a bracket and a colon in its literals and a colon in its
code. -/
def conditionalValue : PlainValue where
  text := "x >= ',(:' ?\n  1 : \"\x7d\"".toList
  firm := ⟨⟨'x', _, rfl, by decide⟩, "x >= ',(:' ?\n  1 : \"\x7d".toList, '"', rfl, by decide⟩
  not_name := by decide
  plain := by decide

/-- Members of every kind with white space of several kinds. -/
def spacedMembers : List SpacedMember :=
  [⟨⟨" ".toList, by decide⟩, .name ⟨"run".toList, 'r', "un".toList, rfl, by decide, by decide⟩,
    ⟨[], by simp⟩⟩, ⟨⟨"\t".toList, by decide⟩,
    .renamed ⟨"stop".toList, 's', "top".toList, rfl, by decide, by decide⟩
      ⟨"halt".toList, 'h', "alt".toList, rfl, by decide, by decide⟩, ⟨[], by simp⟩⟩,
    ⟨⟨"\n  ".toList, by decide⟩, .spread ⟨"lib".toList, 'l', "ib".toList,
      rfl, by decide, by decide⟩, ⟨" \n".toList, by decide⟩⟩,
    ⟨⟨[], by simp⟩, .renamed ⟨"size".toList, 's', "ize".toList, rfl, by decide, by decide⟩
      ⟨"size".toList, 's', "ize".toList, rfl, by decide, by decide⟩, ⟨[], by simp⟩⟩,
    ⟨⟨"\n".toList, by decide⟩, .value ⟨"width".toList, 'w', "idth".toList,
      rfl, by decide, by decide⟩ conditionalValue, ⟨[], by simp⟩⟩]

/-- Members with white space of all kinds around them are read back. -/
theorem readLiteral_literalText_spaced :
    readLiteral
        " run,\tstop: halt,\n  ...lib \n,size: size,\nwidth: x >= ',(:' ?\n  1 : \"\x7d\",\n".toList
          [] false =
      .ok { properties := ["run".toList, "stop:halt".toList, "size".toList]
            keySets := ["lib".toList]
            assignments := [⟨"width".toList, "x >= ',(:' ?\n  1 : \"\x7d\"".toList, none⟩] } := by
  have htext : literalText spacedMembers (some ⟨"\n".toList, by decide⟩) =
    " run,\tstop: halt,\n  ...lib \n,size: size,\nwidth: x >= ',(:' ?\n  1 : \"\x7d\",\n".toList :=
    by decide
  rw [← htext]
  exact readLiteral_literalText spacedMembers (some ⟨"\n".toList, by decide⟩) [] false

end Esmify
