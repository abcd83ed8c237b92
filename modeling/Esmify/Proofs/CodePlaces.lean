import Esmify.Proofs.DeclinedLine
import Esmify.Proofs.ExportReading
import Esmify.Proofs.ImportPass

/-!
# Where statements are read

The readers look for statements at the start of a line or behind a semicolon, and do not ask what
the text is in the middle of there. **So a statement is found in code exactly when the text in front
of it ends in code** (`statements_inCode_iff`): one that stands in a block comment, in a template
literal, or behind a semicolon in a line comment or a string, is read as well
(`statements_read_outside_code`).

There is one way from a literal into code within a statement. A string that goes on behind an
escaped line break ends at the next line break, and a left-hand side in braces may have one.

What a place is in the middle of is the mode behind the text in front of it (`inCode_iff`).
Characters that are no part of a quote, a comment mark or an escape leave it as it is, line breaks
aside (`modeAfter_mute`), and the left-hand sides that are accepted are made of such
(`mute_of_readBindings`). -/

namespace Esmify

open Text

namespace Source

/-! ## Places in code -/

/-- The character at an offset is outside literals and comments. -/
def InCode (t : Text) (i : Nat) : Prop :=
  i ∈ (code t).map Prod.fst

instance (t : Text) (i : Nat) : Decidable (InCode t i) :=
  inferInstanceAs (Decidable (_ ∈ _))

/-- What the reading is in the middle of behind the first `i` characters of a text. -/
def modeAt (t : Text) (i : Nat) : Mode :=
  modeAfter .code (t.take i)

/-- The mode at the end of a front is the mode behind it. -/
lemma modeAt_append (front rest : Text) :
    modeAt (front ++ rest) front.length = modeAfter .code front := by
  rw [modeAt, List.take_left]

/-- **A character is in code when the text in front of it ends in code**, unless it opens something
or breaks the line. -/
lemma inCode_iff {front rest : Text} {c : Char} (hquote : isQuote c = false) (hslash : c ≠ '/')
    (hstar : c ≠ '*') (hbreak : c ≠ '\n') :
    InCode (front ++ c :: rest) front.length ↔ modeAfter .code front = .code := by
  have hcode : (code (front ++ c :: rest)).map Prod.fst = (codeChars .code 0 front).map Prod.fst
      ++ (codeChars (modeAfter .code front) front.length (c :: rest)).map Prod.fst := by
    rw [code, codeFrom, List.drop_zero, codeChars_append _ _ _ (calm_cons hslash hstar rest),
      List.map_append, Nat.zero_add]
  have hfront : front.length ∉ (codeChars .code 0 front).map Prod.fst := by
    intro hmem
    obtain ⟨p, hp, heq⟩ := List.mem_map.mp hmem
    have hbounds := codeChars_bounds p hp
    omega
  have hbehind : ∀ m, front.length ∉ (codeChars m (front.length + 1) rest).map Prod.fst := by
    intro m hmem
    obtain ⟨p, hp, heq⟩ := List.mem_map.mp hmem
    have hbounds := codeChars_bounds p hp
    omega
  rw [InCode, hcode, List.mem_append, or_iff_right hfront, codeChars]
  constructor
  · intro hmem
    rcases hstep : (modeAfter .code front).step c rest.head? with ⟨region, m'⟩
    rw [hstep] at hmem
    cases region with
    | code => exact (Mode.step_eq_code hstep).2 hbreak
    | comment => exact absurd hmem (hbehind m')
    | literal => exact absurd hmem (hbehind m')
  · intro hmode
    rw [hmode, Mode.step_bare hquote hslash]
    exact List.mem_cons_self

/-! ## Modes that last -/

/-- A mode that goes on until something ends it, with a quote to end a literal. -/
def Mode.Lasting : Mode → Prop
  | .code | .lineComment | .blockComment => True
  | .literal quote => isQuote quote = true
  | _ => False

/-- A line break ends what is going on. -/
def Mode.EndsAtBreak : Mode → Prop
  | .lineComment => True
  | .literal quote => quote ≠ templateQuote
  | _ => False

instance (m : Mode) : Decidable m.EndsAtBreak :=
  match m with
  | .code => inferInstanceAs (Decidable False)
  | .lineComment => inferInstanceAs (Decidable True)
  | .commentOpening => inferInstanceAs (Decidable False)
  | .blockComment => inferInstanceAs (Decidable False)
  | .commentClosing => inferInstanceAs (Decidable False)
  | .literal quote => inferInstanceAs (Decidable (quote ≠ templateQuote))
  | .escaped _ => inferInstanceAs (Decidable False)

/-- A literal is only opened by a quote. -/
def Mode.Quoted : Mode → Prop
  | .literal quote | .escaped quote => isQuote quote = true
  | _ => True

/-- A literal that is opened or goes on is one that a quote has opened. -/
lemma Mode.Quoted.step {m : Mode} (h : m.Quoted) (c : Char) (next : Option Char) :
    (m.step c next).2.Quoted := by
  cases m with
  | code =>
    rw [Mode.step]
    split_ifs with hquote
    · exact hquote
    all_goals trivial
  | lineComment =>
    rw [Mode.step]
    split_ifs
    all_goals trivial
  | commentOpening => trivial
  | blockComment =>
    rw [Mode.step]
    split_ifs
    all_goals trivial
  | commentClosing => trivial
  | literal quote =>
    rw [Mode.step]
    split_ifs
    · exact h
    · trivial
    · trivial
    · exact h
  | escaped quote => exact h

/-- At the end of a text, a character other than a backslash leaves a mode that lasts. -/
lemma Mode.lasting_step {m : Mode} (h : m.Quoted) {c : Char} (hc : c ≠ '\\') :
    (m.step c none).2.Lasting := by
  cases m with
  | code =>
    by_cases hquote : isQuote c = true
    · rw [Mode.step, if_pos hquote]
      exact hquote
    · rw [Mode.step, if_neg hquote, if_neg fun h => absurd h.2 (by simp),
        if_neg fun h => absurd h.2 (by simp)]
      trivial
  | lineComment =>
    rw [Mode.step]
    split_ifs
    all_goals trivial
  | commentOpening => trivial
  | blockComment =>
    rw [Mode.step, if_neg fun h => absurd h.2 (by simp)]
    trivial
  | commentClosing => trivial
  | literal quote =>
    rw [Mode.step, if_neg hc]
    split_ifs
    · trivial
    · trivial
    · exact h
  | escaped quote => exact h

/-- Behind a text that does not end with a backslash the mode lasts. -/
lemma lasting_modeAfter {m : Mode} (hm : m.Quoted) {t : Text} (hne : t ≠ [])
    (ht : t.getLast? ≠ some '\\') :
    (modeAfter m t).Lasting := by
  induction t generalizing m with
  | nil => exact absurd rfl hne
  | cons c t ih =>
    rw [modeAfter]
    cases t with
    | nil =>
      apply Mode.lasting_step hm
      rintro rfl
      exact ht rfl
    | cons d t =>
      rw [List.getLast?_cons_cons] at ht
      exact ih (hm.step c _) (List.cons_ne_nil d t) ht

/-- **Where a statement can begin, what is going on lasts.** -/
lemma lasting_of_beginsStatement {front : Text} (h : beginsStatement front.getLast? = true) :
    (modeAfter .code front).Lasting := by
  by_cases hne : front = []
  · rw [hne]
    trivial
  · apply lasting_modeAfter (m := .code) trivial hne
    intro hlast
    rw [hlast] at h
    exact absurd h (by decide)

/-- A character that is no part of a quote, a comment mark or an escape. -/
def Mute (c : Char) : Prop :=
  isQuote c = false ∧ c ≠ '/' ∧ c ≠ '*' ∧ c ≠ '\\'

/-- A mute character on the line changes no lasting mode. -/
lemma Mode.step_mute {m : Mode} (hm : m.Lasting) {c : Char} (hc : Mute c) (hbreak : c ≠ '\n')
    (next : Option Char) : (m.step c next).2 = m := by
  obtain ⟨hquote, hslash, hstar, hescape⟩ := hc
  cases m with
  | code => rw [Mode.step_bare hquote hslash]
  | lineComment => rw [Mode.step, if_neg hbreak]
  | commentOpening => exact absurd hm id
  | blockComment => rw [Mode.step, if_neg fun h => hstar h.1]
  | commentClosing => exact absurd hm id
  | literal quote =>
    have hne : c ≠ quote := by
      rintro rfl
      have hmarked : isQuote c = true := hm
      rw [hquote] at hmarked
      exact absurd hmarked (by decide)
    rw [Mode.step, if_neg hescape, if_neg hne, if_neg fun h => hbreak h.1]
  | escaped quote => exact absurd hm id

/-- A line break ends the modes that end there and no others. -/
lemma Mode.step_break {m : Mode} (hm : m.Lasting) (next : Option Char) :
    (m.step '\n' next).2 = if m.EndsAtBreak then .code else m := by
  cases m with
  | code => rfl
  | lineComment => rfl
  | commentOpening => exact absurd hm id
  | blockComment => rfl
  | commentClosing => exact absurd hm id
  | literal quote =>
    have hescape : '\n' ≠ '\\' := by decide
    have hne : '\n' ≠ quote := by
      rintro rfl
      exact absurd hm (by unfold Mode.Lasting; decide)
    rw [Mode.step, if_neg hescape, if_neg hne]
    by_cases htemplate : quote = templateQuote
    · rw [if_neg fun h => h.2 htemplate]
      exact (if_neg fun h => h htemplate).symm
    · rw [if_pos ⟨rfl, htemplate⟩]
      exact (if_pos htemplate).symm
  | escaped quote => exact absurd hm id

/-- **Mute characters end nothing but at a line break.** -/
lemma modeAfter_mute {m : Mode} (hm : m.Lasting) {u : Text} (hu : ∀ c ∈ u, Mute c) :
    modeAfter m u = .code ↔ m = .code ∨ (m.EndsAtBreak ∧ '\n' ∈ u) := by
  induction u generalizing m with
  | nil => simp [modeAfter]
  | cons c u ih =>
    obtain ⟨hc, hrest⟩ := List.forall_mem_cons.mp hu
    rw [modeAfter]
    by_cases hbreak : c = '\n'
    · rw [hbreak, Mode.step_break hm]
      by_cases hends : m.EndsAtBreak
      · rw [if_pos hends, ih (m := .code) trivial hrest]
        exact iff_of_true (Or.inl rfl) (Or.inr ⟨hends, List.mem_cons_self⟩)
      · rw [if_neg hends, ih hm hrest]
        simp only [hends, false_and]
    · rw [Mode.step_mute hm hc hbreak, ih hm hrest, List.mem_cons, or_iff_right (Ne.symm hbreak)]

/-- A text of mute characters begins with no comment mark. -/
lemma calm_of_mute {u : Text} (hu : ∀ c ∈ u, Mute c) : Calm u := by
  cases u with
  | nil => exact ⟨by simp, by simp⟩
  | cons c u =>
    obtain ⟨-, hslash, hstar, -⟩ := hu c List.mem_cons_self
    exact calm_cons hslash hstar u

/-- A blank is mute. -/
lemma mute_of_isBlank {c : Char} (h : isBlank c = true) : Mute c := by
  obtain ⟨-, -, hslash, hstar, hquote⟩ := bracketStep_of_isBlank h
  refine ⟨hquote, hslash, hstar, ?_⟩
  rintro rfl
  exact absurd h (by decide)

/-- A character of a name is mute. -/
lemma mute_of_isNameChar {c : Char} (h : isNameChar c = true) : Mute c := by
  have hnot : c ∉ "'\"\x60/*\\".toList := by
    intro hmem
    have hall : ∀ d ∈ "'\"\x60/*\\".toList, isNameChar d = false := by decide
    rw [hall c hmem] at h
    exact absurd h (by decide)
  simp at hnot
  simp [Mute, isQuote, templateQuote, hnot]

/-- **A place behind mute characters**: it is in code when the text in front of them ends in code,
or in something that a line break among them ends. -/
lemma inCode_behind_mute {front u rest : Text} {c : Char}
    (hfront : beginsStatement front.getLast? = true) (hu : ∀ x ∈ u, Mute x) (hc : Mute c)
    (hbreak : c ≠ '\n') :
    InCode (front ++ (u ++ c :: rest)) (front.length + u.length) ↔
      modeAt (front ++ (u ++ c :: rest)) front.length = .code
        ∨ ((modeAt (front ++ (u ++ c :: rest)) front.length).EndsAtBreak ∧ '\n' ∈ u) := by
  obtain ⟨hquote, hslash, hstar, -⟩ := hc
  have hplace : InCode ((front ++ u) ++ c :: rest) (front ++ u).length ↔
      modeAfter .code (front ++ u) = .code := inCode_iff hquote hslash hstar hbreak
  rw [modeAt_append, ← modeAfter_mute (lasting_of_beginsStatement hfront) hu,
    ← modeAfter_append .code front (calm_of_mute hu), ← hplace, List.length_append,
    List.append_assoc]

end Source

open Source

/-! ## Exports -/

/-- How many characters of white space a text begins with. -/
def margin (t : Text) : Nat :=
  (t.takeWhile isBlank).length

/-- **The first thing to see of a statement is in code** exactly when the text in front of it ends
in code. -/
lemma StatementAt.inCode_iff {content : Text} {start stop : Nat}
    (h : StatementAt content start stop) :
    margin (content.slice start stop) < (content.slice start stop).length
      ∧ (InCode content (start + margin (content.slice start stop)) ↔
        modeAt content start = .code) := by
  obtain ⟨front, t, rfl, rfl, hle, hbefore, indent, c, back, hindent, hc, rfl, hback⟩ := h
  have hletters : ∀ x ∈ "emO_l$".toList, isBlank x = false ∧ isNameChar x = true
      ∧ x ≠ '\n' := by decide
  obtain ⟨hvisible, hname, hbreak⟩ := hletters c hc
  have hblank : ∀ x ∈ indent, isBlank x = true := fun x hx => isBlank_of_isIndent (hindent x hx)
  simp only [List.length_append, List.length_cons] at hle hback
  -- the slice begins with the indentation and the letter
  obtain ⟨tail, hslice⟩ : ∃ tail, Text.slice (front ++ (indent ++ c :: back)) front.length stop =
      indent ++ c :: tail := by
    have hsize : stop = front.length + (indent.length
        + (1 + (stop - front.length - indent.length - 1))) := by
      omega
    unfold slice
    rw [hsize, List.take_length_add_append, List.drop_left, List.take_length_add_append,
      Nat.add_comm 1, List.take_succ_cons]
    exact ⟨_, rfl⟩
  have hmargin : margin (indent ++ c :: tail) = indent.length := by
    rw [margin, takeWhile_append_cons hblank hvisible]
  rw [hslice, hmargin]
  refine ⟨by rw [List.length_append, List.length_cons]; omega, ?_⟩
  rw [inCode_behind_mute hbefore (fun x hx => mute_of_isBlank (hblank x hx))
    (mute_of_isNameChar hname) hbreak]
  have hline : '\n' ∉ indent := fun hmem => absurd (hindent _ hmem) (by decide)
  simp only [hline, and_false, or_false]

/-- An inline export is read from a statement. -/
lemma InlineExport.statementAt_of_mem {content : Text} {e : InlineExport}
    (h : e ∈ InlineExport.readAll content) :
    ∃ start stop, StatementAt content start stop ∧ e.raw = content.slice start stop
      ∧ e.start = some start := by
  obtain ⟨o, ho, rfl⟩ := List.mem_map.mp h
  obtain ⟨front, m, back, hsplit, hstart, hstop, -, hmatch⟩ :=
    exists_of_mem_occurrences inlineExport_consumes ho
  have hlength : content.length = front.length + (m.length + back.length) := by
    rw [hsplit, List.length_append, List.length_append]
  exact ⟨o.start, o.stop, ⟨front, m ++ back, hsplit, hstart, by omega,
    (inlineExport_opens hmatch).mono (by omega)⟩, rfl, rfl⟩

/-- What is exported as a whole is read from a statement. -/
lemma GlobalExports.statementAt_of_raw {content raw : Text} {experimental : Bool}
    (h : (GlobalExports.read content experimental).value.raw = some raw) :
    ∃ start stop, StatementAt content start stop ∧ raw = content.slice start stop
      ∧ (GlobalExports.read content experimental).value.start = some start := by
  rcases GlobalExports.read_cases content experimental with ⟨e, hfind, hread⟩ | ⟨r, -, hread⟩
  · rw [hread] at h ⊢
    rcases findGlobal_from hfind with rfl | ⟨start, stop, hstatement, hraw, hstart, -⟩
    · exact absurd h (by simp)
    · exact ⟨start, stop, hstatement, Option.some.inj (h.symm.trans hraw), hstart⟩
  · rw [hread] at h
    exact absurd h (by simp)

/-! ## Left-hand sides -/

namespace Requirement

/-- A name has no marks in it, nor has the line break that may follow it. -/
lemma mute_of_isName {t : Text} (h : isName t = true) : ∀ c ∈ t, Mute c := by
  intro c hc
  rcases isName_iff.mp h with hname | ⟨n, hname, rfl⟩
  · exact mute_of_isNameChar (hname.forall_isNameChar c hc)
  · rcases List.mem_append.mp hc with hc | hc
    · exact mute_of_isNameChar (hname.forall_isNameChar c hc)
    · rw [List.mem_singleton.mp hc]
      exact mute_of_isBlank (by decide)

/-- What trimming removes is white space. -/
lemma mute_of_trim {t : Text} (h : ∀ c ∈ trim t, Mute c) : ∀ c ∈ t, Mute c := by
  intro c hc
  by_cases hblank : isBlank c = true
  · exact mute_of_isBlank hblank
  · exact h c (mem_trim (by simpa using hblank) hc)

/-- A member of a brace group that is read has no marks in it. -/
lemma mute_of_member? {t : Text} {b : Binding} (h : member? t = some b) : ∀ c ∈ t, Mute c := by
  have hnames : isName (trim (partition ':' (trim t)).1) = true
      ∧ (trim ((partition ':' (trim t)).2.getD []) = []
        ∨ isName (trim ((partition ':' (trim t)).2.getD [])) = true) := by
    unfold member? at h
    dsimp only at h
    split_ifs at h with hnames
    all_goals
      simp only [Bool.or_eq_true, Bool.not_eq_true', not_or, Bool.not_eq_false,
        Bool.and_eq_true, not_and, List.isEmpty_eq_false_iff] at hnames
      exact ⟨hnames.1, or_iff_not_imp_left.mpr hnames.2⟩
  obtain ⟨hkey, hlocal⟩ := hnames
  apply mute_of_trim
  rcases partition_cases ':' (trim t) with ⟨-, hcut⟩ | ⟨l, r, -, hsplit, hcut⟩
  · rw [hcut] at hkey
    exact mute_of_trim (mute_of_isName hkey)
  · rw [hcut] at hkey hlocal
    have hright : ∀ c ∈ r, Mute c := by
      apply mute_of_trim
      rcases hlocal with hnil | hname
      · rw [show trim r = [] from hnil]
        exact fun c hc => absurd hc List.not_mem_nil
      · exact mute_of_isName hname
    rw [hsplit]
    refine List.forall_mem_append.mpr ⟨mute_of_trim (mute_of_isName hkey), ?_⟩
    exact List.forall_mem_cons.mpr ⟨by unfold Mute; decide, hright⟩

/-- **A left-hand side that is accepted has no quotes, comment marks and escapes in it.** -/
lemma mute_of_readBindings {raw : Text} {bs : List Binding} (h : readBindings raw = .ok bs) :
    ∀ c ∈ raw, Mute c := by
  apply mute_of_trim
  -- line breaks apart, the text is a name or a brace group
  suffices hvalue : ∀ c ∈ (trim raw).filter (· != '\n'), Mute c by
    intro c hc
    by_cases hbreak : c = '\n'
    · rw [hbreak]
      exact mute_of_isBlank (by decide)
    · exact hvalue c (List.mem_filter.mpr ⟨hc, by simpa using hbreak⟩)
  rcases readBindings_eq_ok h with ⟨hname, -⟩ | ⟨mid, hmid, -, hmembers, -⟩
  · exact fun c hc => mute_of_isNameChar (hname.forall_isNameChar c hc)
  · have hbraces : ∀ c ∈ "\x7b\x7d,".toList, Mute c := by
      unfold Mute
      decide
    have hinner : ∀ c ∈ mid, Mute c := by
      apply mute_of_trim
      intro c hc
      by_cases hcomma : c = ','
      · exact hbraces c (by simp [hcomma])
      by_cases hblank : isBlank c = true
      · exact mute_of_isBlank hblank
      obtain ⟨part, hpart, hin⟩ := exists_mem_splitOn (w := [c]) (by simpa using Ne.symm hcomma)
        ((List.singleton_infix_iff c _).mpr hc)
      have hmem : c ∈ part := hin.subset List.mem_cons_self
      have hvisible : isBlankText part = false := by
        rw [isBlankText, List.all_eq_false]
        exact ⟨c, hmem, hblank⟩
      obtain ⟨b, hb⟩ := exists_member?_of_members? hmembers hpart hvisible
      exact mute_of_member? hb c hmem
    rw [hmid]
    refine List.forall_mem_cons.mpr ⟨hbraces _ (by decide), List.forall_mem_append.mpr ⟨hinner, ?_⟩⟩
    exact List.forall_mem_singleton.mpr (hbraces _ (by decide))

/-- What stands in front of the equals sign of a line that is read. -/
lemma mute_of_declared? {front binding : Text} {keyword : Option Text} {bs : List Binding}
    (hdeclared : declared? front = some (keyword, binding))
    (hread : readBindings binding = .ok bs) :
    ∀ c ∈ front, Mute c := by
  have hbinding := mute_of_readBindings hread
  rcases declared?_eq_some hdeclared with rfl | ⟨word, rest, hword, hsplit, rfl⟩
  · exact mute_of_trim hbinding
  · have hkeywords : ∀ word ∈ variableKeywords, ∀ c ∈ word, isNameChar c = true := by decide
    obtain ⟨blanks, hblanks, hfront, -⟩ := dropWhile_split isBlank front
    rw [hfront, show front.dropWhile isBlank = word ++ rest from hsplit]
    refine List.forall_mem_append.mpr ⟨fun c hc => mute_of_isBlank (hblanks c hc), ?_⟩
    refine List.forall_mem_append.mpr ⟨fun c hc => mute_of_isNameChar
      (hkeywords word hword c hc), ?_⟩
    exact mute_of_trim hbinding

/-! ## Calls -/

/-- Where the word of the first call stands in the source of a requirement. -/
def callOffset (raw : Text) : Nat :=
  (trimEnd (raw.takeWhile (· != '('))).length - "require".toList.length

/-- A call is found behind the front when no parenthesis stands in it. -/
lemma callOffset_append {front blanks rest : Text} (hopen : '(' ∉ front)
    (hblanks : ∀ c ∈ blanks, isBlank c = true) :
    callOffset (front ++ ("require".toList ++ (blanks ++ '(' :: rest))) = front.length := by
  have htake : (front ++ ("require".toList ++ (blanks ++ '(' :: rest))).takeWhile (· != '(') =
      front ++ "require".toList ++ blanks := by
    have hnot : ∀ c ∈ front ++ "require".toList ++ blanks, (c != '(') = true := by
      intro c hc
      rw [bne_iff_ne]
      rintro rfl
      rcases List.mem_append.mp hc with hc | hc
      · rcases List.mem_append.mp hc with hc | hc
        · exact hopen hc
        · exact absurd hc (by decide)
      · exact absurd (hblanks _ hc) (by decide)
    have hword := takeWhile_append_cons hnot (show ('(' != '(') = false by decide) rest
    simpa only [List.append_assoc] using hword
  have htrim : trimEnd (front ++ "require".toList ++ blanks) = front ++ "require".toList := by
    refine trimEnd_append (fun c hc => ?_) hblanks
    have hlast : "require".toList.getLast? = some 'e' := by decide
    rw [List.getLast?_append_of_ne_nil _ (by decide), hlast] at hc
    rw [← Option.some.inj hc]
    decide
  unfold callOffset
  rw [htake, htrim, List.length_append]
  exact Nat.add_sub_cancel _ _

/-- A line that is read has its call behind characters without marks. -/
lemma exists_call_of_ofLine {line : Text} {continued : Bool} {r : Requirement}
    (hline : LineText line) (h : ofLine line continued = .ok r) :
    ∃ front blanks rest, (∀ c ∈ front, Mute c) ∧ '(' ∉ front ∧ (∀ c ∈ blanks, isBlank c = true)
      ∧ r.raw = front ++ ("require".toList ++ (blanks ++ '(' :: rest)) := by
  obtain ⟨head, args, tail, hhead, -, -, -, rfl⟩ := hline
  obtain ⟨s, -, hclose, hsplit, -⟩ := ofLine_eq_ok h
  -- the source of the requirement reaches beyond the head, which has no closing parenthesis
  obtain ⟨more, hraw⟩ : head <+: r.raw := by
    rcases List.prefix_or_prefix_of_prefix (List.prefix_append head _)
      (hsplit ▸ List.prefix_append r.raw s.rest) with hleading | hleading
    · exact hleading
    · exact absurd (hleading.subset hclose) hhead.not_mem
  have hindented : ∀ {indent : Text}, (∀ c ∈ indent, isIndent c = true) →
      (∀ c ∈ indent, Mute c) ∧ '(' ∉ indent := by
    intro indent hindent
    exact ⟨fun c hc => mute_of_isBlank (isBlank_of_isIndent (hindent c hc)),
      fun hmem => absurd (hindent _ hmem) (by decide)⟩
  rcases hhead with ⟨indent, blanks, hindent, hblanks, rfl⟩ | ⟨left, call, hleft, hcall, rfl⟩
  · obtain ⟨hmute, hopen⟩ := hindented hindent
    refine ⟨indent, blanks, more, hmute, hopen, hblanks, ?_⟩
    rw [← hraw]
    simp only [List.append_assoc, List.singleton_append]
  · obtain ⟨indent, blanks, hindent, hblanks, rfl⟩ := hcall
    obtain ⟨hmute, hopen⟩ := hindented hindent
    have hsign : '=' ∉ left := hleft.not_mem (by decide) (by decide) (by decide)
    have hopen' : '(' ∉ left := hleft.not_mem (by decide) (by decide) (by decide)
    obtain ⟨keyword, binding, bs, hdeclared, hread⟩ :=
      exists_readBindings (by rw [List.append_assoc, List.cons_append]) hsign hopen' h
    refine ⟨left ++ '=' :: indent, blanks, more, ?_, ?_, hblanks, ?_⟩
    · refine List.forall_mem_append.mpr ⟨mute_of_declared? hdeclared hread, ?_⟩
      exact List.forall_mem_cons.mpr ⟨by unfold Mute; decide, hmute⟩
    · rw [List.mem_append, List.mem_cons, not_or, not_or]
      exact ⟨hopen', by decide, hopen⟩
    · rw [← hraw]
      simp only [List.append_assoc, List.cons_append, List.nil_append]

/-- **The call of a requirement is in code** exactly when the text in front of its statement ends in
code, or in something that a line break in front of the call ends. -/
lemma inCode_call_iff {content : Text} {r : Requirement} (h : r ∈ (readAll content).value) :
    ∃ start, r.start = some start
      ∧ standsAt "require".toList content (start + callOffset r.raw) = true
      ∧ (InCode content (start + callOffset r.raw) ↔ modeAt content start = .code
        ∨ ((modeAt content start).EndsAtBreak ∧ '\n' ∈ r.raw.take (callOffset r.raw))) := by
  rw [value_readAll] at h
  obtain ⟨line, hmem, continued, r', hread, rfl⟩ := exists_placed_of_mem h
  obtain ⟨front, m, back, rfl, hplace, -, htext, hmatch⟩ :=
    exists_of_mem_occurrences requireLine_consumes hmem
  obtain ⟨hbegins, hline, -⟩ := requireLine_append_iff.mp hmatch
  rw [htext] at hread
  obtain ⟨s, -, -, hsplit, -⟩ := ofLine_eq_ok hread
  obtain ⟨left, blanks, rest, hmute, hopen, hblanks, hcall⟩ := exists_call_of_ofLine hline hread
  have hfront : beginsStatement front.getLast? = true := by
    cases hlast : front.getLast? with
    | none => rfl
    | some c =>
      rw [hlast] at hbegins
      exact Bool.or_eq_true_iff.mpr (Or.inl hbegins)
  have hcontent : front ++ (m ++ back) =
      front ++ (left ++ 'r' :: ("equire".toList ++ (blanks ++ '(' :: rest)
        ++ (s.rest ++ back))) := by
    rw [hsplit, hcall]
    simp
  rw [show (placed _ line.start continued r').raw = r'.raw from rfl, hcall,
    callOffset_append hopen hblanks, List.take_left]
  refine ⟨front.length, congrArg some hplace, ?_, ?_⟩
  · rw [hcontent]
    have hplaced := standsAt_append (front ++ left) "require".toList
      (blanks ++ '(' :: rest ++ (s.rest ++ back))
    simpa using hplaced
  · rw [hcontent]
    exact inCode_behind_mute hfront hmute (mute_of_isNameChar (by decide)) (by decide)

end Requirement

/-! ## Texts -/

/-- **What is read from a text stands in code exactly when the text in front of it ends in code.**
For the call of a requirement, the first thing to see of an inline export, and that of what is
exported as a whole. A call may also stand behind a line break of its own statement that ends a
string. -/
theorem statements_inCode_iff (content : Text) :
    (∀ r ∈ (Requirement.readAll content).value, ∃ start, r.start = some start
      ∧ standsAt "require".toList content (start + Requirement.callOffset r.raw) = true
      ∧ (InCode content (start + Requirement.callOffset r.raw) ↔ modeAt content start = .code
        ∨ ((modeAt content start).EndsAtBreak ∧ '\n' ∈ r.raw.take (Requirement.callOffset r.raw))))
    ∧ (∀ e ∈ InlineExport.readAll content, ∃ start, e.start = some start
      ∧ margin e.raw < e.raw.length
      ∧ (InCode content (start + margin e.raw) ↔ modeAt content start = .code))
    ∧ ∀ experimental raw, (GlobalExports.read content experimental).value.raw = some raw →
      ∃ start, (GlobalExports.read content experimental).value.start = some start
        ∧ margin raw < raw.length
        ∧ (InCode content (start + margin raw) ↔ modeAt content start = .code) := by
  refine ⟨fun r hr => Requirement.inCode_call_iff hr, fun e he => ?_,
    fun experimental raw hraw => ?_⟩
  · obtain ⟨start, stop, hstatement, hsource, hstart⟩ := InlineExport.statementAt_of_mem he
    rw [hsource]
    exact ⟨start, hstart, hstatement.inCode_iff⟩
  · obtain ⟨start, stop, hstatement, rfl, hstart⟩ := GlobalExports.statementAt_of_raw hraw
    exact ⟨start, hstart, hstatement.inCode_iff⟩

/-- A call behind a string that goes on over a line break, an export in a line comment, and one in
code. -/
theorem statements_inCode_iff_mixed :
    let content : Text :=
      "'\\\nvar \x7ba,\n  b\x7d = require('a');\n".toList
        ++ "// was; exports.b = 1;\nmodule.exports = \x7b a \x7d;\n".toList
    ∃ r ∈ (Requirement.readAll content).value, ∃ e ∈ InlineExport.readAll content, ∃ raw,
      (GlobalExports.read content false).value.raw = some raw
        ∧ (∃ start, r.start = some start ∧ modeAt content start = .literal '\''
          ∧ InCode content (start + Requirement.callOffset r.raw))
        ∧ (∃ start, e.start = some start ∧ ¬ InCode content (start + margin e.raw))
        ∧ ∃ start, (GlobalExports.read content false).value.start = some start
          ∧ InCode content (start + margin raw) := by
  intro content
  obtain ⟨hcalls, hinline, hglobal⟩ := statements_inCode_iff content
  have hcontent : content = _ :=
    congrArg₂ (· ++ ·) String.toList_ofList String.toList_ofList
  have hcalled : (Requirement.readAll content).value.map (fun r => (r.start, r.raw)) =
      [(some 3, "var \x7ba,\n  b\x7d = require('a');".toList)] := by
    rw [hcontent]
    decide
  have hexported : (InlineExport.readAll content).map InlineExport.start = [some 39] := by
    rw [hcontent]
    decide
  have hwhole : (fun g : GlobalExports => (g.raw, g.start))
      (GlobalExports.read content false).value =
      (some "module.exports = \x7b a \x7d;\n".toList, some 55) := by
    rw [hcontent]
    decide
  have hmodes : modeAt content 3 = .literal '\'' ∧ modeAt content 39 ≠ .code
      ∧ modeAt content 55 = .code := by
    rw [hcontent]
    decide
  obtain ⟨r, hr, hcall⟩ := List.map_eq_singleton_iff.mp hcalled
  obtain ⟨e, he, hexport⟩ := List.map_eq_singleton_iff.mp hexported
  rw [Prod.mk.injEq] at hcall hwhole
  obtain ⟨hraw, hwhole⟩ := hwhole
  have hmemr : r ∈ (Requirement.readAll content).value := hr ▸ List.mem_singleton_self r
  have hmeme : e ∈ InlineExport.readAll content := he ▸ List.mem_singleton_self e
  obtain ⟨start, hstart, -, hiff⟩ := hcalls r hmemr
  obtain ⟨start', hstart', -, hiff'⟩ := hinline e hmeme
  obtain ⟨start'', hstart'', -, hiff''⟩ := hglobal false _ hraw
  obtain rfl := Option.some.inj (hcall.1.symm.trans hstart)
  obtain rfl := Option.some.inj (hexport.symm.trans hstart')
  obtain rfl := Option.some.inj (hwhole.symm.trans hstart'')
  refine ⟨r, hmemr, e, hmeme, _, hraw, ⟨3, hstart, hmodes.1, hiff.mpr (Or.inr ?_)⟩,
    ⟨39, hstart', fun h => absurd (hiff'.mp h) hmodes.2.1⟩, ⟨55, hstart'', hiff''.mpr hmodes.2.2⟩⟩
  rw [hmodes.1, hcall.2]
  decide

/-- **Statements are read outside code**: a call in a block comment, an export behind a semicolon in
a line comment, and one as a whole in a block comment. -/
theorem statements_read_outside_code :
    (let content : Text := "/*\nconst x = require('x');\n*/\n".toList;
      (Requirement.readAll content).value.map (fun r => (r.start, Requirement.callOffset r.raw)) =
          [(some 3, 10)]
        ∧ ¬ InCode content (3 + 10))
    ∧ (let content : Text := "// was; exports.b = 1\n".toList;
      (InlineExport.readAll content).map (fun e => (e.start, margin e.raw)) = [(some 7, 1)]
        ∧ ¬ InCode content (7 + 1))
    ∧ (let content : Text := "/*\nmodule.exports = \x7b a \x7d;\n*/\n".toList;
      ∀ experimental, (GlobalExports.read content experimental).value.raw =
          some "module.exports = \x7b a \x7d;\n".toList
        ∧ (GlobalExports.read content experimental).value.start = some 3
        ∧ ¬ InCode content 3) := by
  decide

end Esmify
