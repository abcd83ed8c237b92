import Esmify.Proofs.ImportPass
import Esmify.Proofs.Trivia

/-!
# Chains of requirements

A declaration of several bindings is read clause by clause. A clause without a keyword is read only
behind a comma, and a comma passes its licence on to the line that is found next, whatever stands
between the two (`passesOn`, `licensed`).

**A clause without a keyword has a comma in front**: the requirement read before it ends in one, and
no line with a call stands between them. Whether the two are one declaration is another matter. **A
chain is kept** (`KeepsChain`) when what follows a comma, behind white space and comments, is the
next requirement, and what has no keyword follows a comma in this way. `keepsChain_iff` says when:
the first line behind the comma that is read at all has to begin behind nothing but white space and
comments. A clause with another value, one that is declined or one with a comma in its member path
breaks the chain, and the part in front of it is read all the same (`readAll_breaks_chain`). -/

namespace Esmify.Requirement

open Text Source

/-! ## The comma of a statement -/

/-- A member path is cut off with its dot. -/
lemma memberPath_eq (t : Text) : t = (memberPath t).1.elim [] ('.' :: ·) ++ (memberPath t).2 := by
  unfold memberPath
  split
  · rename_i cs
    cases hpath : cs.takeWhile isPathChar with
    | nil => rfl
    | cons c path =>
      show '.' :: cs = '.' :: ((c :: path) ++ cs.dropWhile isPathChar)
      rw [← hpath, List.takeWhile_append_dropWhile]
  · rfl

/-- A call ends in its closing parenthesis. -/
lemma CallText.getLast? {quote : Char} {target text : Text} (h : CallText quote target text) :
    text.getLast? = some ')' := by
  obtain ⟨b₁, b₂, b₃, b₄, close, -, -, -, -, -, rfl⟩ := h
  simp [List.getLast?_append, List.getLast?_cons]

/-- **How the source of a statement ends in a comma**: by the comma of the statement, or by a member
path that has taken one for a part of its name. -/
def EndsAsRead (raw : Text) (s : Statement) : Prop :=
  (s.comma = true → raw.getLast? = some ',')
    ∧ (raw.getLast? = some ',' → s.comma = true ∨ ∃ path, s.path = some path
      ∧ path.getLast? = some ',')

/-- What stands in front of a source that is not empty does not matter. -/
lemma EndsAsRead.append {raw : Text} {s : Statement} (front : Text) (hne : raw ≠ [])
    (h : EndsAsRead raw s) :
    EndsAsRead (front ++ raw) s := by
  have hlast : (front ++ raw).getLast? = raw.getLast? := by
    rw [List.getLast?_append, List.getLast?_eq_some_getLast hne, Option.some_or]
  unfold EndsAsRead
  rwa [hlast]

/-- What ends a statement, behind its call: a member path, blanks and a semicolon. -/
lemma getLast?_end {path : Option Text} {text blanks mark : Text} (htext : text.getLast? = some ')')
    (hblanks : ∀ c ∈ blanks, isBlank c = true) (hmark : mark = [';'] ∨ mark = [])
    (h : (text ++ (path.elim [] ('.' :: ·) ++ (blanks ++ mark))).getLast? = some ',') :
    ∃ p, path = some p ∧ p.getLast? = some ',' := by
  rcases hmark with rfl | rfl
  · simp [List.getLast?_append] at h
  · rw [List.append_nil] at h
    rcases List.eq_nil_or_concat blanks with rfl | ⟨front, c, rfl⟩
    · cases path with
      | none =>
        simp only [Option.elim_none, List.append_nil, htext] at h
        exact absurd h (by decide)
      | some p =>
        refine ⟨p, rfl, ?_⟩
        cases hp : p.getLast? with
        | none => simp [List.getLast?_append, List.getLast?_cons, hp] at h
        | some c => simpa [List.getLast?_append, List.getLast?_cons, hp] using h
    · have hc : c = ',' := by simpa [List.getLast?_append] using h
      exact absurd (hblanks c (by simp)) (by rw [hc]; decide)

/-- The source of a call ends as it is read. -/
lemma call?_endsAsRead {keyword binding : Option Text} {t : Text} {s : Statement}
    (h : call? keyword binding t = some s) :
    ∃ raw, raw ≠ [] ∧ t = raw ++ s.rest ∧ EndsAsRead raw s := by
  unfold call? at h
  cases hcall : callArgument? t with
  | none => simp [hcall] at h
  | some found =>
    obtain ⟨quote, target, rest⟩ := found
    obtain ⟨text, htext, rfl⟩ := callArgument?_eq_some hcall
    rw [hcall] at h
    have hpath := memberPath_eq rest
    dsimp only at h
    generalize (memberPath rest).1 = path, (memberPath rest).2 = rest' at h hpath
    obtain ⟨blanks, hblanks, hsplit, -⟩ := dropWhile_split isBlank rest'
    obtain ⟨mark, hmark, hend⟩ : ∃ mark, (mark = [';'] ∨ mark = [])
        ∧ skipBlanks rest' = mark ++ skipOne ';' (skipBlanks rest') := by
      rcases skipOne_eq ';' (skipBlanks rest') with h | h
      · exact ⟨[';'], Or.inl rfl, h⟩
      · exact ⟨[], Or.inr rfl, h⟩
    have hrest : rest = path.elim [] ('.' :: ·)
        ++ (blanks ++ (mark ++ skipOne ';' (skipBlanks rest'))) := by
      rw [← hend]
      exact hpath.trans (congrArg (path.elim [] ('.' :: ·) ++ ·) hsplit)
    have hne : ∀ u : Text, text ++ u ≠ [] := by
      intro u hnil
      exact List.ne_nil_of_mem htext.close_mem (List.append_eq_nil_iff.mp hnil).1
    cases hcomma : after? [','] (skipOne ';' (skipBlanks rest')) with
    | none =>
      simp only [hcomma, Option.some.injEq] at h
      subst h
      refine ⟨text ++ (path.elim [] ('.' :: ·) ++ (blanks ++ mark)), hne _, ?_, by simp,
        fun hlast => ?_⟩
      · simp only [List.append_assoc]
        exact congrArg (text ++ ·) hrest
      · exact Or.inr (getLast?_end htext.getLast? hblanks hmark hlast)
    | some rest'' =>
      simp only [hcomma, Option.some.injEq] at h
      subst h
      refine ⟨text ++ (path.elim [] ('.' :: ·) ++ (blanks ++ (mark ++ [',']))), hne _, ?_,
        fun _ => by simp [List.getLast?_append], fun _ => Or.inl rfl⟩
      rw [after?_eq_some_iff.mp hcomma] at hrest
      simp only [List.append_assoc] at hrest ⊢
      exact congrArg (text ++ ·) hrest

/-- The source of a statement ends as it is read. -/
lemma statement?_endsAsRead {raw t : Text} {s : Statement} (h : statement? t = some s)
    (hraw : t = raw ++ s.rest) : EndsAsRead raw s := by
  rcases statement?_eq_some h with ⟨front, binding, rest, -, rfl, -, hcall⟩ | hcall
  · obtain ⟨raw', hne, rfl, hends⟩ := call?_endsAsRead hcall
    have heq : (front ++ ['=']) ++ raw' = raw := by
      refine (List.append_left_inj s.rest).mp ?_
      rw [← hraw]
      simp
    exact heq ▸ hends.append _ hne
  · obtain ⟨raw', -, rfl, hends⟩ := call?_endsAsRead hcall
    exact List.append_cancel_right hraw ▸ hends

/-! ## Clauses without a keyword -/

/-- A requirement whose source assigns to a binding and has no keyword in front of it. -/
def Undeclared (r : Requirement) : Prop :=
  r.bindings ≠ [] ∧ (declared? (r.raw.takeWhile (· != '='))).map Prod.fst = some none

instance (r : Requirement) : Decidable (Undeclared r) :=
  inferInstanceAs (Decidable (_ ∧ _))

/-- A left-hand side without a keyword is read only behind a comma. -/
lemma ofAssigned_chained {raw binding : Text} {s : Statement} {continued : Bool} {r : Requirement}
    (h : ofAssigned raw binding s continued = .ok r) :
    r.chained = s.comma ∧ (s.keyword = none → continued = true) := by
  unfold ofAssigned at h
  cases hread : readBindings binding with
  | error e => simp [hread] at h
  | ok bs =>
    simp only [hread] at h
    split_ifs at h with hkeyword
    cases hwith : withPath raw bs s.path with
    | error e => simp [hwith] at h
    | ok bs' =>
      simp only [hwith] at h
      obtain rfl := Except.ok.inj h
      refine ⟨rfl, fun hnone => ?_⟩
      simpa [hnone] using hkeyword

/-- The left-hand side of a statement is what its source has in front of the first equals sign. -/
lemma declared?_of_binding {raw t binding : Text} {s : Statement} (h : statement? t = some s)
    (hraw : t = raw ++ s.rest) (hbinding : s.binding = some binding) :
    (declared? (raw.takeWhile (· != '='))).map Prod.fst = some s.keyword := by
  rcases statement?_eq_some h with ⟨front, binding', rest, hfront, rfl, hdeclared, hcall⟩ | hcall
  · obtain ⟨-, -, -, text, tail, -, rfl⟩ := call?_eq_some hcall
    have heq : front ++ '=' :: (text ++ tail) = raw := by
      refine (List.append_left_inj s.rest).mp ?_
      rw [← hraw]
      simp
    have htake : raw.takeWhile (· != '=') = front := by
      have hsign : ∀ c ∈ front, (c != '=') = true := fun c hc =>
        bne_iff_ne.mpr fun hc' => hfront (hc' ▸ hc)
      rw [← heq, List.takeWhile_append_of_pos hsign]
      simp
    rw [htake, hdeclared]
    rfl
  · rw [(call?_eq_some hcall).2.1] at hbinding
    cases hbinding

/-- **What a line says about its chain**: the requirement passes on the comma of its statement, its
source ends as it is read, and without a keyword it is read only behind a comma. -/
lemma ofLine_chained {line : Text} {continued : Bool} {r : Requirement}
    (h : ofLine line continued = .ok r) :
    ∃ s, statement? line = some s ∧ line = r.raw ++ s.rest ∧ EndsAsRead r.raw s
      ∧ r.chained = s.comma
      ∧ (Undeclared r → continued = true) := by
  obtain ⟨s, hs, -, hsplit, -⟩ := ofLine_eq_ok h
  refine ⟨s, hs, hsplit, statement?_endsAsRead hs hsplit, ?_⟩
  unfold ofLine at h
  simp only [hs] at h
  split at h
  · cases h
  · cases h
  · cases hbinding : s.binding with
    | none =>
      simp only [hbinding] at h
      split_ifs at h
      obtain rfl := Except.ok.inj h
      exact ⟨rfl, fun hundeclared => absurd rfl hundeclared.1⟩
    | some binding =>
      simp only [hbinding] at h
      obtain ⟨hchained, hcontinued⟩ := ofAssigned_chained h
      refine ⟨hchained, fun hundeclared => hcontinued ?_⟩
      have hkeyword := hundeclared.2
      rw [declared?_of_binding hs hsplit hbinding] at hkeyword
      exact Option.some.inj hkeyword

/-! ## Passing the comma on -/

/-- Whether a line that is read passes the licence of a comma on to the next one. -/
def passesOn (content : Text) (continued : Bool) (line : Occurrence Unit) : Bool :=
  (ofLine (line.text content) continued).toOption.any (·.chained)

/-- Whether the line behind some lines is read as one behind a comma. -/
def licensed (content : Text) (continued : Bool) (lines : List (Occurrence Unit)) : Bool :=
  lines.foldl (passesOn content) continued

/-- Only a line that is read as one with a comma passes the licence on. -/
lemma passesOn_eq_true_iff {content : Text} {continued : Bool} {line : Occurrence Unit} :
    passesOn content continued line = true ↔
      ∃ r, ofLine (line.text content) continued = .ok r ∧ r.chained = true := by
  unfold passesOn
  cases ofLine (line.text content) continued with
  | error e => simp [Except.toOption]
  | ok r => simp [Except.toOption]

/-- One line: nothing if it is declined, one requirement if it is read. -/
lemma value_readLines_cons (content : Text) (continued : Bool) (line : Occurrence Unit)
    (lines : List (Occurrence Unit)) :
    (readLines content continued (line :: lines)).value =
      (readLines content continued [line]).value
        ++ (readLines content (passesOn content continued line) lines).value := by
  unfold passesOn
  rw [readLines, readLines]
  cases ofLine (line.text content) continued with
  | error e => rfl
  | ok r => rfl

/-- **Reading in two parts**: the second part is read with the licence that the first one leaves. -/
lemma value_readLines_append (content : Text) (continued : Bool)
    (before lines : List (Occurrence Unit)) :
    (readLines content continued (before ++ lines)).value =
      (readLines content continued before).value
        ++ (readLines content (licensed content continued before) lines).value := by
  induction before generalizing continued with
  | nil => rfl
  | cons line before ih =>
    rw [List.cons_append, value_readLines_cons, ih,
      value_readLines_cons content continued line before, List.append_assoc]
    rfl

/-- **The turn of a requirement**: it is read from a line, with the licence that the lines in front
leave; what comes before it is read from those and what comes behind it from the lines below. -/
lemma exists_turn {content : Text} {continued : Bool} {lines : List (Occurrence Unit)}
    {front tail : List Requirement} {r : Requirement}
    (h : (readLines content continued lines).value = front ++ r :: tail) :
    ∃ before line behind r', lines = before ++ line :: behind
      ∧ front = (readLines content continued before).value
      ∧ ofLine (line.text content) (licensed content continued before) = .ok r'
      ∧ r = placed content line.start (licensed content continued before) r'
      ∧ tail = (readLines content r'.chained behind).value := by
  induction lines generalizing continued front with
  | nil => exact absurd h (by simp [readLines])
  | cons line lines ih =>
    -- a requirement from a line below has this line in front of its turn
    have hlater : ∀ {front'}, front = (readLines content continued [line]).value ++ front' →
        (readLines content (passesOn content continued line) lines).value = front' ++ r :: tail →
        ∃ before line' behind r', line :: lines = before ++ line' :: behind
          ∧ front = (readLines content continued before).value
          ∧ ofLine (line'.text content) (licensed content continued before) = .ok r'
          ∧ r = placed content line'.start (licensed content continued before) r'
          ∧ tail = (readLines content r'.chained behind).value := by
      intro front' hfront hvalue
      obtain ⟨before, line', behind, r', rfl, rfl, hread, hr, htail⟩ := ih hvalue
      exact ⟨line :: before, line', behind, r', rfl, by rw [hfront, ← value_readLines_cons],
        hread, hr, htail⟩
    have hcons := value_readLines_cons content continued line lines
    rw [h] at hcons
    cases hline : ofLine (line.text content) continued with
    | error e =>
      have hnil : (readLines content continued [line]).value = [] := by
        rw [readLines, hline]
        rfl
      rw [hnil, List.nil_append] at hcons
      exact hlater (by rw [hnil, List.nil_append]) hcons.symm
    | ok r' =>
      have hone : (readLines content continued [line]).value
          = [placed content line.start continued r'] := by
        rw [readLines, hline]
        rfl
      have hpass : passesOn content continued line = r'.chained := by
        unfold passesOn
        rw [hline]
        rfl
      rw [hone, List.singleton_append] at hcons
      cases front with
      | nil =>
        obtain ⟨hr, htail⟩ := List.cons.inj hcons
        exact ⟨[], line, lines, r', rfl, rfl, hline, hr, hpass ▸ htail⟩
      | cons r₀ front =>
        obtain ⟨rfl, hvalue⟩ := List.cons.inj hcons
        exact hlater (by rw [hone, List.singleton_append]) hvalue.symm

/-- **A licence comes from the line right in front**, whose requirement is the last one read. -/
lemma exists_comma_of_licensed {content : Text} {before : List (Occurrence Unit)}
    (h : licensed content false before = true) :
    ∃ line₀ r₀, before.getLast? = some line₀
      ∧ (readLines content false before).value.getLast? = some r₀
      ∧ r₀.start = some line₀.start ∧ r₀.raw.getLast? = some ',' := by
  rcases List.eq_nil_or_concat before with rfl | ⟨before', line₀, rfl⟩
  · cases h
  · rw [List.concat_eq_append] at h ⊢
    have hpass : passesOn content (licensed content false before') line₀ = true := by
      simpa only [licensed, List.foldl_append, List.foldl_cons, List.foldl_nil] using h
    obtain ⟨r₁, hread, hchained⟩ := passesOn_eq_true_iff.mp hpass
    obtain ⟨s, -, -, hends, hcomma, -⟩ := ofLine_chained hread
    refine ⟨line₀, placed content line₀.start (licensed content false before') r₁, by simp, ?_, rfl,
      hends.1 (hcomma ▸ hchained)⟩
    have hone : (readLines content (licensed content false before') [line₀]).value =
        [placed content line₀.start (licensed content false before') r₁] := by
      rw [readLines, hread]
      rfl
    rw [value_readLines_append, hone]
    simp

/-! ## The next requirement -/

/-- The first of some lines that is read; once a line is declined, the ones below it are on their
own. -/
inductive FirstRead (content : Text) : Bool → List (Occurrence Unit) → Occurrence Unit → Prop
  | here {continued : Bool} {line : Occurrence Unit} {lines : List (Occurrence Unit)}
    {r : Requirement} :
      ofLine (line.text content) continued = .ok r →
      FirstRead content continued (line :: lines) line
  | later {continued : Bool} {line next : Occurrence Unit} {lines : List (Occurrence Unit)}
    {e : Rejection} :
      ofLine (line.text content) continued = .error e → FirstRead content false lines next →
      FirstRead content continued (line :: lines) next

/-- The first requirement stands where the first line is that is read. -/
lemma head?_readLines_iff {content : Text} {continued : Bool} {lines : List (Occurrence Unit)}
    {start : Nat} :
    (∃ r, (readLines content continued lines).value.head? = some r ∧ r.start = some start) ↔
      ∃ next, FirstRead content continued lines next ∧ next.start = start := by
  induction lines generalizing continued with
  | nil =>
    constructor
    · rintro ⟨r, hr, -⟩
      cases hr
    · rintro ⟨next, hnext, -⟩
      cases hnext
  | cons line lines ih =>
    cases hline : ofLine (line.text content) continued with
    | error e =>
      have hvalue : (readLines content continued (line :: lines)).value =
          (readLines content false lines).value := by
        rw [readLines, hline]
        rfl
      rw [hvalue, ih]
      constructor
      · rintro ⟨next, hnext, hstart⟩
        exact ⟨next, .later hline hnext, hstart⟩
      · rintro ⟨next, hnext, hstart⟩
        cases hnext with
        | here hread => exact absurd (hline.symm.trans hread) (by simp)
        | later _ hnext => exact ⟨next, hnext, hstart⟩
    | ok r =>
      have hhead : (readLines content continued (line :: lines)).value.head? =
          some (placed content line.start continued r) := by
        rw [readLines, hline]
        rfl
      rw [hhead]
      constructor
      · rintro ⟨r', hr', hstart⟩
        obtain rfl := Option.some.inj hr'
        exact ⟨line, .here hline, Option.some.inj hstart⟩
      · rintro ⟨next, hnext, rfl⟩
        cases hnext with
        | here _ => exact ⟨_, rfl, rfl⟩
        | later herror _ => exact absurd (hline.symm.trans herror) (by simp)

/-! ## Chains -/

/-- Nothing but white space and complete comments stands between two places. -/
def Clear (content : Text) (start stop : Nat) : Prop :=
  isTrivia (content.slice start stop) = true ∧ modeAfter .code (content.slice start stop) = .code

/-- A requirement that follows another one behind nothing but white space and comments. -/
def Adjoins (content : Text) (r r' : Requirement) : Prop :=
  ∃ start start', r.start = some start ∧ r'.start = some start'
    ∧ Clear content (start + r.raw.length) start'

/-- **A chain is kept at a requirement** with others in front and behind it: a comma at its end is
followed by the next one, and without a keyword it follows the comma of the one before. -/
def KeepsChain (content : Text) (front : List Requirement) (r : Requirement)
    (tail : List Requirement) : Prop :=
  (r.raw.getLast? = some ',' → ∃ r', tail.head? = some r' ∧ Adjoins content r r')
    ∧ (Undeclared r → ∃ r₀, front.getLast? = some r₀ ∧ r₀.raw.getLast? = some ','
      ∧ Adjoins content r₀ r)

/-- **When a chain is kept.** A requirement is read from a line, its source ends in a comma if its
statement has one or its member path has taken one, and without a keyword it has a comma in front of
it: that of the line found last. The chain is kept there exactly when the first line below that is
read, with the comma of the statement for its licence, begins behind nothing but white space and
comments, and when nothing else stands behind the comma in front of a clause without a keyword. -/
theorem keepsChain_iff {content : Text} {front tail : List Requirement} {r : Requirement}
    (h : (readAll content).value = front ++ r :: tail) :
    ∃ before line behind, ∃ s : Statement, occurrences requireLine content
      = before ++ line :: behind
      ∧ r.start = some line.start ∧ statement? (line.text content) = some s
      ∧ line.text content = r.raw ++ s.rest ∧ EndsAsRead r.raw s
      ∧ (Undeclared r → ∃ line₀ r₀, before.getLast? = some line₀ ∧ front.getLast? = some r₀
        ∧ r₀.start = some line₀.start ∧ r₀.raw.getLast? = some ',')
      ∧ (KeepsChain content front r tail ↔
        (r.raw.getLast? = some ',' → ∃ next, FirstRead content s.comma behind next
          ∧ Clear content (line.start + r.raw.length) next.start)
        ∧ (Undeclared r → ∃ r₀, front.getLast? = some r₀ ∧ Adjoins content r₀ r)) := by
  rw [value_readAll] at h
  obtain ⟨before, line, behind, r', hlines, rfl, hread, rfl, rfl⟩ := exists_turn h
  obtain ⟨s, hs, hsplit, hends, hchained, hlicence⟩ := ofLine_chained hread
  have hcomma := fun hundeclared => exists_comma_of_licensed (hlicence hundeclared)
  refine ⟨before, line, behind, s, hlines, rfl, hs, hsplit, hends, hcomma, ?_⟩
  -- the next requirement is read from the first line below that is read
  have hnext : (∃ next, FirstRead content s.comma behind next
        ∧ Clear content (line.start + r'.raw.length) next.start) ↔
      ∃ r'', (readLines content r'.chained behind).value.head? = some r''
        ∧ Adjoins content (placed content line.start (licensed content false before) r') r'' := by
    rw [hchained]
    constructor
    · rintro ⟨next, hfirst, hclear⟩
      obtain ⟨r'', hhead, hstart⟩ := head?_readLines_iff.mpr ⟨next, hfirst, rfl⟩
      exact ⟨r'', hhead, line.start, next.start, rfl, hstart, hclear⟩
    · rintro ⟨r'', hhead, start, start', hstart, hstart', hclear⟩
      obtain ⟨next, hfirst, rfl⟩ := head?_readLines_iff.mp ⟨r'', hhead, hstart'⟩
      obtain rfl := Option.some.inj hstart
      exact ⟨next, hfirst, hclear⟩
  refine and_congr (imp_congr_right fun _ => hnext.symm) (imp_congr_right fun hundeclared => ?_)
  constructor
  · rintro ⟨r₀, hlast, -, hadjoins⟩
    exact ⟨r₀, hlast, hadjoins⟩
  · rintro ⟨r₀, hlast, hadjoins⟩
    obtain ⟨-, r₁, -, hlast', -, hends₁⟩ := hcomma hundeclared
    obtain rfl := Option.some.inj (hlast.symm.trans hlast')
    exact ⟨r₀, hlast, hends₁, hadjoins⟩

/-- A clause that binds a module as a whole under its own name. -/
def wholeClause (name raw : Text) (start : Nat) : Requirement :=
  ⟨name, raw, "'".toList, [⟨wholeModule, some name⟩], false, true, none, some start⟩

/-- A declaration of three modules, with comments behind the first comma. -/
def commentedChain : Text :=
  "const a = require('a'), // one\n  /* two */\n  b = require('b'),\n  c = require('c');\n".toList

/-- The clause of the keyword. -/
def firstClause : Requirement :=
  wholeClause "a".toList "const a = require('a'),".toList 0

/-- The clause with a comma on both sides. -/
def middleClause : Requirement :=
  wholeClause "b".toList "  b = require('b'),".toList 43

/-- The clause that ends the declaration. -/
def lastClause : Requirement :=
  wholeClause "c".toList "  c = require('c');".toList 63

/-- The chain is kept at the clause in the middle, which has both a comma and no keyword. -/
theorem keepsChain_iff_commented :
    middleClause.raw.getLast? = some ',' ∧ Undeclared middleClause
      ∧ KeepsChain commentedChain [firstClause] middleClause [lastClause]
      ∧ ∃ before line behind, ∃ s : Statement,
        occurrences requireLine commentedChain = before ++ line :: behind
          ∧ middleClause.start = some line.start ∧ statement? (line.text commentedChain) = some s
          ∧ line.text commentedChain = middleClause.raw ++ s.rest ∧ EndsAsRead middleClause.raw s
          ∧ (Undeclared middleClause → ∃ line₀ r₀, before.getLast? = some line₀
            ∧ [firstClause].getLast? = some r₀ ∧ r₀.start = some line₀.start
            ∧ r₀.raw.getLast? = some ',')
          ∧ (KeepsChain commentedChain [firstClause] middleClause [lastClause] ↔
            (middleClause.raw.getLast? = some ',' → ∃ next,
              FirstRead commentedChain s.comma behind next
              ∧ Clear commentedChain (line.start + middleClause.raw.length) next.start)
            ∧ (Undeclared middleClause → ∃ r₀, [firstClause].getLast? = some r₀
              ∧ Adjoins commentedChain r₀ middleClause)) := by
  have hchain : commentedChain = _ := String.toList_ofList
  have hread : (readAll commentedChain).value = [firstClause] ++ middleClause :: [lastClause] := by
    rw [hchain]
    decide
  refine ⟨rfl, by decide, ⟨fun _ => ⟨lastClause, rfl, 43, 63, rfl, rfl, ?_⟩,
    fun _ => ⟨firstClause, rfl, rfl, 0, 43, rfl, rfl, ?_⟩⟩, keepsChain_iff hread⟩
  · rw [hchain]
    constructor <;> decide
  · rw [hchain]
    constructor <;> decide

/-- A comma with a clause of another value behind it. -/
def brokenChain : Text :=
  "const a = require('a'),\n  x = 5;\nb = require('b');\n".toList

/-- A clause without a keyword, read behind a comma that is not its own. -/
def strayClause : Requirement :=
  wholeClause "b".toList "b = require('b');".toList 33

/-- **Chains that are read in part**: a clause with another value ends the requirements behind a
comma, and an assignment below it is taken for the next clause, although the declaration is over by
then. -/
theorem readAll_breaks_chain :
    ((readAll "const a = require('a'),\n  b = 5;\n".toList).value = [firstClause]
        ∧ ¬ KeepsChain "const a = require('a'),\n  b = 5;\n".toList [] firstClause [])
      ∧ (readAll brokenChain).value = [firstClause, strayClause] ∧ Undeclared strayClause
      ∧ ¬ KeepsChain brokenChain [firstClause] strayClause [] := by
  have hchain : brokenChain = _ := String.toList_ofList
  have hundeclared : Undeclared strayClause := by decide
  have hread : (readAll brokenChain).value = [firstClause, strayClause] := by
    rw [hchain]
    decide
  refine ⟨⟨by decide, ?_⟩, hread, hundeclared, ?_⟩
  · rintro ⟨hnext, -⟩
    obtain ⟨r', hhead, -⟩ := hnext rfl
    cases hhead
  · rintro ⟨-, hcomma⟩
    obtain ⟨r₀, hlast, -, start, start', hstart, hstart', htrivia, -⟩ := hcomma hundeclared
    obtain rfl : firstClause = r₀ := Option.some.inj hlast
    obtain rfl : 0 = start := Option.some.inj hstart
    obtain rfl : 33 = start' := Option.some.inj hstart'
    rw [hchain] at htrivia
    exact absurd htrivia (by decide)

end Esmify.Requirement
