import Esmify.Proofs.Lexeme
import Esmify.Proofs.Scan
import Esmify.Requirement.Shape

/-!
# Lines that hold a `require` call

The recogniser of lines as a grammar. **A line is a head, an argument, a closing parenthesis and the
rest of the physical line** (`requireLine_eq_some_iff`): the head is a left-hand side with its
equals sign, or nothing, and then the word with its opening parenthesis. The first closing
parenthesis of a line is the one behind the argument, and no line break follows it
(`LineText.exists_close`); so a line is matched whatever stands around it
(`requireLine_append_iff`). -/

namespace Esmify.Requirement

open Text Source

/-! ## Calls -/

/-- The text of a call up to its opening parenthesis. -/
def CallHead (head : Text) : Prop :=
  ∃ indent blanks, (∀ c ∈ indent, isIndent c = true) ∧ (∀ c ∈ blanks, isBlank c = true)
    ∧ head = indent ++ ("require".toList ++ (blanks ++ ['(']))

/-- A call is a head, an argument that is not empty and ends at the first closing parenthesis, and
the rest of the line. -/
lemma callLine?_eq_some_iff {t rest : Text} :
    callLine? t = some rest ↔ ∃ head args tail, CallHead head ∧ args ≠ [] ∧ ')' ∉ args
      ∧ t = head ++ (args ++ ')' :: tail) ∧ rest = tail.dropWhile (· != '\n') := by
  constructor
  · intro h
    unfold callLine? at h
    obtain ⟨indent, hindent, hsplit, -⟩ := dropWhile_split isIndent t
    cases hcall : (wordThenBlanks? "require".toList (skipIndent t)).bind (after? ['(']) with
    | none =>
      rw [hcall] at h
      exact absurd h (by simp)
    | some inner =>
      simp only [hcall] at h
      obtain ⟨u, hword, hopen⟩ := Option.bind_eq_some_iff.mp hcall
      obtain ⟨v, hv, rfl⟩ := wordThenBlanks?_eq_some_iff.mp hword
      obtain ⟨blanks, hblanks, rfl⟩ := (skipBlanks_eq_cons_iff (by decide)).mp
        (after?_eq_some_iff.mp hopen)
      cases htake : inner.takeWhile (· != ')') with
      | nil => simp [htake] at h
      | cons a args =>
        cases hdrop : inner.dropWhile (· != ')') with
        | nil => simp [htake, hdrop] at h
        | cons close tail =>
          simp only [htake, hdrop, Option.some.injEq] at h
          have hclose : close = ')' := by
            obtain ⟨-, -, -, hhead⟩ := dropWhile_split (· != ')') inner
            simpa using hhead close tail hdrop
          subst hclose
          refine ⟨indent ++ ("require".toList ++ (blanks ++ ['('])), a :: args, tail,
            ⟨indent, blanks, hindent, hblanks, rfl⟩, List.cons_ne_nil a args, fun hmem => ?_, ?_,
            h.symm⟩
          · rw [← htake] at hmem
            exact absurd (List.mem_takeWhile_imp hmem) (by decide)
          · have hinner : inner = (a :: args) ++ ')' :: tail := by
              rw [← htake, ← hdrop, List.takeWhile_append_dropWhile]
            have hskip : t.dropWhile isIndent = "require".toList ++ (blanks ++ '(' :: inner) := hv
            rw [hsplit, hskip, hinner]
            simp only [List.append_assoc, List.singleton_append]
  · rintro ⟨_, args, tail, ⟨indent, blanks, hindent, hblanks, rfl⟩, hne, hclose, rfl, rfl⟩
    have hskip : skipIndent (indent ++ ("require".toList ++ (blanks ++ ['(']))
        ++ (args ++ ')' :: tail)) = "require".toList
          ++ (blanks ++ '(' :: (args ++ ')' :: tail)) := by
      unfold skipIndent
      simp only [List.append_assoc, List.singleton_append]
      exact dropWhile_append_cons hindent (c := 'r') (by decide) _
    have hcall : (wordThenBlanks? "require".toList (skipIndent
        (indent ++ ("require".toList ++ (blanks ++ ['('])) ++ (args ++ ')' :: tail)))).bind
          (after? ['(']) = some (args ++ ')' :: tail) := by
      rw [hskip, wordThenBlanks?_eq_some_iff.mpr ⟨_, rfl, rfl⟩, skipBlanks_append hblanks,
        skipBlanks_cons (by decide), Option.bind_some]
      exact after?_eq_some_iff.mpr rfl
    have hargs : ∀ c ∈ args, (c != ')') = true := by
      intro c hc
      rw [bne_iff_ne]
      rintro rfl
      exact hclose hc
    unfold callLine?
    obtain ⟨a, args, rfl⟩ := List.exists_cons_of_ne_nil hne
    simp only [hcall, takeWhile_append_cons hargs (show (')' != ')') = false by decide),
      dropWhile_append_cons hargs (show (')' != ')') = false by decide)]

/-- A call begins with its word. -/
lemma requireCall_eq_some {before : Option Char} {t rest : Text} {u : Unit}
    (h : requireCall before t = some (u, rest)) : ∃ blanks, (∀ c ∈ blanks, isBlank c = true)
      ∧ t = "require".toList ++ (blanks ++ '(' :: rest) := by
  unfold requireCall at h
  split_ifs at h
  obtain ⟨r, hcall, heq⟩ := Option.map_eq_some_iff.mp h
  obtain ⟨-, rfl⟩ := Prod.mk.inj heq
  obtain ⟨v, hword, hopen⟩ := Option.bind_eq_some_iff.mp hcall
  obtain ⟨w, rfl, rfl⟩ := wordThenBlanks?_eq_some_iff.mp hword
  obtain ⟨blanks, hblanks, rfl⟩ := (skipBlanks_eq_cons_iff (by decide)).mp
    (after?_eq_some_iff.mp hopen)
  exact ⟨blanks, hblanks, rfl⟩

/-- A call of `require` is not empty. -/
lemma requireCall_consumes : Consumes requireCall := by
  intro before t u rest h
  obtain ⟨blanks, -, rfl⟩ := requireCall_eq_some h
  exact ⟨"require".toList ++ (blanks ++ ['(']), by simp, by simp⟩

/-! ## Left-hand sides -/

/-- A left-hand side up to its equals sign: plain characters, at most one brace group among them. -/
def LeftFront (front : Text) : Prop :=
  (∀ c ∈ front, isPlain c = true) ∨
    ∃ plain group, front = plain ++ '\x7b' :: group ∧ (∀ c ∈ plain, isPlain c = true)
      ∧ (∀ c ∈ group, isGrouped c = true) ∧ endsGroup group = true

/-- A left-hand side is read up to its equals sign. -/
lemma leftSide?_eq_some_iff {t rest : Text} :
    leftSide? t = some rest ↔ ∃ front, LeftFront front ∧ t = front ++ '=' :: rest := by
  constructor
  · intro h
    obtain ⟨plain, hplain, hsplit, -⟩ := dropWhile_split isPlain t
    unfold leftSide? at h
    split at h
    · rename_i r hdrop
      cases h
      rw [hdrop] at hsplit
      exact ⟨plain, Or.inl hplain, hsplit⟩
    · rename_i inner hdrop
      split at h
      · rename_i r hgroup
        split_ifs at h with hends
        cases h
        rw [hdrop] at hsplit
        refine ⟨plain ++ '\x7b' :: inner.takeWhile isGrouped,
          Or.inr ⟨plain, _, rfl, hplain, fun c hc => List.mem_takeWhile_imp hc, hends⟩, ?_⟩
        rw [List.append_assoc, List.cons_append, ← hgroup, List.takeWhile_append_dropWhile]
        exact hsplit
      · exact absurd h (by simp)
    · exact absurd h (by simp)
  · rintro ⟨front, hplain | ⟨plain, group, rfl, hplain, hgroup, hends⟩, rfl⟩
    · unfold leftSide?
      rw [dropWhile_append_cons hplain (show isPlain '=' = false by decide)]
      rfl
    · unfold leftSide?
      rw [List.append_assoc, List.cons_append,
        dropWhile_append_cons hplain (show isPlain '\x7b' = false by decide)]
      simp only [dropWhile_append_cons hgroup (show isGrouped '=' = false by decide),
        takeWhile_append_cons hgroup (show isGrouped '=' = false by decide), hends, if_true]

/-- Neither a parenthesis nor an equals sign stands in a left-hand side. -/
lemma LeftFront.not_mem {front : Text} (h : LeftFront front) {c : Char} (hplain : isPlain c = false)
    (hgroup : isGrouped c = false) (hbrace : c ≠ '\x7b') : c ∉ front := by
  intro hmem
  rcases h with h | ⟨plain, group, rfl, hp, hg, -⟩
  · exact absurd (h c hmem) (by simp [hplain])
  · rcases List.mem_append.mp hmem with hmem | hmem
    · exact absurd (hp c hmem) (by simp [hplain])
    · rcases List.mem_cons.mp hmem with hmem | hmem
      · exact hbrace hmem
      · exact absurd (hg c hmem) (by simp [hgroup])

/-! ## Lines -/

/-- What stands before the argument of a line: a call, alone or behind a left-hand side. -/
def LineHead (head : Text) : Prop :=
  CallHead head ∨ ∃ front call, LeftFront front ∧ CallHead call ∧ head = front ++ '=' :: call

/-- The head of a call is its only opening parenthesis behind characters of no left-hand side. -/
lemma CallHead.exists_concat {head : Text} (h : CallHead head) :
    ∃ front, head = front ++ ['('] ∧ '=' ∉ front ∧ '(' ∉ front ∧ ')' ∉ front := by
  obtain ⟨indent, blanks, hindent, hblanks, rfl⟩ := h
  have hnot : ∀ c : Char, isIndent c = false → isBlank c = false → c ∉ "require".toList →
      c ∉ indent ++ ("require".toList ++ blanks) := by
    intro c hi hb hw hmem
    rcases List.mem_append.mp hmem with hmem | hmem
    · exact absurd (hindent c hmem) (by simp [hi])
    · rcases List.mem_append.mp hmem with hmem | hmem
      · exact hw hmem
      · exact absurd (hblanks c hmem) (by simp [hb])
  exact ⟨indent ++ ("require".toList ++ blanks), by simp only [List.append_assoc],
    hnot _ (by decide) (by decide) (by decide), hnot _ (by decide) (by decide) (by decide),
    hnot _ (by decide) (by decide) (by decide)⟩

/-- A text that begins with a call has no left-hand side. -/
lemma leftSide?_of_callHead {head : Text} (h : CallHead head) (t : Text) :
    leftSide? (head ++ t) = none := by
  obtain ⟨front, rfl, heq, -, -⟩ := h.exists_concat
  rw [Option.eq_none_iff_forall_ne_some]
  intro rest hsome
  obtain ⟨left, hleft, hsplit⟩ := leftSide?_eq_some_iff.mp hsome
  rw [List.append_assoc, List.singleton_append] at hsplit
  exact append_cons_ne (by decide) (hleft.not_mem (by decide) (by decide) (by decide)) heq hsplit

/-- **A line is a head, an argument, a closing parenthesis and the rest of the physical line.** -/
lemma requireLine_eq_some_iff {before : Option Char} {t rest : Text} {u : Unit} :
    requireLine before t = some (u, rest) ↔ beginsLine before = true ∧
      ∃ head args tail, LineHead head ∧ args ≠ [] ∧ ')' ∉ args
        ∧ t = head ++ (args ++ ')' :: tail) ∧ rest = tail.dropWhile (· != '\n') := by
  constructor
  · intro h
    unfold requireLine at h
    split_ifs at h with hbegins
    refine ⟨hbegins, ?_⟩
    obtain ⟨rest', hor, heq⟩ := Option.map_eq_some_iff.mp h
    obtain ⟨-, rfl⟩ := Prod.mk.inj heq
    rcases Option.or_eq_some_iff.mp hor with hleft | ⟨-, hcall⟩
    · obtain ⟨r, hside, hcall⟩ := Option.bind_eq_some_iff.mp hleft
      obtain ⟨front, hfront, rfl⟩ := leftSide?_eq_some_iff.mp hside
      obtain ⟨head, args, tail, hhead, hne, hclose, rfl, rfl⟩ := callLine?_eq_some_iff.mp hcall
      exact ⟨front ++ '=' :: head, args, tail, Or.inr ⟨front, head, hfront, hhead, rfl⟩,
        hne, hclose, by simp only [List.append_assoc, List.cons_append], rfl⟩
    · obtain ⟨head, args, tail, hhead, hne, hclose, rfl, rfl⟩ := callLine?_eq_some_iff.mp hcall
      exact ⟨head, args, tail, Or.inl hhead, hne, hclose, rfl, rfl⟩
  · rintro ⟨hbegins, head, args, tail, hhead, hne, hclose, rfl, rfl⟩
    unfold requireLine
    rw [if_pos hbegins]
    rcases hhead with hcall | ⟨front, call, hfront, hcall, rfl⟩
    · rw [leftSide?_of_callHead hcall, Option.bind_none, Option.none_or,
        callLine?_eq_some_iff.mpr ⟨head, args, tail, hcall, hne, hclose, rfl, rfl⟩]
      rfl
    · have hside : leftSide? (front ++ '=' :: call ++ (args ++ ')' :: tail)) =
          some (call ++ (args ++ ')' :: tail)) :=
        leftSide?_eq_some_iff.mpr
          ⟨front, hfront, by simp only [List.append_assoc, List.cons_append]⟩
      rw [hside, Option.bind_some,
        callLine?_eq_some_iff.mpr ⟨call, args, tail, hcall, hne, hclose, rfl, rfl⟩]
      rfl

/-- No parenthesis is closed in the head of a line. -/
lemma LineHead.not_mem {head : Text} (h : LineHead head) : ')' ∉ head := by
  rcases h with h | ⟨front, call, hfront, h, rfl⟩
  · obtain ⟨call, rfl, -, -, hclose⟩ := h.exists_concat
    simpa using hclose
  · obtain ⟨call, rfl, -, -, hclose⟩ := h.exists_concat
    have := hfront.not_mem (c := ')') (by decide) (by decide) (by decide)
    simp [this, hclose]

/-- The head of a line is not empty. -/
lemma LineHead.ne_nil {head : Text} (h : LineHead head) : head ≠ [] := by
  rcases h with h | ⟨front, call, -, -, rfl⟩
  · obtain ⟨call, rfl, -⟩ := h.exists_concat
    simp
  · simp

/-- The text of a line: a head, an argument that is not empty, the first closing parenthesis, and
no line break behind it. -/
def LineText (line : Text) : Prop :=
  ∃ head args tail, LineHead head ∧ args ≠ [] ∧ ')' ∉ args ∧ '\n' ∉ tail
    ∧ line = head ++ (args ++ ')' :: tail)

/-- What can follow a line: nothing, or a line break. -/
def EndsLine (rest : Text) : Prop :=
  rest = [] ∨ ∃ r, rest = '\n' :: r

/-- **A line is matched whatever stands around it**, as long as it begins and ends as lines do. -/
lemma requireLine_append_iff {before : Option Char} {line rest : Text} {u : Unit} :
    requireLine before (line ++ rest) = some (u, rest) ↔
      beginsLine before = true ∧ LineText line ∧ EndsLine rest := by
  rw [requireLine_eq_some_iff]
  constructor
  · rintro ⟨hbegins, head, args, tail, hhead, hne, hclose, hsplit, hrest⟩
    obtain ⟨passed, hpassed, htail, hstop⟩ := dropWhile_split (· != '\n') tail
    rw [← hrest] at htail hstop
    refine ⟨hbegins, ⟨head, args, passed, hhead, hne, hclose, fun hmem => ?_, ?_⟩, ?_⟩
    · exact absurd (hpassed _ hmem) (by decide)
    · apply (List.append_left_inj rest).mp
      rw [hsplit, htail]
      simp only [List.append_assoc, List.cons_append]
    · cases rest with
      | nil => exact Or.inl rfl
      | cons c r => exact Or.inr ⟨r, by rw [show c = '\n' by simpa using hstop c r rfl]⟩
  · rintro ⟨hbegins, ⟨head, args, tail, hhead, hne, hclose, hbreak, rfl⟩, hends⟩
    refine ⟨hbegins, head, args, tail ++ rest, hhead, hne, hclose, ?_, ?_⟩
    · simp only [List.append_assoc, List.cons_append]
    · have hpassed : ∀ c ∈ tail, (c != '\n') = true := by
        intro c hc
        rw [bne_iff_ne]
        rintro rfl
        exact hbreak hc
      rcases hends with rfl | ⟨r, rfl⟩
      · rw [List.append_nil, List.dropWhile_eq_nil_iff.mpr hpassed]
      · rw [dropWhile_append_cons hpassed (by decide)]

/-- The first closing parenthesis of a line is not its first character, and no line break follows
it. -/
lemma LineText.exists_close {line : Text} (h : LineText line) :
    ∃ front tail, front ≠ [] ∧ ')' ∉ front ∧ '\n' ∉ tail ∧ line = front ++ ')' :: tail := by
  obtain ⟨head, args, tail, hhead, -, hclose, hbreak, rfl⟩ := h
  refine ⟨head ++ args, tail, List.append_ne_nil_of_left_ne_nil hhead.ne_nil args, ?_, hbreak,
    by rw [List.append_assoc]⟩
  rw [List.mem_append, not_or]
  exact ⟨hhead.not_mem, hclose⟩

/-- Every match of a line takes something off the front of the text. -/
lemma requireLine_consumes : Consumes requireLine := by
  intro before t u rest h
  obtain ⟨-, head, args, tail, hhead, -, -, rfl, rfl⟩ := requireLine_eq_some_iff.mp h
  refine ⟨head ++ (args ++ ')' :: tail.takeWhile (· != '\n')), by simp, ?_⟩
  simp only [List.append_assoc, List.cons_append, List.takeWhile_append_dropWhile]

end Esmify.Requirement
