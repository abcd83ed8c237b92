import Esmify.Proofs.Parts

/-!
# Commas and brackets that match

**A comma that cuts a text stands in code, with every bracket in front of it closed**
(`splitTopLevel_cases`), and so does any other separator (`splitFrom_cases`): each part can be read
on its own. What a text leaves open is left open by its last part (`exists_last_part`).

Brackets come in three kinds. `awaitedAfter` runs the closers that are awaited through some code,
and `closing?` finds the place where none is left. **Between a bracket and the one that closes it
stands a balanced text** (`closingIn_eq_some`), the parts of a balanced text are balanced
(`Balanced.of_mem_splitTopLevel`), and in a balanced text every bracket of code is closed
(`Balanced.exists_closing?`). -/

namespace Esmify.Source

open Text

/-! ## A character of code -/

/-- A character of code is followed by code, and, a line break aside, it is read in code. -/
lemma Mode.step_eq_code {m m' : Mode} {c : Char} {next : Option Char}
    (h : m.step c next = (.code, m')) : m' = .code ∧ (c ≠ '\n' → m = .code) := by
  cases m with
  | code =>
    rw [Mode.step] at h
    split_ifs at h
    all_goals cases h
    exact ⟨rfl, fun _ => rfl⟩
  | lineComment =>
    rw [Mode.step] at h
    split_ifs at h with hbreak
    all_goals cases h
    exact ⟨rfl, fun hne => absurd hbreak hne⟩
  | commentOpening => cases h
  | blockComment =>
    rw [Mode.step] at h
    split_ifs at h
    all_goals cases h
  | commentClosing => cases h
  | literal quote =>
    rw [Mode.step] at h
    split_ifs at h with hslash hquote hbreak
    all_goals cases h
    exact ⟨rfl, fun hne => absurd hbreak.1 hne⟩
  | escaped quote => cases h

/-- Outside literals, a literal begins with a quote that is read in code. -/
lemma Mode.step_eq_literal {m m' : Mode} {c : Char} {next : Option Char}
    (hm : m.uncommented = .code) (h : m.step c next = (.literal, m')) :
    m = .code ∧ isQuote c = true := by
  cases m with
  | code =>
    refine ⟨rfl, ?_⟩
    rw [Mode.step] at h
    split_ifs at h with hquote
    · exact hquote
    all_goals cases h
  | lineComment =>
    rw [Mode.step] at h
    split_ifs at h
    all_goals cases h
  | commentOpening => cases h
  | blockComment =>
    rw [Mode.step] at h
    split_ifs at h
    all_goals cases h
  | commentClosing => cases h
  | literal quote => cases hm
  | escaped quote => cases hm

/-- A text that begins with neither a slash nor a star is calm. -/
lemma calm_cons {c : Char} (hslash : c ≠ '/') (hstar : c ≠ '*') (rest : Text) : Calm (c :: rest) :=
  ⟨by simpa using hslash, by simpa using hstar⟩

/-- White space is bare and has no brackets. -/
lemma bare_of_blanks {blanks : Text} (h : ∀ c ∈ blanks, isBlank c = true) :
    Bare blanks ∧ Unbracketed blanks := by
  refine ⟨fun c hc => ?_, fun c hc => ?_⟩
  · obtain ⟨-, -, hslash, -, hquote⟩ := bracketStep_of_isBlank (h c hc)
    exact ⟨hquote, hslash⟩
  · have hstep := (bracketStep_of_isBlank (h c hc)).1
    rw [bracketStep] at hstep
    by_cases hopen : isOpener c = true
    · rw [if_pos hopen] at hstep
      exact absurd hstep (by decide)
    rw [if_neg hopen] at hstep
    by_cases hclose : isCloser c = true
    · rw [if_pos hclose] at hstep
      exact absurd hstep (by decide)
    exact ⟨by simpa using hopen, by simpa using hclose⟩

/-- **Code cuts the reading**: a character in front of one that is read as code is read as at the
end. -/
lemma Mode.step_before_code {m : Mode} {c d : Char} {next : Option Char}
    (h : ((m.step c (some d)).2.step d next).1 = .code) : m.step c (some d) = m.step c none := by
  cases m with
  | code =>
    by_cases hquote : isQuote c = true
    · simp [Mode.step, hquote]
    -- the second character of a comment mark is not code
    by_cases hline : c = '/' ∧ d = '/'
    · obtain ⟨rfl, rfl⟩ := hline
      exact absurd h (by simp [Mode.step, hquote])
    by_cases hblock : c = '/' ∧ d = '*'
    · obtain ⟨rfl, rfl⟩ := hblock
      exact absurd h (by simp [Mode.step, hquote])
    · simp [Mode.step, hquote, hline, hblock]
  | blockComment =>
    by_cases hclose : c = '*' ∧ d = '/'
    · obtain ⟨rfl, rfl⟩ := hclose
      exact absurd h (by simp [Mode.step])
    · simp [Mode.step, hclose]
  | _ => rfl

/-- A character in front of a piece is read alike with code behind the piece. -/
lemma Mode.step_append_code {m : Mode} {c d : Char} {u rest : Text}
    (h : ((modeAfter (m.step c (u ++ d :: rest).head?).2 u).step d rest.head?).1 = .code) :
    m.step c (u ++ d :: rest).head? = m.step c u.head? := by
  cases u with
  | nil => exact Mode.step_before_code h
  | cons e u => rfl

/-! ## Cutting at the first separator -/

/-- **Where a text is cut first**: nowhere, or at a separator of code in front of which every
bracket is closed. What stands in front of it is not cut when it is read alone. -/
lemma splitFrom_cases (sep : Char) (m : Mode) (depth : Int) (t : Text) :
    splitFrom sep m depth t = [t] ∨ ∃ first rest, t = first ++ sep :: rest
      ∧ ((modeAfter m first).step sep rest.head?).1 = .code ∧ depth + depthOf (codeIn m first) = 0
      ∧ splitFrom sep m depth first = [first]
      ∧ splitFrom sep m depth t = first :: splitFrom sep .code 0 rest := by
  induction t generalizing m depth with
  | nil => exact Or.inl rfl
  | cons c cs ih =>
    rcases hstep : m.step c cs.head? with ⟨region, m'⟩
    -- a character in front of the first part, at a depth that it may change
    have hcons : ∀ depth' : Int,
        (∀ u : Text, m.step c u.head? = (region, m') →
          depth + depthOf (codeIn m (c :: u)) = depth' + depthOf (codeIn m' u)
            ∧ splitFrom sep m depth (c :: u) = consFirst c (splitFrom sep m' depth' u)) →
        splitFrom sep m depth (c :: cs) = [c :: cs] ∨ ∃ first rest, c :: cs = first ++ sep :: rest
          ∧ ((modeAfter m first).step sep rest.head?).1 = .code
          ∧ depth + depthOf (codeIn m first) = 0
          ∧ splitFrom sep m depth first = [first]
          ∧ splitFrom sep m depth (c :: cs) = first :: splitFrom sep .code 0 rest := by
      intro depth' hread
      rw [(hread cs hstep).2]
      rcases ih m' depth' with hwhole | ⟨first, rest, rfl, hcode, hclosed, halone, hparts⟩
      · rw [hwhole]
        exact Or.inl rfl
      · rw [Mode.step_append_code (by rw [hstep]; exact hcode)] at hstep
        obtain ⟨hdepth, hfirst⟩ := hread first hstep
        refine Or.inr ⟨c :: first, rest, rfl, ?_, ?_, ?_, by rw [hparts]; rfl⟩
        · rw [modeAfter, hstep]
          exact hcode
        · rw [hdepth, hclosed]
        · rw [hfirst, halone]
          rfl
    cases region with
    | code =>
      by_cases hsep : bracketStep c = 0 ∧ c = sep ∧ depth = 0
      · obtain ⟨hbracket, rfl, rfl⟩ := hsep
        obtain ⟨rfl, -⟩ := Mode.step_eq_code hstep
        refine Or.inr ⟨[], cs, rfl, by rw [modeAfter, hstep], rfl, rfl, ?_⟩
        rw [splitFrom, hstep]
        exact if_pos ⟨hbracket, rfl, rfl⟩
      · refine hcons (depth + bracketStep c) fun u hu => ⟨?_, ?_⟩
        · rw [codeIn_cons, hu]
          dsimp only
          rw [depthOf_cons, Int.add_assoc]
        · rw [splitFrom, hu]
          exact if_neg hsep
    | comment =>
      refine hcons depth fun u hu => ⟨?_, ?_⟩
      · rw [codeIn_cons, hu]
      · rw [splitFrom, hu]
    | literal =>
      refine hcons depth fun u hu => ⟨?_, ?_⟩
      · rw [codeIn_cons, hu]
      · rw [splitFrom, hu]

/-- Where a text is cut at its first comma. -/
lemma splitTopLevel_cases (t : Text) :
    splitTopLevel t ',' = [t] ∨ ∃ first rest, t = first ++ ',' :: rest
      ∧ modeAfter .code first = .code
      ∧ bracketDepth first = 0 ∧ splitTopLevel t ',' = first :: splitTopLevel rest ',' := by
  rcases splitFrom_cases ',' .code 0 t with hwhole | ⟨first, rest, hsplit, hcode, hdepth, -, hparts⟩
  · exact Or.inl hwhole
  · rw [Int.zero_add, ← bracketDepth_eq] at hdepth
    have hmode := (Mode.step_eq_code (Prod.ext hcode rfl)).2 (by decide)
    exact Or.inr ⟨first, rest, hsplit, hmode, hdepth, hparts⟩

/-- Code behind a comma in front of which code is read. -/
lemma codeIn_append_comma {first : Text} (hmode : modeAfter .code first = .code) (rest : Text) :
    codeIn .code (first ++ ',' :: rest) = codeIn .code first ++ ',' :: codeIn .code rest := by
  rw [codeIn_append _ _ (calm_cons (by decide) (by decide) rest), hmode, codeIn_cons,
    Mode.step_bare (by decide) (by decide)]

/-- **What a text leaves open is left open by its last part.** -/
lemma exists_last_part (t : Text) :
    ∃ front last, splitTopLevel t ',' = front ++ [last] ∧ bracketDepth last = bracketDepth t := by
  induction hlength : t.length using Nat.strong_induction_on generalizing t with
  | _ n ih =>
    rcases splitTopLevel_cases t with hwhole | ⟨first, rest, rfl, hmode, hdepth, hparts⟩
    · exact ⟨[], t, hwhole, rfl⟩
    · have hlt : rest.length < n := by
        rw [← hlength, List.length_append, List.length_cons]
        omega
      obtain ⟨front, last, hrest, hlast⟩ := ih rest.length hlt rest rfl
      refine ⟨first :: front, last, by rw [hparts, hrest]; rfl, ?_⟩
      have hcomma : bracketStep ',' = 0 := rfl
      rw [hlast, bracketDepth_eq (first ++ ',' :: rest), codeIn_append_comma hmode, depthOf_append,
        ← bracketDepth_eq, hdepth, depthOf_cons, hcomma, ← bracketDepth_eq, Int.zero_add,
        Int.zero_add]

/-! ## Awaited closers -/

/-- The brackets are neither quotes nor in a comment mark. -/
lemma bracket_pair {o k : Char} (h : closerOf? o = some k) :
    (isQuote o = false ∧ o ≠ '/' ∧ o ≠ '*' ∧ bracketStep o = 1)
      ∧ isQuote k = false ∧ k ≠ '/' ∧ k ≠ '*' ∧ bracketStep k = -1 := by
  unfold closerOf? at h
  split_ifs at h with hround hsquare hcurly
  · obtain rfl := Option.some.inj h
    subst hround
    decide
  · obtain rfl := Option.some.inj h
    subst hsquare
    decide
  · obtain rfl := Option.some.inj h
    subst hcurly
    decide

/-- A closing bracket opens none, is in no comment mark and is no semicolon. -/
lemma bracketStep_of_isCloser {c : Char} (h : isCloser c = true) :
    bracketStep c = -1 ∧ isOpener c = false ∧ c ≠ '/' ∧ c ≠ '*' ∧ c ≠ ';' := by
  simp only [isCloser, Bool.or_eq_true, beq_iff_eq] at h
  rcases h with (rfl | rfl) | rfl
  all_goals decide

/-- The closers that are awaited behind one more character of code, innermost first; `none` when a
bracket is closed that was not opened. -/
def awaitStep (awaited : List Char) (c : Char) : Option (List Char) :=
  match closerOf? c with
  | some k => some (k :: awaited)
  | none =>
    if isCloser c then
      match awaited with
      | [] => none
      | k :: ks => if k = c then some ks else none
    else some awaited

/-- An opening bracket awaits its partner on top of what was awaited. -/
lemma awaitStep_open {o k : Char} (h : closerOf? o = some k) (awaited : List Char) :
    awaitStep awaited o = some (k :: awaited) := by
  unfold awaitStep
  rw [h]

/-- The closers that are awaited behind some code. -/
def awaitedAfter (awaited : List Char) (cs : Text) : Option (List Char) :=
  cs.foldlM awaitStep awaited

/-- One character is taken off the front of the text. -/
lemma awaitedAfter_cons {awaited awaited' : List Char} {c : Char}
    (h : awaitStep awaited c = some awaited') (cs : Text) :
    awaitedAfter awaited (c :: cs) = awaitedAfter awaited' cs := by
  unfold awaitedAfter
  rw [List.foldlM_cons, h]
  rfl

/-- What is awaited behind two texts is what the second leaves of what the first does. -/
lemma awaitedAfter_append (awaited : List Char) (cs ds : Text) :
    awaitedAfter awaited (cs ++ ds) = (awaitedAfter awaited cs).bind (awaitedAfter · ds) :=
  List.foldlM_append

/-- What a character can do to the closers that are awaited. -/
lemma awaitStep_eq_some {awaited awaited' : List Char} {c : Char}
    (h : awaitStep awaited c = some awaited') :
    (∃ k, closerOf? c = some k ∧ awaited' = k :: awaited)
      ∨ (closerOf? c = none ∧ isCloser c = true ∧ awaited = c :: awaited')
      ∨ (closerOf? c = none ∧ isCloser c = false ∧ awaited' = awaited) := by
  unfold awaitStep at h
  split at h
  · next k hk => exact Or.inl ⟨k, hk, (Option.some.inj h).symm⟩
  · next hnone =>
    split_ifs at h with hclose
    · split at h
      · exact absurd h (by simp)
      · next k ks =>
        split_ifs at h with hkind
        obtain rfl := Option.some.inj h
        exact Or.inr (Or.inl ⟨hnone, hclose, by rw [hkind]⟩)
    · exact Or.inr (Or.inr ⟨hnone, by simpa using hclose, (Option.some.inj h).symm⟩)

/-- The number of awaited brackets changes as the depth does. -/
lemma length_awaitStep {awaited awaited' : List Char} {c : Char}
    (h : awaitStep awaited c = some awaited') :
    (awaited'.length : Int) = awaited.length + bracketStep c := by
  unfold bracketStep isOpener
  rcases awaitStep_eq_some h with ⟨k, hk, rfl⟩ | ⟨hnone, hclose, rfl⟩ | ⟨hnone, hclose, rfl⟩
  · simp [hk]
  · rw [hnone, hclose, List.length_cons]
    simp only [Option.isSome_none, Bool.false_eq_true, if_false, if_true]
    omega
  · simp [hnone, hclose]

/-- The number of closers that are awaited is the depth. -/
lemma length_awaitedAfter {awaited awaited' : List Char} {cs : Text}
    (h : awaitedAfter awaited cs = some awaited') :
    (awaited'.length : Int) = awaited.length + depthOf cs := by
  induction cs generalizing awaited with
  | nil =>
    obtain rfl := Option.some.inj h
    exact (Int.add_zero _).symm
  | cons c cs ih =>
    obtain ⟨next, hstep, hrest⟩ := Option.bind_eq_some_iff.mp h
    rw [ih hrest, length_awaitStep hstep, depthOf_cons, Int.add_assoc]

/-- Nothing is awaited behind a text of depth zero that closes only what it opens. -/
lemma eq_nil_of_bracketDepth {t : Text} {awaited : List Char} (hdepth : bracketDepth t = 0)
    (h : awaitedAfter [] (codeIn .code t) = some awaited) : awaited = [] := by
  have hlength := length_awaitedAfter h
  rw [← bracketDepth_eq, hdepth] at hlength
  exact List.eq_nil_of_length_eq_zero (by simpa using hlength)

/-- The outermost closer is awaited until it comes. -/
lemma awaitStep_concat {ks awaited : List Char} {k c : Char}
    (h : awaitStep (ks ++ [k]) c = some awaited) :
    (ks = [] ∧ c = k ∧ isCloser c = true ∧ awaited = [])
      ∨ ∃ ks', awaitStep ks c = some ks' ∧ awaited = ks' ++ [k] := by
  unfold awaitStep
  rcases awaitStep_eq_some h with ⟨o, ho, rfl⟩ | ⟨hnone, hclose, hks⟩ | ⟨hnone, hclose, rfl⟩
  · exact Or.inr ⟨o :: ks, by rw [ho], rfl⟩
  · cases ks with
    | nil =>
      obtain ⟨rfl, rfl⟩ := List.cons.inj hks
      exact Or.inl ⟨rfl, rfl, hclose, rfl⟩
    | cons k' ks =>
      obtain ⟨rfl, rfl⟩ := List.cons.inj hks
      exact Or.inr ⟨ks, by simp [hnone, hclose], rfl⟩
  · exact Or.inr ⟨ks, by simp [hnone, hclose], rfl⟩

/-- While something is awaited, the search for a closing bracket ends where nothing is any more. -/
lemma closingIn_cons {ι : Type} {awaited : List Char} (hne : awaited ≠ []) (i : ι) (c : Char)
    (ps : List (ι × Char)) : closingIn awaited ((i, c) :: ps) =
      (awaitStep awaited c).bind fun next => if next = [] then some i else closingIn next ps := by
  rw [closingIn.eq_def]
  unfold awaitStep
  dsimp only
  cases hk : closerOf? c with
  | some k => rfl
  | none =>
    dsimp only
    by_cases hclose : isCloser c = true
    · obtain ⟨k, ks, rfl⟩ := List.exists_cons_of_ne_nil hne
      rw [if_pos hclose, if_pos hclose]
      by_cases hkind : k = c
      · cases ks with
        | nil => simp [hkind]
        | cons k' ks => simp [hkind]
      · simp [hkind]
    · rw [if_neg hclose, if_neg hclose, Option.bind_some, if_neg hne]

/-- Code that leaves nothing awaited has the closing bracket in it. -/
lemma exists_closingIn {ι : Type} {awaited : List Char} (hne : awaited ≠ []) {ps : List (ι × Char)}
    (h : awaitedAfter awaited (ps.map Prod.snd) = some []) :
    ∃ i, closingIn awaited ps = some i := by
  induction ps generalizing awaited with
  | nil => exact absurd (Option.some.inj h) hne
  | cons p ps ih =>
    obtain ⟨i, c⟩ := p
    obtain ⟨next, hstep, hrest⟩ := Option.bind_eq_some_iff.mp h
    rw [closingIn_cons hne, hstep, Option.bind_some]
    by_cases hnext : next = []
    · exact ⟨i, if_pos hnext⟩
    · rw [if_neg hnext]
      exact ih hnext hrest

/-! ## Balanced texts -/

/-- A text that ends in code and closes every bracket it opens, each by its own kind, and no
others. -/
structure Balanced (t : Text) : Prop where
  mode : modeAfter .code t = .code
  closed : awaitedAfter [] (codeIn .code t) = some []

/-- **What stands in front of the outermost closer**, when it is found: code that closes all that it
opens. -/
lemma closingIn_eq_some {m : Mode} {offset i : Nat} {ks : List Char} {k : Char} {u : Text}
    (h : closingIn (ks ++ [k]) (codeChars m offset u) = some i) :
    ∃ inner rest, u = inner ++ k :: rest ∧ i = offset + inner.length ∧ isCloser k = true
      ∧ modeAfter m inner = .code ∧ awaitedAfter ks (codeIn m inner) = some [] := by
  induction u generalizing m offset ks with
  | nil => exact absurd h (by simp [codeChars, closingIn])
  | cons c u ih =>
    rw [codeChars] at h
    rcases hstep : m.step c u.head? with ⟨region, m'⟩
    rw [hstep] at h
    -- what the rest gives, once the closers awaited behind the first character are known
    have hrest : ∀ ks' : List Char, closingIn (ks' ++ [k]) (codeChars m' (offset + 1) u) = some i →
        (∀ inner : Text, m.step c inner.head? = (region, m') →
          awaitedAfter ks (codeIn m (c :: inner)) = awaitedAfter ks' (codeIn m' inner)) →
        ∃ inner rest, c :: u = inner ++ k :: rest ∧ i = offset + inner.length ∧ isCloser k = true
          ∧ modeAfter m inner = .code ∧ awaitedAfter ks (codeIn m inner) = some [] := by
      intro ks' hfound hawaited
      obtain ⟨inner, rest, rfl, hi, hclose, hmode, hinner⟩ := ih hfound
      have hcalm : Calm (k :: rest) := by
        refine calm_cons ?_ ?_ rest
        all_goals
          rintro rfl
          exact absurd hclose (by decide)
      rw [m.step_append c inner hcalm] at hstep
      refine ⟨c :: inner, rest, rfl, ?_, hclose, ?_, ?_⟩
      · rw [hi, List.length_cons]
        omega
      · rw [modeAfter, hstep]
        exact hmode
      · rw [hawaited inner hstep, hinner]
    cases region with
    | code =>
      rw [closingIn_cons (by simp)] at h
      obtain ⟨next, hnext, h⟩ := Option.bind_eq_some_iff.mp h
      rcases awaitStep_concat hnext with ⟨rfl, rfl, hclose, rfl⟩ | ⟨ks', hks, rfl⟩
      · obtain rfl := Option.some.inj h
        refine ⟨[], u, rfl, rfl, hclose, (Mode.step_eq_code hstep).2 ?_, rfl⟩
        rintro rfl
        exact absurd hclose (by decide)
      · rw [if_neg (by simp)] at h
        apply hrest ks' h
        intro inner hinner
        rw [codeIn_cons, hinner]
        exact awaitedAfter_cons hks _
    | comment =>
      apply hrest ks h
      intro inner hinner
      rw [codeIn_cons, hinner]
    | literal =>
      apply hrest ks h
      intro inner hinner
      rw [codeIn_cons, hinner]

/-- **Between a round bracket and the one that closes it stands a balanced text.** -/
lemma closing?_round {front rest : Text} {close : Nat}
    (h : closing? (front ++ '(' :: rest) front.length = some close) :
    ∃ inner back, rest = inner ++ ')' :: back ∧ close = front.length + 1 + inner.length
      ∧ Balanced inner := by
  rw [closing?, codeFrom, List.drop_left, codeChars_bare_cons (by decide) (by decide)] at h
  have hopen : closingIn ([] ++ [')']) (codeChars .code (front.length + 1) rest) = some close := h
  obtain ⟨inner, back, hsplit, hclose, -, hmode, hinner⟩ := closingIn_eq_some hopen
  exact ⟨inner, back, hsplit, hclose, hmode, hinner⟩

/-- Both sides of a comma outside brackets are balanced when the whole is. -/
lemma Balanced.of_append_comma {first rest : Text} (hmode : modeAfter .code first = .code)
    (hdepth : bracketDepth first = 0) (h : Balanced (first ++ ',' :: rest)) :
    Balanced first ∧ Balanced rest := by
  have hcalm : Calm (',' :: rest) := calm_cons (by decide) (by decide) rest
  have hclosed := h.closed
  rw [codeIn_append_comma hmode, awaitedAfter_append] at hclosed
  obtain ⟨awaited, hfirst, hrest⟩ := Option.bind_eq_some_iff.mp hclosed
  obtain rfl := eq_nil_of_bracketDepth hdepth hfirst
  refine ⟨⟨hmode, hfirst⟩, ⟨?_, hrest⟩⟩
  have hwhole := h.mode
  rw [modeAfter_append _ _ hcalm, hmode, modeAfter,
    Mode.step_bare (by decide) (by decide)] at hwhole
  exact hwhole

/-- **The parts of a balanced text are balanced.** -/
lemma Balanced.of_mem_splitTopLevel {t part : Text} (h : Balanced t)
    (hpart : part ∈ splitTopLevel t ',') :
    Balanced part := by
  induction hlength : t.length using Nat.strong_induction_on generalizing t with
  | _ n ih =>
    rcases splitTopLevel_cases t with hwhole | ⟨first, rest, rfl, hmode, hdepth, hparts⟩
    · rw [hwhole] at hpart
      rwa [List.mem_singleton.mp hpart]
    · obtain ⟨hfirst, hrest⟩ := Balanced.of_append_comma hmode hdepth h
      rw [hparts] at hpart
      rcases List.mem_cons.mp hpart with rfl | hpart
      · exact hfirst
      · have hlt : rest.length < n := by
          rw [← hlength, List.length_append, List.length_cons]
          omega
        exact ih rest.length hlt hrest hpart rfl

/-- **In a balanced text a bracket of code is closed**, when all in front of it is. -/
lemma Balanced.exists_closing? {front rest : Text} {c k : Char} (h : Balanced (front ++ c :: rest))
    (hmode : modeAfter .code front = .code) (hdepth : bracketDepth front = 0)
    (hopen : closerOf? c = some k) (hquote : isQuote c = false) (hslash : c ≠ '/')
    (hstar : c ≠ '*') :
    ∃ close, closing? (front ++ c :: rest) front.length = some close := by
  have hclosed := h.closed
  rw [codeIn_append _ _ (calm_cons hslash hstar rest), hmode, awaitedAfter_append] at hclosed
  obtain ⟨awaited, hfront, hrest⟩ := Option.bind_eq_some_iff.mp hclosed
  obtain rfl := eq_nil_of_bracketDepth hdepth hfront
  rw [codeIn_cons, Mode.step_bare hquote hslash] at hrest
  dsimp only at hrest
  rw [awaitedAfter_cons (awaitStep_open hopen [])] at hrest
  unfold codeIn at hrest
  rw [map_snd_codeChars .code 0 (front.length + 1)] at hrest
  obtain ⟨close, hclose⟩ := exists_closingIn (by simp) hrest
  refine ⟨close, ?_⟩
  rw [closing?, codeFrom, List.drop_left, codeChars_bare_cons hquote hslash, closingIn.eq_def]
  simpa only [hopen] using hclose

end Esmify.Source
