import Esmify.Export.Member
import Esmify.Proofs.Lexeme
import Esmify.Proofs.Region

/-!
# The parts of a text between commas

An object literal is read by cutting it, comments removed, at the commas outside brackets.
**Removing the comments and cutting can be done in one pass** (`splitFrom_stripFrom`): no comment
mark is made by taking a comment out. In this form the parts of a text and a calm rest are those of
the one and then those of the other, the part at the seam joined (`exists_partsFrom_append`).

White space around a text does not change its pieces, the parts that are not blank, trimmed
(`piecesOf_blanks_append`, `piecesOf_append_blanks`). Two texts on lines of their own, the first of
which is closed, have the pieces of the one and then those of the other when no part runs over the
line break (`pieces_lines`). -/

namespace Esmify.Source

open Text

/-! ## Code read in any mode -/

/-- The characters of code in a text that is read in mode `m`. -/
def codeIn (m : Mode) (t : Text) : Text :=
  (codeChars m 0 t).map Prod.snd

/-- One character is code or is passed over. -/
lemma codeIn_cons (m : Mode) (c : Char) (cs : Text) : codeIn m (c :: cs) =
    match m.step c cs.head? with
    | (.code, m') => c :: codeIn m' cs
    | (_, m') => codeIn m' cs := by
  unfold codeIn
  rw [codeChars]
  obtain ⟨region, m'⟩ := m.step c cs.head?
  cases region with
  | code => exact congrArg (c :: ·) (map_snd_codeChars m' _ _ cs)
  | comment => exact map_snd_codeChars m' _ _ cs
  | literal => exact map_snd_codeChars m' _ _ cs

/-- The code of two texts is that of the first and that of the second, read on from there. -/
lemma codeIn_append (m : Mode) (u : Text) {rest : Text} (h : Calm rest) :
    codeIn m (u ++ rest) = codeIn m u ++ codeIn (modeAfter m u) rest := by
  unfold codeIn
  rw [codeChars_append m 0 u h, List.map_append]
  exact congrArg _ (map_snd_codeChars _ _ _ _)

/-- Depths add up. -/
lemma depthOf_append (cs ds : Text) : depthOf (cs ++ ds) = depthOf cs + depthOf ds := by
  induction cs with
  | nil => simp [depthOf]
  | cons c cs ih =>
    rw [List.cons_append, depthOf_cons, depthOf_cons, ih, Int.add_assoc]

/-- The depth of a text is that of its code. -/
lemma bracketDepth_eq (t : Text) : bracketDepth t = depthOf (codeIn .code t) := by
  have hfold : ∀ (ps : List (Nat × Char)) (depth : Int),
      ps.foldl (fun depth p => depth + bracketStep p.2) depth
        = depth + depthOf (ps.map Prod.snd) := by
    intro ps
    induction ps with
    | nil => exact fun depth => (Int.add_zero depth).symm
    | cons p ps ih =>
      intro depth
      rw [List.foldl_cons, ih, List.map_cons, depthOf_cons, Int.add_assoc]
  exact (hfold _ 0).trans (Int.zero_add _)

/-- The mode behind two texts is that behind the second, read on from the first. -/
lemma modeAfter_append (m : Mode) (u : Text) {rest : Text} (h : Calm rest) :
    modeAfter m (u ++ rest) = modeAfter (modeAfter m u) rest := by
  induction u generalizing m with
  | nil => rfl
  | cons c u ih =>
    rw [List.cons_append, modeAfter, modeAfter, m.step_append c u h, ih]

/-- Comments are taken out of two texts one behind the other. -/
lemma stripFrom_append (m : Mode) (u : Text) {rest : Text} (h : Calm rest) :
    stripFrom m (u ++ rest) = stripFrom m u ++ stripFrom (modeAfter m u) rest := by
  induction u generalizing m with
  | nil => rfl
  | cons c u ih =>
    rw [List.cons_append, stripFrom, stripFrom, modeAfter, m.step_append c u h]
    rcases m.step c u.head? with ⟨region, m'⟩
    cases region with
    | code => exact congrArg (c :: ·) (ih m')
    | comment => exact ih m'
    | literal => exact congrArg (c :: ·) (ih m')

/-! ## Behind a bare text -/

section bare

variable {head : Text}

/-- A bare front does not change the mode. -/
lemma modeAfter_bare_append (h : Bare head) (t : Text) :
    modeAfter .code (head ++ t) = modeAfter .code t := by
  induction head with
  | nil => rfl
  | cons c head ih =>
    obtain ⟨⟨hquote, hslash⟩, hhead⟩ := List.forall_mem_cons.mp h
    rw [List.cons_append, modeAfter, Mode.step_bare hquote hslash, ih hhead]

/-- Nothing is taken out of a bare front. -/
lemma stripComments_bare_append (h : Bare head) (t : Text) :
    stripComments (head ++ t) = head ++ stripComments t := by
  induction head with
  | nil => rfl
  | cons c head ih =>
    obtain ⟨⟨hquote, hslash⟩, hhead⟩ := List.forall_mem_cons.mp h
    rw [List.cons_append, stripComments, stripFrom, Mode.step_bare hquote hslash]
    exact congrArg (c :: ·) (ih hhead)

/-- A bare front is all code. -/
lemma codeIn_bare_append (h : Bare head) (t : Text) :
    codeIn .code (head ++ t) = head ++ codeIn .code t := by
  induction head with
  | nil => rfl
  | cons c head ih =>
    obtain ⟨⟨hquote, hslash⟩, hhead⟩ := List.forall_mem_cons.mp h
    rw [List.cons_append, codeIn_cons, Mode.step_bare hquote hslash]
    exact congrArg (c :: ·) (ih hhead)

/-- A text without brackets has no depth. -/
lemma depthOf_unbracketed (h : Unbracketed head) : depthOf head = 0 := by
  induction head with
  | nil => rfl
  | cons c head ih =>
    obtain ⟨⟨hopen, hclose⟩, hhead⟩ := List.forall_mem_cons.mp h
    have hstep : bracketStep c = 0 := by simp [bracketStep, hopen, hclose]
    rw [depthOf_cons, hstep, ih hhead, Int.add_zero]

end bare

/-! ## One pass -/

/-- The mode once comments are out of the way. -/
def Mode.uncommented : Mode → Mode
  | .lineComment | .commentOpening | .blockComment | .commentClosing => .code
  | m => m

/-- The parts of a text, read in mode `m` and with `depth` brackets open, between the commas outside
brackets; `comments` says whether comments stay in them. -/
def partsFrom (comments : Bool) (m : Mode) (depth : Int) : Text → List Text
  | [] => [[]]
  | c :: cs =>
    match m.step c cs.head? with
    | (.code, m') =>
      if bracketStep c = 0 ∧ c = ',' ∧ depth = 0 then [] :: partsFrom comments m' depth cs
      else consFirst c (partsFrom comments m' (depth + bracketStep c) cs)
    | (.literal, m') => consFirst c (partsFrom comments m' depth cs)
    | (.comment, m') =>
      if comments then consFirst c (partsFrom comments m' depth cs) else
        partsFrom comments m' depth cs

/-- Cutting at commas is the pass in which comments stay. -/
lemma splitFrom_eq_partsFrom (m : Mode) (depth : Int) (t : Text) :
    splitFrom ',' m depth t = partsFrom true m depth t := by
  induction t generalizing m depth with
  | nil => rfl
  | cons c cs ih =>
    rw [splitFrom, partsFrom]
    rcases m.step c cs.head? with ⟨region, m'⟩
    cases region with
    | code => simp only [ih]
    | comment => simp only [ih, if_true]
    | literal => simp only [ih]

/-- A character that opens no comment stays in front. -/
lemma head?_stripFrom {t : Text} (h : t.head? ≠ some '/') :
    (stripFrom .code t).head? = t.head? := by
  cases t with
  | nil => rfl
  | cons c t =>
    have hslash : c ≠ '/' := fun heq => h (by rw [heq]; rfl)
    rw [stripFrom, Mode.step]
    by_cases hquote : isQuote c = true
    · simp [hquote]
    · simp [hquote, hslash]

/-- Behind what is no comment none is going on. -/
lemma Mode.uncommented_of_step {m m' : Mode} {c : Char} {next : Option Char} {region : Region}
    (hstep : m.step c next = (region, m')) (hregion : region ≠ .comment) : m'.uncommented = m' := by
  cases m with
  | code =>
    rw [Mode.step] at hstep
    split_ifs at hstep
    · cases hstep
      rfl
    · exact absurd (Prod.mk.inj hstep).1.symm hregion
    · exact absurd (Prod.mk.inj hstep).1.symm hregion
    · cases hstep
      rfl
  | lineComment =>
    rw [Mode.step] at hstep
    split_ifs at hstep
    · cases hstep
      rfl
    · exact absurd (Prod.mk.inj hstep).1.symm hregion
  | commentOpening => exact absurd (Prod.mk.inj hstep).1.symm hregion
  | blockComment =>
    rw [Mode.step] at hstep
    split_ifs at hstep
    all_goals exact absurd (Prod.mk.inj hstep).1.symm hregion
  | commentClosing => exact absurd (Prod.mk.inj hstep).1.symm hregion
  | literal quote =>
    rw [Mode.step] at hstep
    split_ifs at hstep
    all_goals
      cases hstep
      rfl
  | escaped quote =>
    cases hstep
    rfl

/-- **What is no comment is read alike with the comments taken out.** -/
lemma Mode.step_stripFrom {m m' : Mode} {c : Char} {cs : Text} {region : Region}
    (hstep : m.step c cs.head? = (region, m')) (hregion : region ≠ .comment) :
    m.uncommented.step c (stripFrom m' cs).head? = (region, m'.uncommented) := by
  rw [Mode.uncommented_of_step hstep hregion]
  cases m with
  | code =>
    rw [Mode.step] at hstep
    split_ifs at hstep with hquote hline hblock
    · obtain ⟨rfl, rfl⟩ := Prod.mk.inj hstep
      simp [Mode.uncommented, Mode.step, hquote]
    · exact absurd (Prod.mk.inj hstep).1.symm hregion
    · exact absurd (Prod.mk.inj hstep).1.symm hregion
    · obtain ⟨rfl, rfl⟩ := Prod.mk.inj hstep
      -- a slash is followed by what it was followed by
      by_cases hslash : c = '/'
      · have hnext : (stripFrom .code cs).head? = cs.head? :=
          head?_stripFrom fun h => hline ⟨hslash, h⟩
        simp [Mode.uncommented, Mode.step, hquote, hnext, hline, hblock]
      · simp [Mode.uncommented, Mode.step, hquote, hslash]
  | lineComment =>
    rw [Mode.step] at hstep
    split_ifs at hstep with hbreak
    · obtain ⟨rfl, rfl⟩ := Prod.mk.inj hstep
      rw [hbreak]
      exact Mode.step_bare (by decide) (by decide) _
    · exact absurd (Prod.mk.inj hstep).1.symm hregion
  | commentOpening => exact absurd (Prod.mk.inj hstep).1.symm hregion
  | blockComment =>
    rw [Mode.step] at hstep
    split_ifs at hstep with hclose
    all_goals exact absurd (Prod.mk.inj hstep).1.symm hregion
  | commentClosing => exact absurd (Prod.mk.inj hstep).1.symm hregion
  | literal quote => exact hstep
  | escaped quote => exact hstep

/-- The mode after a comment character is one that comments leave. -/
lemma Mode.uncommented_of_comment {m m' : Mode} {c : Char} {next : Option Char}
    (hstep : m.step c next = (.comment, m')) : m.uncommented = m'.uncommented := by
  cases m with
  | code =>
    rw [Mode.step] at hstep
    split_ifs at hstep
    all_goals cases hstep
    all_goals rfl
  | lineComment =>
    rw [Mode.step] at hstep
    split_ifs at hstep
    all_goals cases hstep
    all_goals rfl
  | commentOpening =>
    cases hstep
    rfl
  | blockComment =>
    rw [Mode.step] at hstep
    split_ifs at hstep
    all_goals cases hstep
    all_goals rfl
  | commentClosing =>
    cases hstep
    rfl
  | literal quote =>
    rw [Mode.step] at hstep
    split_ifs at hstep
    all_goals cases hstep
  | escaped quote => cases hstep

/-- **Removing comments and cutting at commas is one pass.** -/
theorem splitFrom_stripFrom (m : Mode) (depth : Int) (t : Text) :
    splitFrom ',' m.uncommented depth (stripFrom m t) = partsFrom false m depth t := by
  induction t generalizing m depth with
  | nil => rfl
  | cons c cs ih =>
    rcases hstep : m.step c cs.head? with ⟨region, m'⟩
    rw [stripFrom, partsFrom]
    simp only [hstep]
    cases region with
    | code =>
      dsimp only
      rw [splitFrom, Mode.step_stripFrom hstep (by decide)]
      dsimp only
      rw [ih, ih]
    | literal =>
      dsimp only
      rw [splitFrom, Mode.step_stripFrom hstep (by decide)]
      dsimp only
      rw [ih]
    | comment =>
      dsimp only
      rw [Mode.uncommented_of_comment hstep, ih]
      rfl

/-- Without comments a text is not longer. -/
lemma length_stripFrom_le (m : Mode) (t : Text) : (stripFrom m t).length ≤ t.length := by
  induction t generalizing m with
  | nil => exact Nat.le_refl 0
  | cons c cs ih =>
    rw [stripFrom]
    rcases m.step c cs.head? with ⟨region, m'⟩
    cases region with
    | code => exact Nat.succ_le_succ (ih m')
    | comment => exact Nat.le_succ_of_le (ih m')
    | literal => exact Nat.succ_le_succ (ih m')

/-- A text without comments does not end in one. -/
lemma uncommented_modeAfter {m : Mode} {t : Text} (hm : m.uncommented = m) (h : stripFrom m t = t) :
    (modeAfter m t).uncommented = modeAfter m t := by
  induction t generalizing m with
  | nil => exact hm
  | cons c cs ih =>
    rw [stripFrom] at h
    rw [modeAfter]
    rcases hstep : m.step c cs.head? with ⟨region, m'⟩
    rw [hstep] at h
    cases region with
    | code => exact ih (Mode.uncommented_of_step hstep (by decide)) (List.cons.inj h).2
    | literal => exact ih (Mode.uncommented_of_step hstep (by decide)) (List.cons.inj h).2
    | comment =>
      have hle := length_stripFrom_le m' cs
      have hcs : stripFrom m' cs = c :: cs := h
      rw [hcs, List.length_cons] at hle
      omega

/-- Removing comments leaves the code. -/
lemma codeIn_stripFrom (m : Mode) (t : Text) :
    codeIn m.uncommented (stripFrom m t) = codeIn m t := by
  induction t generalizing m with
  | nil => rfl
  | cons c cs ih =>
    rcases hstep : m.step c cs.head? with ⟨region, m'⟩
    rw [stripFrom, codeIn_cons]
    simp only [hstep]
    cases region with
    | code =>
      dsimp only
      rw [codeIn_cons, Mode.step_stripFrom hstep (by decide)]
      exact congrArg (c :: ·) (ih m')
    | literal =>
      dsimp only
      rw [codeIn_cons, Mode.step_stripFrom hstep (by decide)]
      exact ih m'
    | comment =>
      dsimp only
      rw [Mode.uncommented_of_comment hstep, ih]

/-- There are no brackets of code in a comment. -/
lemma bracketDepth_stripComments (t : Text) : bracketDepth (stripComments t) = bracketDepth t := by
  rw [bracketDepth_eq, bracketDepth_eq]
  exact congrArg depthOf (codeIn_stripFrom .code t)

/-! ## Parts -/

section parts

variable {comments : Bool} {m : Mode} {depth : Int}

/-- There is always a first part. -/
lemma exists_cons_partsFrom (comments : Bool) (m : Mode) (depth : Int) (t : Text) :
    ∃ first others, partsFrom comments m depth t = first :: others := by
  have hcons : ∀ (c : Char) (ps : List Text), ∃ first others, consFirst c ps = first :: others := by
    intro c ps
    cases ps with
    | nil => exact ⟨_, _, rfl⟩
    | cons p ps => exact ⟨_, _, rfl⟩
  induction t generalizing m depth with
  | nil => exact ⟨_, _, rfl⟩
  | cons c cs ih =>
    rw [partsFrom]
    rcases m.step c cs.head? with ⟨region, m'⟩
    cases region with
    | code =>
      dsimp only
      split_ifs
      · exact ⟨_, _, rfl⟩
      · exact hcons _ _
    | literal => exact hcons _ _
    | comment =>
      dsimp only
      split_ifs
      · exact hcons _ _
      · exact ih _ _

/-- There is always a last part. -/
lemma exists_concat_partsFrom (comments : Bool) (m : Mode) (depth : Int) (t : Text) :
    ∃ front last, partsFrom comments m depth t = front ++ [last] := by
  obtain ⟨first, others, hcons⟩ := exists_cons_partsFrom comments m depth t
  rw [hcons]
  exact ⟨_, _, (List.dropLast_append_getLast (List.cons_ne_nil first others)).symm⟩

/-- A character goes to the front of the first part, whatever parts follow. -/
lemma exists_consFirst (c : Char) (front : List Text) (last : Text) :
    ∃ front' last', consFirst c (front ++ [last]) = front' ++ [last']
      ∧ ∀ first others, consFirst c (front ++ (last ++ first) :: others) =
        front' ++ (last' ++ first) :: others := by
  cases front with
  | nil => exact ⟨[], c :: last, rfl, fun _ _ => rfl⟩
  | cons p front => exact ⟨(c :: p) :: front, last, rfl, fun _ _ => rfl⟩

/-- **The parts of a text and a calm rest**: the last part of the one and the first part of the
other are joined. -/
lemma exists_partsFrom_append (comments : Bool) (m : Mode) (depth : Int) (u : Text) {rest : Text}
    (h : Calm rest) : ∃ front last, partsFrom comments m depth u = front ++ [last]
      ∧ ∀ first others,
        partsFrom comments (modeAfter m u) (depth + depthOf (codeIn m u)) rest = first :: others →
          partsFrom comments m depth (u ++ rest) = front ++ (last ++ first) :: others := by
  induction u generalizing m depth with
  | nil =>
    refine ⟨[], [], rfl, fun first others hrest => ?_⟩
    have hdepth : depth + depthOf (codeIn m []) = depth := Int.add_zero depth
    rw [hdepth] at hrest
    exact hrest
  | cons c u ih =>
    rw [List.cons_append, partsFrom, partsFrom, modeAfter, codeIn_cons, m.step_append c u h]
    rcases m.step c u.head? with ⟨region, m'⟩
    cases region with
    | code =>
      dsimp only
      rw [depthOf_cons, ← Int.add_assoc]
      split_ifs with hcomma
      · rw [hcomma.1, Int.add_zero]
        obtain ⟨front, last, hparts, happend⟩ := ih m' depth
        refine ⟨[] :: front, last, by rw [hparts]; rfl, fun first others hrest => ?_⟩
        rw [happend first others hrest]
        rfl
      · obtain ⟨front, last, hparts, happend⟩ := ih m' (depth + bracketStep c)
        obtain ⟨front', last', hfirst, hothers⟩ := exists_consFirst c front last
        refine ⟨front', last', by rw [hparts, hfirst], fun first others hrest => ?_⟩
        rw [happend first others hrest, hothers]
    | literal =>
      obtain ⟨front, last, hparts, happend⟩ := ih m' depth
      obtain ⟨front', last', hfirst, hothers⟩ := exists_consFirst c front last
      refine ⟨front', last', by rw [← hfirst, ← hparts], fun first others hrest => ?_⟩
      rw [← hothers, ← happend first others hrest]
    | comment =>
      obtain ⟨front, last, hparts, happend⟩ := ih m' depth
      dsimp only
      split_ifs
      · obtain ⟨front', last', hfirst, hothers⟩ := exists_consFirst c front last
        refine ⟨front', last', by rw [← hfirst, ← hparts], fun first others hrest => ?_⟩
        rw [← hothers, ← happend first others hrest]
      · exact ⟨front, last, hparts, happend⟩

/-- Without a comma outside brackets there is one part. -/
lemma partsFrom_eq_singleton {t : Text}
    (h : ∀ front, front ++ [','] <+: codeIn m t → depth + depthOf front ≠ 0) :
    partsFrom false m depth t = [stripFrom m t] := by
  induction t generalizing m depth with
  | nil => rfl
  | cons c cs ih =>
    rw [codeIn_cons] at h
    rw [partsFrom, stripFrom]
    rcases hstep : m.step c cs.head? with ⟨region, m'⟩
    rw [hstep] at h
    cases region with
    | code =>
      dsimp only at h ⊢
      have hcomma : ¬(bracketStep c = 0 ∧ c = ',' ∧ depth = 0) := by
        rintro ⟨-, rfl, rfl⟩
        exact h [] (List.cons_prefix_cons.mpr ⟨rfl, List.nil_prefix⟩) rfl
      rw [if_neg hcomma, ih fun front hfront => ?_]
      · rfl
      · have hne := h (c :: front) (List.cons_prefix_cons.mpr ⟨rfl, hfront⟩)
        rwa [depthOf_cons, ← Int.add_assoc] at hne
    | literal => exact congrArg (consFirst c) (ih h)
    | comment => exact ih h

/-- What a character in front of the first part makes of the last one. -/
lemma consFirst_eq_append {c : Char} {front front' : List Text} {last last' : Text}
    (h : consFirst c (front ++ [last]) = front' ++ [last']) :
    (front = [] ∧ front' = [] ∧ last' = c :: last) ∨ (front ≠ [] ∧ front' ≠ [] ∧ last' = last) := by
  cases front with
  | nil =>
    have hsingle : [] ++ [c :: last] = front' ++ [last'] := h
    obtain ⟨hfront, hlast⟩ := List.append_inj' hsingle rfl
    exact Or.inl ⟨rfl, hfront.symm, (List.cons.inj hlast).1.symm⟩
  | cons p front =>
    have hmore : ((c :: p) :: front) ++ [last] = front' ++ [last'] := h
    obtain ⟨hfront, hlast⟩ := List.append_inj' hmore rfl
    refine Or.inr ⟨List.cons_ne_nil _ _, ?_, (List.cons.inj hlast).1.symm⟩
    rw [← hfront]
    exact List.cons_ne_nil _ _

/-- Where no bracket is opened in the last part, none is left open behind the comma in front of
it. -/
lemma depth_of_last {t : Text} {front : List Text} {last : Text}
    (hparts : partsFrom false m depth t = front ++ [last])
    (hlast : ∀ c ∈ last, isOpener c = false) :
    (front = [] → depthOf (codeIn m t) ≤ 0) ∧ (front ≠ [] → depth + depthOf (codeIn m t) ≤ 0) := by
  induction t generalizing m depth front last with
  | nil =>
    have hsingle : [] ++ [[]] = front ++ [last] := hparts
    obtain ⟨rfl, -⟩ := List.append_inj' hsingle rfl
    exact ⟨fun _ => Int.le_refl 0, fun hne => absurd rfl hne⟩
  | cons c cs ih =>
    rw [partsFrom] at hparts
    rw [codeIn_cons]
    rcases hstep : m.step c cs.head? with ⟨region, m'⟩
    rw [hstep] at hparts
    -- a character in front of the parts of the rest, at a depth that it may change
    have hcons : ∀ depth' : Int, consFirst c (partsFrom false m' depth' cs) = front ++ [last] →
        (front = [] → isOpener c = false ∧ depthOf (codeIn m' cs) ≤ 0)
          ∧ (front ≠ [] → depth' + depthOf (codeIn m' cs) ≤ 0) := by
      intro depth' h
      obtain ⟨front', last', hrest⟩ := exists_concat_partsFrom false m' depth' cs
      rw [hrest] at h
      rcases consFirst_eq_append h with ⟨hfront', hfront, rfl⟩ | ⟨hfront', hfront, rfl⟩
      · obtain ⟨hc, hlast⟩ := List.forall_mem_cons.mp hlast
        exact ⟨fun _ => ⟨hc, (ih hrest hlast).1 hfront'⟩, fun h => absurd hfront h⟩
      · exact ⟨fun h => absurd h hfront, fun _ => (ih hrest hlast).2 hfront'⟩
    cases region with
    | code =>
      dsimp only at hparts ⊢
      rw [depthOf_cons]
      split_ifs at hparts with hcomma
      · obtain ⟨hstep, -, rfl⟩ := hcomma
        obtain ⟨front', last', hrest⟩ := exists_concat_partsFrom false m' 0 cs
        have hmore : ([] :: front') ++ [last'] = front ++ [last] := by
          rw [← hparts, hrest]
          rfl
        obtain ⟨rfl, hsame⟩ := List.append_inj' hmore rfl
        obtain ⟨rfl, -⟩ := List.cons.inj hsame
        obtain ⟨hnil, hne⟩ := ih hrest hlast
        refine ⟨fun h => absurd h (List.cons_ne_nil _ _), fun _ => ?_⟩
        by_cases hfront : front' = []
        · have hle := hnil hfront
          omega
        · have hle := hne hfront
          omega
      · obtain ⟨hnil, hne⟩ := hcons _ hparts
        refine ⟨fun hfront => ?_, fun hfront => ?_⟩
        · obtain ⟨hopen, hle⟩ := hnil hfront
          have hstep : bracketStep c ≤ 0 := by
            unfold bracketStep
            rw [if_neg (by rw [hopen]; decide)]
            split_ifs
            all_goals decide
          omega
        · have hle := hne hfront
          omega
    | literal =>
      obtain ⟨hnil, hne⟩ := hcons _ hparts
      exact ⟨fun hfront => (hnil hfront).2, hne⟩
    | comment => exact ih hparts hlast

/-- **A text that leaves brackets open does so in its last part.** -/
lemma exists_opener {t : Text} {front : List Text} {last : Text}
    (hparts : partsFrom false m 0 t = front ++ [last]) (h : 0 < depthOf (codeIn m t)) :
    ∃ c ∈ last, isOpener c = true := by
  by_contra hnone
  have hlast : ∀ c ∈ last, isOpener c = false := by
    intro c hc
    rw [← Bool.not_eq_true]
    exact fun hopen => hnone ⟨c, hc, hopen⟩
  obtain ⟨hnil, hne⟩ := depth_of_last hparts hlast
  by_cases hfront : front = []
  · have hle := hnil hfront
    omega
  · have hle := hne hfront
    omega

end parts

/-! ## White space -/

/-- White space is neither a bracket nor a comma, and not part of a mark. -/
lemma bracketStep_of_isBlank {c : Char} (h : isBlank c = true) :
    bracketStep c = 0 ∧ c ≠ ',' ∧ c ≠ '/' ∧ c ≠ '*' ∧ isQuote c = false := by
  have hall : ∀ d ∈ "()[]\x7b\x7d,/*'\"\x60".toList, isBlank d = false := by decide
  have hne : ∀ d ∈ "()[]\x7b\x7d,/*'\"\x60".toList, c ≠ d := by
    rintro d hd rfl
    rw [hall c hd] at h
    exact absurd h (by decide)
  simp at hne
  simp [bracketStep, isOpener, closerOf?, isCloser, isQuote, templateQuote, hne]

/-- White space is calm. -/
lemma calm_of_blanks {blanks : Text} (h : ∀ c ∈ blanks, isBlank c = true) : Calm blanks := by
  cases blanks with
  | nil => exact ⟨by simp, by simp⟩
  | cons c blanks =>
    obtain ⟨-, -, hslash, hstar, -⟩ := bracketStep_of_isBlank (h c List.mem_cons_self)
    simp [Calm, hslash, hstar]

/-- White space is one part, in whatever mode it is read. -/
lemma exists_partsFrom_blanks (comments : Bool) (m : Mode) (depth : Int) {blanks : Text}
    (h : ∀ c ∈ blanks, isBlank c = true) :
    ∃ part, (∀ c ∈ part, isBlank c = true) ∧ partsFrom comments m depth blanks = [part] := by
  induction blanks generalizing m depth with
  | nil => exact ⟨[], by simp, rfl⟩
  | cons c blanks ih =>
    obtain ⟨hc, hblanks⟩ := List.forall_mem_cons.mp h
    obtain ⟨hstep, hcomma, -⟩ := bracketStep_of_isBlank hc
    have hcons : ∀ (m' : Mode) (depth' : Int), ∃ part, (∀ c ∈ part, isBlank c = true)
        ∧ consFirst c (partsFrom comments m' depth' blanks) = [part] := by
      intro m' depth'
      obtain ⟨part, hpart, hparts⟩ := ih m' depth' hblanks
      exact ⟨c :: part, List.forall_mem_cons.mpr ⟨hc, hpart⟩, by rw [hparts]; rfl⟩
    rw [partsFrom]
    rcases m.step c blanks.head? with ⟨region, m'⟩
    cases region with
    | code =>
      dsimp only
      rw [if_neg fun h => hcomma h.2.1]
      exact hcons _ _
    | literal => exact hcons _ _
    | comment =>
      dsimp only
      split_ifs
      · exact hcons _ _
      · exact ih m' depth hblanks

/-- White space opens and closes no brackets. -/
lemma depthOf_blanks (m : Mode) {blanks : Text} (h : ∀ c ∈ blanks, isBlank c = true) :
    depthOf (codeIn m blanks) = 0 := by
  have hzero : ∀ cs : Text, (∀ c ∈ cs, isBlank c = true) → depthOf cs = 0 := by
    intro cs hcs
    induction cs with
    | nil => rfl
    | cons c cs ih =>
      obtain ⟨hc, hcs⟩ := List.forall_mem_cons.mp hcs
      rw [depthOf_cons, (bracketStep_of_isBlank hc).1, ih hcs, Int.add_zero]
  exact hzero _ fun c hc => h c (mem_of_mem_codeChars hc)

/-- White space at the end leaves no brackets open. -/
lemma bracketDepth_append_blanks (t : Text) {blanks : Text} (h : ∀ c ∈ blanks, isBlank c = true) :
    bracketDepth (t ++ blanks) = bracketDepth t := by
  rw [bracketDepth_eq, bracketDepth_eq, codeIn_append _ _ (calm_of_blanks h), depthOf_append,
    depthOf_blanks _ h, Int.add_zero]

/-- White space at the front leaves no brackets open. -/
lemma bracketDepth_blanks_append {blanks : Text} (h : ∀ c ∈ blanks, isBlank c = true) (t : Text) :
    bracketDepth (blanks ++ t) = bracketDepth t := by
  rw [bracketDepth_eq, bracketDepth_eq]
  induction blanks with
  | nil => rfl
  | cons c blanks ih =>
    obtain ⟨hc, hblanks⟩ := List.forall_mem_cons.mp h
    obtain ⟨hstep, -, hslash, -, hquote⟩ := bracketStep_of_isBlank hc
    rw [List.cons_append, codeIn_cons, Mode.step_bare hquote hslash]
    dsimp only
    rw [depthOf_cons, hstep, ih hblanks, Int.zero_add]

/-- White space around a text leaves no brackets open. -/
lemma bracketDepth_trim (t : Text) : bracketDepth (trim t) = bracketDepth t := by
  obtain ⟨front, back, hfront, hback, hsplit, -⟩ := trim_split t
  rw [hsplit, bracketDepth_blanks_append hfront, bracketDepth_append_blanks _ hback, ← hsplit]

/-! ## Pieces -/

/-- The parts that are not blank, trimmed. -/
def piecesOf (parts : List Text) : List Text :=
  (parts.map trim).filter fun p => !p.isEmpty

/-- The pieces of two lists of parts stand one behind the other. -/
lemma piecesOf_append (ps qs : List Text) : piecesOf (ps ++ qs) = piecesOf ps ++ piecesOf qs := by
  unfold piecesOf
  rw [List.map_append, List.filter_append]

/-- A part is one piece, or none if it is blank. -/
lemma piecesOf_cons (p : Text) (ps : List Text) :
    piecesOf (p :: ps) = (if trim p = [] then [] else [trim p]) ++ piecesOf ps := by
  unfold piecesOf
  rw [List.map_cons, List.filter_cons]
  split_ifs with hne hnil hnil
  · rw [hnil] at hne
    exact absurd hne (by decide)
  · rfl
  · rfl
  · rw [List.isEmpty_eq_false_iff.mpr hnil] at hne
    exact absurd rfl hne

/-- Only what the first parts are once trimmed matters. -/
lemma piecesOf_cons_congr {p q : Text} (h : trim p = trim q) (ps : List Text) :
    piecesOf (p :: ps) = piecesOf (q :: ps) := by
  rw [piecesOf_cons, piecesOf_cons, h]

/-- The parts of a text between the commas outside brackets, comments removed. -/
def parts (t : Text) : List Text :=
  splitTopLevel (stripComments t) ','

/-- The parts of a text are read in code, from depth zero. -/
lemma parts_eq (t : Text) : parts t = partsFrom false .code 0 t :=
  splitFrom_stripFrom .code 0 t

/-- The pieces of a text: the parts that are not blank, trimmed. -/
def pieces (t : Text) : List Text :=
  piecesOf (parts t)

/-- White space in front does not change the pieces. -/
lemma piecesOf_blanks_append (comments : Bool) (depth : Int) {blanks : Text}
    (h : ∀ c ∈ blanks, isBlank c = true) (t : Text) :
    piecesOf (partsFrom comments .code depth (blanks ++ t)) =
      piecesOf (partsFrom comments .code depth t) := by
  induction blanks with
  | nil => rfl
  | cons c blanks ih =>
    obtain ⟨hc, hblanks⟩ := List.forall_mem_cons.mp h
    obtain ⟨hstep, hcomma, hslash, -, hquote⟩ := bracketStep_of_isBlank hc
    rw [List.cons_append, partsFrom, Mode.step_bare hquote hslash]
    dsimp only
    rw [if_neg fun h => hcomma h.2.1, hstep, Int.add_zero, ← ih hblanks]
    obtain ⟨first, others, hcons⟩ := exists_cons_partsFrom comments .code depth (blanks ++ t)
    rw [hcons]
    refine piecesOf_cons_congr ?_ others
    exact trim_blanks_append (List.forall_mem_singleton.mpr hc) first

/-- White space behind a text does not change the pieces. -/
lemma piecesOf_append_blanks (comments : Bool) (m : Mode) (depth : Int) (t : Text) {blanks : Text}
    (h : ∀ c ∈ blanks, isBlank c = true) :
    piecesOf (partsFrom comments m depth (t ++ blanks))
      = piecesOf (partsFrom comments m depth t) := by
  obtain ⟨front, last, hparts, happend⟩ :=
    exists_partsFrom_append comments m depth t (calm_of_blanks h)
  obtain ⟨part, hpart, hblanks⟩ := exists_partsFrom_blanks comments (modeAfter m t)
    (depth + depthOf (codeIn m t)) h
  rw [happend part [] hblanks, hparts, piecesOf_append, piecesOf_append,
    piecesOf_cons_congr (trim_append_blanks last hpart)]

/-- **The pieces of a text are those of the text trimmed**, comments in it or not. -/
lemma piecesOf_trim (comments : Bool) (depth : Int) (t : Text) :
    piecesOf (partsFrom comments .code depth (trim t))
      = piecesOf (partsFrom comments .code depth t) := by
  obtain ⟨front, back, hfront, hback, hsplit, -⟩ := trim_split t
  rw [hsplit, piecesOf_blanks_append comments depth hfront,
    piecesOf_append_blanks comments .code depth _ hback, ← hsplit]

/-! ## Lines -/

/-- What stands behind the last comma outside brackets. -/
def lastPart (t : Text) : Text :=
  (parts t).getLast?.getD []

/-- What stands in front of the first comma outside brackets. -/
def firstPart (t : Text) : Text :=
  (parts t).head?.getD []

/-- A text that leaves no bracket open, and behind whose last line the next one is code. -/
structure Closed (t : Text) : Prop where
  mode : modeAfter .code (t ++ ['\n']) = .code
  depth : bracketDepth t = 0

instance (t : Text) : Decidable (Closed t) :=
  decidable_of_iff (modeAfter .code (t ++ ['\n']) = .code ∧ bracketDepth t = 0)
    ⟨fun h => ⟨h.1, h.2⟩, fun h => ⟨h.mode, h.depth⟩⟩

/-- A line break behind which code is read is white space in front of the first part. -/
lemma exists_partsFrom_break {m : Mode} (hmode : modeAfter m ['\n'] = .code) (depth : Int)
    (rest : Text) :
    ∃ gap, (∀ c ∈ gap, isBlank c = true) ∧ ∀ first others,
      partsFrom false .code depth rest = first :: others →
        partsFrom false m depth ('\n' :: rest) = (gap ++ first) :: others := by
  have hnext : m.step '\n' rest.head? = m.step '\n' none := by
    cases m with
    | code => rfl
    | blockComment => rfl
    | _ => rfl
  have hsecond : (m.step '\n' none).2 = .code := hmode
  have hblank : ∀ c ∈ ['\n'], isBlank c = true := by decide
  rcases hstep : m.step '\n' none with ⟨region, m'⟩
  rw [hstep] at hsecond hnext
  obtain rfl : m' = .code := hsecond
  cases region with
  | code =>
    refine ⟨['\n'], hblank, fun first others h => ?_⟩
    have hzero : depth + bracketStep '\n' = depth := Int.add_zero depth
    rw [partsFrom, hnext]
    dsimp only
    rw [if_neg fun hcomma => absurd hcomma.2.1 (by decide), hzero, h]
    rfl
  | literal =>
    refine ⟨['\n'], hblank, fun first others h => ?_⟩
    rw [partsFrom, hnext]
    exact congrArg (consFirst '\n') h
  | comment =>
    refine ⟨[], by simp, fun first others h => ?_⟩
    rw [partsFrom, hnext]
    exact h

/-- **Two texts on lines of their own**, the first of them closed, have the pieces of both when no
part runs over the line break. -/
lemma pieces_lines {u rest : Text} (hclosed : Closed u)
    (hseam : isBlankText (lastPart u) = true ∨ isBlankText (firstPart rest) = true) :
    pieces (u ++ '\n' :: rest) = pieces u ++ pieces rest := by
  have hcalm : Calm ['\n'] := ⟨by decide, by decide⟩
  obtain ⟨front, last, hparts, happend⟩ := exists_partsFrom_append false .code 0 u
    (show Calm ('\n' :: rest) from ⟨by simp, by simp⟩)
  obtain ⟨first, others, hrest⟩ := exists_cons_partsFrom false .code 0 rest
  have hmode := hclosed.mode
  rw [modeAfter_append .code u hcalm] at hmode
  obtain ⟨gap, hgap, hbreak⟩ := exists_partsFrom_break hmode 0 rest
  have hwhole := happend _ _
    (by rw [← bracketDepth_eq, hclosed.depth]; exact hbreak first others hrest)
  have hlast : lastPart u = last := by
    rw [lastPart, parts_eq, hparts, List.getLast?_concat]
    rfl
  have hfirst : firstPart rest = first := by
    rw [firstPart, parts_eq, hrest]
    rfl
  rw [hlast, hfirst] at hseam
  unfold pieces
  rw [parts_eq, parts_eq, parts_eq, hwhole, hparts, hrest, piecesOf_append, piecesOf_append,
    List.append_assoc]
  refine congrArg _ ?_
  rw [piecesOf_cons, piecesOf_cons, piecesOf_cons]
  rcases hseam with hblank | hblank
  · have hlast := List.all_eq_true.mp hblank
    rw [trim_blanks_append hlast, trim_blanks_append hgap, trim_eq_nil hlast]
    rfl
  · have hfirst := List.all_eq_true.mp hblank
    rw [← List.append_assoc, trim_append_blanks _ hfirst, trim_append_blanks _ hgap,
      trim_eq_nil hfirst, List.append_assoc]
    rfl

end Esmify.Source
