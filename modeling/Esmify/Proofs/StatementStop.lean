import Esmify.Proofs.GlobalSource
import Esmify.Proofs.Trivia

/-!
# Where a statement stops

**The search for the end of a statement can be cut anywhere** (`statementStop?_append_or`): it ends
in the front, or it goes on behind it with the brackets that the front leaves open. Where it ends
first (`statementStop?_eq_some`), no bracket is open and there stands a semicolon, a closing bracket
or a line break at which the statement ends.

**Behind a piece of source that is complete** (`Complete`: it ends in code, with a character that a
statement can end behind), what is left of the statement is white space and comments exactly when
the statement is over by then, nothing else follows in the text, or what follows ends the statement
there (`endsStatement`, `Complete.isTrivia_iff`). -/

namespace Esmify.Source

open Text

variable {ι : Type} {ends : ι → Bool}

/-! ## The search, cut in two -/

/-- **The search goes on behind code in which it does not end**, at the depth that the code
leaves. -/
lemma statementStop?_append_or (depth : Nat) (cs rest : List (ι × Char)) :
    statementStop? ends depth (cs ++ rest) = (statementStop? ends depth cs).or
      (statementStop? ends (depth + depthOf (cs.map Prod.snd)).toNat rest) := by
  induction cs generalizing depth with
  | nil => simp [statementStop?, depthOf]
  | cons p cs ih =>
    obtain ⟨i, c⟩ := p
    have hdepth : ∀ depth' : Nat, (depth' : Int) = depth + bracketStep c →
        (depth' + depthOf (cs.map Prod.snd)).toNat =
          (depth + depthOf (((i, c) :: cs).map Prod.snd)).toNat := by
      intro depth' hdepth'
      rw [List.map_cons, depthOf_cons, hdepth', Int.add_assoc]
    have hstep : bracketStep c = if isOpener c then 1 else if isCloser c then -1 else 0 := rfl
    rw [List.cons_append, statementStop?.eq_def, statementStop?.eq_def ends depth ((i, c) :: cs)]
    dsimp only
    by_cases hopen : isOpener c = true
    · rw [if_pos hopen] at hstep ⊢
      rw [if_pos hopen, ih, hdepth (depth + 1) (by rw [hstep]; rfl)]
    rw [if_neg hopen] at hstep ⊢
    rw [if_neg hopen]
    by_cases hclose : isCloser c = true
    · rw [if_pos hclose] at hstep ⊢
      rw [if_pos hclose]
      cases depth with
      | zero => rfl
      | succ d =>
        dsimp only
        rw [ih, hdepth d (by rw [hstep]; push_cast; omega)]
    rw [if_neg hclose] at hstep ⊢
    rw [if_neg hclose]
    split_ifs
    · rfl
    · rfl
    · rw [ih, hdepth depth (by rw [hstep, Int.add_zero])]

/-- Code in which a statement does not end closes no bracket that it does not open. -/
lemma depth_of_statementStop?_eq_none {depth : Nat} {cs : List (ι × Char)}
    (h : statementStop? ends depth cs = none) : 0 ≤ depth + depthOf (cs.map Prod.snd) := by
  induction cs generalizing depth with
  | nil => simp [depthOf]
  | cons p cs ih =>
    obtain ⟨i, c⟩ := p
    have hstep : bracketStep c = if isOpener c then 1 else if isCloser c then -1 else 0 := rfl
    rw [List.map_cons, depthOf_cons]
    rw [statementStop?.eq_def] at h
    dsimp only at h ⊢
    split_ifs at h with hopen hclose
    · rw [if_pos hopen] at hstep
      have := ih h
      push_cast at this
      omega
    · rw [if_neg hopen, if_pos hclose] at hstep
      cases depth with
      | zero => cases h
      | succ d =>
        have := ih h
        push_cast
        omega
    · rw [if_neg hopen, if_neg hclose] at hstep
      have := ih h
      omega

/-- **What stands where a statement ends**: it has not ended before, no bracket is open there, and
the character is a semicolon, a closing bracket, or a line break at which the statement ends. -/
lemma statementStop?_eq_some {depth : Nat} {cs : List (ι × Char)} {i : ι} {semicolon : Bool}
    (h : statementStop? ends depth cs = some (i, semicolon)) :
    ∃ front c back, cs = front ++ (i, c) :: back ∧ statementStop? ends depth front = none
      ∧ depth + depthOf (front.map Prod.snd) = 0
      ∧ (c = ';' ∨ isCloser c = true ∨ (c = '\n' ∧ ends i = true)) ∧ semicolon = (c == ';') := by
  fun_induction statementStop? ends depth cs with
  | case1 => cases h
  | case2 depth j d rest hopen ih =>
    obtain ⟨front, c, back, rfl, hnone, hdepth, hc⟩ := ih h
    refine ⟨(j, d) :: front, c, back, rfl, ?_, ?_, hc⟩
    · rw [statementStop?.eq_def]
      exact (if_pos hopen).trans hnone
    · rw [List.map_cons, depthOf_cons, bracketStep, if_pos hopen]
      push_cast at hdepth
      omega
  | case3 j d rest hopen hclose =>
    obtain ⟨rfl, rfl⟩ := Prod.mk.inj (Option.some.inj h)
    obtain ⟨-, -, -, -, hne⟩ := bracketStep_of_isCloser hclose
    exact ⟨[], d, rest, rfl, rfl, rfl, Or.inr (Or.inl hclose), (beq_false_of_ne hne).symm⟩
  | case4 j d rest hopen hclose depth ih =>
    obtain ⟨front, c, back, rfl, hnone, hdepth, hc⟩ := ih h
    refine ⟨(j, d) :: front, c, back, rfl, ?_, ?_, hc⟩
    · rw [statementStop?.eq_def]
      exact (if_neg hopen).trans ((if_pos hclose).trans hnone)
    · rw [List.map_cons, depthOf_cons, bracketStep, if_neg hopen, if_pos hclose]
      push_cast
      omega
  | case5 depth j d rest hopen hclose hsemicolon =>
    obtain ⟨rfl, rfl⟩ := Prod.mk.inj (Option.some.inj h)
    obtain ⟨rfl, rfl⟩ := hsemicolon
    exact ⟨[], ';', rest, rfl, rfl, rfl, Or.inl rfl, rfl⟩
  | case6 depth j d rest hopen hclose hsemicolon hbreak =>
    obtain ⟨rfl, rfl⟩ := Prod.mk.inj (Option.some.inj h)
    obtain ⟨rfl, rfl, hends⟩ := hbreak
    exact ⟨[], '\n', rest, rfl, rfl, rfl, Or.inr (Or.inr ⟨rfl, hends⟩), rfl⟩
  | case7 depth j d rest hopen hclose hsemicolon hbreak ih =>
    obtain ⟨front, c, back, rfl, hnone, hdepth, hc⟩ := ih h
    refine ⟨(j, d) :: front, c, back, rfl, ?_, ?_, hc⟩
    · rw [statementStop?.eq_def]
      dsimp only
      rw [if_neg hopen, if_neg hclose, if_neg hsemicolon, if_neg hbreak, hnone]
    · rw [List.map_cons, depthOf_cons, bracketStep, if_neg hopen, if_neg hclose, Int.zero_add]
      exact hdepth

/-- A statement does end at such a character, with no bracket open. -/
lemma statementStop?_isSome {i : ι} {c : Char} (rest : List (ι × Char))
    (hc : c = ';' ∨ isCloser c = true ∨ (c = '\n' ∧ ends i = true)) :
    ∃ semicolon, statementStop? ends 0 ((i, c) :: rest) = some (i, semicolon) := by
  rw [statementStop?.eq_def]
  rcases hc with rfl | hclose | ⟨rfl, hends⟩
  · exact ⟨true, rfl⟩
  · obtain ⟨-, hopen, -⟩ := bracketStep_of_isCloser hclose
    refine ⟨false, ?_⟩
    dsimp only
    rw [hopen, if_neg (by decide), if_pos hclose]
  · refine ⟨false, ?_⟩
    dsimp only
    rw [if_neg (by decide), if_neg (by decide), if_neg (by decide), if_pos ⟨rfl, rfl, hends⟩]

/-! ## Behind a piece that is complete -/

/-- Whether a statement that could be over does not go on with this text: it begins with a comment,
or with no character that a statement goes on with. -/
def beginsAnew (t : Text) : Bool :=
  match trimStart t with
  | '/' :: '/' :: _ => true
  | '/' :: '*' :: _ => true
  | c :: _ => !goesOn c
  | [] => true

/-- **Whether a text ends the statement in front of it**: behind trivia comes a semicolon, a closing
bracket, or a line break that nothing goes on behind. -/
def endsStatement (t : Text) : Bool :=
  (code t).any fun p => isTrivia (t.take p.1)
    && (p.2 == ';' || isCloser p.2 || (p.2 == '\n' && beginsAnew (t.drop p.1)))

/-- A character of code, and how what stands in front of it is read. -/
lemma exists_of_codeChars_eq {m : Mode} {offset i : Nat} {t : Text} {c : Char}
    {front back : List (Nat × Char)} (h : codeChars m offset t = front ++ (i, c) :: back) :
    ∃ u v, t = u ++ c :: v ∧ i = offset + u.length ∧ front = codeChars m offset u
      ∧ ((modeAfter m u).step c v.head?).1 = .code := by
  induction t generalizing m offset front with
  | nil => simp [codeChars] at h
  | cons d t ih =>
    rcases hstep : m.step d t.head? with ⟨region, m'⟩
    -- the character stands further behind
    have hbehind : ∀ {front'}, codeChars m' (offset + 1) t = front' ++ (i, c) :: back →
        (∀ u : Text, m.step d u.head? = (region, m') → codeChars m' (offset + 1) u = front' →
          codeChars m offset (d :: u) = front) →
        ∃ u v, d :: t = u ++ c :: v ∧ i = offset + u.length ∧ front = codeChars m offset u
          ∧ ((modeAfter m u).step c v.head?).1 = .code := by
      intro front' hrest hfront
      obtain ⟨u, v, rfl, hi, hu, hcode⟩ := ih hrest
      rw [Mode.step_append_code (by rw [hstep]; exact hcode)] at hstep
      refine ⟨d :: u, v, rfl, ?_, (hfront u hstep hu.symm).symm, ?_⟩
      · rw [hi, List.length_cons]
        omega
      · rw [modeAfter, hstep]
        exact hcode
    rw [codeChars, hstep] at h
    cases region with
    | code =>
      cases front with
      | nil =>
        obtain ⟨hpair, -⟩ := List.cons.inj h
        obtain ⟨rfl, rfl⟩ := Prod.mk.inj hpair
        exact ⟨[], t, rfl, rfl, rfl, by rw [modeAfter, hstep]⟩
      | cons p front =>
        obtain ⟨rfl, hrest⟩ := List.cons.inj h
        apply hbehind hrest
        intro u hu hcode
        rw [codeChars, hu]
        exact congrArg _ hcode
    | comment =>
      apply hbehind h
      intro u hu hcode
      rw [codeChars, hu]
      exact hcode
    | literal =>
      apply hbehind h
      intro u hu hcode
      rw [codeChars, hu]
      exact hcode

/-- Such a character is among the code, wherever the reading begins. -/
lemma codeChars_append_cons {m : Mode} {u v : Text} {c : Char} (hslash : c ≠ '/') (hstar : c ≠ '*')
    (h : ((modeAfter m u).step c v.head?).1 = .code) (offset : Nat) :
    ∃ back, codeChars m offset (u ++ c :: v) =
      codeChars m offset u ++ (offset + u.length, c) :: back := by
  rcases hstep : (modeAfter m u).step c v.head? with ⟨region, m'⟩
  obtain rfl : region = .code := by rw [← h, hstep]
  refine ⟨codeChars m' (offset + u.length + 1) v, ?_⟩
  rw [codeChars_append _ _ _ (calm_cons hslash hstar v), codeChars, hstep]

/-- A character at which a statement can end is in no comment mark. -/
lemma ne_of_terminator {c : Char} {P : Prop} (h : c = ';' ∨ isCloser c = true ∨ (c = '\n' ∧ P)) :
    c ≠ '/' ∧ c ≠ '*' := by
  rcases h with rfl | hclose | ⟨rfl, -⟩
  · decide
  · obtain ⟨-, -, hslash, hstar, -⟩ := bracketStep_of_isCloser hclose
    exact ⟨hslash, hstar⟩
  · decide

/-- The end of a statement as the first character of code behind trivia. -/
lemma endsStatement_iff {t : Text} : endsStatement t = true ↔ ∃ u c v, t = u ++ c :: v
    ∧ isTrivia u = true ∧ ((modeAfter .code u).step c v.head?).1 = .code
    ∧ (c = ';' ∨ isCloser c = true ∨ (c = '\n' ∧ beginsAnew (c :: v) = true)) := by
  have hcode : code t = codeChars .code 0 t := by rw [code, codeFrom, List.drop_zero]
  unfold endsStatement
  simp only [List.any_eq_true, Bool.and_eq_true, Bool.or_eq_true, beq_iff_eq, or_assoc]
  constructor
  · rintro ⟨⟨i, c⟩, hmem, htrivia, hc⟩
    dsimp only at htrivia hc
    obtain ⟨front, back, hsplit⟩ := List.append_of_mem hmem
    rw [hcode] at hsplit
    obtain ⟨u, v, rfl, rfl, -, hstep⟩ := exists_of_codeChars_eq hsplit
    rw [Nat.zero_add, List.take_left] at htrivia
    rw [Nat.zero_add, List.drop_left] at hc
    exact ⟨u, c, v, rfl, htrivia, hstep, hc⟩
  · rintro ⟨u, c, v, rfl, htrivia, hstep, hc⟩
    obtain ⟨hslash, hstar⟩ := ne_of_terminator hc
    obtain ⟨back, hback⟩ := codeChars_append_cons hslash hstar hstep 0
    rw [Nat.zero_add] at hback
    refine ⟨(u.length, c), ?_, ?_, ?_⟩
    · rw [hcode, hback]
      exact List.mem_append_right _ List.mem_cons_self
    · rw [List.take_left]
      exact htrivia
    · rw [List.drop_left]
      exact hc

/-- **A piece of source that ends in code, with a character behind which a statement may end.** -/
structure Complete (source : Text) : Prop where
  mode : modeAfter .code source = .code
  last : ∃ u c, source = u ++ [c] ∧ c ≠ '/' ∧ c ≠ '*' ∧ isBlank c = false ∧ keepsGoing c = false

/-- Behind a complete piece and trivia a statement ends at a line break unless the text goes on. -/
lemma Complete.endsBetween {source u : Text} (hsource : Complete source) (hu : isTrivia u = true)
    (v : Text) :
    Source.endsBetween (source ++ u) ('\n' :: v) = beginsAnew ('\n' :: v) := by
  obtain ⟨w, c, rfl, hslash, hstar, hblank, hkeeps⟩ := hsource.last
  have hstrip : stripComments (w ++ [c] ++ u) = stripComments w ++ [c] ++ stripComments u := by
    rw [← stripComments_concat hslash hstar hsource.mode]
    have hcut := stripFrom_cut .code w hslash hstar u
    rw [hsource.mode] at hcut
    exact hcut
  have htrim : trimEnd (stripComments (w ++ [c] ++ u)) = stripComments w ++ [c] := by
    rw [hstrip]
    apply trimEnd_append
    · intro d hd
      rw [List.getLast?_concat] at hd
      rwa [← Option.some.inj hd]
    · exact isTrivia_iff.mp hu
  unfold Source.endsBetween
  rw [htrim, List.getLast?_concat]
  dsimp only
  rw [hkeeps, Bool.not_false, Bool.true_and]
  rfl

/-- Nothing stands between offsets in the wrong order. -/
lemma slice_of_le {t : Text} {start stop : Nat} (h : stop ≤ start) : t.slice start stop = [] := by
  unfold slice
  exact List.drop_eq_nil_of_le ((List.length_take_le _ _).trans h)

/-- What stands right behind a source. -/
lemma slice_behind (front source u w : Text) :
    (front ++ (source ++ (u ++ w))).slice (front.length + source.length)
      (front.length + source.length + u.length) = u := by
  rw [← List.append_assoc, ← List.length_append, slice_append]

/-- A statement goes up to the stop that is found. -/
lemma statementEnd_fst_of_some {t : Text} {start i : Nat} {semicolon : Bool}
    (h : statementStop? (Source.endsAtBreak t start) 0 (codeFrom t start) = some (i, semicolon)) :
    (statementEnd t start).1 = i := by
  unfold statementEnd
  rw [h]
  cases semicolon <;> rfl

/-- A statement without a stop goes up to the end of the text. -/
lemma statementEnd_fst_of_none {t : Text} {start : Nat}
    (h : statementStop? (Source.endsAtBreak t start) 0 (codeFrom t start) = none) :
    (statementEnd t start).1 = t.length := by
  unfold statementEnd
  rw [h]

/-- Trivia that ends a statement has its end in it, or at the character behind it. -/
lemma exists_stop_of_terminator {ends : Nat → Bool} {u v : Text} {c : Char} {offset : Nat}
    (hu : isTrivia u = true) (hstep : ((modeAfter .code u).step c v.head?).1 = .code)
    (hc : c = ';' ∨ isCloser c = true ∨ (c = '\n' ∧ ends (offset + u.length) = true)) :
    ∃ i semicolon, statementStop? ends 0 (codeChars .code offset (u ++ c :: v))
      = some (i, semicolon)
      ∧ i ≤ offset + u.length := by
  obtain ⟨hslash, hstar⟩ := ne_of_terminator hc
  obtain ⟨back, hcode⟩ := codeChars_append_cons hslash hstar hstep offset
  have hdepth : depthOf ((codeChars .code offset u).map Prod.snd) = 0 := by
    rw [map_snd_codeChars .code offset 0]
    exact depthOf_trivia hu
  rw [hcode, statementStop?_append_or, hdepth]
  cases hstop : statementStop? ends 0 (codeChars .code offset u) with
  | some p =>
    obtain ⟨i, semicolon⟩ := p
    obtain ⟨inFront, d, behind, hcode, -⟩ := statementStop?_eq_some hstop
    have hmem : (i, d) ∈ codeChars .code offset u := by
      rw [hcode]
      exact List.mem_append_right _ List.mem_cons_self
    exact ⟨i, semicolon, rfl, (codeChars_bounds _ hmem).2.le⟩
  | none =>
    obtain ⟨semicolon, hsome⟩ := statementStop?_isSome back hc
    exact ⟨_, semicolon, hsome, le_rfl⟩

section Behind

variable {source : Text} (hsource : Complete source) (front rest : Text)

include hsource

/-- The code of a text from a complete piece on. -/
lemma Complete.codeFrom_eq : codeFrom (front ++ (source ++ rest)) front.length =
    codeChars .code front.length source ++ codeChars .code (front.length + source.length) rest := by
  obtain ⟨w, c, rfl, hslash, hstar, -, -⟩ := hsource.last
  rw [codeFrom, List.drop_left, codeChars_cut .code w hslash hstar, hsource.mode]

/-- Behind a complete piece and trivia, a statement ends at a terminator exactly when the text does
not go on behind it. -/
lemma Complete.endsAtBreak {rest u v : Text} (hrest : rest = u ++ '\n' :: v)
    (hu : isTrivia u = true) :
    Source.endsAtBreak (front ++ (source ++ rest)) front.length
      (front.length + source.length + u.length) = beginsAnew ('\n' :: v) := by
  have hcontent : front ++ (source ++ rest) = front ++ ((source ++ u) ++ '\n' :: v) := by
    rw [hrest, List.append_assoc]
  have hlength : front.length + source.length + u.length = front.length + (source ++ u).length := by
    rw [List.length_append, Nat.add_assoc]
  rw [Source.endsAtBreak, hlength, hcontent, slice_append, ← List.append_assoc,
    ← List.length_append, List.drop_left, hsource.endsBetween hu]

/-- **The search for the end of a statement behind a complete piece**: it ends in the piece, or goes
on behind it with the brackets that the piece leaves open. -/
lemma Complete.search_cases (ends : Nat → Bool) :
    (∃ i semicolon, statementStop? ends 0 (codeFrom (front ++ (source ++ rest)) front.length) =
        some (i, semicolon) ∧ i < front.length + source.length)
      ∨ ∃ depth : Nat, (depth : Int) = bracketDepth source
        ∧ statementStop? ends 0 (codeFrom (front ++ (source ++ rest)) front.length) =
          statementStop? ends depth (codeChars .code (front.length + source.length) rest) := by
  have hdepth : depthOf ((codeChars .code front.length source).map Prod.snd)
      = bracketDepth source := by
    rw [bracketDepth_eq, codeIn, map_snd_codeChars .code front.length 0]
  rw [hsource.codeFrom_eq front rest, statementStop?_append_or, hdepth]
  cases hstop : statementStop? ends 0 (codeChars .code front.length source) with
  | some p =>
    obtain ⟨i, semicolon⟩ := p
    obtain ⟨inFront, c, behind, hcode, -⟩ := statementStop?_eq_some hstop
    have hmem : (i, c) ∈ codeChars .code front.length source := by
      rw [hcode]
      exact List.mem_append_right _ List.mem_cons_self
    exact Or.inl ⟨i, semicolon, rfl, (codeChars_bounds _ hmem).2⟩
  | none =>
    have hle := depth_of_statementStop?_eq_none hstop
    rw [hdepth] at hle
    exact Or.inr ⟨_, by push_cast; omega, rfl⟩

/-- **Behind a piece that leaves no bracket open, a text that ends the statement does so**, at the
latest behind the trivia that it begins with. -/
lemma Complete.exists_stop {rest : Text} (hends : endsStatement rest = true) :
    ∃ u c v, rest = u ++ c :: v ∧ isTrivia u = true ∧ ∃ i semicolon,
      statementStop? (Source.endsAtBreak (front ++ (source ++ rest)) front.length) 0
          (codeChars .code (front.length + source.length) rest) = some (i, semicolon)
        ∧ i ≤ front.length + source.length + u.length := by
  obtain ⟨u, c, v, rfl, hu, hstep, hc⟩ := endsStatement_iff.mp hends
  refine ⟨u, c, v, rfl, hu, exists_stop_of_terminator hu hstep ?_⟩
  rcases hc with hc | hc | ⟨rfl, hanew⟩
  · exact Or.inl hc
  · exact Or.inr (Or.inl hc)
  · exact Or.inr (Or.inr ⟨rfl, by rw [hsource.endsAtBreak front rfl hu, hanew]⟩)

/-- **Where the search ends behind the piece**: at a place with no comment mark. If only trivia
stands in front of it, no bracket was open, and the text behind the piece ends the statement. -/
lemma Complete.endsStatement_of_stop {rest : Text} {depth i : Nat} {semicolon : Bool}
    (h : statementStop? (Source.endsAtBreak (front ++ (source ++ rest)) front.length) depth
      (codeChars .code (front.length + source.length) rest) = some (i, semicolon)) :
    ∃ u c v, rest = u ++ c :: v ∧ i = front.length + source.length + u.length ∧ c ≠ '/' ∧ c ≠ '*'
      ∧ (isTrivia u = true → depth = 0 ∧ endsStatement rest = true) := by
  obtain ⟨inFront, c, behind, hcode, -, hclosed, hc, -⟩ := statementStop?_eq_some h
  obtain ⟨hslash, hstar⟩ := ne_of_terminator hc
  obtain ⟨u, v, rfl, rfl, rfl, hstep⟩ := exists_of_codeChars_eq hcode
  refine ⟨u, c, v, rfl, rfl, hslash, hstar, fun hu => ?_⟩
  have hflat : depthOf ((codeChars .code (front.length + source.length) u).map Prod.snd) = 0 := by
    rw [map_snd_codeChars .code _ 0]
    exact depthOf_trivia hu
  refine ⟨by omega, endsStatement_iff.mpr ⟨u, c, v, rfl, hu, hstep, ?_⟩⟩
  rcases hc with hc | hc | ⟨rfl, hends⟩
  · exact Or.inl hc
  · exact Or.inr (Or.inl hc)
  · exact Or.inr (Or.inr ⟨rfl, by rw [← hsource.endsAtBreak front rfl hu, hends]⟩)

/-- **What stands between a complete piece and the end of its statement is trivia exactly when the
statement is over by then, nothing but trivia follows at all, or the piece closes all brackets and
what follows ends the statement.** -/
theorem Complete.isTrivia_iff :
    isTrivia ((front ++ (source ++ rest)).slice (front.length + source.length)
        (statementEnd (front ++ (source ++ rest)) front.length).1) = true
      ↔ (statementEnd (front ++ (source ++ rest)) front.length).1 ≤ front.length + source.length
        ∨ isTrivia rest = true ∨ (bracketDepth source = 0 ∧ endsStatement rest = true) := by
  rcases hsource.search_cases front rest
      (Source.endsAtBreak (front ++ (source ++ rest)) front.length) with
    ⟨i, semicolon, hstop, hlt⟩ | ⟨depth, hdepth, hstop⟩
  · rw [statementEnd_fst_of_some hstop]
    exact iff_of_true (by rw [slice_of_le hlt.le]; rfl) (Or.inl hlt.le)
  · cases hfound : statementStop?
        (Source.endsAtBreak (front ++ (source ++ rest)) front.length) depth
        (codeChars .code (front.length + source.length) rest) with
    | none =>
      have hslice := slice_behind front source rest []
      have hlength : (front ++ (source ++ rest)).length
          = front.length + source.length + rest.length := by
        rw [List.length_append, List.length_append, Nat.add_assoc]
      rw [List.append_nil] at hslice
      rw [statementEnd_fst_of_none (hstop.trans hfound), hlength, hslice]
      constructor
      · exact fun h => Or.inr (Or.inl h)
      · rintro (hle | htrivia | ⟨hzero, hends⟩)
        · obtain rfl : rest = [] := List.eq_nil_of_length_eq_zero (by omega)
          rfl
        · exact htrivia
        · -- a text that ends the statement would have been found
          obtain ⟨u, c, v, -, -, i, semicolon, hsome, -⟩ := hsource.exists_stop front hends
          obtain rfl : depth = 0 := by omega
          rw [hfound] at hsome
          cases hsome
    | some p =>
      obtain ⟨i, semicolon⟩ := p
      obtain ⟨u, c, v, hrest, rfl, hslash, hstar, hends⟩ :=
        hsource.endsStatement_of_stop front hfound
      have hslice := slice_behind front source u (c :: v)
      rw [← hrest] at hslice
      rw [statementEnd_fst_of_some (hstop.trans hfound), hslice]
      constructor
      · intro hu
        obtain ⟨hzero, hends⟩ := hends hu
        exact Or.inr (Or.inr ⟨by omega, hends⟩)
      · rintro (hle | htrivia | ⟨hzero, hends⟩)
        · obtain rfl : u = [] := List.eq_nil_of_length_eq_zero (by omega)
          rfl
        · exact isTrivia_of_append (calm_cons hslash hstar v) (hrest ▸ htrivia)
        · -- the search stops in the trivia that the text begins with, or right behind it
          obtain ⟨u', c', v', hrest', hu', j, semicolon', hsome, hle⟩ :=
            hsource.exists_stop front hends
          obtain rfl : depth = 0 := by omega
          obtain ⟨rfl, -⟩ := Prod.mk.inj (Option.some.inj (hsome.symm.trans hfound))
          obtain ⟨w, rfl⟩ : u <+: u' :=
            List.prefix_of_prefix_length_le ⟨_, hrest.symm⟩ ⟨_, hrest'.symm⟩ (by omega)
          cases w with
          | nil => rwa [List.append_nil] at hu'
          | cons d w =>
            rw [hrest', List.append_assoc, List.append_cancel_left_eq] at hrest
            obtain ⟨rfl, -⟩ := List.cons.inj hrest
            exact isTrivia_of_append (calm_cons hslash hstar w) hu'

end Behind

end Esmify.Source
