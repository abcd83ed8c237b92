import Esmify.Proofs.InlineFunction
import Esmify.Proofs.StatementStop

/-!
# What follows a function that is exported

An inline export whose value begins with a function becomes a declaration of that function, and the
reader of the function stops behind its body. **Nothing is left between the function and the end of
its statement exactly when the statement is over by then, or what follows ends it**
(`inlineFunction?_whole_iff`): a semicolon, a closing bracket, a line break that nothing goes on
behind, or the end of the text, with only white space and comments in front of it. A member access,
a call or an operator is taken for the end as well, and then dangles behind the declaration
(`inlineFunction?_dangling`).

The text of a function closes whatever it opens (`FunctionHead.closes`): its head is made of words,
and the parameters and the body stand between brackets that match. The parameters of an async arrow
are read up to the first parenthesis that closes, and need not match. -/

namespace Esmify

open Text Source

/-! ## Texts that close what they open -/

namespace Source

/-- A text that ends in code and leaves no bracket open. -/
structure Closes (u : Text) : Prop where
  mode : modeAfter .code u = .code
  depth : bracketDepth u = 0

/-- Nothing is open behind an empty text. -/
lemma closes_nil : Closes [] :=
  ⟨rfl, rfl⟩

/-- Nothing is open behind two texts one behind the other, if nothing is behind each. -/
lemma Closes.append {u v : Text} (hu : Closes u) (hcalm : Calm v) (hv : Closes v) :
    Closes (u ++ v) := by
  refine ⟨?_, ?_⟩
  · rw [modeAfter_append _ _ hcalm, hu.mode, hv.mode]
  · rw [bracketDepth_eq, codeIn_append _ _ hcalm, hu.mode, depthOf_append, ← bracketDepth_eq,
      ← bracketDepth_eq, hu.depth, hv.depth, Int.add_zero]

/-- A text without quotes, slashes and brackets closes what it opens. -/
lemma closes_of_inert {u : Text} (hbare : Bare u) (hbrackets : Unbracketed u) : Closes u := by
  refine ⟨?_, ?_⟩
  · have hmode := modeAfter_bare_append hbare []
    rwa [List.append_nil] at hmode
  · have hcode := codeIn_bare_append hbare []
    rw [List.append_nil] at hcode
    rw [bracketDepth_eq, hcode]
    exact depthOf_unbracketed
      (by rwa [show codeIn .code ([] : Text) = [] from rfl, List.append_nil])

/-- Blanks open nothing. -/
lemma closes_of_blanks {blanks : Text} (h : ∀ c ∈ blanks, isBlank c = true) : Closes blanks :=
  closes_of_inert (bare_of_blanks h).1 (bare_of_blanks h).2

/-- Nothing is open behind a balanced text. -/
lemma Balanced.closes {u : Text} (h : Balanced u) : Closes u := by
  refine ⟨h.mode, ?_⟩
  have hlength := length_awaitedAfter h.closed
  rw [bracketDepth_eq]
  simpa using hlength.symm

/-- Brackets of one kind around a text that closes what it opens. -/
lemma Closes.bracketed {u : Text} {o k : Char} (h : Closes u) (hk : closerOf? o = some k) :
    Closes (o :: (u ++ [k])) := by
  obtain ⟨⟨hquote, hslash, -, hopen⟩, hquote', hslash', hstar', hclose⟩ := bracket_pair hk
  have hcalm : Calm [k] := calm_cons hslash' hstar' []
  refine ⟨?_, ?_⟩
  · rw [modeAfter, Mode.step_bare hquote hslash, modeAfter_append _ _ hcalm, h.mode, modeAfter,
      Mode.step_bare hquote' hslash', modeAfter]
  · have hlast : codeIn .code [k] = [k] := by
      rw [codeIn_cons, Mode.step_bare hquote' hslash']
      rfl
    rw [bracketDepth_eq, codeIn_cons, Mode.step_bare hquote hslash]
    dsimp only
    rw [codeIn_append _ _ hcalm, h.mode, hlast, depthOf_cons, depthOf_append,
      ← bracketDepth_eq, h.depth, depthOf_cons, hopen, hclose]
    rfl

end Source

/-! ## Pieces of a function -/

/-- Between two brackets that match stands a text that closes what it opens. -/
lemma bracketed?_split {t inside rest : Text} {o k : Char} (h : bracketed? t = some (inside, rest))
    (ho : t.head? = some o) (hk : closerOf? o = some k) :
    t = inside ++ rest ∧ Closes inside ∧ inside.head? = some o ∧ inside.getLast? = some k := by
  obtain ⟨⟨hquote, hslash, -, -⟩, -⟩ := bracket_pair hk
  obtain ⟨u, rfl⟩ := List.head?_eq_some_iff.mp ho
  obtain ⟨close, hclose, heq⟩ := Option.map_eq_some_iff.mp h
  obtain ⟨rfl, rfl⟩ := Prod.mk.inj heq
  have hopen : closingIn ([] ++ [k]) (codeChars .code 1 u) = some close := by
    rw [closing?, codeFrom, List.drop_zero, codeChars_bare_cons hquote hslash,
      closingIn.eq_def] at hclose
    simp only [hk] at hclose
    exact hclose
  obtain ⟨inner, back, rfl, rfl, -, hmode, hinner⟩ := closingIn_eq_some hopen
  have hinside : (o :: (inner ++ k :: back)).take (1 + inner.length + 1) = o :: (inner ++ [k]) := by
    have hsplit : o :: (inner ++ k :: back) = (o :: (inner ++ [k])) ++ back := by simp
    have hlength : 1 + inner.length + 1 = (o :: (inner ++ [k])).length := by
      rw [List.length_cons, List.length_append, List.length_singleton]
      omega
    rw [hsplit, hlength, List.take_left]
  refine ⟨(List.take_append_drop _ _).symm, ?_, ?_, ?_⟩
  · rw [hinside]
    exact (Balanced.closes ⟨hmode, hinner⟩).bracketed hk
  · rw [hinside]
    rfl
  · rw [hinside, ← List.cons_append, List.getLast?_concat]

/-- One text is the end of another, with words and white space in front. -/
def LeadsTo (t rest : Text) : Prop :=
  ∃ u, Bare u ∧ Unbracketed u ∧ t = u ++ rest

/-- A text leads to itself. -/
lemma LeadsTo.refl (t : Text) : LeadsTo t t :=
  ⟨[], fun _ h => absurd h List.not_mem_nil, fun _ h => absurd h List.not_mem_nil, rfl⟩

/-- What leads to the front of another leads to its end. -/
lemma LeadsTo.trans {t t' t'' : Text} (h : LeadsTo t t') (h' : LeadsTo t' t'') : LeadsTo t t'' := by
  obtain ⟨u, hbare, hbrackets, rfl⟩ := h
  obtain ⟨v, hbare', hbrackets', rfl⟩ := h'
  refine ⟨u ++ v, fun c hc => ?_, fun c hc => ?_, by rw [List.append_assoc]⟩
  · exact (List.mem_append.mp hc).elim (hbare c) (hbare' c)
  · exact (List.mem_append.mp hc).elim (hbrackets c) (hbrackets' c)

/-- A text leads to what stands behind its blanks. -/
lemma leadsTo_skipBlanks (t : Text) : LeadsTo t (skipBlanks t) := by
  obtain ⟨blanks, hblanks, hsplit, -⟩ := dropWhile_split isBlank t
  exact ⟨blanks, (bare_of_blanks hblanks).1, (bare_of_blanks hblanks).2, hsplit⟩

/-- The characters of names are neither quotes, slashes nor brackets. -/
lemma inert_of_isNameChar {c : Char} (h : isNameChar c = true) :
    (isQuote c = false ∧ c ≠ '/') ∧ isOpener c = false ∧ isCloser c = false := by
  have hall : ∀ d ∈ "'\"\x60/()[]\x7b\x7d".toList, isNameChar d = false := by decide
  have hnot : c ∉ "'\"\x60/()[]\x7b\x7d".toList := by
    intro hmem
    rw [hall c hmem] at h
    cases h
  simp at hnot
  simp [isQuote, templateQuote, isOpener, closerOf?, isCloser, hnot]

/-- A text leads to what stands behind its names. -/
lemma leadsTo_of_names {u : Text} (h : ∀ c ∈ u, isNameChar c = true) (t : Text) :
    LeadsTo (u ++ t) t :=
  ⟨u, fun c hc => (inert_of_isNameChar (h c hc)).1,
    fun c hc => (inert_of_isNameChar (h c hc)).2, rfl⟩

/-- A text leads to what stands behind an optional word. -/
lemma leadsTo_skipSpacedWord {word : Text} (h : ∀ c ∈ word, isNameChar c = true) (t : Text) :
    LeadsTo t (skipSpacedWord word t) := by
  obtain ⟨passed, hpassed, hsplit⟩ := skipSpacedWord_split word t
  rcases hpassed with rfl | ⟨gap, -, hgap, rfl⟩
  · rw [List.nil_append] at hsplit
    rw [← hsplit]
    exact LeadsTo.refl t
  · have hword := leadsTo_of_names h (gap ++ skipSpacedWord word t)
    have hblanks : LeadsTo (gap ++ skipSpacedWord word t) (skipSpacedWord word t) :=
      ⟨gap, (bare_of_blanks hgap).1, (bare_of_blanks hgap).2, rfl⟩
    rw [← List.append_assoc, ← hsplit] at hword
    exact hword.trans hblanks

/-- The name that a function may have is passed over. -/
lemma leadsTo_skipName (t : Text) : LeadsTo t (((name? t).map Prod.snd).getD t) := by
  cases hname : name? t with
  | none => exact LeadsTo.refl t
  | some p =>
    obtain ⟨name, rest⟩ := p
    obtain ⟨hproper, rfl, -⟩ := name?_eq_some_iff.mp hname
    exact leadsTo_of_names hproper.forall_isNameChar rest

/-- **In front of the parameters of a function stand words and white space**, and the parenthesis in
which the function may be wrapped. -/
lemma functionHead?_leadsTo {t : Text} {h : FunctionHead} (hh : functionHead? t = some h) :
    (h.isWrapped = true ∧ ∃ u, t = '(' :: u ∧ LeadsTo u h.fromParams)
      ∨ (h.isWrapped = false ∧ LeadsTo t h.fromParams) := by
  unfold functionHead? at hh
  split at hh
  next wrapped u hu =>
  have hinner : LeadsTo u h.fromParams ∧ h.isWrapped = wrapped := by
    dsimp only at hh
    split at hh
    · next rest hrest =>
      have hword : LeadsTo u rest := by
        have hfunction := after?_eq_some_iff.mp hrest
        refine (leadsTo_skipSpacedWord (by decide : ∀ c ∈ "async".toList,
          isNameChar c = true) u).trans ?_
        rw [skipSpacedWord, hfunction]
        exact leadsTo_of_names (by decide) rest
      by_cases houtside : outsideWord rest.head? = true
      · rw [if_pos houtside] at hh
        -- the name of its own, behind the star if there is one
        have hnamed : ∀ (star : Bool) (r : Text), LeadsTo rest r →
            (if (skipBlanks (((name? r).map Prod.snd).getD r)).head? == some '(' then
              some ⟨wrapped, u.take (u.length - ((spacedWord? "async".toList u).getD u).length),
                star, skipBlanks (((name? r).map Prod.snd).getD r)⟩ else none) = some h →
            LeadsTo u h.fromParams ∧ h.isWrapped = wrapped := by
          intro star r hr heq
          split_ifs at heq
          obtain rfl := Option.some.inj heq
          exact ⟨((hword.trans hr).trans (leadsTo_skipName r)).trans (leadsTo_skipBlanks _), rfl⟩
        split at hh
        · next cs hcs =>
          have hstar : LeadsTo ('*' :: cs) cs :=
            ⟨['*'], by unfold Bare; decide, by unfold Unbracketed; decide, rfl⟩
          have hblanks := leadsTo_skipBlanks rest
          rw [hcs] at hblanks
          exact hnamed true (skipBlanks cs) ((hblanks.trans hstar).trans (leadsTo_skipBlanks cs)) hh
        · exact hnamed false (skipBlanks rest) (leadsTo_skipBlanks rest) hh
      · rw [if_neg houtside] at hh
        cases hh
    · cases hh
  obtain ⟨hlead, hwrapped⟩ := hinner
  split at hu
  · next cs =>
    obtain ⟨rfl, rfl⟩ := Prod.mk.inj hu
    exact Or.inl ⟨hwrapped, cs, rfl, (leadsTo_skipBlanks cs).trans hlead⟩
  · obtain ⟨rfl, rfl⟩ := Prod.mk.inj hu
    exact Or.inr ⟨hwrapped, hlead⟩

/-! ## The text of a function -/

/-- A text with one of the characters that a function and its statement end with at its end. -/
def EndsFunction (source : Text) : Prop :=
  ∃ u c, source = u ++ [c] ∧ c ∈ "\x7d);".toList

/-- A text that ends a function in code is complete. -/
lemma EndsFunction.complete {source : Text} (h : EndsFunction source)
    (hmode : modeAfter .code source = .code) :
    Complete source := by
  obtain ⟨u, c, rfl, hc⟩ := h
  have hlast : ∀ d ∈ "\x7d);".toList, d ≠ '/' ∧ d ≠ '*' ∧ isBlank d = false
      ∧ keepsGoing d = false := by
    decide
  exact ⟨hmode, u, c, rfl, hlast c hc⟩

/-- A gap is white space. -/
lemma isBlank_of_isGap {c : Char} (h : isGap c = true) : isBlank c = true := by
  rw [isGap, Bool.or_eq_true, beq_iff_eq] at h
  rcases h with h | rfl
  · exact isBlank_of_isIndent h
  · decide

/-- White space in front of a text that is calm is calm with it. -/
lemma calm_blanks_append {blanks t : Text} (h : ∀ c ∈ blanks, isBlank c = true) (ht : Calm t) :
    Calm (blanks ++ t) := by
  cases blanks with
  | nil => exact ht
  | cons c blanks =>
    obtain ⟨-, -, hslash, hstar, -⟩ := bracketStep_of_isBlank (h c List.mem_cons_self)
    exact calm_cons hslash hstar (blanks ++ t)

/-- A text is calm when its first character is no comment mark. -/
lemma calm_of_head? {t : Text} {c : Char} (h : t.head? = some c) (hslash : c ≠ '/')
    (hstar : c ≠ '*') :
    Calm t := by
  obtain ⟨rest, rfl⟩ := List.head?_eq_some_iff.mp h
  exact calm_cons hslash hstar rest

/-- The block at the front of a text. -/
lemma block?_split {t body rest : Text} (h : block? t = some (body, rest)) :
    t = body ++ rest ∧ Closes body ∧ Calm body ∧ body.getLast? = some '\x7d' := by
  unfold block? at h
  split_ifs at h with hopen
  obtain ⟨hsplit, hcloses, hhead, hlast⟩ :=
    bracketed?_split (k := '\x7d') h (by simpa using hopen) (by decide)
  exact ⟨hsplit, hcloses, calm_of_head? hhead (by decide) (by decide), hlast⟩

/-- A semicolon that is passed over with the blanks in front of it. -/
lemma skipSemicolon_closes (t : Text) :
    ∃ tail, t = tail ++ skipSemicolon t ∧ Closes tail ∧ Calm tail
    ∧ (tail = [] ∨ tail.getLast? = some ';') := by
  unfold skipSemicolon
  cases hafter : after? [';'] (skipIndent t) with
  | none => exact ⟨[], rfl, closes_nil, ⟨by simp, by simp⟩, Or.inl rfl⟩
  | some rest =>
    obtain ⟨indent, hindent, hsplit, -⟩ := dropWhile_split isIndent t
    have hblanks : ∀ c ∈ indent, isBlank c = true := fun c hc => isBlank_of_isIndent (hindent c hc)
    have hsemicolon : Calm [';'] := calm_cons (by decide) (by decide) []
    refine ⟨indent ++ [';'], ?_, ?_, calm_blanks_append hblanks hsemicolon,
      Or.inr List.getLast?_concat⟩
    · rw [List.append_assoc, Option.getD_some, ← after?_eq_some_iff.mp hafter]
      exact hsplit
    · exact (closes_of_blanks hblanks).append hsemicolon
        (closes_of_inert (by unfold Bare; decide) (by unfold Unbracketed; decide))

/-- The text of a function and its semicolon. -/
lemma endsFunction_append {u tail : Text} (hu : EndsFunction u)
    (htail : tail = [] ∨ tail.getLast? = some ';') : EndsFunction (u ++ tail) := by
  rcases htail with rfl | hlast
  · rwa [List.append_nil]
  · obtain ⟨init, rfl⟩ := List.getLast?_eq_some_iff.mp hlast
    exact ⟨u ++ init, ';', by rw [List.append_assoc], by decide⟩

/-- **The parameters and the body of a function close what they open.** -/
lemma function_split {t params body rest rest' : Text} (hopen : t.head? = some '(')
    (hparams : bracketed? t = some (params, rest))
    (hbody : block? (rest.dropWhile isGap) = some (body, rest')) :
    ∃ piece, t = piece ++ rest' ∧ Closes piece ∧ Calm piece ∧ piece.getLast? = some '\x7d' := by
  obtain ⟨hsplit, hcloses, hhead, -⟩ := bracketed?_split (k := ')') hparams hopen (by decide)
  obtain ⟨gap, hgap, hrest, -⟩ := dropWhile_split isGap rest
  obtain ⟨hblock, hcloses', hcalm, hlast⟩ := block?_split hbody
  have hblanks : ∀ c ∈ gap, isBlank c = true := fun c hc => isBlank_of_isGap (hgap c hc)
  have hne : body ≠ [] := by
    rintro rfl
    cases hlast
  refine ⟨params ++ (gap ++ body), ?_, ?_, ?_, ?_⟩
  · rw [hsplit, hrest, hblock]
    simp only [List.append_assoc]
  · exact hcloses.append (calm_blanks_append hblanks hcalm)
      ((closes_of_blanks hblanks).append hcalm hcloses')
  · refine calm_of_head? (c := '(') ?_ (by decide) (by decide)
    rw [List.head?_append, hhead]
    rfl
  · rw [List.getLast?_append_of_ne_nil _ (by simp [hne]),
      List.getLast?_append_of_ne_nil _ hne, hlast]

/-- The parenthesis in which a function is wrapped, with the white space in front of it. -/
lemma unwrap?_split {t rest : Text} (h : unwrap? t = some rest) :
    ∃ gap, (∀ c ∈ gap, isBlank c = true) ∧ t = gap ++ ')' :: rest := by
  unfold unwrap? at h
  split at h
  · next rest' hclose =>
    split_ifs at h
    obtain rfl := Option.some.inj h
    obtain ⟨gap, hgap, hsplit, -⟩ := dropWhile_split isGap t
    exact ⟨gap, fun c hc => isBlank_of_isGap (hgap c hc), by rw [← hclose]; exact hsplit⟩
  · cases h

/-- **The text of a function expression closes what it opens.** -/
lemma FunctionHead.closes {t name declaration rest : Text} {h : FunctionHead}
    (hh : functionHead? t = some h) (hn : namedFunction? h name = some (declaration, rest)) :
    ∃ source, t = source ++ rest ∧ EndsFunction source ∧ Closes source := by
  unfold namedFunction? at hn
  split at hn
  · next params behind hparams =>
    split at hn
    · next body behind' hbody =>
      dsimp only at hn
      obtain ⟨last, hlast, heq⟩ := Option.map_eq_some_iff.mp hn
      obtain ⟨-, rfl⟩ := Prod.mk.inj heq
      obtain ⟨piece, hpiece, hcloses, hcalm, hbrace⟩ :=
        function_split (functionHead?_eq_some hh).2.1 hparams hbody
      obtain ⟨tail, htail, hcloses', hcalm', hsemicolon⟩ := skipSemicolon_closes last
      rcases functionHead?_leadsTo hh with ⟨hwrapped, u, rfl, front, hbare, hbrackets, hu⟩ |
        ⟨hwrapped, front, hbare, hbrackets, ht⟩
      · rw [hwrapped, if_pos rfl] at hlast
        obtain ⟨gap, hgap, hbehind⟩ := unwrap?_split hlast
        have hinner : Closes (front ++ piece ++ gap) :=
          ((closes_of_inert hbare hbrackets).append hcalm hcloses).append (calm_of_blanks hgap)
            (closes_of_blanks hgap)
        refine ⟨'(' :: (front ++ piece ++ gap ++ [')']) ++ tail, ?_,
          endsFunction_append ?_ hsemicolon, ?_⟩
        · rw [hu, hpiece, hbehind]
          nth_rewrite 1 [htail]
          simp only [List.append_assoc, List.cons_append, List.nil_append]
        · exact ⟨'(' :: (front ++ piece ++ gap), ')', rfl, by decide⟩
        · exact (hinner.bracketed rfl).append hcalm' hcloses'
      · rw [hwrapped, if_neg (by decide)] at hlast
        obtain rfl := Option.some.inj hlast
        obtain ⟨init, hinit⟩ := List.getLast?_eq_some_iff.mp hbrace
        refine ⟨front ++ piece ++ tail, ?_, endsFunction_append ?_ hsemicolon, ?_⟩
        · rw [ht, hpiece, List.append_assoc, List.append_assoc, ← htail]
        · exact ⟨front ++ init, '\x7d', by rw [hinit, List.append_assoc], by decide⟩
        · exact ((closes_of_inert hbare hbrackets).append hcalm hcloses).append hcalm' hcloses'
    · cases hn
  · cases hn

/-- The arrow with its white space in front of the body. -/
lemma arrowBody?_split {t body : Text} (h : arrowBody? t = some body) :
    ∃ sign, Closes sign ∧ Calm sign ∧ t = sign ++ body := by
  unfold arrowBody? at h
  split at h
  · next cs hword =>
    obtain rfl := Option.some.inj h
    obtain ⟨t', ht', hcs⟩ := wordThenBlanks?_eq_some_iff.mp hword
    obtain ⟨gap, hgap, hsplit, -⟩ := dropWhile_split isBlank t
    obtain ⟨gap', hgap', hsplit', -⟩ := dropWhile_split isBlank t'
    have harrow : Closes "=>".toList :=
      closes_of_inert (by unfold Bare; decide) (by unfold Unbracketed; decide)
    have hcalm : Calm ("=>".toList ++ gap') := calm_cons (by decide) (by decide) _
    refine ⟨gap ++ ("=>".toList ++ gap'), ?_, calm_blanks_append hgap hcalm, ?_⟩
    · exact (closes_of_blanks hgap).append hcalm
        (harrow.append (calm_of_blanks hgap') (closes_of_blanks hgap'))
    · rw [List.append_assoc, List.append_assoc, hcs, skipBlanks, ← hsplit', ← ht']
      exact hsplit
  · cases h

/-- The parameters of an arrow function, and what follows them. -/
lemma arrowParams?_split {t params rest : Text} (h : arrowParams? t = some (params, rest)) :
    Calm params ∧ t = params ++ rest := by
  unfold arrowParams? at h
  split at h
  · next cs =>
    split at h
    · next c rest' hrest =>
      obtain ⟨rfl, rfl⟩ := Prod.mk.inj (Option.some.inj h)
      obtain ⟨-, -, -, hstop⟩ := dropWhile_split (· != ')') cs
      obtain rfl : c = ')' := by simpa using hstop c rest' hrest
      refine ⟨calm_cons (by decide) (by decide) _, ?_⟩
      have htake : cs.takeWhile (· != ')') ++ ')' :: rest' = cs := by
        rw [← hrest]
        exact List.takeWhile_append_dropWhile
      rw [List.append_assoc, List.singleton_append, List.cons_append, htake]
    · cases h
  · obtain ⟨hproper, hsplit, -⟩ := name?_eq_some_iff.mp h
    obtain ⟨c, cs, rfl⟩ := List.exists_cons_of_ne_nil hproper.ne_nil
    have hname := hproper.forall_isNameChar c List.mem_cons_self
    refine ⟨calm_cons ?_ ?_ cs, hsplit⟩
    · rintro rfl
      exact absurd hname (by decide)
    · rintro rfl
      exact absurd hname (by decide)

/-- **The text of an async arrow function closes what it opens if its parameters do.** -/
lemma asyncArrow?_closes {t params body body' rest : Text} (h : asyncArrow? t = some (params, body))
    (hbody : block? body = some (body', rest)) :
    ∃ source, t = source ++ skipSemicolon rest ∧ EndsFunction source
      ∧ (Closes params → Closes source) := by
  obtain ⟨inner, hword, harrow⟩ := Option.bind_eq_some_iff.mp h
  obtain ⟨t', rfl, rfl⟩ := wordThenBlanks?_eq_some_iff.mp hword
  obtain ⟨gap, hgap, hsplit, -⟩ := dropWhile_split isBlank t'
  unfold arrow? at harrow
  split at harrow
  · next params' behind hparams =>
    obtain ⟨_, hsigned, heq⟩ := Option.map_eq_some_iff.mp harrow
    obtain ⟨rfl, rfl⟩ := Prod.mk.inj heq
    obtain ⟨hcalm, hinner⟩ := arrowParams?_split hparams
    obtain ⟨sign, hcloses, hcalm', hbehind⟩ := arrowBody?_split hsigned
    obtain ⟨hblock, hcloses', hcalm'', hbrace⟩ := block?_split hbody
    obtain ⟨tail, htail, hcloses'', hcalm''', hsemicolon⟩ := skipSemicolon_closes rest
    obtain ⟨init, hinit⟩ := List.getLast?_eq_some_iff.mp hbrace
    refine ⟨"async".toList ++ gap ++ params' ++ sign ++ body' ++ tail, ?_,
      endsFunction_append ⟨_, '\x7d', by rw [hinit, ← List.append_assoc], by decide⟩ hsemicolon, ?_⟩
    · simp only [List.append_assoc]
      rw [← htail, ← hblock, ← hbehind, ← hinner]
      exact congrArg _ hsplit
    · intro hclosed
      have hasync : Closes "async".toList :=
        closes_of_inert (by unfold Bare; decide) (by unfold Unbracketed; decide)
      have hspaced := hasync.append (calm_of_blanks hgap) (closes_of_blanks hgap)
      exact (((hspaced.append hcalm hclosed).append hcalm' hcloses).append hcalm''
        hcloses').append hcalm''' hcloses''
  · cases harrow

/-! ## The end of the statement -/

/-- **A function that is exported is the whole value of its statement, comments and white space
aside, exactly when the statement is over by then, nothing but trivia follows in the text, or what
follows ends the statement.** The text that was read for the function always closes what it opens if
it is a function expression, and if the parameters do when it is an async arrow. Otherwise the
brackets that it leaves open have to be none for the statement to end, and it has to end in code. -/
theorem inlineFunction?_whole_iff {content name declaration rest : Text} {start stop : Nat}
    (h : inlineFunction? (content.drop start) name = some (declaration, rest))
    (hstop : stop = content.length - rest.length) :
    ((functionHead? (content.drop start) = none →
        ∀ params body, asyncArrow? (content.drop start) = some (params, body) → Closes params) →
      Closes (content.slice start stop))
    ∧ (modeAfter .code (content.slice start stop) = .code →
      (isTrivia (content.slice stop (statementEnd content start).1) = true
        ↔ (statementEnd content start).1 ≤ stop ∨ isTrivia rest = true
          ∨ (bracketDepth (content.slice start stop) = 0 ∧ endsStatement rest = true))) := by
  have hsource : ∃ source, content.drop start = source ++ rest ∧ EndsFunction source
      ∧ ((functionHead? (content.drop start) = none →
        ∀ params body, asyncArrow? (content.drop start) = some (params, body) → Closes params) →
        Closes source) := by
    unfold inlineFunction? at h
    split at h
    · next head hhead =>
      obtain ⟨source, hsplit, hends, hcloses⟩ := FunctionHead.closes hhead h
      exact ⟨source, hsplit, hends, fun _ => hcloses⟩
    · next hnone =>
      split at h
      · next params body harrow =>
        obtain ⟨⟨body', behind⟩, hbody, heq⟩ := Option.map_eq_some_iff.mp h
        obtain ⟨-, rfl⟩ := Prod.mk.inj heq
        obtain ⟨source, hsplit, hends, hcloses⟩ := asyncArrow?_closes harrow hbody
        exact ⟨source, hsplit, hends, fun hparams => hcloses (hparams hnone params body harrow)⟩
      · cases h
  obtain ⟨source, hsplit, hends, hcloses⟩ := hsource
  have hne : source ≠ [] := by
    obtain ⟨u, c, rfl, -⟩ := hends
    simp
  -- the text in front of the function
  obtain ⟨front, rfl, rfl⟩ : ∃ front, content = front ++ (source ++ rest)
    ∧ start = front.length := by
    refine ⟨content.take start, by rw [← hsplit, List.take_append_drop], ?_⟩
    have hlength := congrArg List.length hsplit
    rw [List.length_drop, List.length_append] at hlength
    have hpos := List.length_pos_iff.mpr hne
    rw [List.length_take]
    omega
  obtain rfl : stop = front.length + source.length := by
    rw [hstop, List.length_append, List.length_append]
    omega
  rw [slice_append]
  exact ⟨hcloses, fun hmode => (hends.complete hmode).isTrivia_iff front rest⟩

/-- A function with a comment behind it, and another statement below. -/
def commentedFunction : Text :=
  "exports.f = async function (a) \x7b\n  return a;\n\x7d // done\nnext();\n".toList

/-- Between the end of the function and that of its statement there is only a comment. -/
theorem inlineFunction?_whole_iff_commented : ∃ declaration,
    inlineFunction? (commentedFunction.drop 12) "f".toList =
        some (declaration, " // done\nnext();\n".toList)
      ∧ Closes (commentedFunction.slice 12 46)
      ∧ commentedFunction.slice 46 (statementEnd commentedFunction 12).1 = " // done".toList
      ∧ isTrivia (commentedFunction.slice 46 (statementEnd commentedFunction 12).1) = true := by
  have htext : commentedFunction = _ := String.toList_ofList
  have hread : inlineFunction? (commentedFunction.drop 12) "f".toList = some
      ("async function f(a) \x7b\n  return a;\n\x7d".toList, " // done\nnext();\n".toList) := by
    rw [htext]
    decide
  have hhead : (functionHead? (commentedFunction.drop 12)).isSome = true := by
    rw [htext]
    decide
  have hstop : 46 = commentedFunction.length - " // done\nnext();\n".toList.length := by
    rw [htext]
    decide
  obtain ⟨hcloses, hiff⟩ := inlineFunction?_whole_iff hread hstop
  have hclosed : Closes (commentedFunction.slice 12 46) := by
    refine hcloses fun hnone => ?_
    rw [hnone] at hhead
    cases hhead
  refine ⟨_, hread, hclosed, ?_, (hiff hclosed.mode).mpr (Or.inr (Or.inr ⟨hclosed.depth, ?_⟩))⟩
  · rw [htext]
    decide
  · decide

/-- A function of which a method is called. -/
def boundFunction : Text :=
  "exports.f = function () \x7b\x7d.bind(this);\n".toList

/-- **A call behind the function is left dangling**: the function becomes a declaration, and the
access to its method stands behind it. -/
theorem inlineFunction?_dangling :
    inlineFunction? (boundFunction.drop 12) "f".toList =
        some ("function f() \x7b\x7d".toList, ".bind(this);\n".toList)
      ∧ boundFunction.slice 26 (statementEnd boundFunction 12).1 = ".bind(this)".toList
      ∧ isTrivia (boundFunction.slice 26 (statementEnd boundFunction 12).1) = false
      ∧ (InlineExport.readAll boundFunction).map
        (fun e => (writeInline boundFunction e).run.value.toOption) =
        [some "export function f() \x7b\x7d.bind(this);\n".toList] := by
  have htext : boundFunction = _ := String.toList_ofList
  rw [htext]
  decide

end Esmify
