import Esmify.Proofs.DeclarationLines

/-!
# Exported declarations are marked

**An object of declared names is exported by marking the declarations** (`convert_declared`): the
word `export` is put in front of exactly those whose names are listed, the line of the object goes
away, and no warning is raised.

The names are taken in the order of the list, each looked for in the text as it has become. A line
that is marked declares nothing any more, and no other line declares the name (`name_eq_of_match`),
so the declaration is found in its own line (`declaration?_shown`) whatever has been marked
before. -/

namespace Esmify

open Text Source

/-! ## Patterns -/

/-- Behind white space, or a star in it, one name stands. -/
lemma eq_of_gap {gap n name back back' : Text} (hgap : ∀ c ∈ gap, isNameChar c = false)
    (hn : ProperName n) (hname : ProperName name) (hback : outsideName back.head? = true)
    (hback' : outsideName back'.head? = true) (h : ' ' :: (n ++ back) = gap ++ (name ++ back')) :
    n = name := by
  have hends : ∀ {t : Text}, outsideName t.head? = true → ∀ c r, t = c :: r →
      isNameChar c = false := by
    rintro t ht c r rfl
    simpa [outsideName] using ht
  cases gap with
  | nil =>
    have hspace : ' ' ∈ name ++ back' ∧ (name ++ back').head? = some ' ' := by
      rw [List.nil_append] at h
      rw [← h]
      exact ⟨List.mem_cons_self, rfl⟩
    obtain ⟨c, cs, rfl, hc, -⟩ := hname
    rw [List.cons_append, List.head?_cons, Option.some.injEq] at hspace
    rw [hspace.2] at hc
    exact absurd hc (by decide)
  | cons g gap =>
    have hrest := (List.cons.inj h).2
    cases gap with
    | nil =>
      have hsame : n ++ back = name ++ back' := hrest
      have hleft := name?_eq_some_iff.mpr ⟨hn, rfl, hends hback⟩
      rw [hsame, name?_eq_some_iff.mpr ⟨hname, rfl, hends hback'⟩] at hleft
      exact (Prod.mk.inj (Option.some.inj hleft)).1.symm
    | cons g' gap =>
      obtain ⟨c, cs, rfl, hc, -⟩ := hn
      have hg' := hgap g' (by simp)
      rw [← (List.cons.inj hrest).1, isNameChar_of_isNameStart hc] at hg'
      exact absurd hg' (by decide)

/-- There is no character of a name in the gap around a star. -/
lemma StarGap.not_isNameChar {gap : Text} (h : StarGap gap) : ∀ c ∈ gap, isNameChar c = false := by
  intro c hc
  rcases h with hblank | ⟨l, r, hl, hr, rfl⟩
  · exact isNameChar_of_isBlank (hblank c hc)
  · rcases List.mem_append.mp hc with hc | hc
    · exact isNameChar_of_isBlank (hl c hc)
    · rcases List.mem_cons.mp hc with rfl | hc
      · decide
      · exact isNameChar_of_isBlank (hr c hc)

namespace DeclarationLine

variable {d : DeclarationLine} {name rest : Text} {before : Option Char}

/-- The name ends where it is declared. -/
lemma outsideName_mark (d : DeclarationLine) (rest : Text) :
    outsideName (d.declarator.mark ++ (d.tail ++ rest)).head? = true := by
  cases d.declarator
  all_goals rfl

/-- A declaration, as its words one behind the other. -/
lemma text_append (d : DeclarationLine) (rest : Text) :
    d.text ++ rest = d.declarator.word
      ++ (d.name.1 ++ (d.declarator.mark ++ (d.tail ++ rest))) := by
  simp only [Declaration.text, List.append_assoc]

end DeclarationLine

/-- A name behind a space is found, and no other. -/
lemma afterSomeBlanks?_name {n name back : Text} (hn : ProperName n) (hname : ProperName name)
    (hback : outsideName back.head? = true) :
    (afterSomeBlanks? (endedName? name) (' ' :: (n ++ back))).isSome = true ↔ n = name := by
  rw [afterSomeBlanks?_isSome_iff]
  constructor
  · rintro ⟨gap, rest, -, hgap, hsplit, hended⟩
    obtain ⟨back', hback'⟩ := Option.isSome_iff_exists.mp hended
    obtain ⟨rfl, hout⟩ := endedName?_eq_some_iff.mp hback'
    exact eq_of_gap (fun c hc => isNameChar_of_isBlank (hgap c hc)) hn hname hback hout hsplit
  · rintro rfl
    refine ⟨[' '], n ++ back, by simp, by decide, rfl, ?_⟩
    rw [endedName?_eq_some_iff.mpr ⟨rfl, hback⟩]
    rfl

/-- A called name behind a space is found, and no other. -/
lemma rightmost?_calledName {n name back : Text} (hn : ProperName n) (hname : ProperName name) :
    (rightmost? (calledName? name) (starGap (' ' :: (n ++ '(' :: back)))
      (' ' :: (n ++ '(' :: back))).isSome = true ↔ n = name := by
  rw [rightmost?_starGap_isSome_iff]
  constructor
  · rintro ⟨gap, rest, hgap, hsplit, hcalled⟩
    obtain ⟨rest', hrest'⟩ := Option.isSome_iff_exists.mp hcalled
    obtain ⟨spaced, hspaced, hopen⟩ := Option.bind_eq_some_iff.mp hrest'
    obtain ⟨back', rfl, rfl⟩ := wordThenBlanks?_eq_some_iff.mp hspaced
    exact eq_of_gap hgap.not_isNameChar hn hname rfl
      (outsideName_of_skipBlanks (after?_eq_some_iff.mp hopen)) hsplit
  · rintro rfl
    refine ⟨[' '], n ++ '(' :: back, Or.inl (by decide), rfl, ?_⟩
    have hspaced : wordThenBlanks? n (n ++ '(' :: back) = some ('(' :: back) :=
      wordThenBlanks?_eq_some_iff.mpr ⟨_, rfl, (skipBlanks_cons (by decide) back).symm⟩
    rw [calledName?, hspaced]
    rfl

namespace DeclarationLine

variable {d : DeclarationLine} {name rest : Text} {before : Option Char}

/-- What the search for a variable finds in a line. -/
lemma variableDeclaration_text (hname : ProperName name) :
    (variableDeclaration name before (d.text ++ rest)).isSome = true ↔
      beginsLine before = true ∧ d.name.1 = name ∧ ∃ k, d.declarator = .ofKeyword k := by
  have hout := d.outsideName_mark rest
  rw [d.text_append]
  unfold variableDeclaration
  by_cases hbegins : beginsLine before = true
  · rw [if_pos hbegins, Option.isSome_map]
    rcases hd : d.declarator with k | isAsync | _
    · rw [hd] at hout
      have hkeyword : ∀ t, oneOf? variableKeywords (k.1 ++ [' '] ++ t) = some (' ' :: t) := by
        obtain ⟨word, hword⟩ := k
        simp only [variableKeywords, List.mem_cons, List.not_mem_nil, or_false] at hword
        rcases hword with rfl | rfl | rfl
        all_goals exact fun t => rfl
      unfold Declarator.word
      rw [hkeyword, Option.bind_some, afterSomeBlanks?_name d.name.2 hname hout]
      simp [hbegins]
    · have hnone : ∀ t, oneOf? variableKeywords ((Declarator.ofFunction isAsync).word ++ t)
          = none := by
        cases isAsync
        all_goals exact fun t => rfl
      rw [hnone]
      simp
    · have hnone : ∀ t, oneOf? variableKeywords (Declarator.ofClass.word ++ t) = none :=
        fun t => rfl
      rw [hnone]
      simp
  · rw [if_neg hbegins]
    simp [hbegins]

/-- What the search for a class finds in a line. -/
lemma classDeclaration_text (hname : ProperName name) :
    (classDeclaration name before (d.text ++ rest)).isSome = true ↔
      beginsLine before = true ∧ d.name.1 = name ∧ d.declarator = .ofClass := by
  have hout := d.outsideName_mark rest
  rw [d.text_append]
  unfold classDeclaration
  by_cases hbegins : beginsLine before = true
  · rw [if_pos hbegins, Option.isSome_map]
    rcases hd : d.declarator with k | isAsync | _
    · have hnone : ∀ t, after? "class".toList ((Declarator.ofKeyword k).word ++ t) = none := by
        obtain ⟨word, hword⟩ := k
        simp only [variableKeywords, List.mem_cons, List.not_mem_nil, or_false] at hword
        rcases hword with rfl | rfl | rfl
        all_goals exact fun t => rfl
      rw [hnone]
      simp
    · have hnone : ∀ t, after? "class".toList ((Declarator.ofFunction isAsync).word ++ t)
          = none := by
        cases isAsync
        all_goals exact fun t => rfl
      rw [hnone]
      simp
    · rw [hd] at hout
      have hclass : ∀ t, after? "class".toList (Declarator.ofClass.word ++ t) = some (' ' :: t) :=
        fun t => rfl
      rw [hclass, Option.bind_some, afterSomeBlanks?_name d.name.2 hname hout]
      simp [hbegins]
  · rw [if_neg hbegins]
    simp [hbegins]

/-- What the search for a function finds in a line. -/
lemma functionDeclaration_text (hname : ProperName name) :
    (functionDeclaration name before (d.text ++ rest)).isSome = true ↔
      beginsLine before = true ∧ d.name.1 = name ∧ ∃ isAsync,
      d.declarator = .ofFunction isAsync := by
  rw [d.text_append]
  unfold functionDeclaration
  by_cases hbegins : beginsLine before = true
  · rw [if_pos hbegins]
    rcases hd : d.declarator with k | isAsync | _
    · have hnone : ∀ t, after? "function".toList
          (skipSpacedWord "async".toList ((Declarator.ofKeyword k).word ++ t)) = none := by
        obtain ⟨word, hword⟩ := k
        simp only [variableKeywords, List.mem_cons, List.not_mem_nil, or_false] at hword
        rcases hword with rfl | rfl | rfl
        all_goals exact fun t => rfl
      rw [hnone]
      simp
    · have hfunction : ∀ t, after? "function".toList
          (skipSpacedWord "async".toList ((Declarator.ofFunction isAsync).word ++ t)) =
            some (' ' :: t) := by
        cases isAsync
        all_goals exact fun t => rfl
      rw [hfunction]
      dsimp only
      rw [Option.isSome_map]
      exact (rightmost?_calledName d.name.2 hname).trans (by simp [hbegins])
    · have hnone : ∀ t, after? "function".toList
          (skipSpacedWord "async".toList (Declarator.ofClass.word ++ t)) = none := fun t => rfl
      rw [hnone]
      simp
  · rw [if_neg hbegins]
    simp [hbegins]

/-- **A line is found by the name that it declares.** -/
lemma exists_match (d : DeclarationLine) (hbegins : beginsLine before = true) (rest : Text) :
    ∃ p ∈ declarationPatterns d.name.1, (p before (d.text ++ rest)).isSome = true := by
  rcases hd : d.declarator with k | isAsync | _
  · exact ⟨_, by simp [declarationPatterns],
      (variableDeclaration_text d.name.2).mpr ⟨hbegins, rfl, k, hd⟩⟩
  · exact ⟨_, by simp [declarationPatterns],
      (functionDeclaration_text d.name.2).mpr ⟨hbegins, rfl, isAsync, hd⟩⟩
  · exact ⟨_, by simp [declarationPatterns],
      (classDeclaration_text d.name.2).mpr ⟨hbegins, rfl, hd⟩⟩

/-- **A line is found by no other name.** -/
lemma name_eq_of_match {p : Pattern Unit} (hname : ProperName name)
    (hp : p ∈ declarationPatterns name) (h : (p before (d.text ++ rest)).isSome = true) :
    d.name.1 = name := by
  simp only [declarationPatterns, List.mem_cons, List.not_mem_nil, or_false] at hp
  rcases hp with rfl | rfl | rfl
  · exact ((functionDeclaration_text hname).mp h).2.1
  · exact ((variableDeclaration_text hname).mp h).2.1
  · exact ((classDeclaration_text hname).mp h).2.1

end DeclarationLine

/-! ## Where a declaration is found -/

section marking

variable {ended : Bool} {done : List Text} {decls : List DeclarationLine} {names : List Name}

/-- A line of the text that declares a name is one that is not marked. -/
lemma exists_line_of_pattern {name front back : Text} {p : Pattern Unit} (hname : ProperName name)
    (hp : p ∈ declarationPatterns name)
    (hsplit : declaredText ended done decls names = front ++ back)
    (h : (p front.getLast? back).isSome = true) :
    ∃ above d below, decls = above ++ d :: below ∧ d.name.1 = name
      ∧ front = shownLines done above := by
  obtain ⟨hbegins, head, back', hback, hhead, -⟩ := declares_of_pattern hp h
  obtain ⟨c, cs, rfl, hc⟩ := hhead.exists_cons
  have hbreak : ∀ line ∈ decls.map (DeclarationLine.shown done) ++ [exportLine names],
      '\n' ∉ line := by
    intro line hline
    rcases List.mem_append.mp hline with hline | hline
    · obtain ⟨d, -, rfl⟩ := List.mem_map.mp hline
      exact d.break_not_mem_shown done
    · rw [List.mem_singleton.mp hline]
      exact break_not_mem_exportLine names
  obtain ⟨above, line, below, hlines, hfront, hline⟩ :=
    exists_line_of_beginsLine hbreak hsplit hbegins (by rw [hback]; simp)
  -- neither the last line nor a marked one begins like a declaration
  have hletter : ∀ {x : Char} {t : Text}, line ++ lineTail ended below = x :: t →
      x ∈ "afclv".toList := by
    intro x t ht
    rw [← hline, hback] at ht
    exact (List.cons.inj ht).1 ▸ hc
  rcases line_cases_declared hlines with ⟨-, rfl, -⟩ | ⟨a, d, b, rfl, rfl, rfl⟩
  · exact absurd (hletter (x := 'm') rfl) (by decide)
  · refine ⟨a, d, b, rfl, ?_, hfront⟩
    unfold DeclarationLine.shown shownAs at hline hletter
    split_ifs at hline hletter with hdone
    · exact absurd (hletter (x := 'e') rfl) (by decide)
    · rw [hline] at h
      exact DeclarationLine.name_eq_of_match hname hp h

/-- **A declaration is found in its own line**, whatever has been marked before. -/
lemma declaration?_shown (ended : Bool) (names : List Name) {above below : List DeclarationLine}
    {d : DeclarationLine} (hdecls : decls = above ++ d :: below)
    (hnodup : (decls.map (·.name.1)).Nodup) (hd : d.name.1 ∉ done) :
    ∃ o, declaration? (declaredText ended done decls names) d.name.1 = some o
      ∧ o.start = (shownLines done above).length := by
  have htext : declaredText ended done decls names = shownLines done above ++
      (d.text ++ lineTail ended (below.map (DeclarationLine.shown done)
        ++ [exportLine names])) := by
    rw [declaredText, hdecls, List.map_append, List.map_cons, List.append_assoc, List.cons_append,
      linesText_append_cons, show d.shown done = d.text from if_neg hd]
  obtain ⟨p, hp, hmatch⟩ := d.exists_match (beginsLine_linesText _)
    (lineTail ended (below.map (DeclarationLine.shown done) ++ [exportLine names]))
  obtain ⟨o, ho⟩ := Option.isSome_iff_exists.mp
    (isSome_declaration? hp (holdsSomewhere_iff.mpr ⟨_, _, htext, hmatch⟩))
  refine ⟨o, ho, ?_⟩
  obtain ⟨p', hp', hfirst⟩ := exists_of_declaration? ho
  obtain ⟨front, back, rest, hsplit, hstart, hfound⟩ := first?_eq_some hfirst
  obtain ⟨above', d', below', hdecls', hname, rfl⟩ := exists_line_of_pattern d.name.2 hp' hsplit
    (Option.isSome_iff_exists.mpr ⟨_, hfound⟩)
  obtain ⟨rfl, -, -⟩ := eq_of_nodup_key (fun d : DeclarationLine => d.name.1)
    (by rw [← hdecls]; exact hnodup) (hdecls.symm.trans hdecls') hname.symm
  exact hstart

/-- Once its name is done, a declaration is marked, and the other lines are as before. -/
lemma declaredText_cons {above below : List DeclarationLine} {d : DeclarationLine}
    (hdecls : decls = above ++ d :: below) (hnodup : (decls.map (·.name.1)).Nodup) :
    declaredText ended (d.name.1 :: done) decls names = shownLines done above ++
      ("export ".toList ++ d.text ++
        lineTail ended (below.map (DeclarationLine.shown done) ++ [exportLine names])) := by
  have hshown : decls.map (DeclarationLine.shown (d.name.1 :: done)) =
      above.map (DeclarationLine.shown done) ++ ("export ".toList ++ d.text) ::
        below.map (DeclarationLine.shown done) :=
    map_done_cons (fun d : DeclarationLine => d.name.1) (fun d => "export ".toList ++ d.text)
      (fun d => d.text) done hdecls hnodup
  rw [declaredText, hshown, List.append_assoc, List.cons_append, linesText_append_cons]

/-- **Marking declarations one after the other** marks exactly those, and nothing is imported. -/
lemma promoteDeclared_shown (ended : Bool) (done : List Text) (names : List Name)
    (hnodup : (decls.map (·.name.1)).Nodup) {ns : List Name}
    (hdeclared : ∀ n ∈ ns, ∃ d ∈ decls, d.name = n) (hns : (ns.map Subtype.val).Nodup)
    (hdone : ∀ n ∈ ns, n.1 ∉ done) :
    promoteDeclared (declaredText ended done decls names) (ns.map Subtype.val) =
      ⟨(declaredText ended ((ns.map Subtype.val).reverse ++ done) decls names, []), []⟩ := by
  induction ns generalizing done with
  | nil => rfl
  | cons n ns ih =>
    obtain ⟨d, hd, rfl⟩ := hdeclared n List.mem_cons_self
    obtain ⟨above, below, hdecls⟩ := List.append_of_mem hd
    rw [List.map_cons, List.nodup_cons] at hns
    obtain ⟨o, ho, hstart⟩ := declaration?_shown ended names hdecls hnodup
      (hdone _ List.mem_cons_self)
    have hmarked : (declaredText ended done decls names).insertAt o.start "export ".toList =
        declaredText ended (d.name.1 :: done) decls names := by
      rw [declaredText_cons hdecls hnodup, hstart, declaredText, hdecls, List.map_append,
        List.map_cons, List.append_assoc, List.cons_append, linesText_append_cons,
        show d.shown done = d.text from if_neg (hdone _ List.mem_cons_self), insertAt, splice,
        List.take_left, List.drop_left]
      simp only [List.append_assoc]
    have hrest := ih (d.name.1 :: done) (fun n hn => hdeclared n (List.mem_cons_of_mem _ hn))
      hns.2 (by
        intro n hn hmem
        rcases List.mem_cons.mp hmem with heq | hmem
        · exact hns.1 (List.mem_map.mpr ⟨n, hn, heq⟩)
        · exact hdone n (List.mem_cons_of_mem _ hn) hmem)
    rw [List.map_cons, promoteDeclared, ho]
    dsimp only
    rw [hmarked, hrest]
    simp

/-! ## The promotion -/

/-- Marking is all that is done for declared names. -/
lemma run_promoteProperties_declared (ended : Bool) (hnodup : (decls.map (·.name.1)).Nodup)
    (hdeclared : ∀ n ∈ names, ∃ d ∈ decls, d.name = n) (hnames : (names.map Subtype.val).Nodup)
    (raw : Text) :
    (promoteProperties (declaredText ended [] decls names) raw (names.map Subtype.val)).run =
      ⟨.ok (declaredText ended (names.map Subtype.val).reverse decls names), []⟩ := by
  have hmarked := promoteDeclared_shown ended [] names hnodup hdeclared
    hnames (by simp)
  rw [List.append_nil] at hmarked
  exact run_promoteProperties_of_declared hmarked raw

end marking

/-! ## The whole conversion -/

/-- **Exporting declarations marks them.** Of declarations on lines of their own, with distinct
names, those that the last line lists get the word `export` in front of them, in whatever order they
are listed; the last line goes away, and no warning is raised. -/
theorem convert_declared (ended : Bool) (decls : List DeclarationLine) (names : List Name)
    (hnodup : (decls.map (·.name.1)).Nodup) (hne : names ≠ [])
    (hnames : (names.map Subtype.val).Nodup) (hdeclared : ∀ n ∈ names, ∃ d ∈ decls, d.name = n)
    (path : Option Text) (config : Config) (index : Option DefaultIndex) :
    (convert (linesText ended (decls.map (·.text) ++ [exportLine names])) path config index).run =
      ⟨.ok (linesText true (decls.map (DeclarationLine.shown (names.map Subtype.val)))), []⟩ := by
  have hstart : linesText ended (decls.map (·.text) ++ [exportLine names]) =
      declaredText ended [] decls names := by
    have hshown : DeclarationLine.shown [] = fun d => d.text := by
      funext d
      simp [DeclarationLine.shown, shownAs]
    rw [declaredText, hshown]
  have hend : shownLines (names.map Subtype.val).reverse decls =
      linesText true (decls.map (DeclarationLine.shown (names.map Subtype.val))) := by
    have hshown : DeclarationLine.shown (names.map Subtype.val).reverse =
        DeclarationLine.shown (names.map Subtype.val) := by
      funext d
      simp only [DeclarationLine.shown, shownAs, List.mem_reverse]
    rw [shownLines, hshown]
  have hquiet : ∀ done, ∀ line ∈ decls.map (DeclarationLine.shown done), QuietLine line := by
    intro done line hline
    obtain ⟨d, -, rfl⟩ := List.mem_map.mp hline
    exact d.quiet_shown done
  rw [hstart, ← hend, run_convert_of_exports noCall_declaredText
      (read_exporting ended hne (hquiet []) config.experimental) rfl path index]
  exact run_write_exporting (hquiet _)
    (run_promoteProperties_declared ended hnodup hdeclared hnames _) _

/-- The letter is a name. -/
lemma properName_a : ProperName "a".toList :=
  ⟨'a', [], rfl, by decide, by decide⟩

/-- Two letters are a name. -/
lemma properName_ab : ProperName "ab".toList :=
  ⟨'a', ['b'], rfl, by decide, by decide⟩

/-- Three declarations: one name begins with another, and one is a dollar sign. -/
def prefixedDeclarations : List DeclarationLine :=
  [⟨⟨.ofKeyword ⟨"const".toList, by decide⟩, ⟨"ab".toList, properName_ab⟩,
      "1;".toList⟩, by decide, by decide, by decide⟩,
    ⟨⟨.ofFunction true, ⟨"a".toList, properName_a⟩, ") \x7b\x7d".toList⟩,
      by decide, by decide, by decide⟩,
    ⟨⟨.ofClass, ⟨"$".toList, '$', [], rfl, by decide, by decide⟩, "extends ab \x7b\x7d".toList⟩,
      by decide, by decide, by decide⟩]

/-- The last and the first of them. -/
def prefixedNames : List Name :=
  [⟨"$".toList, '$', [], rfl, by decide, by decide⟩,
    ⟨"ab".toList, properName_ab⟩]

example : linesText false (prefixedDeclarations.map (·.text) ++ [exportLine prefixedNames]) =
    ("const ab = 1;\nasync function a() \x7b\x7d\nclass $ extends ab \x7b\x7d\n" ++
      "module.exports = \x7b $, ab \x7d;").toList := by
  decide

/-- The listed names are exported at their declarations, and the function whose name begins one of
them is not. -/
theorem convert_declared_prefixed :
    ((prefixedDeclarations.map (·.name.1)).Nodup ∧ prefixedNames ≠ []
      ∧ (prefixedNames.map Subtype.val).Nodup
      ∧ ∀ n ∈ prefixedNames, ∃ d ∈ prefixedDeclarations, d.name = n) ∧
    (convert (linesText false (prefixedDeclarations.map (·.text) ++ [exportLine prefixedNames]))
        none {} none).run =
      ⟨.ok ("export const ab = 1;\nasync function a() \x7b\x7d\n" ++
        "export class $ extends ab \x7b\x7d\n").toList, []⟩ := by
  have hnodup : (prefixedDeclarations.map (·.name.1)).Nodup := by decide
  have hne : prefixedNames ≠ [] := by decide
  have hnames : (prefixedNames.map Subtype.val).Nodup := by decide
  have hdeclared : ∀ n ∈ prefixedNames, ∃ d ∈ prefixedDeclarations, d.name = n := by decide
  have hshown : linesText true
      (prefixedDeclarations.map (DeclarationLine.shown (prefixedNames.map Subtype.val))) =
      ("export const ab = 1;\nasync function a() \x7b\x7d\n" ++
        "export class $ extends ab \x7b\x7d\n").toList := by
    decide
  refine ⟨⟨hnodup, hne, hnames, hdeclared⟩, ?_⟩
  rw [convert_declared false prefixedDeclarations prefixedNames hnodup hne hnames hdeclared
    none {} none, hshown]

end Esmify
