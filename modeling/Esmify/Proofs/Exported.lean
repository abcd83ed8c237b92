import Esmify.Proofs.Declared

/-!
# What exports a name

The recogniser of exports as a grammar. **An export of a name** is a declaration behind the word
`export`, a list between braces with the name in it, or a module exported as a whole
(`NamedExport`); a declaration that is the default export counts as well (`ExportText`).
`isExported_iff` says that a text exports a name exactly when one of these stands at the start of a
line. **Marking a declaration exports its name** (`isExported_mark`), since what stands in front of
the name in a declaration may also stand behind the word `export`.

The grammar keeps the text of an export apart from the character that follows it: of what stands
behind an export only that character matters, and only to end the name. -/

namespace Esmify

open Text Source

/-! ## Exports -/

/-- An export of a name under that name, when the character `next` follows it: a declaration behind
the word `export`, a list with the name at the end of one of its items, or a module as a whole. -/
inductive NamedExport (name : Text) : Text → Option Char → Prop
  | declared {gap head : Text} {next : Option Char} : gap ≠ [] → (∀ c ∈ gap, isBlank c = true) →
    DeclarationHead head → outsideName next = true →
    NamedExport name ("export".toList ++ (gap ++ (head ++ name))) next
  | listed {gap items ending : Text} {close : Char} {next : Option Char} :
    (∀ c ∈ gap, isBlank c = true) → '\x7d' ∉ items → outsideName items.getLast? = true →
    (∀ c ∈ ending, isBlank c = true) → close = ',' ∨ close = '\x7d' →
    NamedExport name
      ("export".toList ++ (gap ++ '\x7b' :: (items ++ (name ++ (ending ++ [close]))))) next
  | whole {gap star as : Text} {next : Option Char} : gap ≠ [] → (∀ c ∈ gap, isBlank c = true) →
    star ≠ [] → (∀ c ∈ star, isBlank c = true) → as ≠ [] → (∀ c ∈ as, isBlank c = true) →
    outsideName next = true →
    NamedExport name ("export".toList ++ (gap ++ '*' :: (star ++ ("as".toList ++ (as ++ name)))))
      next

/-- An export of a name, when the character `next` follows it: one under that name, or a declaration
of the name that is the default export. -/
inductive ExportText (name : Text) : Text → Option Char → Prop
  | named {u : Text} {next : Option Char} : NamedExport name u next → ExportText name u next
  | preset {gap space head : Text} {next : Option Char} : gap ≠ [] → (∀ c ∈ gap, isBlank c = true) →
    space ≠ [] → (∀ c ∈ space, isBlank c = true) → DeclarationHead head → outsideName next = true →
    ExportText name ("export".toList ++ (gap ++ ("default".toList ++ space ++ (head ++ name)))) next

/-- The word `export` is read with the white space behind it, up to the declaration. -/
lemma spacedWord?_export {gap preset head : Text} (hne : gap ≠ [])
    (hgap : ∀ c ∈ gap, isBlank c = true) (hpreset : OptionalWord "default".toList preset)
    (hhead : DeclarationHead head) (t : Text) :
    spacedWord? "export".toList ("export".toList ++ (gap ++ (preset ++ (head ++ t)))) =
      some (preset ++ (head ++ t)) := by
  obtain ⟨c, cs, rfl, hletter⟩ := hhead.exists_cons
  have hc : isBlank c = false := (by decide : ∀ d ∈ "afclv".toList, isBlank d = false) c hletter
  refine spacedWord?_eq_some_iff.mpr ⟨gap, hne, hgap, rfl, ?_⟩
  intro d r hd
  rcases hpreset with rfl | ⟨ws, -, -, rfl⟩
  · rwa [← (List.cons.inj hd).1]
  · rw [← (List.cons.inj hd).1]
    decide

/-- An exported declaration is recognised exactly where its text stands. -/
lemma exportedDeclaration?_isSome_iff {name t : Text} :
    (exportedDeclaration? name t).isSome = true ↔
      ∃ gap preset head back, gap ≠ [] ∧ (∀ c ∈ gap, isBlank c = true)
        ∧ OptionalWord "default".toList preset ∧ DeclarationHead head
        ∧ outsideName back.head? = true
        ∧ t = "export".toList ++ (gap ++ (preset ++ (head ++ (name ++ back)))) := by
  constructor
  · intro h
    unfold exportedDeclaration? at h
    cases hspaced : spacedWord? "export".toList t with
    | none =>
      rw [hspaced] at h
      cases h
    | some rest =>
      simp only [hspaced] at h
      obtain ⟨gap, hne, hgap, rfl, -⟩ := spacedWord?_eq_some_iff.mp hspaced
      obtain ⟨preset, hpreset, hrest⟩ := skipSpacedWord_split "default".toList rest
      obtain ⟨modifier, hmodifier, hrest'⟩ :=
        skipSpacedWord_split "async".toList (skipSpacedWord "default".toList rest)
      rw [hrest'] at hrest
      generalize skipSpacedWord "async".toList (skipSpacedWord "default".toList rest) = r at h hrest
      cases hafter : after? "function".toList r with
      | some tail =>
        simp only [hafter] at h
        obtain ⟨ws, named, hws, rfl, hnamed⟩ := rightmost?_starGap_isSome_iff.mp h
        obtain ⟨back, hback⟩ := Option.isSome_iff_exists.mp hnamed
        obtain ⟨rfl, hout⟩ := endedName?_eq_some_iff.mp hback
        refine ⟨gap, preset, _, back, hne, hgap, hpreset, .function hmodifier hws, hout, ?_⟩
        rw [hrest, after?_eq_some_iff.mp hafter]
        simp only [List.append_assoc]
      | none =>
        simp only [hafter] at h
        obtain ⟨rest', hbind⟩ := Option.isSome_iff_exists.mp h
        obtain ⟨tail, hone, htail⟩ := Option.bind_eq_some_iff.mp hbind
        obtain ⟨word, hword, rfl⟩ := oneOf?_eq_some hone
        obtain ⟨ws, named, hws, rfl, hnamed⟩ :=
          afterBlanks?_isSome_iff.mp (Option.isSome_iff_exists.mpr ⟨_, htail⟩)
        obtain ⟨back, hback⟩ := Option.isSome_iff_exists.mp hnamed
        obtain ⟨rfl, hout⟩ := endedName?_eq_some_iff.mp hback
        refine ⟨gap, preset, _, back, hne, hgap, hpreset, .keyword hmodifier hword hws, hout, ?_⟩
        rw [hrest]
        simp only [List.append_assoc]
  · rintro ⟨gap, preset, head, back, hne, hgap, hpreset, hhead, hout, rfl⟩
    have hnamed : (endedName? name (name ++ back)).isSome = true :=
      Option.isSome_iff_exists.mpr ⟨back, endedName?_eq_some_iff.mpr ⟨rfl, hout⟩⟩
    unfold exportedDeclaration?
    simp only [spacedWord?_export hne hgap hpreset hhead]
    cases hhead with
    | function hmodifier hws =>
      rw [List.append_assoc, List.append_assoc,
        skip_modifiers hpreset hmodifier List.mem_cons_self, after?_eq_some_iff.mpr rfl]
      exact rightmost?_starGap_isSome_iff.mpr ⟨_, _, hws, rfl, hnamed⟩
    | keyword hmodifier hword hws =>
      obtain ⟨hnone, hone⟩ := after?_keyword hword (_ ++ (name ++ back))
      rw [List.append_assoc, List.append_assoc,
        skip_modifiers hpreset hmodifier (List.mem_cons_of_mem _ hword), hnone]
      simp only [hone, Option.bind_some]
      exact afterBlanks?_isSome_iff.mpr ⟨_, _, hws, rfl, hnamed⟩

/-- The name at the front of a text is the end of an item of a list. -/
def EndsItem (name t : Text) : Prop :=
  ∃ ending close back, (∀ c ∈ ending, isBlank c = true) ∧ (close = ',' ∨ close = '\x7d')
    ∧ t = name ++ (ending ++ close :: back)

/-- The test of `isListed` at one place. -/
lemma endsItem_iff {name t : Text} {before : Char} :
    (match !isNameChar before, after? name t with
      | true, some rest =>
        match (skipBlanks rest).head? with
        | some c => c == ',' || c == '\x7d'
        | none => false
      | _, _ => false) = true ↔ isNameChar before = false ∧ EndsItem name t := by
  constructor
  · intro h
    split at h
    · next rest hbefore hafter =>
      split at h
      · next c hc =>
        obtain ⟨back, hback⟩ := List.head?_eq_some_iff.mp hc
        rw [Bool.or_eq_true, beq_iff_eq, beq_iff_eq] at h
        have hblank : isBlank c = false := by rcases h with rfl | rfl <;> decide
        obtain ⟨ending, hending, rfl⟩ := (skipBlanks_eq_cons_iff hblank).mp hback
        exact ⟨by simpa using hbefore, ending, c, back, hending, h, after?_eq_some_iff.mp hafter⟩
      · cases h
    · cases h
  · rintro ⟨hbefore, ending, close, back, hending, hclose, rfl⟩
    have hblank : isBlank close = false := by rcases hclose with rfl | rfl <;> decide
    have hskip : skipBlanks (ending ++ close :: back) = close :: back :=
      (skipBlanks_eq_cons_iff hblank).mpr ⟨ending, hending, rfl⟩
    simp only [hbefore, Bool.not_false, after?_eq_some_iff.mpr rfl, hskip, List.head?_cons,
      Bool.or_eq_true, beq_iff_eq]
    exact hclose

/-- A name is listed here, or behind the next character unless that closes the list. -/
lemma isListed_iff {name t : Text} {before : Char} :
    isListed name before t = true ↔ (isNameChar before = false ∧ EndsItem name t)
      ∨ ∃ c cs, t = c :: cs ∧ c ≠ '\x7d' ∧ isListed name c cs = true := by
  rw [← endsItem_iff]
  cases t with
  | nil =>
    rw [isListed]
    constructor
    · exact Or.inl
    · rintro (h | ⟨_, _, heq, -⟩)
      · exact h
      · cases heq
  | cons c cs =>
    rw [isListed, Bool.or_eq_true, Bool.and_eq_true, bne_iff_ne]
    constructor
    · rintro (h | ⟨hc, h⟩)
      · exact Or.inl h
      · exact Or.inr ⟨c, cs, rfl, hc, h⟩
    · rintro (h | ⟨_, _, heq, hc, h⟩)
      · exact Or.inl h
      · obtain ⟨rfl, rfl⟩ := List.cons.inj heq
        exact Or.inr ⟨hc, h⟩

/-- **A name is listed** exactly when it ends an item in front of the first closing brace. -/
lemma isListed_iff_exists {name t : Text} {before : Char} :
    isListed name before t = true ↔ ∃ items rest, '\x7d' ∉ items
      ∧ outsideName (items.getLast?.or (some before)) = true ∧ EndsItem name rest
      ∧ t = items ++ rest := by
  induction t generalizing before with
  | nil =>
    rw [isListed_iff]
    constructor
    · rintro (⟨hbefore, hends⟩ | ⟨c, cs, heq, -⟩)
      · exact ⟨[], [], List.not_mem_nil, by simp [outsideName, hbefore], hends, rfl⟩
      · cases heq
    · rintro ⟨items, rest, -, hout, hends, heq⟩
      obtain ⟨rfl, rfl⟩ := List.append_eq_nil_iff.mp heq.symm
      exact Or.inl ⟨by simpa [outsideName] using hout, hends⟩
  | cons c cs ih =>
    rw [isListed_iff]
    constructor
    · rintro (⟨hbefore, hends⟩ | ⟨c', cs', heq, hc, hlisted⟩)
      · exact ⟨[], c :: cs, List.not_mem_nil, by simp [outsideName, hbefore], hends, rfl⟩
      · obtain ⟨rfl, rfl⟩ := List.cons.inj heq
        obtain ⟨items, rest, hitems, hout, hends, rfl⟩ := ih.mp hlisted
        refine ⟨c :: items, rest, ?_, ?_, hends, rfl⟩
        · rw [List.mem_cons, not_or]
          exact ⟨Ne.symm hc, hitems⟩
        · rwa [List.getLast?_cons, Option.some_or, ← Option.or_some]
    · rintro ⟨items, rest, hitems, hout, hends, heq⟩
      cases items with
      | nil =>
        rw [List.nil_append] at heq
        exact Or.inl ⟨by simpa [outsideName] using hout, heq ▸ hends⟩
      | cons d items =>
        obtain ⟨rfl, rfl⟩ := List.cons.inj heq
        rw [List.mem_cons, not_or] at hitems
        rw [List.getLast?_cons, Option.some_or, ← Option.or_some] at hout
        exact Or.inr ⟨c, _, rfl, Ne.symm hitems.1, ih.mpr ⟨items, rest, hitems.2, hout, hends, rfl⟩⟩

/-- A list with the name in it is recognised exactly where its text stands. -/
lemma isInList_iff {name t : Text} :
    isInList name t = true ↔ ∃ gap items rest, (∀ c ∈ gap, isBlank c = true) ∧ '\x7d' ∉ items
      ∧ outsideName items.getLast? = true ∧ EndsItem name rest
      ∧ t = "export".toList ++ (gap ++ '\x7b' :: (items ++ rest)) := by
  have hbrace : isBlank '\x7b' = false := by decide
  have hinner : ∀ {inner : Text},
      (wordThenBlanks? "export".toList t).bind (after? ['\x7b']) = some inner ↔
        ∃ gap, (∀ c ∈ gap, isBlank c = true) ∧ t = "export".toList ++ (gap ++ '\x7b' :: inner) := by
    intro inner
    rw [Option.bind_eq_some_iff]
    constructor
    · rintro ⟨rest, hspaced, hafter⟩
      obtain ⟨t', rfl, rfl⟩ := wordThenBlanks?_eq_some_iff.mp hspaced
      obtain ⟨gap, hgap, rfl⟩ := (skipBlanks_eq_cons_iff hbrace).mp (after?_eq_some_iff.mp hafter)
      exact ⟨gap, hgap, rfl⟩
    · rintro ⟨gap, hgap, rfl⟩
      refine ⟨'\x7b' :: inner, wordThenBlanks?_eq_some_iff.mpr ⟨_, rfl, ?_⟩, rfl⟩
      exact ((skipBlanks_eq_cons_iff hbrace).mpr ⟨gap, hgap, rfl⟩).symm
  have hlast : ∀ items : Text, outsideName (items.getLast?.or (some '\x7b')) =
      outsideName items.getLast? := by
    intro items
    cases items.getLast? with
    | none => decide
    | some c => rfl
  unfold isInList
  constructor
  · intro h
    split at h
    · next inner hsome =>
      obtain ⟨gap, hgap, rfl⟩ := hinner.mp hsome
      obtain ⟨items, rest, hitems, hout, hends, rfl⟩ := isListed_iff_exists.mp h
      exact ⟨gap, items, rest, hgap, hitems, by rwa [← hlast], hends, rfl⟩
    · cases h
  · rintro ⟨gap, items, rest, hgap, hitems, hout, hends, ht⟩
    rw [hinner.mpr ⟨gap, hgap, ht⟩]
    exact isListed_iff_exists.mpr ⟨items, rest, hitems, by rwa [hlast], hends, rfl⟩

/-- A module exported as a whole is recognised exactly where its text stands. -/
lemma exportedNamespace?_isSome_iff {name t : Text} :
    (exportedNamespace? name t).isSome = true ↔ ∃ gap star as back, gap ≠ []
      ∧ (∀ c ∈ gap, isBlank c = true) ∧ star ≠ [] ∧ (∀ c ∈ star, isBlank c = true) ∧ as ≠ []
      ∧ (∀ c ∈ as, isBlank c = true) ∧ outsideName back.head? = true
      ∧ t = "export".toList
        ++ (gap ++ '*' :: (star ++ ("as".toList ++ (as ++ (name ++ back))))) := by
  unfold exportedNamespace?
  constructor
  · intro h
    obtain ⟨rest, hsome⟩ := Option.isSome_iff_exists.mp h
    obtain ⟨r₃, h₃, hfound⟩ := Option.bind_eq_some_iff.mp hsome
    obtain ⟨r₂, h₂, hafter⟩ := Option.bind_eq_some_iff.mp h₃
    obtain ⟨r₁, h₁, hspaced⟩ := Option.bind_eq_some_iff.mp h₂
    obtain ⟨gap, hgne, hgap, rfl, -⟩ := spacedWord?_eq_some_iff.mp h₁
    obtain ⟨star, hsne, hstar, rfl, -⟩ := spacedWord?_eq_some_iff.mp hspaced
    obtain rfl := after?_eq_some_iff.mp hafter
    obtain ⟨as, named, hane, has, rfl, hnamed⟩ :=
      afterSomeBlanks?_isSome_iff.mp (Option.isSome_iff_exists.mpr ⟨_, hfound⟩)
    obtain ⟨back, hback⟩ := Option.isSome_iff_exists.mp hnamed
    obtain ⟨rfl, hout⟩ := endedName?_eq_some_iff.mp hback
    exact ⟨gap, star, as, back, hgne, hgap, hsne, hstar, hane, has, hout, rfl⟩
  · rintro ⟨gap, star, as, back, hgne, hgap, hsne, hstar, hane, has, hout, rfl⟩
    have hexport : spacedWord? "export".toList
        ("export".toList ++ (gap ++ '*' :: (star ++ ("as".toList ++ (as ++ (name ++ back)))))) =
          some ('*' :: (star ++ ("as".toList ++ (as ++ (name ++ back))))) := by
      refine spacedWord?_eq_some_iff.mpr ⟨gap, hgne, hgap, rfl, ?_⟩
      intro c r hc
      rw [← (List.cons.inj hc).1]
      decide
    have hword : spacedWord? ['*'] ('*' :: (star ++ ("as".toList ++ (as ++ (name ++ back))))) =
        some ("as".toList ++ (as ++ (name ++ back))) := by
      refine spacedWord?_eq_some_iff.mpr ⟨star, hsne, hstar, rfl, ?_⟩
      intro c r hc
      rw [← (List.cons.inj hc).1]
      decide
    rw [hexport, Option.bind_some, hword, Option.bind_some, after?_eq_some_iff.mpr rfl,
      Option.bind_some]
    refine afterSomeBlanks?_isSome_iff.mpr ⟨as, name ++ back, hane, has, rfl, ?_⟩
    exact Option.isSome_iff_exists.mpr ⟨back, endedName?_eq_some_iff.mpr ⟨rfl, hout⟩⟩

/-- An export is recognised exactly where its text stands at the start of a line. -/
lemma exportOfName_isSome_iff {name t : Text} {before : Option Char} :
    (exportOfName name before t).isSome = true ↔ beginsLine before = true
      ∧ ∃ u back, t = u ++ back ∧ ExportText name u back.head? := by
  have hsome : (exportOfName name before t).isSome = true ↔ beginsLine before = true
      ∧ ((exportedDeclaration? name t).isSome = true ∨ isInList name t = true
        ∨ (exportedNamespace? name t).isSome = true) := by
    unfold exportOfName
    rw [Option.isSome_ite]
    simp only [Bool.and_eq_true, Bool.or_eq_true, or_assoc]
  rw [hsome, exportedDeclaration?_isSome_iff, isInList_iff, exportedNamespace?_isSome_iff]
  refine and_congr_right fun _ => ⟨?_, ?_⟩
  · rintro (
      ⟨gap, preset, head, back, hne, hgap, rfl | ⟨space, hsne, hspace, rfl⟩, hhead, hout, rfl⟩ |
      ⟨gap, items, _, hgap, hitems, hout, ⟨ending, close, back, hending, hclose, rfl⟩, rfl⟩ |
      ⟨gap, star, as, back, hgne, hgap, hsne, hstar, hane, has, hout, rfl⟩)
    · exact ⟨_, back, by simp only [List.append_assoc, List.nil_append],
        .named (.declared hne hgap hhead hout)⟩
    · exact ⟨_, back, by simp only [List.append_assoc], .preset hne hgap hsne hspace hhead hout⟩
    · exact ⟨_, back, by simp only [List.append_assoc, List.cons_append, List.nil_append],
        .named (.listed hgap hitems hout hending hclose)⟩
    · exact ⟨_, back, by simp only [List.append_assoc, List.cons_append],
        .named (.whole hgne hgap hsne hstar hane has hout)⟩
  · rintro ⟨u, back, rfl, h⟩
    cases h with
    | preset hne hgap hsne hspace hhead hout =>
      exact Or.inl ⟨_, _, _, back, hne, hgap, Or.inr ⟨_, hsne, hspace, rfl⟩, hhead, hout,
        by simp only [List.append_assoc]⟩
    | named h =>
      cases h with
      | declared hne hgap hhead hout =>
        exact Or.inl ⟨_, [], _, back, hne, hgap, Or.inl rfl, hhead, hout,
          by simp only [List.append_assoc, List.nil_append]⟩
      | listed hgap hitems hout hending hclose =>
        exact Or.inr (Or.inl ⟨_, _, _, hgap, hitems, hout, ⟨_, _, back, hending, hclose, rfl⟩,
          by simp only [List.append_assoc, List.cons_append, List.nil_append]⟩)
      | whole hgne hgap hsne hstar hane has hout =>
        exact Or.inr (Or.inr ⟨_, _, _, back, hgne, hgap, hsne, hstar, hane, has, hout,
          by simp only [List.append_assoc, List.cons_append]⟩)

/-- **A text exports a name** exactly when an export of the name stands at the start of a line. -/
theorem isExported_iff {t name : Text} :
    isExported t name = true ↔ ∃ front u back, t = front ++ (u ++ back)
      ∧ beginsLine front.getLast? = true ∧ ExportText name u back.head? := by
  unfold isExported
  rw [holdsSomewhere_iff]
  constructor
  · rintro ⟨front, _, rfl, h⟩
    obtain ⟨hbegins, u, back, rfl, htext⟩ := exportOfName_isSome_iff.mp h
    exact ⟨front, u, back, rfl, hbegins, htext⟩
  · rintro ⟨front, u, back, rfl, hbegins, htext⟩
    exact ⟨front, u ++ back, rfl, exportOfName_isSome_iff.mpr ⟨hbegins, u, back, rfl, htext⟩⟩

/-- **Marking a declaration exports its name.** -/
theorem isExported_mark {t name : Text} {d : Occurrence Unit} (h : declaration? t name = some d) :
    isExported (t.insertAt d.start "export ".toList) name = true := by
  obtain ⟨front, _, rfl, hstart, hbegins, head, back, rfl, hhead, hout⟩ := declaration?_eq_some h
  have htext : ExportText name ("export".toList ++ ([' '] ++ (head ++ name))) back.head? :=
    .named (.declared (by decide) (by decide) hhead hout)
  refine isExported_iff.mpr ⟨front, _, back, ?_, hbegins, htext⟩
  rw [hstart, insertAt, splice, List.take_left, List.drop_left]
  simp only [List.append_assoc]
  rfl

end Esmify
