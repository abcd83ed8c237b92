import Esmify.Proofs.ImportSpan
import Esmify.Proofs.ImportText
import Esmify.Proofs.ReexportText

/-!
# Imports, written and read back

**The writer and the reader of import statements agree.** The reader is lazy: it takes the first
`from` behind white space that a quoted module follows. Words of a clause that read `from` do not
stop it (`fromModule?_early`), because the next quote comes only behind the `from` that the writer
puts in; so a written statement is read up to its semicolon, whatever follows it
(`importPattern_written`). What a clause is read as is said by `ClearClause`, with one lemma for
each of the layouts that the writer has. Together they give `importStatements_importOf`: the
statement that is written is the only one that is found, with the bindings that it was made for. -/

namespace Esmify

open Text Source

/-! ## The quoted module -/

/-- The word `from` and a quoted module are read, up to the semicolon. -/
lemma fromModule?_written {q : Char} {target : Text} (hq : isModuleQuote q = true)
    (hne : target ≠ []) (htarget : ∀ c ∈ target, isModuleQuote c = false) (rest : Text) :
    fromModule? ("from ".toList ++ q :: (target ++ q :: ';' :: rest))
      = some ((q, target), rest) := by
  have hblank : isBlank q = false := by
    simp only [isModuleQuote, Bool.or_eq_true, beq_iff_eq] at hq
    rcases hq with rfl | rfl <;> decide
  have hspaced : spacedWord? "from".toList ("from ".toList ++ q :: (target ++ q :: ';' :: rest)) =
      some (q :: (target ++ q :: ';' :: rest)) := by
    refine spacedWord?_eq_some_iff.mpr ⟨[' '], by decide, by decide, rfl, ?_⟩
    rintro c r ⟨⟩
    exact hblank
  have hpassed : ∀ c ∈ target, (!isModuleQuote c) = true := by
    intro c hc
    rw [htarget c hc, Bool.not_false]
  have htake := takeWhile_append_cons hpassed (by rw [hq, Bool.not_true]) (';' :: rest)
  have hdrop := dropWhile_append_cons hpassed (by rw [hq, Bool.not_true]) (';' :: rest)
  obtain ⟨c, target, rfl⟩ := List.exists_cons_of_ne_nil hne
  unfold fromModule?
  simp only [hspaced, hq, htake, hdrop, if_true]
  rfl

/-- **A word in front of the last `from` is not taken for it**: what follows it up to the quote is
more than white space. -/
lemma fromModule?_early {c : Char} {clause : Text}
    (hclause : ∀ x ∈ c :: clause, isModuleQuote x = false) (rest : Text) :
    fromModule? (c :: (clause ++ (" from ".toList ++ rest))) = none := by
  unfold fromModule?
  split
  · next quote cs hspaced =>
    obtain ⟨gap, -, hgap, hsplit, -⟩ := spacedWord?_eq_some_iff.mp hspaced
    cases hquote : isModuleQuote quote with
    | false => rfl
    | true =>
      have hnot : quote ∉ (c :: clause) ++ " from ".toList := by
        rw [List.mem_append]
        rintro (hmem | hmem)
        · rw [hclause quote hmem] at hquote
          exact absurd hquote (by decide)
        · have hword : ∀ x ∈ " from ".toList, isModuleQuote x = false := by decide
          rw [hword quote hmem] at hquote
          exact absurd hquote (by decide)
      have hcut : ((c :: clause) ++ " from ".toList) ++ rest
          = ("from".toList ++ gap) ++ quote :: cs := by
        simpa using hsplit
      obtain ⟨a, ha, -⟩ := append_eq_append_cons_of_not_mem hnot hcut
      -- so the white space behind the early word reaches over the later one
      have hover : ((c :: clause) ++ " fro".toList) ++ 'm' :: ' ' :: a = "from".toList ++ gap := by
        rw [ha]
        simp
      rcases append_eq_append_cons hover.symm with ⟨m, hword, -⟩ | ⟨m, -, rfl⟩
      · have hlength := congrArg List.length hword
        simp at hlength
        omega
      · exact absurd (hgap 'm' (by simp)) (by decide)
  · rfl

/-! ## Statements -/

/-- What a clause that is written is read as: it does not begin with white space, has no character
that ends a statement, and its names are those of `names`. -/
structure ClearClause (clause : Text) (names : ImportClause) : Prop where
  begins : ∃ c rest, clause = c :: rest ∧ isBlank c = false
  plain : ∀ c ∈ clause, c ≠ ';' ∧ isModuleQuote c = false
  parse : ImportClause.parse (clause ++ [' ']) = names

/-- A character that no module follows goes into the clause. -/
lemma clauseFrom?_cons {c : Char} {t : Text} (hfrom : fromModule? (c :: t) = none) (hend : c ≠ ';')
    (hquote : isModuleQuote c = false) (spaced : Bool) (read : Text) :
    clauseFrom? spaced read (c :: t) = clauseFrom? (isBlank c) (c :: read) t := by
  rw [clauseFrom?, hfrom, ite_self]
  simp [hend, hquote]

/-- A module behind white space ends the clause. -/
lemma clauseFrom?_module {c q : Char} {t target rest : Text}
    (hfrom : fromModule? (c :: t) = some ((q, target), rest)) (read : Text) :
    clauseFrom? true read (c :: t) = some (⟨read.reverse, q, target⟩, rest) := by
  rw [clauseFrom?, if_pos rfl, hfrom]

/-- A clause is read up to the `from` that was put behind it. -/
lemma clauseFrom?_written {clause target : Text} {q : Char}
    (hclause : ∀ c ∈ clause, c ≠ ';' ∧ isModuleQuote c = false) (hq : isModuleQuote q = true)
    (hne : target ≠ []) (htarget : ∀ c ∈ target, isModuleQuote c = false) (spaced : Bool)
    (read rest : Text) :
    clauseFrom? spaced read (clause ++ (" from ".toList ++ q :: (target ++ q :: ';' :: rest))) =
      some (⟨read.reverse ++ (clause ++ [' ']), q, target⟩, rest) := by
  induction clause generalizing spaced read with
  | nil =>
    calc clauseFrom? spaced read (' ' :: ("from ".toList ++ q :: (target ++ q :: ';' :: rest)))
        = clauseFrom? true (' ' :: read) ("from ".toList ++ q :: (target ++ q :: ';' :: rest)) :=
          clauseFrom?_cons rfl (by decide) (by decide) spaced read
      _ = some (⟨(' ' :: read).reverse, q, target⟩, rest) :=
          clauseFrom?_module (fromModule?_written hq hne htarget rest) _
      _ = _ := by simp
  | cons c clause ih =>
    obtain ⟨⟨hend, hquote⟩, hclause'⟩ := List.forall_mem_cons.mp hclause
    have hearly := fromModule?_early (fun x hx => (hclause x hx).2)
      (q :: (target ++ q :: ';' :: rest))
    rw [List.cons_append, clauseFrom?_cons hearly hend hquote, ih hclause']
    simp

/-- **A statement that is written is read up to its semicolon**, whatever follows. -/
lemma importPattern_written {before : Option Char} {clause target : Text} {names : ImportClause}
    {q : Char} (hbefore : beginsLine before = true) (hclause : ClearClause clause names)
    (hq : isModuleQuote q = true) (hne : target ≠ [])
    (htarget : ∀ c ∈ target, isModuleQuote c = false) (rest : Text) :
    importPattern before ("import ".toList ++
        (clause ++ (" from ".toList ++ q :: (target ++ q :: ';' :: rest)))) =
      some (⟨clause ++ [' '], q, target⟩, rest) := by
  obtain ⟨c, cs, rfl, hc⟩ := hclause.begins
  have hafter : after? "import".toList ("import ".toList ++
      (c :: cs ++ (" from ".toList ++ q :: (target ++ q :: ';' :: rest)))) =
        some ([' '] ++ c :: (cs ++ (" from ".toList ++ q :: (target ++ q :: ';' :: rest)))) :=
    after?_eq_some_iff.mpr rfl
  unfold importPattern
  rw [if_pos hbefore, hafter]
  dsimp only
  rw [takeWhile_append_cons (by decide) hc, dropWhile_append_cons (by decide) hc]
  exact clauseFrom?_written hclause.plain hq hne htarget false [] rest

/-! ## Bindings -/

/-- What a binding is read as in the import statement that is written for it; `isDefault` says that
a module as a whole is its default export. -/
def Binding.imported (isDefault : Bool) (b : Binding) : ImportedName :=
  let name := b.localName.getD b.key
  if b.key = wholeModule then
    if isDefault then ⟨.byDefault, name, "default".toList⟩ else ⟨.asNamespace, name, b.key⟩
  else ⟨.byName, name, b.key⟩

/-- A binding of one export of a module: a name, and perhaps another one that it gets. -/
structure NamesExport (b : Binding) : Prop where
  key : ProperName b.key
  localName : ∀ name ∈ b.localName, ProperName name

/-- A binding of a name is not one of the whole module. -/
lemma NamesExport.key_ne {b : Binding} (h : NamesExport b) : b.key ≠ wholeModule := by
  intro hkey
  have hstar : '*' ∉ b.key := h.key.not_mem (by decide)
  rw [hkey] at hstar
  exact hstar (List.mem_singleton_self _)

/-- A binding of one export is written as its key, and the name behind ` as ` if there is one. -/
lemma NamesExport.written {b : Binding} (h : NamesExport b) (isDefault : Bool) :
    (b.localName = none ∧ writtenBinding isDefault b = b.key) ∨
      ∃ name, b.localName = some name ∧ ProperName name
        ∧ writtenBinding isDefault b = b.key ++ (" as ".toList ++ name) := by
  unfold writtenBinding
  rw [beq_false_of_ne h.key_ne, Bool.false_and, if_neg (by decide)]
  cases hname : b.localName with
  | none => exact Or.inl ⟨rfl, rfl⟩
  | some name =>
    have hproper := h.localName name hname
    obtain ⟨c, cs, rfl, -, -⟩ := id hproper
    exact Or.inr ⟨c :: cs, rfl, hproper, List.append_assoc _ _ _⟩

/-- What a binding of one export is written with. -/
lemma NamesExport.mem_written {b : Binding} (h : NamesExport b) {isDefault : Bool} {c : Char}
    (hc : c ∈ writtenBinding isDefault b) : isNameChar c = true ∨ c = ' ' := by
  rcases h.written isDefault with ⟨-, htext⟩ | ⟨name, -, hname, htext⟩
  · rw [htext] at hc
    exact Or.inl (h.key.forall_isNameChar c hc)
  · rw [htext, List.mem_append, List.mem_append] at hc
    rcases hc with hc | hc | hc
    · exact Or.inl (h.key.forall_isNameChar c hc)
    · have hword : ∀ x ∈ " as ".toList, isNameChar x = true ∨ x = ' ' := by decide
      exact hword c hc
    · exact Or.inl (hname.forall_isNameChar c hc)

/-- A binding of a name is written without white space around it. -/
lemma NamesExport.firm {b : Binding} (h : NamesExport b) (isDefault : Bool) :
    Firm (writtenBinding isDefault b) := by
  rcases h.written isDefault with ⟨-, htext⟩ | ⟨name, -, hname, htext⟩
  · rw [htext]
    exact h.key.firm
  · rw [htext]
    exact h.key.firm.around hname.firm _

/-- A text without a space is not split at ` as `. -/
lemma splitAs_of_not_mem {t : Text} (h : ' ' ∉ t) : splitAs t = (t, []) := by
  rcases splitAs_cases t with hnone | ⟨front, back, rfl, -⟩
  · exact hnone
  · exact absurd (by simp) h

/-- Two names are told apart by the ` as ` between them. -/
lemma splitAs_append {key name : Text} (hkey : ' ' ∉ key) (hname : ' ' ∉ name) :
    splitAs (key ++ (" as ".toList ++ name)) = (key, name) := by
  have hindex : indexOf? " as ".toList (key ++ (" as ".toList ++ name)) = some key.length := by
    refine indexOf?_of_unique rfl fun front back hsplit => ?_
    obtain ⟨m, rfl, hm⟩ := append_eq_append_cons_of_not_mem hkey hsplit
    cases m with
    | nil => rw [List.append_nil]
    | cons d m =>
      have hrest : "as".toList ++ ' ' :: name = m ++ ' ' :: ("as ".toList ++ back) :=
        (List.cons.inj hm).2
      obtain ⟨m', rfl, hm'⟩ := append_eq_append_cons_of_not_mem (by decide) hrest
      cases m' with
      | nil =>
        have : name = "as ".toList ++ back := (List.cons.inj hm').2
        exact absurd (by rw [this]; simp) hname
      | cons e m' =>
        have : name = m' ++ ' ' :: ("as ".toList ++ back) := (List.cons.inj hm').2
        exact absurd (by rw [this]; simp) hname
  unfold splitAs
  rw [hindex]
  have hdrop : (key ++ (" as ".toList ++ name)).drop (key.length + 4) = name := by
    rw [← List.append_assoc]
    exact List.drop_left' (by simp)
  simp only [List.take_left, hdrop]

/-- A binding of one export is read back, with white space around it or not. -/
lemma innerName?_written {b : Binding} (h : NamesExport b) (isDefault : Bool) {gap gap' : Text}
    (hgap : ∀ c ∈ gap, isBlank c = true) (hgap' : ∀ c ∈ gap', isBlank c = true) :
    innerName? (gap ++ (writtenBinding isDefault b ++ gap')) = some (b.imported isDefault) := by
  have hspace : ∀ {t}, ProperName t → ' ' ∉ t := fun ht => ht.not_mem (by decide)
  unfold innerName? Binding.imported
  rw [(h.firm isDefault).trim_append gap gap' hgap hgap', if_neg h.key_ne]
  rcases h.written isDefault with ⟨hnone, htext⟩ | ⟨name, hsome, hname, htext⟩
  · have hnil : trim ([] : Text) = [] := rfl
    rw [htext, splitAs_of_not_mem (hspace h.key), hnone]
    simp [h.key.firm.trim, hnil, h.key.ne_nil]
  · rw [htext, splitAs_append (hspace h.key) (hspace hname), hsome]
    simp [h.key.firm.trim, hname.firm.trim, h.key.ne_nil, hname.ne_nil]

/-! ## Clauses -/

/-- **Bindings with commas between them are read one by one**, with white space around them and one
more comma behind them or not. -/
lemma filterMap_innerName? {bs : List Binding} {gap sep ending : Text} (isDefault : Bool)
    (hbs : ∀ b ∈ bs, NamesExport b) (hne : bs ≠ []) (hgap : ∀ c ∈ gap, isBlank c = true)
    (hsep : ∀ c ∈ sep, isBlank c = true)
    (hending : (∀ c ∈ ending, isBlank c = true)
      ∨ ∃ gap', ending = ',' :: gap' ∧ ∀ c ∈ gap', isBlank c = true) :
    ((gap ++ ((',' :: sep).intercalate (bs.map (writtenBinding isDefault))
        ++ ending)).splitOn ',').filterMap innerName?
      = bs.map (Binding.imported isDefault) := by
  have hblank : ∀ {t : Text}, (∀ c ∈ t, isBlank c = true) → ',' ∉ t := fun ht hmem =>
    absurd (ht _ hmem) (by decide)
  have hcomma : ∀ {b}, NamesExport b → ',' ∉ writtenBinding isDefault b := fun hb hmem => by
    rcases hb.mem_written hmem with hname | hspace
    · exact absurd hname (by decide)
    · exact absurd hspace (by decide)
  induction bs generalizing gap with
  | nil => exact absurd rfl hne
  | cons b bs ih =>
    obtain ⟨hb, hbs⟩ := List.forall_mem_cons.mp hbs
    have hhead : ',' ∉ gap ++ writtenBinding isDefault b := by
      rw [List.mem_append, not_or]
      exact ⟨hblank hgap, hcomma hb⟩
    have hread : innerName? (gap ++ (writtenBinding isDefault b ++ [])) = _ :=
      innerName?_written hb isDefault hgap (by simp)
    rw [List.append_nil] at hread
    cases bs with
    | nil =>
      rw [List.map_singleton, List.intercalate_singleton, List.map_singleton]
      rcases hending with hending | ⟨gap', rfl, hgap'⟩
      · have hwhole : ',' ∉ gap ++ (writtenBinding isDefault b ++ ending) := by
          rw [← List.append_assoc, List.mem_append, not_or]
          exact ⟨hhead, hblank hending⟩
        rw [List.splitOn_eq_singleton hwhole]
        simp only [List.filterMap_cons, List.filterMap_nil,
          innerName?_written hb isDefault hgap hending]
      · have hnone : innerName? gap' = none := by
          have htrim : trim gap' = [] := trim_eq_nil hgap'
          unfold innerName?
          rw [htrim]
          rfl
        rw [← List.append_assoc, List.splitOn_append_cons_self_of_not_mem hhead,
          List.splitOn_eq_singleton (hblank hgap')]
        simp only [List.filterMap_cons, List.filterMap_nil, hread, hnone]
    | cons b' bs =>
      rw [List.map_cons, List.map_cons, List.intercalate_cons_cons, ← List.map_cons]
      have hsplit : gap ++ ((writtenBinding isDefault b ++ (',' :: sep)
            ++ (',' :: sep).intercalate ((b' :: bs).map (writtenBinding isDefault))) ++ ending) =
          (gap ++ writtenBinding isDefault b) ++ ',' :: (sep
            ++ ((',' :: sep).intercalate ((b' :: bs).map (writtenBinding isDefault))
              ++ ending)) := by
        simp only [List.append_assoc, List.cons_append]
      rw [hsplit, List.splitOn_append_cons_self_of_not_mem hhead, List.filterMap_cons, hread,
        ih hbs (List.cons_ne_nil b' bs) hsep]
      rfl

/-- What stands between braces is read as the names of exports. -/
lemma parse_braces (inner : Text) :
    ImportClause.parse ('\x7b' :: (inner ++ "\x7d ".toList)) =
      ⟨(inner.splitOn ',').filterMap innerName?, true⟩ := by
  have hfirm : Firm ('\x7b' :: (inner ++ ['\x7d'])) :=
    ⟨⟨'\x7b', _, rfl, by decide⟩, '\x7b' :: inner, '\x7d', rfl, by decide⟩
  have htrim : trim ('\x7b' :: (inner ++ "\x7d ".toList)) = '\x7b' :: (inner ++ ['\x7d']) := by
    simpa using hfirm.trim_append [] [' '] (by simp) (by decide)
  have hlast : lastIndexOf? '\x7d' ('\x7b' :: (inner ++ ['\x7d'])) = some (inner.length + 1) := by
    have hend : dropEndWhile (· != '\x7d') ('\x7b' :: (inner ++ ['\x7d'])) =
        '\x7b' :: (inner ++ ['\x7d']) := by
      simp [dropEndWhile]
    unfold lastIndexOf?
    rw [hend]
    simp
  have hslice : slice ('\x7b' :: (inner ++ ['\x7d'])) 1 (inner.length + 1) = inner := by
    rw [Nat.add_comm]
    exact slice_append ['\x7b'] inner ['\x7d']
  have htake : ('\x7b' :: (inner ++ ['\x7d'])).takeWhile (· != '\x7b') = [] := rfl
  have hdrop : ('\x7b' :: (inner ++ ['\x7d'])).dropWhile (· != '\x7b')
      = '\x7b' :: (inner ++ ['\x7d']) := rfl
  have houter : ([] : Text).splitOn ',' = [[]] := rfl
  have hnone : outerName? [] = none := rfl
  unfold ImportClause.parse
  simp only [htrim, htake, hdrop, hlast, List.length_nil, Nat.zero_add, hslice, houter,
    List.filterMap_cons, List.filterMap_nil, hnone, List.nil_append]

/-- A clause without braces is read as the names of the module as a whole. -/
lemma parse_outer {clause : Text} {n : ImportedName} (hfirm : Firm clause)
    (hbrace : '\x7b' ∉ clause) (hcomma : ',' ∉ clause) (hname : outerName? clause = some n) :
    ImportClause.parse (clause ++ [' ']) = ⟨[n], false⟩ := by
  have htrim : trim (clause ++ [' ']) = clause := by
    simpa using hfirm.trim_append [] [' '] (by simp) (by decide)
  have hpassed : ∀ c ∈ clause, (c != '\x7b') = true := by
    intro c hc
    rw [bne_iff_ne]
    rintro rfl
    exact hbrace hc
  unfold ImportClause.parse
  simp only [htrim, List.takeWhile_eq_self_iff.mpr hpassed, List.dropWhile_eq_nil_iff.mpr hpassed,
    List.splitOn_eq_singleton hcomma, List.filterMap_cons, List.filterMap_nil, hname]

/-- A name alone is read as that of the default export. -/
lemma outerName?_name {name : Text} (h : ProperName name) :
    outerName? name = some ⟨.byDefault, name, "default".toList⟩ := by
  have hnone : namespaceName? name = none := by
    have hstar : wordThenBlanks? ['*'] name = none := by
      rw [Option.eq_none_iff_forall_ne_some]
      intro rest hrest
      obtain ⟨t, rfl, -⟩ := wordThenBlanks?_eq_some_iff.mp hrest
      exact absurd (by simp) (h.not_mem (c := '*') (by decide))
    unfold namespaceName?
    rw [hstar]
    rfl
  unfold outerName?
  simp only [h.firm.trim, hnone, isName_iff.mpr (Or.inl h), if_true]

/-- A name behind `* as ` is read as that of the whole module. -/
lemma outerName?_namespace {name : Text} (h : ProperName name) :
    outerName? ("* as ".toList ++ name) = some ⟨.asNamespace, name, wholeModule⟩ := by
  have hstar : Firm wholeModule := ⟨⟨'*', [], rfl, by decide⟩, [], '*', rfl, by decide⟩
  have htrim : trim ("* as ".toList ++ name) = "* as ".toList ++ name :=
    (hstar.around h.firm " as ".toList).trim
  obtain ⟨c, cs, hfirst, hc⟩ := h.firm.first
  have hword : wordThenBlanks? ['*'] ("* as ".toList ++ name) = some ("as ".toList ++ name) :=
    wordThenBlanks?_eq_some_iff.mpr ⟨" as ".toList ++ name, rfl, rfl⟩
  have has : spacedWord? "as".toList ("as ".toList ++ name) = some name := by
    refine spacedWord?_eq_some_iff.mpr ⟨[' '], by decide, by decide, rfl, ?_⟩
    intro d r hd
    rw [hfirst, List.cons.injEq] at hd
    rw [← hd.1]
    exact hc
  have hsole : soleName? name = some name := by
    unfold soleName?
    rw [name?_eq_some_iff.mpr ⟨h, (List.append_nil name).symm, by simp⟩]
    rfl
  unfold outerName? namespaceName?
  simp only [htrim, hword, Option.bind_some, has, hsole]
  rfl

/-- The characters of a class without quotes and the semicolon may stand in a clause. -/
lemma plain_of_class {p : Char → Bool} {c : Char} (h : p c = true)
    (hp : ∀ d ∈ ";'\"".toList, p d = false) : c ≠ ';' ∧ isModuleQuote c = false := by
  have hnot : ∀ d ∈ ";'\"".toList, c ≠ d := by
    rintro d hd rfl
    rw [hp c hd] at h
    exact absurd h (by decide)
  refine ⟨hnot _ (by decide), ?_⟩
  rw [isModuleQuote, Bool.or_eq_false_iff, beq_eq_false_iff_ne, beq_eq_false_iff_ne]
  exact ⟨hnot _ (by decide), hnot _ (by decide)⟩

/-- A character of a name ends no statement and is no quote. -/
lemma plain_of_isNameChar {c : Char} (h : isNameChar c = true) :
    c ≠ ';' ∧ isModuleQuote c = false :=
  plain_of_class h (by decide)

/-- White space ends no statement and is no quote. -/
lemma plain_of_isBlank {c : Char} (h : isBlank c = true) : c ≠ ';' ∧ isModuleQuote c = false :=
  plain_of_class h (by decide)

/-- The clause for a default export. -/
lemma clearClause_default {name : Text} (h : ProperName name) :
    ClearClause name ⟨[⟨.byDefault, name, "default".toList⟩], false⟩ :=
  ⟨h.firm.first, fun c hc => plain_of_isNameChar (h.forall_isNameChar c hc),
    parse_outer h.firm (h.not_mem (by decide)) (h.not_mem (by decide)) (outerName?_name h)⟩

/-- The clause for a module as a whole. -/
lemma clearClause_namespace {name : Text} (h : ProperName name) :
    ClearClause ("* as ".toList ++ name) ⟨[⟨.asNamespace, name, wholeModule⟩], false⟩ := by
  have hstar : Firm wholeModule := ⟨⟨'*', [], rfl, by decide⟩, [], '*', rfl, by decide⟩
  have hfirm : Firm ("* as ".toList ++ name) := hstar.around h.firm " as ".toList
  have hnot : ∀ {c}, c ∉ "* as ".toList → isNameChar c = false → c ∉ "* as ".toList ++ name := by
    intro c hword hc
    rw [List.mem_append, not_or]
    exact ⟨hword, h.not_mem hc⟩
  refine ⟨hfirm.first, fun c hc => ?_, ?_⟩
  · have hword : ∀ x ∈ "* as ".toList, x ≠ ';' ∧ isModuleQuote x = false := by decide
    rcases List.mem_append.mp hc with hc | hc
    · exact hword c hc
    · exact plain_of_isNameChar (h.forall_isNameChar c hc)
  · exact parse_outer hfirm (hnot (by decide) (by decide)) (hnot (by decide) (by decide))
      (outerName?_namespace h)

/-- **A clause in braces**, with white space around its bindings and one more comma behind them or
not. -/
lemma clearClause_braces {bs : List Binding} {gap sep ending : Text} (isDefault : Bool)
    (hbs : ∀ b ∈ bs, NamesExport b) (hne : bs ≠ []) (hgap : ∀ c ∈ gap, isBlank c = true)
    (hsep : ∀ c ∈ sep, isBlank c = true)
    (hending : (∀ c ∈ ending, isBlank c = true)
      ∨ ∃ gap', ending = ',' :: gap' ∧ ∀ c ∈ gap', isBlank c = true) :
    ClearClause ('\x7b' :: ((gap ++ ((',' :: sep).intercalate (bs.map (writtenBinding isDefault))
        ++ ending)) ++ ['\x7d']))
      ⟨bs.map (Binding.imported isDefault), true⟩ := by
  have hplain : ∀ {c}, c ∈ ',' :: sep → c ≠ ';' ∧ isModuleQuote c = false := by
    intro c hc
    rcases List.mem_cons.mp hc with rfl | hc
    · decide
    · exact plain_of_isBlank (hsep c hc)
  have hjoined : ∀ c ∈ (',' :: sep).intercalate (bs.map (writtenBinding isDefault)),
      c ≠ ';' ∧ isModuleQuote c = false := by
    intro c hc
    by_contra hbad
    refine not_mem_intercalate (fun hmem => hbad (hplain hmem)) (fun item hitem hmem => ?_) hc
    obtain ⟨b, hb, rfl⟩ := List.mem_map.mp hitem
    rcases (hbs b hb).mem_written hmem with hname | rfl
    · exact hbad (plain_of_isNameChar hname)
    · exact hbad (by decide)
  have hend : ∀ c ∈ ending, c ≠ ';' ∧ isModuleQuote c = false := by
    rcases hending with hblank | ⟨gap', rfl, hblank⟩
    · exact fun c hc => plain_of_isBlank (hblank c hc)
    · exact List.forall_mem_cons.mpr ⟨by decide, fun c hc => plain_of_isBlank (hblank c hc)⟩
  refine ⟨⟨_, _, rfl, by decide⟩, ?_, ?_⟩
  · refine List.forall_mem_cons.mpr ⟨by decide, ?_⟩
    simp only [List.forall_mem_append]
    exact ⟨⟨fun c hc => plain_of_isBlank (hgap c hc), hjoined, hend⟩, by decide⟩
  · rw [List.cons_append, List.append_assoc]
    exact (parse_braces _).trans (by rw [filterMap_innerName? isDefault hbs hne hgap hsep hending])

/-! ## Requirements -/

/-- A module that can be named between quotes: something is left of it when the extension goes. -/
structure PlainTarget (target : Text) : Prop where
  ne_nil : target ≠ []
  ne_extension : target ≠ ".js".toList
  unquoted : ∀ c ∈ target, isModuleQuote c = false

/-- The requirements whose import statements can be read back: the module as a whole is asked for
under a name, or some of its exports are, on one line or in a block. -/
inductive Nameable (r : Requirement) : Prop
  | whole {name : Text} : ProperName name → r.bindings = [⟨wholeModule, some name⟩] →
    r.indent = none → Nameable r
  | exports : r.bindings ≠ [] → (∀ b ∈ r.bindings, NamesExport b) →
    (∀ indent ∈ r.indent, indent ≠ [] ∧ ∀ c ∈ indent, isBlank c = true) → Nameable r

/-- A requirement that can be named binds something. -/
lemma Nameable.bindings_ne_nil {r : Requirement} (h : Nameable r) : r.bindings ≠ [] := by
  cases h with
  | whole _ hbindings _ => simp [hbindings]
  | exports hne _ _ => exact hne

/-- A module that is named without its extension is named by a beginning of it. -/
lemma writtenTarget_eq (config : Config) (target : Text) :
    writtenTarget config target = target
      ∨ target = writtenTarget config target ++ ".js".toList := by
  unfold writtenTarget
  split_ifs with hstrip
  · right
    rw [Bool.and_eq_true, Path.endsWithJs, List.isSuffixOf_iff_suffix] at hstrip
    obtain ⟨front, rfl⟩ := hstrip.2
    rw [List.length_append]
    exact congrArg (· ++ _) (List.take_left' (by simp)).symm
  · exact Or.inl rfl

/-- The extension goes from a relative module where the configuration says so, and stays in all
other cases. -/
lemma writtenTarget_cases (config : Config) (target : Text) :
    (config.stripExtension = true → target.head? = some '.' →
        ∀ stem, target = stem ++ ".js".toList → writtenTarget config target = stem)
      ∧ (config.stripExtension = false ∨ target.head? ≠ some '.' ∨ ¬ ".js".toList <:+ target →
        writtenTarget config target = target) := by
  have hstrip : (config.stripExtension && Requirement.isRelative target && Path.endsWithJs target)
      = true ↔ config.stripExtension = true ∧ target.head? = some '.'
        ∧ ".js".toList <:+ target := by
    rw [Bool.and_eq_true, Bool.and_eq_true, Requirement.isRelative, beq_iff_eq, Path.endsWithJs,
      List.isSuffixOf_iff_suffix, and_assoc]
  unfold writtenTarget
  constructor
  · rintro hconfig hhead stem rfl
    rw [if_pos (hstrip.mpr ⟨hconfig, hhead, stem, rfl⟩), List.length_append]
    exact List.take_left' rfl
  · intro hstays
    rw [if_neg]
    intro hgoes
    obtain ⟨hconfig, hhead, hends⟩ := hstrip.mp hgoes
    rcases hstays with h | h | h
    · rw [hconfig] at h
      cases h
    · exact h hhead
    · exact h hends

/-- A plain target stays plain when it is written. -/
lemma PlainTarget.written {target : Text} (h : PlainTarget target) (config : Config) :
    writtenTarget config target ≠ [] ∧ ∀ c ∈ writtenTarget config target,
    isModuleQuote c = false := by
  rcases writtenTarget_eq config target with heq | heq
  · rw [heq]
    exact ⟨h.ne_nil, h.unquoted⟩
  · refine ⟨fun hnil => h.ne_extension ?_, fun c hc => h.unquoted c ?_⟩
    · rw [heq, hnil]
      rfl
    · rw [heq]
      exact List.mem_append_left _ hc

/-- The quote around the module of an import statement. -/
def writtenQuote (config : Config) (quote : Char) : Char :=
  (config.quote.map Quote.char).getD quote

/-- The quote that is written is that of the configuration, or else the one that was read. -/
lemma getD_quote (config : Config) {r : Requirement} {quote : Char} (h : r.quote = [quote]) :
    (config.quote.map fun q => [q.char]).getD r.quote = [writtenQuote config quote] := by
  rw [h, writtenQuote]
  cases config.quote with
  | none => rfl
  | some q => rfl

/-- A module is quoted with a quote that can stand there. -/
lemma isModuleQuote_writtenQuote {quote : Char} (h : isModuleQuote quote = true) (config : Config) :
    isModuleQuote (writtenQuote config quote) = true := by
  unfold writtenQuote
  cases config.quote with
  | none => exact h
  | some q => cases q <;> rfl

/-- The clause of the import statement of a requirement. -/
def writtenClause (config : Config) (isDefault : Bool) (r : Requirement) : Text :=
  let members := r.bindings.map (writtenBinding isDefault)
  match r.indent with
  | some (c :: cs) => blockClause config.lastComma (c :: cs) members
  | _ => lineClause r.isWholeModule members

/-- The import statement of a requirement is the word, the clause and the quoted module. -/
lemma importOf_append {r : Requirement} {quote : Char} (config : Config) (isDefault : Option Bool)
    (hquote : r.quote = [quote]) (hne : r.bindings ≠ []) (rest : Text) :
    importOf config isDefault r ++ rest = "import ".toList
      ++ (writtenClause config (isDefault.getD r.hasDefault) r ++ (" from ".toList
        ++ writtenQuote config quote :: (writtenTarget config r.target
          ++ writtenQuote config quote :: ';' :: rest))) := by
  unfold importOf writtenClause
  rw [getD_quote config hquote]
  split
  · next hnil => exact absurd hnil hne
  · rcases r.indent with _ | _ | ⟨c, cs⟩
    all_goals simp [specifier]

/-- A clause over several lines, as braces around its members. -/
lemma blockClause_eq (lastComma : Bool) (indent : Text) (members : List Text) :
    blockClause lastComma indent members = '\x7b' :: (('\n' :: indent
      ++ ((',' :: '\n' :: indent).intercalate members
        ++ ((if lastComma then [','] else []) ++ ['\n']))) ++ ['\x7d']) := by
  simp [blockClause]

/-- A clause on one line, as braces around its members. -/
lemma lineClause_eq (members : List Text) :
    lineClause false members =
      '\x7b' :: (([' '] ++ ((',' :: [' ']).intercalate members ++ [' '])) ++ ['\x7d']) := by
  simp [lineClause]

/-- Exports taken by their names are not the module as a whole. -/
lemma isWholeModule_of_namesExport {r : Requirement} (h : ∀ b ∈ r.bindings, NamesExport b) :
    r.isWholeModule = false := by
  unfold Requirement.isWholeModule
  split
  · next b hb => exact beq_false_of_ne (h b (by rw [hb]; exact List.mem_singleton_self b)).key_ne
  · rfl

/-- **The clause of a requirement is read as its bindings.** -/
lemma clearClause_written {r : Requirement} (config : Config) (isDefault : Bool) (h : Nameable r) :
    ClearClause (writtenClause config isDefault r)
      ⟨r.bindings.map (Binding.imported isDefault), !r.isWholeModule⟩ := by
  cases h with
  | @whole name hname hbindings hindent =>
    have hwhole : r.isWholeModule = true := by
      unfold Requirement.isWholeModule
      rw [hbindings]
      rfl
    have hclause : writtenClause config isDefault r =
        writtenBinding isDefault ⟨wholeModule, some name⟩ := by
      simp [writtenClause, hindent, hwhole, hbindings, lineClause]
    rw [hclause, hwhole, hbindings, List.map_singleton]
    cases isDefault with
    | true => exact clearClause_default hname
    | false =>
      obtain ⟨c, cs, rfl, -, -⟩ := id hname
      exact clearClause_namespace hname
  | exports hne hbs hindent =>
    have hwhole : r.isWholeModule = false := isWholeModule_of_namesExport hbs
    have hline : ClearClause (lineClause false (r.bindings.map (writtenBinding isDefault)))
        ⟨r.bindings.map (Binding.imported isDefault), true⟩ := by
      rw [lineClause_eq]
      exact clearClause_braces isDefault hbs hne (by decide) (by decide) (Or.inl (by decide))
    unfold writtenClause
    rw [hwhole]
    dsimp only
    split
    · next c cs hsome =>
      have hblank := (hindent (c :: cs) hsome).2
      have hbreak : ∀ x ∈ '\n' :: c :: cs, isBlank x = true :=
        List.forall_mem_cons.mpr ⟨by decide, hblank⟩
      rw [blockClause_eq]
      refine clearClause_braces isDefault hbs hne hbreak hbreak ?_
      cases config.lastComma with
      | true => exact Or.inr ⟨['\n'], rfl, by decide⟩
      | false => exact Or.inl (by decide)
    · exact hline

/-- The import statement of a requirement is found where a line begins, whatever follows it. -/
lemma importPattern_importOf {r : Requirement} {quote : Char} {before : Option Char}
    (config : Config) (isDefault : Option Bool) (hbefore : beginsLine before = true)
    (hq : isModuleQuote quote = true) (hquote : r.quote = [quote]) (htarget : PlainTarget r.target)
    (h : Nameable r) (rest : Text) :
    importPattern before (importOf config isDefault r ++ rest) =
      some (⟨writtenClause config (isDefault.getD r.hasDefault) r ++ [' '],
        writtenQuote config quote, writtenTarget config r.target⟩, rest) := by
  obtain ⟨hne, hunquoted⟩ := htarget.written config
  rw [importOf_append config isDefault hquote h.bindings_ne_nil]
  exact importPattern_written hbefore (clearClause_written config _ h)
    (isModuleQuote_writtenQuote hq config) hne hunquoted rest

/-! ## Agreement -/

/-- A match that is the whole text is the only one. -/
lemma importStatements_of_whole {t target clause : Text} {quote : Char}
    (h : importPattern none t = some (⟨clause, quote, target⟩, [])) :
    importStatements t = [⟨t, 0, quote, target, ImportClause.parse clause⟩] := by
  obtain ⟨-, m, hm, -, -⟩ := importPattern_eq_some h
  rw [List.append_nil] at hm
  have hscan : Scan importPattern none [.found t ⟨clause, quote, target⟩] := by
    rw [hm] at h ⊢
    exact .found (by rwa [joined, List.append_nil])
      (.done (importPattern_consumes.eq_none_of_nil _))
  have hjoined : joined [Piece.found t (⟨clause, quote, target⟩ : ImportParts)] = t := by
    simp [joined, Piece.text]
  have hplaces := occurrences_eq_places hscan
  rw [hjoined] at hplaces
  unfold importStatements
  rw [hplaces]
  simp [places, Occurrence.text, slice_length]

/-- No statement that binds names is found where a module is only loaded. -/
lemma importStatements_load {quote : Char} {target : Text} (hq : isModuleQuote quote = true)
    (hbreak : '\n' ∉ target) :
    importStatements ("import ".toList ++ quote :: (target ++ [quote, ';'])) = [] := by
  have hblank : isBlank quote = false := by
    by_contra hblank
    rw [Bool.not_eq_false] at hblank
    exact absurd (plain_of_isBlank hblank).2 (by simp [hq])
  have hnowhere : Nowhere importPattern ("import ".toList
      ++ quote :: (target ++ [quote, ';'])) := by
    intro front back hsplit
    cases front with
    | nil =>
      rw [List.nil_append] at hsplit
      have hafter : after? "import".toList ("import ".toList ++ quote :: (target ++ [quote, ';'])) =
          some ([' '] ++ quote :: (target ++ [quote, ';'])) := after?_eq_some_iff.mpr rfl
      unfold importPattern
      rw [← hsplit, hafter]
      dsimp only
      rw [takeWhile_append_cons (by decide) hblank, dropWhile_append_cons (by decide) hblank]
      simp [beginsLine, clauseFrom?, hq]
    | cons c front =>
      rw [Option.eq_none_iff_forall_ne_some]
      rintro ⟨parts, rest⟩ hmatch
      obtain ⟨hbegins, -⟩ := importPattern_eq_some hmatch
      rw [List.getLast?_eq_some_getLast (List.cons_ne_nil c front), beginsLine,
        beq_iff_eq] at hbegins
      have hmem : '\n' ∈ "import ".toList ++ quote :: (target ++ [quote, ';']) := by
        rw [hsplit, ← hbegins]
        exact List.mem_append_left _ (List.getLast_mem _)
      rcases List.mem_append.mp hmem with hmem | hmem
      · exact absurd hmem (by decide)
      · have hne : '\n' ≠ quote := by
          rintro rfl
          exact absurd hq (by decide)
        simp [hbreak, hne] at hmem
  unfold importStatements
  rw [hnowhere.occurrences importPattern_consumes]
  rfl

/-- **The writer and the reader of imports agree**: the import statement of a requirement is the
only statement in its text, with the quote, the module and the bindings that it was written for; and
none is found where nothing is bound. The module is the one that was required, without the extension
`.js` when it is relative and the configuration says so. -/
theorem importStatements_importOf (config : Config) (isDefault : Option Bool) {r : Requirement}
    {quote : Char} (hq : isModuleQuote quote = true) (hquote : r.quote = [quote])
    (hbreak : '\n' ∉ r.target) :
    (PlainTarget r.target → Nameable r → ∃ target, importStatements (importOf config isDefault r) =
        [⟨importOf config isDefault r, 0, (config.quote.map Quote.char).getD quote, target,
          ⟨r.bindings.map (Binding.imported (isDefault.getD r.hasDefault)), !r.isWholeModule⟩⟩]
      ∧ (config.stripExtension = true → r.target.head? = some '.' →
        ∀ stem, r.target = stem ++ ".js".toList → target = stem)
      ∧ (config.stripExtension = false ∨ r.target.head? ≠ some '.' ∨ ¬ ".js".toList <:+ r.target →
        target = r.target)) ∧
    (r.bindings = [] → importStatements (importOf config isDefault r) = []) := by
  constructor
  · intro htarget h
    have hfound : importPattern none (importOf config isDefault r ++ []) = _ :=
      importPattern_importOf config isDefault rfl hq hquote htarget h []
    rw [List.append_nil] at hfound
    refine ⟨writtenTarget config r.target, ?_, writtenTarget_cases config r.target⟩
    rw [importStatements_of_whole hfound, (clearClause_written config _ h).parse]
    rfl
  · intro hnone
    have htext : importOf config isDefault r = "import ".toList ++ writtenQuote config quote ::
        (writtenTarget config r.target ++ [writtenQuote config quote, ';']) := by
      simp [importOf, hnone, specifier, getD_quote config hquote]
    rw [htext]
    refine importStatements_load (isModuleQuote_writtenQuote hq config) fun hmem => hbreak ?_
    rcases writtenTarget_eq config r.target with heq | heq
    · rwa [heq] at hmem
    · rw [heq]
      exact List.mem_append_left _ hmem

/-- A block of bindings whose names are words of the statement itself is read back, also when a
semicolon and the word `from` stand in the module. The relative module loses its extension. -/
theorem importStatements_importOf_words :
    let r : Requirement := ⟨"./a; from b.js".toList, [], ['\''],
      [⟨"from".toList, some "as".toList⟩, ⟨"import".toList, none⟩], false, false,
      some "  ".toList, none⟩
    importOf {} none r = "import \x7b\n  from as as,\n  import,\n\x7d from './a; from b';".toList ∧
    importStatements (importOf {} none r) =
      [⟨importOf {} none r, 0, '\'', "./a; from b".toList, ⟨[⟨.byName, "as".toList, "from".toList⟩,
        ⟨.byName, "import".toList, "import".toList⟩], true⟩⟩] := by
  intro r
  have hproper : ∀ word ∈ ["from".toList, "as".toList, "import".toList], ProperName word := by
    simp only [List.forall_mem_cons]
    refine ⟨⟨'f', "rom".toList, rfl, by decide, by decide⟩,
      ⟨'a', "s".toList, rfl, by decide, by decide⟩,
      ⟨'i', "mport".toList, rfl, by decide, by decide⟩, by simp⟩
  have hexports : ∀ b ∈ r.bindings, NamesExport b := by
    intro b hb
    simp only [r, List.mem_cons, List.not_mem_nil, or_false] at hb
    rcases hb with rfl | rfl
    · exact ⟨hproper _ (by simp), fun name hname => hproper _ (by simp_all)⟩
    · exact ⟨hproper _ (by simp), fun name hname => absurd hname (by simp)⟩
  have hindent : ∀ indent ∈ r.indent, indent ≠ [] ∧ ∀ c ∈ indent, isBlank c = true := by
    intro indent hmem
    obtain rfl := Option.some.inj hmem
    exact ⟨by decide, by decide⟩
  obtain ⟨target, hread, hgoes, -⟩ :=
    (importStatements_importOf {} none (r := r) (by decide) rfl (by decide)).1
      ⟨by decide, by decide, by decide⟩ (.exports (by decide) hexports hindent)
  obtain rfl := hgoes rfl rfl "./a; from b".toList rfl
  exact ⟨by decide, hread⟩

end Esmify
