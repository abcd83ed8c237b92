import Esmify.Proofs.Exported
import Esmify.Proofs.InlineFunction

/-!
# What the statement of a member exports

A member of an exported object becomes an export statement of its key. A function gets the key for
its name, a block arrow becomes such a function, and anything else becomes a constant: **in each of
these forms the statement is a declaration of the key** (`renderValue_cases`). There is one more
form. A value whose first line has the key between a blank and a parenthesis is taken for a function
that has its name already, and goes behind the word `export` as it is. That is a declaration of the
key exactly when the value is one (`Assignment.render_exports_iff`); a value that only calls a
function of that name is not (`Assignment.render_exports_nothing`).

A comment goes above the statement. Unless one of its own lines begins with the word `export`, it
changes nothing about what is exported (`isExported_below`). -/

namespace Esmify

open Text Source

/-! ## Declarations of a key -/

/-- A text begins with the declaration of a name that is a word of its own. -/
def OpensDeclaration (name t : Text) : Prop :=
  ∃ head back, t = head ++ (name ++ back) ∧ DeclarationHead head ∧ outsideName head.getLast? = true
    ∧ outsideName back.head? = true

/-- Behind the word `export` a declaration is an export. -/
lemma OpensDeclaration.exists_exportText {name t : Text} (h : OpensDeclaration name t) :
    ∃ u back, "export ".toList ++ t = u ++ back ∧ ExportText name u back.head? := by
  obtain ⟨head, back, rfl, hhead, -, hout⟩ := h
  refine ⟨"export".toList ++ ([' '] ++ (head ++ name)), back, ?_,
    .named (.declared (by decide) (by decide) hhead hout)⟩
  simp only [List.append_assoc]
  rfl

/-- The head of a function without a name can have one, behind a blank. -/
lemma declarationHead_of_functionValue? {t head rest : Text}
    (h : functionValue? t = some (head, rest)) :
    DeclarationHead (head ++ [' ']) ∧ rest.head? = some '(' := by
  obtain ⟨modifier, hmodifier, hsplit⟩ := skipSpacedWord_split "async".toList t
  unfold functionValue? at h
  split at h
  · next u hu =>
    have ht : t = modifier ++ ("function".toList ++ u) := by
      rw [← after?_eq_some_iff.mp hu]
      exact hsplit
    have htake : ∀ gap tail : Text, u = gap ++ tail →
        t.take (t.length - tail.length) = modifier ++ ("function".toList ++ gap) := by
      rintro gap tail rfl
      rw [ht, ← List.append_assoc, ← List.append_assoc, List.append_assoc modifier,
        List.length_append, Nat.add_sub_cancel, List.take_left]
    dsimp only at h
    split at h
    · next cs hcs =>
      obtain ⟨rfl, rfl⟩ := Prod.mk.inj (Option.some.inj h)
      refine ⟨?_, rfl⟩
      cases hstar : after? ['*'] (skipBlanks u) with
      | none =>
        rw [Option.getD_none, htake [] u rfl, List.append_nil, List.append_assoc]
        exact .function hmodifier (Or.inl (by decide))
      | some tail =>
        obtain ⟨gap, hgap, hu⟩ := (skipBlanks_eq_cons_iff (by decide)).mp
          (after?_eq_some_iff.mp hstar)
        rw [Option.getD_some, htake (gap ++ ['*']) tail (by rw [hu]; simp), List.append_assoc,
          List.append_assoc, List.append_assoc]
        exact .function hmodifier (Or.inr ⟨gap, [' '], hgap, by decide, rfl⟩)
    · cases h
  · cases h

/-- The word in front of an arrow function. -/
lemma optionalWord_of_blockArrow? {t isAsync params body : Text}
    (h : blockArrow? t = some (isAsync, params, body)) : OptionalWord "async".toList isAsync := by
  have hplain : (arrow? t).map (fun m => (([] : Text), m.1, m.2)) = some (isAsync, params, body) →
      OptionalWord "async".toList isAsync := by
    intro h
    obtain ⟨_, -, heq⟩ := Option.map_eq_some_iff.mp h
    exact Or.inl (Prod.mk.inj heq).1.symm
  unfold blockArrow? at h
  dsimp only at h
  split at h
  · next rest hrest =>
    split at h
    · obtain ⟨rfl, -⟩ := Prod.mk.inj (Option.some.inj h)
      have hword := optionalWord_take "async".toList t
      rwa [skipSpacedWord, hrest, Option.getD_some] at hword
    · exact hplain h
  · exact hplain h

/-- Parameters begin with a parenthesis. -/
lemma head?_inParens (params : Text) : (inParens params).head? = some '(' := by
  unfold inParens
  split_ifs with h
  · simpa using h
  · rfl

/-! ## Statements -/

/-- Whether a value has the key on its first line, with a blank in front and a parenthesis
behind. -/
def isNamedInside (key value : Text) : Bool :=
  occursIn (' ' :: key ++ ['(']) (value.takeWhile (· != '\n'))

/-- **The statement of a value is the value itself behind the word `export`, or it declares the
key.** -/
lemma renderValue_cases (key value : Text) :
    (isNamedInside key value = true ∧ renderValue key value = "export ".toList ++ value)
      ∨ (isNamedInside key value = false
        ∧ ∃ t, renderValue key value = "export ".toList ++ t ∧ OpensDeclaration key t) := by
  have hconstant : ∃ t, "export const ".toList ++ key ++ " = ".toList ++ value ++ [';'] =
      "export ".toList ++ t ∧ OpensDeclaration key t := by
    have hhead : DeclarationHead ([] ++ ("const".toList ++ [' '])) :=
      .keyword (Or.inl rfl) (by decide) (by decide)
    exact ⟨"const ".toList ++ (key ++ (" = ".toList ++ value ++ [';'])), by simp, _, _, rfl, hhead,
      by decide, rfl⟩
  unfold renderValue
  cases hnamed : isNamedInside key value with
  | true => exact Or.inl ⟨rfl, if_pos hnamed⟩
  | false =>
    refine Or.inr ⟨rfl, ?_⟩
    dsimp only
    rw [if_neg (by rw [← isNamedInside, hnamed]; decide)]
    split
    · next head rest hfunction =>
      obtain ⟨hhead, hparen⟩ := declarationHead_of_functionValue? hfunction
      refine ⟨(head ++ [' ']) ++ (key ++ rest), by simp, _, _, rfl, hhead, ?_, by rw [hparen]; rfl⟩
      rw [List.getLast?_concat]
      rfl
    · split
      · next isAsync params body harrow =>
        split_ifs
        · have hhead : DeclarationHead (isAsync ++ ("function".toList ++ [' '])) :=
            .function (optionalWord_of_blockArrow? harrow) (Or.inl (by decide))
          refine ⟨_, ?_, _, inParens params ++ ' ' :: body, rfl, hhead, ?_, ?_⟩
          · simp
          · rw [← List.append_assoc, List.getLast?_concat]
            rfl
          · rw [List.head?_append, head?_inParens]
            rfl
        · exact hconstant
      · exact hconstant

/-! ## Lines -/

/-- An export of a name begins with the word `export`. -/
lemma ExportText.exists_eq {name u : Text} {next : Option Char} (h : ExportText name u next) :
    ∃ t, u = "export".toList ++ t := by
  cases h with
  | named h => cases h <;> exact ⟨_, rfl⟩
  | preset _ _ _ _ _ _ => exact ⟨_, rfl⟩

/-- Lines begin behind a line break as they do at the front of a text. -/
lemma beginsLine_behind_break (a front : Text) :
    beginsLine (a ++ '\n' :: front).getLast? = beginsLine front.getLast? := by
  rw [List.getLast?_append_of_ne_nil _ (List.cons_ne_nil _ _)]
  cases front with
  | nil => rfl
  | cons c front => rw [List.getLast?_cons_cons]

/-- **An export in a text with a line break begins in front of the break or behind it.** -/
lemma isExported_append_break {a b name : Text} : isExported (a ++ '\n' :: b) name = true ↔
    (∃ front rest, a = front ++ rest ∧ beginsLine front.getLast? = true
      ∧ ∃ u back, rest ++ '\n' :: b = u ++ back ∧ ExportText name u back.head?)
    ∨ isExported b name = true := by
  rw [isExported_iff, isExported_iff]
  constructor
  · rintro ⟨front, u, back, hsplit, hbegins, hu⟩
    rcases List.append_eq_append_iff.mp hsplit with ⟨more, rfl, hmore⟩ | ⟨rest, rfl, hrest⟩
    · cases more with
      | nil =>
        rw [List.append_nil] at hbegins
        exact Or.inl ⟨a, [], by rw [List.append_nil], hbegins, u, back, hmore, hu⟩
      | cons c more =>
        obtain ⟨rfl, hb⟩ := List.cons.inj hmore
        rw [beginsLine_behind_break] at hbegins
        exact Or.inr ⟨more, u, back, hb, hbegins, hu⟩
    · exact Or.inl ⟨front, rest, rfl, hbegins, u, back, hrest.symm, hu⟩
  · rintro (⟨front, rest, rfl, hbegins, u, back, hsplit, hu⟩ | ⟨front, u, back, rfl, hbegins, hu⟩)
    · exact ⟨front, u, back, by rw [List.append_assoc, hsplit], hbegins, hu⟩
    · refine ⟨a ++ '\n' :: front, u, back, by simp only [List.append_assoc, List.cons_append],
        ?_, hu⟩
      rw [beginsLine_behind_break]
      exact hbegins

/-- No line of a text begins with the word `export`. -/
def NoExportLine (t : Text) : Prop :=
  ∀ front back, t = front ++ ("export".toList ++ back) → beginsLine front.getLast? = false

/-- **Below lines that do not begin with the word `export` the same names are exported.** -/
lemma isExported_below {a : Text} (h : NoExportLine a) (b name : Text) :
    isExported (a ++ '\n' :: b) name = isExported b name := by
  rw [Bool.eq_iff_iff, isExported_append_break, or_iff_right]
  rintro ⟨front, rest, rfl, hbegins, u, back, hsplit, hu⟩
  obtain ⟨t, rfl⟩ := hu.exists_eq
  rw [List.append_assoc] at hsplit
  -- the word cannot run over the line break
  rcases List.append_eq_append_iff.mp hsplit with ⟨more, hmore, hbreak⟩ | ⟨more, rfl, -⟩
  · cases more with
    | nil =>
      rw [List.append_nil] at hmore
      rw [h front [] (by rw [← hmore, List.append_nil])] at hbegins
      cases hbegins
    | cons c more =>
      obtain ⟨rfl, -⟩ := List.cons.inj hbreak
      have hmem : '\n' ∈ "export".toList := by rw [hmore]; simp
      exact absurd hmem (by decide)
  · rw [h front more rfl] at hbegins
    cases hbegins

/-- What follows the first line of a text. -/
def belowFirstLine (t : Text) : Text :=
  (t.dropWhile (· != '\n')).drop 1

/-- **A value behind the word `export` exports a name** when that makes it an export, or when a line
further down is one. -/
lemma isExported_verbatim_iff {value name : Text} :
    isExported ("export ".toList ++ value) name = true ↔
      (∃ u back, "export ".toList ++ value = u ++ back ∧ ExportText name u back.head?)
        ∨ isExported (belowFirstLine value) name = true := by
  obtain ⟨line, hline, hsplit, hrest⟩ := dropWhile_split (· != '\n') value
  have hfirst : ∀ front rest : Text, "export ".toList ++ line = front ++ rest →
      beginsLine front.getLast? = true → front = [] := by
    intro front rest hfront hbegins
    cases hlast : front.getLast? with
    | none => exact List.getLast?_eq_none_iff.mp hlast
    | some c =>
      have hmem : c ∈ "export ".toList ++ line := by
        rw [hfront]
        exact List.mem_append_left _ (List.mem_of_getLast? hlast)
      rw [hlast] at hbegins
      obtain rfl : c = '\n' := by simpa [beginsLine] using hbegins
      rcases List.mem_append.mp hmem with hmem | hmem
      · exact absurd hmem (by decide)
      · exact absurd (hline _ hmem) (by decide)
  unfold belowFirstLine
  cases hbelow : value.dropWhile (· != '\n') with
  | nil =>
    have hnone : ¬ isExported [] name = true := by
      rw [isExported_iff]
      rintro ⟨front, u, back, hnil, -, hu⟩
      obtain ⟨t, rfl⟩ := hu.exists_eq
      simp at hnil
    rw [hbelow, List.append_nil] at hsplit
    rw [List.drop_nil, or_iff_left hnone, isExported_iff, hsplit]
    constructor
    · rintro ⟨front, u, back, hfront, hbegins, hu⟩
      obtain rfl := hfirst front _ hfront hbegins
      exact ⟨u, back, hfront, hu⟩
    · rintro ⟨u, back, hu, htext⟩
      exact ⟨[], u, back, hu, rfl, htext⟩
  | cons c below =>
    obtain rfl : c = '\n' := by simpa using hrest c below hbelow
    rw [hbelow] at hsplit
    rw [List.drop_succ_cons, List.drop_zero, hsplit, ← List.append_assoc, isExported_append_break]
    refine or_congr_left ⟨?_, ?_⟩
    · rintro ⟨front, rest, hfront, hbegins, u, back, hu, htext⟩
      obtain rfl := hfirst front rest hfront hbegins
      rw [List.nil_append] at hfront
      exact ⟨u, back, by rw [hfront, hu], htext⟩
    · rintro ⟨u, back, hu, htext⟩
      exact ⟨[], "export ".toList ++ line, rfl, rfl, u, back, hu, htext⟩

/-! ## Members -/

/-- **The statement of a member declares its key exactly when the value is not taken for a function
of that name, or is a declaration of it.** For the name to count as exported it is also enough that
the value is another export of the key behind the word `export`, or has one on a line further down.
A comment goes above the statement, and one without a line that begins with `export` makes no
difference. -/
theorem Assignment.render_exports_iff (key value : Text) :
    ((∃ t, (Assignment.mk key value none).render = "export ".toList ++ t ∧ OpensDeclaration key t)
      ↔ (isNamedInside key value = true → OpensDeclaration key value))
    ∧ (isExported (Assignment.mk key value none).render key = true
      ↔ (isNamedInside key value = true →
        (∃ u back, "export ".toList ++ value = u ++ back ∧ ExportText key u back.head?)
          ∨ isExported (belowFirstLine value) key = true))
    ∧ ∀ comment, (comment ≠ [] → (Assignment.mk key value (some comment)).render =
        comment ++ '\n' :: (Assignment.mk key value none).render)
      ∧ (NoExportLine comment → isExported (Assignment.mk key value (some comment)).render key =
        isExported (Assignment.mk key value none).render key) := by
  have hplain : (Assignment.mk key value none).render = renderValue key value := rfl
  rw [hplain]
  refine ⟨?_, ?_, fun comment => ?_⟩
  · rcases renderValue_cases key value with ⟨hnamed, hvalue⟩ | ⟨hnamed, t, ht, hopens⟩
    · rw [hvalue, hnamed]
      constructor
      · rintro ⟨t, ht, hopens⟩ -
        rwa [List.append_cancel_left ht]
      · exact fun hopens => ⟨value, rfl, hopens rfl⟩
    · rw [hnamed]
      exact ⟨fun _ h => absurd h (by decide), fun _ => ⟨t, ht, hopens⟩⟩
  · rcases renderValue_cases key value with ⟨hnamed, hvalue⟩ | ⟨hnamed, t, ht, hopens⟩
    · rw [hvalue, hnamed, isExported_verbatim_iff]
      exact ⟨fun h _ => h, fun h => h rfl⟩
    · rw [hnamed, ht, isExported_verbatim_iff]
      exact ⟨fun _ h => absurd h (by decide), fun _ => Or.inl hopens.exists_exportText⟩
  · cases comment with
    | nil => exact ⟨fun hne => absurd rfl hne, fun _ => rfl⟩
    | cons c cs => exact ⟨fun _ => rfl, fun hclean => isExported_below hclean _ key⟩

/-- A function that has the name of its key, and calls itself. -/
def sumFunction : Text :=
  "async function sum(a, b) \x7b\n  return a ? sum(b) : 0;\n\x7d".toList

/-- A function that is named inside is exported by its declaration, with and without a comment
above. -/
theorem Assignment.render_exports_iff_named :
    isNamedInside "sum".toList sumFunction = true
      ∧ (∃ t, (Assignment.mk "sum".toList sumFunction none).render = "export ".toList ++ t
        ∧ OpensDeclaration "sum".toList t)
      ∧ (Assignment.mk "sum".toList sumFunction (some "// adds up".toList)).render =
        "// adds up".toList ++ '\n' :: ("export ".toList ++ sumFunction)
      ∧ isExported (Assignment.mk "sum".toList sumFunction (some "// adds up".toList)).render
        "sum".toList = true := by
  have hopens : OpensDeclaration "sum".toList sumFunction :=
    ⟨"async".toList ++ [' '] ++ ("function".toList ++ [' ']), _, rfl,
      .function (Or.inr ⟨[' '], by decide, by decide, rfl⟩) (Or.inl (by decide)), by decide, rfl⟩
  have hclean : NoExportLine "// adds up".toList := by
    intro front back hsplit
    have hword : occursIn "export".toList "// adds up".toList = true :=
      occursIn_iff.mpr ⟨front, back, hsplit⟩
    exact absurd hword (by decide)
  obtain ⟨hdeclares, hexports, hcomment⟩ := Assignment.render_exports_iff "sum".toList sumFunction
  obtain ⟨hrender, hsame⟩ := hcomment "// adds up".toList
  refine ⟨by decide, hdeclares.mpr fun _ => hopens, ?_, ?_⟩
  · rw [hrender (by decide)]
    decide
  · rw [hsame hclean, hexports]
    exact fun _ => Or.inl hopens.exists_exportText

/-- **A value that calls a function of the name of its key is not exported at all**: the text behind
the word `export` is no declaration, and the key counts as exported nowhere. -/
theorem Assignment.render_exports_nothing :
    (Assignment.mk "f".toList "1 + f(2)".toList none).render = "export 1 + f(2)".toList
      ∧ isExported (Assignment.mk "f".toList "1 + f(2)".toList none).render "f".toList = false := by
  decide

end Esmify
