import Esmify.Export.Declaration
import Esmify.Proofs.Lexeme
import Esmify.Proofs.Scan

/-!
# What declares a name

The recognisers of declarations as a grammar. **A declaration head** is what may stand in front of
the name: a declaring word with white space behind it, and perhaps the word `async` before it;
before the name of a function there may be a star. Where a declaration is found
(`declaration?_eq_some`), a head stands at the start of a line, the name behind it, and the name
ends there. -/

namespace Esmify

open Text Source

/-! ## Words that may be missing -/

/-- A word with white space behind it, or nothing. -/
def OptionalWord (word t : Text) : Prop :=
  t = [] ∨ ∃ gap, gap ≠ [] ∧ (∀ c ∈ gap, isBlank c = true) ∧ t = word ++ gap

/-- A word that may be missing is passed over with its white space. -/
lemma skipSpacedWord_split (word t : Text) :
    ∃ passed, OptionalWord word passed ∧ t = passed ++ skipSpacedWord word t := by
  unfold skipSpacedWord
  cases h : spacedWord? word t with
  | none => exact ⟨[], Or.inl rfl, rfl⟩
  | some rest =>
    obtain ⟨gap, hne, hgap, ht, -⟩ := spacedWord?_eq_some_iff.mp h
    exact ⟨word ++ gap, Or.inr ⟨gap, hne, hgap, rfl⟩, by rw [ht, List.append_assoc]; rfl⟩

/-- In front of something that is neither white space nor the word's beginning, exactly the word
that may be missing is passed over. -/
lemma skipSpacedWord_append {x c : Char} {word passed t : Text}
    (h : OptionalWord (x :: word) passed) (hc : isBlank c = false) (hne : x ≠ c) :
    skipSpacedWord (x :: word) (passed ++ c :: t) = c :: t := by
  unfold skipSpacedWord
  rcases h with rfl | ⟨gap, hgap, hblank, rfl⟩
  · have hnone : spacedWord? (x :: word) (c :: t) = none := by
      simp only [spacedWord?, after?, if_neg hne, Option.bind_none]
    rw [List.nil_append, hnone, Option.getD_none]
  · have hsome : spacedWord? (x :: word) (x :: word ++ gap ++ c :: t) = some (c :: t) := by
      refine spacedWord?_eq_some_iff.mpr ⟨gap, hgap, hblank, by rw [List.append_assoc], ?_⟩
      intro d r hd
      rwa [← (List.cons.inj hd).1]
    rw [hsome, Option.getD_some]

/-! ## Heads -/

/-- White space with at most one star in it. -/
def StarGap (gap : Text) : Prop :=
  (∀ c ∈ gap, isBlank c = true) ∨
    ∃ l r, (∀ c ∈ l, isBlank c = true) ∧ (∀ c ∈ r, isBlank c = true) ∧ gap = l ++ '*' :: r

/-- A gap at the front of a text is within the reach of `starGap`. -/
lemma StarGap.length_le {gap : Text} (h : StarGap gap) (rest : Text) :
    gap.length ≤ starGap (gap ++ rest) := by
  have hlong : ∀ {l r : Text}, (∀ c ∈ l, isBlank c = true) →
      l.length ≤ ((l ++ r).takeWhile isBlank).length := by
    intro l r hl
    rw [le_length_takeWhile_iff (by simp), List.take_left]
    exact hl
  rcases h with hgap | ⟨l, r, hl, hr, rfl⟩
  · have := hlong (r := rest) hgap
    unfold starGap
    dsimp only
    split <;> omega
  · have hstar : isBlank '*' = false := by decide
    have := hlong (r := rest) hr
    rw [List.append_assoc, List.cons_append, starGap, dropWhile_append_cons hl hstar,
      takeWhile_append_cons hl hstar]
    simp only [List.length_append, List.length_cons]
    omega

/-- What is within the reach of `starGap` is a gap. -/
lemma starGap_take {t : Text} {k : Nat} (h : k ≤ starGap t) : StarGap (t.take k) := by
  obtain ⟨l, hl, hsplit, -⟩ := dropWhile_split isBlank t
  have hlength : (t.takeWhile isBlank).length = l.length := by
    have := congrArg List.length (List.takeWhile_append_dropWhile (p := isBlank) (l := t))
    have := congrArg List.length hsplit
    simp only [List.length_append] at *
    omega
  by_cases hk : k ≤ l.length
  · left
    intro c hc
    rw [hsplit, List.take_append_of_le_length hk] at hc
    exact hl c (List.mem_of_mem_take hc)
  · -- the reach goes beyond the first white space only behind a star
    unfold starGap at h
    dsimp only at h
    split at h
    · next rest hrest =>
      rw [hrest] at hsplit
      obtain ⟨j, rfl⟩ : ∃ j, k = l.length + (j + 1) := ⟨k - l.length - 1, by omega⟩
      refine Or.inr ⟨l, rest.take j, hl, ?_, ?_⟩
      · have hle : (rest.takeWhile isBlank).length ≤ rest.length :=
          (List.takeWhile_sublist _).length_le
        exact (le_length_takeWhile_iff (by omega)).mp (by omega)
      · rw [hsplit, List.take_length_add_append, List.take_succ_cons]
    · omega

/-- What is found behind white space with a star in it stands behind such a gap. -/
lemma rightmost?_starGap_isSome_iff {α : Type} {f : Text → Option α} {t : Text} :
    (rightmost? f (starGap t) t).isSome = true ↔
      ∃ gap rest, StarGap gap ∧ t = gap ++ rest ∧ (f rest).isSome = true := by
  rw [rightmost?_isSome_iff]
  constructor
  · rintro ⟨k, hk, hf⟩
    exact ⟨t.take k, t.drop k, starGap_take hk, (List.take_append_drop k t).symm, hf⟩
  · rintro ⟨gap, rest, hgap, rfl, hf⟩
    exact ⟨gap.length, hgap.length_le rest, by rwa [List.drop_left]⟩

/-- What stands in front of the name in a declaration. -/
inductive DeclarationHead : Text → Prop
  | function {modifier gap : Text} : OptionalWord "async".toList modifier → StarGap gap →
    DeclarationHead (modifier ++ ("function".toList ++ gap))
  | keyword {modifier word gap : Text} : OptionalWord "async".toList modifier →
    word ∈ variableKeywords ++ ["class".toList] → (∀ c ∈ gap, isBlank c = true) →
    DeclarationHead (modifier ++ (word ++ gap))

/-- A function, a variable or a class is declared by one of five words. -/
def declaringWords : List Text :=
  "function".toList :: (variableKeywords ++ ["class".toList])

/-- None of the declaring words can be taken for a modifier. -/
lemma exists_cons_of_mem_declaringWords {word : Text} (h : word ∈ declaringWords) :
    ∃ c cs, word = c :: cs ∧ isBlank c = false ∧ 'd' ≠ c ∧ 'a' ≠ c := by
  simp only [declaringWords, variableKeywords, List.cons_append, List.nil_append, List.mem_cons,
    List.not_mem_nil, or_false] at h
  rcases h with rfl | rfl | rfl | rfl | rfl
  all_goals exact ⟨_, _, rfl, by decide, by decide, by decide⟩

/-- In front of a declaring word exactly the modifiers are passed over. -/
lemma skip_modifiers {preset modifier word : Text} (hpreset : OptionalWord "default".toList preset)
    (hmodifier : OptionalWord "async".toList modifier) (hword : word ∈ declaringWords) (t : Text) :
    skipSpacedWord "async".toList
      (skipSpacedWord "default".toList (preset ++ (modifier ++ (word ++ t)))) = word ++ t := by
  obtain ⟨c, cs, rfl, hc, hd, ha⟩ := exists_cons_of_mem_declaringWords hword
  have hasync : skipSpacedWord "async".toList (modifier ++ (c :: cs ++ t)) = c :: cs ++ t :=
    skipSpacedWord_append hmodifier hc ha
  have hdefault : skipSpacedWord "default".toList (preset ++ (modifier ++ (c :: cs ++ t))) =
      modifier ++ (c :: cs ++ t) := by
    rcases hmodifier with rfl | ⟨gap, -, -, rfl⟩
    · exact skipSpacedWord_append hpreset hc hd
    · exact skipSpacedWord_append hpreset (by decide) (by decide)
  rw [hdefault, hasync]

/-- A keyword at the front is found, and is not the word `function`. -/
lemma after?_keyword {word : Text} (h : word ∈ variableKeywords ++ ["class".toList]) (t : Text) :
    after? "function".toList (word ++ t) = none
      ∧ oneOf? (variableKeywords ++ ["class".toList]) (word ++ t) = some t := by
  simp only [variableKeywords, List.cons_append, List.nil_append, List.mem_cons, List.not_mem_nil,
    or_false] at h
  rcases h with rfl | rfl | rfl | rfl
  all_goals exact ⟨rfl, rfl⟩

/-- One of several words at the front. -/
lemma oneOf?_eq_some {words : List Text} {t rest : Text} (h : oneOf? words t = some rest) :
    ∃ word ∈ words, t = word ++ rest := by
  obtain ⟨word, hmem, hafter⟩ := List.exists_of_findSome?_eq_some h
  exact ⟨word, hmem, after?_eq_some_iff.mp hafter⟩

/-- A declaration begins with one of few letters. -/
lemma DeclarationHead.exists_cons {head : Text} (h : DeclarationHead head) :
    ∃ c cs, head = c :: cs ∧ c ∈ "afclv".toList := by
  have hword : ∀ word ∈ declaringWords, ∃ c cs, word = c :: cs ∧ c ∈ "afclv".toList := by
    intro word hmem
    simp only [declaringWords, variableKeywords, List.cons_append, List.nil_append, List.mem_cons,
      List.not_mem_nil, or_false] at hmem
    rcases hmem with rfl | rfl | rfl | rfl | rfl
    all_goals exact ⟨_, _, rfl, by decide⟩
  have hmodified : ∀ {modifier word gap : Text}, OptionalWord "async".toList modifier →
      word ∈ declaringWords → ∃ c cs, modifier ++ (word ++ gap) = c :: cs ∧ c ∈ "afclv".toList := by
    rintro modifier word gap (rfl | ⟨gap', -, -, rfl⟩) hmem
    · obtain ⟨c, cs, rfl, hc⟩ := hword word hmem
      exact ⟨c, cs ++ gap, rfl, hc⟩
    · exact ⟨'a', _, rfl, by decide⟩
  cases h with
  | function hmodifier _ => exact hmodified hmodifier (by simp [declaringWords])
  | keyword hmodifier hmem _ => exact hmodified hmodifier (List.mem_cons_of_mem _ hmem)

/-! ## Declarations -/

/-- A declaration of a name begins here. -/
def Declares (name : Text) (before : Option Char) (t : Text) : Prop :=
  beginsLine before = true ∧ ∃ head back, t = head ++ (name ++ back) ∧ DeclarationHead head
    ∧ outsideName back.head? = true

/-- What stands before a parenthesis, white space aside, ends there. -/
lemma outsideName_of_skipBlanks {t rest : Text} (h : skipBlanks t = '(' :: rest) :
    outsideName t.head? = true := by
  obtain ⟨gap, hgap, rfl⟩ := (skipBlanks_eq_cons_iff (by decide)).mp h
  cases gap with
  | nil => exact (by decide : outsideName (some '(') = true)
  | cons c gap =>
    have hc := isNameChar_of_isBlank (hgap c List.mem_cons_self)
    simp only [List.cons_append, List.head?_cons, outsideName, hc, Bool.not_false]

/-- A function declaration declares its name. -/
lemma declares_of_function {name t rest : Text} {before : Option Char} {u : Unit}
    (h : functionDeclaration name before t = some (u, rest)) : Declares name before t := by
  unfold functionDeclaration at h
  split_ifs at h with hbegins
  cases hafter : after? "function".toList (skipSpacedWord "async".toList t) with
  | none =>
    rw [hafter] at h
    cases h
  | some tail =>
    simp only [hafter] at h
    obtain ⟨rest', hright, -⟩ := Option.map_eq_some_iff.mp h
    obtain ⟨gap, called, hgap, rfl, hcalled⟩ :=
      rightmost?_starGap_isSome_iff.mp (Option.isSome_iff_exists.mpr ⟨_, hright⟩)
    obtain ⟨rest'', hcalled⟩ := Option.isSome_iff_exists.mp hcalled
    obtain ⟨spaced, hspaced, hparen⟩ := Option.bind_eq_some_iff.mp hcalled
    obtain ⟨back, rfl, rfl⟩ := wordThenBlanks?_eq_some_iff.mp hspaced
    obtain ⟨modifier, hmodifier, ht⟩ := skipSpacedWord_split "async".toList t
    refine ⟨hbegins, modifier ++ ("function".toList ++ gap), back, ?_, .function hmodifier hgap,
      outsideName_of_skipBlanks (after?_eq_some_iff.mp hparen)⟩
    rw [after?_eq_some_iff.mp hafter] at ht
    simpa only [List.append_assoc] using ht

/-- A word, some white space and a name declare the name. -/
lemma declares_of_keyword {name t rest : Text} {before : Option Char} {word : Text}
    (hbegins : beginsLine before = true) (hword : word ∈ variableKeywords ++ ["class".toList])
    (ht : t = word ++ rest) (h : (afterSomeBlanks? (endedName? name) rest).isSome = true) :
    Declares name before t := by
  obtain ⟨gap, named, -, hgap, rfl, hnamed⟩ := afterSomeBlanks?_isSome_iff.mp h
  obtain ⟨back, hback⟩ := Option.isSome_iff_exists.mp hnamed
  obtain ⟨rfl, hout⟩ := endedName?_eq_some_iff.mp hback
  refine ⟨hbegins, [] ++ (word ++ gap), back, ?_, .keyword (Or.inl rfl) hword hgap, hout⟩
  rw [ht, List.nil_append, List.append_assoc]

/-- A declaration of a variable declares its name. -/
lemma declares_of_variable {name t rest : Text} {before : Option Char} {u : Unit}
    (h : variableDeclaration name before t = some (u, rest)) : Declares name before t := by
  unfold variableDeclaration at h
  split_ifs at h with hbegins
  obtain ⟨back, hback, -⟩ := Option.map_eq_some_iff.mp h
  obtain ⟨tail, hone, htail⟩ := Option.bind_eq_some_iff.mp hback
  obtain ⟨word, hword, ht⟩ := oneOf?_eq_some hone
  exact declares_of_keyword hbegins (List.mem_append_left _ hword) ht
    (Option.isSome_iff_exists.mpr ⟨back, htail⟩)

/-- A class declaration declares its name. -/
lemma declares_of_class {name t rest : Text} {before : Option Char} {u : Unit}
    (h : classDeclaration name before t = some (u, rest)) : Declares name before t := by
  unfold classDeclaration at h
  split_ifs at h with hbegins
  obtain ⟨back, hback, -⟩ := Option.map_eq_some_iff.mp h
  obtain ⟨tail, hafter, htail⟩ := Option.bind_eq_some_iff.mp hback
  exact declares_of_keyword hbegins (List.mem_append_right _ (List.mem_singleton_self _))
    (after?_eq_some_iff.mp hafter) (Option.isSome_iff_exists.mpr ⟨back, htail⟩)

/-- The patterns by which a declaration of a name is found. -/
def declarationPatterns (name : Text) : List (Pattern Unit) :=
  [functionDeclaration name, variableDeclaration name, classDeclaration name]

/-- Every pattern for declarations finds a declaration of the name. -/
lemma declares_of_pattern {name t : Text} {before : Option Char} {p : Pattern Unit}
    (hp : p ∈ declarationPatterns name) (h : (p before t).isSome = true) :
    Declares name before t := by
  obtain ⟨⟨u, rest⟩, hmatch⟩ := Option.isSome_iff_exists.mp h
  simp only [declarationPatterns, List.mem_cons, List.not_mem_nil, or_false] at hp
  rcases hp with rfl | rfl | rfl
  · exact declares_of_function hmatch
  · exact declares_of_variable hmatch
  · exact declares_of_class hmatch

/-- A declaration is a match of one of the patterns. -/
lemma exists_of_declaration? {t name : Text} {d : Occurrence Unit}
    (h : declaration? t name = some d) :
    ∃ p ∈ declarationPatterns name, first? p t = some d := by
  unfold declaration? at h
  rcases Option.or_eq_some_iff.mp h with h | ⟨-, h⟩
  · rcases Option.or_eq_some_iff.mp h with h | ⟨-, h⟩
    · exact ⟨_, by simp [declarationPatterns], h⟩
    · exact ⟨_, by simp [declarationPatterns], h⟩
  · exact ⟨_, by simp [declarationPatterns], h⟩

/-- A declaration is found when one of the patterns matches. -/
lemma isSome_declaration? {t name : Text} {p : Pattern Unit} (hp : p ∈ declarationPatterns name)
    (h : holdsSomewhere p t = true) : (declaration? t name).isSome = true := by
  unfold declaration?
  simp only [Option.isSome_or, Bool.or_eq_true]
  simp only [declarationPatterns, List.mem_cons, List.not_mem_nil, or_false] at hp
  rcases hp with rfl | rfl | rfl
  · exact Or.inl (Or.inl h)
  · exact Or.inl (Or.inr h)
  · exact Or.inr h

/-- **A declaration stands where it was found**, at the start of a line. -/
lemma declaration?_eq_some {t name : Text} {d : Occurrence Unit}
    (h : declaration? t name = some d) :
    ∃ front back, t = front ++ back ∧ d.start = front.length
      ∧ Declares name front.getLast? back := by
  obtain ⟨p, hp, hfirst⟩ := exists_of_declaration? h
  obtain ⟨front, back, rest, hsplit, hstart, hmatch⟩ := first?_eq_some hfirst
  exact ⟨front, back, hsplit, hstart,
    declares_of_pattern hp (Option.isSome_iff_exists.mpr ⟨_, hmatch⟩)⟩

end Esmify
