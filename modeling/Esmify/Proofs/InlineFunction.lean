import Esmify.Export.Inline
import Esmify.Proofs.Declared
import Esmify.Proofs.Rendered

/-!
# Function values of inline exports

**A function value becomes a declaration of the exported name** (`inlineFunction?_eq_some`): the
head of a declaration stands in front of the name, and behind it the parenthesis of the parameters.
What follows the statement is the end of the text that was read. -/

namespace Esmify

open Text Source

/-! ## What follows -/

/-- What stands between brackets begins with the first of them, and the rest ends the text. -/
lemma bracketed?_eq_some {t inside rest : Text} (h : bracketed? t = some (inside, rest)) :
    inside.head? = t.head? ∧ rest <:+ t := by
  obtain ⟨close, -, heq⟩ := Option.map_eq_some_iff.mp h
  obtain ⟨rfl, rfl⟩ := Prod.mk.inj heq
  exact ⟨List.head?_take.trans (if_neg (Nat.succ_ne_zero close)), List.drop_suffix _ t⟩

/-- What follows a block ends the text. -/
lemma block?_suffix {t body rest : Text} (h : block? t = some (body, rest)) : rest <:+ t := by
  unfold block? at h
  split_ifs at h
  exact (bracketed?_eq_some h).2

/-- What follows an optional semicolon ends the text. -/
lemma skipSemicolon_suffix (t : Text) : skipSemicolon t <:+ t := by
  unfold skipSemicolon
  cases h : after? [';'] (skipIndent t) with
  | none => exact List.suffix_rfl
  | some rest => exact (after?_suffix h).trans (List.dropWhile_suffix _)

/-- What follows wrapped parentheses ends the text. -/
lemma unwrap?_suffix {t rest : Text} (h : unwrap? t = some rest) : rest <:+ t := by
  unfold unwrap? at h
  split at h
  · next rest' hclose =>
    split_ifs at h
    obtain rfl := Option.some.inj h
    exact (List.suffix_cons _ _).trans (hclose ▸ List.dropWhile_suffix isGap)
  · cases h

/-! ## Declarations -/

/-- What a function value is written as: a declaration of the name with its parameters. -/
def FunctionText (name declaration : Text) : Prop :=
  ∃ head tail, DeclarationHead head ∧ declaration = head ++ (name ++ '(' :: tail)

/-- The word in front of a function is passed over with its white space. -/
lemma optionalWord_take (word t : Text) :
    OptionalWord word (t.take (t.length - (skipSpacedWord word t).length)) := by
  obtain ⟨passed, hpassed, hsplit⟩ := skipSpacedWord_split word t
  have hlength := congrArg List.length hsplit
  rw [List.length_append] at hlength
  have htake : t.take (t.length - (skipSpacedWord word t).length) = passed := by
    rw [show t.length - (skipSpacedWord word t).length = passed.length by omega]
    exact (congrArg (List.take passed.length) hsplit).trans List.take_left
  rwa [htake]

/-- The parts of the head of a function expression. -/
lemma functionHead?_eq_some {t : Text} {h : FunctionHead} (hh : functionHead? t = some h) :
    OptionalWord "async".toList h.modifier ∧ h.fromParams.head? = some '('
      ∧ h.fromParams <:+ t := by
  unfold functionHead? at hh
  split at hh
  next wrapped u hu =>
  have hsuffix : u <:+ t := by
    split at hu
    · obtain ⟨-, rfl⟩ := Prod.mk.inj hu
      exact (skipBlanks_suffix _).trans (List.suffix_cons _ _)
    · obtain ⟨-, rfl⟩ := Prod.mk.inj hu
      exact List.suffix_rfl
  dsimp only at hh
  split at hh
  · next rest hrest =>
    have hasync : (spacedWord? "async".toList u).getD u <:+ u := by
      cases hword : spacedWord? "async".toList u with
      | none => exact List.suffix_rfl
      | some r => exact spacedWord?_suffix hword
    -- the name of its own, behind the star if there is one
    have hnamed : ∀ (star : Bool) (r : Text), r <:+ rest →
        (if (skipBlanks (((name? r).map Prod.snd).getD r)).head? == some '(' then
          some ⟨wrapped, u.take (u.length - ((spacedWord? "async".toList u).getD u).length), star,
            skipBlanks (((name? r).map Prod.snd).getD r)⟩ else none) = some h →
        OptionalWord "async".toList h.modifier ∧ h.fromParams.head? = some '('
          ∧ h.fromParams <:+ t := by
      intro star r hr heq
      split_ifs at heq with hparen
      obtain rfl := Option.some.inj heq
      have hname : ((name? r).map Prod.snd).getD r <:+ r := by
        cases hn : name? r with
        | none => exact List.suffix_rfl
        | some r => exact name?_suffix hn
      exact ⟨optionalWord_take "async".toList u, by simpa using hparen,
        ((((skipBlanks_suffix _).trans hname).trans hr).trans (after?_suffix hrest)).trans
          (hasync.trans hsuffix)⟩
    by_cases houtside : outsideWord rest.head? = true
    · rw [if_pos houtside] at hh
      split at hh
      · next cs hcs =>
        exact hnamed true (skipBlanks cs)
          (((skipBlanks_suffix _).trans (List.suffix_cons _ _)).trans
          (hcs ▸ skipBlanks_suffix rest)) hh
      · exact hnamed false (skipBlanks rest) (skipBlanks_suffix rest) hh
    · rw [if_neg houtside] at hh
      cases hh
  · cases hh

/-- **A function value becomes a declaration of the name.** -/
theorem inlineFunction?_eq_some {t name declaration rest : Text}
    (h : inlineFunction? t name = some (declaration, rest)) :
    FunctionText name declaration ∧ rest <:+ t := by
  have hblank : ∀ c ∈ [' '], isBlank c = true := by decide
  unfold inlineFunction? at h
  split at h
  · next head hhead =>
    obtain ⟨hmodifier, hparen, hsuffix⟩ := functionHead?_eq_some hhead
    unfold namedFunction? at h
    split at h
    · next params behind hparams =>
      obtain ⟨hfirst, hbehind⟩ := bracketed?_eq_some hparams
      split at h
      · next body after hbody =>
        dsimp only at h
        obtain ⟨last, hlast, heq⟩ := Option.map_eq_some_iff.mp h
        obtain ⟨rfl, rfl⟩ := Prod.mk.inj heq
        constructor
        · obtain ⟨inside, rfl⟩ : ∃ inside, params = '(' :: inside := by
            rw [hparen] at hfirst
            exact List.head?_eq_some_iff.mp hfirst
          refine ⟨head.modifier
              ++ ("function".toList ++ ((if head.isGenerator then ['*'] else []) ++ [' '])),
            inside ++ ' ' :: body, .function hmodifier ?_, by simp⟩
          split_ifs
          · exact Or.inr ⟨[], [' '], by simp, hblank, rfl⟩
          · exact Or.inl hblank
        · have hunwrapped : last <:+ after := by
            split_ifs at hlast
            · exact unwrap?_suffix hlast
            · obtain rfl := Option.some.inj hlast
              exact List.suffix_rfl
          have hafter : after <:+ behind := (block?_suffix hbody).trans (List.dropWhile_suffix _)
          exact (((skipSemicolon_suffix last).trans hunwrapped).trans hafter).trans
            (hbehind.trans hsuffix)
      · cases h
    · cases h
  · split at h
    · next params body harrow =>
      obtain ⟨⟨body', after⟩, hbody, heq⟩ := Option.map_eq_some_iff.mp h
      obtain ⟨rfl, rfl⟩ := Prod.mk.inj heq
      obtain ⟨inner, hword, hinner⟩ := Option.bind_eq_some_iff.mp harrow
      obtain ⟨t', rfl, rfl⟩ := wordThenBlanks?_eq_some_iff.mp hword
      constructor
      · obtain ⟨inside, hinside⟩ : ∃ inside, inParens params = '(' :: inside := by
          unfold inParens
          split_ifs with hopen
          · exact List.head?_eq_some_iff.mp (by simpa using hopen)
          · exact ⟨_, rfl⟩
        refine ⟨"async".toList ++ [' '] ++ ("function".toList ++ [' ']), inside ++ ' ' :: body',
          .function (Or.inr ⟨[' '], by simp, hblank, rfl⟩) (Or.inl hblank), ?_⟩
        rw [hinside]
        simp
      · have hafter : after <:+ t' :=
          ((block?_suffix hbody).trans (arrow?_suffix hinner).2).trans (skipBlanks_suffix t')
        exact ((skipSemicolon_suffix after).trans hafter).trans (List.suffix_append _ _)
    · cases h

end Esmify
