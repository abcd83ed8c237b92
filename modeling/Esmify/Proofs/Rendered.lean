import Esmify.Proofs.KeptPart
import Esmify.Proofs.Members

/-!
# Export statements of members

**The export statement of a member is a paragraph as it stands** (`Assignment.solid_render`): it is
not blank, and neither begins nor ends with a line break. A function that keeps being a function
runs to the end of its value, and so does an arrow function that becomes one; what is written as a
constant ends with a semicolon. -/

namespace Esmify

open Text Source

/-! ## Functions -/

/-- A function runs to the end of its value. -/
lemma functionValue?_suffix {t head rest : Text} (h : functionValue? t = some (head, rest)) :
    rest ≠ [] ∧ rest <:+ t := by
  unfold functionValue? at h
  split at h
  · rename_i u hu
    have hword : (spacedWord? "async".toList t).getD t <:+ t := by
      cases hasync : spacedWord? "async".toList t with
      | none => exact List.suffix_rfl
      | some v => exact spacedWord?_suffix hasync
    have hstar : (after? ['*'] (skipBlanks u)).getD u <:+ u := by
      cases hafter : after? ['*'] (skipBlanks u) with
      | none => exact List.suffix_rfl
      | some v => exact (after?_suffix hafter).trans (skipBlanks_suffix u)
    dsimp only at h
    split at h
    · rename_i cs hcs
      obtain ⟨-, rfl⟩ := Prod.mk.inj (Option.some.inj h)
      refine ⟨List.cons_ne_nil _ _, ?_⟩
      rw [← hcs]
      exact (((skipBlanks_suffix _).trans hstar).trans (after?_suffix hu)).trans hword
    · exact absurd h (by simp)
  · exact absurd h (by simp)

/-- What follows the parameters of an arrow function. -/
lemma arrowParams?_suffix {t params rest : Text} (h : arrowParams? t = some (params, rest)) :
    rest <:+ t := by
  unfold arrowParams? at h
  split at h
  · rename_i cs
    split at h
    · rename_i c rest' hrest
      obtain ⟨-, rfl⟩ := Prod.mk.inj (Option.some.inj h)
      have hdrop : c :: rest' <:+ cs := hrest ▸ List.dropWhile_suffix _
      exact ((List.suffix_cons _ _).trans hdrop).trans (List.suffix_cons _ _)
    · exact absurd h (by simp)
  · exact name?_suffix h

/-- An arrow function with a block runs to the end of its value. -/
lemma arrow?_suffix {t params body : Text} (h : arrow? t = some (params, body)) :
    body ≠ [] ∧ body <:+ t := by
  unfold arrow? at h
  split at h
  · rename_i params' rest hparams
    obtain ⟨body', hbody, heq⟩ := Option.map_eq_some_iff.mp h
    obtain ⟨-, rfl⟩ := Prod.mk.inj heq
    unfold arrowBody? at hbody
    split at hbody
    · rename_i cs hword
      obtain rfl := Option.some.inj hbody
      obtain ⟨u, hu, hcs⟩ := wordThenBlanks?_eq_some_iff.mp hword
      have hrest : u <:+ skipBlanks rest := ⟨_, hu.symm⟩
      refine ⟨List.cons_ne_nil _ _, ?_⟩
      rw [hcs]
      exact (((skipBlanks_suffix u).trans hrest).trans (skipBlanks_suffix rest)).trans
        (arrowParams?_suffix hparams)
    · exact absurd hbody (by simp)
  · exact absurd h (by simp)

/-- The body of an arrow function ends its text. -/
lemma blockArrow?_suffix {t isAsync params body : Text}
    (h : blockArrow? t = some (isAsync, params, body)) : body ≠ [] ∧ body <:+ t := by
  have hplain : (arrow? t).map (fun m => (([] : Text), m.1, m.2)) =
      some (isAsync, params, body) → body ≠ [] ∧ body <:+ t := by
    intro h
    obtain ⟨⟨params', body'⟩, harrow, heq⟩ := Option.map_eq_some_iff.mp h
    obtain ⟨-, heq⟩ := Prod.mk.inj heq
    obtain ⟨-, rfl⟩ := Prod.mk.inj heq
    exact arrow?_suffix harrow
  unfold blockArrow? at h
  dsimp only at h
  split at h
  · rename_i rest hrest
    split at h
    · rename_i params' body' harrow
      obtain ⟨-, heq⟩ := Prod.mk.inj (Option.some.inj h)
      obtain ⟨-, rfl⟩ := Prod.mk.inj heq
      obtain ⟨hne, hsuffix⟩ := arrow?_suffix harrow
      exact ⟨hne, hsuffix.trans (spacedWord?_suffix hrest)⟩
    · exact hplain h
  · exact hplain h

/-! ## Statements -/

/-- The export statement of a value begins with the word `export`, and ends with a line break only
if the value does. -/
lemma renderValue_ends {value : Text} (key : Text) (h : value.getLast? ≠ some '\n') :
    ∃ rest, renderValue key value = 'e' :: rest
      ∧ (renderValue key value).getLast? ≠ some '\n' := by
  have hconstant : (("export const ".toList ++ key ++ " = ".toList ++ value) ++ [';']).getLast? ≠
      some '\n' := by
    rw [List.getLast?_concat]
    decide
  unfold renderValue
  dsimp only
  split_ifs
  · refine ⟨_, rfl, ?_⟩
    rw [List.getLast?_append]
    cases hlast : value.getLast? with
    | none => decide
    | some c =>
      rw [Option.some_or, ← hlast]
      exact h
  · split
    · rename_i head rest hfunction
      obtain ⟨hne, hsuffix⟩ := functionValue?_suffix hfunction
      refine ⟨_, rfl, ?_⟩
      rw [List.getLast?_append_of_ne_nil _ hne, getLast?_of_suffix hne hsuffix]
      exact h
    · split
      · rename_i isAsync params body harrow
        obtain ⟨hne, hsuffix⟩ := blockArrow?_suffix harrow
        split_ifs
        · refine ⟨_, rfl, ?_⟩
          rw [← List.singleton_append, ← List.append_assoc, List.getLast?_append_of_ne_nil _ hne,
            getLast?_of_suffix hne hsuffix]
          exact h
        · exact ⟨_, rfl, hconstant⟩
      · exact ⟨_, rfl, hconstant⟩

/-- **The export statement of a member is a paragraph as it stands.** -/
lemma Assignment.solid_render {a : Assignment} (ha : a.Proper) : Solid a.render := by
  obtain ⟨hvalue, hcomment⟩ := ha
  obtain ⟨rest, hrest, hends⟩ := renderValue_ends a.key hvalue
  unfold Assignment.render
  split
  · rename_i c cs hc
    rw [hc] at hcomment
    refine ⟨?_, hcomment, ?_⟩
    · rw [isBlankText_append, hrest]
      have : isBlank 'e' = false := by decide
      simp [isBlankText, this]
    · rw [List.getLast?_append_of_ne_nil _ (by simp), ← List.singleton_append,
        List.getLast?_append_of_ne_nil _ (by simp [hrest])]
      exact hends
  · rw [hrest] at hends ⊢
    exact solid_cons (by decide) hends

end Esmify
