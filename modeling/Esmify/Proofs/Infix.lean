import Esmify.Proofs.Text

/-!
# A word in a text that is cut

**A word stays whole** when the text around it is cut at characters that the word does not have, and
when white space is trimmed that the word neither begins nor ends with. The reader of left-hand
sides cuts and trims several times over; with these lemmas a word that stands in what it is given
stands in one of the parts that it ends up with. -/

namespace Esmify.Text

variable {w t : Text}

/-- A word stands on one side of a character that it does not have. -/
lemma infix_append_cons {l r : Text} {c : Char} (hc : c ∉ w) (h : w <:+: l ++ c :: r) :
    w <:+: l ∨ w <:+: r := by
  obtain ⟨a, b, hab⟩ := h
  rw [List.append_assoc] at hab
  rcases append_cons_eq_append_word hc hab.symm with ⟨m, rfl, -⟩ | ⟨m, -, rfl⟩
  · exact Or.inl ⟨a, m, List.append_assoc a w m⟩
  · exact Or.inr ⟨m, b, List.append_assoc m w b⟩

/-- A word does not begin in a front that lacks its first character. -/
lemma infix_of_infix_append (front : Text) {x : Char} (hx : x ∉ front)
    (h : x :: w <:+: front ++ t) :
    x :: w <:+: t := by
  induction front with
  | nil => exact h
  | cons c front ih =>
    rw [List.mem_cons, not_or] at hx
    rcases List.infix_cons_iff.mp h with h | h
    · exact absurd (List.cons_prefix_cons.mp h).1 hx.1
    · exact ih hx.2 h

/-- A word does not end in an ending that lacks its last character. -/
lemma infix_of_append_infix (ending : Text) {x : Char} (hx : x ∉ ending)
    (h : w ++ [x] <:+: t ++ ending) : w ++ [x] <:+: t := by
  rw [← List.reverse_infix, List.reverse_append, List.reverse_singleton, List.singleton_append]
    at h ⊢
  rw [List.reverse_append] at h
  exact infix_of_infix_append ending.reverse (by rwa [List.mem_reverse]) h

/-- Trimming keeps a word that neither begins nor ends with white space. -/
lemma infix_trim {x y : Char} (hx : isBlank x = false) (hy : isBlank y = false)
    (h : x :: w ++ [y] <:+: t) : x :: w ++ [y] <:+: trim t := by
  obtain ⟨front, back, hfront, hback, hsplit, -, -⟩ := trim_split t
  have hnot : ∀ {z : Char} {l : Text}, (∀ c ∈ l, isBlank c = true) → isBlank z = false → z ∉ l :=
    fun hl hz hmem => absurd (hl _ hmem) (by simp [hz])
  rw [hsplit] at h
  exact infix_of_append_infix back (hnot hback hy)
    (infix_of_infix_append front (hnot hfront hx) h)

/-- A word stands in one of the parts of a text that is split at a character it does not have. -/
lemma exists_mem_splitOn {c : Char} (hc : c ∉ w) (h : w <:+: t) :
    ∃ part ∈ t.splitOn c, w <:+: part := by
  induction hn : t.length using Nat.strongRecOn generalizing t with
  | ind n ih =>
    by_cases hmem : c ∈ t
    · obtain ⟨l, r, rfl, hl⟩ := List.eq_append_cons_of_mem hmem
      rw [List.splitOn_append_cons_self_of_not_mem hl]
      rcases infix_append_cons hc h with h | h
      · exact ⟨l, List.mem_cons_self, h⟩
      · rw [List.length_append, List.length_cons] at hn
        obtain ⟨part, hpart, h⟩ := ih r.length (by omega) h rfl
        exact ⟨part, List.mem_cons_of_mem l hpart, h⟩
    · rw [List.splitOn_eq_singleton hmem]
      exact ⟨t, List.mem_singleton_self t, h⟩

end Esmify.Text
