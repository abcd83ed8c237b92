import Mathlib.Data.List.Nodup
import Esmify.Proofs.Weave

/-!
# The order of edits

**The order in which edits are given does not matter**, and neither does it matter that they are
applied one at a time. Edits with starts of their own have one order from front to back. They are
refused exactly when, in that order, one of them reaches beyond the start of the next or the last
one beyond the text (`Overruns`); otherwise every piece stands in the place of its span and the gaps
between the spans are unchanged (`applyEdits_simultaneous`).

Whether edits are refused does not depend on the text that they are applied to
(`applyBackwards_overruns`), although that text has been edited by the time the check is made. -/

namespace Esmify

open Text

/-! ## Edits that reach too far -/

/-- How far an edit in front of others may reach: up to the start of the first of them, or to the
end of the text. -/
def reachBefore (bound : Int) : List Edit → Int
  | [] => bound
  | e :: _ => e.start

/-- One of several edits from front to back ends behind the start of the next, or the last one
behind `bound`. -/
def Overruns (bound : Int) : List Edit → Prop
  | [] => False
  | e :: es => reachBefore bound es < e.stop ∨ Overruns bound es

instance decidableOverruns (bound : Int) : (es : List Edit) → Decidable (Overruns bound es)
  | [] => inferInstanceAs (Decidable False)
  | e :: es =>
    have := decidableOverruns bound es
    inferInstanceAs (Decidable (reachBefore bound es < e.stop ∨ Overruns bound es))

/-- The last edit bounds the others. -/
lemma overruns_concat (bound : Int) (es : List Edit) (e : Edit) :
    Overruns bound (es ++ [e]) ↔ Overruns e.start es ∨ bound < e.stop := by
  induction es with
  | nil => simp [Overruns, reachBefore]
  | cons f es ih =>
    have hreach : reachBefore bound (es ++ [e]) = reachBefore e.start es := by
      cases es with
      | nil => rfl
      | cons g es => rfl
    rw [List.cons_append, Overruns, Overruns, ih, hreach, or_assoc]

/-- **Edits that reach too far are refused**, whatever the text is by then. -/
lemma applyBackwards_overruns {bound : Int} {es : List Edit} (h : Overruns bound es)
    (content : Text) :
    ∃ e ∈ es, applyBackwards content bound es.reverse
      = .error (.overlappingEdit e.start e.stop) := by
  induction es using List.reverseRecOn generalizing bound content with
  | nil => exact h.elim
  | append_singleton es e ih =>
    rw [List.reverse_append, List.reverse_singleton, List.singleton_append, applyBackwards]
    split_ifs with hover
    · exact ⟨e, by simp, rfl⟩
    · obtain ⟨f, hf, hrefused⟩ := ih (((overruns_concat bound es e).mp h).resolve_right hover) _
      exact ⟨f, List.mem_append_left _ hf, hrefused⟩

/-- Edits that do not reach too far are separated. -/
lemma separated_of_not_overruns {bound offset : Nat} {es : List Edit}
    (hproper : ∀ e ∈ es, 0 ≤ e.start ∧ e.start ≤ e.stop) (hoffset : offset ≤ reachBefore bound es)
    (h : ¬ Overruns bound es) : Separated bound offset es := by
  induction es generalizing offset with
  | nil => exact Int.ofNat_le.mp hoffset
  | cons e es ih =>
    obtain ⟨⟨hstart, hstop⟩, hes⟩ := List.forall_mem_cons.mp hproper
    rw [Overruns, not_or, Int.not_lt] at h
    rw [reachBefore] at hoffset
    refine ⟨e.start.toNat, e.stop.toNat, by omega, by omega, by omega, by omega, ?_⟩
    exact ih hes (by rw [Int.toNat_of_nonneg (by omega)]; exact h.1) h.2

/-! ## From front to back -/

/-- Edits with starts of their own have an order from front to back. -/
lemma exists_ordered {es : List Edit} (hdistinct : (es.map Edit.start).Nodup) :
    ∃ ordered : List Edit, ordered.Perm es ∧ ordered.Pairwise fun a b => a.start < b.start := by
  have hperm : (sortBackwards es).Perm es := List.mergeSort_perm es _
  refine ⟨(sortBackwards es).reverse, (List.reverse_perm _).trans hperm,
    List.pairwise_reverse.mpr ?_⟩
  have hne : (sortBackwards es).Pairwise fun a b => a.start ≠ b.start :=
    List.pairwise_map.mp ((hperm.map Edit.start).nodup_iff.mpr hdistinct)
  refine ((pairwise_sortBackwards es).and hne).imp ?_
  rintro a b ⟨hle, hne⟩
  omega

/-- There is no other order from front to back. -/
lemma eq_of_ordered {es es' : List Edit} (hperm : es.Perm es')
    (h : es.Pairwise fun a b => a.start < b.start)
    (h' : es'.Pairwise fun a b => a.start < b.start) :
    es = es' :=
  hperm.eq_of_pairwise (fun _ _ _ _ hab hba => absurd hab (Int.not_lt.mpr (Int.le_of_lt hba))) h h'

/-- Only the order from front to back counts. -/
lemma applyEdits_of_ordered {es ordered : List Edit} (hperm : ordered.Perm es)
    (hordered : ordered.Pairwise fun a b => a.start < b.start) (content : Text) :
    applyEdits content es = applyBackwards content content.length ordered.reverse := by
  rw [applyEdits, sortBackwards_eq_reverse hperm.symm hordered]

/-- **Applying edits is simultaneous substitution.** Edits that do not end before they begin, with
starts of their own, are taken from front to back: they are refused exactly when one of them ends
behind the start of the next or the last one behind the end of the text; otherwise the outcome is
made of the gaps between their spans and of their pieces. It is the same for the same edits in any
other order. -/
theorem applyEdits_simultaneous {edits : List Edit}
    (hproper : ∀ e ∈ edits, 0 ≤ e.start ∧ e.start ≤ e.stop)
    (hdistinct : (edits.map Edit.start).Nodup) (content : Text) :
    ∃ ordered : List Edit, ordered.Perm edits ∧ (ordered.Pairwise fun a b => a.start < b.start)
      ∧ ((∃ e ∈ edits, applyEdits content edits = .error (.overlappingEdit e.start e.stop)) ↔
        Overruns content.length ordered)
      ∧ (¬ Overruns content.length ordered → applyEdits content edits
        = .ok (weave content 0 ordered))
      ∧ ∀ edits' : List Edit, edits'.Perm edits → applyEdits content edits'
        = applyEdits content edits := by
  obtain ⟨ordered, hperm, hordered⟩ := exists_ordered hdistinct
  have hproper' : ∀ e ∈ ordered, 0 ≤ e.start ∧ e.start ≤ e.stop :=
    fun e he => hproper e (hperm.mem_iff.mp he)
  have hrun := applyEdits_of_ordered hperm hordered content
  have hfits : ¬ Overruns content.length ordered → applyEdits content edits
      = .ok (weave content 0 ordered) := by
    intro h
    have hreach : ((0 : Nat) : Int) ≤ reachBefore content.length ordered := by
      cases ordered with
      | nil => exact Int.natCast_nonneg content.length
      | cons e es => exact (hproper' e List.mem_cons_self).1
    have happlied := applyBackwards_append ordered content [] content.length
      (separated_of_not_overruns hproper' hreach h) (Int.le_refl _)
    rwa [List.append_nil, List.append_nil, ← hrun] at happlied
  refine ⟨ordered, hperm, hordered, ⟨?_, ?_⟩, hfits, ?_⟩
  · rintro ⟨e, -, hrefused⟩
    by_contra h
    rw [hfits h] at hrefused
    cases hrefused
  · intro h
    obtain ⟨e, he, hrefused⟩ := applyBackwards_overruns h content
    exact ⟨e, hperm.mem_iff.mp he, hrun.trans hrefused⟩
  · intro edits' hedits'
    rw [hrun, applyEdits_of_ordered (hperm.trans hedits'.symm) hordered content]

/-- Edits out of order: an empty span between two others touches the first of them. -/
def touchingEdits : List Edit :=
  [⟨6, 11, "all".toList⟩, ⟨0, 5, "bye".toList⟩, ⟨5, 5, ",".toList⟩]

/-- Edits in any order make one text of a greeting, and reach too far in a shorter one. -/
theorem applyEdits_simultaneous_touching :
    (∀ e ∈ touchingEdits, 0 ≤ e.start ∧ e.start ≤ e.stop) ∧ (touchingEdits.map Edit.start).Nodup
      ∧ applyEdits "hello world".toList touchingEdits = .ok "bye, all".toList
      ∧ ∃ e ∈ touchingEdits,
        applyEdits "hello".toList touchingEdits = .error (.overlappingEdit e.start e.stop) := by
  have hproper : ∀ e ∈ touchingEdits, 0 ≤ e.start ∧ e.start ≤ e.stop := by decide
  have hdistinct : (touchingEdits.map Edit.start).Nodup := by decide
  have hunique : ∀ ordered : List Edit, ordered.Perm touchingEdits →
      (ordered.Pairwise fun a b => a.start < b.start) →
        ordered = [⟨0, 5, "bye".toList⟩, ⟨5, 5, ",".toList⟩, ⟨6, 11, "all".toList⟩] :=
    fun ordered hperm hordered => eq_of_ordered (hperm.trans (by decide)) hordered (by decide)
  refine ⟨hproper, hdistinct, ?_, ?_⟩
  · obtain ⟨ordered, hperm, hordered, -, hfits, -⟩ :=
      applyEdits_simultaneous hproper hdistinct "hello world".toList
    obtain rfl := hunique ordered hperm hordered
    exact hfits (by decide)
  · obtain ⟨ordered, hperm, hordered, hrefused, -, -⟩ :=
      applyEdits_simultaneous hproper hdistinct "hello".toList
    obtain rfl := hunique ordered hperm hordered
    exact hrefused.mpr (by decide)

end Esmify
