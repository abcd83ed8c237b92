import Mathlib.Data.List.Induction
import Mathlib.Data.List.Pairwise
import Esmify.Edit
import Esmify.Proofs.Text

/-!
# Edits as one substitution

**Edits that do not reach into one another are one substitution.** `weave` walks a text once from
the front and puts each piece in the place of its span, so what stands between the spans is plainly
unchanged. `applyEdits` works from the back; on edits given from front to back, none of them
reaching beyond the start of the next, it gives the same text (`applyEdits_eq_weave`), and so on the
same edits in any other order (`applyEdits_of_perm`).

The induction goes over the last edit: what stands behind it is finished, so the statement that
carries it (`applyBackwards_append`) has a finished end `back` behind the text still to be
edited. -/

namespace Esmify

open Text

/-- Without edits a text stays as it is. -/
lemma applyEdits_nil (content : Text) : applyEdits content [] = .ok content := by
  rw [applyEdits, sortBackwards, List.mergeSort_nil]
  rfl

/-! ## The substitution -/

/-- The text from `offset` on, with the piece of each edit in the place of its span; the edits stand
from front to back. -/
def weave (content : Text) : (offset : Nat) → List Edit → Text
  | offset, [] => content.drop offset
  | offset, e :: es =>
    content.slice offset (content.place e.start) ++ e.piece
      ++ weave content (content.place e.stop) es

/-- Edits from front to back within `bound`: each begins at a natural offset, does not end before it
begins and does not reach beyond the start of the next. -/
def Separated (bound : Nat) : (offset : Nat) → List Edit → Prop
  | offset, [] => offset ≤ bound
  | offset, e :: es =>
    ∃ start stop : Nat, e.start = start ∧ e.stop = stop ∧ offset ≤ start ∧ start ≤ stop
      ∧ Separated bound stop es

/-- Separated edits begin within the text. -/
lemma Separated.offset_le {bound offset : Nat} {es : List Edit} (h : Separated bound offset es) :
    offset ≤ bound := by
  induction es generalizing offset with
  | nil => exact h
  | cons e es ih =>
    obtain ⟨start, stop, -, -, h₁, h₂, h₃⟩ := h
    have := ih h₃
    omega

/-- Every edit starts at or after the offset, and none ends beyond the bound. -/
lemma Separated.bounds {bound offset : Nat} {es : List Edit} (h : Separated bound offset es) :
    ∀ e ∈ es, (offset : Int) ≤ e.start ∧ e.start ≤ e.stop ∧ e.stop ≤ bound := by
  induction es generalizing offset with
  | nil => simp
  | cons e es ih =>
    obtain ⟨start, stop, hs, ht, h₁, h₂, h₃⟩ := h
    have hbound := h₃.offset_le
    intro f hf
    rcases List.mem_cons.mp hf with rfl | hf
    · rw [hs, ht]
      omega
    · have := ih h₃ f hf
      omega

/-- The last of several separated edits bounds the others. -/
lemma Separated.concat {bound offset : Nat} {es : List Edit} {e : Edit}
    (h : Separated bound offset (es ++ [e])) :
    ∃ start stop : Nat, e.start = start ∧ e.stop = stop ∧ start ≤ stop ∧ stop ≤ bound
      ∧ Separated start offset es := by
  induction es generalizing offset with
  | nil =>
    obtain ⟨start, stop, hs, ht, h₁, h₂, h₃⟩ := h
    exact ⟨start, stop, hs, ht, h₂, h₃, h₁⟩
  | cons f es ih =>
    obtain ⟨fstart, fstop, hfs, hft, h₁, h₂, h₃⟩ := h
    obtain ⟨start, stop, hs, ht, hle, hstop, hes⟩ := ih h₃
    exact ⟨start, stop, hs, ht, hle, hstop, fstart, fstop, hfs, hft, h₁, h₂, hes⟩

/-! ## From the back -/

/-- The last edit of a weave finishes the end of the text. -/
lemma weave_concat (content : Text) (es : List Edit) (e : Edit) {offset start stop : Nat}
    (hs : e.start = start) (ht : e.stop = stop) (h : Separated start offset es) :
    weave content offset (es ++ [e]) =
      weave (content.take start) offset es ++ (e.piece ++ content.drop stop) := by
  induction es generalizing offset with
  | nil =>
    simp only [List.nil_append, weave, hs, ht, place_natCast, slice, List.append_assoc]
  | cons f es ih =>
    obtain ⟨fstart, fstop, hfs, hft, h₁, h₂, h₃⟩ := h
    have hbound := h₃.offset_le
    have hmin : min fstart start = fstart := by omega
    simp only [List.cons_append, weave, hfs, hft, place_natCast, slice, ih h₃, List.take_take, hmin,
      List.append_assoc]

/-- Separated edits of the front of a text leave the rest `back` of it alone. -/
lemma applyBackwards_append (es : List Edit) (content back : Text) (bound : Int)
    (h : Separated content.length 0 es) (hbound : (content.length : Int) ≤ bound) :
    applyBackwards (content ++ back) bound es.reverse = .ok (weave content 0 es ++ back) := by
  induction es using List.reverseRecOn generalizing content back bound with
  | nil => simp [applyBackwards, weave]
  | append_singleton es e ih =>
    obtain ⟨start, stop, hs, ht, hle, hstop, hes⟩ := h.concat
    have hfits : ¬ bound < e.stop := by
      rw [ht]
      omega
    have hsplice : (content ++ back).splice start stop e.piece =
        content.take start ++ (e.piece ++ (content.drop stop ++ back)) := by
      unfold splice
      rw [List.take_append_of_le_length (by omega), List.drop_append_of_le_length hstop]
      simp only [List.append_assoc]
    have hlength : (content.take start).length = start := by
      rw [List.length_take]
      omega
    rw [List.reverse_append, List.reverse_singleton, List.singleton_append, applyBackwards,
      if_neg hfits, hs, ht, place_natCast, place_natCast, hsplice,
      ih _ _ _ (by rwa [hlength]) (by omega), weave_concat content es e hs ht hes]
    simp only [List.append_assoc]

/-! ## Sorting -/

/-- Among edits whose starts increase, the start tells the edit. -/
lemma eq_of_start_eq {es : List Edit} (h : es.Pairwise fun a b => a.start < b.start) {a b : Edit}
    (ha : a ∈ es) (hb : b ∈ es) (hab : a.start = b.start) : a = b := by
  have hdistinct : es.Pairwise fun a b => a.start = b.start → a = b :=
    h.imp fun hlt heq => absurd heq (Int.ne_of_lt hlt)
  have hflip : es.Pairwise (flip fun a b => a.start = b.start → a = b) :=
    h.imp fun hlt heq => absurd heq.symm (Int.ne_of_lt hlt)
  exact hdistinct.forall_of_forall_of_flip (fun _ _ _ => rfl) hflip ha hb hab

/-- Sorted edits have decreasing starts. -/
lemma pairwise_sortBackwards (es : List Edit) :
    (sortBackwards es).Pairwise fun a b => b.start ≤ a.start := by
  have hsorted := @List.pairwise_mergeSort Edit (fun a b => decide (b.start ≤ a.start))
    (by simp only [decide_eq_true_iff]; omega)
    (by simp only [Bool.or_eq_true, decide_eq_true_iff]; omega) es
  exact hsorted.imp fun hab => of_decide_eq_true hab

/-- Edits in any order are sorted from the back by turning those round whose starts increase. -/
lemma sortBackwards_eq_reverse {es es' : List Edit} (hes : es.Perm es')
    (h : es'.Pairwise fun a b => a.start < b.start) : sortBackwards es = es'.reverse := by
  have hperm : (sortBackwards es).Perm es'.reverse :=
    ((List.mergeSort_perm _ _).trans hes).trans es'.reverse_perm.symm
  have hright : es'.reverse.Pairwise fun a b => b.start ≤ a.start := by
    rw [List.pairwise_reverse]
    exact h.imp fun hab => Int.le_of_lt hab
  refine List.Perm.eq_of_pairwise (fun a b ha hb hab hba => ?_) (pairwise_sortBackwards es) hright
    hperm
  rw [List.mem_reverse] at hb
  exact eq_of_start_eq h (hes.mem_iff.mp (List.mem_mergeSort.mp ha)) hb (Int.le_antisymm hba hab)

/-- Separated edits, none of them empty, start at increasing offsets. -/
lemma Separated.pairwise_start {bound offset : Nat} {es : List Edit} (h : Separated bound offset es)
    (hne : ∀ e ∈ es, e.start < e.stop) : es.Pairwise fun a b => a.start < b.start := by
  induction es generalizing offset with
  | nil => exact List.Pairwise.nil
  | cons e es ih =>
    obtain ⟨start, stop, hs, ht, h₁, h₂, h₃⟩ := h
    refine List.pairwise_cons.mpr ⟨fun f hf => ?_,
      ih h₃ fun f hf => hne f (List.mem_cons_of_mem e hf)⟩
    have hlt := hne e List.mem_cons_self
    have hle := (h₃.bounds f hf).1
    omega

/-- **Separated edits are one substitution**, in whatever order they are given: none of them is
refused, and every piece stands in the place of its span. -/
theorem applyEdits_of_perm {content : Text} {es es' : List Edit} (hes : es.Perm es')
    (h : Separated content.length 0 es') (hne : ∀ e ∈ es', e.start < e.stop) :
    applyEdits content es = .ok (weave content 0 es') := by
  unfold applyEdits
  rw [sortBackwards_eq_reverse hes (h.pairwise_start hne)]
  have := applyBackwards_append es' content [] content.length h (Int.le_refl _)
  simpa using this

/-- Separated edits from front to back are one substitution. -/
lemma applyEdits_eq_weave {content : Text} {es : List Edit} (h : Separated content.length 0 es)
    (hne : ∀ e ∈ es, e.start < e.stop) : applyEdits content es = .ok (weave content 0 es) :=
  applyEdits_of_perm (.refl es) h hne

/-- What stands before the first edit is unchanged. -/
lemma weave_eq_slice_append {content : Text} {offset mid : Nat} {es : List Edit}
    (hle : offset ≤ mid) (h : Separated content.length mid es) :
    weave content offset es = content.slice offset mid ++ weave content mid es := by
  have hbound := h.offset_le
  cases es with
  | nil =>
    simp only [weave]
    rw [← slice_length content offset, ← slice_length content mid,
      slice_append_slice content hle hbound]
  | cons e es =>
    obtain ⟨start, stop, hstart, -, hmid, -, -⟩ := h
    simp only [weave, hstart, place_natCast]
    rw [← slice_append_slice content hle hmid]
    simp only [List.append_assoc]

end Esmify
