import Mathlib.Data.List.Nodup
import Esmify.Proofs.Lexeme
import Esmify.Proofs.Weave

/-!
# Parts of a text that edits keep

**A part that no edit reaches is kept**, whatever becomes of the text around it: under a set of
edits (`applyEdits_keeps`), when a paragraph is put in front of a block, and when a block is
dropped. The edits of a set are applied from the back, so those behind the part come first and leave
everything up to it alone (`applyBackwards_behind`); those ahead of it leave everything from it on
alone (`applyBackwards_ahead`) and move it by what they make the text longer (`placeAfter`). -/

namespace Esmify

open Text Source

/-! ## Sets of edits -/

/-- An edit that begins and ends at natural offsets, in this order. -/
def Edit.Proper (e : Edit) : Prop :=
  ∃ start stop : Nat, e.start = start ∧ e.stop = stop ∧ start ≤ stop

/-- How much longer an edit makes the text. -/
def Edit.growth (e : Edit) : Int :=
  e.piece.length - (e.stop - e.start)

/-- What an edit does to the place `n` of what stood at `i`: it moves what it stands ahead of. -/
def Edit.move (i n : Int) (e : Edit) : Int :=
  if e.stop ≤ i then n + e.growth else n

/-- Where a place of a text comes when edits are applied. -/
def placeAfter (es : List Edit) (i : Nat) : Nat :=
  (es.foldl (Edit.move i) i).toNat

/-- Edits move a place by the same in any order. -/
lemma foldl_move_of_perm {es es' : List Edit} (h : es.Perm es') (i n : Int) :
    es.foldl (Edit.move i) n = es'.foldl (Edit.move i) n := by
  refine h.foldl_eq' (fun a _ b _ m => ?_) n
  unfold Edit.move
  split_ifs <;> omega

/-- Edits that end behind a place leave it where it is. -/
lemma foldl_move_behind {es : List Edit} {i : Int} (h : ∀ e ∈ es, i < e.stop) (n : Int) :
    es.foldl (Edit.move i) n = n := by
  induction es with
  | nil => rfl
  | cons e es ih =>
    obtain ⟨hhead, htail⟩ := List.forall_mem_cons.mp h
    rw [List.foldl_cons, Edit.move, if_neg (Int.not_le.mpr hhead), ih htail]

/-- Edits behind a part of the text leave it alone. -/
lemma applyBackwards_behind {front back r : Text} {bound : Int} {es : List Edit}
    (hes : ∀ e ∈ es, e.Proper ∧ (front.length : Int) ≤ e.start)
    (h : applyBackwards (front ++ back) bound es = .ok r) : ∃ back', r = front ++ back' := by
  induction es generalizing back bound with
  | nil =>
    simp only [applyBackwards, Except.ok.injEq] at h
    exact ⟨back, h.symm⟩
  | cons e es ih =>
    obtain ⟨⟨start, stop, hs, ht, hle⟩, hbehind⟩ := hes e List.mem_cons_self
    rw [applyBackwards] at h
    split_ifs at h
    have hsplice : (front ++ back).splice start stop e.piece =
        front ++ (back.take (start - front.length) ++ e.piece
          ++ back.drop (stop - front.length)) := by
      rw [splice, List.take_append, List.drop_append, List.take_of_length_le (by omega),
        List.drop_eq_nil_of_le (by omega)]
      simp only [List.append_assoc, List.nil_append]
    rw [hs, ht, place_natCast, place_natCast, hsplice] at h
    exact ih (fun e he => hes e (List.mem_cons_of_mem _ he)) h

/-- Edits ahead of a part of the text leave it alone, and move it. -/
lemma applyBackwards_ahead {front back r : Text} {bound i : Int} {es : List Edit}
    (hes : ∀ e ∈ es, e.Proper ∧ e.stop ≤ i) (hbound : bound ≤ front.length)
    (h : applyBackwards (front ++ back) bound es = .ok r) :
    ∃ front', r = front' ++ back ∧ (front'.length : Int) = es.foldl (Edit.move i) front.length := by
  induction es generalizing front bound with
  | nil =>
    simp only [applyBackwards, Except.ok.injEq] at h
    exact ⟨front, h.symm, rfl⟩
  | cons e es ih =>
    obtain ⟨⟨⟨start, stop, hs, ht, hle⟩, hstop⟩, htail⟩ := List.forall_mem_cons.mp hes
    rw [applyBackwards] at h
    split_ifs at h with hover
    have hsplice : (front ++ back).splice start stop e.piece =
        (front.take start ++ e.piece ++ front.drop stop) ++ back := by
      rw [splice, List.take_append_of_le_length (by omega),
        List.drop_append_of_le_length (by omega)]
      simp only [List.append_assoc]
    have hgrown : ((front.take start ++ e.piece ++ front.drop stop).length : Int)
        = Edit.move i front.length e := by
      rw [Edit.move, if_pos hstop, Edit.growth, hs, ht]
      simp only [List.length_append, List.length_take, List.length_drop]
      omega
    rw [hs, ht, place_natCast, place_natCast, hsplice] at h
    obtain ⟨front', rfl, hlength⟩ := ih htail
      (by simp only [List.length_append, List.length_take]; omega) h
    exact ⟨front', rfl, by rw [hlength, hgrown, List.foldl_cons]⟩

/-- The bound may be lowered to where the edits end. -/
lemma applyBackwards_bound {t r : Text} {bound bound' : Int} {es : List Edit}
    (hes : ∀ e ∈ es, e.stop ≤ bound') (h : applyBackwards t bound es = .ok r) :
    applyBackwards t bound' es = .ok r := by
  cases es with
  | nil => exact h
  | cons e es =>
    have hfits : ¬ bound' < e.stop := Int.not_lt.mpr (hes e List.mem_cons_self)
    rw [applyBackwards] at h ⊢
    split_ifs at h
    rwa [if_neg hfits]

/-- Edits are applied one part of the list after the other. -/
lemma exists_of_applyBackwards_append {t r : Text} {bound : Int} {es es' : List Edit}
    (h : applyBackwards t bound (es ++ es') = .ok r) :
    ∃ mid bound', applyBackwards t bound es = .ok mid ∧ applyBackwards mid bound' es' = .ok r := by
  induction es generalizing t bound with
  | nil => exact ⟨t, bound, rfl, h⟩
  | cons e es ih =>
    rw [List.cons_append, applyBackwards] at h
    split_ifs at h with hover
    obtain ⟨mid, bound', hmid, hr⟩ := ih h
    refine ⟨mid, bound', ?_, hr⟩
    rw [applyBackwards, if_neg hover]
    exact hmid

/-- Sorted edits that keep clear of a part are those behind it and then those ahead of it. -/
lemma exists_split_of_clear {p q : Nat} (hpq : p < q) {es : List Edit}
    (hsorted : es.Pairwise fun a b => b.start ≤ a.start) (hproper : ∀ e ∈ es, e.Proper)
    (hclear : ∀ e ∈ es, e.stop ≤ p ∨ (q : Int) ≤ e.start) :
    ∃ behind ahead, es = behind ++ ahead ∧ (∀ e ∈ behind, (q : Int) ≤ e.start)
      ∧ ∀ e ∈ ahead, e.stop ≤ p := by
  induction es with
  | nil => exact ⟨[], [], rfl, by simp, by simp⟩
  | cons e es ih =>
    obtain ⟨hbelow, hsorted⟩ := List.pairwise_cons.mp hsorted
    rcases hclear e List.mem_cons_self with hahead | hbehind
    · refine ⟨[], e :: es, rfl, by simp, fun f hf => ?_⟩
      rcases List.mem_cons.mp hf with rfl | hf
      · exact hahead
      · obtain ⟨start, stop, hs, ht, hle⟩ := hproper e List.mem_cons_self
        have hstart := hbelow f hf
        rcases hclear f (List.mem_cons_of_mem _ hf) with h | h
        · exact h
        · omega
    · obtain ⟨behind, ahead, rfl, hb, ha⟩ := ih hsorted
        (fun f hf => hproper f (List.mem_cons_of_mem _ hf))
        (fun f hf => hclear f (List.mem_cons_of_mem _ hf))
      exact ⟨e :: behind, ahead, rfl, List.forall_mem_cons.mpr ⟨hbehind, hb⟩, ha⟩

/-- Edits that keep clear of a part are put in order as those behind it and then those ahead of
it. -/
lemma exists_sortBackwards_of_clear {p q : Nat} (hpq : p < q) {es : List Edit}
    (hproper : ∀ e ∈ es, e.Proper) (hclear : ∀ e ∈ es, e.stop ≤ p ∨ (q : Int) ≤ e.start) :
    ∃ behind ahead, sortBackwards es = behind ++ ahead
      ∧ (∀ e ∈ behind, e ∈ es ∧ (q : Int) ≤ e.start) ∧ ∀ e ∈ ahead, e ∈ es ∧ e.stop ≤ p := by
  have hmem : ∀ {e}, e ∈ sortBackwards es ↔ e ∈ es := List.mem_mergeSort
  obtain ⟨behind, ahead, hsplit, hbehind, hahead⟩ := exists_split_of_clear hpq
    (pairwise_sortBackwards es) (fun e he => hproper e (hmem.mp he))
    (fun e he => hclear e (hmem.mp he))
  refine ⟨behind, ahead, hsplit, fun e he => ⟨?_, hbehind e he⟩, fun e he => ⟨?_, hahead e he⟩⟩
  · exact hmem.mp (hsplit ▸ List.mem_append_left _ he)
  · exact hmem.mp (hsplit ▸ List.mem_append_right _ he)

/-- **A part that no edit reaches is kept.** Where all edits are behind it, what stands before it is
kept as well, and where all are ahead of it, what stands behind it. It comes where the edits ahead
of it move it. -/
theorem applyEdits_keeps {front part back r : Text} {es : List Edit} (hpart : part ≠ [])
    (hproper : ∀ e ∈ es, e.Proper)
    (hclear : ∀ e ∈ es, e.stop ≤ front.length
      ∨ ((front.length + part.length : Nat) : Int) ≤ e.start)
    (h : applyEdits (front ++ (part ++ back)) es = .ok r) :
    ∃ front' back', r = front' ++ (part ++ back')
      ∧ ((∀ e ∈ es, ((front.length + part.length : Nat) : Int) ≤ e.start) → front' = front)
      ∧ ((∀ e ∈ es, e.stop ≤ front.length) → back' = back)
      ∧ front'.length = placeAfter es front.length := by
  have hlength : front.length < front.length + part.length := by
    have := List.length_pos_iff.mpr hpart
    omega
  obtain ⟨behind, ahead, hsplit, hbehind, hahead⟩ :=
    exists_sortBackwards_of_clear hlength hproper hclear
  have hboth : ∀ e ∈ es, e.stop ≤ front.length →
      ¬ ((front.length + part.length : Nat) : Int) ≤ e.start := by
    intro e he hstop hstart
    obtain ⟨start, stop, hs, ht, hle⟩ := hproper e he
    omega
  unfold applyEdits at h
  rw [hsplit] at h
  obtain ⟨mid, bound, hmid, hr⟩ := exists_of_applyBackwards_append h
  rw [← List.append_assoc] at hmid
  obtain ⟨back', rfl⟩ := applyBackwards_behind
    (fun e he => ⟨hproper e (hbehind e he).1, by
      rw [List.length_append]; exact (hbehind e he).2⟩) hmid
  rw [List.append_assoc] at hr
  obtain ⟨front', rfl, hmoved⟩ := applyBackwards_ahead
    (fun e he => ⟨hproper e (hahead e he).1, (hahead e he).2⟩) (Int.le_refl _)
    (applyBackwards_bound (fun e he => (hahead e he).2) hr)
  refine ⟨front', back', rfl, fun hall => ?_, fun hall => ?_, ?_⟩
  · obtain rfl : ahead = [] := List.eq_nil_iff_forall_not_mem.mpr fun e he =>
      hboth e (hahead e he).1 (hahead e he).2 (hall e (hahead e he).1)
    simp only [applyBackwards, Except.ok.injEq] at hr
    exact (List.append_cancel_right hr).symm
  · obtain rfl : behind = [] := List.eq_nil_iff_forall_not_mem.mpr fun e he =>
      hboth e (hbehind e he).1 (hall e (hbehind e he).1) (hbehind e he).2
    simp only [applyBackwards, Except.ok.injEq] at hmid
    exact (List.append_cancel_left hmid).symm
  · have hperm : es.Perm (behind ++ ahead) := hsplit ▸ (List.mergeSort_perm _ _).symm
    have hlate : ∀ e ∈ behind, (front.length : Int) < e.stop := by
      intro e he
      obtain ⟨hes, hstart⟩ := hbehind e he
      obtain ⟨start, stop, hs, ht, hle⟩ := hproper e hes
      omega
    rw [placeAfter, foldl_move_of_perm hperm, List.foldl_append, foldl_move_behind hlate, ← hmoved,
      Int.toNat_natCast]

/-- **Edits keep a part together with the character that follows it**, when none of them reaches
into the part and none begins right behind it. -/
lemma applyEdits_keeps_next {t r front part back : Text} {es : List Edit} (hpart : part ≠ [])
    (ht : t = front ++ (part ++ back)) (hproper : ∀ e ∈ es, e.Proper)
    (hwithin : ∀ e ∈ es, e.start ≤ t.length)
    (hclear : ∀ e ∈ es, e.stop ≤ front.length
      ∨ ((front.length + part.length : Nat) : Int) < e.start)
    (h : applyEdits t es = .ok r) :
    ∃ front' back', r = front' ++ (part ++ back') ∧ back'.head? = back.head?
      ∧ ((∀ e ∈ es, ((front.length + part.length : Nat) : Int) < e.start) → front' = front)
      ∧ front'.length = placeAfter es front.length := by
  subst ht
  cases back with
  | nil =>
    -- there is nothing behind the part to edit
    have hahead : ∀ e ∈ es, e.stop ≤ front.length := by
      intro e he
      have hle := hwithin e he
      simp only [List.length_append, List.length_nil] at hle
      exact (hclear e he).resolve_right (by omega)
    obtain ⟨front', back', rfl, hfront, hback, hplace⟩ :=
      applyEdits_keeps hpart hproper (fun e he => Or.inl (hahead e he)) h
    exact ⟨front', back', rfl, by rw [hback hahead], fun hall => hfront fun e he =>
      Int.le_of_lt (hall e he), hplace⟩
  | cons c back =>
    have hlonger : front.length + (part ++ [c]).length = front.length + part.length + 1 := by
      rw [List.length_append, List.length_singleton]
      omega
    have hclear' : ∀ e ∈ es, e.stop ≤ front.length
        ∨ ((front.length + (part ++ [c]).length : Nat) : Int) ≤ e.start := by
      intro e he
      rw [hlonger]
      exact (hclear e he).imp_right fun hlt => by omega
    rw [List.append_cons] at h
    obtain ⟨front', back', rfl, hfront, -, hplace⟩ := applyEdits_keeps (by simp) hproper hclear' h
    refine ⟨front', c :: back', by simp only [List.append_assoc, List.singleton_append], rfl, ?_,
      hplace⟩
    intro hall
    refine hfront fun e he => ?_
    have hlt := hall e he
    rw [hlonger]
    omega

/-- What stands before the start of a line is nothing or ends with a line break. -/
lemma exists_of_beginsLine {front : Text} (h : beginsLine front.getLast? = true) :
    front = [] ∨ ∃ init, front = init ++ ['\n'] := by
  rcases List.eq_nil_or_concat front with rfl | ⟨init, c, rfl⟩
  · exact Or.inl rfl
  · rw [List.concat_eq_append, List.getLast?_concat, beginsLine, beq_iff_eq] at h
    exact Or.inr ⟨init, by rw [List.concat_eq_append, h]⟩

/-- Edits well clear of one of them are put in order around it. -/
lemma exists_sortBackwards_around {p q : Nat} {es : List Edit} {e : Edit} (he : e ∈ es)
    (hnodup : es.Nodup) (hproper : ∀ f ∈ es, f.Proper) (hstart : (p : Int) ≤ e.start)
    (hstop : e.stop ≤ q) (hothers : ∀ f ∈ es, f ≠ e → f.stop < p ∨ (q : Int) < f.start) :
    ∃ behind ahead, sortBackwards es = behind ++ e :: ahead
      ∧ (∀ f ∈ behind, f.Proper ∧ (q : Int) ≤ f.start) ∧ ∀ f ∈ ahead, f.Proper ∧ f.stop < p := by
  have hmem : ∀ {f}, f ∈ sortBackwards es ↔ f ∈ es := List.mem_mergeSort
  obtain ⟨behind, ahead, hsplit⟩ := List.append_of_mem (hmem.mpr he)
  have hnodup' : (behind ++ e :: ahead).Nodup := by
    rw [← hsplit]
    exact (List.mergeSort_perm es _).nodup_iff.mpr hnodup
  obtain ⟨hnotBehind, hnotAhead⟩ : e ∉ behind ∧ e ∉ ahead := by
    rw [List.nodup_middle, List.nodup_cons, List.mem_append, not_or] at hnodup'
    exact hnodup'.1
  have hsorted := pairwise_sortBackwards es
  rw [hsplit, List.pairwise_append] at hsorted
  obtain ⟨-, htail, hcross⟩ := hsorted
  have hmem' : ∀ f ∈ behind ++ e :: ahead, f ∈ es := fun f hf => hmem.mp (hsplit ▸ hf)
  obtain ⟨start, stop, hs, ht, hle⟩ := hproper e he
  refine ⟨behind, ahead, hsplit, fun f hf => ?_, fun f hf => ?_⟩
  · have hes := hmem' f (List.mem_append_left _ hf)
    obtain ⟨start', stop', hs', ht', hle'⟩ := hproper f hes
    have hge := hcross f hf e List.mem_cons_self
    have hcases := hothers f hes fun heq => hnotBehind (heq ▸ hf)
    exact ⟨⟨start', stop', hs', ht', hle'⟩, by omega⟩
  · have hes := hmem' f (List.mem_append_right _ (List.mem_cons_of_mem _ hf))
    have hge := (List.pairwise_cons.mp htail).1 f hf
    have hcases := hothers f hes fun heq => hnotAhead (heq ▸ hf)
    exact ⟨hproper f hes, by omega⟩

/-- **A part is edited as it would be alone** when the other edits are well clear of it; a line that
began with it still does. -/
theorem applyEdits_edits {front part back r : Text} {es : List Edit} {e : Edit} {i j : Nat}
    (he : e ∈ es) (hnodup : es.Nodup) (hproper : ∀ e ∈ es, e.Proper)
    (hstart : e.start = (front.length + i : Nat)) (hstop : e.stop = (front.length + j : Nat))
    (hij : i ≤ j) (hj : j ≤ part.length)
    (hothers : ∀ e' ∈ es, e' ≠ e →
      e'.stop < front.length ∨ ((front.length + part.length : Nat) : Int) < e'.start)
    (hbegins : beginsLine front.getLast? = true)
    (h : applyEdits (front ++ (part ++ back)) es = .ok r) :
    ∃ front' back', r = front' ++ (part.splice i j e.piece ++ back')
      ∧ beginsLine front'.getLast? = true := by
  obtain ⟨behind, ahead, hsplit, hbehind, hahead⟩ :=
    exists_sortBackwards_around (p := front.length) (q := front.length + part.length) he hnodup
      hproper (by omega) (by omega) hothers
  rw [← List.length_append] at hbehind
  unfold applyEdits at h
  rw [hsplit, ← List.append_assoc] at h
  obtain ⟨mid, bound, hmid, hr⟩ := exists_of_applyBackwards_append h
  obtain ⟨back', rfl⟩ := applyBackwards_behind hbehind hmid
  -- the edit itself
  rw [applyBackwards] at hr
  split_ifs at hr
  have hsplice : (front ++ part ++ back').splice (front.length + i) (front.length + j) e.piece =
      front ++ (part.splice i j e.piece ++ back') := by
    unfold splice
    rw [List.append_assoc front, List.take_length_add_append, List.drop_length_add_append,
      List.take_append_of_le_length (by omega), List.drop_append_of_le_length hj]
    simp only [List.append_assoc]
  rw [hstart, hstop, place_natCast, place_natCast, hsplice] at hr
  -- the edits ahead stay clear of the line break before the part
  rcases exists_of_beginsLine hbegins with rfl | ⟨init, rfl⟩
  · have hnil : ahead = [] := List.eq_nil_iff_forall_not_mem.mpr fun f hf => by
      obtain ⟨⟨start, stop, hs, ht, hle⟩, hlt⟩ := hahead f hf
      rw [ht] at hlt
      exact absurd hlt (by simp)
    subst hnil
    simp only [applyBackwards, Except.ok.injEq] at hr
    exact ⟨[], back', hr.symm, rfl⟩
  · rw [List.append_assoc] at hr
    have hbound : ∀ f ∈ ahead, f.stop ≤ (init.length : Int) := by
      intro f hf
      have hlt := (hahead f hf).2
      rw [List.length_append, List.length_singleton] at hlt
      omega
    obtain ⟨init', rfl, -⟩ := applyBackwards_ahead (fun f hf => ⟨(hahead f hf).1, hbound f hf⟩)
      (Int.le_refl _)
      (applyBackwards_bound hbound hr)
    refine ⟨init' ++ ['\n'], back', by simp only [List.append_assoc], ?_⟩
    rw [List.getLast?_concat]
    rfl

/-! ## Paragraphs and blocks -/

/-- The first occurrence of a text stands where it was found. -/
lemma indexOf?_eq_some {needle t : Text} {i : Nat} (h : indexOf? needle t = some i) :
    ∃ front back, t = front ++ (needle ++ back) ∧ i = front.length := by
  induction t generalizing i with
  | nil =>
    rw [indexOf?] at h
    split_ifs at h with hempty
    rw [List.isEmpty_iff] at hempty
    obtain rfl := Option.some.inj h
    exact ⟨[], [], by rw [hempty]; rfl, rfl⟩
  | cons c cs ih =>
    rw [indexOf?] at h
    split_ifs at h with hhere
    · obtain ⟨back, hback⟩ := List.isPrefixOf_iff_prefix.mp hhere
      obtain rfl := Option.some.inj h
      exact ⟨[], back, hback.symm, rfl⟩
    · obtain ⟨j, hj, rfl⟩ := Option.map_eq_some_iff.mp h
      obtain ⟨front, back, rfl, rfl⟩ := ih hj
      exact ⟨c :: front, back, rfl, rfl⟩

/-- A text that stands somewhere is found. -/
lemma isSome_indexOf? (front needle back : Text) :
    (indexOf? needle (front ++ (needle ++ back))).isSome = true := by
  induction front with
  | nil =>
    have hhere : needle.isPrefixOf (needle ++ back) = true :=
      List.isPrefixOf_iff_prefix.mpr (List.prefix_append needle back)
    rw [List.nil_append]
    cases htext : needle ++ back with
    | nil =>
      rw [indexOf?, List.isEmpty_iff.mpr (List.append_eq_nil_iff.mp htext).1]
      rfl
    | cons c cs =>
      rw [indexOf?, ← htext, hhere]
      rfl
  | cons c front ih =>
    rw [List.cons_append, indexOf?]
    split_ifs
    · rfl
    · rw [Option.isSome_map]
      exact ih

/-- A text occurs where it stands. -/
lemma occursIn_iff {needle t : Text} :
    occursIn needle t = true ↔ ∃ front back, t = front ++ (needle ++ back) := by
  constructor
  · intro h
    obtain ⟨i, hi⟩ := Option.isSome_iff_exists.mp h
    obtain ⟨front, back, ht, -⟩ := indexOf?_eq_some hi
    exact ⟨front, back, ht⟩
  · rintro ⟨front, back, rfl⟩
    exact isSome_indexOf? front needle back

/-- A text that stands only in one place is found there. -/
lemma indexOf?_of_unique {needle t front back : Text} (ht : t = front ++ (needle ++ back))
    (hunique : ∀ front' back', t = front' ++ (needle ++ back') → front' = front) :
    indexOf? needle t = some front.length := by
  have hsome := isSome_indexOf? front needle back
  rw [← ht] at hsome
  obtain ⟨i, hi⟩ := Option.isSome_iff_exists.mp hsome
  obtain ⟨front', back', ht', rfl⟩ := indexOf?_eq_some hi
  rw [hi, hunique front' back' ht']

/-- Line breaks at the end are those behind the last part that does not end with one. -/
lemma dropEndBreaks_append {t : Text} (hne : t ≠ []) (hlast : t.getLast? ≠ some '\n')
    (ending : Text) :
    dropEndBreaks (t ++ ending) = t ++ dropEndBreaks ending := by
  have hkeep : t.reverse.dropWhile isBreak = t.reverse := by
    obtain ⟨init, c, hconcat⟩ := (List.eq_nil_or_concat t).resolve_left hne
    rw [List.concat_eq_append] at hconcat
    subst hconcat
    rw [List.getLast?_concat, ne_eq, Option.some.injEq] at hlast
    rw [List.reverse_append, List.reverse_singleton, List.singleton_append,
      List.dropWhile_cons_of_neg (by simpa [isBreak] using hlast)]
  unfold dropEndBreaks dropEndWhile
  rw [List.reverse_append, List.dropWhile_append, hkeep]
  split_ifs with hempty
  · rw [List.isEmpty_iff] at hempty
    rw [hempty, List.reverse_reverse, List.reverse_nil, List.append_nil]
  · rw [List.reverse_append, List.reverse_reverse]

/-- Line breaks at the front are those ahead of the first part that does not begin with one. -/
lemma dropFrontBreaks_append {t : Text} (hne : t ≠ []) (hhead : t.head? ≠ some '\n')
    (start : Text) :
    dropFrontBreaks (start ++ t) = dropFrontBreaks start ++ t := by
  have hkeep : t.dropWhile isBreak = t := by
    obtain ⟨c, cs, rfl⟩ := List.exists_cons_of_ne_nil hne
    rw [List.head?_cons, ne_eq, Option.some.injEq] at hhead
    rw [List.dropWhile_cons_of_neg (by simpa [isBreak] using hhead)]
  unfold dropFrontBreaks
  rw [List.dropWhile_append, hkeep]
  split_ifs with hempty
  · rw [List.isEmpty_iff] at hempty
    rw [hempty, List.nil_append]
  · rfl

/-- A text that is not blank and has no line breaks at either end. -/
structure Solid (u : Text) : Prop where
  notBlank : isBlankText u = false
  head : u.head? ≠ some '\n'
  last : u.getLast? ≠ some '\n'

/-- A solid text is not empty. -/
lemma Solid.ne_nil {u : Text} (h : Solid u) : u ≠ [] := by
  rintro rfl
  exact absurd h.notBlank (by decide)

/-- A text is solid if it begins visibly and does not end with a line break. -/
lemma solid_cons {c : Char} {rest : Text} (hc : isBlank c = false)
    (hlast : (c :: rest).getLast? ≠ some '\n') : Solid (c :: rest) := by
  refine ⟨by simp [isBlankText, hc], ?_, hlast⟩
  rintro ⟨rfl⟩
  exact absurd hc (by decide)

/-- Two texts are blank together exactly if both are. -/
lemma isBlankText_append (a b : Text) :
    isBlankText (a ++ b) = (isBlankText a && isBlankText b) := by
  unfold isBlankText
  exact List.all_append

/-- The end of a text that is not blank is its own when line breaks behind it go away. -/
lemma Solid.dropEndBreaks {u : Text} (h : Solid u) (front ending : Text) :
    dropEndBreaks (front ++ (u ++ ending)) = front ++ (u ++ dropEndBreaks ending) := by
  have hlast : (front ++ u).getLast? ≠ some '\n' := by
    rw [List.getLast?_append_of_ne_nil front h.ne_nil]
    exact h.last
  rw [← List.append_assoc, dropEndBreaks_append (by simp [h.ne_nil]) hlast, List.append_assoc]

/-- Line breaks are only dropped ahead of a solid text. -/
lemma Solid.dropFrontBreaks {u : Text} (h : Solid u) (start back : Text) :
    dropFrontBreaks (start ++ (u ++ back)) = dropFrontBreaks start ++ (u ++ back) := by
  have hhead : (u ++ back).head? ≠ some '\n' := by
    obtain ⟨c, cs, rfl⟩ := List.exists_cons_of_ne_nil h.ne_nil
    exact h.head
  exact dropFrontBreaks_append (by simp [h.ne_nil]) hhead start

/-- What is left of a text after line breaks at its end begins as the text did, or is empty. -/
lemma head?_dropEndBreaks (t : Text) :
    dropEndBreaks t = [] ∨ (dropEndBreaks t).head? = t.head? := by
  obtain ⟨ending, -, hsplit, -⟩ := dropEndWhile_split isBreak t
  cases h : dropEndBreaks t with
  | nil => exact Or.inl rfl
  | cons c cs =>
    right
    rw [hsplit, show dropEndWhile isBreak t = c :: cs from h]
    rfl

/-- What is left of a text after line breaks at its front ends as the text did, or is empty. -/
lemma getLast?_dropFrontBreaks (t : Text) :
    dropFrontBreaks t = [] ∨ (dropFrontBreaks t).getLast? = t.getLast? := by
  obtain ⟨passed, -, hsplit, -⟩ := dropWhile_split isBreak t
  cases h : dropFrontBreaks t with
  | nil => exact Or.inl rfl
  | cons c cs =>
    right
    rw [hsplit, show t.dropWhile isBreak = c :: cs from h,
      List.getLast?_append_of_ne_nil passed (List.cons_ne_nil c cs)]

/-- What stands around a part may change, but a line still begins with it, and a name that ended
with it still does. -/
structure Around (back front' back' : Text) : Prop where
  begins : beginsLine front'.getLast? = true
  ends : outsideName back.head? = true → outsideName back'.head? = true

/-- A line begins with a part behind another one that ends as the text before it did. -/
lemma beginsLine_append {front m : Text} (h : m = [] ∨ m.getLast? = front.getLast?)
    (hbegins : beginsLine front.getLast? = true) {start : Text}
    (hstart : beginsLine start.getLast? = true) : beginsLine (start ++ m).getLast? = true := by
  by_cases hm : m = []
  · rw [hm, List.append_nil]
    exact hstart
  · rw [List.getLast?_append_of_ne_nil start hm, h.resolve_left hm]
    exact hbegins

/-- A name still ends in front of a line break, or of what followed it before. -/
lemma outsideName_append {back m rest rest' : Text} (hback : back = m ++ rest)
    (hends : outsideName back.head? = true) :
    outsideName (dropEndBreaks m ++ '\n' :: rest').head? = true := by
  rcases head?_dropEndBreaks m with hnil | hhead
  · rw [hnil]
    exact (by decide : outsideName (some '\n') = true)
  · cases hm : dropEndBreaks m with
    | nil => exact (by decide : outsideName (some '\n') = true)
    | cons c cs =>
      rw [hm] at hhead
      rw [List.cons_append, List.head?_cons]
      rw [hback, List.head?_append, ← hhead] at hends
      exact hends

/-- A part of the front of a text is followed by the rest of that front. -/
lemma exists_of_append_eq_append {x y a c : Text} (h : x ++ y = a ++ c)
    (hle : x.length ≤ a.length) :
    ∃ m, a = x ++ m ∧ y = m ++ c := by
  rcases List.append_eq_append_iff.mp h with ⟨m, ha, hy⟩ | ⟨m, hx, hc⟩
  · exact ⟨m, ha, hy⟩
  · have hm : m = [] := by
      have := congrArg List.length hx
      rw [List.length_append] at this
      exact List.eq_nil_of_length_eq_zero (by omega)
    subst hm
    exact ⟨[], by rw [hx]; simp, hc.symm⟩

/-- **A part stays clear of a block**: it ends before the block begins, or begins behind it, when
the block does not meet it. -/
lemma exists_of_clear {front u back a block c : Text}
    (h : front ++ (u ++ back) = a ++ (block ++ c))
    (hclear : ¬ (a.length < front.length + u.length ∧ front.length < a.length + block.length)) :
    (∃ m, a = front ++ (u ++ m) ∧ back = m ++ (block ++ c))
      ∨ ∃ m, front = a ++ (block ++ m) ∧ c = m ++ (u ++ back) := by
  by_cases hahead : front.length + u.length ≤ a.length
  · left
    rw [← List.append_assoc] at h
    obtain ⟨m, rfl, hback⟩ := exists_of_append_eq_append h
      (by rw [List.length_append]; exact hahead)
    exact ⟨m, List.append_assoc _ _ _, hback⟩
  · right
    have hlength : (a ++ block).length ≤ front.length := by
      rw [List.length_append]
      omega
    rw [← List.append_assoc a] at h
    obtain ⟨m, rfl, hc⟩ := exists_of_append_eq_append h.symm hlength
    exact ⟨m, List.append_assoc _ _ _, hc⟩

variable {t t' front u back block piece : Text}

/-- A part is kept when a paragraph is put in front of a block that does not meet it. -/
lemma insertParagraphBefore_keeps (hsolid : Solid u) (hbegins : beginsLine front.getLast? = true)
    (ht : t = front ++ (u ++ back)) {i : Nat} (hi : indexOf? block t = some i)
    (hclear : ¬ (i < front.length + u.length ∧ front.length < i + block.length))
    (h : insertParagraphBefore t block piece = .ok t') :
    ∃ front' back', t' = front' ++ (u ++ back') ∧ Around back front' back' := by
  obtain ⟨a, c, hsplit, rfl⟩ := indexOf?_eq_some hi
  simp only [insertParagraphBefore, hi, Except.ok.injEq] at h
  rw [hsplit, List.take_left, List.drop_left] at h
  rw [ht] at hsplit
  rcases exists_of_clear hsplit hclear with ⟨m, rfl, hback⟩ | ⟨m, rfl, rfl⟩
  · -- the part stands before the paragraph
    have hblank : isBlankText (front ++ (u ++ m)) = false := by
      simp only [isBlankText_append, hsolid.notBlank, Bool.false_and, Bool.and_false]
    rw [paragraphHead, if_neg (by simp [hblank]), hsolid.dropEndBreaks] at h
    refine ⟨front, dropEndBreaks m ++ '\n' :: ('\n' :: (dropFrontBreaks (dropEndBreaks piece)
      ++ paragraphTail (block ++ c))), ?_, hbegins, outsideName_append hback⟩
    rw [← h]
    simp only [List.append_assoc, List.cons_append, List.nil_append]
  · -- the part stands behind the block
    have htail : paragraphTail (block ++ (m ++ (u ++ back))) =
        ['\n', '\n'] ++ ((block ++ m) ++ (u ++ back)) := by
      have hne : block ++ (m ++ (u ++ back)) ≠ [] := by simp [hsolid.ne_nil]
      rw [paragraphTail, if_neg (by rwa [List.isEmpty_iff])]
      simp only [List.append_assoc, List.cons_append, List.nil_append]
    refine ⟨paragraphHead a ++ dropFrontBreaks (dropEndBreaks piece) ++ ['\n', '\n']
      ++ (block ++ m), back, ?_, ?_, id⟩
    · rw [← h, htail]
      simp only [List.append_assoc]
    · refine beginsLine_append ?_ hbegins (by simp [beginsLine])
      by_cases hm : block ++ m = []
      · exact Or.inl hm
      · exact Or.inr (List.getLast?_append_of_ne_nil a hm).symm

/-- Where a gap is closed at least one line break is left. -/
lemma exists_replicate_cons (breaks : Nat) :
    ∃ n, List.replicate (min (max breaks 1) 2) '\n' = '\n' :: List.replicate n '\n' := by
  obtain ⟨n, hn⟩ : ∃ n, min (max breaks 1) 2 = n + 1 := ⟨min (max breaks 1) 2 - 1, by omega⟩
  exact ⟨n, by rw [hn, List.replicate_succ]⟩

/-- A gap is closed by a line break behind what stands before it. -/
lemma exists_closeGap_ahead {a c : Text} (h : isBlankText (dropEndBreaks a) = false) :
    ∃ rest, closeGap a c = dropEndBreaks a ++ '\n' :: rest := by
  have hne : a.isEmpty = false := by
    cases a with
    | nil => exact absurd h (by decide)
    | cons _ _ => rfl
  unfold closeGap
  simp only [hne, h, Bool.false_eq_true, if_false]
  split_ifs
  · exact ⟨[], rfl⟩
  · obtain ⟨n, hn⟩ := exists_replicate_cons
      ((a.length - (dropEndBreaks a).length) + (c.length - (dropFrontBreaks c).length))
    refine ⟨List.replicate n '\n' ++ dropFrontBreaks c, ?_⟩
    rw [hn]
    simp only [List.append_assoc, List.cons_append]

/-- A gap is closed in front of what stands behind it, at the start of a line. -/
lemma exists_closeGap_behind {a c : Text} (h : isBlankText c = false) :
    ∃ start, closeGap a c = start ++ dropFrontBreaks c ∧ beginsLine start.getLast? = true := by
  unfold closeGap
  simp only [h, Bool.false_eq_true, if_false]
  split_ifs
  · exact ⟨[], rfl, rfl⟩
  · obtain ⟨n, hn⟩ := exists_replicate_cons
      ((a.length - (dropEndBreaks a).length) + (c.length - (dropFrontBreaks c).length))
    refine ⟨_, rfl, ?_⟩
    rw [hn, List.getLast?_append_of_ne_nil _ (List.cons_ne_nil _ _), ← List.replicate_succ,
      List.getLast?_replicate]
    rfl

/-- A part is kept when a block that does not meet it is dropped. -/
lemma dropBlock_keeps (hsolid : Solid u) (hbegins : beginsLine front.getLast? = true)
    (ht : t = front ++ (u ++ back)) {i : Nat} (hi : indexOf? block t = some i)
    (hclear : ¬ (i < front.length + u.length ∧ front.length < i + block.length))
    (h : dropBlock t block = .ok t') :
    ∃ front' back', t' = front' ++ (u ++ back') ∧ Around back front' back' := by
  obtain ⟨a, c, hsplit, rfl⟩ := indexOf?_eq_some hi
  simp only [dropBlock, hi, Except.ok.injEq] at h
  have hdrop : t.drop (a.length + block.length) = c := by
    rw [hsplit, ← List.append_assoc, ← List.length_append, List.drop_left]
  rw [hdrop, hsplit, List.take_left] at h
  rw [ht] at hsplit
  rcases exists_of_clear hsplit hclear with ⟨m, rfl, hback⟩ | ⟨m, rfl, rfl⟩
  · -- the part stands before the block
    have hblank : isBlankText (dropEndBreaks (front ++ (u ++ m))) = false := by
      simp only [hsolid.dropEndBreaks, isBlankText_append, hsolid.notBlank, Bool.false_and,
        Bool.and_false]
    obtain ⟨rest, hrest⟩ := exists_closeGap_ahead (c := c) hblank
    refine ⟨front, dropEndBreaks m ++ '\n' :: rest, ?_, hbegins, outsideName_append hback⟩
    rw [← h, hrest, hsolid.dropEndBreaks]
    simp only [List.append_assoc]
  · -- the part stands behind the block
    have hblank : isBlankText (m ++ (u ++ back)) = false := by
      simp only [isBlankText_append, hsolid.notBlank, Bool.false_and, Bool.and_false]
    obtain ⟨start, hstart, hline⟩ := exists_closeGap_behind (a := a) hblank
    refine ⟨start ++ dropFrontBreaks m, back, ?_, beginsLine_append ?_ hbegins hline, id⟩
    · rw [← h, hstart, hsolid.dropFrontBreaks, List.append_assoc]
    · rcases getLast?_dropFrontBreaks m with hnil | hlast
      · exact Or.inl hnil
      · by_cases hm : m = []
        · exact Or.inl (by rw [hm]; rfl)
        · right
          rw [hlast, ← List.append_assoc, List.getLast?_append_of_ne_nil _ hm]

end Esmify
