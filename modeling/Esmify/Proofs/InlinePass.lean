import Esmify.Export.Inline
import Esmify.Proofs.Declared
import Esmify.Proofs.ImportSpan
import Esmify.Proofs.InlineFunction
import Esmify.Proofs.Revision
import Esmify.Proofs.Run
import Esmify.Proofs.Weave

/-!
# The pass over inline exports

Inline exports are written one after the other, each at the first place where its statement stands
(`inlinePass`). A function value and a value of its own are written where the statement stood. A
name that is declared or imported in the file is exported there (`exportPlace?`), and the statement
goes away: two edits at once. `InlineStep` says all that can happen.

**Such a pair of edits fails exactly when the place lies inside the statement** (`Clash`), so an
inline export cannot be written exactly where it clashes (`writeInline_eq_error_iff`). -/

namespace Esmify

open Text Source

/-! ## A part goes away, a piece comes in -/

/-- Two things are sorted by one comparison. -/
lemma mergeSort_pair {α : Type} (le : α → α → Bool) (a b : α) :
    [a, b].mergeSort le = if le a b then [a, b] else [b, a] := by
  rw [List.mergeSort]
  simp [List.MergeSort.Internal.splitInTwo, List.merge]

/-- Of two edits the one that begins later comes first. -/
lemma sortBackwards_pair (a b : Edit) :
    sortBackwards [a, b] = if b.start ≤ a.start then [a, b] else [b, a] := by
  rw [sortBackwards, mergeSort_pair]
  simp only [decide_eq_true_eq]

/-- A part goes away and a piece comes in: what stands behind is done first. -/
lemma applyEdits_removal {t : Text} {q n : Nat} (p : Nat) (piece : Text) (hq : q ≤ t.length)
    (hn : n ≤ t.length) : applyEdits t [⟨p, q, []⟩, ⟨n, n, piece⟩] =
      if n ≤ p then .ok ((t.splice p q []).splice n n piece)
      else if n < q then .error (.overlappingEdit p q)
      else .ok ((t.splice n n piece).splice p q []) := by
  have hfits : ∀ m : Nat, m ≤ t.length → ¬ ((t.length : Int) < m) := fun m hm => by omega
  rw [applyEdits, sortBackwards_pair]
  by_cases hle : n ≤ p
  · rw [if_pos (Int.ofNat_le.mpr hle), if_pos hle, applyBackwards, if_neg (hfits q hq),
      applyBackwards, if_neg (by simpa using hle)]
    simp only [applyBackwards, place_natCast]
  · rw [if_neg (by simpa using hle), if_neg hle, applyBackwards, if_neg (hfits n hn),
      applyBackwards]
    simp only [applyBackwards, place_natCast, Int.ofNat_lt]

/-- **A part cannot go away while a piece comes in inside of it**, and this is all that can fail. -/
lemma removal_eq_error_iff {t piece : Text} {p q n : Nat} (hq : q ≤ t.length) (hn : n ≤ t.length)
    {f : Fault} : applyEdits t [⟨p, q, []⟩, ⟨n, n, piece⟩] = .error f ↔
      (p < n ∧ n < q) ∧ f = .overlappingEdit p q := by
  rw [applyEdits_removal p piece hq hn]
  split_ifs with hle hover
  · simp [Nat.not_lt.mpr hle]
  · simp [Nat.not_le.mp hle, hover, eq_comm]
  · simp [hover]

/-! ## Places -/

/-- Where the statement of an inline export at `position` ends, its line break included. -/
def inlineStop (t : Text) (e : InlineExport) (position : Nat) : Nat :=
  t.length - (skipLineEnd (t.drop (statementEnd t (position + e.raw.length)).2)).length

/-- Where a name of the file is exported: in front of its declaration, or else behind the statement
that imports it. -/
def exportPlace? (t name : Text) : Option Nat :=
  ((declaration? t name).map (·.start)).or ((importOf? t name).map (·.stop))

/-- A name is exported at a place in the text. -/
lemma exportPlace?_le {t name : Text} {n : Nat} (h : exportPlace? t name = some n) :
    n ≤ t.length := by
  rcases Option.or_eq_some_iff.mp h with h | ⟨-, h⟩
  · obtain ⟨d, hd, rfl⟩ := Option.map_eq_some_iff.mp h
    obtain ⟨front, back, rfl, hstart, -⟩ := declaration?_eq_some hd
    simp [hstart]
  · obtain ⟨s, hs, rfl⟩ := Option.map_eq_some_iff.mp h
    exact ImportStatement.stop_le (List.mem_of_find?_eq_some hs)

/-- The spans that the writing of an inline export works on. Each of them begins with the character
ahead, which may run together with what comes in. -/
def inlineSpans (t : Text) (e : InlineExport) : List (Nat × Nat) :=
  match indexOf? e.full t with
  | none => []
  | some p =>
    match inlineFunction? (t.drop (p + e.raw.length)) e.property with
    | some (_, rest) => [(p - 1, t.length - rest.length)]
    | none =>
      match exportPlace? t e.property with
      | some n => [(p - 1, inlineStop t e p), (n - 1, n)]
      | none => [(p - 1, p + e.raw.length)]

/-- The edits by which an inline export is written. -/
def inlineEdits (t : Text) (e : InlineExport) : List Edit :=
  match indexOf? e.full t with
  | none => []
  | some p =>
    match inlineFunction? (t.drop (p + e.raw.length)) e.property with
    | some (declaration, rest) =>
      [⟨p, (t.length - rest.length : Nat), indentation e.raw ++ ("export ".toList ++ declaration)⟩]
    | none =>
      match declaration? t e.property with
      | some d => [⟨p, inlineStop t e p, []⟩, ⟨d.start, d.start, "export ".toList⟩]
      | none =>
        match importOf? t e.property with
        | some s =>
          [⟨p, inlineStop t e p, []⟩,
            ⟨s.stop, s.stop, '\n' :: exportFrom s (s.binding? e.property).toList⟩]
        | none =>
          [⟨p, (min (p + e.raw.length) t.length : Nat),
            indentation e.raw ++ ("export const ".toList ++ (e.property ++ " = ".toList))⟩]

/-- The pass that writes inline exports. -/
def inlinePass : Pass InlineExport where
  act e t := (writeInline t e).run.value.toOption
  spans e t := inlineSpans t e

/-- Inline exports are written by the pass. -/
lemma value_run_writeEach (t : Text) (es : List InlineExport) :
    (writeEach t es).run.value = es.foldlM (fun t e => (writeInline t e).run.value) t := by
  induction es generalizing t with
  | nil => rfl
  | cons e es ih =>
    rw [writeEach, List.foldlM_cons]
    cases hvalue : (writeInline t e).run.value with
    | error f => exact Revision.value_run_bind_eq_error_iff.mpr (Or.inl hvalue)
    | ok t' =>
      rw [Revision.value_run_bind_of_ok hvalue, ih]
      rfl

/-! ## Steps -/

/-- **What the writing of an inline export does**: the spans that it works on and what it gives. -/
inductive InlineStep (t : Text) (e : InlineExport) : List (Nat × Nat) → Except Fault Text → Prop
  /-- The statement is not there. -/
  | lost : indexOf? e.full t = none → InlineStep t e [] (.ok t)
  /-- A function value becomes a declaration. -/
  | function {p : Nat} {declaration rest : Text} : indexOf? e.full t = some p →
    inlineFunction? (t.drop (p + e.raw.length)) e.property = some (declaration, rest) →
    InlineStep t e [(p - 1, t.length - rest.length)]
      (.ok (t.take p ++ (indentation e.raw ++ ("export ".toList ++ declaration)
        ++ t.drop (t.length - rest.length))))
  /-- The statement goes away, and the declaration of the name is marked. -/
  | atDeclaration {p : Nat} {d : Occurrence Unit} : indexOf? e.full t = some p →
    inlineFunction? (t.drop (p + e.raw.length)) e.property = none →
    declaration? t e.property = some d →
    InlineStep t e [(p - 1, inlineStop t e p), (d.start - 1, d.start)]
      (applyEdits t [⟨p, inlineStop t e p, []⟩, ⟨d.start, d.start, "export ".toList⟩])
  /-- The statement goes away, and the name is exported behind its import. -/
  | atImport {p : Nat} {s : ImportStatement} : indexOf? e.full t = some p →
    inlineFunction? (t.drop (p + e.raw.length)) e.property = none →
    declaration? t e.property = none → importOf? t e.property = some s →
    InlineStep t e [(p - 1, inlineStop t e p), (s.stop - 1, s.stop)]
      (applyEdits t [⟨p, inlineStop t e p, []⟩,
        ⟨s.stop, s.stop, '\n' :: exportFrom s (s.binding? e.property).toList⟩])
  /-- Any other value becomes that of a constant. -/
  | constant {p : Nat} : indexOf? e.full t = some p →
    inlineFunction? (t.drop (p + e.raw.length)) e.property = none →
    exportPlace? t e.property = none →
    InlineStep t e [(p - 1, p + e.raw.length)]
      (.ok (t.take p
        ++ (indentation e.raw ++ ("export const ".toList ++ (e.property ++ " = ".toList))
          ++ t.drop (p + e.raw.length))))

/-- The writing of an inline export takes one of these steps. -/
lemma inlineStep (t : Text) (e : InlineExport) :
    InlineStep t e (inlineSpans t e) (writeInline t e).run.value := by
  unfold writeInline inlineSpans
  cases hfound : indexOf? e.full t with
  | none => exact .lost hfound
  | some p =>
    dsimp only
    unfold writeInlineAt
    dsimp only
    cases hfunction : inlineFunction? (t.drop (p + e.raw.length)) e.property with
    | some written =>
      obtain ⟨declaration, rest⟩ := written
      have hrest : t.drop (t.length - rest.length) = rest :=
        (List.suffix_iff_eq_drop.mp
          ((inlineFunction?_eq_some hfunction).2.trans (List.drop_suffix _ _))).symm
      have hstep := InlineStep.function hfound hfunction
      rw [hrest] at hstep
      show InlineStep t e _ (.ok (t.take p ++ indentation e.raw ++ "export ".toList
        ++ declaration ++ rest))
      simpa only [List.append_assoc] using hstep
    | none =>
      dsimp only
      cases hd : declaration? t e.property with
      | some d =>
        have hplace : exportPlace? t e.property = some d.start := by rw [exportPlace?, hd]; rfl
        rw [hplace]
        exact .atDeclaration hfound hfunction hd
      | none =>
        cases hs : importOf? t e.property with
        | some s =>
          have hplace : exportPlace? t e.property = some s.stop := by rw [exportPlace?, hd, hs]; rfl
          rw [hplace]
          exact .atImport hfound hfunction hd hs
        | none =>
          have hplace : exportPlace? t e.property = none := by rw [exportPlace?, hd, hs]; rfl
          have hstep : InlineStep t e [(p - 1, p + e.raw.length)]
              (.ok (t.take p ++ indentation e.raw
              ++ "export const ".toList ++ e.property ++ " = ".toList
              ++ t.drop (p + e.raw.length))) := by
            simpa only [List.append_assoc] using InlineStep.constant hfound hfunction hplace
          rw [hplace]
          dsimp only
          split_ifs <;> exact hstep

/-! ## Clashes -/

/-- **The export of a name has to be written inside the statement that gives way to it.** The
statement is found at `p` and goes up to `q`. -/
structure Clash (t : Text) (e : InlineExport) (p q : Nat) : Prop where
  found : indexOf? e.full t = some p
  stop : q = inlineStop t e p
  noFunction : inlineFunction? (t.drop (p + e.raw.length)) e.property = none
  inside : ∃ n, exportPlace? t e.property = some n ∧ p < n ∧ n < q

/-- A clash is where the statement is found. -/
lemma Clash.eq_of_found {t : Text} {e : InlineExport} {p p' q : Nat} (h : Clash t e p' q)
    (hfound : indexOf? e.full t = some p) : p' = p :=
  Option.some.inj (h.found.symm.trans hfound)

/-- A pair of edits fails exactly where there is a clash. -/
lemma removal_eq_error_iff_clash {t : Text} {e : InlineExport} {p n : Nat} {f : Fault}
    (hfound : indexOf? e.full t = some p)
    (hfunction : inlineFunction? (t.drop (p + e.raw.length)) e.property = none)
    (hn : exportPlace? t e.property = some n) (piece : Text) :
    applyEdits t [⟨p, inlineStop t e p, []⟩, ⟨n, n, piece⟩] = .error f ↔
      ∃ p q, Clash t e p q ∧ f = .overlappingEdit p q := by
  have hstop : inlineStop t e p ≤ t.length := Nat.sub_le _ _
  rw [removal_eq_error_iff hstop (exportPlace?_le hn)]
  constructor
  · rintro ⟨hinside, rfl⟩
    exact ⟨p, _, ⟨hfound, rfl, hfunction, n, hn, hinside⟩, rfl⟩
  · rintro ⟨p', q, hclash, rfl⟩
    obtain rfl := hclash.eq_of_found hfound
    obtain rfl := hclash.stop
    obtain ⟨n', hn', hinside⟩ := hclash.inside
    obtain rfl := Option.some.inj (hn'.symm.trans hn)
    exact ⟨hinside, rfl⟩

/-- **An inline export cannot be written exactly where it clashes.** -/
theorem writeInline_eq_error_iff {t : Text} {e : InlineExport} {f : Fault} :
    (writeInline t e).run.value = .error f ↔ ∃ p q, Clash t e p q ∧ f = .overlappingEdit p q := by
  have hstep := inlineStep t e
  generalize inlineSpans t e = spans, (writeInline t e).run.value = r at hstep ⊢
  cases hstep with
  | lost hnone =>
    refine iff_of_false (by rintro ⟨⟩) ?_
    rintro ⟨p, q, hclash, -⟩
    exact absurd (hclash.found.symm.trans hnone) (by simp)
  | function hfound hfunction =>
    refine iff_of_false (by rintro ⟨⟩) ?_
    rintro ⟨p', q, hclash, -⟩
    obtain rfl := hclash.eq_of_found hfound
    exact absurd (hclash.noFunction.symm.trans hfunction) (by simp)
  | atDeclaration hfound hfunction hd =>
    exact removal_eq_error_iff_clash hfound hfunction (by rw [exportPlace?, hd]; rfl) _
  | atImport hfound hfunction hd hs =>
    exact removal_eq_error_iff_clash hfound hfunction (by rw [exportPlace?, hd, hs]; rfl) _
  | constant hfound hfunction hplace =>
    refine iff_of_false (by rintro ⟨⟩) ?_
    rintro ⟨p', q, hclash, -⟩
    obtain ⟨n, hn, -⟩ := hclash.inside
    exact absurd (hn.symm.trans hplace) (by simp)

end Esmify
