import Mathlib.Data.List.Pairwise
import Esmify.Import.Statement
import Esmify.Proofs.Lexeme
import Esmify.Proofs.Scan

/-!
# Where import statements stand

**An import statement begins a line and does not end one**: its text begins with the word `import`
at the start of a line and ends with a quote, a semicolon or the blanks before it
(`exists_of_mem_importStatements`). So no two statements of a text touch (`importStatements_apart`):
between them there is at least the line break at which the second one begins. -/

namespace Esmify

open Text Source

/-! ## The recogniser -/

/-- A text ends with its last part when that is not empty. -/
lemma getLast?_append_ne_break {front back : Text} (hne : back ≠ []) (h : '\n' ∉ back) :
    (front ++ back).getLast? ≠ some '\n' := by
  rw [List.getLast?_append_of_ne_nil front hne]
  exact fun hlast => h (List.mem_of_getLast? hlast)

/-- The blanks and the semicolon behind a statement hold no line break. -/
lemma skipSemicolon_split (t : Text) :
    ∃ tail, '\n' ∉ tail ∧ t = tail ++ (after? [';'] (skipIndent t)).getD (skipIndent t) := by
  obtain ⟨blanks, hblanks, hsplit, -⟩ := dropWhile_split isIndent t
  have hindent : '\n' ∉ blanks := fun hmem => absurd (hblanks _ hmem) (by decide)
  cases hafter : after? [';'] (skipIndent t) with
  | none => exact ⟨blanks, hindent, hsplit⟩
  | some rest =>
    refine ⟨blanks ++ [';'], by simp [hindent], ?_⟩
    rw [Option.getD_some, List.append_assoc, ← after?_eq_some_iff.mp hafter]
    exact hsplit

/-- A statement goes from the word before its module to the blanks and the semicolon behind it, and
does not end with a line break. -/
lemma fromModule?_eq_some {t target rest : Text} {quote : Char}
    (h : fromModule? t = some ((quote, target), rest)) :
    ∃ m, t = m ++ rest ∧ m ≠ [] ∧ m.getLast? ≠ some '\n' := by
  unfold fromModule? at h
  split at h
  · next q cs hspaced =>
    obtain ⟨gap, -, -, rfl, -⟩ := spacedWord?_eq_some_iff.mp hspaced
    split at h
    · next c target' close rest' hquote htake hdrop =>
      split_ifs at h with hclose
      simp only [Option.some.injEq, Prod.mk.injEq] at h
      obtain ⟨tail, htail, hrest⟩ := skipSemicolon_split rest'
      rw [h.2] at hrest
      have hcs : cs = (c :: target') ++ close :: (tail ++ rest) := by
        rw [← hrest, ← htake, ← hdrop, List.takeWhile_append_dropWhile]
      have hbreak : '\n' ∉ close :: tail := by
        rw [List.mem_cons, not_or]
        refine ⟨?_, htail⟩
        rintro rfl
        rw [← hclose] at hquote
        exact absurd hquote (by decide)
      refine ⟨("from".toList ++ (gap ++ q :: (c :: target'))) ++ close :: tail, ?_, by simp,
        getLast?_append_ne_break (List.cons_ne_nil _ _) hbreak⟩
      rw [hcs]
      simp only [List.append_assoc, List.cons_append]
    · exact absurd h (by simp)
  · exact absurd h (by simp)

/-- A clause is read up to the word before the module. -/
lemma clauseFrom?_eq_some {spaced : Bool} {read t rest : Text} {parts : ImportParts}
    (h : clauseFrom? spaced read t = some (parts, rest)) :
    ∃ m, t = m ++ rest ∧ m ≠ [] ∧ m.getLast? ≠ some '\n' := by
  induction t generalizing spaced read with
  | nil => exact absurd h (by simp [clauseFrom?])
  | cons c cs ih =>
    rw [clauseFrom?] at h
    split at h
    · next quote target rest' hfrom =>
      simp only [Option.some.injEq, Prod.mk.injEq] at h
      obtain ⟨-, rfl⟩ := h
      split_ifs at hfrom
      exact fromModule?_eq_some hfrom
    · split_ifs at h
      obtain ⟨m, rfl, hne, hlast⟩ := ih h
      refine ⟨c :: m, rfl, List.cons_ne_nil c m, ?_⟩
      rwa [List.getLast?_cons_of_ne_nil hne]

/-- **An import statement begins a line and does not end one.** -/
lemma importPattern_eq_some {before : Option Char} {t rest : Text} {parts : ImportParts}
    (h : importPattern before t = some (parts, rest)) :
    beginsLine before = true ∧ ∃ m, t = "import".toList ++ (m ++ rest) ∧ m ≠ []
      ∧ m.getLast? ≠ some '\n' := by
  unfold importPattern at h
  split_ifs at h with hbegins
  split at h
  · next tail hafter =>
    dsimp only at h
    split_ifs at h
    obtain ⟨m, hm, hne, hlast⟩ := clauseFrom?_eq_some h
    refine ⟨hbegins, tail.takeWhile isBlank ++ m, ?_, by simp [hne], ?_⟩
    · rw [after?_eq_some_iff.mp hafter, List.append_assoc, ← hm, List.takeWhile_append_dropWhile]
    · rwa [List.getLast?_append_of_ne_nil _ hne]
  · exact absurd h (by simp)

/-- An import statement is not empty. -/
lemma importPattern_consumes : Consumes importPattern := by
  intro before t parts rest h
  obtain ⟨-, m, ht, -, -⟩ := importPattern_eq_some h
  exact ⟨"import".toList ++ m, by simp, by rw [ht, List.append_assoc]⟩

/-! ## Statements of a text -/

/-- **An import statement stands at the start of a line** and does not end with a line break. -/
lemma exists_of_mem_importStatements {t : Text} {s : ImportStatement}
    (h : s ∈ importStatements t) :
    ∃ front back, t = front ++ (s.raw ++ back) ∧ s.start = front.length
      ∧ beginsLine front.getLast? = true ∧ (∃ m, s.raw = "import".toList ++ m)
      ∧ s.raw.getLast? ≠ some '\n' := by
  obtain ⟨o, ho, rfl⟩ := List.mem_map.mp h
  obtain ⟨front, m, back, hsplit, hstart, -, htext, hmatch⟩ :=
    exists_of_mem_occurrences importPattern_consumes ho
  obtain ⟨hbegins, m', hm, hne, hlast⟩ := importPattern_eq_some hmatch
  rw [← List.append_assoc, List.append_left_inj] at hm
  refine ⟨front, back, by rw [htext, hsplit], hstart, hbegins, ⟨m', by rw [htext, hm]⟩, ?_⟩
  rwa [htext, hm, List.getLast?_append_of_ne_nil _ hne]

/-- An import statement ends in the text. -/
lemma ImportStatement.stop_le {t : Text} {s : ImportStatement} (h : s ∈ importStatements t) :
    s.stop ≤ t.length := by
  obtain ⟨front, back, rfl, hstart, -⟩ := exists_of_mem_importStatements h
  simp only [ImportStatement.stop, hstart, List.length_append]
  omega

/-- Import statements stand one behind the other. -/
lemma pairwise_importStatements (t : Text) :
    (importStatements t).Pairwise fun s s' => s.stop ≤ s'.start := by
  unfold importStatements
  rw [List.pairwise_map]
  obtain ⟨pieces, hjoined, hscan⟩ := exists_scan importPattern_consumes t none
  have hpairs := (pairwise_places 0 pieces).2
  rw [← occurrences_eq_places hscan, hjoined] at hpairs
  refine hpairs.imp_of_mem fun ho _ hle => ?_
  obtain ⟨front, m, back, -, hstart, hstop, htext, -⟩ :=
    exists_of_mem_occurrences importPattern_consumes ho
  rw [ImportStatement.stop, htext, hstart, ← hstop]
  exact hle

/-- **No two import statements touch**: a line break stands between them. -/
theorem importStatements_apart {t : Text} {s s' : ImportStatement} (hs : s ∈ importStatements t)
    (hs' : s' ∈ importStatements t) (hne : s ≠ s') : s.stop < s'.start ∨ s'.stop < s.start := by
  have htouch : ∀ {s s' : ImportStatement}, s ∈ importStatements t → s' ∈ importStatements t →
      s.stop ≠ s'.start := by
    intro s s' hs hs' heq
    obtain ⟨front, back, hsplit, hstart, -, ⟨m, hraw⟩, hlast⟩ := exists_of_mem_importStatements hs
    obtain ⟨front', back', hsplit', hstart', hbegins, -, -⟩ := exists_of_mem_importStatements hs'
    have hfront : front' = front ++ s.raw := by
      have hlength : front'.length = (front ++ s.raw).length := by
        rw [← hstart', ← heq, ImportStatement.stop, List.length_append, hstart]
      have happend : front' ++ (s'.raw ++ back') = (front ++ s.raw) ++ back := by
        rw [← hsplit', List.append_assoc, ← hsplit]
      exact (List.append_inj happend hlength).1
    have hraw' : s.raw ≠ [] := by rw [hraw]; simp
    rw [hfront, List.getLast?_append_of_ne_nil _ hraw',
      List.getLast?_eq_some_getLast hraw'] at hbegins
    rw [List.getLast?_eq_some_getLast hraw'] at hlast
    simp only [beginsLine, beq_iff_eq] at hbegins
    exact hlast (by rw [hbegins])
  have hsymm : Std.Symm fun s s' : ImportStatement => s.stop ≤ s'.start ∨ s'.stop ≤ s.start :=
    ⟨fun _ _ => Or.symm⟩
  have hpairs : (importStatements t).Pairwise fun s s' => s.stop ≤ s'.start ∨ s'.stop ≤ s.start :=
    (pairwise_importStatements t).imp fun h => Or.inl h
  rcases hpairs.forall hs hs' hne with h | h
  · exact Or.inl (Nat.lt_of_le_of_ne h (htouch hs hs'))
  · exact Or.inr (Nat.lt_of_le_of_ne h (htouch hs' hs))

/-- An import statement is known by its start. -/
lemma importStatement_eq_of_start {t : Text} {s s' : ImportStatement} (hs : s ∈ importStatements t)
    (hs' : s' ∈ importStatements t) (h : s.start = s'.start) : s = s' := by
  by_contra hne
  have hapart := importStatements_apart hs hs' hne
  unfold ImportStatement.stop at hapart
  omega

end Esmify
