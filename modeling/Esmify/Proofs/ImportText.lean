import Esmify.Import.Writer
import Esmify.Proofs.RequireStatement

/-!
# The text of an import statement

What stands in the import of a requirement that was read. It begins with the word `import`, a space
and a character that begins a clause or a module (`importOf_begins`). **A line that begins inside
the statement** holds one member of the clause, or begins with the closing brace, or lies in the
name of the module (`importOf_break`); the last is only possible when that name has a line break. -/

namespace Esmify

open Text Source Requirement

/-! ## Members of a clause -/

/-- One member of an import clause: a name, or a key and the name it gets. -/
def ClauseMember (m : Text) : Prop :=
  ProperName m ∨ ∃ key name, ProperKey key ∧ ProperName name ∧ m = key ++ (" as ".toList ++ name)

/-- A well-formed binding is written as a member of a clause. -/
lemma clauseMember_writtenBinding {b : Binding} (isDefault : Bool) (h : ProperBinding b) :
    ClauseMember (writtenBinding isDefault b) := by
  unfold writtenBinding
  split_ifs with hwhole
  · rw [Bool.and_eq_true, beq_iff_eq] at hwhole
    rcases h with ⟨hkey, hnone⟩ | ⟨name, hname, hproper, -⟩
    · exact absurd (ProperBinding.isSome_of_wholeModule (Or.inl ⟨hkey, hnone⟩) hwhole.1)
        (by simp [hnone])
    · rw [hname]
      exact Or.inl hproper
  · rcases h with ⟨hkey, hnone⟩ | ⟨name, hname, hproper, hkey⟩
    · rw [hnone]
      exact Or.inl hkey
    · obtain ⟨c, cs, rfl, hc, hcs⟩ := id hproper
      rw [hname]
      exact Or.inr ⟨b.key, c :: cs, hkey, hproper, List.append_assoc _ _ _⟩

/-- A member of a clause has no line break. -/
lemma ClauseMember.break_not_mem {m : Text} (h : ClauseMember m) : '\n' ∉ m := by
  rcases h with hname | ⟨key, name, hkey, hname, rfl⟩
  · exact hname.not_mem (by decide)
  · have h₁ := hkey.break_not_mem
    have h₂ := hname.not_mem (c := '\n') (by decide)
    simp [h₁, h₂]

/-! ## Lines inside a clause -/

/-- What follows a member of a block: a comma and a line break, or the end of the block. -/
def BehindMember (t : Text) : Prop :=
  (∃ rest, t = ',' :: '\n' :: rest) ∨ ∃ rest, t = '\n' :: '\x7d' :: rest

/-- A line inside the clause of an import statement, with everything behind it: one member, or the
closing brace. -/
def ClauseLine (t : Text) : Prop :=
  (∃ indent m behind, (∀ c ∈ indent, isIndent c = true) ∧ ClauseMember m ∧ BehindMember behind
      ∧ t = indent ++ (m ++ behind)) ∨
    ∃ rest, t = '\x7d' :: rest

/-- More text may stand behind what follows a member. -/
lemma BehindMember.append {t : Text} (h : BehindMember t) (rest : Text) :
    BehindMember (t ++ rest) := by
  rcases h with ⟨r, rfl⟩ | ⟨r, rfl⟩
  · exact Or.inl ⟨r ++ rest, rfl⟩
  · exact Or.inr ⟨r ++ rest, rfl⟩

/-- More text may stand behind a line of a clause. -/
lemma ClauseLine.append {t : Text} (h : ClauseLine t) (rest : Text) : ClauseLine (t ++ rest) := by
  rcases h with ⟨indent, m, behind, hindent, hm, hbehind, rfl⟩ | ⟨r, rfl⟩
  · exact Or.inl ⟨indent, m, behind ++ rest, hindent, hm, hbehind.append rest,
      by simp only [List.append_assoc]⟩
  · exact Or.inr ⟨r ++ rest, rfl⟩

/-- What follows a member up to an equals sign has a line break behind at most a comma. -/
lemma BehindMember.exists_break {front rest : Text} (h : BehindMember (front ++ '=' :: rest)) :
    ∃ a b, front = a ++ '\n' :: b ∧ '\x7b' ∉ a := by
  rcases h with ⟨r, hr⟩ | ⟨r, hr⟩
  · rcases front with _ | ⟨c, _ | ⟨d, front⟩⟩
    · exact absurd (List.cons.inj hr).1 (by decide)
    · exact absurd (List.cons.inj (List.cons.inj hr).2).1 (by decide)
    · have h₁ := (List.cons.inj hr).1
      have h₂ := (List.cons.inj (List.cons.inj hr).2).1
      exact ⟨[c], front, by rw [h₂]; rfl, by simp [h₁]⟩
  · rcases front with _ | ⟨c, front⟩
    · exact absurd (List.cons.inj hr).1 (by decide)
    · exact ⟨[], front, by rw [(List.cons.inj hr).1]; rfl, by simp⟩

variable {indent ending : Text}

/-- The members of a block, from one of them on, begin with that member. -/
lemma members_begin (m : Text) (ms : List Text) (hending : BehindMember ending) :
    ∃ behind, BehindMember behind ∧
      (",\n".toList ++ indent).intercalate (m :: ms) ++ ending = m ++ behind := by
  cases ms with
  | nil => exact ⟨ending, hending, by simp⟩
  | cons m' ms =>
    refine ⟨',' :: '\n' :: (indent ++ ((",\n".toList ++ indent).intercalate (m' :: ms) ++ ending)),
      Or.inl ⟨_, rfl⟩, ?_⟩
    rw [List.intercalate_cons_cons]
    simp only [List.append_assoc]
    rfl

/-- A line that begins behind a member of a block is a line of the clause. -/
lemma members_break {ms : List Text} {a b : Text} (hindent : ∀ c ∈ indent, isIndent c = true)
    (hending : ending = ",\n\x7d".toList ∨ ending = "\n\x7d".toList)
    (hms : ∀ m ∈ ms, ClauseMember m) (hne : ms ≠ [])
    (h : (",\n".toList ++ indent).intercalate ms ++ ending = a ++ '\n' :: b) : ClauseLine b := by
  have hbehind : BehindMember ending := by
    rcases hending with rfl | rfl
    · exact Or.inl ⟨_, rfl⟩
    · exact Or.inr ⟨_, rfl⟩
  have hbreak : '\n' ∉ indent := fun hmem => absurd (hindent _ hmem) (by decide)
  induction ms generalizing a with
  | nil => exact absurd rfl hne
  | cons m ms ih =>
    rw [List.forall_mem_cons] at hms
    cases ms with
    | nil =>
      rw [List.intercalate_singleton] at h
      obtain ⟨a', -, hrest⟩ := append_eq_append_cons_of_not_mem hms.1.break_not_mem h
      refine Or.inr ⟨[], ?_⟩
      rcases hending with rfl | rfl
      · rcases a' with _ | ⟨c, _ | ⟨d, _ | ⟨e, a'⟩⟩⟩ <;> simp_all
      · rcases a' with _ | ⟨c, _ | ⟨d, a'⟩⟩ <;> simp_all
    | cons m' ms =>
      rw [List.intercalate_cons_cons, List.append_assoc, List.append_assoc] at h
      obtain ⟨a', -, hrest⟩ := append_eq_append_cons_of_not_mem hms.1.break_not_mem h
      rw [List.append_assoc] at hrest
      rcases a' with _ | ⟨c, _ | ⟨d, a'⟩⟩
      · exact absurd (List.cons.inj hrest).1 (by decide)
      · -- the line break in front of the next member
        have hb : b = indent ++ _ := (List.cons.inj (List.cons.inj hrest).2).2.symm
        obtain ⟨behind, hbehind', hbegin⟩ := members_begin m' ms hbehind
        rw [hb, hbegin]
        exact Or.inl ⟨indent, m', behind, hindent, hms.2 m' List.mem_cons_self, hbehind', rfl⟩
      · have hlater := (List.cons.inj (List.cons.inj hrest).2).2
        obtain ⟨a'', -, hmore⟩ := append_eq_append_cons_of_not_mem hbreak hlater
        exact ih hms.2 (List.cons_ne_nil m' ms) hmore

/-! ## Clauses -/

/-- What a clause begins with: a brace, a star or a name. -/
def isClauseStart (c : Char) : Bool :=
  c == '\x7b' || c == '*' || isNameStart c

/-- The text between the word `import` and the quoted module: where it begins, and what its lines
are. -/
structure ClauseText (t : Text) : Prop where
  begins : ∀ c rest, t = c :: rest → isClauseStart c = true
  lines : ∀ a b, t = a ++ '\n' :: b → ClauseLine b

/-- A clause on lines of its own. -/
lemma clauseText_block {ms : List Text} (lastComma : Bool)
    (hindent : ∀ c ∈ indent, isIndent c = true) (hms : ∀ m ∈ ms, ClauseMember m) (hne : ms ≠ []) :
    ClauseText (blockClause lastComma indent ms ++ " from ".toList) := by
  have hbreak : '\n' ∉ indent := fun hmem => absurd (hindent _ hmem) (by decide)
  obtain ⟨ending, hending, htext⟩ : ∃ ending,
      (ending = ",\n\x7d".toList ∨ ending = "\n\x7d".toList) ∧
      blockClause lastComma indent ms =
        '\x7b' :: '\n' :: (indent ++ ((",\n".toList ++ indent).intercalate ms ++ ending)) := by
    refine ⟨(if lastComma then [','] else []) ++ "\n\x7d".toList, ?_, ?_⟩
    · cases lastComma
      · exact Or.inr rfl
      · exact Or.inl rfl
    · unfold blockClause
      simp only [List.append_assoc]
      rfl
  have hbehind : BehindMember ending := by
    rcases hending with rfl | rfl
    · exact Or.inl ⟨_, rfl⟩
    · exact Or.inr ⟨_, rfl⟩
  refine ⟨fun c rest h => ?_, fun a b h => ?_⟩
  · rw [htext] at h
    rw [← (List.cons.inj h).1]
    decide
  · rw [htext] at h
    rcases append_eq_append_cons h with ⟨l', hblock, rfl⟩ | ⟨a', -, hfrom⟩
    · apply ClauseLine.append
      rcases a with _ | ⟨c, _ | ⟨d, a⟩⟩
      · exact absurd (List.cons.inj hblock).1 (by decide)
      · obtain ⟨m, ms, rfl⟩ := List.exists_cons_of_ne_nil hne
        obtain ⟨behind, hbehind', hbegin⟩ := @members_begin indent ending m ms hbehind
        have hl : l' = indent ++ _ := (List.cons.inj (List.cons.inj hblock).2).2.symm
        rw [hl, hbegin]
        exact Or.inl ⟨indent, m, behind, hindent, hms m List.mem_cons_self, hbehind', rfl⟩
      · have hlater := (List.cons.inj (List.cons.inj hblock).2).2
        obtain ⟨a'', -, hmore⟩ := append_eq_append_cons_of_not_mem hbreak hlater
        exact members_break hindent hending hms hne hmore
    · exact absurd (hfrom ▸ List.mem_append_right a' List.mem_cons_self) (by decide)

/-- Members joined on one line have no line break between them. -/
lemma break_not_mem_intercalate {sep : Text} {ms : List Text} (hsep : '\n' ∉ sep)
    (hms : ∀ m ∈ ms, ClauseMember m) : '\n' ∉ sep.intercalate ms := by
  induction ms with
  | nil => simp
  | cons m ms ih =>
    rw [List.forall_mem_cons] at hms
    have hm := hms.1.break_not_mem
    cases ms with
    | nil => rwa [List.intercalate_singleton]
    | cons m' ms =>
      rw [List.intercalate_cons_cons]
      simp [hm, hsep, ih hms.2]

/-- A clause on one line. -/
lemma clauseText_line {whole : Bool} {ms : List Text} (hms : ∀ m ∈ ms, ClauseMember m)
    (hwhole : whole = true → ∃ c rest, ms = [c :: rest] ∧ isClauseStart c = true) :
    ClauseText (lineClause whole ms ++ " from ".toList) := by
  have hjoined : '\n' ∉ ", ".toList.intercalate ms :=
    break_not_mem_intercalate (by decide) hms
  have hbreak : '\n' ∉ lineClause whole ms ++ " from ".toList := by
    unfold lineClause
    dsimp only
    split_ifs
    · simp only [List.mem_append, not_or]
      exact ⟨hjoined, by decide⟩
    · simp only [List.mem_append, not_or]
      exact ⟨⟨⟨by decide, hjoined⟩, by decide⟩, by decide⟩
  refine ⟨fun c rest h => ?_, fun a b h => absurd (by rw [h]; simp) hbreak⟩
  cases whole with
  | false =>
    rw [← (List.cons.inj h).1]
    decide
  | true =>
    obtain ⟨d, rest', rfl, hd⟩ := hwhole rfl
    rw [lineClause, if_pos rfl, List.intercalate_singleton, List.cons_append, List.cons.injEq] at h
    rw [← h.1]
    exact hd

/-! ## Statements -/

/-- What the writer of imports relies on in a requirement. -/
structure WellRead (r : Requirement) : Prop where
  quote : ∃ q, isTargetQuote q = true ∧ r.quote = [q]
  indent : ∀ indent, r.indent = some indent → ∀ c ∈ indent, isIndent c = true
  bindings : ∀ b ∈ r.bindings, ProperBinding b

/-- The only member of a clause for a whole module begins the clause. -/
lemma exists_wholeMember {r : Requirement} (isDefault : Bool) (h : WellRead r)
    (hwhole : r.isWholeModule = true) :
    ∃ c rest, r.bindings.map (writtenBinding isDefault) = [c :: rest] ∧ isClauseStart c = true := by
  unfold Requirement.isWholeModule at hwhole
  split at hwhole
  · rename_i b hb
    rw [beq_iff_eq] at hwhole
    have hproper := h.bindings b (by rw [hb]; exact List.mem_cons_self)
    rcases hproper with ⟨hkey, hnone⟩ | ⟨name, hname, ⟨c, cs, rfl, hc, -⟩, -⟩
    · exact absurd (ProperBinding.isSome_of_wholeModule (Or.inl ⟨hkey, hnone⟩) hwhole)
        (by simp [hnone])
    · rw [hb, List.map_singleton, writtenBinding, hwhole, hname]
      cases isDefault with
      | true => exact ⟨c, cs, rfl, by simp [isClauseStart, hc]⟩
      | false => exact ⟨'*', _, rfl, by decide⟩
  · exact absurd hwhole (by simp)

/-- **An import statement** is the word, a clause that may be missing, and the quoted module. -/
lemma importOf_split {r : Requirement} (config : Config) (isDefault : Option Bool)
    (h : WellRead r) :
    ∃ q clause, isTargetQuote q = true ∧ ClauseText clause ∧ importOf config isDefault r =
      "import ".toList ++ (clause ++ q :: (writtenTarget config r.target ++ [q, ';'])) := by
  obtain ⟨q, hq, hquote⟩ : ∃ q, isTargetQuote q = true ∧
      (config.quote.map fun q => [q.char]).getD r.quote = [q] := by
    cases config.quote with
    | none => exact h.quote
    | some q => cases q <;> exact ⟨_, by decide, rfl⟩
  have hmembers : ∀ d, ∀ m ∈ r.bindings.map (writtenBinding d), ClauseMember m := by
    intro d m hm
    obtain ⟨b, hb, rfl⟩ := List.mem_map.mp hm
    exact clauseMember_writtenBinding d (h.bindings b hb)
  unfold importOf
  rw [hquote]
  dsimp only
  split
  · refine ⟨q, [], hq, ⟨by simp, by simp⟩, ?_⟩
    simp [specifier]
  · rename_i hne
    set d := isDefault.getD r.hasDefault
    have hms : r.bindings.map (writtenBinding d) ≠ [] := by
      intro hnil
      exact hne (List.map_eq_nil_iff.mp hnil)
    have hstatement : ∀ clause : Text, ClauseText (clause ++ " from ".toList) → ∃ q' clause',
        isTargetQuote q' = true ∧ ClauseText clause' ∧
        "import ".toList ++ clause ++ " from ".toList
            ++ specifier [q] (writtenTarget config r.target) ++ [';'] =
          "import ".toList ++ (clause' ++ q' :: (writtenTarget config r.target ++ [q', ';'])) := by
      intro clause hclause
      refine ⟨q, clause ++ " from ".toList, hq, hclause, ?_⟩
      simp only [specifier, List.append_assoc, List.cons_append, List.nil_append]
    split
    · rename_i c cs hindent
      exact hstatement _ (clauseText_block config.lastComma (h.indent _ hindent) (hmembers d) hms)
    · exact hstatement _ (clauseText_line (hmembers d) (exists_wholeMember d h))

/-- What the word `import` and its space are followed by. -/
def isImportStart (c : Char) : Bool :=
  isClauseStart c || isTargetQuote c

/-- No import begins with white space, a separator, a closing brace or an equals sign. -/
lemma isImportStart_ne {c : Char} (h : isImportStart c = true) :
    isBlank c = false ∧ c ≠ ':' ∧ c ≠ ',' ∧ c ≠ '\x7d' ∧ c ≠ '=' := by
  refine ⟨?_, ?_, ?_, ?_, ?_⟩
  · by_contra hblank
    rw [Bool.not_eq_false] at hblank
    have hname := isNameChar_of_isBlank hblank
    simp only [isImportStart, isClauseStart, isTargetQuote, Bool.or_eq_true, beq_iff_eq] at h
    rcases h with ((rfl | rfl) | hstart) | rfl | rfl
    · exact absurd hblank (by decide)
    · exact absurd hblank (by decide)
    · rw [isNameChar_of_isNameStart hstart] at hname
      exact absurd hname (by decide)
    · exact absurd hblank (by decide)
    · exact absurd hblank (by decide)
  all_goals
    rintro rfl
    exact absurd h (by decide)

/-- An import statement begins with the word, a space and the beginning of a clause or a module. -/
lemma importOf_begins {r : Requirement} (config : Config) (isDefault : Option Bool)
    (h : WellRead r) :
    ∃ c rest, isImportStart c = true
      ∧ importOf config isDefault r = "import ".toList ++ c :: rest := by
  obtain ⟨q, clause, hq, hclause, htext⟩ := importOf_split config isDefault h
  cases clause with
  | nil => exact ⟨q, _, by simp [isImportStart, hq], htext⟩
  | cons c rest =>
    exact ⟨c, _, by simp [isImportStart, hclause.begins c rest rfl], htext⟩

/-- **A line that begins inside an import statement** is a line of the clause, or lies in the name
of the module. -/
lemma importOf_break {r : Requirement} {config : Config} {isDefault : Option Bool} {a b : Text}
    (h : WellRead r) (hbreak : importOf config isDefault r = a ++ '\n' :: b) :
    ClauseLine b ∨ ∃ q head x y, isTargetQuote q = true
      ∧ writtenTarget config r.target = x ++ '\n' :: y ∧ a = head ++ x ∧ b = y ++ [q, ';'] := by
  obtain ⟨q, clause, hq, hclause, htext⟩ := importOf_split config isDefault h
  rw [htext] at hbreak
  obtain ⟨a', rfl, hrest⟩ := append_eq_append_cons_of_not_mem (by decide) hbreak
  rcases append_eq_append_cons hrest with ⟨l', hinside, rfl⟩ | ⟨a'', rfl, hmodule⟩
  · exact Or.inl ((hclause.lines _ _ hinside).append _)
  · have hq' : '\n' ∉ [q] := by
      rw [List.mem_singleton]
      rintro rfl
      exact absurd hq (by decide)
    obtain ⟨x', rfl, htarget⟩ := append_eq_append_cons_of_not_mem hq' hmodule
    rcases append_eq_append_cons htarget with ⟨y, hy, rfl⟩ | ⟨x'', rfl, hend⟩
    · exact Or.inr ⟨q, "import ".toList ++ (clause ++ [q]), x', y, hq, hy,
        by simp only [List.append_assoc], rfl⟩
    · have hmem : '\n' ∈ [q, ';'] := by
        rw [hend]
        simp
      rw [List.mem_cons, List.mem_singleton] at hmem
      rcases hmem with rfl | hmem
      · exact absurd hq (by decide)
      · exact absurd hmem (by decide)

end Esmify
