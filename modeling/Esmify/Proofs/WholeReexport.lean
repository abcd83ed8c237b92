import Mathlib.Data.List.Perm.Subperm
import Esmify.Proofs.Promotion
import Esmify.Proofs.Weave

/-!
# Imports whose names are all exported

**A text that exports every name that it imports, and uses none, turns each import into an export**
(`run_promoteProperties_whole`). The names are taken in the order in which they are exported, which
need not be that of the imports. Where no name is bound twice, a name leads to its statement
(`importBinding?_of_nodup`), so the bindings that are found are all there are, in another order
(`exists_importBindings_perm`); each statement comes up once, with as many names as it has
(`byStatement_whole`), and its first word is all that is edited (`reexportEdit_whole`).
-/

namespace Esmify

open Text Source

variable {content raw : Text} {names : List Text}

/-! ## Bindings -/

/-- The names that a text imports, each with its statement. -/
def importPairs (content : Text) : List (ImportStatement × ImportedName) :=
  (importStatements content).flatMap fun s => s.names.map fun n => (s, n)

/-- The local names that a text imports. -/
def importedNames (content : Text) : List Text :=
  (importPairs content).map (·.2.localName)

/-- A pair is a statement of the text and one of its names. -/
lemma mem_importPairs {b : ImportStatement × ImportedName} :
    b ∈ importPairs content ↔ b.1 ∈ importStatements content ∧ b.2 ∈ b.1.names := by
  unfold importPairs
  rw [List.mem_flatMap]
  constructor
  · rintro ⟨s, hs, hb⟩
    obtain ⟨n, hn, rfl⟩ := List.mem_map.mp hb
    exact ⟨hs, hn⟩
  · rintro ⟨hs, hn⟩
    exact ⟨b.1, hs, List.mem_map.mpr ⟨b.2, hn, rfl⟩⟩

/-- **Where no name is bound twice, a name leads to its statement.** -/
lemma importBinding?_of_nodup (hnodup : (importedNames content).Nodup)
    {b : ImportStatement × ImportedName} (hb : b ∈ importPairs content) :
    importBinding? content b.2.localName = some b := by
  obtain ⟨hs, hn⟩ := mem_importPairs.mp hb
  have hbinding : (b.1.binding? b.2.localName).isSome = true := by
    rw [ImportStatement.binding?, List.find?_isSome]
    exact ⟨b.2, hn, beq_self_eq_true _⟩
  have himport : (importOf? content b.2.localName).isSome = true := by
    rw [importOf?, List.find?_isSome]
    exact ⟨b.1, hs, hbinding⟩
  obtain ⟨s, hfound⟩ := Option.isSome_iff_exists.mp himport
  have hbinds := List.find?_some hfound
  obtain ⟨n, hn'⟩ := Option.isSome_iff_exists.mp hbinds
  have hsome : importBinding? content b.2.localName = some (s, n) := by
    rw [importBinding?, hfound, Option.bind_some, hn']
    rfl
  obtain ⟨-, hs', hn', hname⟩ := importBinding?_eq_some hsome
  have hpair : (s, n) ∈ importPairs content := mem_importPairs.mpr ⟨hs', hn'⟩
  rw [hsome, List.inj_on_of_nodup_map hnodup hpair hb hname]

/-- Names that are imported lead to bindings, in order. -/
lemma exists_importBindings (hnodup : (importedNames content).Nodup)
    (hnames : ∀ name ∈ names, name ∈ importedNames content) :
    ∃ bound, importBindings content names = .ok bound ∧ bound.map (·.2.localName) = names
      ∧ ∀ b ∈ bound, b ∈ importPairs content := by
  induction names with
  | nil => exact ⟨[], rfl, rfl, by simp⟩
  | cons name names ih =>
    obtain ⟨hname, hrest⟩ := List.forall_mem_cons.mp hnames
    obtain ⟨b, hb, rfl⟩ := List.mem_map.mp hname
    obtain ⟨bound, hbound, hkeys, hpairs⟩ := ih hrest
    refine ⟨b :: bound, ?_, by rw [List.map_cons, hkeys], List.forall_mem_cons.mpr ⟨hb, hpairs⟩⟩
    rw [importBindings, importBinding?_of_nodup hnodup hb, hbound]
    rfl

/-- **The bindings of all imported names are all there are**, in another order. -/
lemma exists_importBindings_perm (hnodup : names.Nodup)
    (hperm : names.Perm (importedNames content)) :
    ∃ bound, importBindings content names = .ok bound ∧ bound.Perm (importPairs content) := by
  obtain ⟨bound, hbound, hkeys, hpairs⟩ :=
    exists_importBindings (hperm.nodup_iff.mp hnodup) fun name hname => hperm.mem_iff.mp hname
  have hdistinct : bound.Nodup := by
    rw [← hkeys] at hnodup
    exact hnodup.of_map
  have hlength : (importPairs content).length ≤ bound.length := by
    have hall := hperm.length_eq
    rw [← hkeys, importedNames, List.length_map, List.length_map] at hall
    exact hall.ge
  exact ⟨bound, hbound, (List.Nodup.subperm hdistinct hpairs).perm_of_length_le hlength⟩

/-! ## Statements -/

/-- An import statement has room for its first word. -/
lemma start_lt_stop {s : ImportStatement} (hs : s ∈ importStatements content) :
    s.start + "import".length ≤ s.stop := by
  obtain ⟨-, -, -, -, -, ⟨m, hraw⟩, -⟩ := exists_of_mem_importStatements hs
  rw [ImportStatement.stop, hraw, List.length_append]
  exact Nat.add_le_add_left (Nat.le_add_right _ _) _

/-- No import statement is listed twice. -/
lemma nodup_importStatements (content : Text) : (importStatements content).Nodup := by
  refine (pairwise_importStatements content).imp_of_mem fun hs _ hle => ?_
  rintro rfl
  have hword := start_lt_stop hs
  have hlength : "import".length = 6 := rfl
  omega

/-- The bindings of one statement are told by its start. -/
lemma filter_importPairs {s : ImportStatement} (hs : s ∈ importStatements content) :
    ((importPairs content).filter fun b => b.1.start == s.start).map Prod.snd = s.names := by
  have hown : ((s.names.map fun n => (s, n)).filter fun b => b.1.start == s.start) =
      s.names.map fun n => (s, n) := by
    rw [List.filter_eq_self]
    intro b hb
    obtain ⟨n, -, rfl⟩ := List.mem_map.mp hb
    exact beq_self_eq_true _
  have hother : ∀ ss : List ImportStatement, (∀ s' ∈ ss, s' ∈ importStatements content ∧ s' ≠ s) →
      (ss.flatMap fun s' => (s'.names.map fun n => (s', n)).filter fun b => b.1.start == s.start) =
        [] := by
    intro ss hss
    rw [List.flatMap_eq_nil_iff]
    intro s' hs'
    rw [List.filter_eq_nil_iff]
    intro b hb
    obtain ⟨n, -, rfl⟩ := List.mem_map.mp hb
    rw [beq_iff_eq]
    exact fun hstart => (hss s' hs').2 (importStatement_eq_of_start (hss s' hs').1 hs hstart)
  obtain ⟨above, below, hsplit⟩ := List.append_of_mem hs
  have hnodup := nodup_importStatements content
  rw [hsplit, List.nodup_middle, List.nodup_cons, List.mem_append, not_or] at hnodup
  unfold importPairs
  rw [List.filter_flatMap, hsplit, List.flatMap_append, List.flatMap_cons, hother above,
    hother below, hown]
  · simp [List.map_map, Function.comp_def]
  · intro s' hs'
    refine ⟨by rw [hsplit]; simp [hs'], ?_⟩
    rintro rfl
    exact hnodup.1.2 hs'
  · intro s' hs'
    refine ⟨by rw [hsplit]; simp [hs'], ?_⟩
    rintro rfl
    exact hnodup.1.1 hs'

/-- **Each statement comes up once, with as many names as it has.** -/
lemma byStatement_whole {bound : List (ImportStatement × ImportedName)}
    (hbound : bound.Perm (importPairs content))
    (hnamed : ∀ s ∈ importStatements content, s.names ≠ []) :
    ((byStatement bound).map Prod.fst).Perm (importStatements content)
      ∧ ∀ g ∈ byStatement bound, g.1 ∈ importStatements content ∧ g.2.Perm g.1.names := by
  have hmem : ∀ s, s ∈ (bound.map Prod.fst).eraseDups ↔ s ∈ importStatements content := by
    intro s
    rw [List.mem_eraseDups, List.mem_map]
    constructor
    · rintro ⟨b, hb, rfl⟩
      exact (mem_importPairs.mp (hbound.mem_iff.mp hb)).1
    · intro hs
      obtain ⟨n, hn⟩ := List.exists_mem_of_ne_nil _ (hnamed s hs)
      exact ⟨(s, n), hbound.mem_iff.mpr (mem_importPairs.mpr ⟨hs, hn⟩), rfl⟩
  refine ⟨?_, fun g hg => ?_⟩
  · rw [byStatement, List.map_map]
    simp only [Function.comp_def, List.map_id']
    exact (List.perm_ext_iff_of_nodup (nodup_eraseDups _) (nodup_importStatements content)).mpr hmem
  · obtain ⟨s, hs, rfl⟩ := List.mem_map.mp hg
    refine ⟨(hmem s).mp hs, ?_⟩
    have hgroup := (hbound.filter fun b => b.1.start == s.start).map Prod.snd
    rwa [filter_importPairs ((hmem s).mp hs)] at hgroup

/-! ## Edits -/

/-- The edit that turns an import into an export. -/
def ImportStatement.turned (s : ImportStatement) : Edit :=
  ⟨s.start, s.start + "import".length, "export".toList⟩

/-- A name of a statement with braces that is used nowhere but in the statement and in the object of
exports. -/
structure Turnable (content raw : Text) (s : ImportStatement) : Prop where
  braced : s.clause.braced = true
  named : s.names ≠ []
  byName : ∀ n ∈ s.names, n.kind = .byName
  unused : ∀ n ∈ s.names,
    isUsed content n.localName ((s.start, s.stop) :: spansOf content raw) = false

/-- **A statement whose names are all exported and not used has its first word turned.** -/
lemma reexportEdit_whole {s : ImportStatement} {ns : List ImportedName} (h : Turnable content raw s)
    (hns : ns.Perm s.names) : reexportEdit content raw s ns = (s.turned, []) := by
  have hused : ((ns.map (·.localName)).filter fun name =>
      isUsed content name ((s.start, s.stop) :: spansOf content raw)) = [] := by
    rw [List.filter_eq_nil_iff]
    intro name hname
    obtain ⟨n, hn, rfl⟩ := List.mem_map.mp hname
    rw [h.unused n (hns.mem_iff.mp hn)]
    decide
  have hkind : s.names.all (·.kind == .byName) = true := by
    rw [List.all_eq_true]
    intro n hn
    rw [h.byName n hn]
    rfl
  unfold reexportEdit ImportStatement.turned
  simp only [hused, hns.length_eq, h.braced, hkind, List.isEmpty_nil, beq_self_eq_true,
    Bool.and_self, if_true]

/-- Statements that are turned give one edit each, and no warning. -/
lemma run_reexportEdits_whole {groups : List (ImportStatement × List ImportedName)}
    (h : ∀ g ∈ groups, Turnable content raw g.1 ∧ g.2.Perm g.1.names) :
    (reexportEdits content raw groups).run = ⟨.ok (groups.map fun g => g.1.turned), []⟩ := by
  induction groups with
  | nil => rfl
  | cons g groups ih =>
    obtain ⟨⟨hturn, hperm⟩, h⟩ := List.forall_mem_cons.mp h
    have hwarn : (Revision.warnEach .usedAndExported ([] : List Text)).run = ⟨.ok (), []⟩ := rfl
    rw [reexportEdits, reexportEdit_whole hturn hperm]
    dsimp only
    rw [Revision.run_bind_of_ok hwarn, Revision.run_bind_of_ok (ih h)]
    rfl

/-- The words that are turned stand one behind the other. -/
lemma separated_turned {ss : List ImportStatement} {offset : Nat}
    (hss : ∀ s ∈ ss, s ∈ importStatements content ∧ offset ≤ s.start)
    (hpairs : ss.Pairwise fun s s' => s.stop ≤ s'.start) (hoffset : offset ≤ content.length) :
    Separated content.length offset (ss.map ImportStatement.turned) := by
  induction ss generalizing offset with
  | nil => exact hoffset
  | cons s ss ih =>
    obtain ⟨⟨hs, hle⟩, hss⟩ := List.forall_mem_cons.mp hss
    obtain ⟨hbehind, hpairs⟩ := List.pairwise_cons.mp hpairs
    have hword := start_lt_stop hs
    have hstop := ImportStatement.stop_le hs
    refine ⟨s.start, s.start + "import".length, rfl, rfl, hle, Nat.le_add_right _ _, ?_⟩
    exact ih (fun s' hs' => ⟨(hss s' hs').1, hword.trans (hbehind s' hs')⟩) hpairs
      (hword.trans hstop)

/-! ## The promotion -/

/-- Names that are imported and not declared are left to be re-exported. -/
lemma promoteDeclared_imported (h : ∀ name ∈ names, declaration? content name = none
      ∧ (importOf? content name).isSome = true) :
    promoteDeclared content names = ⟨(content, names), []⟩ := by
  induction names with
  | nil => rfl
  | cons name names ih =>
    obtain ⟨⟨hnone, hsome⟩, h⟩ := List.forall_mem_cons.mp h
    rw [promoteDeclared, hnone]
    simp only [hsome, if_true, ih h]
    rfl

/-- **Exporting every imported name turns each import into an export**, in whatever order the names
are exported. -/
theorem run_promoteProperties_whole (hnodup : names.Nodup)
    (hperm : names.Perm (importedNames content))
    (hundeclared : ∀ name ∈ names, declaration? content name = none)
    (hturn : ∀ s ∈ importStatements content, Turnable content raw s) :
    (promoteProperties content raw names).run =
      ⟨.ok (weave content 0 ((importStatements content).map ImportStatement.turned)), []⟩ := by
  have hdeclared : promoteDeclared content names = ⟨(content, names), []⟩ := by
    refine promoteDeclared_imported fun name hname => ⟨hundeclared name hname, ?_⟩
    obtain ⟨b, hb, rfl⟩ := List.mem_map.mp (hperm.mem_iff.mp hname)
    have hbinding := importBinding?_of_nodup (hperm.nodup_iff.mp hnodup) hb
    rw [(importBinding?_eq_some hbinding).1]
    rfl
  obtain ⟨bound, hbound, hpairs⟩ := exists_importBindings_perm hnodup hperm
  obtain ⟨hstatements, hgroups⟩ := byStatement_whole hpairs fun s hs => (hturn s hs).named
  have hedits : (reexportEdits content raw (byStatement bound)).run = _ :=
    run_reexportEdits_whole fun g hg => ⟨hturn g.1 (hgroups g hg).1, (hgroups g hg).2⟩
  have happlied : applyEdits content ((byStatement bound).map fun g => g.1.turned) =
      .ok (weave content 0 ((importStatements content).map ImportStatement.turned)) := by
    refine applyEdits_of_perm ?_ (separated_turned (fun s hs => ⟨hs, Nat.zero_le _⟩)
      (pairwise_importStatements content) (Nat.zero_le _)) ?_
    · have hmap := hstatements.map ImportStatement.turned
      rwa [List.map_map] at hmap
    · intro e he
      obtain ⟨s, -, rfl⟩ := List.mem_map.mp he
      have hlength : "import".length = 6 := rfl
      simp only [ImportStatement.turned]
      omega
  have hofExcept : (Revision.ofExcept (importBindings content names)).run = ⟨.ok bound, []⟩ := by
    rw [hbound]
    rfl
  unfold promoteProperties
  rw [Revision.run_bind_of_ok (Revision.run_ofReported _), hdeclared]
  dsimp only
  rw [Revision.run_bind_of_ok hofExcept, Revision.run_bind_of_ok hedits, happlied]
  rfl

end Esmify
