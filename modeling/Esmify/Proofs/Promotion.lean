import Esmify.Export.Global
import Esmify.Proofs.ReexportText
import Esmify.Proofs.Revision

/-!
# Exporting names of the file

What the pass does with the members of an exported object, action by action. Names that are imported
are re-exported all at once: **the statements that bind them do not touch, so each of them is edited
as it would be alone** (`exported_of_reexport`). Of an object whose keys are exported, the module is
re-exported as a whole, or the object is exported or reported (`promoteKeySet_turn`). A member with
a value gets a paragraph of its own (`insertParagraphBefore_turn`). -/

namespace Esmify

open Text Source

/-! ## Edits of import statements -/

section statementEdits

variable {t t' : Text} {ps : List (ImportStatement × Edit)}
  (hps : ∀ p ∈ ps, p.1 ∈ importStatements t ∧ p.1.Holds p.2)

include hps

/-- Edits within import statements are a step of the pass. -/
lemma step_of_statementEdits (raw : Text) (h : applyEdits t (ps.map Prod.snd) = .ok t') :
    Step raw t ((ps.map Prod.fst).map fun s => (s.start, s.stop)) t' := by
  have hss : ∀ s ∈ ps.map Prod.fst, s ∈ importStatements t ∧ ∃ e ∈ ps.map Prod.snd, s.Holds e := by
    intro s hs
    obtain ⟨p, hp, rfl⟩ := List.mem_map.mp hs
    exact ⟨(hps p hp).1, p.2, List.mem_map_of_mem hp, (hps p hp).2⟩
  have hedits : ∀ e ∈ ps.map Prod.snd, ∃ s ∈ ps.map Prod.fst, s.Holds e := by
    intro e he
    obtain ⟨p, hp, rfl⟩ := List.mem_map.mp he
    exact ⟨p.1, List.mem_map_of_mem hp, (hps p hp).2⟩
  exact .imports hss hedits h

/-- **Each statement is edited as it would be alone**, and still begins a line: the statements of a
text do not touch. -/
lemma applyEdits_statement (hnodup : (ps.map Prod.fst).Nodup)
    (h : applyEdits t (ps.map Prod.snd) = .ok t') {p : ImportStatement × Edit} (hp : p ∈ ps)
    {i j : Nat} (hstart : p.2.start = (p.1.start + i : Nat))
    (hstop : p.2.stop = (p.1.start + j : Nat)) (hij : i ≤ j) (hj : j ≤ p.1.raw.length) :
    ∃ front back, t' = front ++ (p.1.raw.splice i j p.2.piece ++ back)
      ∧ beginsLine front.getLast? = true := by
  have hapart : ∀ q ∈ ps, ∀ q' ∈ ps, q ≠ q' →
      q.1.stop < q'.1.start ∨ q'.1.stop < q.1.start := by
    intro q hq q' hq' hne
    refine importStatements_apart (hps q hq).1 (hps q' hq').1 fun heq => hne ?_
    exact List.inj_on_of_nodup_map hnodup hq hq' heq
  have hproper : ∀ e ∈ ps.map Prod.snd, e.Proper := by
    intro e he
    obtain ⟨q, hq, rfl⟩ := List.mem_map.mp he
    obtain ⟨start, stop, hstart, hstop, -, hle, -⟩ := (hps q hq).2
    exact ⟨start, stop, hstart, hstop, hle⟩
  have hdistinct : (ps.map Prod.snd).Nodup := by
    refine (List.Nodup.of_map _ hnodup).map_on fun q hq q' hq' heq => ?_
    by_contra hne
    have hapart' := hapart q hq q' hq' hne
    obtain ⟨start, stop, hstart, hstop, h₁, h₂, h₃⟩ := (hps q hq).2
    obtain ⟨start', stop', hstart', hstop', h₁', h₂', h₃'⟩ := (hps q' hq').2
    rw [heq] at hstart hstop
    omega
  obtain ⟨front, back, rfl, hfront, hline, -, -⟩ := exists_of_mem_importStatements (hps p hp).1
  have hothers : ∀ e ∈ ps.map Prod.snd, e ≠ p.2 → e.stop < front.length
      ∨ ((front.length + p.1.raw.length : Nat) : Int) < e.start := by
    intro e he hne
    obtain ⟨q, hq, rfl⟩ := List.mem_map.mp he
    have hapart' := hapart q hq p hp fun heq => hne (heq ▸ rfl)
    obtain ⟨start, stop, hstart', hstop', h₁, h₂, h₃⟩ := (hps q hq).2
    rw [hstart', hstop']
    simp only [ImportStatement.stop, hfront] at hapart' h₃
    omega
  rw [hfront] at hstart hstop
  exact applyEdits_edits (List.mem_map_of_mem hp) hdistinct hproper hstart hstop hij hj
    hothers hline h

end statementEdits

/-! ## Imported names -/

/-- Each imported name has a statement that binds it. -/
lemma importBindings_eq_ok {content : Text} {names : List Text}
    {bound : List (ImportStatement × ImportedName)} (h : importBindings content names = .ok bound) :
    (∀ name ∈ names, ∃ b ∈ bound, importBinding? content name = some b)
      ∧ ∀ b ∈ bound, ∃ name ∈ names, importBinding? content name = some b := by
  induction names generalizing bound with
  | nil =>
    simp only [importBindings, Except.ok.injEq] at h
    subst h
    exact ⟨by simp, by simp⟩
  | cons name names ih =>
    rw [importBindings] at h
    cases hb : importBinding? content name with
    | none => simp [hb] at h
    | some b =>
      simp only [hb] at h
      cases hrest : importBindings content names with
      | error e =>
        rw [hrest] at h
        cases h
      | ok rest =>
        rw [hrest] at h
        obtain rfl : b :: rest = bound := Except.ok.inj h
        obtain ⟨hnames, hrest'⟩ := ih hrest
        refine ⟨List.forall_mem_cons.mpr ⟨⟨b, List.mem_cons_self, hb⟩, fun other hother => ?_⟩,
          List.forall_mem_cons.mpr ⟨⟨name, List.mem_cons_self, hb⟩, fun b' hb' => ?_⟩⟩
        · obtain ⟨b', hb', hsome⟩ := hnames other hother
          exact ⟨b', List.mem_cons_of_mem _ hb', hsome⟩
        · obtain ⟨other, hother, hsome⟩ := hrest' b' hb'
          exact ⟨other, List.mem_cons_of_mem _ hother, hsome⟩

/-- A binding is one of a statement of the text, for the name itself. -/
lemma importBinding?_eq_some {content name : Text} {s : ImportStatement} {n : ImportedName}
    (h : importBinding? content name = some (s, n)) :
    importOf? content name = some s ∧ s ∈ importStatements content ∧ n ∈ s.names
      ∧ n.localName = name := by
  obtain ⟨s', hs', hn⟩ := Option.bind_eq_some_iff.mp h
  obtain ⟨n', hn', heq⟩ := Option.map_eq_some_iff.mp hn
  obtain ⟨rfl, rfl⟩ := Prod.mk.inj heq
  unfold ImportStatement.binding? at hn'
  have hname := List.find?_some hn'
  exact ⟨hs', List.mem_of_find?_eq_some hs', List.mem_of_find?_eq_some hn', eq_of_beq hname⟩

/-- The edit that re-exports names lies within the statement, and what it makes of the statement
exposes the names when the statement has plain braces. -/
lemma reexportEdit_exposes {content : Text} {s : ImportStatement} {names : List ImportedName}
    (raw : Text) (hs : s ∈ importStatements content) (hnames : ∀ n ∈ names, n ∈ s.names) :
    ∃ i j : Nat, (reexportEdit content raw s names).1.start = (s.start + i : Nat)
      ∧ (reexportEdit content raw s names).1.stop = (s.start + j : Nat) ∧ i ≤ j ∧ j ≤ s.raw.length
      ∧ (s.PlainBraces → ∀ n ∈ names,
        Exposes n.localName (s.raw.splice i j (reexportEdit content raw s names).1.piece)) := by
  obtain ⟨front, back, -, -, -, ⟨m, hraw⟩, -⟩ := exists_of_mem_importStatements hs
  have hbrace : s.PlainBraces → ∀ n ∈ names, NoBrace n := fun h n hn => h.1 n (hnames n hn)
  unfold reexportEdit
  dsimp only
  split_ifs with hall hturned
  · -- the first word of the statement is turned
    rw [Bool.and_eq_true] at hturned
    refine ⟨0, "import".length, rfl, rfl, Nat.zero_le _, ?_, fun hplain n hn => ?_⟩
    · rw [hraw, List.length_append]
      exact Nat.le_add_right _ _
    · have hkind : ∀ n ∈ s.names, n.kind = .byName := fun n hn =>
        eq_of_beq (List.all_eq_true.mp hturned.2 n hn)
      exact exposes_turned hplain hturned.1 hkind (hnames n hn)
  · -- the statement gives way
    refine ⟨0, s.raw.length, rfl, rfl, Nat.zero_le _, le_rfl, fun hplain n hn => ?_⟩
    have hgone : s.raw.splice 0 s.raw.length (exportFrom s names) = exportFrom s names := by
      simp [splice]
    rw [hgone]
    exact exposes_exportFrom s hn (hbrace hplain)
  · -- lines are put behind the statement
    refine ⟨s.raw.length, s.raw.length, rfl, rfl, le_rfl, le_rfl, fun hplain n hn => ?_⟩
    have hbehind : s.raw.splice s.raw.length s.raw.length ('\n' :: exportFrom s names) =
        s.raw ++ '\n' :: (exportFrom s names ++ []) := by
      simp [splice]
    rw [hbehind]
    exact (exposes_exportFrom s hn (hbrace hplain)).line _ _

/-- Statements without repetition. -/
lemma nodup_eraseDups (ss : List ImportStatement) : ss.eraseDups.Nodup := by
  induction hn : ss.length using Nat.strongRecOn generalizing ss with
  | ind n ih =>
    cases ss with
    | nil => simp
    | cons s ss =>
      rw [List.eraseDups_cons, List.nodup_cons]
      refine ⟨fun hmem => ?_, ih _ ?_ _ rfl⟩
      · rw [List.mem_eraseDups, List.mem_filter] at hmem
        simp at hmem
      · have := List.length_filter_le (fun b => !b == s) ss
        rw [List.length_cons] at hn
        omega

/-- The edits that re-export names, one for each statement. -/
lemma value_run_reexportEdits (content raw : Text)
    (groups : List (ImportStatement × List ImportedName)) :
    (reexportEdits content raw groups).run.value =
      .ok (groups.map fun g => (reexportEdit content raw g.1 g.2).1) := by
  induction groups with
  | nil => rfl
  | cons g groups ih =>
    rw [reexportEdits, Revision.value_run_bind_of_ok (Revision.value_run_warnEach _ _),
      Revision.value_run_bind_of_ok ih]
    rfl

/-- The names that are grouped under a statement are names of that statement. -/
lemma byStatement_spec {content : Text} {names : List Text}
    {bound : List (ImportStatement × ImportedName)} (h : importBindings content names = .ok bound) :
    (∀ g ∈ byStatement bound, g.1 ∈ importStatements content ∧ ∀ n ∈ g.2, n ∈ g.1.names)
      ∧ ((byStatement bound).map Prod.fst).Nodup
      ∧ ∀ b ∈ bound, ∃ g ∈ byStatement bound, g.1 = b.1 ∧ b.2 ∈ g.2 := by
  obtain ⟨-, hbound⟩ := importBindings_eq_ok h
  have hmem : ∀ b ∈ bound, b.1 ∈ importStatements content ∧ b.2 ∈ b.1.names := by
    intro b hb
    obtain ⟨name, -, hname⟩ := hbound b hb
    obtain ⟨-, hs, hn, -⟩ := importBinding?_eq_some hname
    exact ⟨hs, hn⟩
  unfold byStatement
  refine ⟨fun g hg => ?_, ?_, fun b hb => ?_⟩
  · obtain ⟨s, hs, rfl⟩ := List.mem_map.mp hg
    rw [List.mem_eraseDups] at hs
    obtain ⟨b, hb, rfl⟩ := List.mem_map.mp hs
    refine ⟨(hmem b hb).1, fun n hn => ?_⟩
    obtain ⟨b', hb', rfl⟩ := List.mem_map.mp hn
    rw [List.mem_filter, beq_iff_eq] at hb'
    have heq := importStatement_eq_of_start (hmem b' hb'.1).1 (hmem b hb).1 hb'.2
    exact heq ▸ (hmem b' hb'.1).2
  · rw [List.map_map]
    simpa [Function.comp_def] using nodup_eraseDups (bound.map Prod.fst)
  · refine ⟨_, List.mem_map.mpr ⟨b.1, ?_, rfl⟩, rfl, ?_⟩
    · rw [List.mem_eraseDups]
      exact List.mem_map_of_mem hb
    · exact List.mem_map_of_mem (List.mem_filter.mpr ⟨hb, by simp⟩)

/-- The edit that re-exports names lies within their statement. -/
lemma holds_reexportEdit {content : Text} {names : List Text}
    {bound : List (ImportStatement × ImportedName)} (h : importBindings content names = .ok bound)
    (raw : Text) {g : ImportStatement × List ImportedName} (hg : g ∈ byStatement bound) :
    g.1 ∈ importStatements content ∧ g.1.Holds (reexportEdit content raw g.1 g.2).1 := by
  obtain ⟨hs, hn⟩ := (byStatement_spec h).1 g hg
  obtain ⟨i, j, hstart, hstop, hij, hj, -⟩ := reexportEdit_exposes raw hs hn
  exact ⟨hs, _, _, hstart, hstop, Nat.le_add_right _ _, Nat.add_le_add_left hij _,
    Nat.add_le_add_left hj _⟩

/-- **Names are re-exported each by its own statement.** The edits are a step of the pass, behind
which every name is exported that stands between plain braces. -/
theorem exported_of_reexport {content raw t : Text} {names : List Text}
    {bound : List (ImportStatement × ImportedName)}
    (hbound : importBindings content names = .ok bound)
    (h : applyEdits content
      ((byStatement bound).map fun g => (reexportEdit content raw g.1 g.2).1) = .ok t) :
    Step raw content (((byStatement bound).map Prod.fst).map fun s => (s.start, s.stop)) t
      ∧ ∀ name ∈ names, isExported t name = true
        ∨ ∃ s, importOf? content name = some s ∧ ¬ s.PlainBraces := by
  obtain ⟨hgroups, hnodup, hcovers⟩ := byStatement_spec hbound
  obtain ⟨ps, hps⟩ : ∃ ps, ps = (byStatement bound).map fun g =>
      (g.1, (reexportEdit content raw g.1 g.2).1) := ⟨_, rfl⟩
  have hfst : ps.map Prod.fst = (byStatement bound).map Prod.fst := by
    rw [hps, List.map_map]
    rfl
  have hsnd : ps.map Prod.snd = (byStatement bound).map fun g =>
      (reexportEdit content raw g.1 g.2).1 := by
    rw [hps, List.map_map]
    rfl
  rw [← hfst] at hnodup
  rw [← hsnd] at h
  have hheld : ∀ p ∈ ps, p.1 ∈ importStatements content ∧ p.1.Holds p.2 := by
    intro p hp
    rw [hps] at hp
    obtain ⟨g, hg, rfl⟩ := List.mem_map.mp hp
    exact holds_reexportEdit hbound raw hg
  refine ⟨hfst ▸ step_of_statementEdits hheld raw h, fun name hname => ?_⟩
  obtain ⟨b, hb, hbinding⟩ := (importBindings_eq_ok hbound).1 name hname
  obtain ⟨himport, -, -, rfl⟩ := importBinding?_eq_some hbinding
  by_cases hplain : b.1.PlainBraces
  · left
    obtain ⟨g, hg, hgb, hmem⟩ := hcovers b hb
    obtain ⟨hs, hn⟩ := hgroups g hg
    obtain ⟨i, j, hstart, hstop, hij, hj, hexposes⟩ := reexportEdit_exposes raw hs hn
    have hp : (g.1, (reexportEdit content raw g.1 g.2).1) ∈ ps := by
      rw [hps]
      exact List.mem_map_of_mem hg
    obtain ⟨front, back, rfl, hline⟩ := applyEdits_statement hheld hnodup h hp hstart hstop hij hj
    rw [isExported_iff]
    exact (hexposes (hgb ▸ hplain) b.2 hmem).stands hline back
  · exact Or.inr ⟨b.1, himport, hplain⟩

/-! ## Key sets -/

/-- The line that re-exports all that the module of an import statement exports. -/
def ImportStatement.wildcard (s : ImportStatement) : Text :=
  "export * from ".toList ++ specifier [s.quote] s.target ++ [';']

/-- The re-export of a whole module is solid. -/
lemma solid_wildcard (s : ImportStatement) : Solid s.wildcard := by
  show Solid ('e' :: ("xport * from ".toList ++ specifier [s.quote] s.target ++ [';']))
  refine solid_cons (by decide) ?_
  rw [← List.cons_append, List.getLast?_concat]
  decide

/-- A single edit. -/
lemma applyEdits_singleton {t : Text} {stop : Nat} (start : Nat) (piece : Text)
    (h : stop ≤ t.length) :
    applyEdits t [⟨start, stop, piece⟩] = .ok (t.splice start stop piece) := by
  have hfits : ¬ ((t.length : Int) < stop) := by omega
  rw [applyEdits, sortBackwards, List.mergeSort_singleton, applyBackwards, if_neg hfits]
  simp only [place_natCast, applyBackwards]

/-- One edit of an import statement is a step, and what it makes of the statement begins a line. -/
lemma splice_statement {t : Text} {s : ImportStatement} (hs : s ∈ importStatements t) (raw : Text)
    {i j : Nat} (hij : i ≤ j) (hj : j ≤ s.raw.length) (piece : Text) :
    Step raw t [(s.start, s.stop)] (t.splice (s.start + i) (s.start + j) piece)
      ∧ ∃ front back, t.splice (s.start + i) (s.start + j) piece =
          front ++ (s.raw.splice i j piece ++ back) ∧ beginsLine front.getLast? = true := by
  have hlength : s.start + j ≤ t.length := by
    obtain ⟨front, back, rfl, hstart, -⟩ := exists_of_mem_importStatements hs
    rw [hstart, List.length_append, List.length_append]
    omega
  have happlied := applyEdits_singleton (s.start + i) piece hlength
  have hps : ∀ p ∈ [(s, (⟨(s.start + i : Nat), (s.start + j : Nat), piece⟩ : Edit))],
      p.1 ∈ importStatements t ∧ p.1.Holds p.2 := by
    intro p hp
    obtain rfl := List.mem_singleton.mp hp
    exact ⟨hs, _, _, rfl, rfl, Nat.le_add_right _ _, Nat.add_le_add_left hij _,
      Nat.add_le_add_left hj _⟩
  exact ⟨step_of_statementEdits hps raw happlied,
    applyEdits_statement hps (List.nodup_singleton _) happlied (List.mem_singleton_self _)
      rfl rfl hij hj⟩

/-- Exports an object that does not stand for a module: its declaration is marked, or it is
reported. -/
def promoteObject (content name : Text) : Reported Text :=
  match declaration? content name with
  | some d => do
    Reported.warn (.localKeySet name)
    pure (content.insertAt d.start "export ".toList)
  | none => do
    if !isExported content name then Reported.warn (.undeclared name)
    pure content

/-- The place where a name is marked as exported, if it is declared. -/
def markSpans (content name : Text) : List (Nat × Nat) :=
  ((declaration? content name).map fun d => (d.start, d.start)).toList

/-- Promoting the object of a key set is a step or changes nothing, and reports or exports its
name. -/
lemma promoteObject_turn (content raw name : Text) :
    ((promoteObject content name).value = content
        ∨ Step raw content (markSpans content name) (promoteObject content name).value)
      ∧ (.localKeySet name ∈ (promoteObject content name).warnings
        ∨ .undeclared name ∈ (promoteObject content name).warnings
        ∨ isExported (promoteObject content name).value name = true) := by
  unfold promoteObject markSpans
  cases hd : declaration? content name with
  | some d => exact ⟨Or.inr (.mark hd), Or.inl List.mem_cons_self⟩
  | none =>
    cases hexported : isExported content name with
    | true => exact ⟨Or.inl rfl, Or.inr (Or.inr hexported)⟩
    | false => exact ⟨Or.inl rfl, Or.inr (Or.inl List.mem_cons_self)⟩

/-- The import statement that binds a name to a module as a whole. -/
def wholeImport? (content name : Text) : Option ImportStatement :=
  (importOf? content name).filter fun s =>
    ((s.binding? name).map (·.kind)).getD .byName != .byName

/-- What becomes of an object whose keys are exported, seen from the import statement it stands
for. -/
lemma promoteKeySet_cases (content raw name : Text) :
    (wholeImport? content name = none ∧ promoteKeySet content raw name = promoteObject content name)
      ∨ ∃ s, wholeImport? content name = some s ∧ importOf? content name = some s
        ∧ (promoteKeySet content raw name = pure (content.splice s.start s.stop s.wildcard)
          ∨ promoteKeySet content raw name
            = pure (content.insertAt s.stop ('\n' :: s.wildcard))) := by
  unfold promoteKeySet wholeImport?
  dsimp only
  cases hs : importOf? content name with
  | none => exact Or.inl ⟨rfl, rfl⟩
  | some s =>
    dsimp only
    by_cases hkind : (((s.binding? name).map (·.kind)).getD .byName == .byName) = true
    · rw [if_pos hkind]
      exact Or.inl ⟨by simp [Option.filter, bne, hkind], rfl⟩
    · rw [if_neg hkind]
      right
      refine ⟨s, by simp [Option.filter, bne, hkind], rfl, ?_⟩
      split_ifs
      · exact Or.inl rfl
      · exact Or.inr rfl

/-- The places that an object whose keys are exported is dealt with at. -/
def keySetSpans (content name : Text) : List (Nat × Nat) :=
  match wholeImport? content name with
  | some s => [(s.start, s.stop)]
  | none => markSpans content name

/-- **An object whose keys are exported** has the module it stands for re-exported as a whole, or is
reported, or has its name exported already. -/
lemma promoteKeySet_turn (content raw name : Text) :
    ((promoteKeySet content raw name).value = content
        ∨ Step raw content (keySetSpans content name) (promoteKeySet content raw name).value)
      ∧ (.localKeySet name ∈ (promoteKeySet content raw name).warnings
        ∨ .undeclared name ∈ (promoteKeySet content raw name).warnings
        ∨ isExported (promoteKeySet content raw name).value name = true
        ∨ ∃ s, importOf? content name = some s
          ∧ Stands beginsLine (fun u _ => u = s.wildcard)
            (promoteKeySet content raw name).value) := by
  rcases promoteKeySet_cases content raw name with ⟨hnone, hobject⟩ | ⟨s, hwhole, hs, hcases⟩
  · rw [hobject, keySetSpans, hnone]
    obtain ⟨hstep, hturn⟩ := promoteObject_turn content raw name
    exact ⟨hstep, hturn.imp_right fun h => h.imp_right Or.inl⟩
  have hmem : s ∈ importStatements content := List.mem_of_find?_eq_some hs
  rw [keySetSpans, hwhole]
  rcases hcases with heq | heq
  · -- the line takes the place of the statement
    obtain ⟨hstep, front, back, hsplice, hline⟩ :=
      splice_statement hmem raw (Nat.zero_le _) le_rfl s.wildcard
    have hgone : s.raw.splice 0 s.raw.length s.wildcard = s.wildcard := by simp [splice]
    rw [hgone] at hsplice
    rw [heq]
    exact ⟨Or.inr hstep, Or.inr (Or.inr (Or.inr
      ⟨s, hs, front, s.wildcard, back, hsplice, hline, rfl⟩))⟩
  · -- the line stands behind the statement
    obtain ⟨hstep, front, back, hsplice, -⟩ :=
      splice_statement hmem raw (le_refl s.raw.length) le_rfl ('\n' :: s.wildcard)
    have hbehind : s.raw.splice s.raw.length s.raw.length ('\n' :: s.wildcard) =
        (s.raw ++ ['\n']) ++ s.wildcard := by simp [splice]
    rw [hbehind, List.append_assoc, ← List.append_assoc] at hsplice
    have hline : beginsLine (front ++ (s.raw ++ ['\n'])).getLast? = true := by
      rw [← List.append_assoc, List.getLast?_concat]
      rfl
    rw [heq]
    exact ⟨Or.inr hstep, Or.inr (Or.inr (Or.inr
      ⟨s, hs, _, s.wildcard, back, hsplice, hline, rfl⟩))⟩

/-! ## Members with a value -/

/-- A solid paragraph stands in the text it is put into. -/
lemma insertParagraphBefore_turn {raw t t' piece : Text} (hsolid : Solid piece)
    (h : insertParagraphBefore t raw piece = .ok t') :
    Stands beginsLine (fun u _ => u = piece) t' := by
  cases hi : indexOf? raw t with
  | none => simp [insertParagraphBefore, hi] at h
  | some i =>
    have hbare : dropFrontBreaks (dropEndBreaks piece) = piece := by
      have hend := hsolid.dropEndBreaks [] []
      have hfront := hsolid.dropFrontBreaks [] []
      simp only [List.nil_append, List.append_nil, dropEndBreaks, dropEndWhile, dropFrontBreaks,
        List.reverse_nil, List.dropWhile_nil] at hend hfront ⊢
      rw [hend, hfront]
    simp only [insertParagraphBefore, hi, Except.ok.injEq, hbare] at h
    refine ⟨paragraphHead (t.take i), piece, paragraphTail (t.drop i), ?_, ?_, rfl⟩
    · rw [← h, List.append_assoc]
    · unfold paragraphHead
      split_ifs
      · rfl
      · rw [show ∀ front : Text, front ++ ['\n', '\n'] = (front ++ ['\n']) ++ ['\n'] by simp,
          List.getLast?_concat]
        rfl

end Esmify
