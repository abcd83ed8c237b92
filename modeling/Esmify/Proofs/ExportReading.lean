import Esmify.Proofs.BlockInvariant
import Esmify.Proofs.ExportOnly
import Esmify.Proofs.InlineTurn

/-!
# Exports are read whole or not at all

**What is not understood gives no global exports and one warning; what is read stands in the text**
(`Exports.read_whole`). The source of the global exports is a piece of the text at the place that is
given for it, and a value that is exported as a whole has no members beside it (`ReadFrom`). Inline
exports stand one behind the other.

In a call that merges objects into the exports, the last object may be a literal. **The brace that
opens it is found, and the bracket that closes it as well**: the arguments stand between brackets
that match, so each of them is balanced (`balanced_of_mergeCall`), and a brace that is the first
thing to see in one is its first code (`Balanced.exists_braces`). -/

namespace Esmify

open Text Source

/-! ## Slices -/

/-- A slice stands at its start. -/
lemma slice_add_length (t : Text) (start stop : Nat) :
    t.slice start (start + (t.slice start stop).length) = t.slice start stop := by
  unfold slice
  rw [List.length_drop, List.length_take]
  by_cases hle : start ≤ min stop t.length
  · rw [Nat.add_sub_cancel' hle]
    by_cases hstop : stop ≤ t.length
    · rw [Nat.min_eq_left hstop]
    · rw [Nat.min_eq_right (by omega), List.take_length, List.take_of_length_le (by omega)]
  · have hnil : ∀ k, min k t.length ≤ start → (t.take k).drop start = [] := by
      intro k hk
      apply List.drop_eq_nil_of_le
      rwa [List.length_take]
    rw [hnil _ (by omega), hnil _ (by omega)]

/-- A slice begins with each slice from the same start that does not reach further. -/
lemma slice_prefix (t : Text) (start : Nat) {stop stop' : Nat} (h : min stop t.length ≤ stop') :
    t.slice start stop <+: t.slice start stop' := by
  have htake : t.take stop = (t.take stop').take stop := by
    rw [List.take_take]
    by_cases hstop : stop ≤ t.length
    · rw [Nat.min_eq_left (by omega)]
    · rw [List.take_of_length_le (by omega), List.take_of_length_le (by omega)]
  unfold slice
  rw [htake, List.drop_take]
  exact List.take_prefix _ _

/-! ## The literal among merged objects -/

namespace Source

/-- **A brace that is the first thing to see, comments aside, is the first code.** -/
lemma exists_first_brace {m : Mode} {t gap rest : Text} (hm : m.uncommented = .code)
    (hgap : ∀ c ∈ gap, isBlank c = true) (h : stripFrom m t = gap ++ '\x7b' :: rest) :
    ∃ front back, t = front ++ '\x7b' :: back ∧ modeAfter m front = .code
      ∧ ∀ c ∈ codeIn m front, isBlank c = true := by
  induction t generalizing m gap with
  | nil => exact absurd h (by simp [stripFrom])
  | cons c cs ih =>
    rw [stripFrom] at h
    rcases hstep : m.step c cs.head? with ⟨region, m'⟩
    rw [hstep] at h
    -- one more character in front of the brace
    have hcons : ∀ gap', m'.uncommented = .code → (∀ c ∈ gap', isBlank c = true) →
        stripFrom m' cs = gap' ++ '\x7b' :: rest → (region = .code → isBlank c = true) →
        ∃ front back, c :: cs = front ++ '\x7b' :: back ∧ modeAfter m front = .code
          ∧ ∀ c ∈ codeIn m front, isBlank c = true := by
      intro gap' hm' hgap' hrest hblank
      obtain ⟨front, back, rfl, hmode, hcode⟩ := ih hm' hgap' hrest
      rw [m.step_append c front (calm_cons (by decide) (by decide) back)] at hstep
      refine ⟨c :: front, back, rfl, ?_, ?_⟩
      · rw [modeAfter, hstep]
        exact hmode
      · rw [codeIn_cons, hstep]
        cases region with
        | code => exact List.forall_mem_cons.mpr ⟨hblank rfl, hcode⟩
        | comment => exact hcode
        | literal => exact hcode
    cases region with
    | code =>
      obtain ⟨rfl, hcode⟩ := Mode.step_eq_code hstep
      cases gap with
      | nil =>
        obtain ⟨rfl, -⟩ := List.cons.inj h
        exact ⟨[], cs, rfl, hcode (by decide), fun c hc => absurd hc (by simp [codeIn, codeChars])⟩
      | cons b gap =>
        obtain ⟨rfl, hrest⟩ := List.cons.inj h
        obtain ⟨hc, hgap⟩ := List.forall_mem_cons.mp hgap
        exact hcons gap rfl hgap hrest fun _ => hc
    | comment =>
      have hm' : m'.uncommented = .code := (Mode.uncommented_of_comment hstep).symm.trans hm
      exact hcons gap hm' hgap h fun hregion => absurd hregion (by decide)
    | literal =>
      -- a literal begins with a quote, and so would what is to be seen
      have hquote := (Mode.step_eq_literal hm hstep).2
      have hseen : c :: stripFrom m' cs = gap ++ '\x7b' :: rest := h
      cases gap with
      | nil =>
        obtain ⟨rfl, -⟩ := List.cons.inj hseen
        exact absurd hquote (by decide)
      | cons b gap =>
        obtain ⟨rfl, -⟩ := List.cons.inj hseen
        rw [(bracketStep_of_isBlank (hgap c List.mem_cons_self)).2.2.2.2] at hquote
        exact absurd hquote (by decide)

/-- **In a balanced text that begins with a brace, comments aside, the brace and the one that closes
it are found.** -/
lemma Balanced.exists_braces {t : Text} (h : Balanced t)
    (hhead : (trim (stripComments t)).head? = some '\x7b') :
    ∃ brace close, (code t).find? (fun p => p.2 == '\x7b') = some (brace, '\x7b')
      ∧ closing? t brace = some close ∧ brace < close ∧ close < t.length := by
  obtain ⟨body, hbody⟩ := List.head?_eq_some_iff.mp hhead
  obtain ⟨gap, trailing, hgap, -, hsplit, -⟩ := trim_split (stripComments t)
  rw [hbody, List.cons_append] at hsplit
  obtain ⟨front, back, rfl, hmode, hblank⟩ := exists_first_brace (m := .code) rfl hgap hsplit
  have hcalm : Calm ('\x7b' :: back) := calm_cons (by decide) (by decide) back
  have hdepth : bracketDepth front = 0 := by
    rw [bracketDepth_eq]
    exact depthOf_unbracketed (bare_of_blanks hblank).2
  obtain ⟨close, hclose⟩ := h.exists_closing? hmode hdepth (k := '\x7d') (by decide) (by decide)
    (by decide) (by decide)
  refine ⟨front.length, close, ?_, hclose, ?_, (closing?_bounds hclose).2⟩
  · have hcode : code (front ++ '\x7b' :: back) = codeChars .code 0 front
        ++ (front.length, '\x7b') :: codeChars .code (front.length + 1) back := by
      rw [code, codeFrom, List.drop_zero, codeChars_append _ _ _ hcalm, hmode,
        codeChars_bare_cons (by decide) (by decide), Nat.zero_add]
    have hnone : (codeChars .code 0 front).find? (fun p => p.2 == '\x7b') = none := by
      rw [List.find?_eq_none]
      intro p hp hbrace
      have hc := hblank p.2 (List.mem_map_of_mem hp)
      rw [beq_iff_eq.mp hbrace] at hc
      exact absurd hc (by decide)
    rw [hcode, List.find?_append, hnone, Option.none_or, List.find?_cons_of_pos rfl]
  · -- the brace itself closes nothing
    rw [closing?, codeFrom, List.drop_left, codeChars_bare_cons (by decide) (by decide)] at hclose
    have hrest : closingIn ['\x7d'] (codeChars .code (front.length + 1) back) = some close := hclose
    obtain ⟨c, hc⟩ := closingIn_mem hrest
    exact (codeChars_bounds _ hc).1

end Source

/-- There are no quotes, slashes and brackets in the argument. -/
lemma ExportsArgument.bare {u : Text} (h : ExportsArgument u) : Bare u ∧ Unbracketed u := by
  obtain ⟨ahead, word, behind, hahead, hbehind, hword, rfl⟩ := h
  have hletters : Bare word ∧ Unbracketed word := by
    unfold Bare Unbracketed
    rcases hword with rfl | rfl
    · decide
    · decide
  obtain ⟨hahead, hahead'⟩ := bare_of_blanks hahead
  obtain ⟨hbehind, hbehind'⟩ := bare_of_blanks hbehind
  refine ⟨List.forall_mem_append.mpr ⟨hahead, ?_⟩, List.forall_mem_append.mpr ⟨hahead', ?_⟩⟩
  · exact List.forall_mem_append.mpr ⟨hletters.1, hbehind⟩
  · exact List.forall_mem_append.mpr ⟨hletters.2, hbehind'⟩

/-- **The arguments behind the exports are balanced**, each on its own. -/
lemma balanced_of_mergeCall {content : Text} {m : Occurrence Text} {close : Nat}
    (hm : first? mergeCall content = some m)
    (hclose : closing? content (content.length - m.value.length) = some close) :
    ∀ piece ∈ splitTopLevel (content.slice m.stop close) ',', Balanced piece := by
  obtain ⟨front, back, args, rfl, hstart, hstop, hmatch⟩ := first?_span hm
  obtain ⟨-, indent, function, gap, argument, -, -, -, hargument, hvalue, rfl⟩ :=
    mergeCall_eq_some hmatch
  obtain ⟨hbare, hbrackets⟩ := hargument.bare
  -- the text up to the bracket, the bracket and the arguments
  have hcontent : front ++ (indent ++ (function ++ (gap ++ m.value))) =
      (front ++ (indent ++ (function ++ gap))) ++ '(' :: (argument ++ ',' :: args) := by
    rw [hvalue]
    simp only [List.append_assoc]
  have hopened : (front ++ (indent ++ (function ++ (gap ++ m.value)))).length - m.value.length =
      (front ++ (indent ++ (function ++ gap))).length := by
    simp only [List.length_append]
    omega
  rw [hopened, hcontent] at hclose
  obtain ⟨inner, rest, hinner, hplace, hbalanced⟩ := closing?_round hclose
  -- the exports and the comma behind them stand in front of the closing bracket
  have hnot : ')' ∉ argument ++ [','] := by
    intro hmem
    rcases List.mem_append.mp hmem with hmem | hmem
    · exact absurd (hbrackets _ hmem).2 (by decide)
    · exact absurd (List.mem_singleton.mp hmem) (by decide)
  have hjoined : (argument ++ [',']) ++ args = inner ++ ')' :: rest := by
    rw [← hinner, List.append_assoc, List.singleton_append]
  obtain ⟨arguments, rfl, rfl⟩ := append_eq_append_cons_of_not_mem hnot hjoined
  have hslice : Text.slice (front ++ (indent ++ (function ++ (gap ++ m.value)))) m.stop close
      = arguments := by
    have hwhole : front ++ (indent ++ (function ++ (gap ++ m.value))) =
        (front ++ (indent ++ (function ++ (gap ++ '(' :: (argument ++ [',']))))) ++
          (arguments ++ ')' :: rest) := by
      rw [hvalue]
      simp only [List.append_assoc, List.cons_append, List.nil_append]
    have hfrom : m.stop
        = (front ++ (indent ++ (function ++ (gap ++ '(' :: (argument ++ [',']))))).length := by
      rw [hstop, hstart, hvalue]
      simp only [List.length_append, List.length_cons, List.length_nil]
      omega
    have hto : close
        = (front ++ (indent ++ (function ++ (gap ++ '(' :: (argument ++ [',']))))).length +
        arguments.length := by
      rw [hplace]
      simp only [List.length_append, List.length_cons, List.length_nil]
      omega
    rw [hwhole, hfrom, hto, slice_append]
  rw [hslice]
  intro piece hpiece
  have hmode : modeAfter .code argument = .code := by
    have hmode := modeAfter_bare_append hbare []
    rwa [List.append_nil] at hmode
  have hdepth : bracketDepth argument = 0 := by
    have hdepth := bracketDepth_bare_append hbare hbrackets []
    rwa [List.append_nil] at hdepth
  rw [List.append_assoc, List.singleton_append] at hbalanced
  exact (Balanced.of_append_comma hmode hdepth hbalanced).2.of_mem_splitTopLevel hpiece

/-! ## What is read -/

/-- Global exports as they are read from a text: nothing at all, or with their source and its place;
a value that is exported as a whole has no members beside it. -/
structure GlobalExports.ReadFrom (content : Text) (e : GlobalExports) : Prop where
  empty : e.raw = none → e = {}
  source : ∀ raw, e.raw = some raw → raw ≠ [] ∧ ∃ start, e.start = some start
    ∧ content.slice start (start + raw.length) = raw
  alone : e.direct ≠ none → e.properties = [] ∧ e.keySets = [] ∧ e.assignments = []

/-- Nothing at all is read from any text. -/
lemma GlobalExports.readFrom_empty (content : Text) : ({} : GlobalExports).ReadFrom content :=
  ⟨fun _ => rfl, fun _ h => absurd h (by simp), fun h => absurd rfl h⟩

/-! ## Literals -/

/-- Members are added to the exports and change nothing else. -/
lemma addMembers_extends {pieces : List Text} {e e' : GlobalExports}
    (h : addMembers e pieces = .ok e') :
    e.Extends e' := by
  induction pieces generalizing e with
  | nil =>
    obtain rfl := Except.ok.inj h
    exact .refl e
  | cons piece pieces ih =>
    rw [addMembers] at h
    split_ifs at h
    · exact ih h
    · split at h
      · next m hm => exact (GlobalExports.Extends.add e none m).trans (ih h)
      · exact absurd h (by simp)

/-- The line reader starts from no exports and only adds to them. -/
lemma readBlock_extends {inner : Text} {e : GlobalExports} (h : readBlock inner = .ok e) :
    ({} : GlobalExports).Extends e := by
  unfold readBlock at h
  simp only [bind, Except.bind] at h
  split at h
  · exact absurd h (by simp)
  rename_i opened hopened
  split at h
  · exact absurd h (by simp)
  rename_i indent hindent
  split at h
  · exact absurd h (by simp)
  rename_i read hread
  have hhead : BlockReader.Safe {} (.ok opened) := by
    rw [← hopened]
    unfold BlockReader.feedHead
    split_ifs
    · exact ⟨BlockReader.consistent_scanning rfl, .refl _⟩
    · exact BlockReader.startMember_safe rfl _
  obtain ⟨hconsistent, hextends⟩ := hhead
  have hindented : ({ opened with indent } : BlockReader).Consistent :=
    ⟨hconsistent.depth_pos, hconsistent.key, hconsistent.lines, hconsistent.depth_eq,
      hconsistent.outside, hconsistent.comment⟩
  have hrun := BlockReader.feedAll_safe hindented inner.lines.tail
  rw [hread] at hrun
  unfold BlockReader.finish at h
  split at h
  · obtain rfl := Except.ok.inj h
    exact hextends.trans hrun.2
  · exact absurd h (by simp)
  · exact absurd h (by simp)

/-- No literal is a value that is exported as a whole. -/
lemma direct_of_readLiteral {inner snippet : Text} {experimental : Bool} {e : GlobalExports}
    (h : readLiteral inner snippet experimental = .ok e) : e.direct = none := by
  unfold readLiteral at h
  dsimp only at h
  split at h
  · split_ifs at h
    exact (readBlock_extends h).kept.2.1
  · split at h
    · next members hmembers =>
      obtain rfl := Except.ok.inj h
      exact (addMembers_extends hmembers).kept.2.1
    · exact absurd h (by simp)

/-! ## Where a statement begins -/

/-- A statement begins here: blanks and tabs, and then one of the first letters of the words that
the readers look for, with at least `size` characters behind it. -/
def OpensStatement (before : Option Char) (t : Text) (size : Nat) : Prop :=
  beginsStatement before = true ∧ ∃ indent c back, (∀ x ∈ indent, isIndent x = true)
    ∧ c ∈ "emO_l$".toList ∧ t = indent ++ c :: back ∧ size ≤ back.length

/-- A statement begins with one of the words that the readers look for. -/
lemma OpensStatement.of_word {before : Option Char} {t indent back : Text} (word : Text)
    (hbefore : beginsStatement before = true) (hindent : ∀ x ∈ indent, isIndent x = true)
    (hword : word.head?.any ("emO_l$".toList.contains ·) = true)
    (ht : t = indent ++ (word ++ back)) :
    OpensStatement before t back.length := by
  obtain ⟨c, hhead, hc⟩ := (Option.any_eq_true _ _).mp hword
  obtain ⟨letters, rfl⟩ := List.head?_eq_some_iff.mp hhead
  refine ⟨hbefore, indent, c, letters ++ back, hindent, List.contains_iff_mem.mp hc, ht, ?_⟩
  rw [List.length_append]
  omega

/-- A statement with more behind its first letter begins where one with less does. -/
lemma OpensStatement.mono {before : Option Char} {t : Text} {size size' : Nat} (hle : size' ≤ size)
    (h : OpensStatement before t size) : OpensStatement before t size' := by
  obtain ⟨hbefore, indent, c, back, hindent, hc, ht, hsize⟩ := h
  exact ⟨hbefore, indent, c, back, hindent, hc, ht, hle.trans hsize⟩

/-- An assignment of an object begins a statement. -/
lemma objectAssignment_opens {before : Option Char} {t value rest : Text}
    (h : objectAssignment before t = some (value, rest)) :
    OpensStatement before t value.length := by
  obtain ⟨hbefore, indent, blanks, gap, hindent, -, -, ht⟩ := objectAssignment_eq_some h
  refine (OpensStatement.of_word "module.exports".toList hbefore hindent (by decide) ht).mono ?_
  simp only [List.length_append, List.length_cons]
  omega

/-- An assignment of a value begins a statement. -/
lemma directAssignment_opens {before : Option Char} {t rest : Text} {u : Unit}
    (h : directAssignment before t = some (u, rest)) : OpensStatement before t rest.length := by
  obtain ⟨hbefore, indent, blanks, gap, hindent, -, -, ht⟩ := directAssignment_eq_some h
  refine (OpensStatement.of_word "module.exports".toList hbefore hindent (by decide) ht).mono ?_
  simp only [List.length_append, List.length_cons]
  omega

/-- A call that merges into the exports begins a statement. -/
lemma mergeCall_opens {before : Option Char} {t value rest : Text}
    (h : mergeCall before t = some (value, rest)) : OpensStatement before t value.length := by
  obtain ⟨hbefore, indent, function, gap, argument, hindent, hfunction, -, -, -, ht⟩ :=
    mergeCall_eq_some h
  have hwords : ∀ word ∈ mergeFunctions, word.head?.any ("emO_l$".toList.contains ·)
      = true := by decide
  refine (OpensStatement.of_word function hbefore hindent (hwords function hfunction) ht).mono ?_
  rw [List.length_append]
  omega

/-- An inline export begins a statement. -/
lemma inlineExport_opens {before : Option Char} {t name rest : Text}
    (h : inlineExport before t = some (name, rest)) : OpensStatement before t rest.length := by
  obtain ⟨hbefore, -, indent, w, tail, hindent, hw, ht, -, hrest⟩ := inlineExport_eq_some h
  refine (OpensStatement.of_word w hbefore hindent ?_ ht).mono hrest.length_le
  rcases hw with rfl | rfl
  · rfl
  · rfl

/-- A statement of a text stands from `start` to `stop`, with something to see in it. -/
def StatementAt (content : Text) (start stop : Nat) : Prop :=
  ∃ front t, content = front ++ t ∧ start = front.length ∧ stop ≤ content.length
    ∧ OpensStatement front.getLast? t (content.length - stop)

/-- A statement takes up some room. -/
lemma StatementAt.lt {content : Text} {start stop : Nat} (h : StatementAt content start stop) :
    start < stop := by
  obtain ⟨front, t, rfl, rfl, hle, -, indent, c, back, -, -, rfl, hback⟩ := h
  simp only [List.length_append, List.length_cons] at hle hback
  omega

/-- The source of a statement is not empty. -/
lemma StatementAt.slice_ne_nil {content : Text} {start stop : Nat}
    (h : StatementAt content start stop) :
    content.slice start stop ≠ [] := by
  obtain ⟨-, -, -, -, hle, -⟩ := id h
  have hlt := h.lt
  rw [← List.length_pos_iff]
  unfold slice
  rw [List.length_drop, List.length_take]
  omega

/-! ## Statements -/

/-- What is exported as a whole is nothing, or read from a statement with its members or its
value. -/
def GlobalExports.From (content : Text) (e : GlobalExports) : Prop :=
  e = {} ∨ ∃ start stop, StatementAt content start stop ∧ e.raw = some (content.slice start stop)
    ∧ e.start = some start
    ∧ (e.direct ≠ none → e.properties = [] ∧ e.keySets = [] ∧ e.assignments = [])

/-- A statement that is closed by a bracket reaches beyond the bracket that opens. -/
lemma closedStatement_eq_ok {content raw : Text} {start opened close : Nat}
    (h : closedStatement content start opened = .ok (close, raw)) :
    closing? content opened = some close
      ∧ ∃ stop, raw = content.slice start stop ∧ opened ≤ stop ∧ stop ≤ content.length := by
  unfold closedStatement at h
  split at h
  · exact absurd h (by simp)
  · next found hfound =>
    split at h
    · exact absurd h (by simp)
    · next rest htail =>
      obtain ⟨rfl, rfl⟩ := Prod.mk.inj (Except.ok.inj h)
      have hrest := length_statementTail?_le htail
      have hbounds := closing?_bounds hfound
      rw [List.length_drop] at hrest
      exact ⟨hfound, _, rfl, by omega, by omega⟩

/-- The statement of a match whose value is the rest of the text. -/
lemma statementAt_of_first? {p : Pattern Text} {content : Text} {m : Occurrence Text} {stop : Nat}
    (hp : ∀ before t value rest, p before t = some (value, rest) →
      OpensStatement before t value.length)
    (hm : first? p content = some m) (hopened : content.length - m.value.length ≤ stop)
    (hle : stop ≤ content.length) : StatementAt content m.start stop := by
  obtain ⟨front, t, rest, hsplit, hstart, hmatch⟩ := first?_eq_some hm
  exact ⟨front, t, hsplit, hstart, hle, (hp _ _ _ _ hmatch).mono (by omega)⟩

/-- The exports of an object are read from its statement. -/
lemma readObject_from {content : Text} {m : Occurrence Text} {experimental : Bool}
    {e : GlobalExports} (hm : first? objectAssignment content = some m)
    (h : readObject content m experimental = .ok e) :
    e.From content := by
  unfold readObject at h
  dsimp only at h
  split at h
  · exact absurd h (by simp)
  · next close raw hclosed =>
    obtain ⟨-, stop, rfl, hopened, hle⟩ := closedStatement_eq_ok hclosed
    have hstatement := statementAt_of_first? (fun _ _ _ _ => objectAssignment_opens) hm hopened hle
    split at h
    · next literal hliteral =>
      have hdirect := direct_of_readLiteral hliteral
      obtain rfl := Except.ok.inj h
      exact Or.inr ⟨m.start, stop, hstatement, rfl, rfl, fun hne => absurd hdirect hne⟩
    · exact absurd h (by simp)

/-- The exports of merged objects are read from their statement. -/
lemma readMerge_from {content : Text} {m : Occurrence Text} {experimental : Bool}
    {e : GlobalExports} (hm : first? mergeCall content = some m)
    (h : readMerge content m experimental = .ok e) :
    e.From content := by
  unfold readMerge at h
  dsimp only at h
  split at h
  · exact absurd h (by simp)
  · next close raw hclosed =>
    obtain ⟨-, stop, rfl, hopened, hle⟩ := closedStatement_eq_ok hclosed
    have hstatement := statementAt_of_first? (fun _ _ _ _ => mergeCall_opens) hm hopened hle
    split_ifs at h
    split at h
    · exact absurd h (by simp)
    · obtain rfl := Except.ok.inj h
      exact Or.inr ⟨m.start, stop, hstatement, rfl, rfl, fun hne => absurd rfl hne⟩
    · split at h
      · next literal hliteral =>
        have hdirect := direct_of_readLiteral hliteral
        obtain rfl := Except.ok.inj h
        exact Or.inr ⟨m.start, stop, hstatement, rfl, rfl, fun hne => absurd hdirect hne⟩
      · exact absurd h (by simp)

/-- A value that is exported as a whole is read from its statement. -/
lemma readDirect_from {content : Text} {m : Occurrence Unit} {e : GlobalExports}
    (hm : first? directAssignment content = some m) (h : readDirect content m = .ok e) :
    e.From content := by
  obtain ⟨front, t, rest, hsplit, hstart, hstop, hmatch⟩ := first?_span hm
  have hlength : content.length = front.length + t.length := by rw [hsplit, List.length_append]
  unfold readDirect at h
  dsimp only at h
  split_ifs at h
  · obtain rfl := Except.ok.inj h
    exact Or.inl rfl
  · obtain rfl := Except.ok.inj h
    refine Or.inr ⟨m.start, _, ⟨front, t, hsplit, hstart, by omega, ?_⟩, rfl, rfl,
      fun _ => ⟨rfl, rfl, rfl⟩⟩
    -- the statement reaches at least as far as its match
    have hend := le_statementEnd content m.stop
    have htail : (skipLineEnd (content.drop (statementEnd content m.stop).2)).length ≤
        (content.drop (statementEnd content m.stop).2).length :=
      (length_skipOne_le _ _).trans (length_skipIndent_le _)
    rw [List.length_drop] at htail
    exact (directAssignment_opens hmatch).mono (by omega)

/-- **Global exports are read whole or not at all.** -/
lemma findGlobal_from {content : Text} {experimental : Bool} {e : GlobalExports}
    (h : findGlobal content experimental = .ok e) : e.From content := by
  unfold findGlobal at h
  split at h
  · next m hm => exact readObject_from hm h
  · split at h
    · next m hm => exact readMerge_from hm h
    · split at h
      · next m hm => exact readDirect_from hm h
      · obtain rfl := Except.ok.inj h
        exact Or.inl rfl

/-- What comes from a statement of the text is read from the text. -/
lemma GlobalExports.From.readFrom {content : Text} {e : GlobalExports} (h : e.From content) :
    e.ReadFrom content := by
  rcases h with rfl | ⟨start, stop, hstatement, hraw, hstart, halone⟩
  · exact GlobalExports.readFrom_empty content
  · refine ⟨fun hnone => ?_, fun raw hsome => ?_, halone⟩
    · rw [hraw] at hnone
      exact absurd hnone (by simp)
    · obtain rfl := Option.some.inj (hraw.symm.trans hsome)
      exact ⟨hstatement.slice_ne_nil, start, hstart, slice_add_length content start stop⟩

/-! ## Inline exports -/

/-- An inline export as it is read from a text: its statement stands at its place and begins with
what is assigned to. -/
structure InlineExport.ReadFrom (content : Text) (e : InlineExport) : Prop where
  source : ∃ start, e.start = some start ∧ content.slice start (start + e.full.length) = e.full
  front : e.raw <+: e.full

/-- Every inline export that is read is read from the text. -/
lemma InlineExport.readFrom_of_mem {content : Text} {e : InlineExport}
    (h : e ∈ InlineExport.readAll content) : e.ReadFrom content := by
  obtain ⟨o, ho, rfl⟩ := List.mem_map.mp h
  refine ⟨⟨o.start, rfl, slice_add_length content _ _⟩, ?_⟩
  exact slice_prefix content o.start (le_statementEnd content o.stop)

/-- One inline export begins in front of another. -/
def InlineExport.Before (e e' : InlineExport) : Prop :=
  ∃ start start', e.start = some start ∧ e'.start = some start' ∧ start < start'

/-- Matches that are not empty stand one behind the other. -/
lemma pairwise_occurrences {α : Type} {p : Pattern α} (hp : Consumes p) (t : Text) :
    (occurrences p t).Pairwise fun a b => a.start < b.start := by
  obtain ⟨pieces, hjoined, hscan⟩ := exists_scan hp t none
  have hplaces : (occurrences p t).Pairwise fun a b => a.stop ≤ b.start := by
    rw [← hjoined, occurrences_eq_places hscan]
    exact (pairwise_places 0 pieces).2
  refine hplaces.imp_of_mem ?_
  intro a b ha _ hle
  obtain ⟨front, m, back, -, hstart, hstop, -, hmatch⟩ := exists_of_mem_occurrences hp ha
  obtain ⟨m', hne, hsplit⟩ := hp _ _ _ _ hmatch
  have hlength : 0 < m.length := by
    rw [List.append_cancel_right hsplit]
    exact List.length_pos_iff.mpr hne
  omega

/-- Inline exports are read in the order in which they stand. -/
lemma InlineExport.pairwise_readAll (content : Text) :
    (InlineExport.readAll content).Pairwise InlineExport.Before := by
  unfold InlineExport.readAll
  rw [List.pairwise_map]
  exact (pairwise_occurrences inlineExport_consumes content).imp fun hlt => ⟨_, _, rfl, rfl, hlt⟩

/-! ## Texts -/

/-- Global and inline exports are read one beside the other; only the former report anything. -/
lemma Exports.read_eq (content : Text) (experimental : Bool) :
    Exports.read content experimental =
      ⟨⟨(GlobalExports.read content experimental).value, InlineExport.readAll content⟩,
        (GlobalExports.read content experimental).warnings⟩ := by
  show (⟨_, (GlobalExports.read content experimental).warnings ++ []⟩ : Reported Exports) = _
  rw [List.append_nil]
  rfl

/-- What is declined gives nothing but its one warning, and what is read none. -/
lemma GlobalExports.read_cases (content : Text) (experimental : Bool) :
    (∃ e, findGlobal content experimental = .ok e
      ∧ GlobalExports.read content experimental = ⟨e, []⟩)
      ∨ ∃ r, findGlobal content experimental = .error r
        ∧ GlobalExports.read content experimental = ⟨{}, [.rejected r]⟩ := by
  unfold GlobalExports.read
  cases hfind : findGlobal content experimental with
  | ok e => exact Or.inl ⟨e, rfl, rfl⟩
  | error r => exact Or.inr ⟨r, rfl, rfl⟩

/-- **Exports are read whole or not at all.** For every text, with nested values or without: at most
one warning is given, and then nothing is exported as a whole; what is exported as a whole is a
piece of the text, with members or as one value but not both; inline exports are pieces of the text,
one behind the other. In a call that merges objects into the exports, an object that begins with a
brace has that brace in its code, and a bracket that closes it. -/
theorem Exports.read_whole (content : Text) (experimental : Bool) :
    let read := Exports.read content experimental
    read.warnings.length ≤ 1
      ∧ (read.warnings ≠ [] → read.value.global = {})
      ∧ read.value.global.ReadFrom content
      ∧ (∀ e ∈ read.value.inline, e.ReadFrom content)
      ∧ read.value.inline.Pairwise InlineExport.Before
      ∧ ∀ m close raw, first? mergeCall content = some m →
          closedStatement content m.start (content.length - m.value.length) = .ok (close, raw) →
          ∀ piece ∈ splitTopLevel (content.slice m.stop close) ',',
            (trim (stripComments piece)).head? = some '\x7b' →
            ∃ brace close', (code piece).find? (fun p => p.2 == '\x7b') = some (brace, '\x7b')
              ∧ closing? piece brace = some close' ∧ brace < close' ∧ close' < piece.length := by
  dsimp only
  rw [Exports.read_eq]
  have hmerge : ∀ m close raw, first? mergeCall content = some m →
      closedStatement content m.start (content.length - m.value.length) = .ok (close, raw) →
      ∀ piece ∈ splitTopLevel (content.slice m.stop close) ',', Balanced piece := by
    intro m close raw hm hclosed
    exact balanced_of_mergeCall hm (closedStatement_eq_ok hclosed).1
  have hbraces := fun m close raw hm hclosed piece hpiece hhead =>
    Balanced.exists_braces (hmerge m close raw hm hclosed piece hpiece) hhead
  have hinline : ∀ e ∈ InlineExport.readAll content, e.ReadFrom content :=
    fun _ he => InlineExport.readFrom_of_mem he
  rcases GlobalExports.read_cases content experimental with ⟨e, hfind, hread⟩ | ⟨r, -, hread⟩
  · rw [hread]
    exact ⟨Nat.zero_le 1, fun h => absurd rfl h, (findGlobal_from hfind).readFrom, hinline,
      InlineExport.pairwise_readAll content, hbraces⟩
  · rw [hread]
    exact ⟨Nat.le_refl 1, fun _ => rfl, GlobalExports.readFrom_empty content, hinline,
      InlineExport.pairwise_readAll content, hbraces⟩

/-- The literal behind a comment in a merging call, with brackets in it and in the comment. -/
theorem Exports.read_whole_merged :
    let content : Text :=
      "Object.assign(exports, base, /* ( */ \x7b a: f([1, \x7b\x7d]) \x7d);\n".toList
    let m : Occurrence Text :=
      ⟨0, 22, "(exports, base, /* ( */ \x7b a: f([1, \x7b\x7d]) \x7d);\n".toList⟩
    let piece : Text := " /* ( */ \x7b a: f([1, \x7b\x7d]) \x7d".toList
    first? mergeCall content = some m
      ∧ closedStatement content m.start (content.length - m.value.length) = .ok (54, content)
      ∧ piece ∈ splitTopLevel (content.slice m.stop 54) ','
      ∧ (trim (stripComments piece)).head? = some '\x7b'
      ∧ ∃ brace close, (code piece).find? (fun p => p.2 == '\x7b') = some (brace, '\x7b')
          ∧ closing? piece brace = some close ∧ brace < close ∧ close < piece.length := by
  intro content m piece
  have hm : first? mergeCall content = some m := by rfl
  have hclosed : closedStatement content m.start (content.length - m.value.length)
      = .ok (54, content) := by
    decide
  have hpiece : piece ∈ splitTopLevel (content.slice m.stop 54) ',' := by decide
  have hhead : (trim (stripComments piece)).head? = some '\x7b' := by decide
  obtain ⟨-, -, -, -, -, hbraces⟩ := Exports.read_whole content true
  exact ⟨hm, hclosed, hpiece, hhead, hbraces m 54 content hm hclosed piece hpiece hhead⟩

end Esmify
