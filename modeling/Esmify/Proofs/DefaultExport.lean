import Esmify.Proofs.CodePlaces
import Esmify.Proofs.InlineAccount

/-!
# Default exports on both sides

The index of default exports is made from what the reader finds, before anything is written. **A
file of the index is taken by its default export in the other files**, and then it should have one.
The writer puts it there (`exportDefault_cases`): in place of the statement, or at the declaration
of the value (`Promoted`). What is written after it moves the words `export default` to another
place (`placeWritten`) and leaves them alone, unless an inline export is written over them;
replacing uses never takes them away (`replaceUse_keeps_default`).

`NoDefault` lists what can go wrong. Two of the reasons are reported. The others are not: the first
copy of the statement is not a statement in code, the declaration that is found is not in code, the
statement is taken away together with the mark, or an inline export is written over it. -/

namespace Esmify

open Text Source

/-- The words in front of a default export. -/
def defaultMark : Text :=
  "export default ".toList

/-- The kind of the words `export default`, with a blank behind them. -/
def DefaultExport (u : Text) (next : Option Char) : Prop :=
  u = "export default".toList ∧ next = some ' '

/-- The words and the blank behind them. -/
lemma defaultMark_append (back : Text) :
    defaultMark ++ back = "export default".toList ++ ' ' :: back := by
  have hmark : defaultMark = "export default".toList ++ [' '] := by decide
  rw [hmark, List.append_assoc, List.singleton_append]

/-- A text has the words exactly if they stand in it. -/
lemma stands_default_iff {t : Text} :
    Stands (fun _ => true) DefaultExport t ↔ ∃ front back, t = front ++ (defaultMark ++ back) := by
  constructor
  · rintro ⟨front, u, back, rfl, -, rfl, hnext⟩
    obtain ⟨rest, rfl⟩ := List.head?_eq_some_iff.mp hnext
    exact ⟨front, rest, by rw [defaultMark_append]⟩
  · rintro ⟨front, back, rfl⟩
    exact ⟨front, "export default".toList, ' ' :: back, by rw [defaultMark_append], rfl, rfl, rfl⟩

/-! ## Uses -/

/-- No use begins in words that have a blank and no dot. -/
lemma bareUse_eq_none {name u : Text} (hdot : '.' ∉ u) (hblank : ' ' ∈ u) (before : Option Char)
    (back : Text) : bareUse name before (u ++ back) = none := by
  rw [Option.eq_none_iff_forall_ne_some]
  rintro ⟨value, rest⟩ hmatch
  obtain ⟨-, -, w, hw, hsplit⟩ := exportsUse_eq_some_iff.mp (bareUse_eq_some_iff.mp hmatch).2
  obtain ⟨word, tail, hword, rfl⟩ := hw.split
  rw [List.append_assoc, List.cons_append] at hsplit
  rcases append_eq_append_cons hsplit with ⟨u', rfl, -⟩ | ⟨word', rfl, -⟩
  · simp at hdot
  · have hnone : ' ' ∉ u ++ word' := by
      rcases hword with h | h <;> rw [h] <;> decide
    exact hnone (List.mem_append_left _ hblank)

/-- Words that end with a blank and have no dot are kept when uses behind them are replaced. -/
lemma Scan.replaced_words {name u back : Text} {before : Option Char} {pieces : List (Piece Text)}
    (h : Scan (bareUse name) before pieces) (hdot : '.' ∉ u)
    (hlast : u ≠ [] → u.getLast? = some ' ') (heq : joined pieces = u ++ back) :
    ∃ back', replaced pieces = u ++ back' := by
  induction u generalizing before pieces with
  | nil => exact ⟨replaced pieces, rfl⟩
  | cons c u ih =>
    have hblank : ' ' ∈ c :: u := List.mem_of_getLast? (hlast (List.cons_ne_nil c u))
    cases h with
    | done _ => cases heq
    | plain _ hscan =>
      obtain ⟨rfl, htail⟩ := List.cons.inj heq
      have hlast' : u ≠ [] → u.getLast? = some ' ' := by
        intro hne
        rw [← hlast (List.cons_ne_nil _ u)]
        exact getLast?_of_suffix hne (List.suffix_cons _ _)
      obtain ⟨back', hback⟩ := ih hscan (fun hmem => hdot (List.mem_cons_of_mem _ hmem))
        hlast' htail
      exact ⟨back', congrArg (List.cons _) hback⟩
    | @found _ c' m value pieces hmatch _ =>
      have hjoined : (c' :: m) ++ joined pieces = (c :: u) ++ back := heq
      rw [hjoined, bareUse_eq_none hdot hblank] at hmatch
      cases hmatch

/-- A use ends with the name behind a dot. -/
lemma UseText.behind_dot {name w : Text} (hw : UseText name w) :
    ∃ word, w = word ++ '.' :: name := by
  have hwords : "exports.".toList = "exports".toList ++ ['.']
      ∧ "module.exports.".toList = "module.exports".toList ++ ['.'] := by decide
  rcases hw with rfl | rfl
  · exact ⟨"exports".toList, by rw [hwords.1, List.append_assoc, List.singleton_append]⟩
  · exact ⟨"module.exports".toList, by rw [hwords.2, List.append_assoc, List.singleton_append]⟩

/-- A use that runs into the words ends with the first of them, which is then the end of the
name. -/
lemma UseText.runs_into {name w front b rest back : Text} (hw : UseText name w)
    (hname : ProperName name) (hsplit : w = front ++ b) (hb : b ≠ [])
    (hout : outsideName rest.head? = true) (heq : b ++ rest = defaultMark ++ back) :
    b = "export".toList ∧ (∃ n, name = n ++ "export".toList)
      ∧ rest = " default ".toList ++ back := by
  have hblank : ' ' ∉ w := by
    have hnone : ' ' ∉ name := hname.not_mem (by decide)
    rcases hw with rfl | rfl <;> simpa using hnone
  have hmark : defaultMark = "export".toList ++ ' ' :: "default ".toList := by decide
  rw [hmark, List.append_assoc, List.cons_append] at heq
  rcases append_eq_append_cons heq with ⟨b', rfl, -⟩ | ⟨rest', hrest', rfl⟩
  · exact absurd (by rw [hsplit]; simp) hblank
  · -- the use ends where a name does, and so with the word
    cases rest' with
    | cons c rest' =>
      have hc : c ∈ "export".toList := by rw [hrest']; simp
      have hchars : ∀ x ∈ "export".toList, outsideName (some x) = false := by decide
      rw [List.cons_append, List.head?_cons, hchars c hc] at hout
      cases hout
    | nil =>
      rw [List.append_nil] at hrest'
      have hwords : " default ".toList = ' ' :: "default ".toList := by decide
      refine ⟨hrest'.symm, ?_, by rw [hwords, List.cons_append, List.nil_append]⟩
      obtain ⟨word, rfl⟩ := hw.behind_dot
      rw [← hrest'] at hsplit
      rcases append_eq_append_cons hsplit.symm with ⟨front', -, hback⟩ | ⟨b', hb', hword⟩
      · exact ⟨front', hback⟩
      · exact absurd (by rw [hword]; simp : '.' ∈ "export".toList) (by decide)

/-- What the spans that begin ahead of a place lose, when a text of the given size takes the place
of each. -/
def lostAhead (size i : Nat) : List (Nat × Nat) → Nat
  | [] => 0
  | span :: spans => (if span.1 < i then span.2 - span.1 - size else 0) + lostAhead size i spans

/-- Spans behind a place lose nothing ahead of it. -/
lemma lostAhead_eq_zero {size i : Nat} {spans : List (Nat × Nat)} (h : ∀ span ∈ spans, i ≤ span.1) :
    lostAhead size i spans = 0 := by
  induction spans with
  | nil => rfl
  | cons span spans ih =>
    obtain ⟨hhead, htail⟩ := List.forall_mem_cons.mp h
    rw [lostAhead, if_neg (Nat.not_lt.mpr hhead), ih htail]

/-- The same for the matches among pieces. -/
lemma lostAhead_places {size i offset : Nat} (pieces : List (Piece Text)) (h : i ≤ offset) :
    lostAhead size i ((places offset pieces).map fun o => (o.start, o.stop)) = 0 := by
  refine lostAhead_eq_zero fun span hspan => ?_
  obtain ⟨o, ho, rfl⟩ := List.mem_map.mp hspan
  exact h.trans ((pairwise_places offset pieces).1 o ho)

/-- **Replacing uses keeps the words `export default`**, and moves them by what the uses ahead of
them lose. -/
lemma Scan.replaced_default {name front back : Text} {before : Option Char}
    {pieces : List (Piece Text)} (hname : ProperName name) (h : Scan (bareUse name) before pieces)
    (offset : Nat) (heq : joined pieces = front ++ (defaultMark ++ back)) :
    ∃ front' back', replaced pieces = front' ++ (defaultMark ++ back')
      ∧ front'.length + lostAhead name.length (offset + front.length)
          ((places offset pieces).map fun o => (o.start, o.stop)) = front.length := by
  induction h generalizing front offset with
  | done _ =>
    obtain ⟨-, hnil⟩ := List.append_eq_nil_iff.mp heq.symm
    cases (List.append_eq_nil_iff.mp hnil).1
  | @plain before c pieces hnone hscan ih =>
    cases front with
    | nil =>
      have hlast : defaultMark ≠ [] → defaultMark.getLast? = some ' ' := fun _ => by decide
      obtain ⟨back', hback⟩ := Scan.replaced_words (.plain hnone hscan) (by decide) hlast heq
      exact ⟨[], back', hback, (Nat.zero_add _).trans (lostAhead_places _ le_rfl)⟩
    | cons d front =>
      obtain ⟨rfl, htail⟩ := List.cons.inj heq
      obtain ⟨front', back', hreplaced, hplace⟩ := ih (offset + 1) htail
      refine ⟨c :: front', back', congrArg (List.cons c) hreplaced, ?_⟩
      rw [places, List.length_cons, List.length_cons, Nat.add_comm front.length, ← Nat.add_assoc]
      omega
  | @found before c m value pieces hmatch hscan ih =>
    obtain ⟨rfl, huse⟩ := bareUse_eq_some_iff.mp hmatch
    obtain ⟨-, hout, w, hw, hsplit⟩ := exportsUse_eq_some_iff.mp huse
    obtain rfl : c :: m = w := List.append_cancel_right hsplit
    obtain ⟨word, hdot⟩ := hw.behind_dot
    have hsize : (c :: m).length = word.length + 1 + value.length := by
      rw [hdot, List.length_append, List.length_cons]
      omega
    replace heq : (c :: m) ++ joined pieces = front ++ (defaultMark ++ back) := heq
    rw [places, List.map_cons, lostAhead]
    by_cases hahead : (c :: m).length ≤ front.length
    · -- the use stands ahead of the words
      obtain ⟨front', rfl, htail⟩ := exists_of_append_eq_append heq hahead
      obtain ⟨front'', back', hreplaced, hplace⟩ := ih (offset + (c :: m).length) htail
      refine ⟨value ++ front'', back', by rw [replaced, hreplaced, List.append_assoc], ?_⟩
      rw [if_pos (by dsimp only; omega), List.length_append, List.length_append,
        ← Nat.add_assoc offset]
      dsimp only
      omega
    · obtain ⟨b, hb, hrest⟩ := exists_of_append_eq_append heq.symm (Nat.le_of_not_le hahead)
      have hne : b ≠ [] := by
        rintro rfl
        have hwhole : c :: m = front := hb.trans (List.append_nil front)
        exact hahead (by rw [hwhole])
      obtain ⟨rfl, ⟨n, rfl⟩, hjoined⟩ := hw.runs_into hname hb hne hout hrest.symm
      have hlast : " default ".toList ≠ [] → " default ".toList.getLast? = some ' ' :=
        fun _ => by decide
      obtain ⟨back', hback⟩ := Scan.replaced_words hscan (by decide) hlast hjoined
      have hmark : defaultMark = "export".toList ++ " default ".toList := by decide
      refine ⟨n, back', by rw [replaced, hback, hmark, List.append_assoc, List.append_assoc], ?_⟩
      -- the use goes into the words as far as its name does
      have hfront : (c :: m).length = front.length + "export".toList.length := by
        rw [hb, List.length_append]
      rw [List.length_append] at hsize
      rw [if_pos (by dsimp only; omega), lostAhead_places _ (by omega), List.length_append]
      dsimp only
      omega

/-- Where replacing the uses of a name takes a place of the text. -/
def useMove (name t : Text) (i : Nat) : Nat :=
  i - lostAhead name.length i ((occurrences (exportsUse name) t).map fun o => (o.start, o.stop))

/-- Replacing the uses of a name keeps the words, and takes them where the uses do. -/
lemma replaceUse_keeps_default {name t t' front back : Text} (hname : ProperName name)
    (h : replaceUse t name = .ok t') (ht : t = front ++ (defaultMark ++ back)) :
    ∃ front' back', t' = front' ++ (defaultMark ++ back')
      ∧ front'.length = useMove name t front.length := by
  obtain ⟨pieces, rfl, hscan⟩ := exists_scan (bareUse_consumes name) t none
  rw [replaceUse_eq hname, replaceAll_eq_replaced hscan] at h
  obtain rfl := Except.ok.inj h
  obtain ⟨front', back', hreplaced, hplace⟩ := Scan.replaced_default hname hscan 0 ht
  refine ⟨front', back', hreplaced, ?_⟩
  have hspans : (occurrences (exportsUse name) (joined pieces)).map (fun o => (o.start, o.stop))
      = (places 0 pieces).map fun o => (o.start, o.stop) := by
    rw [← occurrences_eq_places hscan]
    exact (occurrencesFrom_filled (exportsUse name) [.literal name] none 0 0 (joined pieces)).symm
  rw [Nat.zero_add] at hplace
  rw [useMove, hspans]
  omega

/-- Replacing the uses of one name after the other keeps the words. -/
lemma run_usePass_default {names : List Text} {t t' front back : Text}
    (hnames : ∀ name ∈ names, ProperName name) (h : usePass.run t names = some t')
    (ht : t = front ++ (defaultMark ++ back)) :
    ∃ front' back', t' = front' ++ (defaultMark ++ back')
      ∧ usePass.follow useMove t front.length names = some front'.length := by
  induction names generalizing t front back with
  | nil =>
    obtain rfl := Option.some.inj h
    exact ⟨front, back, ht, rfl⟩
  | cons name names ih =>
    obtain ⟨hhead, htail⟩ := List.forall_mem_cons.mp hnames
    obtain ⟨t₁, hact, hrest⟩ := Option.bind_eq_some_iff.mp h
    obtain ⟨front₁, back₁, ht₁, hplace₁⟩ :=
      replaceUse_keeps_default hhead (exists_of_toOption hact) ht
    obtain ⟨front', back', ht', hplace⟩ := ih htail hrest ht₁
    refine ⟨front', back', ht', ?_⟩
    rw [Pass.follow, hact, Option.bind_some, ← hplace₁, hplace]

/-! ## Values -/

/-- An object literal is no value that is exported as a whole. -/
lemma direct_of_readObject {content : Text} {m : Occurrence Text} {experimental : Bool}
    {e : GlobalExports} (h : readObject content m experimental = .ok e) : e.direct = none := by
  unfold readObject at h
  dsimp only at h
  split at h
  · cases h
  · split at h
    · next literal hliteral =>
      obtain rfl := Except.ok.inj h
      show literal.direct = none
      exact direct_of_readLiteral hliteral
    · cases h

/-- Merged objects are no value that is exported as a whole. -/
lemma direct_of_readMerge {content : Text} {m : Occurrence Text} {experimental : Bool}
    {e : GlobalExports} (h : readMerge content m experimental = .ok e) : e.direct = none := by
  unfold readMerge at h
  dsimp only at h
  split at h
  · cases h
  · split_ifs at h
    split at h
    · cases h
    · obtain rfl := Except.ok.inj h
      rfl
    · split at h
      · next literal hliteral =>
        obtain rfl := Except.ok.inj h
        show literal.direct = none
        exact direct_of_readLiteral hliteral
      · cases h

/-- A value that is exported as a whole is read from an assignment, without white space around
it. -/
lemma firm_of_findGlobal {content value : Text} {experimental : Bool} {e : GlobalExports}
    (h : findGlobal content experimental = .ok e) (hdirect : e.direct = some value) :
    Firm value := by
  have hnone : e.direct ≠ none := by
    rw [hdirect]
    exact Option.some_ne_none value
  unfold findGlobal at h
  split at h
  · exact absurd (direct_of_readObject h) hnone
  · split at h
    · exact absurd (direct_of_readMerge h) hnone
    · split at h
      · unfold readDirect at h
        dsimp only at h
        split_ifs at h with hempty
        · obtain rfl := Except.ok.inj h
          cases hdirect
        · obtain rfl := Except.ok.inj h
          obtain rfl := Option.some.inj hdirect
          rw [List.isEmpty_iff] at hempty
          exact firm_trim hempty
      · obtain rfl := Except.ok.inj h
        cases hdirect

/-- **A value is read together with its statement**, and without members. -/
lemma read_direct {content value : Text} {experimental : Bool}
    (h : (GlobalExports.read content experimental).value.direct = some value) :
    Firm value ∧ (GlobalExports.read content experimental).value.properties = []
      ∧ ∃ raw, raw ≠ [] ∧ (GlobalExports.read content experimental).value.raw = some raw := by
  rcases GlobalExports.read_cases content experimental with ⟨e, hfind, hread⟩ | ⟨r, -, hread⟩
  · rw [hread] at h ⊢
    have hsome : e.direct ≠ none := by
      rw [h]
      exact Option.some_ne_none value
    refine ⟨firm_of_findGlobal hfind h, ((findGlobal_from hfind).readFrom.alone hsome).1, ?_⟩
    rcases findGlobal_from hfind with rfl | ⟨start, stop, hstatement, hraw, -⟩
    · cases h
    · exact ⟨_, hstatement.slice_ne_nil, hraw⟩
  · rw [hread] at h
    cases h

/-! ## Promotion -/

/-- **A value that is exported by default** in a text `t` with the statement `raw`: what stands
ahead of the words `export default` then, and what stands behind them. -/
inductive Promoted (t raw value : Text) : (front back : Text) → Prop
  /-- The first copy of the statement, itself a statement in code, gives way to the default
  export. -/
  | inPlace {front back semicolon ending : Text} : t = front ++ (raw ++ back) →
    indexOf? raw t = some front.length → modeAfter .code front = .code →
    beginsStatement front.getLast? = true → (semicolon = [] ∨ semicolon = [';']) →
    (ending = [] ∨ ending = ['\n']) →
    Promoted t raw value front (value ++ (semicolon ++ (ending ++ back)))
  /-- The declaration of the value in code, a function or a class, is marked; the mark and the name
  stay at the start of a line when the statement goes away. -/
  | atDeclaration {d : Occurrence Unit} {head front back : Text} : isName value = true →
    declaration? t value = some d → beginsDeclaration (d.text t) = true → modeAt t d.start = .code →
    DeclarationHead head → beginsLine front.getLast? = true → outsideName back.head? = true →
    dropBlock (t.insertAt d.start defaultMark) raw
      = .ok (front ++ (defaultMark ++ (head ++ (value ++ back)))) →
    Promoted t raw value front (head ++ (value ++ back))

/-- **Why a text has no default export in the end** although it assigns a value to its exports: `t`
is the text with its imports, `raw` the statement. -/
inductive NoDefault (t raw value : Text) (inline : List InlineExport) (ws : List Warning) : Prop
  /-- The statement is not there any more, and this is reported. -/
  | lost : occursIn raw t = false → .lostExport raw ∈ ws → NoDefault t raw value inline ws
  /-- The value is a name that is neither declared nor imported, and this is reported. -/
  | undeclared : isName value = true → declaration? t value = none → importOf? t value = none →
    .undeclared value ∈ ws → NoDefault t raw value inline ws
  /-- The first copy of the statement is not a statement in code. -/
  | misplaced {front back : Text} : t = front ++ (raw ++ back) →
    indexOf? raw t = some front.length →
    ¬ (modeAfter .code front = .code ∧ beginsStatement front.getLast? = true) →
    NoDefault t raw value inline ws
  /-- The declaration that is found is not in code. -/
  | hidden {d : Occurrence Unit} : isName value = true → declaration? t value = some d →
    modeAt t d.start ≠ .code → NoDefault t raw value inline ws
  /-- The copy of the statement that goes away runs into the marked declaration, or begins in it. -/
  | swallowed {d : Occurrence Unit} {front head back : Text} {i : Nat} : isName value = true →
    declaration? t value = some d → t = front ++ (head ++ (value ++ back)) →
    d.start = front.length → DeclarationHead head →
    indexOf? raw (t.insertAt d.start defaultMark) = some i →
    i < d.start + (defaultMark ++ (head ++ value)).length → d.start < i + raw.length →
    NoDefault t raw value inline ws
  /-- An inline export is written over the words, where they stand when its turn comes. -/
  | overwritten {front back : Text} : Promoted t raw value front back →
    inlinePass.CutAt inlineMove "export default".length (front ++ (defaultMark ++ back))
      front.length (longestFirst inline) →
    NoDefault t raw value inline ws

variable {t t' raw value : Text}

/-- The statement gives way to the default export, or its first copy is not a statement in code. -/
lemma promoted_of_replaceFirst {semicolon ending : Text} (hoccurs : occursIn raw t = true)
    (hsemicolon : semicolon = [] ∨ semicolon = [';']) (hending : ending = [] ∨ ending = ['\n'])
    (inline : List InlineExport) (ws : List Warning) :
    (∃ front back, t.replaceFirst raw (defaultMark ++ value ++ semicolon ++ ending)
        = front ++ (defaultMark ++ back) ∧ Promoted t raw value front back)
      ∨ NoDefault t raw value inline ws := by
  obtain ⟨i, hi⟩ := Option.isSome_iff_exists.mp hoccurs
  obtain ⟨front, back, ht, rfl⟩ := indexOf?_eq_some hi
  by_cases hplace : modeAfter .code front = .code ∧ beginsStatement front.getLast? = true
  · have hresult : t.replaceFirst raw (defaultMark ++ value ++ semicolon ++ ending)
        = front ++ (defaultMark ++ (value ++ (semicolon ++ (ending ++ back)))) := by
      unfold replaceFirst
      rw [hi]
      dsimp only
      rw [splice, ht, List.take_left, ← List.append_assoc front raw back, ← List.length_append,
        List.drop_left]
      simp only [List.append_assoc]
    exact Or.inl ⟨front, _, hresult, .inPlace ht hi hplace.1 hplace.2 hsemicolon hending⟩
  · exact Or.inr (.misplaced ht hi hplace)

/-- A marked declaration is not blank, and ends with its name. -/
lemma solid_mark (hfirm : Firm value) (head : Text) : Solid (defaultMark ++ (head ++ value)) := by
  have hcons : defaultMark ++ (head ++ value)
      = 'e' :: ("xport default ".toList ++ (head ++ value)) := rfl
  rw [hcons]
  refine solid_cons (by decide) fun hlast => ?_
  obtain ⟨init, c, rfl, hc⟩ := hfirm.last
  rw [← List.append_assoc, ← List.append_assoc, ← List.cons_append, List.getLast?_concat,
    Option.some.injEq] at hlast
  rw [hlast] at hc
  exact absurd hc (by decide)

/-- The declaration is marked, or something is wrong with it. -/
lemma promoted_of_dropBlock {d : Occurrence Unit} (hfirm : Firm value) (hname : isName value = true)
    (hd : declaration? t value = some d) (hbegins : beginsDeclaration (d.text t) = true)
    (h : dropBlock (t.insertAt d.start defaultMark) raw = .ok t') (inline : List InlineExport)
    (ws : List Warning) :
    (∃ front back, t' = front ++ (defaultMark ++ back) ∧ Promoted t raw value front back)
      ∨ NoDefault t raw value inline ws := by
  by_cases hcode : modeAt t d.start = .code
  · obtain ⟨front, rest, rfl, hstart, hline, head, back, rfl, hhead, hout⟩ :=
      declaration?_eq_some hd
    have hmarked : (front ++ (head ++ (value ++ back))).insertAt d.start defaultMark
        = front ++ ((defaultMark ++ (head ++ value)) ++ back) := by
      rw [insertAt, splice, hstart, List.take_left, List.drop_left]
      simp only [List.append_assoc]
    have hsolid := solid_mark hfirm head
    obtain ⟨i, hi⟩ : ∃ i, indexOf? raw
        ((front ++ (head ++ (value ++ back))).insertAt d.start defaultMark) = some i := by
      rw [← Option.isSome_iff_exists]
      cases hfound : indexOf? raw
          ((front ++ (head ++ (value ++ back))).insertAt d.start defaultMark) with
      | none =>
        rw [dropBlock, hfound] at h
        cases h
      | some i => rfl
    by_cases hmeets : i < front.length + (defaultMark ++ (head ++ value)).length
        ∧ front.length < i + raw.length
    · rw [← hstart] at hmeets
      exact Or.inr (.swallowed hname hd rfl hstart hhead hi hmeets.1 hmeets.2)
    · obtain ⟨front', back', rfl, haround⟩ := dropBlock_keeps hsolid hline hmarked hi hmeets h
      simp only [List.append_assoc] at h ⊢
      exact Or.inl ⟨front', _, rfl, .atDeclaration hname hd hbegins hcode hhead haround.begins
        (haround.ends hout) h⟩
  · exact Or.inr (.hidden hname hd hcode)

/-- **Exporting a value by default** promotes it, or one of the reasons holds. -/
lemma exportDefault_cases (hfirm : Firm value) (hoccurs : occursIn raw t = true)
    (h : (exportDefault t raw value).run.value = .ok t') (inline : List InlineExport)
    {ws : List Warning} (hws : (exportDefault t raw value).run.warnings ⊆ ws) :
    (∃ front back, t' = front ++ (defaultMark ++ back) ∧ Promoted t raw value front back)
      ∨ NoDefault t raw value inline ws := by
  unfold exportDefault at h hws
  dsimp only at h hws
  have hending : (if raw.getLast? == some '\n' then ['\n'] else ([] : Text)) = []
      ∨ (if raw.getLast? == some '\n' then ['\n'] else ([] : Text)) = ['\n'] := by
    split_ifs
    · exact Or.inr rfl
    · exact Or.inl rfl
  generalize (if raw.getLast? == some '\n' then ['\n'] else ([] : Text)) = ending at h hws hending
  cases hname : isName value with
  | false =>
    rw [hname] at h
    obtain rfl := Except.ok.inj h
    refine promoted_of_replaceFirst hoccurs ?_ hending inline ws
    split_ifs
    · exact Or.inl rfl
    · exact Or.inr rfl
  | true =>
    simp only [hname, Bool.not_true, Bool.false_eq_true, if_false] at h hws
    cases hd : declaration? t value with
    | some d =>
      simp only [hd] at h
      split_ifs at h with hbegins
      · exact promoted_of_dropBlock hfirm hname hd hbegins h inline ws
      · obtain rfl := Except.ok.inj h
        exact promoted_of_replaceFirst hoccurs (Or.inr rfl) hending inline ws
    | none =>
      simp only [hd] at h hws
      split_ifs at h hws with himported
      · obtain rfl := Except.ok.inj h
        exact promoted_of_replaceFirst hoccurs (Or.inr rfl) hending inline ws
      · have hnone : importOf? t value = none := Option.not_isSome_iff_eq_none.mp himported
        exact Or.inr (.undeclared hname hd hnone (hws List.mem_cons_self))

/-! ## The file -/

/-- A reason stays one when more is reported. -/
lemma NoDefault.mono {inline : List InlineExport} {ws ws' : List Warning}
    (h : NoDefault t raw value inline ws) (hws : ws ⊆ ws') : NoDefault t raw value inline ws' := by
  cases h with
  | lost hoccurs hreported => exact .lost hoccurs (hws hreported)
  | undeclared hname hd himport hreported => exact .undeclared hname hd himport (hws hreported)
  | misplaced ht hi hplace => exact .misplaced ht hi hplace
  | hidden hname hd hcode => exact .hidden hname hd hcode
  | swallowed hname hd ht hstart hhead hi hleft hright =>
    exact .swallowed hname hd ht hstart hhead hi hleft hright
  | overwritten hpromoted hcut => exact .overwritten hpromoted hcut

/-- **Writing a value that is exported as a whole** promotes it, or one of the reasons holds. -/
lemma writeGlobal_cases {g : GlobalExports} (hfirm : Firm value) (hne : raw ≠ [])
    (hraw : g.raw = some raw) (hdirect : g.direct = some value)
    (h : (writeGlobal t g).run.value = .ok t') (inline : List InlineExport) :
    (∃ front back, t' = front ++ (defaultMark ++ back) ∧ Promoted t raw value front back)
      ∨ NoDefault t raw value inline (writeGlobal t g).run.warnings := by
  obtain ⟨c, cs, rfl⟩ := List.exists_cons_of_ne_nil hne
  obtain ⟨d, ds, rfl, -⟩ := hfirm.first
  unfold writeGlobal at h ⊢
  simp only [hraw, hdirect, Option.getD_some] at h ⊢
  by_cases hoccurs : occursIn (c :: cs) t = true
  · rw [if_pos hoccurs] at h ⊢
    exact exportDefault_cases hfirm hoccurs h inline (List.Subset.refl _)
  · rw [if_neg hoccurs]
    rw [Bool.not_eq_true] at hoccurs
    exact Or.inr (.lost hoccurs List.mem_cons_self)

/-- Without inline exports and members there is nothing to write behind the value. -/
lemma writeInlines_replaceUsages_nil {t₂ : Text} (hinline : (writeInlines t []).run.value = .ok t₂)
    (huses : (replaceUsages t₂ []).run.value = .ok t') : t' = t := by
  rw [writeInlines, longestFirst, List.mergeSort_nil] at hinline
  rw [replaceUsages, usageOrder, List.eraseDups_nil, List.mergeSort_nil] at huses
  obtain rfl := Except.ok.inj hinline
  exact (Except.ok.inj huses).symm

/-- Where a place of a text comes when inline exports are written and uses are replaced. -/
def placeWritten (exports : Exports) (t : Text) (i : Nat) : Option Nat :=
  (inlinePass.run t (longestFirst exports.inline)).bind fun t' =>
    (inlinePass.follow inlineMove t i (longestFirst exports.inline)).bind fun j =>
      usePass.follow useMove t' j (usageOrder exports.names)

/-- **The words stay through the inline exports and the uses**, unless one is written over them. -/
lemma write_keeps_default {exports : Exports} {front back t₂ : Text}
    (hnames : ∀ name ∈ exports.names, ProperName name)
    (hinline : (writeInlines (front ++ (defaultMark ++ back)) exports.inline).run.value = .ok t₂)
    (huses : (replaceUsages t₂ exports.names).run.value = .ok t) :
    (∃ front' back', t = front' ++ (defaultMark ++ back')
        ∧ placeWritten exports (front ++ (defaultMark ++ back)) front.length = some front'.length)
      ∨ inlinePass.CutAt inlineMove "export default".length (front ++ (defaultMark ++ back))
        front.length (longestFirst exports.inline) := by
  have hrun := run_inlinePass hinline
  have hmark := congrArg (front ++ ·) (defaultMark_append back)
  refine (run_inlinePass_follows (by decide) hmark hrun).imp_left ?_
  rintro ⟨front₂, back₂, ht₂, hblank, hplace₂⟩
  obtain ⟨rest, rfl⟩ := List.head?_eq_some_iff.mp hblank
  rw [← defaultMark_append] at ht₂
  obtain ⟨front', back', ht, hplace⟩ := run_usePass_default
    (fun name hname => hnames name (mem_usageOrder.mp hname)) (run_usePass huses) ht₂
  refine ⟨front', back', ht, ?_⟩
  rw [placeWritten, hrun, Option.bind_some, hplace₂, Option.bind_some, hplace]

/-- **Writing the exports of a text** promotes the value, and takes the words where what is written
after them does. Where there are no inline exports, nothing else is written. -/
lemma write_default {content : Text} {exports : Exports} (hfirm : Firm value) (hne : raw ≠ [])
    (hraw : exports.global.raw = some raw) (hdirect : exports.global.direct = some value)
    (halone : exports.global.properties = []) (hnames : ∀ name ∈ exports.names, ProperName name)
    (h : (exports.write content).run.value = .ok t) :
    (∃ front back, Promoted content raw value front back
        ∧ ∃ front' back', t = front' ++ (defaultMark ++ back')
          ∧ placeWritten exports (front ++ (defaultMark ++ back)) front.length = some front'.length
          ∧ (exports.inline = [] → front' = front ∧ back' = back))
      ∨ NoDefault content raw value exports.inline (exports.write content).run.warnings := by
  obtain ⟨t₁, hglobal, h₁, hwarnings⟩ := Revision.exists_of_run_bind h
  obtain ⟨t₂, hinline, h₂, -⟩ := Revision.exists_of_run_bind h₁
  rcases writeGlobal_cases hfirm hne hraw hdirect hglobal exports.inline with
    ⟨front, back, rfl, hpromoted⟩ | hnone
  · rcases write_keeps_default hnames hinline h₂ with ⟨front', back', rfl, hplace⟩ | hcut
    · refine Or.inl ⟨front, back, hpromoted, front', back', rfl, hplace, fun hempty => ?_⟩
      have hlength : front.length = front'.length := by
        rw [placeWritten, hempty, longestFirst, List.mergeSort_nil] at hplace
        rw [Exports.names, hempty, halone] at hplace
        simpa [usageOrder, Pass.follow] using hplace
      rw [Exports.names, hempty, halone] at h₂
      rw [hempty] at hinline
      obtain ⟨hfront, hback⟩ :=
        List.append_inj (writeInlines_replaceUsages_nil hinline h₂) hlength.symm
      exact ⟨hfront, List.append_cancel_left hback⟩
    · exact Or.inr (.overwritten hpromoted hcut)
  · refine Or.inr (hnone.mono ?_)
    unfold Exports.write
    rw [hwarnings]
    exact List.subset_append_left _ _

/-- **A file that assigns a value to its exports has a default export in the end**, or one of the
reasons holds. -/
lemma convert_default {content : Text} {path : Option Text} {config : Config}
    {index : Option DefaultIndex}
    (hdirect : (GlobalExports.read content config.experimental).value.direct = some value)
    (h : (convert content path config index).run.value = .ok t) :
    ∃ raw, (GlobalExports.read content config.experimental).value.raw = some raw
      ∧ ((∃ front back, Promoted (importsWritten content path config index) raw value front back
          ∧ ∃ front' back', t = front' ++ (defaultMark ++ back')
            ∧ placeWritten (Exports.read content config.experimental).value
                (front ++ (defaultMark ++ back)) front.length = some front'.length
            ∧ (InlineExport.readAll content = [] → front' = front ∧ back' = back))
        ∨ NoDefault (importsWritten content path config index) raw value
          (InlineExport.readAll content) (convert content path config index).run.warnings) := by
  obtain ⟨hfirm, halone, raw, hne, hraw⟩ := read_direct hdirect
  obtain ⟨ws, hrun⟩ := exists_run_convert content path config index
  rw [hrun] at h ⊢
  refine ⟨raw, hraw, ?_⟩
  have hnames : ∀ name ∈ (Exports.read content config.experimental).value.names, ProperName name :=
    fun name hname => properName_of_mem_names hname
  refine (write_default hfirm hne hraw hdirect halone hnames h).imp_right ?_
  exact fun hnone => hnone.mono (List.subset_append_right _ _)

/-! ## The index -/

section Index

variable {here path content : Text} {experimental : Bool} {files : List (Text × Text)}

/-- Of files with different absolute paths the index has exactly those that assign a value. -/
lemma exportsOneValue_of_contains (hdistinct : (files.map fun f => Path.absolute here f.1).Nodup)
    (hfile : (path, content) ∈ files)
    (hindex : (DefaultIndex.ofContents here experimental files).contains path = true) :
    DefaultIndex.exportsOneValue experimental content = true := by
  unfold DefaultIndex.contains DefaultIndex.ofContents DefaultIndex.ofPaths at hindex
  rw [List.contains_iff_mem, List.mem_eraseDups, List.mem_map] at hindex
  obtain ⟨path', hpath', hsame⟩ := hindex
  obtain ⟨f, hf, rfl⟩ := List.mem_map.mp hpath'
  obtain ⟨hmem, hvalue⟩ := List.mem_filter.mp hf
  obtain rfl : f = (path, content) := List.inj_on_of_nodup_map hdistinct hmem hfile hsame
  exact hvalue

/-- **A file of the index is taken by its default export** wherever it is required as a whole. -/
lemma importOf_of_contains
    (hindex : (DefaultIndex.ofContents here experimental files).contains path = true)
    {config : Config} {consumer name : Text} {r : Requirement} (hconsumer : consumer ≠ [])
    (hbindings : r.bindings = [⟨wholeModule, some name⟩]) (hindent : r.indent = none)
    (hrelative : Requirement.isRelative r.target = true)
    (hcandidate : Path.absolute here path ∈ Path.candidates here consumer r.target) :
    importOf config (knownDefault (some (DefaultIndex.ofContents here experimental files))
      (some consumer) r) r
      = "import ".toList ++ name ++ " from ".toList
        ++ specifier ((config.quote.map fun q => [q.char]).getD r.quote)
          (writtenTarget config r.target)
        ++ [';'] := by
  obtain ⟨c, cs, rfl⟩ := List.exists_cons_of_ne_nil hconsumer
  have hwhole : r.isWholeModule = true := by
    unfold Requirement.isWholeModule
    rw [hbindings]
    exact beq_self_eq_true wholeModule
  have hdefault : (DefaultIndex.ofContents here experimental files).isDefaultImport (c :: cs)
      r.target = true := by
    unfold DefaultIndex.isDefaultImport
    rw [Bool.and_eq_true]
    exact ⟨hrelative, List.any_eq_true.mpr ⟨_, hcandidate, hindex⟩⟩
  have hknown : knownDefault (some (DefaultIndex.ofContents here experimental files))
      (some (c :: cs)) r = some true := by
    simp only [knownDefault, hwhole, hrelative, hdefault, Bool.and_self, if_true]
  rw [hknown]
  simp [importOf, hbindings, hindent, hwhole, writtenBinding, lineClause]

end Index

/-- **Consumers and providers agree on default exports.** Of files with different absolute paths,
let the index have one, and let its conversion return. Wherever another file requires it as a whole
by a relative path, it is taken by its default export. And it has one: the value is promoted in the
text with its imports, and the words of this very export stand in the result, at the place where the
inline exports and the uses that are written after it take them. Without inline exports the text
with the promoted value is the result. All this holds unless one of the reasons of `NoDefault`
does. -/
theorem index_exports_default {here path content t : Text} {config : Config}
    {files : List (Text × Text)} (hdistinct : (files.map fun f => Path.absolute here f.1).Nodup)
    (hfile : (path, content) ∈ files)
    (hindex : (DefaultIndex.ofContents here config.experimental files).contains path = true)
    (h : (convert content (some path) config
      (some (DefaultIndex.ofContents here config.experimental files))).run.value = .ok t) :
    (∀ (consumer name : Text) (r : Requirement), consumer ≠ [] →
        r.bindings = [⟨wholeModule, some name⟩] → r.indent = none →
        Requirement.isRelative r.target = true →
        Path.absolute here path ∈ Path.candidates here consumer r.target →
        importOf config
            (knownDefault (some (DefaultIndex.ofContents here config.experimental files))
              (some consumer) r) r
          = "import ".toList ++ name ++ " from ".toList
            ++ specifier ((config.quote.map fun q => [q.char]).getD r.quote)
              (writtenTarget config r.target)
            ++ [';'])
      ∧ ∃ raw value, (GlobalExports.read content config.experimental).value.raw = some raw
        ∧ (GlobalExports.read content config.experimental).value.direct = some value
        ∧ ((∃ front back,
              Promoted (importsWritten content (some path) config
                (some (DefaultIndex.ofContents here config.experimental files)))
                raw value front back
              ∧ ∃ front' back', t = front' ++ (defaultMark ++ back')
                ∧ placeWritten (Exports.read content config.experimental).value
                    (front ++ (defaultMark ++ back)) front.length = some front'.length
                ∧ (InlineExport.readAll content = [] → front' = front ∧ back' = back))
          ∨ NoDefault (importsWritten content (some path) config
                (some (DefaultIndex.ofContents here config.experimental files))) raw value
              (InlineExport.readAll content)
              (convert content (some path) config
                (some (DefaultIndex.ofContents here config.experimental files))).run.warnings) := by
  have hvalue := exportsOneValue_of_contains hdistinct hfile hindex
  obtain ⟨value, hdirect⟩ : ∃ value,
      (GlobalExports.read content config.experimental).value.direct = some value := by
    rw [← Option.isSome_iff_exists]
    unfold DefaultIndex.exportsOneValue at hvalue
    cases hnone : (GlobalExports.read content config.experimental).value.direct with
    | none =>
      rw [hnone] at hvalue
      cases hvalue
    | some value => rfl
  obtain ⟨raw, hraw, hcases⟩ := convert_default hdirect h
  refine ⟨?_, raw, value, hraw, hdirect, hcases⟩
  intro consumer name r hconsumer hbindings hindent hrelative hcandidate
  exact importOf_of_contains hindex hconsumer hbindings hindent hrelative hcandidate

/-! ## Files of the index -/

/-- A text without inline exports and exported members is converted by writing its imports and its
value. -/
lemma convert_eq_writeGlobal {content t : Text} {path : Option Text} {config : Config}
    {index : Option DefaultIndex} (hinline : InlineExport.readAll content = [])
    (hnames : (Exports.read content config.experimental).value.names = [])
    (hglobal : (writeGlobal (importsWritten content path config index)
      (Exports.read content config.experimental).value.global).run.value = .ok t) :
    (convert content path config index).run.value = .ok t := by
  have hes : longestFirst (InlineExport.readAll content) = [] := by
    rw [hinline, longestFirst, List.mergeSort_nil]
  have horder : usageOrder (Exports.read content config.experimental).value.names = [] := by
    rw [hnames, usageOrder, List.eraseDups_nil, List.mergeSort_nil]
  exact convert_eq_ok hglobal hes rfl horder rfl

/-- A file that requires another one as a whole. -/
def consumerText : Text :=
  "const b = require('./b');\n".toList

/-- The consumer and a file `b.js` with the given text. -/
def consumerAnd (text : Text) : List (Text × Text) :=
  [("a.js".toList, consumerText), ("b.js".toList, text)]

/-- The index of the two. -/
def pairIndex (text : Text) : DefaultIndex :=
  DefaultIndex.ofContents "/".toList false (consumerAnd text)

/-- It has the other file, when that assigns a value to its exports. -/
lemma pairIndex_eq {text : Text} (h : DefaultIndex.exportsOneValue false text = true) :
    pairIndex text = ⟨"/".toList, ["/b.js".toList]⟩ := by
  have hconsumer : DefaultIndex.exportsOneValue false consumerText = false := by
    have htext : consumerText = _ := String.toList_ofList
    rw [htext]
    decide
  have habsolute : Path.absolute "/".toList "b.js".toList = "/b.js".toList := by decide
  have hfilter : (consumerAnd text).filter (fun f => DefaultIndex.exportsOneValue false f.2)
      = [("b.js".toList, text)] := by
    simp only [consumerAnd, List.filter_cons, List.filter_nil, hconsumer, h, if_true,
      Bool.false_eq_true, if_false]
  unfold pairIndex DefaultIndex.ofContents DefaultIndex.ofPaths
  rw [hfilter, List.map_singleton, List.map_singleton, habsolute]
  rfl

/-- The index has the other file. -/
lemma contains_pairIndex {text : Text} (h : DefaultIndex.exportsOneValue false text = true) :
    (pairIndex text).contains "b.js".toList = true := by
  rw [pairIndex_eq h]
  decide

/-- The consumer takes the other file by its default export. -/
lemma convert_consumer {text : Text} (h : DefaultIndex.exportsOneValue false text = true) :
    (convert consumerText (some "a.js".toList) {} (some (pairIndex text))).run.value
      = .ok "import b from './b';\n".toList := by
  have htext : consumerText = _ := String.toList_ofList
  rw [pairIndex_eq h, htext]
  exact convert_eq_writeGlobal (by decide) (by decide) (by decide)

/-- A value that is declared below its statement, with an inline export above and a use of it. -/
def hoistedText : Text :=
  "exports.a = 1;\nmodule.exports = f;\nfunction f() \x7b return exports.a; \x7d\n".toList

/-- What it is converted to. -/
def hoistedResult : Text :=
  "export const a = 1;\nexport default function f() \x7b return a; \x7d\n".toList

/-- The text with its value promoted at the declaration, ahead of which the inline export still
stands. -/
def hoistedPromoted : Text :=
  "exports.a = 1;\nexport default function f() \x7b return exports.a; \x7d\n".toList

/-- The inline export that is read of it. -/
def hoistedInline : InlineExport where
  raw := "exports.a = ".toList
  full := "exports.a = 1;".toList
  property := "a".toList
  start := some 0

/-- What is read of the text. -/
lemma read_hoisted :
    DefaultIndex.exportsOneValue false hoistedText = true
      ∧ longestFirst (InlineExport.readAll hoistedText) = [hoistedInline]
      ∧ usageOrder (Exports.read hoistedText false).value.names = ["a".toList] := by
  have htext : hoistedText = _ := String.toList_ofList
  have hread : DefaultIndex.exportsOneValue false hoistedText = true
      ∧ InlineExport.readAll hoistedText = [hoistedInline]
      ∧ (Exports.read hoistedText false).value.names.eraseDups = ["a".toList] := by
    rw [htext]
    decide
  refine ⟨hread.1, ?_, ?_⟩
  · rw [hread.2.1, longestFirst, List.mergeSort_singleton]
  · rw [usageOrder, hread.2.2, List.mergeSort_singleton]

/-- The text is converted, and the words move from behind the inline export to behind the constant
that it becomes. -/
lemma convert_hoisted :
    (convert hoistedText (some "b.js".toList) {} (some (pairIndex hoistedText))).run.value
        = .ok hoistedResult
      ∧ placeWritten (Exports.read hoistedText false).value hoistedPromoted 15 = some 20 := by
  have htext : hoistedText = _ := String.toList_ofList
  have hpromoted : hoistedPromoted = _ := String.toList_ofList
  let written : Text :=
    "export const a = 1;\nexport default function f() \x7b return exports.a; \x7d\n".toList
  have hwritten : written = _ := String.toList_ofList
  obtain ⟨hvalue, hinlines, hnames⟩ := read_hoisted
  have hglobal : (writeGlobal (importsWritten hoistedText (some "b.js".toList) {}
      (some (pairIndex hoistedText))) (Exports.read hoistedText false).value.global).run.value
      = .ok hoistedPromoted := by
    rw [pairIndex_eq hvalue, htext, hpromoted]
    decide
  have hwrite : (writeEach hoistedPromoted [hoistedInline]).run.value = .ok written
      ∧ ["a".toList].foldlM replaceUse written = .ok hoistedResult
      ∧ inlinePass.follow inlineMove hoistedPromoted 15 [hoistedInline] = some 20
      ∧ usePass.follow useMove written 20 ["a".toList] = some 20 := by
    rw [hpromoted, hwritten]
    decide
  refine ⟨convert_eq_ok hglobal hinlines hwrite.1 hnames hwrite.2.1, ?_⟩
  have hrun : inlinePass.run hoistedPromoted [hoistedInline] = some written :=
    (Pass.foldlM_eq_ok_iff (p := inlinePass) fun _ _ => rfl).mp
      ((value_run_writeEach _ _).symm.trans hwrite.1)
  have hread : (Exports.read hoistedText false).value.inline
      = InlineExport.readAll hoistedText := rfl
  rw [placeWritten, hread, hinlines, hnames, hrun, Option.bind_some, hwrite.2.2.1, Option.bind_some,
    hwrite.2.2.2]

/-- What is read of the consumer. -/
def consumerRequirement : Requirement where
  raw := "const b = require('./b');".toList
  target := "./b".toList
  bindings := [⟨wholeModule, some "b".toList⟩]
  start := some 0

/-- The file with the declared value is taken by its default export, and it has one, behind the
constant that its inline export becomes. -/
theorem index_exports_default_hoisted :
    ((consumerAnd hoistedText).map fun f => Path.absolute "/".toList f.1).Nodup
      ∧ ("b.js".toList, hoistedText) ∈ consumerAnd hoistedText
      ∧ (pairIndex hoistedText).contains "b.js".toList = true
      ∧ (convert hoistedText (some "b.js".toList) {} (some (pairIndex hoistedText))).run.value
        = .ok hoistedResult
      ∧ (Requirement.readAll consumerText).value = [consumerRequirement]
      ∧ importOf {}
          (knownDefault (some (pairIndex hoistedText)) (some "a.js".toList) consumerRequirement)
          consumerRequirement = "import b from './b';".toList
      ∧ placeWritten (Exports.read hoistedText false).value hoistedPromoted 15 = some 20
      ∧ standsAt defaultMark hoistedPromoted 15 = true
      ∧ standsAt defaultMark hoistedResult 20 = true
      ∧ ∃ raw value, (GlobalExports.read hoistedText false).value.raw = some raw
        ∧ (GlobalExports.read hoistedText false).value.direct = some value
        ∧ ((∃ front back, Promoted (importsWritten hoistedText (some "b.js".toList) {}
                (some (pairIndex hoistedText))) raw value front back
              ∧ ∃ front' back', hoistedResult = front' ++ (defaultMark ++ back')
                ∧ placeWritten (Exports.read hoistedText false).value
                    (front ++ (defaultMark ++ back)) front.length = some front'.length
                ∧ (InlineExport.readAll hoistedText = [] → front' = front ∧ back' = back))
          ∨ NoDefault (importsWritten hoistedText (some "b.js".toList) {}
            (some (pairIndex hoistedText))) raw value (InlineExport.readAll hoistedText)
              (convert hoistedText (some "b.js".toList) {}
                (some (pairIndex hoistedText))).run.warnings) := by
  have hdistinct : ((consumerAnd hoistedText).map fun f => Path.absolute "/".toList f.1).Nodup := by
    decide
  have hfile : ("b.js".toList, hoistedText) ∈ consumerAnd hoistedText :=
    List.mem_cons_of_mem _ List.mem_cons_self
  have hindex := contains_pairIndex read_hoisted.1
  obtain ⟨hconvert, hplace⟩ := convert_hoisted
  obtain ⟨hconsumers, hprovider⟩ := @index_exports_default "/".toList "b.js".toList hoistedText
    hoistedResult {} (consumerAnd hoistedText) hdistinct hfile hindex hconvert
  refine ⟨hdistinct, hfile, hindex, hconvert, by decide, ?_, hplace, by decide,
    by decide, hprovider⟩
  exact hconsumers "a.js".toList "b".toList consumerRequirement (by decide) rfl rfl rfl (by decide)

/-- A value that is a name from elsewhere. -/
def globalText : Text :=
  "module.exports = window;\n".toList

/-- A statement with a copy of it in a comment above. -/
def copiedText : Text :=
  "// was: module.exports = 1;\nmodule.exports = 1;\n".toList

/-- What it is converted to: the copy is taken for the statement. -/
def copiedResult : Text :=
  "// was: export default 1;\nmodule.exports = 1;\n".toList

/-- **Files of the index without a default export.** Their consumer takes them by their default
export. A value from elsewhere is left as it is. Where a copy of the statement stands in a comment
above, the words come into the comment, the statement stays, and nothing is reported. -/
theorem index_without_default :
    (pairIndex globalText).contains "b.js".toList = true
      ∧ (convert consumerText (some "a.js".toList) {} (some (pairIndex globalText))).run.value
        = .ok "import b from './b';\n".toList
      ∧ (convert globalText (some "b.js".toList) {} (some (pairIndex globalText))).run.value
        = .ok globalText
      ∧ ¬ Stands (fun _ => true) DefaultExport globalText
      ∧ (pairIndex copiedText).contains "b.js".toList = true
      ∧ (convert consumerText (some "a.js".toList) {} (some (pairIndex copiedText))).run.value
        = .ok "import b from './b';\n".toList
      ∧ (convert copiedText (some "b.js".toList) {} (some (pairIndex copiedText))).run.value
        = .ok copiedResult
      ∧ (convert copiedText (some "b.js".toList) {} (some (pairIndex copiedText))).run.warnings = []
      ∧ ∀ i, standsAt defaultMark copiedResult i = true → ¬ InCode copiedResult i := by
  have hglobalText : globalText = _ := String.toList_ofList
  have hcopiedText : copiedText = _ := String.toList_ofList
  have hresult : copiedResult = _ := String.toList_ofList
  have hglobal : DefaultIndex.exportsOneValue false globalText = true := by
    rw [hglobalText]
    decide
  have hcopied : DefaultIndex.exportsOneValue false copiedText = true := by
    rw [hcopiedText]
    decide
  refine ⟨contains_pairIndex hglobal, convert_consumer hglobal, ?_, ?_, contains_pairIndex hcopied,
    convert_consumer hcopied, ?_, ?_, ?_⟩
  · rw [pairIndex_eq hglobal, hglobalText]
    exact convert_eq_writeGlobal (by decide) (by decide) (by decide)
  · rw [stands_default_iff, ← occursIn_iff, hglobalText]
    decide
  · rw [pairIndex_eq hcopied, hcopiedText]
    exact convert_eq_writeGlobal (by decide) (by decide) (by decide)
  · rw [pairIndex_eq hcopied, hcopiedText]
    decide +kernel
  · intro i hi
    have hle : i ≤ copiedResult.length := by
      unfold standsAt at hi
      rw [Bool.and_eq_true, decide_eq_true_iff] at hi
      exact hi.1
    have hall : ∀ j ∈ List.range (copiedResult.length + 1),
        standsAt defaultMark copiedResult j = true → ¬ InCode copiedResult j := by
      rw [hresult]
      decide
    exact hall i (List.mem_range.mpr (Nat.lt_succ_of_le hle)) hi

end Esmify
