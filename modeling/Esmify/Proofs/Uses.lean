import Esmify.Export.Usage
import Esmify.Proofs.Lexeme
import Esmify.Proofs.Revision
import Esmify.Proofs.Scan

/-!
# No use of a replaced name is left

Uses of exported names through the exports of the module are replaced by the bare names, one name
after the other. **None of the replaced names is used through the exports in the end**
(`nowhere_of_replaceUses`), unless a name is one of the two words that make up such a use.

A text is cut at the uses of all the names at once (`usesOf`), which is possible since at a place
there is a use of one name at most (`exportsUse_unique`). A name that is put in stands alone: what
stands before it is neither part of a name nor a dot, and no name goes on behind it. So it is no
part of a use, and a text in which some of the uses are replaced is cut at the others as it was
before (`scan_settle`). Replacing name after name therefore settles one piece after the other
(`foldlM_replaceUse`). -/

namespace Esmify

open Text Source

/-! ## Uses -/

/-- A use of a name through the exports. -/
def UseText (name w : Text) : Prop :=
  w = "exports.".toList ++ name ∨ w = "module.exports.".toList ++ name

/-- The words in front of a property, and the dot. -/
lemma exists_of_exportsWord? {t rest : Text}
    (h : (exportsWord? t).bind (after? ['.']) = some rest) (name : Text) :
    ∃ w, UseText name (w ++ name) ∧ t = w ++ rest := by
  obtain ⟨tail, hword, hdot⟩ := Option.bind_eq_some_iff.mp h
  unfold exportsWord? at hword
  have htail := after?_eq_some_iff.mp hdot
  have hexports := after?_eq_some_iff.mp hword
  cases hmodule : after? "module.".toList t with
  | none =>
    rw [hmodule, Option.getD_none, htail] at hexports
    exact ⟨"exports.".toList, Or.inl rfl, hexports⟩
  | some inner =>
    rw [hmodule, Option.getD_some, htail] at hexports
    refine ⟨"module.exports.".toList, Or.inr rfl, ?_⟩
    rw [after?_eq_some_iff.mp hmodule, hexports]
    rfl

/-- A use is read exactly where its text stands alone. -/
lemma exportsUse_eq_some_iff {name : Text} {before : Option Char} {t rest : Text} {u : Unit} :
    exportsUse name before t = some (u, rest) ↔ beginsName before = true
      ∧ outsideName rest.head? = true ∧ ∃ w, UseText name w ∧ t = w ++ rest := by
  unfold exportsUse
  constructor
  · intro h
    split_ifs at h with hbefore
    obtain ⟨rest', hname, heq⟩ := Option.map_eq_some_iff.mp h
    obtain ⟨-, rfl⟩ := Prod.mk.inj heq
    obtain ⟨named, hwords, hended⟩ := Option.bind_eq_some_iff.mp hname
    obtain ⟨rfl, hout⟩ := endedName?_eq_some_iff.mp hended
    obtain ⟨w, hw, rfl⟩ := exists_of_exportsWord? hwords name
    exact ⟨hbefore, hout, _, hw, by rw [List.append_assoc]⟩
  · rintro ⟨hbefore, hout, w, hw, rfl⟩
    have hended : endedName? name (name ++ rest) = some rest :=
      endedName?_eq_some_iff.mpr ⟨rfl, hout⟩
    rw [if_pos hbefore, exportsWord?]
    rcases hw with rfl | rfl
    · have hmodule : after? "module.".toList ("exports.".toList ++ name ++ rest) = none := rfl
      have hword : after? "exports".toList ("exports.".toList ++ name ++ rest) =
          some ('.' :: (name ++ rest)) := after?_eq_some_iff.mpr (by simp)
      have hdot : after? ['.'] ('.' :: (name ++ rest)) = some (name ++ rest) :=
        after?_eq_some_iff.mpr rfl
      rw [hmodule, Option.getD_none, hword, Option.bind_some, hdot, Option.bind_some, hended]
      rfl
    · have hmodule : after? "module.".toList ("module.exports.".toList ++ name ++ rest) =
          some ("exports.".toList ++ (name ++ rest)) := after?_eq_some_iff.mpr (by simp)
      have hword : after? "exports".toList ("exports.".toList ++ (name ++ rest)) =
          some ('.' :: (name ++ rest)) := after?_eq_some_iff.mpr (by simp)
      have hdot : after? ['.'] ('.' :: (name ++ rest)) = some (name ++ rest) :=
        after?_eq_some_iff.mpr rfl
      rw [hmodule, Option.getD_some, hword, Option.bind_some, hdot, Option.bind_some, hended]
      rfl

/-- A use begins with one of two words and a dot. -/
lemma UseText.split {name w : Text} (h : UseText name w) :
    ∃ word rest, (word = "exports".toList ∨ word = "module".toList) ∧ w = word ++ '.' :: rest := by
  rcases h with rfl | rfl
  · exact ⟨_, name, Or.inl rfl, rfl⟩
  · exact ⟨_, "exports.".toList ++ name, Or.inr rfl, rfl⟩

/-- A use is not empty. -/
lemma UseText.ne_nil {name w : Text} (h : UseText name w) : w ≠ [] := by
  obtain ⟨word, rest, -, rfl⟩ := h.split
  simp

/-- No name of its own begins inside a name. -/
lemma beginsName_of_mem_name {name : Text} (hname : ProperName name) {c : Char} (hc : c ∈ name) :
    beginsName (some c) = false := by
  simp only [beginsName, hname.forall_isNameChar c hc, Bool.not_true, Bool.false_and]

/-- No name of its own begins inside a use. -/
lemma UseText.beginsName_eq_false {name w : Text} (h : UseText name w) (hname : ProperName name) :
    ∀ c ∈ w, beginsName (some c) = false := by
  have hwords : ∀ c ∈ "module.exports.".toList, beginsName (some c) = false := by decide
  intro c hc
  rcases h with rfl | rfl
  · rcases List.mem_append.mp hc with hc | hc
    · exact hwords c (List.mem_append_right "module.".toList hc)
    · exact beginsName_of_mem_name hname hc
  · rcases List.mem_append.mp hc with hc | hc
    · exact hwords c hc
    · exact beginsName_of_mem_name hname hc

/-- A use ends as the name does. -/
lemma UseText.getLast? {name w : Text} (h : UseText name w) (hname : ProperName name) :
    w.getLast? = name.getLast? := by
  rcases h with rfl | rfl <;> exact List.getLast?_append_of_ne_nil _ hname.ne_nil

/-! ## Putting in the bare name -/

/-- The uses of a name, with the name itself to be put in their place. -/
def bareUse (name : Text) : Pattern Text :=
  filled (exportsUse name) [.literal name]

/-- The value of a use is the name. -/
lemma bareUse_eq_some_iff {name : Text} {before : Option Char} {t value rest : Text} :
    bareUse name before t = some (value, rest) ↔
      value = name ∧ exportsUse name before t = some ((), rest) := by
  have hfill : ∀ matched, Template.fill [.literal name] matched = name := by
    intro matched
    simp [Template.fill, Template.fillPiece]
  unfold bareUse filled
  rw [Option.map_eq_some_iff]
  constructor
  · rintro ⟨⟨u, rest'⟩, hm, heq⟩
    obtain ⟨rfl, rfl⟩ := Prod.mk.inj heq
    exact ⟨hfill _, hm⟩
  · rintro ⟨rfl, hm⟩
    exact ⟨((), rest), hm, by rw [hfill]⟩

/-- A use takes something off. -/
lemma exportsUse_consumes (name : Text) : Consumes (exportsUse name) := by
  intro before t u rest h
  obtain ⟨-, -, w, hw, rfl⟩ := exportsUse_eq_some_iff.mp h
  exact ⟨w, hw.ne_nil, rfl⟩

/-- What is put in place of a match does not change what is matched. -/
lemma consumes_filled {α : Type} {p : Pattern α} (hp : Consumes p) (template : Template) :
    Consumes (filled p template) := by
  intro before t value rest h
  obtain ⟨⟨a, rest'⟩, hmatch, heq⟩ := Option.map_eq_some_iff.mp h
  obtain ⟨-, rfl⟩ := Prod.mk.inj heq
  exact hp before t a rest' hmatch

/-- So does a use with its value. -/
lemma bareUse_consumes (name : Text) : Consumes (bareUse name) :=
  consumes_filled (exportsUse_consumes name) _

/-- A proper name is a template of itself. -/
lemma template_ofText {name : Text} (hname : ProperName name) :
    Template.ofText name = .ok [.literal name] := by
  have hslash : name.contains '\\' = false := by
    rw [List.contains_eq_mem, decide_eq_false_iff_not]
    exact hname.not_mem (by decide)
  rw [Template.ofText, hslash]
  rfl

/-- **Replacing the uses of a proper name** puts in the name itself. -/
lemma replaceUse_eq {name : Text} (hname : ProperName name) (content : Text) :
    replaceUse content name = .ok (replaceAll (bareUse name) content) := by
  rw [replaceUse, template_ofText hname]
  by_cases hholds : holdsSomewhere (exportsUse name) content = true
  · rw [if_pos hholds]
    rfl
  · have hnowhere : Nowhere (bareUse name) content := by
      intro front back hsplit
      rw [Option.eq_none_iff_forall_ne_some]
      rintro ⟨value, rest⟩ hmatch
      obtain ⟨-, huse⟩ := bareUse_eq_some_iff.mp hmatch
      apply hholds
      exact holdsSomewhere_iff.mpr ⟨front, back, hsplit, by rw [huse]; rfl⟩
    rw [if_neg hholds, hnowhere.replaceAll]

/-! ## Uses of several names -/

/-- The first name of a text is where it ends. -/
lemma name_eq_of_append {n n' a a' : Text} (hn : ∀ c ∈ n, isNameChar c = true)
    (hn' : ∀ c ∈ n', isNameChar c = true) (ha : outsideName a.head? = true)
    (ha' : outsideName a'.head? = true) (h : n ++ a = n' ++ a') : n = n' := by
  have htake : ∀ {n a : Text}, (∀ c ∈ n, isNameChar c = true) → outsideName a.head? = true →
      (n ++ a).takeWhile isNameChar = n := by
    intro n a hn ha
    cases a with
    | nil => simpa using List.takeWhile_eq_self_iff.mpr hn
    | cons c a =>
      simp only [outsideName, List.head?_cons, Bool.not_eq_true'] at ha
      exact takeWhile_append_cons hn ha a
  rw [← htake hn ha, h, htake hn' ha']

/-- **At a place there is a use of one name at most.** -/
lemma exportsUse_unique {n n' : Text} (hn : ProperName n) (hn' : ProperName n')
    {before : Option Char} {t rest rest' : Text} {u u' : Unit}
    (h : exportsUse n before t = some (u, rest)) (h' : exportsUse n' before t = some (u', rest')) :
    n = n' := by
  unfold exportsUse at h h'
  by_cases hbefore : beginsName before = true
  · rw [if_pos hbefore] at h h'
    obtain ⟨_, hname, -⟩ := Option.map_eq_some_iff.mp h
    obtain ⟨_, hname', -⟩ := Option.map_eq_some_iff.mp h'
    obtain ⟨named, hwords, hended⟩ := Option.bind_eq_some_iff.mp hname
    obtain ⟨named', hwords', hended'⟩ := Option.bind_eq_some_iff.mp hname'
    obtain rfl := Option.some.inj (hwords.symm.trans hwords')
    obtain ⟨hsplit, hout⟩ := endedName?_eq_some_iff.mp hended
    obtain ⟨hsplit', hout'⟩ := endedName?_eq_some_iff.mp hended'
    exact name_eq_of_append hn.forall_isNameChar hn'.forall_isNameChar hout hout'
      (hsplit.symm.trans hsplit')
  · rw [if_neg hbefore] at h
    exact absurd h (by simp)

/-- The uses of any of the names, each with its name to be put in its place. -/
def usesOf (names : List Text) : Pattern Text := fun before t =>
  names.findSome? fun name => bareUse name before t

section
variable {names : List Text} {before : Option Char}

/-- Where none of the names is used, this one is not. -/
lemma bareUse_of_usesOf {t name : Text} (h : usesOf names before t = none) (hname : name ∈ names) :
    bareUse name before t = none :=
  List.findSome?_eq_none_iff.mp h name hname

/-- No use begins behind a character that goes on with it. -/
lemma usesOf_eq_none (h : beginsName before = false) (t : Text) : usesOf names before t = none := by
  rw [usesOf, List.findSome?_eq_none_iff]
  intro name _
  rw [Option.eq_none_iff_forall_ne_some]
  rintro ⟨value, rest⟩ hmatch
  obtain ⟨hbefore, -⟩ := exportsUse_eq_some_iff.mp (bareUse_eq_some_iff.mp hmatch).2
  rw [h] at hbefore
  exact absurd hbefore (by decide)

/-- A use of one of the names has that name for its value. -/
lemma usesOf_eq_some_iff (hnames : ∀ name ∈ names, ProperName name) {t value rest : Text} :
    usesOf names before t = some (value, rest) ↔
      value ∈ names ∧ exportsUse value before t = some ((), rest) := by
  constructor
  · intro h
    obtain ⟨name, hmem, hmatch⟩ := List.exists_of_findSome?_eq_some h
    obtain ⟨rfl, huse⟩ := bareUse_eq_some_iff.mp hmatch
    exact ⟨hmem, huse⟩
  · rintro ⟨hmem, huse⟩
    cases hfound : usesOf names before t with
    | none =>
      have hnone := bareUse_of_usesOf hfound hmem
      rw [bareUse_eq_some_iff.mpr ⟨rfl, huse⟩] at hnone
      exact absurd hnone (by simp)
    | some found =>
      obtain ⟨name, hmem', hmatch⟩ := List.exists_of_findSome?_eq_some hfound
      obtain ⟨value', rest'⟩ := found
      obtain ⟨rfl, huse'⟩ := bareUse_eq_some_iff.mp hmatch
      obtain rfl := exportsUse_unique (hnames _ hmem) (hnames _ hmem') huse huse'
      obtain ⟨-, rfl⟩ := Prod.mk.inj (Option.some.inj (huse.symm.trans huse'))
      rfl

/-- A use is found exactly where its text stands alone. -/
lemma usesOf_append_iff (hnames : ∀ name ∈ names, ProperName name) {m value rest : Text} :
    usesOf names before (m ++ rest) = some (value, rest) ↔ value ∈ names ∧ beginsName before = true
      ∧ UseText value m ∧ outsideName rest.head? = true := by
  rw [usesOf_eq_some_iff hnames, exportsUse_eq_some_iff]
  constructor
  · rintro ⟨hmem, hbefore, hout, w, hw, heq⟩
    exact ⟨hmem, hbefore, List.append_cancel_right heq ▸ hw, hout⟩
  · rintro ⟨hmem, hbefore, hm, hout⟩
    exact ⟨hmem, hbefore, hout, m, hm, rfl⟩

/-- A use of any name takes something off. -/
lemma usesOf_consumes (names : List Text) : Consumes (usesOf names) := by
  intro before t value rest h
  obtain ⟨name, -, hmatch⟩ := List.exists_of_findSome?_eq_some h
  exact bareUse_consumes name before t value rest hmatch

/-- Characters that go on with a name hold no match, but for the first of them. -/
lemma scan_put_plain {p : Pattern Text}
    (hp : ∀ before t, beginsName before = false → p before t = none) {c : Char} {u : Text}
    {pieces : List (Piece Text)} (hchars : ∀ x ∈ c :: u, beginsName (some x) = false)
    (hfirst : p before (c :: (u ++ joined pieces)) = none)
    (hrest : Scan p (some ((c :: u).getLast (List.cons_ne_nil c u))) pieces) :
    Scan p before ((c :: u).map .plain ++ pieces) := by
  induction u generalizing before c with
  | nil => exact .plain hfirst hrest
  | cons d u ih =>
    obtain ⟨hc, hu⟩ := List.forall_mem_cons.mp hchars
    rw [List.getLast_cons (List.cons_ne_nil d u)] at hrest
    refine .plain ?_ (ih hu (hp _ _ hc) hrest)
    have hjoined := joined_map_plain (d :: u) pieces
    exact hjoined ▸ hfirst

/-! ## Settled pieces -/

/-- The pieces of a text with the uses of some names replaced: the names are cut into single
characters. -/
def settle (done : List Text) : List (Piece Text) → List (Piece Text)
  | [] => []
  | .plain c :: pieces => .plain c :: settle done pieces
  | .found text value :: pieces =>
    if done.contains value then value.map .plain ++ settle done pieces
    else .found text value :: settle done pieces

/-- A use of a name that is done becomes the name. -/
lemma settle_of_mem {done : List Text} {value : Text} (h : value ∈ done) (text : Text)
    (pieces : List (Piece Text)) :
    settle done (.found text value :: pieces) = value.map .plain ++ settle done pieces := by
  rw [settle, if_pos (List.contains_iff_mem.mpr h)]

/-- A use of any other name stays as it is. -/
lemma settle_of_not_mem {done : List Text} {value : Text} (h : value ∉ done) (text : Text)
    (pieces : List (Piece Text)) :
    settle done (.found text value :: pieces) = .found text value :: settle done pieces := by
  rw [settle, if_neg fun hmem => h (List.contains_iff_mem.mp hmem)]

/-- When no name is done, nothing is settled. -/
lemma settle_nil (pieces : List (Piece Text)) : settle [] pieces = pieces := by
  induction pieces with
  | nil => rfl
  | cons piece pieces ih =>
    cases piece with
    | plain c => rw [settle, ih]
    | found text value => rw [settle_of_not_mem List.not_mem_nil, ih]

/-- Only which names are settled matters. -/
lemma settle_congr {done done' : List Text} (h : ∀ name, name ∈ done ↔ name ∈ done')
    (pieces : List (Piece Text)) : settle done pieces = settle done' pieces := by
  induction pieces with
  | nil => rfl
  | cons piece pieces ih =>
    cases piece with
    | plain c => rw [settle, settle, ih]
    | found text value =>
      by_cases hvalue : value ∈ done
      · rw [settle_of_mem hvalue, settle_of_mem ((h value).mp hvalue), ih]
      · rw [settle_of_not_mem hvalue, settle_of_not_mem fun hmem => hvalue ((h value).mpr hmem), ih]

/-- Pieces are settled one after the other. -/
lemma settle_append (done : List Text) (pieces pieces' : List (Piece Text)) :
    settle done (pieces ++ pieces') = settle done pieces ++ settle done pieces' := by
  induction pieces with
  | nil => rfl
  | cons piece pieces ih =>
    cases piece with
    | plain c => rw [List.cons_append, settle, settle, ih, List.cons_append]
    | found text value =>
      by_cases hvalue : value ∈ done
      · rw [List.cons_append, settle_of_mem hvalue, settle_of_mem hvalue, ih, List.append_assoc]
      · rw [List.cons_append, settle_of_not_mem hvalue, settle_of_not_mem hvalue, ih,
          List.cons_append]

/-- Single characters are settled. -/
lemma settle_map_plain (done : List Text) (u : Text) :
    settle done (u.map .plain) = u.map .plain := by
  induction u with
  | nil => rfl
  | cons c u ih => rw [List.map_cons, settle, ih]

/-- Names are settled one after the other. -/
lemma settle_settle (done done' : List Text) (pieces : List (Piece Text)) :
    settle done' (settle done pieces) = settle (done ++ done') pieces := by
  induction pieces with
  | nil => rfl
  | cons piece pieces ih =>
    cases piece with
    | plain c => rw [settle, settle, settle, ih]
    | found text value =>
      by_cases hvalue : value ∈ done
      · rw [settle_of_mem hvalue, settle_of_mem (List.mem_append_left _ hvalue), settle_append,
          settle_map_plain, ih]
      · rw [settle_of_not_mem hvalue]
        by_cases hvalue' : value ∈ done'
        · rw [settle_of_mem hvalue', settle_of_mem (List.mem_append_right _ hvalue'), ih]
        · have hneither : value ∉ done ++ done' := by
            rw [List.mem_append, not_or]
            exact ⟨hvalue, hvalue'⟩
          rw [settle_of_not_mem hvalue', settle_of_not_mem hneither, ih]

/-- A use that is left is one of another name. -/
lemma not_mem_of_mem_settle {done : List Text} {pieces : List (Piece Text)} {text value : Text}
    (h : .found text value ∈ settle done pieces) : value ∉ done := by
  induction pieces with
  | nil => exact absurd h List.not_mem_nil
  | cons piece pieces ih =>
    cases piece with
    | plain c =>
      rcases List.mem_cons.mp h with h | h
      · exact absurd h (by simp)
      · exact ih h
    | found text' value' =>
      by_cases hvalue : value' ∈ done
      · rw [settle_of_mem hvalue] at h
        rcases List.mem_append.mp h with h | h
        · obtain ⟨c, -, hc⟩ := List.mem_map.mp h
          exact absurd hc (by simp)
        · exact ih h
      · rw [settle_of_not_mem hvalue] at h
        rcases List.mem_cons.mp h with h | h
        · obtain ⟨-, rfl⟩ := Piece.found.inj h
          exact hvalue
        · exact ih h

/-- Behind a character that goes on with a name, and as long as such characters follow, a text is
the same with uses replaced. -/
lemma exists_plain_of_scan {pieces : List (Piece Text)} (h : Scan (usesOf names) before pieces)
    (hbefore : beginsName before = false) {done : List Text} {v y : Text}
    (hv : ∀ c ∈ v, beginsName (some c) = false) (heq : joined (settle done pieces) = v ++ y) :
    ∃ y', joined pieces = v ++ y' ∧ y'.head? = y.head? := by
  induction v generalizing before pieces with
  | nil =>
    cases h with
    | done _ => exact ⟨[], rfl, by rw [← List.nil_append y, ← heq]; rfl⟩
    | plain _ _ => exact ⟨_, rfl, by rw [← List.nil_append y, ← heq]; rfl⟩
    | found hmatch _ =>
      rw [usesOf_eq_none hbefore] at hmatch
      exact absurd hmatch (by simp)
  | cons c v ih =>
    obtain ⟨hc, hv'⟩ := List.forall_mem_cons.mp hv
    cases h with
    | done _ => exact absurd heq (by simp [settle, joined])
    | plain hnone hscan =>
      obtain ⟨rfl, hrest⟩ := List.cons.inj heq
      obtain ⟨y', hjoined, hhead⟩ := ih hscan hc hv' hrest
      exact ⟨y', by rw [joined, Piece.text, hjoined]; rfl, hhead⟩
    | found hmatch _ =>
      rw [usesOf_eq_none hbefore] at hmatch
      exact absurd hmatch (by simp)

/-- A proper name that is none of the two words of a use. -/
def PlainName (name : Text) : Prop :=
  ProperName name ∧ name ≠ "exports".toList ∧ name ≠ "module".toList

/-- No use begins with a plain name that stands alone. -/
lemma PlainName.usesOf_eq_none {name : Text} (hname : PlainName name)
    (hnames : ∀ name ∈ names, ProperName name) {rest : Text}
    (hout : outsideName rest.head? = true) :
    usesOf names before (name ++ rest) = none := by
  obtain ⟨hproper, hexports, hmodule⟩ := hname
  rw [Option.eq_none_iff_forall_ne_some]
  rintro ⟨value, y⟩ hmatch
  obtain ⟨-, -, w, hw, heq⟩ := exportsUse_eq_some_iff.mp ((usesOf_eq_some_iff hnames).mp hmatch).2
  obtain ⟨word, tail, hword, rfl⟩ := hw.split
  have hchars : ∀ c ∈ word, isNameChar c = true := by
    rcases hword with rfl | rfl <;> decide
  rw [List.append_assoc, List.cons_append] at heq
  obtain rfl := name_eq_of_append hproper.forall_isNameChar hchars hout rfl heq
  rcases hword with h | h
  · exact hexports h
  · exact hmodule h

/-- **A text in which uses are replaced is cut at the others as before.** -/
lemma scan_settle (hnames : ∀ name ∈ names, ProperName name) {done : List Text}
    (hdone : ∀ name ∈ done, PlainName name) {pieces : List (Piece Text)}
    (h : Scan (usesOf names) before pieces) : Scan (usesOf names) before (settle done pieces) := by
  induction h with
  | done hnone => exact .done hnone
  | @plain before c pieces hnone hscan ih =>
    refine .plain ?_ ih
    -- a use at this place would stand in the old text as well
    rw [Option.eq_none_iff_forall_ne_some]
    rintro ⟨value, y⟩ hmatch
    obtain ⟨hmem, huse⟩ := (usesOf_eq_some_iff hnames).mp hmatch
    obtain ⟨hbefore, hout, w, hw, heq⟩ := exportsUse_eq_some_iff.mp huse
    obtain ⟨d, w', rfl⟩ := List.exists_cons_of_ne_nil hw.ne_nil
    obtain ⟨rfl, hrest⟩ := List.cons.inj heq
    obtain ⟨hd, hw'⟩ := List.forall_mem_cons.mp (hw.beginsName_eq_false (hnames _ hmem))
    obtain ⟨y', hjoined, hhead⟩ := exists_plain_of_scan hscan hd hw' hrest
    have hold : usesOf names before ((c :: w') ++ y') = some (value, y') :=
      (usesOf_append_iff hnames).mpr ⟨hmem, hbefore, hw, hhead ▸ hout⟩
    rw [hjoined] at hnone
    exact absurd (hnone.symm.trans hold) (by simp)
  | @found before c m value pieces hmatch hscan ih =>
    obtain ⟨hmem, hbefore, hm, hout⟩ := (usesOf_append_iff hnames).mp hmatch
    have hchars := hm.beginsName_eq_false (hnames value hmem)
    obtain ⟨y', hjoined, hhead⟩ := exists_plain_of_scan hscan (hchars _ (List.getLast_mem _))
      (List.forall_mem_nil _) (List.nil_append (joined (settle done pieces))).symm
    have hout' : outsideName (joined (settle done pieces)).head? = true := by
      rw [← hhead, ← List.nil_append y', ← hjoined]
      exact hout
    by_cases hvalue : value ∈ done
    · rw [settle_of_mem hvalue]
      obtain ⟨d, u, rfl⟩ := List.exists_cons_of_ne_nil (hnames value hmem).ne_nil
      have hlast : (c :: m).getLast (List.cons_ne_nil c m)
          = (d :: u).getLast (List.cons_ne_nil d u) := by
        have hends := hm.getLast? (hnames _ hmem)
        rw [List.getLast?_eq_some_getLast (List.cons_ne_nil c m),
          List.getLast?_eq_some_getLast (List.cons_ne_nil d u)] at hends
        exact Option.some.inj hends
      rw [hlast] at ih
      apply scan_put_plain (fun _ t h => usesOf_eq_none h t) _ _ ih
      · intro x hx
        exact beginsName_of_mem_name (hnames _ hmem) hx
      · exact (hdone _ hvalue).usesOf_eq_none hnames hout'
    · rw [settle_of_not_mem hvalue]
      exact .found ((usesOf_append_iff hnames).mpr ⟨hmem, hbefore, hm, hout'⟩) ih

/-! ## Replacing one name after the other -/

/-- The text is also cut at the uses of one of the names alone, and replacing them settles their
pieces. -/
lemma exists_scan_bareUse (hnames : ∀ name ∈ names, ProperName name) {name : Text}
    (hname : name ∈ names) {pieces : List (Piece Text)} (h : Scan (usesOf names) before pieces) :
    ∃ pieces', Scan (bareUse name) before pieces' ∧ joined pieces' = joined pieces
      ∧ replaced pieces' = joined (settle [name] pieces) := by
  have hbegins : ∀ before t, beginsName before = false → bareUse name before t = none :=
    fun _ t h => bareUse_of_usesOf (usesOf_eq_none h t) hname
  induction h with
  | done hnone => exact ⟨[], .done (bareUse_of_usesOf hnone hname), rfl, rfl⟩
  | @plain before c pieces hnone _ ih =>
    obtain ⟨pieces', hscan, hjoined, hreplaced⟩ := ih
    refine ⟨.plain c :: pieces', .plain ?_ hscan, ?_, ?_⟩
    · rw [hjoined]
      exact bareUse_of_usesOf hnone hname
    · rw [joined, hjoined, joined]
    · rw [replaced, hreplaced]
      rfl
  | @found before c m value pieces hmatch _ ih =>
    obtain ⟨pieces', hscan, hjoined, hreplaced⟩ := ih
    obtain ⟨hmem, huse⟩ := (usesOf_eq_some_iff hnames).mp hmatch
    obtain ⟨-, -, hm, -⟩ := (usesOf_append_iff hnames).mp hmatch
    by_cases hvalue : value = name
    · subst hvalue
      refine ⟨.found (c :: m) value :: pieces', .found ?_ hscan, ?_, ?_⟩
      · rw [hjoined]
        exact bareUse_eq_some_iff.mpr ⟨rfl, huse⟩
      · rw [joined, hjoined, joined]
      · rw [settle_of_mem (List.mem_singleton_self value), joined_map_plain, replaced, hreplaced]
    · refine ⟨(c :: m).map .plain ++ pieces', scan_put_plain hbegins ?_ ?_ hscan, ?_, ?_⟩
      · exact hm.beginsName_eq_false (hnames value hmem)
      · rw [hjoined, Option.eq_none_iff_forall_ne_some]
        rintro ⟨value', rest⟩ hother
        exact hvalue (exportsUse_unique (hnames _ hmem) (hnames _ hname) huse
          (bareUse_eq_some_iff.mp hother).2)
      · rw [joined_map_plain, hjoined, joined, Piece.text]
      · rw [settle_of_not_mem (by simpa using hvalue), replaced_map_plain, hreplaced,
          joined, Piece.text]

end

/-- **Every use is one of the pieces.** -/
lemma exists_found_of_scan {names : List Text} (hnames : ∀ name ∈ names, ProperName name)
    {before : Option Char} {pieces : List (Piece Text)} (h : Scan (usesOf names) before pieces)
    {front back value rest : Text} (hsplit : joined pieces = front ++ back)
    (hmatch : usesOf names (front.getLast?.or before) back = some (value, rest)) :
    ∃ ahead m behind, pieces = ahead ++ .found m value :: behind ∧ joined ahead = front
      ∧ back = m ++ joined behind ∧ joined behind = rest := by
  induction h generalizing front with
  | done hnone =>
    obtain ⟨rfl, rfl⟩ := List.append_eq_nil_iff.mp hsplit.symm
    exact absurd (hnone.symm.trans hmatch) (by simp)
  | @plain before c pieces hnone hscan ih =>
    cases front with
    | nil =>
      rw [← List.nil_append back, ← hsplit] at hmatch
      exact absurd (hnone.symm.trans hmatch) (by simp)
    | cons d front =>
      obtain ⟨rfl, hjoined⟩ := List.cons.inj hsplit
      rw [List.getLast?_cons, Option.some_or, ← Option.or_some] at hmatch
      obtain ⟨ahead, m, behind, rfl, rfl, hback, hrest⟩ := ih hjoined hmatch
      exact ⟨.plain c :: ahead, m, behind, rfl, rfl, hback, hrest⟩
  | @found before c m value' pieces hfound hscan ih =>
    obtain ⟨hmem, -, hm, -⟩ := (usesOf_append_iff hnames).mp hfound
    have hchars := hm.beginsName_eq_false (hnames value' hmem)
    have htext : (c :: m) ++ joined pieces = front ++ back := hsplit
    rcases List.append_eq_append_iff.mp htext with ⟨front', rfl, hjoined⟩ | ⟨m', hcut, rfl⟩
    · have hlast : ((c :: m) ++ front').getLast?.or before =
          front'.getLast?.or (some ((c :: m).getLast (List.cons_ne_nil c m))) := by
        rw [List.getLast?_append, List.getLast?_eq_some_getLast (List.cons_ne_nil c m),
          Option.or_assoc, Option.some_or]
      rw [hlast] at hmatch
      obtain ⟨ahead, m', behind, rfl, rfl, hback, hrest⟩ := ih hjoined hmatch
      exact ⟨.found (c :: m) value' :: ahead, m', behind, rfl, rfl, hback, hrest⟩
    · cases hfront : front.getLast? with
      | none =>
        obtain rfl := List.getLast?_eq_none_iff.mp hfront
        obtain rfl : c :: m = m' := hcut
        obtain ⟨rfl, rfl⟩ := Prod.mk.inj (Option.some.inj (hfound.symm.trans hmatch))
        exact ⟨[], c :: m, pieces, rfl, rfl, rfl, rfl⟩
      | some l =>
        -- no use begins inside another one
        have hl : l ∈ c :: m := by
          rw [hcut]
          exact List.mem_append_left _ (List.mem_of_getLast? hfront)
        rw [hfront, Option.some_or, usesOf_eq_none (hchars l hl)] at hmatch
        exact absurd hmatch (by simp)

/-- **Replacing name after name settles the pieces**, in whatever order. -/
lemma foldlM_replaceUse {names : List Text} (hnames : ∀ name ∈ names, ProperName name)
    {order : List Text} (horder : ∀ name ∈ order, name ∈ names ∧ PlainName name)
    {pieces : List (Piece Text)} (h : Scan (usesOf names) none pieces) :
    order.foldlM replaceUse (joined pieces) = .ok (joined (settle order pieces)) := by
  induction order generalizing pieces with
  | nil => rw [settle_nil, List.foldlM_nil]; rfl
  | cons name order ih =>
    obtain ⟨⟨hmem, hplain⟩, horder'⟩ := List.forall_mem_cons.mp horder
    obtain ⟨pieces', hscan, hjoined, hreplaced⟩ := exists_scan_bareUse hnames hmem h
    have hstep : replaceUse (joined pieces) name = .ok (joined (settle [name] pieces)) := by
      rw [replaceUse_eq hplain.1, ← hjoined, replaceAll_eq_replaced hscan, hreplaced]
    have hnext := scan_settle hnames (List.forall_mem_singleton.mpr hplain) h
    rw [List.foldlM_cons, hstep, ok_bind, ih horder' hnext, settle_settle]
    rfl

/-- Names are replaced one after the other. -/
lemma value_run_replaceUses (content : Text) (names : List Text) :
    (replaceUses content names).run.value = names.foldlM replaceUse content := by
  induction names generalizing content with
  | nil => rfl
  | cons name names ih =>
    have hrest : (Revision.ofExcept (replaceUse content name)
        >>= fun t => replaceUses t names).run.value
          = (name :: names).foldlM replaceUse content := by
      rw [Revision.value_run_bind, Revision.run_ofExcept, List.foldlM_cons]
      exact congrArg _ (funext ih)
    rw [replaceUses]
    split_ifs
    · rw [Revision.value_run_bind_of_ok rfl]
      exact hrest
    · exact hrest

/-- The order has the names that it is made of. -/
lemma mem_usageOrder {names : List Text} {name : Text} :
    name ∈ usageOrder names ↔ name ∈ names := by
  rw [usageOrder, List.mem_mergeSort, List.mem_eraseDups]

/-- **None of the replaced names is used through the exports in the end.** -/
lemma nowhere_of_replaceUses {content t : Text} {names : List Text}
    (hnames : ∀ name ∈ names, PlainName name) (h : names.foldlM replaceUse content = .ok t)
    {name : Text} (hname : name ∈ names) : Nowhere (exportsUse name) t := by
  have hproper : ∀ name ∈ names, ProperName name := fun name hmem => (hnames name hmem).1
  obtain ⟨pieces, rfl, hscan⟩ := exists_scan (usesOf_consumes names) content none
  rw [foldlM_replaceUse hproper (fun name hmem => ⟨hmem, hnames name hmem⟩) hscan] at h
  obtain rfl := Except.ok.inj h
  intro front back hsplit
  rw [Option.eq_none_iff_forall_ne_some]
  rintro ⟨u, rest⟩ huse
  rw [← Option.or_none (o := front.getLast?)] at huse
  obtain ⟨ahead, m, behind, hpieces, -⟩ :=
    exists_found_of_scan hproper (scan_settle hproper hnames hscan)
    hsplit ((usesOf_eq_some_iff hproper).mpr ⟨hname, huse⟩)
  have hfound : Piece.found m name ∈ settle names pieces := by
    rw [hpieces]
    exact List.mem_append_right _ List.mem_cons_self
  exact not_mem_of_mem_settle hfound hname

end Esmify
