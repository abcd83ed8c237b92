import Esmify.Export.Block
import Esmify.Proofs.GlobalSource
import Esmify.Proofs.Members

/-!
# The first line of a member that goes on

A member that leaves brackets open on its line is read from that line alone (`openHeader`); cut off
at commas, the same member is read together with the lines below it. **Both readings give it the
same key** (`parse_of_openHeader`): what follows the first line changes the value, but neither the
name in front of a colon (`parse_of_keyValue?`) nor the head of a method (`methodHead?_append`), and
the bracket that closes its parameters stays where it is (`closing?_append`). -/

namespace Esmify

open Text Source

variable {t : Text}

/-! ## A name and a mark behind it -/

/-- A bracket that opens is no part of a name, no white space and no colon. -/
lemma isNameChar_of_isOpener {c : Char} (h : isOpener c = true) :
    isNameChar c = false ∧ isBlank c = false ∧ c ≠ ':' := by
  have hmem : c ∈ "([\x7b".toList := by
    unfold isOpener closerOf? at h
    split_ifs at h with hround hsquare hcurly
    · simp [hround]
    · simp [hsquare]
    · simp [hcurly]
    · exact absurd h (by decide)
  have hall : ∀ c ∈ "([\x7b".toList, isNameChar c = false ∧ isBlank c = false ∧ c ≠ ':' := by decide
  exact hall c hmem

/-- White space and a visible character that end the name in front of them. -/
structure EndsName (gap : Text) (mark : Char) : Prop where
  blank : ∀ c ∈ gap, isBlank c = true
  visible : isBlank mark = false
  outside : gap = [] → isNameChar mark = false

/-- A name ends at blanks and a mark that can stand in no name. -/
lemma EndsName.of_blanks {gap : Text} {mark : Char} (hgap : ∀ c ∈ gap, isBlank c = true)
    (hvisible : isBlank mark = false) (houtside : isNameChar mark = false) : EndsName gap mark :=
  ⟨hgap, hvisible, fun _ => houtside⟩

section EndedName

variable {name gap : Text} {mark : Char}

/-- A name is read up to the blanks and the mark that end it. -/
lemma name?_endsName (hname : ProperName name) (hmark : EndsName gap mark) (rest : Text) :
    name? (name ++ (gap ++ mark :: rest)) = some (name, gap ++ mark :: rest) := by
  refine name?_eq_some_iff.mpr ⟨hname, rfl, ?_⟩
  intro c r hcons
  cases gap with
  | nil =>
    rw [← (List.cons.inj hcons).1]
    exact hmark.outside rfl
  | cons b gap =>
    rw [← (List.cons.inj hcons).1]
    exact isNameChar_of_isBlank (hmark.blank b List.mem_cons_self)

/-- The blanks behind a name are passed over, up to the mark. -/
lemma skipBlanks_endsName (hmark : EndsName gap mark) (rest : Text) :
    skipBlanks (gap ++ mark :: rest) = mark :: rest :=
  (skipBlanks_eq_cons_iff hmark.visible).mpr ⟨gap, hmark.blank, rfl⟩

/-- A name with something visible behind it is more than a name. -/
lemma soleName?_endsName (hname : ProperName name) (hmark : EndsName gap mark) (rest : Text) :
    soleName? (name ++ (gap ++ mark :: rest)) = none := by
  have hbreak : mark ≠ '\n' := by
    rintro rfl
    exact absurd hmark.visible (by decide)
  have hend : atEnd (gap ++ mark :: rest) = false := by
    rw [atEnd, Bool.or_eq_false_iff, beq_eq_false_iff_ne, beq_eq_false_iff_ne]
    refine ⟨by simp, ?_⟩
    intro h
    have hmem : mark ∈ ['\n'] := h ▸ List.mem_append_right gap List.mem_cons_self
    exact hbreak (List.mem_singleton.mp hmem)
  rw [soleName?, name?_endsName hname hmark]
  simp only [hend]
  rfl

/-- A header whose name is not followed by a colon has no key and value. -/
lemma keyValue?_endsName (hname : ProperName name) (hmark : EndsName gap mark) (hne : mark ≠ ':')
    (rest : Text) : keyValue? (name ++ (gap ++ mark :: rest)) = none := by
  rw [keyValue?, name?_endsName hname hmark]
  simp only [skipBlanks_endsName hmark]
  split
  · next heq => exact absurd (List.cons.inj heq).1 hne
  · rfl

/-- A text that begins with a name is no spread. -/
lemma spreadName?_properName (hname : ProperName name) (rest : Text) :
    spreadName? (name ++ rest) = none := by
  apply spreadName?_eq_none
  intro h
  rw [List.head?_append_of_ne_nil _ hname.ne_nil] at h
  exact hname.not_mem (c := '.') (by decide) (List.mem_of_head? h)

end EndedName

/-! ## A key and a value -/

/-- A name ends at a colon, with blanks ahead of it. -/
lemma endsName_colon {gap : Text} (hgap : ∀ c ∈ gap, isBlank c = true) : EndsName gap ':' :=
  EndsName.of_blanks hgap (by decide) (by decide)

/-- How a key with a value is written. -/
lemma keyValue?_eq_some_iff {key value : Text} : keyValue? t = some (key, value) ↔
    ∃ gap c cs, ProperName key ∧ (∀ x ∈ gap, isBlank x = true) ∧ t = key ++ (gap ++ ':' :: c :: cs)
      ∧ value = trim (c :: cs) := by
  constructor
  · intro h
    unfold keyValue? at h
    split at h
    · next name rest hname =>
      obtain ⟨hproper, rfl, -⟩ := name?_eq_some_iff.mp hname
      split at h
      · next c cs hskip =>
        obtain ⟨gap, hgap, rfl⟩ := (skipBlanks_eq_cons_iff (by decide)).mp hskip
        obtain ⟨rfl, rfl⟩ := Prod.mk.inj (Option.some.inj h)
        exact ⟨gap, c, cs, hproper, hgap, rfl, rfl⟩
      · exact absurd h (by simp)
    · exact absurd h (by simp)
  · rintro ⟨gap, c, cs, hproper, hgap, rfl, rfl⟩
    unfold keyValue?
    simp only [name?_endsName hproper (endsName_colon hgap),
      skipBlanks_endsName (endsName_colon hgap)]

/-- A value with a bracket in it is neither a name nor a property. -/
lemma Member.ofKeyValue_of_isOpener {key value : Text} {c : Char} (hkey : ProperName key)
    (hc : isOpener c = true) (hmem : c ∈ value) :
    Member.ofKeyValue key value = .assignment key value := by
  obtain ⟨houtside, hvisible, -⟩ := isNameChar_of_isOpener hc
  have hne : value ≠ key := fun h => hkey.not_mem houtside (h ▸ hmem)
  have hname : isName value ≠ true := by
    intro h
    rcases isName_iff.mp h with hproper | ⟨n, hproper, rfl⟩
    · exact hproper.not_mem houtside hmem
    · rcases List.mem_append.mp hmem with hmem | hmem
      · exact hproper.not_mem houtside hmem
      · obtain rfl := List.mem_singleton.mp hmem
        exact absurd hvisible (by decide)
  rw [Member.ofKeyValue, if_neg (by simpa using hne), if_neg hname]

/-- **A key keeps its place**: a text that opens a value of brackets is an assignment to its key,
whatever follows. -/
lemma parse_of_keyValue? {key value : Text} (h : keyValue? t = some (key, value)) {c : Char}
    (hc : isOpener c = true) (hmem : c ∈ t) (w : Text) :
    ∃ value', Member.parse (t ++ w) = .ok (.assignment key value') := by
  obtain ⟨gap, x, xs, hkey, hgap, rfl, -⟩ := keyValue?_eq_some_iff.mp h
  obtain ⟨houtside, hvisible, hcolon⟩ := isNameChar_of_isOpener hc
  -- The bracket stands behind the colon.
  have hvalue : c ∈ x :: (xs ++ w) := by
    rcases List.mem_append.mp hmem with hmem | hmem
    · exact absurd hmem (hkey.not_mem houtside)
    · rcases List.mem_append.mp hmem with hmem | hmem
      · exact absurd (hgap c hmem) (by simp [hvisible])
      · rcases List.mem_cons.mp hmem with hmem | hmem
        · exact absurd hmem hcolon
        · rw [← List.cons_append]
          exact List.mem_append_left w hmem
  have happend : key ++ (gap ++ ':' :: x :: xs) ++ w = key ++ (gap ++ ':' :: x :: (xs ++ w)) := by
    simp only [List.append_assoc, List.cons_append]
  have hread := keyValue?_eq_some_iff.mpr ⟨gap, x, xs ++ w, hkey, hgap, happend, rfl⟩
  refine ⟨trim (x :: (xs ++ w)), ?_⟩
  have hspread : spreadName? (key ++ (gap ++ ':' :: x :: xs) ++ w) = none :=
    happend ▸ spreadName?_properName hkey _
  have hsole : soleName? (key ++ (gap ++ ':' :: x :: xs) ++ w) = none :=
    happend ▸ soleName?_endsName hkey (endsName_colon hgap) _
  rw [Member.parse, hspread, hsole, hread]
  exact congrArg Except.ok (Member.ofKeyValue_of_isOpener hkey hc (mem_trim hvisible hvalue))

/-! ## Brackets -/

namespace Source

/-- A bracket that closes before the end closes at the same place in a longer text. -/
lemma closingIn_codeChars_append {m : Mode} {awaited : List Char} {offset i : Nat} {u : Text}
    (h : closingIn awaited (codeChars m offset u) = some i) (hbehind : i + 1 < offset + u.length)
    (w : Text) : closingIn awaited (codeChars m offset (u ++ w)) = some i := by
  induction u generalizing m awaited offset with
  | nil => exact absurd h (by simp [codeChars, closingIn])
  | cons c u ih =>
    have hne : u ≠ [] := by
      rintro rfl
      obtain ⟨x, hx⟩ := closingIn_mem h
      have := codeChars_bounds _ hx
      simp only [List.length_singleton] at this hbehind
      omega
    rw [List.length_cons] at hbehind
    have hrest : ∀ {m : Mode} {ks : List Char}, closingIn ks (codeChars m (offset + 1) u) = some i →
        closingIn ks (codeChars m (offset + 1) (u ++ w)) = some i :=
      fun hks => ih hks (by omega)
    rw [codeChars] at h
    rw [List.cons_append, codeChars, List.head?_append_of_ne_nil _ hne]
    split at h
    · -- A character of code either decides the place or leaves it to the rest.
      unfold closingIn at h ⊢
      split at h
      · exact hrest h
      · split_ifs at h ⊢ with hcloser
        · split at h
          · exact absurd h (by simp)
          · split_ifs at h ⊢ with hkind hlast
            · exact h
            · exact hrest h
        · exact hrest h
    · exact hrest h

/-- A bracket that is closed in a text is closed there whatever follows. -/
lemma closing?_append {u : Text} {close : Nat} (h : closing? u 0 = some close)
    (hbehind : close + 1 < u.length) (w : Text) : closing? (u ++ w) 0 = some close :=
  closingIn_codeChars_append h (by rwa [List.drop_zero, Nat.zero_add]) w

end Source

/-! ## Methods -/

/-- A name ends at a parenthesis, with blanks ahead of it. -/
lemma endsName_round {gap : Text} (hgap : ∀ c ∈ gap, isBlank c = true) : EndsName gap '(' :=
  EndsName.of_blanks hgap (by decide) (by decide)

/-- The star of a generator with white space behind it, or nothing. -/
def StarFront (isGenerator : Bool) (front : Text) : Prop :=
  if isGenerator then ∃ gap, (∀ c ∈ gap, isBlank c = true) ∧ front = '*' :: gap else front = []

/-- A method begins with its star or its name, not with a colon. -/
lemma StarFront.exists_cons {isGenerator : Bool} {front name : Text}
    (h : StarFront isGenerator front) (hname : ProperName name) (rest : Text) :
    ∃ c cs, front ++ (name ++ rest) = c :: cs ∧ c ≠ ':' := by
  cases isGenerator with
  | true =>
    obtain ⟨gap, -, rfl⟩ := h
    exact ⟨'*', _, rfl, by decide⟩
  | false =>
    obtain rfl : front = [] := h
    obtain ⟨c, cs, rfl, -⟩ := hname.firm.first
    refine ⟨c, cs ++ rest, rfl, ?_⟩
    rintro rfl
    exact hname.not_mem (by decide) List.mem_cons_self

/-- What a method head is read as depends on its name and what follows the name. -/
lemma plainHead?_starFront {isGenerator : Bool} {front name : Text}
    (h : StarFront isGenerator front) (hname : ProperName name) (isAsync : Bool) (rest : Text) :
    plainHead? isAsync (front ++ (name ++ rest)) =
      match name? (name ++ rest) with
      | some (name, rest) =>
        match skipBlanks rest with
        | '(' :: cs => some ⟨isAsync, isGenerator, name, '(' :: cs⟩
        | _ => none
      | none => none := by
  obtain ⟨c, cs, rfl, hc⟩ := hname.firm.first
  cases isGenerator with
  | true =>
    obtain ⟨blanks, hblanks, rfl⟩ := h
    have hskip : skipBlanks (blanks ++ (c :: cs ++ rest)) = c :: cs ++ rest := by
      rw [skipBlanks_append hblanks, List.cons_append, skipBlanks_cons hc]
    conv_rhs => rw [← hskip]
    rfl
  | false =>
    obtain rfl : front = [] := h
    have hstar : c ≠ '*' := by
      rintro rfl
      exact hname.not_mem (by decide) List.mem_cons_self
    unfold plainHead?
    split
    · next heq =>
      split at heq
      · next hcons => exact absurd (List.cons.inj hcons).1 hstar
      · obtain ⟨rfl, rfl⟩ := Prod.mk.inj heq
        rfl

/-- How the head of a method is written. -/
lemma plainHead?_eq_some_iff {isAsync : Bool} {m : MethodHead} : plainHead? isAsync t = some m ↔
    m.isAsync = isAsync ∧ ProperName m.name ∧ ∃ front gap params, StarFront m.isGenerator front
      ∧ (∀ c ∈ gap, isBlank c = true) ∧ m.fromParams = '(' :: params
      ∧ t = front ++ (m.name ++ (gap ++ '(' :: params)) := by
  constructor
  · intro h
    unfold plainHead? at h
    split at h
    next star u hstar =>
    obtain ⟨front, hfront, hsplit⟩ : ∃ front, StarFront star front ∧ t = front ++ u := by
      split at hstar
      · next cs =>
        obtain ⟨rfl, rfl⟩ := Prod.mk.inj hstar
        refine ⟨'*' :: cs.takeWhile isBlank, ⟨_, fun c hc => List.mem_takeWhile_imp hc, rfl⟩, ?_⟩
        rw [List.cons_append]
        exact congrArg _ List.takeWhile_append_dropWhile.symm
      · obtain ⟨rfl, rfl⟩ := Prod.mk.inj hstar
        exact ⟨[], rfl, rfl⟩
    split at h
    · next name rest hname =>
      obtain ⟨hproper, heq, -⟩ := name?_eq_some_iff.mp hname
      split at h
      · next params hskip =>
        obtain ⟨gap, hgap, rfl⟩ := (skipBlanks_eq_cons_iff (by decide)).mp hskip
        obtain rfl := Option.some.inj h
        exact ⟨rfl, hproper, front, gap, params, hfront, hgap, rfl, heq ▸ hsplit⟩
      · exact absurd h (by simp)
    · exact absurd h (by simp)
  · rintro ⟨rfl, hproper, front, gap, params, hfront, hgap, hparams, rfl⟩
    rw [plainHead?_starFront hfront hproper, name?_endsName hproper (endsName_round hgap)]
    simp only [skipBlanks_endsName (endsName_round hgap)]
    rw [← hparams]

/-- A method keeps its head when its text goes on. -/
lemma plainHead?_append {isAsync : Bool} {m : MethodHead} (h : plainHead? isAsync t = some m)
    (w : Text) : plainHead? isAsync (t ++ w) = some { m with fromParams := m.fromParams ++ w } := by
  obtain ⟨hasync, hproper, front, gap, params, hfront, hgap, hparams, rfl⟩ :=
    plainHead?_eq_some_iff.mp h
  refine plainHead?_eq_some_iff.mpr
    ⟨hasync, hproper, front, gap, params ++ w, hfront, hgap, ?_, ?_⟩
  · rw [hparams, List.cons_append]
  · simp only [List.append_assoc, List.cons_append]

/-- In front of its parameters `async` is the name of a method, not a word before the name. -/
lemma plainHead?_async {m : MethodHead} (h : plainHead? false t = some m) :
    (spacedWord? "async".toList t).bind (plainHead? true) = none := by
  obtain ⟨-, hproper, front, gap, params, hfront, hgap, -, hsplit⟩ := plainHead?_eq_some_iff.mp h
  cases hword : spacedWord? "async".toList t with
  | none => rfl
  | some rest =>
    obtain ⟨blanks, hne, hblanks, hasync, hrest⟩ := spacedWord?_eq_some_iff.mp hword
    -- The text begins with the name, since no star stands before `async`.
    obtain rfl : front = [] := by
      cases hgenerator : m.isGenerator with
      | false =>
        rw [hgenerator] at hfront
        exact hfront
      | true =>
        rw [hgenerator] at hfront
        obtain ⟨starGap, -, rfl⟩ := hfront
        exact absurd (hasync.symm.trans hsplit) (by simp)
    rw [List.nil_append] at hsplit
    have hname := name?_endsName hproper (endsName_round hgap) params
    have hname' : name? ("async".toList ++ (blanks ++ rest))
        = some ("async".toList, blanks ++ rest) := by
      refine name?_eq_some_iff.mpr ⟨⟨'a', "sync".toList, rfl, by decide, by decide⟩, rfl, ?_⟩
      intro c r hcons
      obtain ⟨b, bs, rfl⟩ := List.exists_cons_of_ne_nil hne
      rw [← (List.cons.inj hcons).1]
      exact isNameChar_of_isBlank (hblanks b List.mem_cons_self)
    rw [← hsplit, hasync, hname'] at hname
    have hbehind : blanks ++ rest = gap ++ '(' :: params :=
      (Prod.mk.inj (Option.some.inj hname)).2
    -- Behind the white space stand the parameters, where a name would have to begin.
    have hparams : rest = '(' :: params := by
      have hskip := skipBlanks_endsName (endsName_round hgap) params
      rw [← hbehind, skipBlanks_append hblanks] at hskip
      cases rest with
      | nil => exact absurd hskip (by simp [skipBlanks])
      | cons c r => rwa [skipBlanks_cons (hrest c r rfl)] at hskip
    rw [hparams]
    rfl

/-- **A method keeps its head** when its text goes on. -/
lemma methodHead?_append {m : MethodHead} (h : methodHead? t = some m) (w : Text) :
    methodHead? (t ++ w) = some { m with fromParams := m.fromParams ++ w } := by
  rcases Option.or_eq_some_iff.mp h with h | ⟨-, h⟩
  · obtain ⟨rest, hword, hm⟩ := Option.bind_eq_some_iff.mp h
    obtain ⟨blanks, hne, hblanks, rfl, hrest⟩ := spacedWord?_eq_some_iff.mp hword
    have hnil : rest ≠ [] := by
      rintro rfl
      exact absurd hm (by simp [plainHead?, name?])
    have hword' : spacedWord? "async".toList ("async".toList ++ (blanks ++ rest) ++ w)
        = some (rest ++ w) := by
      refine spacedWord?_eq_some_iff.mpr ⟨blanks, hne,
        hblanks, by simp only [List.append_assoc], ?_⟩
      intro c r hcons
      obtain ⟨x, xs, rfl⟩ := List.exists_cons_of_ne_nil hnil
      rw [← (List.cons.inj hcons).1]
      exact hrest x xs rfl
    rw [methodHead?, hword', Option.bind_some, plainHead?_append hm]
    rfl
  · have happend := plainHead?_append h w
    rw [methodHead?, plainHead?_async happend, happend]
    rfl

/-- A method is no spread object, no name and no key with a value. -/
lemma not_keyValue?_of_methodHead? {m : MethodHead} (h : methodHead? t = some m) :
    spreadName? t = none ∧ soleName? t = none ∧ keyValue? t = none := by
  have hasync : ProperName "async".toList := ⟨'a', "sync".toList, rfl, by decide, by decide⟩
  rcases Option.or_eq_some_iff.mp h with h | ⟨-, h⟩
  · obtain ⟨rest, hword, hm⟩ := Option.bind_eq_some_iff.mp h
    obtain ⟨blanks, hne, hblanks, rfl, hrest⟩ := spacedWord?_eq_some_iff.mp hword
    obtain ⟨-, hproper, front, gap, params, hfront, -, -, rfl⟩ := plainHead?_eq_some_iff.mp hm
    obtain ⟨c, cs, hcons, hcolon⟩ := hfront.exists_cons hproper (gap ++ '(' :: params)
    rw [hcons] at hrest ⊢
    have hends : EndsName blanks c := ⟨hblanks, hrest c cs rfl, fun hnil => absurd hnil hne⟩
    exact ⟨spreadName?_properName hasync _, soleName?_endsName hasync hends cs,
      keyValue?_endsName hasync hends hcolon cs⟩
  · obtain ⟨-, hproper, front, gap, params, hfront, hgap, -, rfl⟩ := plainHead?_eq_some_iff.mp h
    cases hgenerator : m.isGenerator with
    | false =>
      rw [hgenerator] at hfront
      obtain rfl : front = [] := hfront
      rw [List.nil_append]
      exact ⟨spreadName?_properName hproper _,
        soleName?_endsName hproper (endsName_round hgap) params,
        keyValue?_endsName hproper (endsName_round hgap) (by decide) params⟩
    | true =>
      -- No name begins with the star of a generator.
      rw [hgenerator] at hfront
      obtain ⟨starGap, -, rfl⟩ := hfront
      exact ⟨spreadName?_eq_none (by simp), rfl, rfl⟩

/-- A method has its body behind its parameters, however the body goes on. -/
lemma MethodHead.asFunction?_append {m : MethodHead} {value : Text} (h : m.asFunction? = some value)
    (w : Text) : ∃ value',
      ({ m with fromParams := m.fromParams ++ w } : MethodHead).asFunction? = some value' := by
  unfold MethodHead.asFunction? at h
  split at h
  · next close hclose =>
    by_cases hbody : (trimStart (m.fromParams.drop (close + 1))).head? == some '\x7b'
    · obtain ⟨body, hbody⟩ := List.head?_eq_some_iff.mp (beq_iff_eq.mp hbody)
      have hlt : close + 1 < m.fromParams.length := by
        by_contra hge
        rw [List.drop_eq_nil_of_le (by omega)] at hbody
        exact absurd hbody (by simp [trimStart])
      -- White space in front of the body ends before the added text begins.
      obtain ⟨gap, hgap, hdrop⟩ := (skipBlanks_eq_cons_iff (by decide)).mp hbody
      have hbody' : trimStart ((m.fromParams ++ w).drop (close + 1)) = '\x7b' :: (body ++ w) := by
        rw [List.drop_append_of_le_length (by omega), hdrop, List.append_assoc]
        exact (skipBlanks_eq_cons_iff (by decide)).mpr ⟨gap, hgap, rfl⟩
      unfold MethodHead.asFunction?
      simp only [closing?_append hclose hlt w, hbody']
      exact ⟨_, rfl⟩
    · rw [if_neg hbody] at h
      exact absurd h (by simp)
  · exact absurd h (by simp)

/-! ## The header -/

/-- **The first line of a member that goes on gives its key**: with anything behind the header the
member is an assignment to that key. -/
lemma parse_of_openHeader {header key first : Text}
    (h : BlockReader.openHeader header = .ok (key, first)) {c : Char} (hc : isOpener c = true)
    (hmem : c ∈ header) (w : Text) :
    ∃ value, Member.parse (header ++ w) = .ok (.assignment key value) := by
  unfold BlockReader.openHeader at h
  split at h
  · next kv hkv =>
    obtain rfl := Except.ok.inj h
    exact parse_of_keyValue? hkv hc hmem w
  · split at h
    · next m hm =>
      split at h
      · next value hvalue =>
        obtain ⟨rfl, rfl⟩ := Prod.mk.inj (Except.ok.inj h)
        have happend := methodHead?_append hm w
        obtain ⟨hspread, hsole, hkv⟩ := not_keyValue?_of_methodHead? happend
        obtain ⟨value', hvalue'⟩ := MethodHead.asFunction?_append hvalue w
        refine ⟨value', ?_⟩
        unfold Member.parse
        simp only [hspread, hsole, hkv, happend, hvalue']
      · exact absurd h (by simp)
    · exact absurd h (by simp)

end Esmify
