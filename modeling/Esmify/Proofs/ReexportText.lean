import Esmify.Export.Render
import Esmify.Proofs.Infix
import Esmify.Proofs.PassStep

/-!
# Texts that re-export an imported name

What stands in the place of an import statement when its names are exported. **The lines of
`exportFrom` export each of the names that they are made for** (`exposes_exportFrom`). An import
statement whose first word is turned into `export` does so as well, provided that its names stand
between plain braces (`exposes_turned`): the reader of import clauses takes the names between the
first opening and the last closing brace, while an export list ends at the first closing one.
-/

namespace Esmify

open Text Source

/-- An export of a name stands at the start of a line of a piece of text, whatever follows the
piece. -/
def Exposes (name piece : Text) : Prop :=
  ∃ front u rest, piece = front ++ (u ++ rest) ∧ beginsLine front.getLast? = true
    ∧ ∀ c : Text, NamedExport name u (rest ++ c).head?

/-- A piece that exposes a name does so where it begins a line of a text. -/
lemma Exposes.stands {name piece : Text} (h : Exposes name piece) {a : Text}
    (ha : beginsLine a.getLast? = true) (c : Text) :
    Stands beginsLine (ExportText name) (a ++ (piece ++ c)) := by
  obtain ⟨front, u, rest, rfl, hbegins, hu⟩ := h
  exact ⟨a ++ front, u, rest ++ c, by simp only [List.append_assoc],
    beginsLine_append (Or.inr rfl) hbegins ha, .named (hu c)⟩

/-- A piece on a line of its own behind another text exposes what it did. -/
lemma Exposes.line {name piece : Text} (h : Exposes name piece) (a c : Text) :
    Exposes name (a ++ '\n' :: (piece ++ c)) := by
  obtain ⟨front, u, rest, rfl, hbegins, hu⟩ := h
  refine ⟨(a ++ ['\n']) ++ front, u, rest ++ c, ?_, ?_, fun c' => ?_⟩
  · simp only [List.append_assoc, List.cons_append, List.nil_append]
  · exact beginsLine_append (Or.inr rfl) hbegins (by simp [beginsLine])
  · rw [List.append_assoc]
    exact hu (c ++ c')

/-! ## Lists -/

/-- An item of a list stands in the joined text, behind a separator if not first and before one if
not last. -/
lemma exists_of_mem_intercalate (sep : Text) {item : Text} {items : List Text} (h : item ∈ items) :
    ∃ pre post, sep.intercalate items = pre ++ (item ++ post)
      ∧ (pre = [] ∨ ∃ p, pre = p ++ sep) ∧ (post = [] ∨ ∃ p, post = sep ++ p) := by
  induction items with
  | nil => exact absurd h List.not_mem_nil
  | cons first items ih =>
    cases items with
    | nil =>
      obtain rfl := List.mem_singleton.mp h
      exact ⟨[], [], by simp, Or.inl rfl, Or.inl rfl⟩
    | cons second items =>
      rw [List.intercalate_cons_cons, List.append_assoc]
      rcases List.mem_cons.mp h with rfl | h
      · exact ⟨[], _, rfl, Or.inl rfl, Or.inr ⟨_, rfl⟩⟩
      · obtain ⟨pre, post, hinner, hpre, hpost⟩ := ih h
        refine ⟨first ++ (sep ++ pre), post, ?_, Or.inr ?_, hpost⟩
        · rw [hinner]
          simp only [List.append_assoc]
        · rcases hpre with rfl | ⟨p, rfl⟩
          · exact ⟨first, by rw [List.append_nil]⟩
          · exact ⟨first ++ (sep ++ p), by simp only [List.append_assoc]⟩

/-- A text without a given character is joined from texts without it. -/
lemma not_mem_intercalate {sep : Text} {items : List Text} {c : Char} (hsep : c ∉ sep)
    (hitems : ∀ item ∈ items, c ∉ item) : c ∉ sep.intercalate items := by
  induction items with
  | nil => simp
  | cons first items ih =>
    obtain ⟨hfirst, hitems⟩ := List.forall_mem_cons.mp hitems
    cases items with
    | nil => rwa [List.intercalate_singleton]
    | cons second items =>
      rw [List.intercalate_cons_cons, List.mem_append, List.mem_append]
      exact fun h => h.elim (fun h => h.elim hfirst hsep) (ih hitems)

/-! ## Lines that re-export -/

/-- No name of an import has a closing brace in it. -/
def NoBrace (n : ImportedName) : Prop :=
  '\x7d' ∉ n.imported ∧ '\x7d' ∉ n.localName

/-- The item of a name ends with the local name, behind a space if not alone. -/
lemma exportItem?_eq_some {n : ImportedName} {item : Text} (h : exportItem? n = some item)
    (hbrace : NoBrace n) :
    ∃ p, item = p ++ n.localName ∧ '\x7d' ∉ p ∧ (p = [] ∨ p.getLast? = some ' ') := by
  unfold exportItem? at h
  split at h
  · obtain rfl := Option.some.inj h
    exact ⟨"default as ".toList, rfl, by decide, Or.inr (by decide)⟩
  · obtain rfl := Option.some.inj h
    split_ifs with heq
    · exact ⟨[], by rw [List.nil_append]; exact eq_of_beq heq, by decide, Or.inl rfl⟩
    · refine ⟨n.imported ++ " as ".toList, rfl, ?_, Or.inr ?_⟩
      · rw [List.mem_append, not_or]
        exact ⟨hbrace.1, by decide⟩
      · rw [List.getLast?_append_of_ne_nil _ (by decide)]
        decide
  · cases h

/-- A line among others stands at the start of a line of the joined text. -/
lemma exposes_unlines {name line : Text} {ls : List Text} (hline : line ∈ ls)
    (h : Exposes name line) : Exposes name (unlines ls) := by
  obtain ⟨pre, post, hjoin, hpre, -⟩ := exists_of_mem_intercalate ['\n'] hline
  obtain ⟨front, u, rest, rfl, hbegins, hu⟩ := h
  refine ⟨pre ++ front, u, rest ++ post, ?_, ?_, fun c => ?_⟩
  · rw [unlines, hjoin]
    simp only [List.append_assoc]
  · refine beginsLine_append (Or.inr rfl) hbegins ?_
    rcases hpre with rfl | ⟨p, rfl⟩
    · rfl
    · rw [List.getLast?_concat]
      rfl
  · rw [List.append_assoc]
    exact hu (post ++ c)

/-- The line for a module as a whole exposes its local name. -/
lemma exposes_namespaceLine {written line : Text} {n : ImportedName}
    (h : namespaceLine? written n = some line) : Exposes n.localName line := by
  have htext : NamedExport n.localName
      ("export".toList ++ ([' '] ++ '*' :: ([' '] ++ ("as".toList ++ ([' '] ++ n.localName)))))
      (some ' ') := .whole (by decide) (by decide) (by decide) (by decide) (by decide) (by decide)
        (by decide)
  unfold namespaceLine? at h
  split at h
  · obtain rfl := Option.some.inj h
    exact ⟨[], _, " from ".toList ++ written ++ [';'], by simp, rfl, fun _ => htext⟩
  · cases h

/-- A list exposes a name that one of its items ends with. -/
lemma exposes_list {name item p tail : Text} {items : List Text} (hitem : item ∈ items)
    (hp : item = p ++ name) (hlast : p = [] ∨ p.getLast? = some ' ')
    (hbrace : ∀ item ∈ items, '\x7d' ∉ item) :
    Exposes name ("export \x7b ".toList ++ (", ".toList.intercalate items
      ++ (" \x7d".toList ++ tail))) := by
  obtain ⟨pre, post, hjoin, hpre, hpost⟩ := exists_of_mem_intercalate ", ".toList hitem
  have hjoined : '\x7d' ∉ ", ".toList.intercalate items := not_mem_intercalate (by decide) hbrace
  rw [hjoin, hp] at hjoined
  rw [hjoin, hp]
  have hitems : '\x7d' ∉ ' ' :: (pre ++ p) := by
    simp only [List.mem_append, not_or] at hjoined
    simp [hjoined.1, hjoined.2.1.1]
  have hspace : (' ' :: (pre ++ p)).getLast? = some ' ' := by
    rcases hlast with rfl | hlast
    · rcases hpre with rfl | ⟨q, rfl⟩
      · rfl
      · rw [List.append_nil, ← List.cons_append, List.getLast?_append_of_ne_nil _ (by decide)]
        decide
    · have hne : p ≠ [] := by
        rintro rfl
        cases hlast
      rw [← List.cons_append, List.getLast?_append_of_ne_nil _ hne, hlast]
  have hout : outsideName (' ' :: (pre ++ p)).getLast? = true := by
    rw [hspace]
    decide
  have htext : ∀ (ending : Text) (close : Char) (next : Option Char),
      (∀ c ∈ ending, isBlank c = true) → close = ',' ∨ close = '\x7d' → NamedExport name
        ("export".toList ++ ([' '] ++ '\x7b' :: (' ' :: (pre ++ p)
          ++ (name ++ (ending ++ [close])))))
        next := fun _ _ _ hending hclose => .listed (by decide) hitems hout hending hclose
  rcases hpost with rfl | ⟨q, rfl⟩
  · refine ⟨[], _, tail, ?_, rfl, fun _ => htext [' '] '\x7d' _ (by decide) (Or.inr rfl)⟩
    simp
  · refine ⟨[], _, ' ' :: (q ++ (" \x7d".toList ++ tail)), ?_, rfl, fun _ =>
      htext [] ',' _ (by decide) (Or.inl rfl)⟩
    simp

/-- **The lines that re-export names export each of them.** -/
lemma exposes_exportFrom (s : ImportStatement) {names : List ImportedName} {n : ImportedName}
    (hn : n ∈ names) (hbrace : ∀ n ∈ names, NoBrace n) :
    Exposes n.localName (exportFrom s names) := by
  have hitems : ∀ item ∈ names.filterMap exportItem?, '\x7d' ∉ item := by
    intro item hitem
    obtain ⟨m, hm, hsome⟩ := List.mem_filterMap.mp hitem
    obtain ⟨p, rfl, hp, -⟩ := exportItem?_eq_some hsome (hbrace m hm)
    rw [List.mem_append, not_or]
    exact ⟨hp, (hbrace m hm).2⟩
  unfold exportFrom
  dsimp only
  cases hitem : exportItem? n with
  | some item =>
    -- a single name is an item of the list, which is the first line
    have hmem : item ∈ names.filterMap exportItem? := List.mem_filterMap.mpr ⟨n, hn, hitem⟩
    obtain ⟨p, hp, -, hlast⟩ := exportItem?_eq_some hitem (hbrace n hn)
    rw [if_neg (by rw [List.isEmpty_iff]; exact List.ne_nil_of_mem hmem)]
    refine exposes_unlines List.mem_cons_self ?_
    have hword : " \x7d from ".toList = " \x7d".toList ++ " from ".toList := by decide
    rw [hword]
    simpa only [List.append_assoc] using exposes_list hmem hp hlast hitems
  | none =>
    obtain ⟨line, hline⟩ : ∃ line,
        namespaceLine? (specifier [s.quote] s.target) n = some line := by
      unfold exportItem? at hitem
      unfold namespaceLine?
      cases hkind : n.kind <;> simp [hkind] at hitem ⊢
    have hmem : line ∈ names.filterMap (namespaceLine? (specifier [s.quote] s.target)) :=
      List.mem_filterMap.mpr ⟨n, hn, hline⟩
    refine exposes_unlines ?_ (exposes_namespaceLine hline)
    split_ifs
    · exact hmem
    · exact List.mem_cons_of_mem _ hmem

/-! ## Names between braces -/

/-- A part of a text that is split stands in it between two marks or its ends. -/
lemma exists_of_mem_splitOn {mark : Char} {t part : Text} (h : part ∈ t.splitOn mark) :
    ∃ pre post, t = pre ++ (part ++ post) ∧ (pre = [] ∨ ∃ p, pre = p ++ [mark])
      ∧ (post = [] ∨ ∃ p, post = mark :: p) := by
  have hjoin : [mark].intercalate (t.splitOn mark) = t := List.intercalate_splitOn mark
  rw [← hjoin]
  exact exists_of_mem_intercalate [mark] h

/-- A text is cut at its first ` as `, or has none. -/
lemma splitAs_cases (t : Text) :
    splitAs t = (t, []) ∨ ∃ front back, t = front ++ (" as ".toList ++ back)
      ∧ splitAs t = (front, back) := by
  unfold splitAs
  cases h : indexOf? " as ".toList t with
  | none => exact Or.inl rfl
  | some i =>
    obtain ⟨front, back, rfl, rfl⟩ := indexOf?_eq_some h
    refine Or.inr ⟨front, back, rfl, ?_⟩
    have hdrop : (front ++ (" as ".toList ++ back)).drop (front.length + 4) = back := by
      rw [← List.append_assoc]
      exact List.drop_left' (by simp)
    simp only [List.take_left, hdrop]

/-- What follows ` as ` in a part that was trimmed is not blank. -/
lemma trim_ne_nil_of_as {part front back : Text}
    (h : trim part = front ++ (" as ".toList ++ back)) :
    trim back ≠ [] := by
  intro hempty
  obtain ⟨-, -, -, -, -, -, hlast⟩ := trim_split part
  obtain ⟨v₁, v₂, hv₁, hv₂, hback, -, -⟩ := trim_split back
  have hblank : ∀ c ∈ ' ' :: back, isBlank c = true := by
    rw [hback, hempty, List.nil_append, List.forall_mem_cons, List.forall_mem_append]
    exact ⟨by decide, hv₁, hv₂⟩
  have hend : (trim part).getLast? = (' ' :: back).getLast? := by
    have hcut : front ++ (" as ".toList ++ back) = (front ++ " as".toList) ++ ' ' :: back := by simp
    rw [h, hcut, List.getLast?_append_of_ne_nil _ (List.cons_ne_nil _ _)]
  rw [List.getLast?_eq_some_getLast (List.cons_ne_nil _ _)] at hend
  exact absurd (hblank _ (List.getLast_mem (List.cons_ne_nil _ _))) (by simp [hlast _ hend])

/-- A name between braces is what its part ends with, white space aside; what stands before the name
in its part is empty or ends with white space. -/
lemma innerName?_eq_some {part : Text} {n : ImportedName} (h : innerName? part = some n) :
    ∃ a b, part = a ++ (n.localName ++ b) ∧ (∀ c ∈ b, isBlank c = true)
      ∧ ∀ c, a.getLast? = some c → isBlank c = true := by
  obtain ⟨w₁, w₂, hw₁, hw₂, hpart, -, -⟩ := trim_split part
  unfold innerName? at h
  rcases splitAs_cases (trim part) with hnone | ⟨front, back, hsplit, hsome⟩
  · -- the part is the name
    have hnil : trim ([] : Text) = [] := rfl
    simp only [hnone, hnil, List.isEmpty_nil, if_true] at h
    split_ifs at h
    obtain rfl := Option.some.inj h
    obtain ⟨v₁, v₂, hv₁, hv₂, htrim, -, -⟩ := trim_split (trim part)
    refine ⟨w₁ ++ v₁, v₂ ++ w₂, ?_, List.forall_mem_append.mpr ⟨hv₂, hw₂⟩, fun c hc =>
      List.forall_mem_append.mpr ⟨hw₁, hv₁⟩ c (List.mem_of_getLast? hc)⟩
    calc part = w₁ ++ (trim part ++ w₂) := hpart
      _ = w₁ ++ ((v₁ ++ (trim (trim part) ++ v₂)) ++ w₂) := by rw [← htrim]
      _ = _ := by simp only [List.append_assoc]
  · -- the name follows the word `as`
    have hne : (trim back).isEmpty = false := by
      rw [← Bool.not_eq_true, List.isEmpty_iff]
      exact trim_ne_nil_of_as hsplit
    simp only [hsome, hne, Bool.false_eq_true, if_false] at h
    split_ifs at h
    obtain rfl := Option.some.inj h
    obtain ⟨v₁, v₂, hv₁, hv₂, htrim, -, -⟩ := trim_split back
    refine ⟨(w₁ ++ (front ++ " as".toList)) ++ ' ' :: v₁, v₂ ++ w₂, ?_,
      List.forall_mem_append.mpr ⟨hv₂, hw₂⟩, fun c hc => ?_⟩
    · calc part = w₁ ++ (trim part ++ w₂) := hpart
        _ = w₁ ++ ((front ++ (" as ".toList ++ (v₁ ++ (trim back ++ v₂)))) ++ w₂) := by
          rw [← htrim, ← hsplit]
        _ = _ := by simp
    · rw [List.getLast?_append_of_ne_nil _ (List.cons_ne_nil _ _)] at hc
      exact List.forall_mem_cons.mpr ⟨by decide, hv₁⟩ c (List.mem_of_getLast? hc)

/-- What stands in a part stands in its name or in what the name stands for, the word `as` and white
space aside. -/
lemma exists_innerName?_of_mem {part : Text} {c : Char} (hc : isBlank c = false)
    (hword : c ∉ " as ".toList) (h : c ∈ part) :
    ∃ n, innerName? part = some n ∧ (c ∈ n.imported ∨ c ∈ n.localName) := by
  have hmem := mem_trim hc h
  unfold innerName?
  rcases splitAs_cases (trim part) with hnone | ⟨front, back, hsplit, hsome⟩
  · have hkey := mem_trim hc hmem
    have hne : (trim (trim part)).isEmpty = false := by
      rw [← Bool.not_eq_true, List.isEmpty_iff]
      exact List.ne_nil_of_mem hkey
    simp only [hnone, hne, Bool.false_eq_true, if_false]
    exact ⟨_, rfl, Or.inl hkey⟩
  · have hkey : (trim front).isEmpty = false := by
      rw [← Bool.not_eq_true, List.isEmpty_iff]
      obtain ⟨-, -, -, -, -, hhead, -⟩ := trim_split part
      rw [hsplit] at hhead
      cases front with
      | nil => exact absurd (hhead ' ' rfl) (by decide)
      | cons x front => exact List.ne_nil_of_mem (mem_trim (hhead x rfl) List.mem_cons_self)
    have hlocal : (trim back).isEmpty = false := by
      rw [← Bool.not_eq_true, List.isEmpty_iff]
      exact trim_ne_nil_of_as hsplit
    simp only [hsome, hkey, hlocal, Bool.false_eq_true, if_false]
    refine ⟨_, rfl, ?_⟩
    rw [hsplit, List.mem_append, List.mem_append] at hmem
    rcases hmem with hmem | hmem | hmem
    · exact Or.inl (mem_trim hc hmem)
    · exact absurd hmem hword
    · exact Or.inr (mem_trim hc hmem)

/-- The names of an import statement are those between plain braces, as far as it has braces and no
other names, and none has a closing brace in it. -/
def ImportStatement.PlainBraces (s : ImportStatement) : Prop :=
  (∀ n ∈ s.names, NoBrace n) ∧
    (s.clause.braced = true → (∀ n ∈ s.names, n.kind = .byName) →
      ∃ gap inner rest, (∀ c ∈ gap, isBlank c = true)
        ∧ s.raw = "import".toList ++ (gap ++ '\x7b' :: (inner ++ '\x7d' :: rest))
        ∧ s.names = (inner.splitOn ',').filterMap innerName?)

/-- **An import statement that is turned into an export exposes its names.** -/
lemma exposes_turned {s : ImportStatement} (hplain : s.PlainBraces)
    (hbraced : s.clause.braced = true) (hkind : ∀ n ∈ s.names, n.kind = .byName) {n : ImportedName}
    (hn : n ∈ s.names) :
    Exposes n.localName ("export".toList ++ s.raw.drop "import".length) := by
  obtain ⟨gap, inner, rest, hgap, hraw, hnames⟩ := hplain.2 hbraced hkind
  have hinner : '\x7d' ∉ inner := by
    have hjoin : [','].intercalate (inner.splitOn ',') = inner := List.intercalate_splitOn ','
    rw [← hjoin]
    refine not_mem_intercalate (by decide) fun part hpart hmem => ?_
    obtain ⟨m, hm, hcases⟩ := exists_innerName?_of_mem (by decide) (by decide) hmem
    have hmem' : m ∈ s.names := by
      rw [hnames]
      exact List.mem_filterMap.mpr ⟨part, hpart, hm⟩
    exact hcases.elim (hplain.1 m hmem').1 (hplain.1 m hmem').2
  rw [hnames] at hn
  obtain ⟨part, hpart, hname⟩ := List.mem_filterMap.mp hn
  obtain ⟨pre, post, rfl, hpre, hpost⟩ := exists_of_mem_splitOn hpart
  obtain ⟨a, b, rfl, hb, ha⟩ := innerName?_eq_some hname
  have hitems : '\x7d' ∉ pre ++ a := by
    simp only [List.mem_append, not_or] at hinner ⊢
    exact ⟨hinner.1, hinner.2.1.1⟩
  have hout : outsideName (pre ++ a).getLast? = true := by
    by_cases hne : a = []
    · rw [hne, List.append_nil]
      rcases hpre with rfl | ⟨p, rfl⟩
      · rfl
      · rw [List.getLast?_concat]
        decide
    · rw [List.getLast?_append_of_ne_nil _ hne, List.getLast?_eq_some_getLast hne]
      have hblank := ha _ (List.getLast?_eq_some_getLast hne)
      simp only [outsideName, isNameChar_of_isBlank hblank, Bool.not_false]
  have htext : ∀ (close : Char) (next : Option Char), close = ',' ∨ close = '\x7d' →
      NamedExport n.localName ("export".toList
        ++ (gap ++ '\x7b' :: (pre ++ a ++ (n.localName ++ (b ++ [close]))))) next :=
    fun _ _ hclose => .listed hgap hitems hout hb hclose
  have hdrop : ∀ t : Text, ("import".toList ++ t).drop "import".length = t :=
    fun _ => List.drop_left' rfl
  rw [hraw, hdrop]
  rcases hpost with rfl | ⟨q, rfl⟩
  · refine ⟨[], _, rest, ?_, rfl, fun _ => htext '\x7d' _ (Or.inr rfl)⟩
    simp
  · refine ⟨[], _, q ++ '\x7d' :: rest, ?_, rfl, fun _ => htext ',' _ (Or.inl rfl)⟩
    simp

end Esmify
