import Esmify.Proofs.ExportOnly

/-!
# Replacing uses as one deletion

The uses of exported names are replaced name after name, each time in the text that the last name
left. **What comes out is the text with the words in front of the used names deleted, all at once**
(`replaceUsages_eq_withoutWords`): a character goes when it belongs to the `exports.` or
`module.exports.` of a use in the text as it was, and all others stay. So the order of the names
does not matter, nor does it matter how often each of them is listed, and a second run changes
nothing.

What is deleted is said on offsets alone (`WordAt`). A use in this sense is a piece of the text cut
at the uses of the names (`wordAt_iff`), and an offset lies in one piece only (`piece_unique`). -/

namespace Esmify

open Text Source

/-! ## Words in front of used names -/

/-- What stands in front of a name that is used through the exports. -/
def useWords : List Text :=
  ["exports.".toList, "module.exports.".toList]

/-- **A name is used at an offset**: there stands one of the words with the name behind it, what is
in front of it is neither part of a name nor a dot, and no name goes on behind it. -/
def UseAt (t name word : Text) (i : Nat) : Prop :=
  standsAt (word ++ name) t i = true ∧ beginsName (t.take i).getLast? = true
    ∧ outsideName t[i + (word ++ name).length]? = true

instance (t name word : Text) (i : Nat) : Decidable (UseAt t name word i) :=
  inferInstanceAs (Decidable (_ ∧ _ ∧ _))

/-- The character at an offset belongs to the word in front of one of the names. -/
def WordAt (names : List Text) (t : Text) (k : Nat) : Prop :=
  ∃ name ∈ names, ∃ word ∈ useWords, ∃ i ∈ List.range (k + 1), UseAt t name word i
    ∧ k < i + word.length

instance (names : List Text) (t : Text) (k : Nat) : Decidable (WordAt names t k) :=
  inferInstanceAs (Decidable (∃ name ∈ names, _))

/-- What is left of a part that stands at an offset of a text. -/
def keptPart (names : List Text) (t : Text) (offset : Nat) (part : Text) : Text :=
  ((part.zipIdx offset).filter fun p => ¬ WordAt names t p.2).map Prod.fst

/-- **The text without the words in front of the names that are used.** -/
def withoutWords (names : List Text) (t : Text) : Text :=
  keptPart names t 0 t

/-- A use is one of the words in front of the name. -/
lemma useText_iff {name w : Text} : UseText name w ↔ ∃ word ∈ useWords, w = word ++ name := by
  simp [UseText, useWords]

/-- A use is read where a name is used. -/
lemma exists_of_useAt {t name word : Text} {i : Nat} (hword : word ∈ useWords)
    (h : UseAt t name word i) :
    ∃ front rest, t = front ++ (word ++ name ++ rest) ∧ front.length = i
      ∧ exportsUse name front.getLast? (word ++ name ++ rest) = some ((), rest) := by
  obtain ⟨hstands, hbegins, hout⟩ := h
  obtain ⟨hle, hpart⟩ := Bool.and_eq_true_iff.mp hstands
  rw [decide_eq_true_iff] at hle
  obtain ⟨rest, hrest⟩ := List.isPrefixOf_iff_prefix.mp hpart
  have hsplit : t = t.take i ++ (word ++ name ++ rest) := by rw [hrest, List.take_append_drop]
  have hlength : (t.take i).length = i := List.length_take_of_le hle
  refine ⟨t.take i, rest, hsplit, hlength, exportsUse_eq_some_iff.mpr ⟨hbegins, ?_, _, ?_, rfl⟩⟩
  · rw [hsplit, List.getElem?_append_right (by omega), hlength, Nat.add_sub_cancel_left,
      List.getElem?_append_right le_rfl, Nat.sub_self, ← List.head?_eq_getElem?] at hout
    exact hout
  · exact useText_iff.mpr ⟨word, hword, rfl⟩

/-- A word and a name with nothing around them that runs on are a use. -/
lemma useAt_append {front name word rest : Text} (hbegins : beginsName front.getLast? = true)
    (hout : outsideName rest.head? = true) :
    UseAt (front ++ (word ++ name ++ rest)) name word front.length := by
  refine ⟨standsAt_append front (word ++ name) rest, by rwa [List.take_left], ?_⟩
  rw [List.getElem?_append_right (by omega), Nat.add_sub_cancel_left,
    List.getElem?_append_right le_rfl, Nat.sub_self, ← List.head?_eq_getElem?]
  exact hout

/-! ## Offsets and pieces -/

/-- **An offset lies in one piece only.** -/
lemma piece_unique {α : Type} {ahead behind ahead' behind' : List (Piece α)} {a b : Piece α}
    {k : Nat} (h : ahead ++ a :: behind = ahead' ++ b :: behind') (hle : (joined ahead).length ≤ k)
    (hlt : k < (joined ahead).length + a.text.length) (hle' : (joined ahead').length ≤ k)
    (hlt' : k < (joined ahead').length + b.text.length) : ahead = ahead' ∧ a = b := by
  rcases List.append_eq_append_iff.mp h with ⟨between, rfl, hrest⟩ | ⟨between, rfl, hrest⟩
  · cases between with
    | nil => exact ⟨(List.append_nil ahead).symm, (List.cons.inj hrest).1⟩
    | cons piece between =>
      obtain ⟨rfl, -⟩ := List.cons.inj hrest
      rw [joined_append, joined, List.length_append, List.length_append] at hle'
      omega
  · cases between with
    | nil => exact ⟨List.append_nil ahead', (List.cons.inj hrest).1.symm⟩
    | cons piece between =>
      obtain ⟨rfl, -⟩ := List.cons.inj hrest
      rw [joined_append, joined, List.length_append, List.length_append] at hle
      omega

section
variable {names : List Text} {pieces : List (Piece Text)}

/-- A piece that was found is a word with one of the names behind it. -/
lemma found_of_scan (hnames : ∀ name ∈ names, ProperName name) {ahead behind : List (Piece Text)}
    {m value : Text} (h : Scan (usesOf names) none (ahead ++ .found m value :: behind)) :
    ∃ word ∈ useWords, value ∈ names ∧ m = word ++ value ∧ beginsName (joined ahead).getLast? = true
      ∧ outsideName (joined behind).head? = true := by
  have hscan := h.behind
  rw [Option.or_none] at hscan
  cases hscan with
  | found hmatch _ =>
    obtain ⟨hmem, hbegins, hm, hout⟩ := (usesOf_append_iff hnames).mp hmatch
    obtain ⟨word, hword, hsplit⟩ := useText_iff.mp hm
    exact ⟨word, hword, hmem, hsplit, hbegins, hout⟩

/-- **The words in front of used names are those of the pieces.** -/
lemma wordAt_iff (hnames : ∀ name ∈ names, ProperName name) (h : Scan (usesOf names) none pieces)
    {k : Nat} : WordAt names (joined pieces) k ↔ ∃ ahead word value behind, word ∈ useWords
      ∧ pieces = ahead ++ .found (word ++ value) value :: behind
      ∧ (joined ahead).length ≤ k ∧ k < (joined ahead).length + word.length := by
  constructor
  · rintro ⟨name, hname, word, hword, i, hi, huse, hk⟩
    rw [List.mem_range] at hi
    obtain ⟨front, rest, hsplit, rfl, hread⟩ := exists_of_useAt hword huse
    rw [← Option.or_none (o := front.getLast?)] at hread
    obtain ⟨ahead, m, behind, hpieces, rfl, hback, hrest⟩ := exists_found_of_scan hnames h hsplit
      ((usesOf_eq_some_iff hnames).mpr ⟨hname, hread⟩)
    rw [hrest] at hback
    rw [← List.append_cancel_right hback] at hpieces
    exact ⟨ahead, word, name, behind, hword, hpieces, by omega, hk⟩
  · rintro ⟨ahead, word, value, behind, hword, rfl, hle, hlt⟩
    obtain ⟨-, -, hmem, -, hbegins, hout⟩ := found_of_scan hnames h
    refine ⟨value, hmem, word, hword, (joined ahead).length, List.mem_range.mpr (by omega), ?_, hlt⟩
    rw [joined_append]
    exact useAt_append hbegins hout

/-! ## What is left -/

/-- What is kept of two texts stands one behind the other. -/
lemma keptPart_append (t : Text) (offset : Nat) (u v : Text) :
    keptPart names t offset (u ++ v) = keptPart names t offset u
      ++ keptPart names t (offset + u.length) v := by
  rw [keptPart, List.zipIdx_append, List.filter_append, List.map_append]
  rfl

/-- A part without words stays. -/
lemma keptPart_eq_self {t u : Text} {offset : Nat}
    (h : ∀ k, offset ≤ k → k < offset + u.length → ¬ WordAt names t k) :
    keptPart names t offset u = u := by
  rw [keptPart, List.filter_eq_self.mpr, List.zipIdx_map_fst]
  intro p hp
  exact decide_eq_true (h p.2 (List.le_snd_of_mem_zipIdx hp) (List.snd_lt_add_of_mem_zipIdx hp))

/-- A word goes. -/
lemma keptPart_eq_nil {t u : Text} {offset : Nat}
    (h : ∀ k, offset ≤ k → k < offset + u.length → WordAt names t k) :
    keptPart names t offset u = [] := by
  rw [keptPart, List.filter_eq_nil_iff.mpr, List.map_nil]
  intro p hp hkept
  exact of_decide_eq_true hkept
    (h p.2 (List.le_snd_of_mem_zipIdx hp) (List.snd_lt_add_of_mem_zipIdx hp))

/-- What is left of the pieces of a text are the single characters and the names. -/
lemma keptPart_joined (hnames : ∀ name ∈ names, ProperName name)
    (h : Scan (usesOf names) none pieces) {ahead rest : List (Piece Text)}
    (hsplit : pieces = ahead ++ rest) :
    keptPart names (joined pieces) (joined ahead).length (joined rest)
      = joined (settle names rest) := by
  induction rest generalizing ahead with
  | nil => rfl
  | cons piece rest ih =>
    have hnext := ih (hsplit.trans (List.append_cons ahead piece rest))
    rw [joined_append, List.length_append, joined, joined, List.append_nil] at hnext
    cases piece with
    | plain c =>
      have hkeep : keptPart names (joined pieces) (joined ahead).length [c] = [c] := by
        refine keptPart_eq_self fun k hle hlt hword => ?_
        obtain ⟨ahead', word, value, behind, -, hpieces, hle', hlt'⟩ :=
          (wordAt_iff hnames h).mp hword
        have hlonger : k < (joined ahead').length + (word ++ value).length := by
          rw [List.length_append]
          omega
        obtain ⟨-, hpiece⟩ := piece_unique (hsplit.symm.trans hpieces) hle hlt hle' hlonger
        exact absurd hpiece (by simp)
      rw [joined, keptPart_append, hnext, Piece.text, hkeep, settle, joined, Piece.text]
    | found m value =>
      obtain ⟨word, hword, hmem, rfl, -, -⟩ := found_of_scan hnames (hsplit ▸ h)
      have hdeleted : keptPart names (joined pieces) (joined ahead).length word = [] := by
        refine keptPart_eq_nil fun k hle hlt => (wordAt_iff hnames h).mpr ?_
        exact ⟨ahead, word, value, rest, hword, hsplit, hle, hlt⟩
      have hname : keptPart names (joined pieces) ((joined ahead).length + word.length) value
          = value := by
        refine keptPart_eq_self fun k hle hlt hother => ?_
        obtain ⟨ahead', word', value', behind, -, hpieces, hle', hlt'⟩ :=
          (wordAt_iff hnames h).mp hother
        obtain ⟨rfl, hpiece⟩ := piece_unique (hsplit.symm.trans hpieces) (by omega : _ ≤ k)
          (by rw [Piece.text, List.length_append]; omega) hle'
          (by rw [Piece.text, List.length_append]; omega)
        obtain ⟨htext, rfl⟩ := Piece.found.inj hpiece
        rw [List.append_cancel_right htext] at hle
        omega
      rw [joined, keptPart_append, hnext, Piece.text, keptPart_append, hdeleted, hname,
        settle_of_mem hmem, joined_map_plain, List.nil_append]

/-- Without the words the uses of the names are settled. -/
lemma withoutWords_joined (hnames : ∀ name ∈ names, ProperName name)
    (h : Scan (usesOf names) none pieces) :
    withoutWords names (joined pieces) = joined (settle names pieces) :=
  keptPart_joined hnames h (List.nil_append pieces).symm

end

/-- Names are replaced in any order, and any number of times. -/
lemma foldlM_replaceUse_eq {names order : List Text} (hnames : ∀ name ∈ names, PlainName name)
    (horder : ∀ name, name ∈ order ↔ name ∈ names) (t : Text) :
    order.foldlM replaceUse t = .ok (withoutWords names t) := by
  have hproper : ∀ name ∈ names, ProperName name := fun name hname => (hnames name hname).1
  obtain ⟨pieces, rfl, hscan⟩ := exists_scan (usesOf_consumes names) t none
  have hlisted : ∀ name ∈ order, name ∈ names ∧ PlainName name := by
    intro name hname
    have hmem := (horder name).mp hname
    exact ⟨hmem, hnames name hmem⟩
  rw [foldlM_replaceUse hproper hlisted hscan, withoutWords_joined hproper hscan,
    settle_congr horder]

/-- **Replacing the uses of names is one deletion.** The words in front of the names go wherever one
of them is used in the text, and all else stays. No use of a name is left, the order in which names
are replaced and their repetition make no difference, and a second run changes nothing and reports
nothing. -/
theorem replaceUsages_eq_withoutWords {names : List Text} (hnames : ∀ name ∈ names, PlainName name)
    (t : Text) :
    (replaceUsages t names).run.value = .ok (withoutWords names t)
      ∧ (∀ name ∈ names, ∀ word ∈ useWords, ∀ i, ¬ UseAt (withoutWords names t) name word i)
      ∧ (∀ order : List Text, (∀ name, name ∈ order ↔ name ∈ names) →
        (replaceUsages t order).run.value = .ok (withoutWords names t)
          ∧ order.foldlM replaceUse t = .ok (withoutWords names t))
      ∧ (replaceUsages (withoutWords names t) names).run = ⟨.ok (withoutWords names t), []⟩ := by
  have hany : ∀ order : List Text, (∀ name, name ∈ order ↔ name ∈ names) →
      (replaceUsages t order).run.value = .ok (withoutWords names t) := by
    intro order horder
    rw [replaceUsages, value_run_replaceUses]
    exact foldlM_replaceUse_eq hnames (fun name => mem_usageOrder.trans (horder name)) t
  have hnowhere : ∀ name ∈ names, Nowhere (exportsUse name) (withoutWords names t) :=
    fun name hname => nowhere_of_replaceUses hnames
      (foldlM_replaceUse_eq hnames (fun _ => Iff.rfl) t) hname
  refine ⟨hany names fun _ => Iff.rfl, ?_, ?_, run_replaceUsages hnowhere⟩
  · intro name hname word hword i huse
    obtain ⟨front, rest, hsplit, -, hread⟩ := exists_of_useAt hword huse
    rw [hnowhere name hname front _ hsplit] at hread
    exact absurd hread (by simp)
  · intro order horder
    exact ⟨hany order horder, foldlM_replaceUse_eq hnames horder t⟩

/-- Of two names one begins with the other; a longer name and a member of something else are no
uses. -/
theorem replaceUsages_eq_withoutWords_prefixed :
    let names : List Text := ["a".toList, "ab".toList]
    let t : Text := "exports.ab(module.exports.a,exports.a.b,x.exports.a,exports.abc)".toList
    let t' : Text := "ab(a,a.b,x.exports.a,exports.abc)".toList
    (∀ name ∈ names, PlainName name) ∧ withoutWords names t = t'
      ∧ (replaceUsages t names).run.value = .ok t'
      ∧ ["ab".toList, "a".toList, "ab".toList].foldlM replaceUse t = .ok t'
      ∧ (replaceUsages t' names).run = ⟨.ok t', []⟩ := by
  intro names t t'
  have hnames : ∀ name ∈ names, PlainName name := by
    intro name hname
    rcases List.mem_pair.mp hname with rfl | rfl
    · exact ⟨⟨'a', [], rfl, by decide, by decide⟩, by decide, by decide⟩
    · exact ⟨⟨'a', ['b'], rfl, by decide, by decide⟩, by decide, by decide⟩
  have hdeleted : withoutWords names t = t' := by decide
  obtain ⟨hvalue, -, horder, hagain⟩ := replaceUsages_eq_withoutWords hnames t
  rw [hdeleted] at hvalue horder hagain
  exact ⟨hnames, hdeleted, hvalue, (horder _ (by simp [names, or_comm])).2, hagain⟩

end Esmify
