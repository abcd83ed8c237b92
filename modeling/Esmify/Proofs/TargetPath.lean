import Esmify.DefaultIndex
import Esmify.Proofs.ImportAgreement
import Esmify.Proofs.Pruning

/-!
# Modules named without their extension

An import may name a relative module without the extension `.js`. **That does not change which file
is meant** (`candidates_without_extension`): the first file that the shorter name may stand for is
the only one that the longer name stands for, so a module that is known to be a default export is
still known to be one.

The longer name is normalised with the extension, and to the shorter one the extension is added
afterwards. Both give the same path because normalising acts on what stands in front of the last
component and leaves the last component alone, when it is the name of a file (`exists_stem`). -/

namespace Esmify.Path

open Text

/-! ## The last component -/

/-- The last component of a path. -/
def lastComponent (path : Text) : Text :=
  (path.splitOn '/').getLastD []

/-- A component that is the name of a file: it is not empty, and neither the folder itself nor the
one above. -/
def NamesFile (component : Text) : Prop :=
  component ≠ [] ∧ component ≠ ['.'] ∧ component ≠ parent

instance (component : Text) : Decidable (NamesFile component) :=
  inferInstanceAs (Decidable (_ ∧ _ ∧ _))

/-- What can stand in front of a component: nothing, or a text that ends with a slash. -/
def IsFront (front : Text) : Prop :=
  front = [] ∨ ∃ u, front = u ++ ['/']

/-- Fronts one behind the other are a front. -/
lemma IsFront.append {front front' : Text} (h : IsFront front) (h' : IsFront front') :
    IsFront (front ++ front') := by
  rcases h' with rfl | ⟨u, rfl⟩
  · rwa [List.append_nil]
  · exact Or.inr ⟨front ++ u, (List.append_assoc _ _ _).symm⟩

/-- The components of what stands in front do not depend on the last one. -/
lemma IsFront.exists_components {front : Text} (h : IsFront front) :
    ∃ cs : List Text, ∀ last, '/' ∉ last → (front ++ last).splitOn '/' = cs ++ [last] := by
  rcases h with rfl | ⟨u, rfl⟩
  · exact ⟨[], fun last hlast => List.splitOn_eq_singleton hlast⟩
  · refine ⟨u.splitOn '/', fun last hlast => ?_⟩
    rw [List.append_assoc, List.singleton_append, List.splitOn_append_cons_self,
      List.splitOn_eq_singleton hlast]

/-- A path is what stands in front of its last component, and that component. -/
lemma exists_front (path : Text) :
    ∃ front, IsFront front ∧ path = front ++ lastComponent path ∧ '/' ∉ lastComponent path := by
  obtain ⟨cs, last, hsplit⟩ : ∃ cs last, path.splitOn '/' = cs ++ [last] :=
    ⟨_, _, (List.dropLast_append_getLast (List.splitOn_ne_nil '/' path)).symm⟩
  have hlast : lastComponent path = last := by rw [lastComponent, hsplit, List.getLastD_concat]
  have hslash : '/' ∉ last := (splitOn_parts (by rw [hsplit]; simp)).1
  have hjoin : ['/'].intercalate (path.splitOn '/') = path := List.intercalate_splitOn '/'
  rw [hlast]
  by_cases hne : cs = []
  · refine ⟨[], Or.inl rfl, ?_, hslash⟩
    rw [← hjoin, hsplit, hne]
    exact List.intercalate_singleton
  · refine ⟨['/'].intercalate cs ++ ['/'], Or.inr ⟨_, rfl⟩, ?_, hslash⟩
    rw [List.append_assoc, ← hjoin, hsplit, intercalate_append '/' hne (List.cons_ne_nil _ _),
      List.intercalate_singleton, List.singleton_append]

/-! ## Normalising -/

/-- The name of a file is added to the components read so far. -/
lemma addComponent_namesFile {c : Text} (h : NamesFile c) (rooted : Bool) (done : List Text) :
    addComponent rooted done c = c :: done := by
  simp [addComponent, h.1, h.2.1, h.2.2]

/-- The slashes that a path begins with, read off its first three characters. -/
lemma rootOf_cons (c : Char) (path : Text) : rootOf (c :: path) =
    if c = '/' then
      if path.head? = some '/' ∧ path.tail.head? ≠ some '/' then ['/', '/'] else ['/']
    else [] := by
  by_cases hc : c = '/'
  · subst hc
    rcases path with _ | ⟨d, path⟩
    · rfl
    by_cases hd : d = '/'
    · subst hd
      rcases path with _ | ⟨e, path⟩
      · rfl
      by_cases he : e = '/'
      · simp [rootOf, he]
      · simp [rootOf, he]
    · simp [rootOf, hd]
  · simp [rootOf, hc]

/-- What has no slash in it does not change the slashes that a path begins with. -/
lemma rootOf_append (path : Text) {back : Text} (h : '/' ∉ back) :
    rootOf (path ++ back) = rootOf path := by
  have hback : back.head? ≠ some '/' := fun heq => h (List.mem_of_mem_head? heq)
  rcases path with _ | ⟨c, path⟩
  · rcases back with _ | ⟨d, back⟩
    · rfl
    · rw [List.nil_append, rootOf_cons, if_neg (by simpa using hback)]
      rfl
  · rw [List.cons_append, rootOf_cons, rootOf_cons]
    rcases path with _ | ⟨d, _ | ⟨e, path⟩⟩
    · simp [hback]
    · simp [hback]
    · rfl

/-- The root of a path is a front. -/
lemma isFront_rootOf (path : Text) : IsFront (rootOf path) := by
  rcases path with _ | ⟨c, path⟩
  · exact Or.inl rfl
  · rw [rootOf_cons]
    split_ifs
    · exact Or.inr ⟨['/'], rfl⟩
    · exact Or.inr ⟨[], rfl⟩
    · exact Or.inl rfl

/-- Components joined by slashes, the last one apart. -/
lemma intercalate_concat (cs : List Text) (last : Text) :
    ['/'].intercalate (cs ++ [last]) = cs.flatMap (· ++ ['/']) ++ last := by
  induction cs with
  | nil => exact List.intercalate_singleton
  | cons c cs ih =>
    rw [List.cons_append, List.intercalate_cons_of_ne_nil (by simp), ih, List.flatMap_cons]
    simp only [List.append_assoc]

/-- Components with a slash behind each are a front. -/
lemma isFront_flatMap (cs : List Text) : IsFront (cs.flatMap (· ++ ['/'])) := by
  induction cs with
  | nil => exact Or.inl rfl
  | cons c cs ih => exact IsFront.append (Or.inr ⟨c, rfl⟩) ih

/-- **Normalising leaves the name of a file alone**, and what becomes of the text in front of it
does not depend on that name. -/
lemma exists_stem {front : Text} (h : IsFront front) : ∃ stem, IsFront stem
    ∧ ∀ last, '/' ∉ last → NamesFile last → normal (front ++ last) = stem ++ last := by
  obtain ⟨cs, hcs⟩ := h.exists_components
  refine ⟨rootOf front ++ ((cs.foldl (addComponent !(rootOf front).isEmpty) []).reverse.flatMap
    (· ++ ['/'])), (isFront_rootOf front).append (isFront_flatMap _), fun last hlast hname => ?_⟩
  unfold normal
  dsimp only
  rw [rootOf_append front hlast, hcs last hlast, List.foldl_append, List.foldl_cons, List.foldl_nil,
    addComponent_namesFile hname, List.reverse_cons, intercalate_concat,
    ← List.append_assoc, if_neg]
  simp [hname.1]

/-- Whether a path ends with the extension is seen from its last component. -/
lemma endsWithJs_append {front : Text} (h : IsFront front) (last : Text) :
    endsWithJs (front ++ last) = endsWithJs last := by
  unfold endsWithJs
  rw [Bool.eq_iff_iff, List.isSuffixOf_iff_suffix, List.isSuffixOf_iff_suffix]
  refine ⟨fun hsuffix => ?_, fun hsuffix => hsuffix.trans (List.suffix_append front last)⟩
  rcases h with rfl | ⟨u, rfl⟩
  · exact hsuffix
  rcases Nat.lt_or_ge last.length 3 with hlt | hle
  · -- a slash would be one of the characters of the extension
    have hslash : '/' :: last <:+ ".js".toList := by
      refine List.suffix_of_suffix_length_le ⟨u, ?_⟩ hsuffix (Nat.succ_le_of_lt hlt)
      rw [List.append_assoc, List.singleton_append]
    exact absurd (hslash.subset List.mem_cons_self) (by decide)
  · exact List.suffix_of_suffix_length_le hsuffix (List.suffix_append _ last) hle

/-! ## Joining -/

/-- A folder is written as what stands in front of a component. -/
lemma isFront_withSlash (folder : Text) : IsFront (withSlash folder) := by
  unfold withSlash
  split_ifs with hslash
  · rw [Bool.or_eq_true, List.isEmpty_iff, beq_iff_eq] at hslash
    rcases hslash with rfl | hlast
    · exact Or.inl rfl
    · obtain ⟨u, rfl⟩ := List.getLast?_eq_some_iff.mp hlast
      exact Or.inr ⟨u, rfl⟩
  · exact Or.inr ⟨folder, rfl⟩

/-- With the extension behind it the name of a file is the name of a file. -/
lemma NamesFile.append_js {c : Text} (h : NamesFile c) : NamesFile (c ++ ".js".toList) := by
  obtain ⟨d, c, rfl⟩ := List.exists_cons_of_ne_nil h.1
  have hlength : 3 < (d :: c ++ ".js".toList).length := by simp
  refine ⟨by simp, fun heq => ?_, fun heq => ?_⟩
  all_goals
    rw [heq] at hlength
    exact absurd hlength (by decide)

/-- **What a module may stand for, with the extension and without it.** The name is put behind the
folder of the file that requires it, and both become the same path. -/
lemma exists_candidates (here consumer : Text) {target : Text} (hrelative : target.head? = some '.')
    (hname : NamesFile (lastComponent target))
    (hplain : endsWithJs (lastComponent target) = false) :
    ∃ path, candidates here consumer target = [path ++ ".js".toList, join path "index.js".toList]
      ∧ candidates here consumer (target ++ ".js".toList) = [path ++ ".js".toList] := by
  obtain ⟨front, hfront, htarget, hslash⟩ := exists_front target
  have hfolder := (isFront_withSlash (folderOf (absolute here consumer))).append hfront
  obtain ⟨stem, hstem, hnormal⟩ := exists_stem hfolder
  have hshort : normal (join (folderOf (absolute here consumer)) target)
      = stem ++ lastComponent target := by
    rw [join_relative _ (by rw [hrelative]; decide), ← hnormal _ hslash hname,
      List.append_assoc, ← htarget]
  have hlong : normal (join (folderOf (absolute here consumer)) (target ++ ".js".toList)) =
      stem ++ lastComponent target ++ ".js".toList := by
    have hhead : (target ++ ".js".toList).head? ≠ some '/' := by
      rw [List.head?_append, hrelative]
      decide
    rw [join_relative _ hhead, List.append_assoc, ← hnormal _ (by simp [hslash]) hname.append_js,
      List.append_assoc, ← List.append_assoc front, ← htarget]
  refine ⟨stem ++ lastComponent target, ?_, ?_⟩
  · unfold candidates
    rw [hshort]
    dsimp only
    rw [endsWithJs_append hstem, hplain]
    rfl
  · have hjs : endsWithJs (stem ++ lastComponent target ++ ".js".toList) = true :=
      List.isSuffixOf_iff_suffix.mpr (List.suffix_append _ _)
    unfold candidates
    rw [hlong]
    exact if_pos hjs

end Esmify.Path

namespace Esmify

open Esmify.Path

/-- **Dropping the extension does not change which file is meant.** For a relative module whose last
component is the name of a file, the first file that it may stand for without the extension is the
only one that it stands for with it. So what is a default import with the extension is one without
it, and is one as it is written. -/
theorem candidates_without_extension {target : Text}
    (hrelative : (target ++ ".js".toList).head? = some '.')
    (hname : NamesFile (lastComponent target)) (hplain : endsWithJs (lastComponent target) = false)
    (consumer : Text) :
    (∀ here, ∃ file, (candidates here consumer target).head? = some file
        ∧ candidates here consumer (target ++ ".js".toList) = [file])
      ∧ ∀ index : DefaultIndex, index.isDefaultImport consumer (target ++ ".js".toList) = true →
        index.isDefaultImport consumer target = true
          ∧ ∀ config, index.isDefaultImport consumer (writtenTarget config (target ++ ".js".toList))
            = true := by
  have hhead : target.head? = some '.' := by
    cases target with
    | nil => exact absurd rfl hname.1
    | cons c cs => exact hrelative
  refine ⟨fun here => ?_, fun index hdefault => ?_⟩
  · obtain ⟨path, hshort, hlong⟩ := exists_candidates here consumer hhead hname hplain
    exact ⟨path ++ ".js".toList, by rw [hshort]; rfl, hlong⟩
  · obtain ⟨path, hshort, hlong⟩ := exists_candidates index.here consumer hhead hname hplain
    have hfound : index.isDefaultImport consumer target = true := by
      unfold DefaultIndex.isDefaultImport at hdefault ⊢
      rw [hlong, Bool.and_eq_true, List.any_cons, List.any_nil, Bool.or_false] at hdefault
      rw [hshort, hhead, List.any_cons, hdefault.2]
      rfl
    refine ⟨hfound, fun config => ?_⟩
    rcases writtenTarget_eq config (target ++ ".js".toList) with hsame | hstripped
    · rw [hsame]
      exact hdefault
    · rw [← List.append_cancel_right hstripped]
      exact hfound

/-- Steps to the folder above, repeated slashes and single dots in front of the name make no
difference. -/
theorem candidates_without_extension_above :
    (∃ file, (candidates "/".toList "app/main.js".toList "./..//x/../lib/./util".toList).head?
      = some file
        ∧ candidates "/".toList "app/main.js".toList "./..//x/../lib/./util.js".toList = [file])
      ∧ DefaultIndex.isDefaultImport ⟨"/".toList, ["/lib/util.js".toList]⟩ "app/main.js".toList
        "./..//x/../lib/./util".toList = true := by
  have hdefault : DefaultIndex.isDefaultImport ⟨"/".toList,
      ["/lib/util.js".toList]⟩ "app/main.js".toList
      ("./..//x/../lib/./util".toList ++ ".js".toList) = true := by decide
  have hrelative : ("./..//x/../lib/./util".toList ++ ".js".toList).head? = some '.' := by decide
  obtain ⟨hfile, hindex⟩ := candidates_without_extension hrelative (by decide) (by decide)
    "app/main.js".toList
  exact ⟨hfile "/".toList, (hindex _ hdefault).1⟩

end Esmify
