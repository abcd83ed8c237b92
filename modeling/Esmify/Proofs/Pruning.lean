import Mathlib.Data.List.Basic
import Mathlib.Data.List.Nodup
import Mathlib.Tactic.Lemma
import Esmify.File.Scan
import Esmify.Proofs.Text

/-!
# Pruning and filtering

A scan does not enter the folders that are ignored. **Nothing is lost by that**: the pattern of a
name ends with a star, so that what it fits it fits with anything behind it, and a folder is tested
with its slash. Every file below a folder that is left out would have been left out by its own path
(`isIgnored_append`), and so the walk gives the files of the whole tree, filtered
(`wanted_eq_filter`).

* `Listing.files` — all files of a tree, by their components, ignored or not;
* `Listing.Proper` — the trees that folders are: names without slashes, no two alike in a folder;
* `scan_finds` — what a scan gives is sorted, without repetitions, and holds exactly the files whose
  names have an extension and whose paths are not ignored.
-/

namespace Esmify.Path

open Text

/-! ## Patterns that end with a star -/

/-- A property of endings is found at some ending. -/
lemma ofSomeEnding_iff {p : Text → Bool} {t : Text} :
    ofSomeEnding p t = true ↔ ∃ ending, ending <:+ t ∧ p ending = true := by
  induction t with
  | nil => simp [ofSomeEnding]
  | cons c cs ih =>
    rw [ofSomeEnding, Bool.or_eq_true, ih]
    constructor
    · rintro (h | ⟨ending, hsuffix, h⟩)
      · exact ⟨c :: cs, List.suffix_refl _, h⟩
      · exact ⟨ending, hsuffix.trans (List.suffix_cons c cs), h⟩
    · rintro ⟨ending, hsuffix, h⟩
      rcases List.suffix_cons_iff.mp hsuffix with rfl | hsuffix
      · exact Or.inl h
      · exact Or.inr ⟨ending, hsuffix, h⟩

/-- A star takes everything. -/
lemma accepts_any (t : Text) : Glob.accepts [.any] t = true := by
  rw [Glob.accepts, ofSomeEnding_iff]
  exact ⟨[], List.nil_suffix, rfl⟩

/-- What fits elements with a star at the end fits them with anything behind it. -/
lemma accepts_append {gs : List Glob} {t : Text} (h : Glob.accepts (gs ++ [.any]) t = true)
    (back : Text) : Glob.accepts (gs ++ [.any]) (t ++ back) = true := by
  induction gs generalizing t with
  | nil => exact accepts_any (t ++ back)
  | cons g gs ih =>
    cases g with
    | any =>
      rw [List.cons_append, Glob.accepts, ofSomeEnding_iff] at h ⊢
      obtain ⟨ending, ⟨front, rfl⟩, hending⟩ := h
      exact ⟨ending ++ back, ⟨front, (List.append_assoc _ _ _).symm⟩, ih hending⟩
    | one | exactly | member =>
      cases t with
      | nil => simp [Glob.accepts] at h
      | cons c cs =>
        rw [List.cons_append, Glob.accepts, Bool.and_eq_true] at h
        · rw [List.cons_append, List.cons_append, Glob.accepts, Bool.and_eq_true]
          · exact ⟨h.1, ih h.2⟩
          · simp
        · simp

/-- The closing bracket of a group is the first one of an ending of the text. -/
lemma exists_closed {t u rest : Text} {c : Char} (hu : u <:+ t)
    (h : u.dropWhile (· != ']') = c :: rest) : ∃ front, t = front ++ ']' :: rest := by
  obtain ⟨front, rfl⟩ := hu
  obtain ⟨passed, -, hsplit, hhead⟩ := dropWhile_split (· != ']') u
  obtain rfl : c = ']' := by simpa using hhead c rest h
  rw [h] at hsplit
  exact ⟨front ++ passed, by rw [List.append_assoc, ← hsplit]⟩

/-- A group ends with a closing bracket. -/
lemma group?_split {t inside rest : Text} (h : group? t = some (inside, rest)) :
    ∃ front, t = front ++ ']' :: rest := by
  unfold group? at h
  dsimp only at h
  split at h
  · rename_i c after hdrop
    obtain ⟨-, rfl⟩ := Prod.mk.inj (Option.some.inj h)
    refine exists_closed ?_ hdrop
    -- an exclamation mark and a bracket right behind it are passed over before
    split
    · rename_i after' hmark
      split at hmark
      · subst hmark
        exact ((List.suffix_cons _ _).trans (List.suffix_cons _ _))
      · subst hmark
        exact List.suffix_cons _ _
    · split
      · exact List.suffix_cons _ _
      · exact List.suffix_refl _
  · cases h

/-- A group takes nothing of what follows the last closing bracket. -/
lemma group?_within {t tail inside rest : Text} (htail : ']' ∉ tail)
    (h : group? (t ++ tail) = some (inside, rest)) :
    (t ++ tail).length - rest.length ≤ t.length := by
  obtain ⟨front, hsplit⟩ := group?_split h
  rcases append_eq_append_cons hsplit with ⟨t', -, rfl⟩ | ⟨front', -, rfl⟩
  · simp only [List.length_append]
    omega
  · simp at htail

/-- The pattern of what is below a folder ends with a star, whatever comes before: a group that is
not closed before the slash is not closed at all. -/
lemma parseFrom_stars {skip : Nat} {t : Text} (hskip : skip ≤ t.length) :
    ∃ gs, parseFrom skip (t ++ "/**".toList) = gs ++ [.any] := by
  induction t generalizing skip with
  | nil =>
    obtain rfl : skip = 0 := by simpa using hskip
    exact ⟨[.exactly '/'], rfl⟩
  | cons c cs ih =>
    have hcons : ∀ {skip : Nat} (g : Glob), skip ≤ cs.length →
        ∃ gs, g :: parseFrom skip (cs ++ "/**".toList) = gs ++ [.any] := by
      intro skip g hskip
      obtain ⟨gs, hgs⟩ := ih hskip
      exact ⟨g :: gs, by rw [hgs, List.cons_append]⟩
    cases skip with
    | succ skip =>
      rw [List.cons_append, parseFrom]
      exact ih (Nat.le_of_succ_le_succ hskip)
    | zero =>
      rw [List.cons_append, parseFrom]
      split_ifs
      · exact ih (Nat.zero_le _)
      · exact hcons .any (Nat.zero_le _)
      · exact hcons .one (Nat.zero_le _)
      · cases hgroup : group? (cs ++ "/**".toList) with
        | none => exact hcons (.exactly c) (Nat.zero_le _)
        | some found => exact hcons (ofGroup found.1) (group?_within (by decide) hgroup)
      · exact hcons (.exactly c) (Nat.zero_le _)

/-- What fits the pattern of a name fits it with anything behind it. -/
lemma fitsPattern_append {name path : Text} (h : fitsPattern (patternOf name) path = true)
    (back : Text) : fitsPattern (patternOf name) (path ++ back) = true := by
  obtain ⟨gs, hgs⟩ := parseFrom_stars (Nat.zero_le ("**/".toList ++ name).length)
  unfold fitsPattern Glob.parse patternOf at h ⊢
  rw [hgs] at h ⊢
  exact accepts_append h back

/-! ## Paths below a folder -/

/-- What is below a folder is seen behind the folder: whether there is a dot and a slash at the
front is settled by the time the folder's slash is read. -/
lemma fromRoot_append {folder : Text} (h : folder.getLast? = some '/') (back : Text) :
    ∃ back', fromRoot (folder ++ back) = fromRoot folder ++ back' := by
  match folder with
  | [] => simp at h
  | [c] =>
    obtain rfl : c = '/' := by simpa using h
    exact ⟨_, rfl⟩
  | c :: d :: rest =>
    refine ⟨back.map fun c => if c == '\\' then '/' else c, ?_⟩
    have hroot : "./".toList = ['.', '/'] := rfl
    simp only [fromRoot, hroot, List.cons_append, List.map_cons, List.map_append, after?]
    split_ifs <;> simp

/-- **Whatever is below an ignored folder is ignored.** -/
lemma isIgnored_append {names folder : Text} (hlast : folder.getLast? = some '/')
    (h : isIgnored (ignorePatterns names) folder = true) (back : Text) :
    isIgnored (ignorePatterns names) (folder ++ back) = true := by
  unfold isIgnored ignorePatterns at h ⊢
  rw [List.any_map, List.any_eq_true] at h ⊢
  obtain ⟨name, hname, hfits⟩ := h
  obtain ⟨back', hback⟩ := fromRoot_append hlast back
  refine ⟨name, hname, ?_⟩
  rw [Function.comp_apply, hback]
  exact fitsPattern_append hfits back'

/-! ## Joining components -/

/-- A folder as it is written in front of what is in it. -/
def withSlash (folder : Text) : Text :=
  if folder.isEmpty || folder.getLast? == some '/' then folder else folder ++ ['/']

/-- A name that is a component of a path. -/
def IsComponent (name : Text) : Prop :=
  name ≠ [] ∧ '/' ∉ name

instance (name : Text) : Decidable (IsComponent name) :=
  inferInstanceAs (Decidable (_ ∧ _))

/-- A path that does not begin with a slash is put behind a folder. -/
lemma join_relative (folder : Text) {path : Text} (h : path.head? ≠ some '/') :
    join folder path = withSlash folder ++ path := by
  unfold join withSlash
  rw [beq_false_of_ne h, if_neg Bool.false_ne_true]
  split_ifs <;> simp

/-- A component is put behind a folder. -/
lemma join_component (folder : Text) {name : Text} (h : IsComponent name) :
    join folder name = withSlash folder ++ name :=
  join_relative folder fun hhead => h.2 (List.mem_of_mem_head? hhead)

/-- A path that ends with a component needs its slash. -/
lemma withSlash_append (front : Text) {name : Text} (h : IsComponent name) :
    withSlash (front ++ name) = front ++ name ++ ['/'] := by
  have hlast : name.getLast? ≠ some '/' := fun hlast => h.2 (List.mem_of_getLast? hlast)
  unfold withSlash
  rw [List.getLast?_append_of_ne_nil front h.1]
  simp [h.1, hlast]

/-- Components are joined to a folder with slashes between them. -/
lemma foldl_join {cs : List Text} (hne : cs ≠ []) (h : ∀ c ∈ cs, IsComponent c) (folder : Text) :
    cs.foldl join folder = withSlash folder ++ ['/'].intercalate cs := by
  induction cs generalizing folder with
  | nil => exact absurd rfl hne
  | cons c cs ih =>
    have hc : IsComponent c := h c List.mem_cons_self
    rw [List.foldl_cons, join_component folder hc]
    cases cs with
    | nil => rw [List.foldl_nil, List.intercalate_singleton]
    | cons d ds =>
      rw [ih (List.cons_ne_nil d ds) fun e he => h e (List.mem_cons_of_mem c he),
        withSlash_append _ hc, List.intercalate_cons_cons]
      simp only [List.append_assoc]

/-- Paths in a folder are equal only if they have the same components. -/
lemma foldl_join_inj {cs ds : List Text} (hcs : cs ≠ []) (hds : ds ≠ [])
    (hc : ∀ c ∈ cs, IsComponent c) (hd : ∀ d ∈ ds, IsComponent d) {folder : Text}
    (h : cs.foldl join folder = ds.foldl join folder) : cs = ds := by
  rw [foldl_join hcs hc, foldl_join hds hd] at h
  have hsplit := congrArg (List.splitOn '/') (List.append_cancel_left h)
  rwa [List.splitOn_intercalate '/' (fun c hmem => (hc c hmem).2) hcs,
    List.splitOn_intercalate '/' (fun d hmem => (hd d hmem).2) hds] at hsplit

end Esmify.Path

namespace Esmify.File

open Text

/-! ## Trees -/

namespace Listing

/-- All files of a tree, by the names that lead to them. -/
def files : Listing → List (List Text)
  | .done => []
  | .file name _ rest => [name] :: rest.files
  | .folder name inside rest => inside.files.map (name :: ·) ++ rest.files

/-- Whether a folder is one that a disk can hold: its names are components of paths, no two entries
have the same, and so for the folders in it. -/
def Proper : Listing → Prop
  | .done => True
  | .file name _ rest => Path.IsComponent name ∧ rest.get? name = none ∧ rest.Proper
  | .folder name inside rest =>
    Path.IsComponent name ∧ rest.get? name = none ∧ inside.Proper ∧ rest.Proper

/-- Whether a tree is proper is decided along the tree. -/
instance decidableProper : (tree : Listing) → Decidable tree.Proper
  | .done => isTrue trivial
  | .file name _ rest =>
    have := decidableProper rest
    inferInstanceAs (Decidable (Path.IsComponent name ∧ rest.get? name = none ∧ rest.Proper))
  | .folder name inside rest =>
    have := decidableProper inside
    have := decidableProper rest
    inferInstanceAs (Decidable
      (Path.IsComponent name ∧ rest.get? name = none ∧ inside.Proper ∧ rest.Proper))

/-- A file has a name. -/
lemma ne_nil_of_mem_files {tree : Listing} {cs : List Text} (h : cs ∈ tree.files) : cs ≠ [] := by
  induction tree generalizing cs with
  | done => cases h
  | file name content rest ih =>
    rcases List.mem_cons.mp h with rfl | h
    · exact List.cons_ne_nil _ _
    · exact ih h
  | folder name inside rest ihInside ihRest =>
    rcases List.mem_append.mp h with h | h
    · obtain ⟨ds, -, rfl⟩ := List.mem_map.mp h
      exact List.cons_ne_nil _ _
    · exact ihRest h

/-- A file is found under the entry of its first name. -/
lemma get?_ne_none_of_mem_files {tree : Listing} {c : Text} {cs : List Text}
    (h : c :: cs ∈ tree.files) : tree.get? c ≠ none := by
  induction tree with
  | done => cases h
  | file name content rest ih =>
    unfold get?
    split_ifs with hname
    · exact Option.some_ne_none _
    · rcases List.mem_cons.mp h with heq | h
      · exact absurd (List.cons.inj heq).1.symm hname
      · exact ih h
  | folder name inside rest _ ih =>
    unfold get?
    split_ifs with hname
    · exact Option.some_ne_none _
    · rcases List.mem_append.mp h with h | h
      · obtain ⟨ds, -, heq⟩ := List.mem_map.mp h
        exact absurd (List.cons.inj heq).1 hname
      · exact ih h

/-- The names that lead to a file of a proper tree are components of paths. -/
lemma Proper.isComponent {tree : Listing} (hproper : tree.Proper) {cs : List Text}
    (h : cs ∈ tree.files) : ∀ c ∈ cs, Path.IsComponent c := by
  induction tree generalizing cs with
  | done => cases h
  | file name content rest ih =>
    obtain ⟨hname, -, hrest⟩ := hproper
    rcases List.mem_cons.mp h with rfl | h
    · simpa using hname
    · exact ih hrest h
  | folder name inside rest ihInside ihRest =>
    obtain ⟨hname, -, hinside, hrest⟩ := hproper
    rcases List.mem_append.mp h with h | h
    · obtain ⟨ds, hds, rfl⟩ := List.mem_map.mp h
      exact List.forall_mem_cons.mpr ⟨hname, ihInside hinside hds⟩
    · exact ihRest hrest h

/-- No file of a proper tree is listed twice. -/
lemma Proper.nodup_files {tree : Listing} (hproper : tree.Proper) : tree.files.Nodup := by
  induction tree with
  | done => exact List.nodup_nil
  | file name content rest ih =>
    obtain ⟨-, hother, hrest⟩ := hproper
    exact List.nodup_cons.mpr ⟨fun h => get?_ne_none_of_mem_files h hother, ih hrest⟩
  | folder name inside rest ihInside ihRest =>
    obtain ⟨-, hother, hinside, hrest⟩ := hproper
    refine List.Nodup.append ((ihInside hinside).map fun _ _ h => (List.cons.inj h).2)
      (ihRest hrest) ?_
    intro cs hleft hright
    obtain ⟨ds, -, rfl⟩ := List.mem_map.mp hleft
    exact get?_ne_none_of_mem_files hright hother

end Listing

/-! ## Scanning -/

/-- A file is wanted for its name and its path from the root of the scan. The path of the folder
that its components start from is written `base`. -/
def isWanted (patterns extensions : List Text) (base : Text) (cs : List Text) : Bool :=
  hasExtension extensions (cs.getLastD []) && !Path.isIgnored patterns
    (base ++ ['/'].intercalate cs)

/-- A file is wanted in a folder as it is wanted from the folder above. -/
lemma isWanted_cons (patterns extensions : List Text) (base name : Text) {cs : List Text}
    (hne : cs ≠ []) : isWanted patterns extensions base (name :: cs)
      = isWanted patterns extensions (base ++ name ++ ['/']) cs := by
  obtain ⟨c, cs, rfl⟩ := List.exists_cons_of_ne_nil hne
  unfold isWanted
  rw [List.intercalate_cons_cons, List.getLastD_cons, List.getLastD_cons, List.getLastD_cons]
  simp only [List.append_assoc]

/-- **The walk gives the files of the whole tree, filtered.** -/
lemma wanted_eq_filter (names : Text) (extensions : List Text) (tree : Listing)
    (folder base : Text) :
    wanted (Path.ignorePatterns names) extensions folder base tree
      = (tree.files.filter (isWanted (Path.ignorePatterns names) extensions base)).map
          (·.foldl Path.join folder) := by
  induction tree generalizing folder base with
  | done => rfl
  | file name content rest ih =>
    have hwanted : isWanted (Path.ignorePatterns names) extensions base [name]
        = (hasExtension extensions name
          && !Path.isIgnored (Path.ignorePatterns names) (base ++ name)) := by
      unfold isWanted
      rw [List.intercalate_singleton, List.getLastD_cons, List.getLastD_nil]
    rw [wanted, Listing.files, List.filter_cons, hwanted, ih]
    split_ifs <;> rfl
  | folder name inside rest ihInside ihRest =>
    have hinside : inside.files.filter
          (isWanted (Path.ignorePatterns names) extensions base ∘ (name :: ·))
        = inside.files.filter
          (isWanted (Path.ignorePatterns names) extensions (base ++ name ++ ['/'])) :=
      List.filter_congr fun cs hcs =>
        isWanted_cons _ extensions base name (Listing.ne_nil_of_mem_files hcs)
    rw [wanted, Listing.files, List.filter_append, List.map_append, List.filter_map,
      hinside, ihRest]
    split_ifs with hignored
    · -- the folder is pruned: by their own paths, none of the files in it is wanted
      have hnone : inside.files.filter
          (isWanted (Path.ignorePatterns names) extensions (base ++ name ++ ['/'])) = [] := by
        rw [List.filter_eq_nil_iff]
        intro cs _
        unfold isWanted
        rw [Path.isIgnored_append (by simp) hignored]
        simp
      rw [hnone]
      rfl
    · rw [ihInside, List.map_map]
      rfl

/-! ## Order -/

/-- The lexicographic order of code points. -/
def Precedes (a b : Text) : Prop :=
  List.Lex (fun c d : Char => c.toNat < d.toNat) a b

/-- Sorting compares by the lexicographic order of code points. -/
lemma before_iff {a b : Text} : before a b = true ↔ a = b ∨ Precedes a b := by
  unfold Precedes
  induction a generalizing b with
  | nil => cases b <;> simp [before]
  | cons c cs ih =>
    cases b with
    | nil => simp [before]
    | cons d ds =>
      rw [before, List.cons_lex_cons_iff]
      split_ifs with h
      · subst h
        rw [ih]
        simp
      · simp [h, UInt32.lt_iff_toNat_lt, Char.toNat_val]

/-- Comparing texts is transitive: the first characters that differ decide. -/
lemma before_trans (a b c : Text) (hab : before a b = true) (hbc : before b c = true) :
    before a c = true := by
  induction a generalizing b c with
  | nil => rfl
  | cons x xs ih =>
    match b, c with
    | [], _ => cases hab
    | _ :: _, [] => cases hbc
    | y :: ys, z :: zs =>
      unfold before at hab hbc ⊢
      split_ifs at hab hbc ⊢ <;> grind

/-- Of two texts one comes before the other. -/
lemma before_total (a b : Text) : (before a b || before b a) = true := by
  induction a generalizing b with
  | nil => rfl
  | cons x xs ih =>
    cases b with
    | nil => rfl
    | cons y ys =>
      unfold before
      by_cases h : x = y
      · subst h
        simpa using ih ys
      · have hval : x.val ≠ y.val := fun heq => h (Char.ext heq)
        rw [if_neg h, if_neg (Ne.symm h), Bool.or_eq_true, decide_eq_true_iff, decide_eq_true_iff]
        exact UInt32.lt_or_lt_of_ne hval

/-- Texts that come before each other are one. -/
lemma before_antisymm (a b : Text) (hab : before a b = true) (hba : before b a = true) : a = b := by
  induction a generalizing b with
  | nil =>
    cases b with
    | nil => rfl
    | cons y ys => cases hba
  | cons x xs ih =>
    cases b with
    | nil => cases hab
    | cons y ys =>
      unfold before at hab hba
      split_ifs at hab hba <;> grind

/-- Sorting gives the texts in order. -/
lemma sort_eq_of_perm {ts ts' : List Text} (hperm : ts.Perm ts')
    (hsorted : ts'.Pairwise fun a b => before a b = true) : sort ts = ts' :=
  List.Perm.eq_of_pairwise (fun a b _ _ => before_antisymm a b)
    (List.pairwise_mergeSort before_trans before_total ts) hsorted
    ((List.mergeSort_perm ts before).trans hperm)

/-- Different texts are sorted strictly. -/
lemma pairwise_sort {ts : List Text} (h : ts.Nodup) : (sort ts).Pairwise Precedes := by
  have hsorted : (sort ts).Pairwise fun a b => before a b = true :=
    List.pairwise_mergeSort before_trans before_total ts
  have hnodup : (sort ts).Nodup := (List.mergeSort_perm ts before).nodup_iff.mpr h
  exact hsorted.imp₂ (fun a b hab hne => (before_iff.mp hab).resolve_left hne) hnodup

/-- A name has one of the extensions if it ends with one of them, with a dot put in front where
there is none. -/
lemma hasExtension_iff {extensions : List Text} {name : Text} :
    hasExtension extensions name = true ↔
      ∃ e ∈ extensions, (if e.head? = some '.' then e else '.' :: e) <:+ name := by
  simp [hasExtension, dotted]

/-- A file is wanted from the root of the scan for the end of its name, unless it is ignored. -/
lemma isWanted_concat_iff {patterns extensions folders : List Text} {name : Text} :
    isWanted patterns extensions [] (folders ++ [name]) = true ↔
      (∃ e ∈ extensions, (if e.head? = some '.' then e else '.' :: e) <:+ name)
        ∧ Path.isIgnored patterns (['/'].intercalate (folders ++ [name])) = false := by
  unfold isWanted
  rw [List.getLastD_concat, List.nil_append, Bool.and_eq_true, hasExtension_iff, Bool.not_eq_true']

/-- The scan gives the paths of the files that are wanted from its root. -/
lemma mem_wanted_iff {names root path : Text} {extensions : List Text} {inside : Listing} :
    path ∈ wanted (Path.ignorePatterns names) extensions root [] inside ↔
      ∃ folders name, folders ++ [name] ∈ inside.files
        ∧ path = (folders ++ [name]).foldl Path.join root
        ∧ (∃ e ∈ extensions, (if e.head? = some '.' then e else '.' :: e) <:+ name)
        ∧ Path.isIgnored (Path.ignorePatterns names) (['/'].intercalate (folders ++ [name]))
          = false := by
  rw [wanted_eq_filter, List.mem_map]
  constructor
  · rintro ⟨cs, hmem, rfl⟩
    obtain ⟨hfile, hwanted⟩ := List.mem_filter.mp hmem
    obtain ⟨folders, name, rfl⟩ : ∃ folders name, cs = folders ++ [name] :=
      ⟨_, _, (List.dropLast_append_getLast (Listing.ne_nil_of_mem_files hfile)).symm⟩
    obtain ⟨hextension, hignored⟩ := isWanted_concat_iff.mp hwanted
    exact ⟨_, _, hfile, rfl, hextension, hignored⟩
  · rintro ⟨folders, name, hfile, rfl, hextension, hignored⟩
    exact ⟨_, List.mem_filter.mpr ⟨hfile, isWanted_concat_iff.mpr ⟨hextension, hignored⟩⟩, rfl⟩

/-- No path is found twice. -/
lemma nodup_wanted {inside : Listing} (hproper : inside.Proper) (names root : Text)
    (extensions : List Text) :
    (wanted (Path.ignorePatterns names) extensions root [] inside).Nodup := by
  rw [wanted_eq_filter]
  refine List.Nodup.map_on ?_ (hproper.nodup_files.filter _)
  intro cs hcs ds hds h
  have hc := List.mem_of_mem_filter hcs
  have hd := List.mem_of_mem_filter hds
  exact Path.foldl_join_inj (Listing.ne_nil_of_mem_files hc) (Listing.ne_nil_of_mem_files hd)
    (hproper.isComponent hc) (hproper.isComponent hd) h

/-- **Pruning while walking agrees with filtering afterwards.** A scan of a folder finds, in
strictly increasing order and hence each once, exactly the files at any depth of it whose name has
one of the extensions and whose path from the folder is not ignored; the files below a folder that
is ignored are ignored themselves. -/
theorem scan_finds {disk : Disk} {root : Text} {inside : Listing}
    (hnull : Disk.hasNull root = false) (hroot : disk.folder? root = some inside)
    (hproper : inside.Proper) (names : Text) (extensions : List Text) :
    (∃ found, disk.scan (Path.ignorePatterns names) extensions root = .ok found
      ∧ found.Pairwise Precedes
      ∧ ∀ path, path ∈ found ↔ ∃ folders name, folders ++ [name] ∈ inside.files
        ∧ path = (folders ++ [name]).foldl Path.join root
        ∧ (∃ e ∈ extensions, (if e.head? = some '.' then e else '.' :: e) <:+ name)
        ∧ Path.isIgnored (Path.ignorePatterns names) (['/'].intercalate (folders ++ [name]))
          = false)
      ∧ ∀ folders below, folders ≠ [] → inside.at? folders = some (.folder below) →
        Path.isIgnored (Path.ignorePatterns names) (['/'].intercalate folders ++ ['/']) = true →
        ∀ cs ∈ below.files,
          Path.isIgnored (Path.ignorePatterns names) (['/'].intercalate (folders ++ cs))
            = true := by
  refine ⟨⟨sort (wanted (Path.ignorePatterns names) extensions root [] inside), ?_, ?_, ?_⟩, ?_⟩
  · unfold Disk.scan
    rw [hnull, hroot, if_neg Bool.false_ne_true]
    rfl
  · exact pairwise_sort (nodup_wanted hproper names root extensions)
  · intro path
    exact List.mem_mergeSort.trans mem_wanted_iff
  · intro folders below hne _ hignored cs hcs
    rw [intercalate_append '/' hne (Listing.ne_nil_of_mem_files hcs), List.append_cons]
    exact Path.isIgnored_append (by simp) hignored _

/-- A folder with a folder to ignore in it, one whose name is a group that is never closed, and a
file whose name only ends with the letters of the extension. -/
def sampleFolder : Listing :=
  .folder "dist".toList (.folder "lib".toList (.file "c.js".toList [] .done) .done) <|
  .folder "src".toList
    (.file "a.js".toList [] (.file "a.css".toList [] (.file "njs".toList [] .done))) <|
  .folder "[a".toList (.file "a.js".toList [] .done) <|
  .file "b.js".toList [] .done

/-- The folder at `/app`, where relative paths are read. -/
def sampleDisk : Disk :=
  ⟨.folder "app".toList sampleFolder .done, ["app".toList]⟩

/-- The folder scanned by a relative path, with an extension that lacks its dot: two files are
found, in order. -/
theorem scan_finds_sample :
    Disk.hasNull ".".toList = false ∧ sampleDisk.folder? ".".toList = some sampleFolder
      ∧ sampleFolder.Proper
      ∧ (∃ found, sampleDisk.scan (Path.ignorePatterns "d?st [a".toList) ["js".toList] ".".toList
          = .ok found
        ∧ found = ["./b.js".toList, "./src/a.js".toList]
        ∧ found.Pairwise Precedes
        ∧ ∀ path, path ∈ found ↔ ∃ folders name, folders ++ [name] ∈ sampleFolder.files
          ∧ path = (folders ++ [name]).foldl Path.join ".".toList
          ∧ (∃ e ∈ ["js".toList], (if e.head? = some '.' then e else '.' :: e) <:+ name)
          ∧ Path.isIgnored (Path.ignorePatterns "d?st [a".toList)
            (['/'].intercalate (folders ++ [name])) = false)
      ∧ ∀ folders below, folders ≠ [] → sampleFolder.at? folders = some (.folder below) →
        Path.isIgnored (Path.ignorePatterns "d?st [a".toList)
          (['/'].intercalate folders ++ ['/']) = true →
        ∀ cs ∈ below.files, Path.isIgnored (Path.ignorePatterns "d?st [a".toList)
          (['/'].intercalate (folders ++ cs)) = true := by
  have hproper : sampleFolder.Proper := by decide
  have hwanted : wanted (Path.ignorePatterns "d?st [a".toList) ["js".toList] ".".toList []
      sampleFolder = ["./src/a.js".toList, "./b.js".toList] := by decide
  obtain ⟨⟨found, hscan, hsorted, hmem⟩, hbelow⟩ := @scan_finds sampleDisk ".".toList
    sampleFolder (by decide) rfl hproper "d?st [a".toList ["js".toList]
  have hfound : found = ["./b.js".toList, "./src/a.js".toList] := by
    have hsort : found = sort (wanted (Path.ignorePatterns "d?st [a".toList) ["js".toList]
        ".".toList [] sampleFolder) := (Except.ok.inj hscan).symm
    rw [hsort, hwanted]
    exact sort_eq_of_perm (.swap _ _ _) (by decide)
  exact ⟨by decide, rfl, hproper, ⟨found, hscan, hfound, hsorted, hmem⟩, hbelow⟩

end Esmify.File
