import Mathlib.Data.List.Basic
import Mathlib.Data.List.Nodup
import Mathlib.Data.List.Lattice
import Mathlib.Tactic.Lemma
import Esmify.Proofs.BatchAccount

/-!
# Converting many files

**A run over many files treats each of them for itself.** In the end each file holds what its own
conversion says (`settled_performAll`). The texts of all files are read before, and the index of
default exports is used as a set (`convert_congr`), so that the order of the files does not matter
either. `World.update_isolates` puts this together for a run from reading to the last write. -/

namespace Esmify

/-! ## The index as a set -/

namespace DefaultIndex

/-- Indexes that hold the same files. -/
structure Same (i j : DefaultIndex) : Prop where
  here : i.here = j.here
  paths : ∀ path, path ∈ i.paths ↔ path ∈ j.paths

variable {i j : DefaultIndex}

/-- Indexes that hold the same files answer alike. -/
lemma Same.isDefaultImport (h : Same i j) (consumer target : Text) :
    i.isDefaultImport consumer target = j.isDefaultImport consumer target := by
  have hcontains : ∀ path, i.paths.contains path = j.paths.contains path := by
    intro path
    rw [Bool.eq_iff_iff, List.contains_iff_mem, List.contains_iff_mem]
    exact h.paths path
  unfold DefaultIndex.isDefaultImport
  simp only [h.here, hcontains]

/-- The order of the files does not matter to the index. -/
lemma same_of_perm {files files' : List (Text × Text)} (h : files.Perm files') (here : Text)
    (experimental : Bool) :
    Same (ofContents here experimental files) (ofContents here experimental files') := by
  refine ⟨rfl, fun path => ?_⟩
  unfold ofContents ofPaths
  rw [List.mem_eraseDups, List.mem_eraseDups]
  exact (((h.filter _).map _).map _).mem_iff

end DefaultIndex

/-- A text is converted alike with indexes that hold the same files. -/
lemma convert_congr {i j : DefaultIndex} (h : i.Same j) (content : Text) (path : Option Text)
    (config : Config) :
    convert content path config (some i) = convert content path config (some j) := by
  have hknown : knownDefault (some i) path = knownDefault (some j) path := by
    funext r
    rcases path with _ | _ | ⟨c, cs⟩
    · rfl
    · rfl
    · simp only [knownDefault, h.isDefaultImport]
  unfold convert convertImports
  rw [hknown]

/-! ## Reading -/

namespace File.Disk

/-- The text of the file at a path. -/
def text (disk : Disk) (path : Text) : Text :=
  (disk.readText path).toOption.getD []

/-- The text that the file at a path holds, with its line ends as they are. -/
def heldText? (disk : Disk) (path : Text) : Option Text :=
  (disk.content? path).bind fun bytes => (decode bytes).toOption

/-- **Paths to different files** that can be read. -/
structure DistinctFiles (disk : Disk) (paths : List Text) : Prop where
  readable : ∀ p ∈ paths, ∃ t, disk.readText p = .ok t
  distinct : paths.Pairwise fun p q => disk.place? p ≠ disk.place? q

variable {disk : Disk} {paths : List Text}

/-- A text that can be read is in a file. -/
lemma place?_of_readText {path t : Text} (h : disk.readText path = .ok t) :
    (disk.place? path).isSome = true := by
  unfold readText at h
  unfold place?
  split_ifs at h
  split at h
  · cases h
  · cases h
  · rename_i hresolve
    rw [hresolve]
    rfl

/-- A path along which a text can be read has no null character. -/
lemma hasNull_of_readText {path t : Text} (h : disk.readText path = .ok t) :
    hasNull path = false := by
  unfold readText at h
  split_ifs at h with hnull
  simpa using hnull

/-- What is read of a file is the text that it holds, when that has no carriage returns. -/
lemma readText_of_heldText? {path t : Text} (hnull : hasNull path = false)
    (h : disk.heldText? path = some t) (hreturn : '\r' ∉ t) : disk.readText path = .ok t := by
  obtain ⟨bytes, hcontent, hdecode⟩ := Option.bind_eq_some_iff.mp h
  have hbytes : decode bytes = .ok t := by
    cases hresult : decode bytes with
    | error f => simp [hresult, Except.toOption] at hdecode
    | ok t' => simpa [hresult, Except.toOption] using hdecode
  unfold content? at hcontent
  unfold readText
  rw [hnull, if_neg Bool.false_ne_true]
  split at hcontent
  · next hresolve =>
    obtain rfl := Option.some.inj hcontent
    rw [hresolve]
    dsimp only
    rw [hbytes]
    exact congrArg Except.ok (normalizeBreaks_of_not_mem hreturn)
  · cases hcontent

/-- Different files have different paths. -/
lemma DistinctFiles.nodup (h : DistinctFiles disk paths) : paths.Nodup :=
  h.distinct.imp fun hne heq => hne (congrArg _ heq)

/-- The order of the paths does not matter. -/
lemma DistinctFiles.of_perm {paths' : List Text} (h : DistinctFiles disk paths)
    (hperm : paths'.Perm paths) : DistinctFiles disk paths' :=
  ⟨fun p hp => h.readable p (hperm.mem_iff.mp hp),
    (hperm.pairwise_iff fun hne => Ne.symm hne).mpr h.distinct⟩

/-- Files that can be read are read. -/
lemma readTexts_eq (h : ∀ p ∈ paths, ∃ t, disk.readText p = .ok t) :
    disk.readTexts paths = .ok (paths.map fun p => (p, disk.text p)) := by
  induction paths with
  | nil => rfl
  | cons p paths ih =>
    obtain ⟨⟨t, ht⟩, hpaths⟩ := List.forall_mem_cons.mp h
    rw [readTexts, ht, ih hpaths, List.map_cons, text, ht]
    rfl

/-- Paths that are all different are each kept. -/
lemma eraseDups_of_nodup (h : paths.Nodup) : paths.eraseDups = paths := by
  induction paths with
  | nil => rfl
  | cons p paths ih =>
    obtain ⟨hp, hpaths⟩ := List.nodup_cons.mp h
    have hkept : paths.filter (fun q => !q == p) = paths := by
      rw [List.filter_eq_self]
      intro q hq
      have hne : q ≠ p := fun heq => hp (heq ▸ hq)
      simpa using hne
    rw [List.eraseDups_cons, hkept, ih hpaths]

/-- The texts of different files are read. -/
lemma DistinctFiles.load (h : DistinctFiles disk paths) {readers : Option Int}
    (hreaders : canRead readers = true) :
    disk.load readers paths = .ok (paths.map fun p => (p, disk.text p)) := by
  unfold Disk.load
  rw [if_pos hreaders, eraseDups_of_nodup h.nodup, readTexts_eq h.readable]
  split_ifs with hempty
  · rw [List.isEmpty_iff.mp hempty]
    rfl
  · rfl

end File.Disk

/-! ## The run as a whole -/

namespace World

open File Batch

/-- The texts of the files to convert, as they are read. -/
def files (w : World) (paths : List Text) : List (Text × Text) :=
  paths.map fun p => (p, w.disk.text p)

/-- The index of the default exports of all files. -/
def index (w : World) (config : Config) (paths : List Text) : DefaultIndex :=
  DefaultIndex.ofContents w.disk.herePath config.experimental (w.files paths)

/-- What the text of a file is converted to, with the index of all files. -/
def converted (w : World) (config : Config) (paths : List Text) (path : Text) : Except Fault Text :=
  (convert (w.disk.text path) (some path) config (some (w.index config paths))).run.value

/-- What there is of a file after a run: `new` of the text that it was converted to if that is
another one and the run is not dry, and else the `old`. -/
def afterRun {α : Type} (dryRun : Bool) (text : Text) (old : α) (new : Text → α) :
    Except Fault Text → α
  | .ok t => if t = text ∨ dryRun = true then old else new t
  | .error _ => old

/-- **The outcome of a run over different files**, each by its own conversion. The files hold the
texts that they are converted to, and that is what is read of them; the account lists those that get
another text and those that fail, in the order of the paths, and has counted them all. -/
structure Settled (w : World) (config : Config) (dryRun : Bool) (paths : List Text) (batch : Batch)
    (w' : World) : Prop where
  content : ∀ p ∈ paths, w'.disk.content? p = afterRun dryRun (w.disk.text p) (w.disk.content? p)
    (fun t => some (encode t)) (w.converted config paths p)
  held : ∀ p ∈ paths, w'.disk.heldText? p = afterRun dryRun (w.disk.text p) (w.disk.heldText? p)
    some (w.converted config paths p)
  read : ∀ p ∈ paths, ∀ t, w'.disk.heldText? p = some t → '\r' ∉ t → w'.disk.readText p = .ok t
  others : ∀ q, (∀ p ∈ paths, w.disk.place? q ≠ w.disk.place? p) →
    w'.disk.content? q = w.disk.content? q
  places : ∀ q, w'.disk.place? q = w.disk.place? q
  changed_sublist : batch.changed.Sublist paths
  mem_changed : ∀ p, p ∈ batch.changed ↔
    p ∈ paths ∧ ∃ t, w.converted config paths p = .ok t ∧ t ≠ w.disk.text p
  failed_sublist : batch.failed.Sublist paths
  mem_failed : ∀ p, p ∈ batch.failed ↔ p ∈ paths ∧ ∃ e, w.converted config paths p = .error e
  disjoint : batch.changed.Disjoint batch.failed
  total : batch.total = paths.length
  current : batch.current = paths.length
  announced : ∃ lines : List Text, w'.out = w.out ++ lines.flatMap (· ++ ['\n'])
    ∧ lines.map Except.ok = (paths.zipIdx 1).map fun numbered =>
      progressLine numbered.2 paths.length numbered.1

variable {w : World} {config : Config} {dryRun silent : Bool} {paths : List Text}

/-- What a file holds after it was taken up. -/
lemma settledContent_eq (old : Option Bytes) (path : Text) :
    settledContent config (w.index config paths) dryRun old (path, w.disk.text path)
      = afterRun dryRun (w.disk.text path) old (fun t => some (encode t))
        (w.converted config paths path) := by
  have houtcome : outcome config (w.index config paths) (path, w.disk.text path)
      = w.converted config paths path := rfl
  unfold settledContent rewritten?
  rw [houtcome]
  cases w.converted config paths path with
  | error e => rfl
  | ok t =>
    by_cases hsame : t = w.disk.text path
    · simp [afterRun, hsame]
    · cases dryRun <;> simp [afterRun, hsame]

/-- The paths of some of the files are some of the paths. -/
lemma map_filter_files (w : World) (paths : List Text) (f : Text × Text → Bool) :
    ((w.files paths).filter f).map Prod.fst = paths.filter fun p => f (p, w.disk.text p) := by
  unfold files
  rw [List.filter_map, List.map_map]
  exact List.map_id _

section Account

variable {b : Batch}
  (haccount : Accounts config (w.index config paths) dryRun w (w.files paths).length
    (w.files paths) b)

include haccount

/-- The account lists the files that are converted to another text. -/
lemma mem_changed_iff (p : Text) :
    p ∈ b.changed ↔ p ∈ paths ∧ ∃ t, w.converted config paths p = .ok t ∧ t ≠ w.disk.text p := by
  rw [haccount.changed, map_filter_files, List.mem_filter, Option.isSome_iff_exists]
  exact and_congr_right fun _ => exists_congr fun t => rewritten?_eq_some_iff

/-- The account lists the files that cannot be converted. -/
lemma mem_failed_iff (p : Text) :
    p ∈ b.failed ↔ p ∈ paths ∧ ∃ e, w.converted config paths p = .error e := by
  rw [haccount.failed, map_filter_files, List.mem_filter, fails_iff]
  rfl

/-- After the run a file has the content that its own conversion gives it. -/
lemma content?_performAll (h : w.disk.DistinctFiles paths) {p : Text} (hp : p ∈ paths) :
    (w.performAll b.events).disk.content? p
      = afterRun dryRun (w.disk.text p) (w.disk.content? p) (fun t => some (encode t))
        (w.converted config paths p) := by
  obtain ⟨t, ht⟩ := h.readable p hp
  have hfile : (p, w.disk.text p) ∈ w.files paths := List.mem_map_of_mem hp
  rw [haccount.disk, ← settledContent_eq]
  exact content?_foldl_settle (List.pairwise_map.mpr h.distinct) (Disk.place?_of_readText ht) hfile

/-- After the run a file holds the text that its own conversion gives it. -/
lemma heldText?_performAll (h : w.disk.DistinctFiles paths) {p : Text} (hp : p ∈ paths) :
    (w.performAll b.events).disk.heldText? p
      = afterRun dryRun (w.disk.text p) (w.disk.heldText? p) some (w.converted config paths p) := by
  unfold Disk.heldText?
  rw [content?_performAll haccount h hp]
  cases w.converted config paths p with
  | error e => rfl
  | ok t =>
    dsimp only [afterRun]
    split_ifs
    · rfl
    · rw [Option.bind_some, decode_encode]
      rfl

/-- The run prints one line for each file, with its number. -/
lemma out_performAll :
    ∃ lines : List Text, (w.performAll b.events).out = w.out ++ lines.flatMap (· ++ ['\n'])
      ∧ lines.map Except.ok = (paths.zipIdx 1).map fun numbered =>
        progressLine numbered.2 paths.length numbered.1 := by
  have hpaths : (w.files paths).map Prod.fst = paths := by
    unfold files
    rw [List.map_map]
    exact List.map_id paths
  have hlength : (w.files paths).length = paths.length := List.length_map _
  refine ⟨(paths.zipIdx 1).map fun numbered => progressText numbered.2 paths.length numbered.1,
    ?_, ?_⟩
  · rw [haccount.out, hpaths, hlength, List.flatMap_map]
  · rw [List.map_map]
    refine List.map_congr_left fun numbered hnumbered => (progressLine_eq ?_ _).symm
    have hlt := List.snd_lt_of_mem_zipIdx hnumbered
    omega

end Account

/-- **A run over different files settles each by its own conversion.** -/
lemma settled_performAll (h : w.disk.DistinctFiles paths) (config : Config) (dryRun silent : Bool) :
    Settled w config dryRun paths
      (turns config (w.index config paths) dryRun silent (w.files paths))
      (w.performAll
        (turns config (w.index config paths) dryRun silent (w.files paths)).events) := by
  have haccount :=
    accounts_turns config (w.index config paths) dryRun silent w (w.files paths)
  have hlength : (w.files paths).length = paths.length := List.length_map _
  refine ⟨fun p hp => content?_performAll haccount h hp,
    fun p hp => heldText?_performAll haccount h hp, ?_, ?_, ?_, ?_, mem_changed_iff haccount, ?_,
    mem_failed_iff haccount, ?_, haccount.total.trans hlength, haccount.current.trans hlength,
    out_performAll haccount⟩
  · intro p hp t hheld
    obtain ⟨t', ht'⟩ := h.readable p hp
    exact Disk.readText_of_heldText? (Disk.hasNull_of_readText ht') hheld
  · intro q hq
    rw [haccount.disk]
    apply content?_foldl_settle_of_ne
    intro f hf
    obtain ⟨p, hp, rfl⟩ := List.mem_map.mp hf
    exact hq p hp
  · intro q
    rw [haccount.disk, place?_foldl_settle]
  · rw [haccount.changed, map_filter_files]
    exact List.filter_sublist
  · rw [haccount.failed, map_filter_files]
    exact List.filter_sublist
  · intro p hp hp'
    obtain ⟨-, t, ht, -⟩ := (mem_changed_iff haccount p).mp hp
    obtain ⟨-, e, he⟩ := (mem_failed_iff haccount p).mp hp'
    rw [ht] at he
    cases he

/-- What a file is converted to does not depend on the order of the files. -/
lemma converted_of_perm {paths' : List Text} (hperm : paths'.Perm paths) (path : Text) :
    w.converted config paths' path = w.converted config paths path := by
  have hsame : (w.index config paths').Same (w.index config paths) :=
    DefaultIndex.same_of_perm (hperm.map _) _ _
  unfold converted
  rw [convert_congr hsame]

section Orders

variable {paths' : List Text} {batch batch' : Batch} {w₁ w₂ : World}

/-- After runs over the same files in another order, every path finds the same content. -/
lemma Settled.content?_of_perm (h₁ : Settled w config dryRun paths batch w₁)
    (h₂ : Settled w config dryRun paths' batch' w₂) (hperm : paths'.Perm paths) (q : Text) :
    w₂.disk.content? q = w₁.disk.content? q := by
  by_cases hq : ∃ p ∈ paths, w.disk.place? q = w.disk.place? p
  · -- the path leads to one of the files, by this or another path
    obtain ⟨p, hp, hplace⟩ := hq
    have hsame : ∀ {v : World}, (∀ q, v.disk.place? q = w.disk.place? q) →
        v.disk.content? q = v.disk.content? p := by
      intro v hv
      rw [Disk.content?_eq_bind, Disk.content?_eq_bind, hv, hv, hplace]
    rw [hsame h₁.places, hsame h₂.places, h₁.content p hp, h₂.content p (hperm.mem_iff.mpr hp),
      converted_of_perm hperm]
  · have hnone : ∀ p ∈ paths, w.disk.place? q ≠ w.disk.place? p :=
      fun p hp hplace => hq ⟨p, hp, hplace⟩
    rw [h₁.others q hnone, h₂.others q fun p hp => hnone p (hperm.mem_iff.mp hp)]

/-- Runs over the same files in another order change the same files. -/
lemma Settled.changed_of_perm (h₁ : Settled w config dryRun paths batch w₁)
    (h₂ : Settled w config dryRun paths' batch' w₂) (hperm : paths'.Perm paths)
    (hnodup : paths.Nodup) :
    batch'.changed.Perm batch.changed := by
  rw [List.perm_ext_iff_of_nodup ((hperm.nodup_iff.mpr hnodup).sublist h₂.changed_sublist)
    (hnodup.sublist h₁.changed_sublist)]
  intro p
  rw [h₁.mem_changed, h₂.mem_changed, hperm.mem_iff, converted_of_perm hperm]

/-- Runs over the same files in another order fail on the same files. -/
lemma Settled.failed_of_perm (h₁ : Settled w config dryRun paths batch w₁)
    (h₂ : Settled w config dryRun paths' batch' w₂) (hperm : paths'.Perm paths)
    (hnodup : paths.Nodup) :
    batch'.failed.Perm batch.failed := by
  rw [List.perm_ext_iff_of_nodup ((hperm.nodup_iff.mpr hnodup).sublist h₂.failed_sublist)
    (hnodup.sublist h₁.failed_sublist)]
  intro p
  rw [h₁.mem_failed, h₂.mem_failed, hperm.mem_iff, converted_of_perm hperm]

end Orders

/-- A run over different files is carried out. -/
lemma update_eq (h : w.disk.DistinctFiles paths) {readers : Option Int}
    (hreaders : canRead readers = true) (config : Config) (dryRun silent : Bool) :
    w.update config dryRun silent readers paths
      = .ok (turns config (w.index config paths) dryRun silent (w.files paths), w.performAll
          (turns config (w.index config paths) dryRun silent (w.files paths)).events) := by
  unfold update
  rw [h.load hreaders]
  rfl

/-- **A run over different files isolates them and does not depend on their order.** It settles each
by its own conversion; in any other order every path finds the same content afterwards and the same
files are changed and fail; and a run that leaves out files that fail does the same to the disk and
changes the same files. -/
theorem update_isolates (h : w.disk.DistinctFiles paths) {readers : Option Int}
    (hreaders : canRead readers = true) (config : Config) (dryRun silent : Bool) :
    ∃ batch w', w.update config dryRun silent readers paths = .ok (batch, w')
      ∧ Settled w config dryRun paths batch w'
      ∧ (∀ paths' : List Text, paths'.Perm paths →
        ∃ batch' w'', w.update config dryRun silent readers paths' = .ok (batch', w'')
          ∧ Settled w config dryRun paths' batch' w''
          ∧ (∀ q, w''.disk.content? q = w'.disk.content? q)
          ∧ batch'.changed.Perm batch.changed ∧ batch'.failed.Perm batch.failed)
      ∧ ∀ keep : Text → Bool, (∀ p ∈ paths, keep p = false → p ∈ batch.failed) →
        let part := turns config (w.index config paths) dryRun silent
          ((w.files paths).filter fun f => keep f.1)
        (w.performAll part.events).disk = w'.disk ∧ part.changed = batch.changed := by
  have hsettled := settled_performAll h config dryRun silent
  refine ⟨_, _, update_eq h hreaders config dryRun silent, hsettled, ?_, ?_⟩
  · intro paths' hperm
    have hsettled' := settled_performAll (h.of_perm hperm) config dryRun silent
    exact ⟨_, _, update_eq (h.of_perm hperm) hreaders config dryRun silent, hsettled',
      hsettled.content?_of_perm hsettled' hperm, hsettled.changed_of_perm hsettled' hperm h.nodup,
      hsettled.failed_of_perm hsettled' hperm h.nodup⟩
  · intro keep hkeep part
    have haccount :=
      accounts_turns config (w.index config paths) dryRun silent w (w.files paths)
    have hpart := accounts_turns config (w.index config paths) dryRun silent w
      ((w.files paths).filter fun f => keep f.1)
    have hfails : ∀ f ∈ w.files paths, keep f.1 = false →
        fails config (w.index config paths) f = true := by
      intro f hf hout
      obtain ⟨p, hp, rfl⟩ := List.mem_map.mp hf
      obtain ⟨-, e, he⟩ := (hsettled.mem_failed p).mp (hkeep p hp hout)
      exact fails_iff.mpr ⟨e, he⟩
    rw [hpart.disk, hpart.changed, haccount.disk, haccount.changed, foldl_settle_filter hfails,
      filter_rewritten?_filter hfails]
    exact ⟨rfl, rfl⟩

/-- Four files: one takes another as its default, one cannot be converted, and one has nothing to
convert and its own line end. -/
def sampleWorld : World :=
  ⟨⟨.folder "app".toList
      (.file "a.js".toList (encode "const b = require('./b');\n".toList) <|
        .folder "lib".toList (.file "c.js".toList (encode "let c;\r\n".toList) .done) <|
        .file "b.js".toList (encode "const b = 1;\nmodule.exports = b;\n".toList) <|
        .file "d.js".toList (encode "module.exports = /*\nfunction X(\n*/ X;".toList) .done)
      .done, ["app".toList]⟩, [], []⟩

/-- Relative and absolute paths to them. -/
def samplePaths : List Text :=
  ["a.js".toList, "/app/lib/../b.js".toList, "d.js".toList, "./lib/c.js".toList]

/-- The paths lead to different files. -/
lemma distinctFiles_sample : sampleWorld.disk.DistinctFiles samplePaths := by
  refine ⟨?_, by decide⟩
  intro p hp
  rcases List.mem_cons.mp hp with rfl | hp
  · exact ⟨_, rfl⟩
  rcases List.mem_cons.mp hp with rfl | hp
  · exact ⟨_, rfl⟩
  rcases List.mem_cons.mp hp with rfl | hp
  · exact ⟨_, rfl⟩
  obtain rfl := List.mem_singleton.mp hp
  exact ⟨_, rfl⟩

/-- The four files in place: two get another text, one fails and one stays as it is. -/
theorem update_isolates_sample :
    sampleWorld.disk.DistinctFiles samplePaths ∧ canRead none = true
      ∧ ∃ batch w', sampleWorld.update {} false true none samplePaths = .ok (batch, w')
        ∧ (batch.total = 4 ∧ batch.current = 4
          ∧ batch.changed = ["a.js".toList, "/app/lib/../b.js".toList]
          ∧ batch.failed = ["d.js".toList]
          ∧ samplePaths.map w'.disk.heldText? =
            [some "import b from './b';\n".toList,
              some "const b = 1;\nexport default b;\n".toList,
              some "module.exports = /*\nfunction X(\n*/ X;".toList,
              some "let c;\r\n".toList])
        ∧ w'.disk.readText "a.js".toList = .ok "import b from './b';\n".toList
        ∧ Settled sampleWorld {} false samplePaths batch w'
        ∧ (∀ paths' : List Text, paths'.Perm samplePaths →
          ∃ batch' w'', sampleWorld.update {} false true none paths' = .ok (batch', w'')
            ∧ Settled sampleWorld {} false paths' batch' w''
            ∧ (∀ q, w''.disk.content? q = w'.disk.content? q)
            ∧ batch'.changed.Perm batch.changed ∧ batch'.failed.Perm batch.failed)
        ∧ ∀ keep : Text → Bool, (∀ p ∈ samplePaths, keep p = false → p ∈ batch.failed) →
          let part := turns {} (sampleWorld.index {} samplePaths) false true
            ((sampleWorld.files samplePaths).filter fun f => keep f.1)
          (sampleWorld.performAll part.events).disk = w'.disk ∧ part.changed = batch.changed := by
  obtain ⟨batch, w', hupdate, hrest⟩ :=
    @update_isolates sampleWorld samplePaths distinctFiles_sample none rfl {} false true
  have hrun : ((sampleWorld.update {} false true none samplePaths).toOption.map fun r =>
      (r.1.changed, r.1.failed, samplePaths.map r.2.disk.heldText?))
      = some (["a.js".toList, "/app/lib/../b.js".toList], ["d.js".toList],
        [some "import b from './b';\n".toList, some "const b = 1;\nexport default b;\n".toList,
          some "module.exports = /*\nfunction X(\n*/ X;".toList, some "let c;\r\n".toList]) := by
    decide +kernel
  rw [hupdate] at hrun
  simp only [Except.toOption, Option.map_some, Option.some.injEq, Prod.mk.injEq] at hrun
  have hheld := (List.cons.inj hrun.2.2).1
  have hread := hrest.1.read "a.js".toList List.mem_cons_self _ hheld (by decide)
  exact ⟨distinctFiles_sample, rfl, batch, w', hupdate,
    ⟨hrest.1.total, hrest.1.current, hrun⟩, hread, hrest⟩

end World

end Esmify
