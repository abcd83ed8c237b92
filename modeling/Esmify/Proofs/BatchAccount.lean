import Mathlib.Data.List.Basic
import Mathlib.Tactic.Lemma
import Esmify.Batch
import Esmify.Proofs.FileWrite

/-!
# The account of a run

The files of a run are taken up one after the other. What a turn does to the disk is `Batch.settle`:
it writes the file that is taken up, or nothing. Turns at different places do not see each other
(`content?_foldl_settle`), and the turn of a file that fails does nothing to the disk.

**A turn keeps the account of the run**, whichever way it goes (`Accounts.turn`): the file fails,
keeps its text, or gets another one, which is written unless the run is dry. So in the end the
account tells of all files (`accounts_turns`). Each of them is announced by a progress line, which
there always is (`exists_progressLine`). -/

namespace Esmify

/-! ## One file -/

namespace Batch

section Files

variable (config : Config) (index : DefaultIndex) (dryRun : Bool)

/-- What the text of a file is converted to. -/
def outcome (file : Text × Text) : Except Fault Text :=
  (convert file.2 (some file.1) config (some index)).run.value

/-- The new text of a file, when it gets another one. -/
def rewritten? (file : Text × Text) : Option Text :=
  match outcome config index file with
  | .ok t => if t = file.2 then none else some t
  | .error _ => none

/-- Whether a file cannot be converted. -/
def fails (file : Text × Text) : Bool :=
  match outcome config index file with
  | .ok _ => false
  | .error _ => true

/-- The disk after a file was taken up. -/
def settle (disk : File.Disk) (file : Text × Text) : File.Disk :=
  match rewritten? config index file with
  | some t => if dryRun then disk else disk.writeText file.1 t
  | none => disk

/-- The content of a file after it was taken up. -/
def settledContent (old : Option File.Bytes) (file : Text × Text) : Option File.Bytes :=
  match rewritten? config index file with
  | some t => if dryRun then old else some (File.encode t)
  | none => old

variable {config index dryRun} {disk : File.Disk} {file : Text × Text}

/-- A file gets another text when its conversion gives one. -/
lemma rewritten?_eq_some_iff {t : Text} :
    rewritten? config index file = some t ↔ outcome config index file = .ok t ∧ t ≠ file.2 := by
  unfold rewritten?
  cases outcome config index file with
  | error e => simp
  | ok t' =>
    by_cases h : t' = file.2
    · simp only [h, if_true, reduceCtorEq, Except.ok.injEq, false_iff, not_and, not_not]
      exact Eq.symm
    · simp only [h, if_false, Option.some.injEq, Except.ok.injEq]
      exact ⟨fun heq => ⟨heq, heq ▸ h⟩, And.left⟩

/-- A file fails when its conversion has no text. -/
lemma fails_iff : fails config index file = true ↔ ∃ e, outcome config index file = .error e := by
  unfold fails
  cases outcome config index file <;> simp

/-- A file that fails gets no other text. -/
lemma rewritten?_of_fails (h : fails config index file = true) :
    rewritten? config index file = none := by
  obtain ⟨e, he⟩ := fails_iff.mp h
  rw [rewritten?, he]

/-- Nothing is done to the disk about a file that fails. -/
lemma settle_of_fails (h : fails config index file = true) :
    settle config index dryRun disk file = disk := by
  rw [settle, rewritten?_of_fails h]

/-- Taking up a file moves nothing. -/
@[simp] lemma place?_settle (q : Text) :
    (settle config index dryRun disk file).place? q = disk.place? q := by
  unfold settle
  split
  · split_ifs
    · rfl
    · exact File.Disk.place?_writeText _ _ _ q
  · rfl

/-- Taking up a file gives it the content that it should have. -/
lemma content?_settle_self (h : (disk.place? file.1).isSome = true) :
    (settle config index dryRun disk file).content? file.1
      = settledContent config index dryRun (disk.content? file.1) file := by
  obtain ⟨cs, hplace⟩ := Option.isSome_iff_exists.mp h
  unfold settle settledContent
  split
  · split_ifs
    · rfl
    · rw [File.Disk.content?_writeText, if_pos rfl, hplace]
      rfl
  · rfl

/-- Taking up a file leaves the others as they are. -/
lemma content?_settle_of_ne {q : Text} (h : disk.place? q ≠ disk.place? file.1) :
    (settle config index dryRun disk file).content? q = disk.content? q := by
  unfold settle
  split
  · split_ifs
    · rfl
    · rw [File.Disk.content?_writeText, if_neg h]
  · rfl

/-! ## Several files -/

/-- A run moves nothing. -/
lemma place?_foldl_settle (disk : File.Disk) (files : List (Text × Text)) (q : Text) :
    (files.foldl (settle config index dryRun) disk).place? q = disk.place? q := by
  induction files generalizing disk with
  | nil => rfl
  | cons file files ih => rw [List.foldl_cons, ih, place?_settle]

/-- A run leaves the files that it is not about as they are. -/
lemma content?_foldl_settle_of_ne {files : List (Text × Text)} {q : Text}
    (h : ∀ f ∈ files, disk.place? q ≠ disk.place? f.1) :
    (files.foldl (settle config index dryRun) disk).content? q = disk.content? q := by
  induction files generalizing disk with
  | nil => rfl
  | cons file files ih =>
    obtain ⟨hhead, htail⟩ := List.forall_mem_cons.mp h
    rw [List.foldl_cons, ih, content?_settle_of_ne hhead]
    intro f hf
    rw [place?_settle, place?_settle]
    exact htail f hf

/-- **A run over different files gives each of them what its own conversion says**, whatever the
others come to. -/
lemma content?_foldl_settle {files : List (Text × Text)}
    (hdistinct : files.Pairwise fun f g => disk.place? f.1 ≠ disk.place? g.1)
    (hplace : (disk.place? file.1).isSome = true) (hfile : file ∈ files) :
    (files.foldl (settle config index dryRun) disk).content? file.1
      = settledContent config index dryRun (disk.content? file.1) file := by
  induction files generalizing disk with
  | nil => cases hfile
  | cons f files ih =>
    obtain ⟨hhead, htail⟩ := List.pairwise_cons.mp hdistinct
    rw [List.foldl_cons]
    rcases List.mem_cons.mp hfile with rfl | hmem
    · -- its own turn, and then the turns of the others
      rw [content?_foldl_settle_of_ne, content?_settle_self hplace]
      intro g hg
      rw [place?_settle, place?_settle]
      exact hhead g hg
    · rw [ih _ _ hmem, content?_settle_of_ne (Ne.symm (hhead file hmem))]
      · simpa only [place?_settle] using htail
      · rwa [place?_settle]

/-- Files that fail can be left out of a run. -/
lemma foldl_settle_filter {keep : Text × Text → Bool} {files : List (Text × Text)}
    (hkeep : ∀ f ∈ files, keep f = false → fails config index f = true) (disk : File.Disk) :
    (files.filter keep).foldl (settle config index dryRun) disk
      = files.foldl (settle config index dryRun) disk := by
  induction files generalizing disk with
  | nil => rfl
  | cons f files ih =>
    obtain ⟨hhead, htail⟩ := List.forall_mem_cons.mp hkeep
    cases hf : keep f with
    | false =>
      rw [List.filter_cons_of_neg (by simp [hf]), ih htail, List.foldl_cons,
        settle_of_fails (hhead hf)]
    | true => rw [List.filter_cons_of_pos hf, List.foldl_cons, List.foldl_cons, ih htail]

/-- Leaving out files that fail leaves out none that gets another text. -/
lemma filter_rewritten?_filter {keep : Text × Text → Bool} {files : List (Text × Text)}
    (hkeep : ∀ f ∈ files, keep f = false → fails config index f = true) :
    (files.filter keep).filter (fun f => (rewritten? config index f).isSome)
      = files.filter fun f => (rewritten? config index f).isSome := by
  rw [List.filter_filter]
  refine List.filter_congr fun f hf => ?_
  cases hkept : keep f with
  | true => rw [Bool.and_true]
  | false =>
    rw [rewritten?_of_fails (hkeep f hf hkept)]
    rfl

end Files

end Batch

/-! ## Progress lines -/

namespace Number

/-- Rounding to an integer adds at most one. -/
lemma nearest_le (n d : Nat) : nearest n d ≤ n / d + 1 := by
  unfold nearest
  dsimp only
  split_ifs <;> omega

/-- Quotients that are not large are rounded on a grid finer than the integers. -/
lemma gridExponent_lt_zero {n d : Nat} (hn : n ≠ 0) (h : n ≤ 1024 * d) :
    gridExponent n d < 0 := by
  have hlog : Nat.log2 n < Nat.log2 d + 11 := by
    have hd : d < 2 ^ (Nat.log2 d + 1) := Nat.lt_log2_self
    rw [Nat.log2_lt hn]
    rw [Nat.pow_succ] at hd
    rw [Nat.pow_add]
    omega
  unfold gridExponent
  dsimp only
  split_ifs <;> omega

/-- **A quotient that is not large has a nearest double**, which is not much larger. -/
lemma exists_double? {n d m : Nat} (hm : m < 1024) (h : n ≤ m * d) :
    ∃ x, double? n d = some x ∧ x.num ≤ (m + 1) * x.den := by
  by_cases hn : n = 0
  · refine ⟨⟨0, 0⟩, by rw [double?, if_pos hn], Nat.zero_le _⟩
  · have hexp : gridExponent n d < 0 :=
      gridExponent_lt_zero hn (Nat.le_trans h (Nat.mul_le_mul_right d (Nat.le_of_lt hm)))
    generalize hP : Nat.pow 2 (-gridExponent n d).toNat = P
    have hpos : 0 < P := by
      rw [← hP]
      exact Nat.two_pow_pos _
    have hden : (onGrid n d (gridExponent n d)).den = P := hP
    have hnum : (onGrid n d (gridExponent n d)).num ≤ (m + 1) * P := by
      have hzero : (gridExponent n d).toNat = 0 := by omega
      have heq : (onGrid n d (gridExponent n d)).num = nearest (n * P) d := by
        unfold onGrid Dyadic.num
        dsimp only
        rw [hzero, hP]
        simp
      have hdiv : n * P / d ≤ m * P := by
        apply Nat.div_le_of_le_mul
        calc n * P ≤ m * d * P := Nat.mul_le_mul_right P h
          _ = d * (m * P) := by rw [Nat.mul_comm m, Nat.mul_assoc]
      calc (onGrid n d (gridExponent n d)).num = nearest (n * P) d := heq
        _ ≤ n * P / d + 1 := nearest_le _ _
        _ ≤ m * P + P := Nat.add_le_add hdiv hpos
        _ = (m + 1) * P := (Nat.succ_mul m P).symm
    refine ⟨onGrid n d (gridExponent n d), ?_, by rwa [hden]⟩
    have hlarge : ∀ k, m < k → (m + 1) * P < Nat.pow 2 k * P := fun k hk =>
      Nat.mul_lt_mul_of_pos_right (Nat.lt_of_le_of_lt hk Nat.lt_two_pow_self) hpos
    rw [double?, if_neg hn]
    dsimp only
    rw [hden, if_pos (Nat.lt_of_le_of_lt hnum (hlarge 1024 hm))]

end Number

/-- **There is a progress line for every file of a run.** -/
lemma exists_progressLine {current total : Nat} (h : current ≤ total) (path : Text) :
    ∃ line, progressLine current total path = .ok line := by
  have hpercent : ∃ percent, percentage current total = .ok percent := by
    unfold percentage
    by_cases hzero : (total : Int) = 0
    · exact ⟨_, if_pos hzero⟩
    · obtain ⟨q, hq, hle⟩ :=
        Number.exists_double? (m := 1) (by decide) (by omega : current ≤ 1 * total)
      obtain ⟨x, hx, -⟩ := Number.exists_double? (m := 200) (by decide)
        (by omega : 100 * q.num ≤ 200 * q.den)
      rw [if_neg hzero, Int.natAbs_natCast, Int.natAbs_natCast, hq]
      dsimp only
      rw [hx]
      exact ⟨_, rfl⟩
  obtain ⟨percent, hpercent⟩ := hpercent
  unfold progressLine
  rw [hpercent]
  exact ⟨_, rfl⟩

/-! ## Events -/

/-- The progress line of the file number `current` of `total`, or why there is none. -/
def progressText (current total : Nat) (path : Text) : Text :=
  match progressLine current total path with
  | .ok line => line
  | .error e => e.message

/-- What is printed for a file of a run is its progress line. -/
lemma progressLine_eq {current total : Nat} (h : current ≤ total) (path : Text) :
    progressLine current total path = .ok (progressText current total path) := by
  obtain ⟨line, hline⟩ := exists_progressLine h path
  rw [progressText, hline]

namespace World

/-- Events are performed one after the other. -/
lemma performAll_append (w : World) (events events' : List Event) :
    w.performAll (events ++ events') = (w.performAll events).performAll events' :=
  List.foldl_append

/-- Telling warnings changes neither the files nor what is printed. -/
lemma performAll_warnings (w : World) (silent : Bool) (warnings : List Warning) :
    (w.performAll (if silent then [] else warnings.map Event.warning)).disk = w.disk
      ∧ (w.performAll (if silent then [] else warnings.map Event.warning)).out = w.out := by
  cases silent with
  | true => exact ⟨rfl, rfl⟩
  | false =>
    rw [if_neg Bool.false_ne_true]
    induction warnings generalizing w with
    | nil => exact ⟨rfl, rfl⟩
    | cons warning warnings ih => exact ih (w.perform (Event.warning warning))

/-- A progress line is printed. -/
lemma perform_progress (w : World) (current total : Nat) (path : Text) :
    w.perform (Event.progress current total path)
      = { w with out := w.out ++ (progressText current total path ++ ['\n']) } := by
  unfold Event.progress progressText
  cases progressLine current total path <;> rfl

end World

/-! ## The account -/

namespace Batch

variable {config : Config} {index : DefaultIndex} {dryRun silent : Bool} {b : Batch}
  {file : Text × Text}

/-- **The ways of a turn**: a file fails, keeps its text, or gets another one. -/
lemma turn_cases (config : Config) (index : DefaultIndex) (dryRun silent : Bool) (b : Batch)
    (file : Text × Text) :
    ∃ warnings, (∃ e, outcome config index file = .error e ∧ turn config index dryRun silent b file
          = ((b.takeUp file.1).hear silent warnings).skip file.1 e)
      ∨ (outcome config index file = .ok file.2 ∧ turn config index dryRun silent b file
          = (b.takeUp file.1).hear silent warnings)
      ∨ ∃ t, outcome config index file = .ok t ∧ t ≠ file.2
        ∧ turn config index dryRun silent b file
          = ((b.takeUp file.1).hear silent warnings).change dryRun file.1 t := by
  refine ⟨(convert file.2 (some file.1) config (some index)).run.warnings, ?_⟩
  unfold turn outcome
  dsimp only
  cases (convert file.2 (some file.1) config (some index)).run.value with
  | error e => exact Or.inl ⟨e, rfl, rfl⟩
  | ok t =>
    dsimp only
    split_ifs with hsame
    · exact Or.inr (Or.inl ⟨congrArg _ hsame, rfl⟩)
    · exact Or.inr (Or.inr ⟨t, rfl, hsame, rfl⟩)

/-- **What the account says** when the files `done` of a run over `n` files have been taken up in
the world `w`. -/
structure Accounts (config : Config) (index : DefaultIndex) (dryRun : Bool) (w : World) (n : Nat)
    (done : List (Text × Text)) (b : Batch) : Prop where
  total : b.total = n
  current : b.current = done.length
  changed : b.changed = (done.filter fun f => (rewritten? config index f).isSome).map Prod.fst
  failed : b.failed = (done.filter (fails config index)).map Prod.fst
  disk : (w.performAll b.events).disk = done.foldl (settle config index dryRun) w.disk
  out : (w.performAll b.events).out = w.out ++ ((done.map Prod.fst).zipIdx 1).flatMap
    fun numbered => progressText numbered.2 n numbered.1 ++ ['\n']

/-- Taking up a file prints its number and its path. -/
lemma performAll_takeUp_hear (w : World) (b : Batch) (silent : Bool) (path : Text)
    (warnings : List Warning) :
    (w.performAll ((b.takeUp path).hear silent warnings).events).disk
        = (w.performAll b.events).disk
      ∧ (w.performAll ((b.takeUp path).hear silent warnings).events).out
        = (w.performAll b.events).out
          ++ (progressText (b.current + 1) b.total path ++ ['\n']) := by
  obtain ⟨hdisk, hout⟩ := (w.performAll (b.takeUp path).events).performAll_warnings silent warnings
  have htakeUp : w.performAll (b.takeUp path).events
      = (w.performAll b.events).perform (.progress (b.current + 1) b.total path) :=
    w.performAll_append _ _
  unfold hear
  rw [World.performAll_append, hdisk, hout, htakeUp, World.perform_progress]
  exact ⟨rfl, rfl⟩

/-- **A turn keeps the account**, on each of its ways. -/
lemma Accounts.turn {w : World} {n : Nat} {done : List (Text × Text)}
    (h : Accounts config index dryRun w n done b) (silent : Bool) (file : Text × Text) :
    Accounts config index dryRun w n (done ++ [file])
      (turn config index dryRun silent b file) := by
  obtain ⟨warnings, hways⟩ := turn_cases config index dryRun silent b file
  obtain ⟨hdisk, hout⟩ := performAll_takeUp_hear w b silent file.1 warnings
  have hcurrent : b.current + 1 = (done ++ [file]).length := by
    rw [h.current, List.length_append, List.length_singleton]
  have hlines : (w.performAll b.events).out
        ++ (progressText (b.current + 1) b.total file.1 ++ ['\n'])
      = w.out ++ (((done ++ [file]).map Prod.fst).zipIdx 1).flatMap
        fun numbered => progressText numbered.2 n numbered.1 ++ ['\n'] := by
    rw [h.out, h.current, h.total, List.map_append, List.zipIdx_append, List.flatMap_append,
      List.append_assoc, List.length_map, Nat.add_comm 1]
    simp
  rcases hways with ⟨e, hresult, hturn⟩ | ⟨hresult, hturn⟩ | ⟨t, hresult, hne, hturn⟩
  · have hfails : fails config index file = true := fails_iff.mpr ⟨e, hresult⟩
    have hnone := rewritten?_of_fails hfails
    rw [hturn]
    refine ⟨h.total, hcurrent, ?_, ?_, ?_, ?_⟩
    · exact h.changed.trans (by simp [hnone])
    · simp [hfails, skip, hear, takeUp, h.failed]
    · rw [List.foldl_append, ← h.disk, ← hdisk, skip, World.performAll_append]
      exact (settle_of_fails hfails).symm
    · rw [← hlines, ← hout, skip, World.performAll_append]
      rfl
  · have hnone : rewritten? config index file = none := by
      rw [rewritten?, hresult]
      exact if_pos rfl
    have hfails : fails config index file = false := by rw [fails, hresult]
    rw [hturn]
    refine ⟨h.total, hcurrent, ?_, ?_, ?_, hout.trans hlines⟩
    · exact h.changed.trans (by simp [hnone])
    · exact h.failed.trans (by simp [hfails])
    · rw [List.foldl_append, ← h.disk, ← hdisk, List.foldl_cons, settle, hnone]
      rfl
  · have hsome := rewritten?_eq_some_iff.mpr ⟨hresult, hne⟩
    have hfails : fails config index file = false := by rw [fails, hresult]
    rw [hturn]
    refine ⟨h.total, hcurrent, ?_, ?_, ?_, ?_⟩
    · simp [hsome, change, hear, takeUp, h.changed]
    · exact h.failed.trans (by simp [hfails])
    · rw [List.foldl_append, ← h.disk, ← hdisk, List.foldl_cons, settle, hsome, change,
        World.performAll_append]
      cases dryRun <;> rfl
    · rw [← hlines, ← hout, change, World.performAll_append]
      cases dryRun <;> rfl

/-- **A run keeps the account**: when it is over, the account tells of all files. -/
lemma accounts_turns (config : Config) (index : DefaultIndex) (dryRun silent : Bool) (w : World)
    (files : List (Text × Text)) :
    Accounts config index dryRun w files.length files (turns config index dryRun silent files) := by
  have hstart : Accounts config index dryRun w files.length [] { total := files.length } :=
    ⟨rfl, rfl, rfl, rfl, rfl, (List.append_nil _).symm⟩
  have hrun : ∀ (rest done : List (Text × Text)) (b : Batch),
      Accounts config index dryRun w files.length done b →
      Accounts config index dryRun w files.length (done ++ rest)
        (rest.foldl (Batch.turn config index dryRun silent) b) := by
    intro rest
    induction rest with
    | nil =>
      intro done b h
      rwa [List.append_nil]
    | cons file rest ih =>
      intro done b h
      rw [List.append_cons]
      exact ih _ _ (h.turn silent file)
  exact hrun files [] _ hstart

end Batch

end Esmify
