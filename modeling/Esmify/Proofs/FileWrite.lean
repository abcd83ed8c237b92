import Mathlib.Data.List.Basic
import Mathlib.Tactic.Lemma
import Esmify.File.Tree

/-!
# Writing a file

**A write changes the content of one file and nothing else.** The tree is seen through two views:
what files hold (`fileAt?`), and what there is at given components, a file, a folder or nothing
(`kindAt?`). A write to a file changes the first view at the components of the file and leaves the
second as it is (`views_put`). A walk looks at the second view only (`walk_agree`), so every path
leads where it led before (`place?_writeText`), and a path to another file finds what it found
(`content?_writeText`).

**What is written is read back**: a text is decoded from the bytes that encode it
(`decode_encode`). -/

namespace Esmify.File

/-! ## Texts and bytes -/

/-- What the first byte of a character says about the bytes behind it. -/
lemma following?_eq (b : UInt8) :
    following? b =
      if b.toNat < 0x80 then some 0 else if b.toNat < 0xc2 then none
      else if b.toNat < 0xe0 then some 1 else if b.toNat < 0xf0 then some 2
      else if b.toNat < 0xf5 then some 3 else none := by
  simp [following?, UInt8.lt_iff_toNat_lt]

/-- The bytes that continue a character. -/
lemma isContinuation_iff {b : UInt8} :
    isContinuation b = true ↔ 0x80 ≤ b.toNat ∧ b.toNat < 0xc0 := by
  simp [isContinuation, UInt8.le_iff_toNat_le, UInt8.lt_iff_toNat_lt]

/-- The bytes that can be the second one of a character. -/
lemma canFollow_iff {first b : UInt8} :
    canFollow first b = true ↔ (0x80 ≤ b.toNat ∧ b.toNat < 0xc0)
      ∧ (first.toNat = 0xe0 → 0xa0 ≤ b.toNat) ∧ (first.toNat = 0xed → b.toNat < 0xa0)
      ∧ (first.toNat = 0xf0 → 0x90 ≤ b.toNat) ∧ (first.toNat = 0xf4 → b.toNat < 0x90) := by
  rw [canFollow, Bool.and_eq_true, isContinuation_iff]
  simp [← UInt8.toNat_inj, UInt8.le_iff_toNat_le, UInt8.lt_iff_toNat_lt]
  tauto

section Decoding

variable {position : Nat} {done : Text} {b : UInt8} {bs : Bytes}

/-- A byte that more bytes follow begins a character. -/
lemma decodeFrom_first {n : Nat} (h : following? b = some (n + 1)) :
    decodeFrom position none done (b :: bs) = decodeFrom (position + 1)
      (some ⟨b, position, 1, n + 1, payload (n + 1) b⟩) done bs := by
  rw [decodeFrom, h]

/-- The last byte of a character completes it. -/
lemma decodeFrom_last {p : Unfinished} (h : p.accepts b = true) (hlast : p.missing = 1) :
    decodeFrom position (some p) done (b :: bs) = decodeFrom (position + 1) none
      (Char.ofNat (p.bits * 0x40 + b.toNat % 0x40) :: done) bs := by
  rw [decodeFrom, if_pos h, if_pos (Nat.le_of_eq hlast)]

/-- A byte in the middle of a character adds its bits. -/
lemma decodeFrom_middle {p : Unfinished} (h : p.accepts b = true) (hmore : 1 < p.missing) :
    decodeFrom position (some p) done (b :: bs) = decodeFrom (position + 1)
      (some { p with read := p.read + 1, missing := p.missing - 1,
                     bits := p.bits * 0x40 + b.toNat % 0x40 }) done bs := by
  rw [decodeFrom, if_pos h, if_neg (Nat.not_le.mpr hmore)]

/-- The bytes of a character with two of them. -/
lemma decodeFrom_two {b₁ : UInt8} (hcount : following? b = some 1) (h₁ : canFollow b b₁ = true) :
    decodeFrom position none done (b :: b₁ :: bs) = decodeFrom (position + 2) none
      (Char.ofNat (b.toNat % 0x20 * 0x40 + b₁.toNat % 0x40) :: done) bs := by
  have haccepts : Unfinished.accepts ⟨b, position, 1, 1, payload 1 b⟩ b₁ = true := h₁
  rw [decodeFrom_first hcount, decodeFrom_last haccepts rfl, payload]

/-- The bytes of a character with three of them. -/
lemma decodeFrom_three {b₁ b₂ : UInt8} (hcount : following? b = some 2)
    (h₁ : canFollow b b₁ = true) (h₂ : isContinuation b₂ = true) :
    decodeFrom position none done (b :: b₁ :: b₂ :: bs) = decodeFrom (position + 3) none
      (Char.ofNat ((b.toNat % 0x10 * 0x40 + b₁.toNat % 0x40) * 0x40 + b₂.toNat % 0x40) :: done)
      bs := by
  have haccepts : Unfinished.accepts ⟨b, position, 1, 2, payload 2 b⟩ b₁ = true := h₁
  rw [decodeFrom_first hcount, decodeFrom_middle haccepts Nat.one_lt_two]
  exact decodeFrom_last h₂ rfl

/-- The bytes of a character with four of them. -/
lemma decodeFrom_four {b₁ b₂ b₃ : UInt8} (hcount : following? b = some 3)
    (h₁ : canFollow b b₁ = true) (h₂ : isContinuation b₂ = true) (h₃ : isContinuation b₃ = true) :
    decodeFrom position none done (b :: b₁ :: b₂ :: b₃ :: bs) = decodeFrom (position + 4) none
      (Char.ofNat (((b.toNat % 0x08 * 0x40 + b₁.toNat % 0x40) * 0x40 + b₂.toNat % 0x40) * 0x40
        + b₃.toNat % 0x40) :: done) bs := by
  have haccepts : Unfinished.accepts ⟨b, position, 1, 3, payload 3 b⟩ b₁ = true := h₁
  rw [decodeFrom_first hcount, decodeFrom_middle haccepts (by decide : 1 < 3)]
  refine Eq.trans (decodeFrom_middle ?_ ?_) (decodeFrom_last ?_ ?_)
  · exact h₂
  · exact Nat.one_lt_two
  · exact h₃
  · rfl

end Decoding

/-- **A character is decoded from its bytes**, be they one, two, three or four. -/
lemma decodeFrom_utf8EncodeChar (c : Char) (position : Nat) (done : Text) (bs : Bytes) :
    ∃ position', decodeFrom position none done (String.utf8EncodeChar c ++ bs)
      = decodeFrom position' none (c :: done) bs := by
  have hvalid : c.toNat < 0xd800 ∨ 0xdfff < c.toNat ∧ c.toNat < 0x110000 := c.valid
  have hbyte : ∀ n < 256, (UInt8.ofNat n).toNat = n := fun n hn => UInt8.toNat_ofNat_of_lt' hn
  have hback : ∀ n, n = c.toNat → Char.ofNat n = c := by
    intro n hn
    rw [hn, Char.ofNat_toNat]
  unfold String.utf8EncodeChar
  dsimp only
  rw [Char.toNat_val]
  generalize c.toNat = v at hvalid hback
  -- the bytes behind the first have six bits each
  have hlow := hbyte (v % 64 + 128) (by omega)
  have hmid := hbyte (v / 64 % 64 + 128) (by omega)
  have hhigh := hbyte (v / 4096 % 64 + 128) (by omega)
  have hlast := isContinuation_iff.mpr (by rw [hlow]; omega)
  have hnext := isContinuation_iff.mpr (by rw [hmid]; omega)
  split_ifs with hone htwo hthree
  · have hfirst := hbyte v (by omega)
    refine ⟨position + 1, ?_⟩
    rw [List.singleton_append, decodeFrom, following?_eq, hfirst, if_pos (by omega)]
    dsimp only
    rw [hback v rfl]
  · have hfirst := hbyte (v / 64 % 32 + 192) (by omega)
    have hcount : following? (UInt8.ofNat (v / 64 % 32 + 192)) = some 1 := by
      rw [following?_eq, hfirst, if_neg (by omega), if_neg (by omega), if_pos (by omega)]
    have hsecond : canFollow (UInt8.ofNat (v / 64 % 32 + 192)) (UInt8.ofNat (v % 64 + 128))
        = true := by
      rw [canFollow_iff, hfirst, hlow]
      omega
    exact ⟨_, by rw [List.cons_append, List.singleton_append, decodeFrom_two hcount hsecond, hfirst,
      hlow, hback _ (by omega)]⟩
  · have hfirst := hbyte (v / 4096 % 16 + 224) (by omega)
    have hcount : following? (UInt8.ofNat (v / 4096 % 16 + 224)) = some 2 := by
      rw [following?_eq, hfirst, if_neg (by omega), if_neg (by omega), if_neg (by omega),
        if_pos (by omega)]
    have hsecond : canFollow (UInt8.ofNat (v / 4096 % 16 + 224)) (UInt8.ofNat (v / 64 % 64 + 128))
        = true := by
      rw [canFollow_iff, hfirst, hmid]
      omega
    exact ⟨_, by rw [List.cons_append, List.cons_append, List.singleton_append,
      decodeFrom_three hcount hsecond hlast, hfirst, hmid, hlow, hback _ (by omega)]⟩
  · have hfirst := hbyte (v / 262144 % 8 + 240) (by omega)
    have hcount : following? (UInt8.ofNat (v / 262144 % 8 + 240)) = some 3 := by
      rw [following?_eq, hfirst, if_neg (by omega), if_neg (by omega), if_neg (by omega),
        if_neg (by omega), if_pos (by omega)]
    have hsecond : canFollow (UInt8.ofNat (v / 262144 % 8 + 240))
        (UInt8.ofNat (v / 4096 % 64 + 128)) = true := by
      rw [canFollow_iff, hfirst, hhigh]
      omega
    exact ⟨_, by rw [List.cons_append, List.cons_append, List.cons_append, List.singleton_append,
      decodeFrom_four hcount hsecond hnext hlast, hfirst, hhigh, hmid, hlow, hback _ (by omega)]⟩

/-- Bytes of characters are decoded to them, behind what has been decoded. -/
lemma decodeFrom_encode (t done : Text) (position : Nat) :
    decodeFrom position none done (encode t) = .ok (done.reverse ++ t) := by
  induction t generalizing done position with
  | nil => simp [encode, decodeFrom]
  | cons c t ih =>
    obtain ⟨position', hchar⟩ := decodeFrom_utf8EncodeChar c position done (encode t)
    have hcons : encode (c :: t) = String.utf8EncodeChar c ++ encode t := List.flatMap_cons
    rw [hcons, hchar, ih, List.reverse_cons, List.append_assoc, List.singleton_append]

/-- **A text is decoded from its bytes.** -/
lemma decode_encode (t : Text) : decode (encode t) = .ok t :=
  decodeFrom_encode t [] 0

/-- A text without carriage returns has its line ends already. -/
lemma normalizeFrom_of_not_mem {t : Text} (h : '\r' ∉ t) (done : Text) :
    normalizeFrom false done t = done.reverse ++ t := by
  induction t generalizing done with
  | nil => simp [normalizeFrom]
  | cons c t ih =>
    obtain ⟨hc, ht⟩ := not_or.mp (mt List.mem_cons.mpr h)
    rw [normalizeFrom, if_neg (by simpa using Ne.symm hc), if_neg (by simp), ih ht,
      List.reverse_cons, List.append_assoc, List.singleton_append]

/-- A text without carriage returns is read as it was written. -/
lemma normalizeBreaks_of_not_mem {t : Text} (h : '\r' ∉ t) : normalizeBreaks t = t :=
  normalizeFrom_of_not_mem h []

/-! ## Views of a tree -/

/-- The content of a file. -/
def Entry.content? : Entry → Option Bytes
  | .file content => some content
  | .folder _ => none

/-- Whether an entry is a folder. -/
def Entry.isFolder : Entry → Bool
  | .file _ => false
  | .folder _ => true

namespace Listing

/-- The content of the file at the given components. -/
def fileAt? (tree : Listing) (cs : List Text) : Option Bytes :=
  (tree.at? cs).bind Entry.content?

/-- What is at the given components: nothing, or else whether it is a folder. -/
def kindAt? (tree : Listing) (cs : List Text) : Option Bool :=
  (tree.at? cs).map Entry.isFolder

/-! ## Writing -/

/-- Nothing is put under another name. -/
lemma get?_put_of_ne {name c : Text} (hne : name ≠ c) (content : Option Bytes) (cs : List Text)
    (tree : Listing) : (put content (c :: cs) tree).get? name = tree.get? name := by
  induction tree with
  | done =>
    rw [put]
    cases cs with
    | nil => cases content <;> simp [chain, get?, Ne.symm hne]
    | cons d ds => simp [chain, get?, Ne.symm hne]
  | file n old rest ih =>
    cases cs with
    | nil =>
      rw [put]
      split_ifs with hname
      · simp only [get?, hname, if_neg (Ne.symm hne)]
      · simp only [get?, ih]
    | cons d ds =>
      rw [put]
      · simp only [get?, ih]
      · simp
  | folder n inside rest _ ih =>
    cases cs with
    | nil =>
      rw [put]
      split_ifs with hname
      · rfl
      · simp only [get?, ih]
    | cons d ds =>
      rw [put]
      · split_ifs with hname
        · simp only [get?, hname, if_neg (Ne.symm hne)]
        · simp only [get?, ih]
      · simp

/-- A file gets its new content. -/
lemma get?_put_file {c : Text} {tree : Listing} {old : Bytes} (h : tree.get? c = some (.file old))
    (content : Bytes) : (put (some content) [c] tree).get? c = some (.file content) := by
  induction tree with
  | done => cases h
  | file n other rest ih =>
    rw [put]
    rw [get?] at h
    split_ifs at h ⊢ with hname
    · rw [get?, if_pos hname, Option.getD_some]
    · rw [get?, if_neg hname, ih h]
  | folder n inside rest _ ih =>
    rw [put]
    rw [get?] at h
    split_ifs at h ⊢ with hname
    · cases h
    · rw [get?, if_neg hname, ih h]

/-- What is put below a folder is put into it. -/
lemma get?_put_folder {c : Text} {cs : List Text} {tree inside : Listing} (hne : cs ≠ [])
    (h : tree.get? c = some (.folder inside)) (content : Option Bytes) :
    (put content (c :: cs) tree).get? c = some (.folder (put content cs inside)) := by
  obtain ⟨d, ds, rfl⟩ := List.exists_cons_of_ne_nil hne
  induction tree with
  | done => cases h
  | file n old rest ih =>
    rw [get?] at h
    split_ifs at h with hname
    · cases h
    · rw [put, get?, if_neg hname, ih h]
      simp
  | folder n other rest _ ih =>
    rw [get?] at h
    rw [put]
    · split_ifs at h ⊢ with hname
      · obtain rfl : other = inside := by simpa using h
        rw [get?, if_pos hname]
      · rw [get?, if_neg hname, ih h]
    · simp

/-- Below a file there is nothing. -/
lemma at?_cons_of_file {tree : Listing} {c : Text} {content : Bytes} (cs : List Text)
    (h : tree.get? c = some (.file content)) :
    tree.at? (c :: cs) = if cs.isEmpty then some (.file content) else none := by
  rw [at?, h]

/-- Below a folder there is what is in it. -/
lemma at?_cons_of_folder {tree inside : Listing} {c : Text} (cs : List Text)
    (h : tree.get? c = some (.folder inside)) : tree.at? (c :: cs) = inside.at? cs := by
  rw [at?, h]

/-- A file is an entry of the tree or stands below a folder of it. -/
lemma at?_eq_file {tree : Listing} {cs : List Text} {content : Bytes}
    (h : tree.at? cs = some (.file content)) :
    (∃ c, cs = [c] ∧ tree.get? c = some (.file content))
      ∨ ∃ c ds inside, cs = c :: ds ∧ ds ≠ [] ∧ tree.get? c = some (.folder inside)
        ∧ inside.at? ds = some (.file content) := by
  cases cs with
  | nil => simp [at?] at h
  | cons c ds =>
    cases hget : tree.get? c with
    | none => simp [at?, hget] at h
    | some entry =>
      cases entry with
      | file other =>
        rw [at?_cons_of_file ds hget] at h
        split_ifs at h with hnil
        exact Or.inl ⟨c, by rw [List.isEmpty_iff.mp hnil], hget.trans h⟩
      | folder inside =>
        rw [at?_cons_of_folder ds hget] at h
        refine Or.inr ⟨c, ds, inside, rfl, ?_, hget, h⟩
        rintro rfl
        simp [at?] at h

/-- What is at components that another name begins is not touched. -/
lemma at?_put_of_ne {name c : Text} (hne : name ≠ c) (content : Option Bytes) (cs ds : List Text)
    (tree : Listing) : (put content (c :: cs) tree).at? (name :: ds) = tree.at? (name :: ds) := by
  rw [at?, at?, get?_put_of_ne hne]

/-- A file that is written has the new content, and the others have theirs; files and folders are
where they were. -/
lemma views_put {tree : Listing} {cs : List Text} {old : Bytes} (h : tree.at? cs = some (.file old))
    (content : Bytes) (ds : List Text) :
    (put (some content) cs tree).fileAt? ds = (if ds = cs then some content else tree.fileAt? ds)
      ∧ (put (some content) cs tree).kindAt? ds = tree.kindAt? ds := by
  induction cs generalizing tree ds with
  | nil => simp [at?] at h
  | cons c cs ih =>
    unfold fileAt? kindAt? at ih ⊢
    cases ds with
    | nil => simp [at?, Entry.content?, Entry.isFolder]
    | cons d ds =>
      by_cases hne : d = c
      · subst hne
        rcases at?_eq_file h with ⟨c, heq, hget⟩ | ⟨c, cs', inside, heq, hnil, hget, hinside⟩
        · -- the file is an entry of this folder
          obtain ⟨rfl, rfl⟩ := List.cons.inj heq
          rw [at?_cons_of_file ds (get?_put_file hget content), at?_cons_of_file ds hget]
          cases ds <;> simp [Entry.content?, Entry.isFolder]
        · obtain ⟨rfl, rfl⟩ := List.cons.inj heq
          rw [at?_cons_of_folder ds (get?_put_folder hnil hget (some content)),
            at?_cons_of_folder ds hget]
          simpa only [List.cons.injEq, true_and] using ih hinside ds
      · rw [at?_put_of_ne hne, if_neg fun heq => hne (List.cons.inj heq).1]
        exact ⟨rfl, rfl⟩

end Listing

namespace Disk

open Listing

/-! ## Walking -/

/-- A walk ends at an entry of the tree. -/
lemma at?_of_walk {tree : Listing} {folder cs ds : List Text} {entry : Entry}
    (h : walk tree folder cs = .ok (ds, entry)) : tree.at? ds = some entry := by
  induction cs generalizing folder with
  | nil =>
    rw [walk] at h
    split at h
    · rename_i e he
      obtain ⟨rfl, rfl⟩ := Prod.mk.inj (Except.ok.inj h)
      exact he
    · cases h
  | cons c cs ih =>
    rw [walk] at h
    split at h
    · split_ifs at h
      · exact ih h
      · exact ih h
      · exact ih h
    · cases h
    · cases h

/-- A walk goes the same way in trees that have files and folders at the same places. -/
lemma walk_agree {tree tree' : Listing} (h : ∀ cs, tree'.kindAt? cs = tree.kindAt? cs)
    (folder cs : List Text) :
    (walk tree' folder cs).map Prod.fst = (walk tree folder cs).map Prod.fst := by
  induction cs generalizing folder with
  | nil =>
    have hkind := h folder.reverse
    unfold kindAt? at hkind
    rw [walk, walk]
    cases hat : tree.at? folder.reverse <;> cases hat' : tree'.at? folder.reverse <;>
      simp_all [Except.map]
  | cons c cs ih =>
    have hkind := h folder.reverse
    unfold kindAt? at hkind
    rw [walk, walk]
    rcases hat : tree.at? folder.reverse with _ | _ | _ <;>
      rcases hat' : tree'.at? folder.reverse with _ | _ | _ <;>
      simp only [hat, hat', Option.map_some, Option.map_none, Entry.isFolder, reduceCtorEq,
        Option.some.injEq] at hkind ⊢
    · split_ifs
      · exact ih folder
      · exact ih folder.tail
      · rfl
      · exact ih (c :: folder)

/-! ## Paths to files -/

/-- The components at which the walk along a path finds a file. -/
def place? (disk : Disk) (path : Text) : Option (List Text) :=
  match disk.resolve path with
  | .ok (cs, .file _) => some cs
  | _ => none

/-- The content of the file at a path. -/
def content? (disk : Disk) (path : Text) : Option Bytes :=
  match disk.resolve path with
  | .ok (_, .file content) => some content
  | _ => none

/-- A path resolves to an entry of the tree. -/
lemma at?_of_resolve {disk : Disk} {path : Text} {cs : List Text} {entry : Entry}
    (h : disk.resolve path = .ok (cs, entry)) : disk.tree.at? cs = some entry := by
  unfold resolve at h
  split_ifs at h
  all_goals exact at?_of_walk h

/-- There is a file at the place of a path. -/
lemma exists_at?_of_place? {disk : Disk} {path : Text} {cs : List Text}
    (h : disk.place? path = some cs) :
    ∃ content, disk.resolve path = .ok (cs, .file content)
      ∧ disk.tree.at? cs = some (.file content) := by
  unfold place? at h
  split at h
  · rename_i ds content hresolve
    obtain rfl := Option.some.inj h
    exact ⟨content, hresolve, at?_of_resolve hresolve⟩
  · cases h

/-- The content of the file at a path is that of the file at its place. -/
lemma content?_eq_bind (disk : Disk) (path : Text) :
    disk.content? path = (disk.place? path).bind disk.tree.fileAt? := by
  unfold content? place?
  cases h : disk.resolve path with
  | error fault => rfl
  | ok found =>
    obtain ⟨cs, entry⟩ := found
    cases entry with
    | file content => simp [fileAt?, at?_of_resolve h, Entry.content?]
    | folder inside => rfl

/-- A path leads to the same place on disks that have files and folders at the same places. -/
lemma place?_agree {disk disk' : Disk} (hhere : disk'.here = disk.here)
    (hkind : ∀ cs, disk'.tree.kindAt? cs = disk.tree.kindAt? cs) (path : Text) :
    disk'.place? path = disk.place? path := by
  have hend : (disk'.resolve path).map Prod.fst = (disk.resolve path).map Prod.fst := by
    unfold resolve
    rw [hhere]
    split_ifs
    · rfl
    · rfl
    all_goals exact walk_agree hkind _ _
  unfold place?
  rcases hfound : disk.resolve path with fault | ⟨cs, entry⟩ <;>
    rcases hfound' : disk'.resolve path with fault' | ⟨cs', entry'⟩
  · rfl
  · simp [hfound, hfound', Except.map] at hend
  · simp [hfound, hfound', Except.map] at hend
  · obtain rfl : cs' = cs := by simpa [hfound, hfound', Except.map] using hend
    have hsame := hkind cs'
    unfold kindAt? at hsame
    rw [at?_of_resolve hfound, at?_of_resolve hfound'] at hsame
    cases entry <;> cases entry' <;> simp_all [Entry.isFolder]

/-! ## Writing -/

/-- What a write to a file does to the tree. -/
lemma writeText_eq {disk : Disk} {path : Text} {cs : List Text} (h : disk.place? path = some cs)
    (text : Text) :
    disk.writeText path text = ⟨disk.tree.put (some (encode text)) cs, disk.here⟩ := by
  obtain ⟨content, hresolve, -⟩ := exists_at?_of_place? h
  unfold writeText
  rw [hresolve]

/-- Nothing is written where there is no file. -/
lemma writeText_of_none {disk : Disk} {path : Text} (h : disk.place? path = none) (text : Text) :
    disk.writeText path text = disk := by
  unfold place? at h
  unfold writeText
  split
  · rename_i hresolve
    rw [hresolve] at h
    cases h
  · rfl

/-- **A write moves nothing**: every path leads where it led before. -/
@[simp] lemma place?_writeText (disk : Disk) (path text q : Text) :
    (disk.writeText path text).place? q = disk.place? q := by
  cases hplace : disk.place? path with
  | none => rw [writeText_of_none hplace]
  | some cs =>
    obtain ⟨content, -, hat⟩ := exists_at?_of_place? hplace
    rw [writeText_eq hplace]
    refine place?_agree ?_ ?_ q
    · rfl
    · exact fun ds => (views_put hat (encode text) ds).2

/-- **A write changes one file**: a path finds the new content if it leads to the same file, and
else what it found before. -/
lemma content?_writeText (disk : Disk) (path text q : Text) :
    (disk.writeText path text).content? q
      = if disk.place? q = disk.place? path then (disk.place? path).map fun _ => encode text
        else disk.content? q := by
  cases hplace : disk.place? path with
  | none =>
    rw [writeText_of_none hplace]
    split_ifs with hq
    · rw [content?_eq_bind, hq]
      rfl
    · rfl
  | some cs =>
    obtain ⟨content, -, hat⟩ := exists_at?_of_place? hplace
    rw [content?_eq_bind, place?_writeText, writeText_eq hplace, content?_eq_bind]
    cases hq : disk.place? q with
    | none => simp
    | some ds =>
      have hfile := (views_put hat (encode text) ds).1
      simpa [Option.some.injEq] using hfile

end Disk

end Esmify.File
