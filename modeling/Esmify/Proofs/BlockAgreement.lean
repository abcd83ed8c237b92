import Mathlib.Data.List.Forall2
import Esmify.Proofs.BlockHeader
import Esmify.Proofs.BlockStep

/-!
# Reading by lines and reading by commas

The line reader takes an object literal in stretches: the lines from one on which it looks for a
member to the next such line. **Of each stretch it reads the pieces that begin on its first line**,
and of a comment none (`reads_readBlock`). What else stands between the commas of a stretch is
swallowed by a value or by a comment, so a text can be accepted and a member of it lost
(`readBlock_loses_member`).

**Both readings find the same members when the stretches are orderly** (`readBlock_lists_pieces`):
no piece begins below the first line of its stretch, and none runs over into the next stretch.

The steps are those of the reader. `progress_first` is about the first line of a stretch and
`progress_extend` about a further one; `reads_stretchesFrom` is the run over all lines. -/

namespace Esmify

open Text Source

/-! ## Stretches -/

/-- Lines that are read together, and the number of members that begin on the first of them. -/
structure Stretch where
  first : Text
  more : List Text := []
  begun : Nat
  deriving DecidableEq, Repr

namespace Stretch

/-- All lines of the stretch. -/
def lines (s : Stretch) : List Text :=
  s.first :: s.more

/-- The lines of the stretch as one text. -/
def text (s : Stretch) : Text :=
  unlines s.lines

/-- The stretch with one more line. -/
def extend (s : Stretch) (line : Text) : Stretch :=
  { s with more := s.more ++ [line] }

/-- The stretch that begins with a line of members. -/
def ofMembers (line : Text) : Stretch :=
  { first := line, begun := (pieces line).length }

/-- The stretch that begins with a line; on a line that is a comment no member begins. -/
def ofLine (line : Text) : Stretch :=
  match LineKind.of (trim line) with
  | .lineComment | .commentStart => { first := line, begun := 0 }
  | _ => ofMembers line

/-- The pieces that begin on the first line of a stretch. -/
def read (s : Stretch) : List Text :=
  (pieces s.text).take s.begun

/-- No piece of the stretch begins below its first line, and none on a comment. -/
def Whole (s : Stretch) : Prop :=
  (pieces s.text).length ≤ s.begun

instance (s : Stretch) : Decidable s.Whole :=
  inferInstanceAs (Decidable (_ ≤ _))

/-- A whole stretch is read as the pieces of its text. -/
lemma Whole.read_eq {s : Stretch} (h : s.Whole) : s.read = pieces s.text :=
  List.take_of_length_le h

/-- One more line comes last. -/
lemma lines_extend (s : Stretch) (line : Text) : (s.extend line).lines = s.lines ++ [line] :=
  rfl

end Stretch

/-- The stretches of the lines that follow, when the reader is in the middle of `s`. -/
def BlockReader.stretchesFrom (r : BlockReader) (s : Stretch) : List Text → List Stretch
  | [] => [s]
  | line :: rest =>
    match r.feed line with
    | .ok r' =>
      if r.state = .scanning then s :: r'.stretchesFrom (.ofLine line) rest
      else r'.stretchesFrom (s.extend line) rest
    | .error _ => [s]

/-- The stretches of the text between the braces of an exported object. -/
def stretches (inner : Text) : List Stretch :=
  let head := inner.lines.head?.getD []
  match BlockReader.feedHead {} head, detectUnit inner.lines.tail with
  | .ok opened, .ok indent =>
    BlockReader.stretchesFrom { opened with indent } (.ofMembers head) inner.lines.tail
  | _, _ => []

/-! ## Exports that list members -/

/-- The exports name the members in order, values apart. -/
structure GlobalExports.Lists (e : GlobalExports) (members : List Member) : Prop where
  properties : e.properties = members.filterMap Member.property?
  keySets : e.keySets = members.filterMap Member.keySet?
  keys : e.assignments.map Assignment.key = members.filterMap Member.key?

/-- Each piece is read as the member in its place. -/
def Classified (pieces : List Text) (members : List Member) : Prop :=
  List.Forall₂ (fun piece m => Member.parse piece = .ok m) pieces members

/-- Members that differ at most in their value. -/
def Member.Alike (m m' : Member) : Prop :=
  m.property? = m'.property? ∧ m.keySet? = m'.keySet? ∧ m.key? = m'.key?

/-- One more member adds its name to the list of its kind. -/
lemma GlobalExports.add_lists (e : GlobalExports) (comment : Option Text) (m : Member) :
    (e.add comment m).properties = e.properties ++ m.property?.toList
      ∧ (e.add comment m).keySets = e.keySets ++ m.keySet?.toList
      ∧ (e.add comment m).assignments.map Assignment.key =
        e.assignments.map Assignment.key ++ m.key?.toList := by
  cases m <;> simp [GlobalExports.add, Member.property?, Member.keySet?, Member.key?]

/-- A list of members stays one when a member and its like are added at the end. -/
lemma GlobalExports.Lists.add {e : GlobalExports} {members : List Member} (h : e.Lists members)
    {m m' : Member} (halike : m.Alike m') (comment : Option Text) :
    (e.add comment m).Lists (members ++ [m']) := by
  obtain ⟨hproperty, hkeySet, hkey⟩ := halike
  obtain ⟨hproperties, hkeySets, hkeys⟩ := e.add_lists comment m
  have hlast : ∀ f : Member → Option Text, [m'].filterMap f = (f m').toList := by
    intro f
    cases hf : f m' <;> simp [hf]
  refine ⟨?_, ?_, ?_⟩
  · rw [hproperties, h.properties, hproperty, List.filterMap_append, hlast]
  · rw [hkeySets, h.keySets, hkeySet, List.filterMap_append, hlast]
  · rw [hkeys, h.keys, hkey, List.filterMap_append, hlast]

/-- Between two states of the exports the members that the pieces are have been added. -/
def Reads (e : GlobalExports) (pieces : List Text) (e' : GlobalExports) : Prop :=
  ∃ added, Classified pieces added ∧ ∀ members, e.Lists members → e'.Lists (members ++ added)

namespace Reads

variable {e e' e'' : GlobalExports}

/-- Nothing is read of no pieces. -/
lemma refl (e : GlobalExports) : Reads e [] e := by
  refine ⟨[], List.Forall₂.nil, ?_⟩
  intro members h
  rwa [List.append_nil]

/-- What is read of two lists of pieces is read of both together. -/
lemma trans {ps qs : List Text} (h : Reads e ps e') (h' : Reads e' qs e'') :
    Reads e (ps ++ qs) e'' := by
  obtain ⟨added, hps, hlists⟩ := h
  obtain ⟨added', hqs, hlists'⟩ := h'
  refine ⟨added ++ added', List.rel_append hps hqs, ?_⟩
  intro members hmembers
  rw [← List.append_assoc]
  exact hlists' _ (hlists _ hmembers)

/-- A piece that is a member is read as that member or its like. -/
lemma add {piece : Text} {m m' : Member} (hparse : Member.parse piece = .ok m')
    (halike : m.Alike m') (e : GlobalExports) (comment : Option Text) :
    Reads e [piece] (e.add comment m) :=
  ⟨[m'], List.Forall₂.cons hparse List.Forall₂.nil, fun _ h => h.add halike comment⟩

/-- A line of members is read by adding what its pieces are. -/
lemma addPieces {r r' : BlockReader} {ps : List Text} (h : r.addPieces ps = .ok r') :
    Reads r.exports ps r'.exports ∧ r'.state = r.state ∧ r'.indent = r.indent := by
  induction ps generalizing r with
  | nil =>
    obtain rfl := Except.ok.inj h
    exact ⟨refl _, rfl, rfl⟩
  | cons p ps ih =>
    rw [BlockReader.addPieces, BlockReader.addPiece] at h
    cases hparse : Member.parse p with
    | error err =>
      rw [hparse] at h
      exact absurd h (by simp)
    | ok m =>
      rw [hparse] at h
      obtain ⟨hreads, hstate, hindent⟩ := ih h
      have hmember : (∃ comment, (r.addMember m).exports = r.exports.add comment m)
          ∧ (r.addMember m).state = r.state ∧ (r.addMember m).indent = r.indent := by
        cases m with
        | property name => exact ⟨⟨none, rfl⟩, rfl, rfl⟩
        | keySet name => exact ⟨⟨none, rfl⟩, rfl, rfl⟩
        | assignment key value => exact ⟨⟨r.comment?, rfl⟩, rfl, rfl⟩
      obtain ⟨⟨comment, hexports⟩, hstate', hindent'⟩ := hmember
      rw [hexports] at hreads
      exact ⟨(add hparse ⟨rfl, rfl, rfl⟩ r.exports comment).trans hreads, hstate.trans hstate',
        hindent.trans hindent'⟩

end Reads

/-! ## Lines and their bodies -/

/-- White space around a text is in none of its pieces. -/
lemma pieces_trim (t : Text) : pieces (trim t) = pieces t := by
  unfold pieces
  rw [parts_eq, parts_eq, piecesOf_trim]

/-- A blank text has no pieces. -/
lemma pieces_eq_nil {t : Text} (h : trim t = []) : pieces t = [] := by
  rw [← pieces_trim, h]
  rfl

/-- A text that leaves brackets open does so in its last piece. -/
lemma exists_open_part {t : Text} (h : 0 < bracketDepth t) :
    ∃ front last, parts t = front ++ [last] ∧ (∃ c ∈ trim last, isOpener c = true)
      ∧ pieces t = piecesOf front ++ [trim last] := by
  obtain ⟨front, last, hparts⟩ := exists_concat_partsFrom false .code 0 t
  rw [bracketDepth_eq] at h
  obtain ⟨c, hmem, hc⟩ := exists_opener hparts h
  have hmem' := mem_trim (isNameChar_of_isOpener hc).2.1 hmem
  refine ⟨front, last, (parts_eq t).trans hparts, ⟨c, hmem', hc⟩, ?_⟩
  rw [pieces, parts_eq, hparts, piecesOf_append, piecesOf_cons, if_neg (List.ne_nil_of_mem hmem')]
  rfl

namespace BlockReader

variable {r r' : BlockReader} {line body : Text}

/-- Outside a comment a line that is read has a body. -/
lemma exists_bodyOf (hstate : r.state ≠ .comment) (h : r.feed line = .ok r') :
    ∃ body, r.bodyOf line = .ok body := by
  cases hbody : r.bodyOf line with
  | ok body => exact ⟨body, rfl⟩
  | error e =>
    unfold feed at h
    split at h
    · next hcomment => exact absurd hcomment hstate
    · rw [hbody] at h
      exact absurd h (by simp)
    · rw [hbody] at h
      exact absurd h (by simp)

/-- A line trimmed is its body trimmed. -/
lemma trim_bodyOf (hindent : ∀ c ∈ r.indent, isBlank c = true) (h : r.bodyOf line = .ok body) :
    trim line = trim body := by
  unfold bodyOf at h
  split at h
  · next hblank =>
    obtain rfl := Except.ok.inj h
    exact trim_eq_nil (List.all_eq_true.mp hblank)
  · split at h
    · next rest hrest =>
      obtain rfl := Except.ok.inj h
      obtain ⟨ending, hending, hsplit, -⟩ := trimEnd_split rest
      rw [after?_eq_some_iff.mp hrest, trim_blanks_append hindent]
      conv_lhs => rw [hsplit]
      exact trim_append_blanks _ hending
    · exact absurd h (by simp)

end BlockReader

/-- Unless a body is indented, its kind can be seen when it is trimmed. -/
lemma LineKind.of_trim {body : Text} (h : LineKind.of body ≠ .continuation) :
    LineKind.of (trim body) = LineKind.of body := by
  unfold LineKind.of at h ⊢
  rw [trim_trim]
  cases hcons : trim body with
  | nil => rfl
  | cons first rest =>
    obtain ⟨-, -, -, -, -, hvisible, -⟩ := trim_split body
    rw [hcons] at h hvisible
    have hfirst : isIndent first = false := by
      rw [← Bool.not_eq_true]
      intro hindent
      exact absurd (isBlank_of_isIndent hindent) (by simp [hvisible first rfl])
    have hbody : (body.head?.map isIndent).getD false = false := by
      rw [← Bool.not_eq_true]
      intro hindent
      exact h (if_pos hindent)
    simp only [List.head?_cons, Option.map_some, Option.getD_some, hfirst, hbody]

/-- A blank line has nothing but white space. -/
lemma LineKind.trim_of_blank {body : Text} (h : LineKind.of body = .blank) : trim body = [] := by
  unfold LineKind.of at h
  split at h
  · next hnil => exact hnil
  · split_ifs at h

/-! ## Progress within a stretch -/

/-- The first line of a stretch leaves the value of `key` open in its `last` part; the members in
front of it have been read. -/
structure Opened (e : GlobalExports) (s : Stretch) (key : Text) (e' : GlobalExports)
    (front : List Text) (last : Text) : Prop where
  split : parts s.first = front ++ [last]
  begun : s.begun = (piecesOf front).length + 1
  reads : Reads e (piecesOf front) e'
  opener : ∃ c ∈ trim last, isOpener c = true
  header : ∃ first, BlockReader.openHeader (trim last) = .ok (key, first)

/-- What has been read of a stretch that began with the exports `e`. -/
def Progress (e : GlobalExports) (s : Stretch) (r : BlockReader) : Prop :=
  match r.state with
  | .scanning => Reads e s.read r.exports
  | .comment => s.begun = 0 ∧ r.exports = e
  | .block key _ _ => ∃ front last, Opened e s key r.exports front last

section Progress

variable {e : GlobalExports} {s : Stretch} {r r' : BlockReader} {line body : Text}

/-- Between members all that has been begun is read. -/
lemma progress_scanning (hstate : r.state = .scanning) :
    Progress e s r ↔ Reads e s.read r.exports := by
  unfold Progress
  rw [hstate]

/-- Inside a comment nothing has been begun. -/
lemma progress_comment (hstate : r.state = .comment) :
    Progress e s r ↔ s.begun = 0 ∧ r.exports = e := by
  unfold Progress
  rw [hstate]

/-- Inside a value everything up to its header is read. -/
lemma progress_block {key : Text} {lines : List Text} {depth : Int}
    (hstate : r.state = .block key lines depth) :
    Progress e s r ↔ ∃ front last, Opened e s key r.exports front last := by
  unfold Progress
  rw [hstate]

/-- A line of members that leaves no bracket open is read whole. -/
lemma read_ofMembers (line : Text) : (Stretch.ofMembers line).read = pieces line := by
  have htext : (Stretch.ofMembers line).text = line := unlines_singleton line
  rw [Stretch.read, htext]
  exact List.take_of_length_le le_rfl

/-- **The first line of a stretch**, when it is a line of members. -/
lemma progress_startMember (hbody : trim line = trim body) (hstate : r.state = .scanning)
    (h : r.startMember body = .ok r') :
    Progress r.exports (.ofMembers line) r' ∧ r'.indent = r.indent := by
  have hpieces : pieces line = pieces body := by rw [← pieces_trim line, hbody, pieces_trim]
  have hdepth : bracketDepth line = bracketDepth body := by
    rw [← bracketDepth_trim line, hbody, bracketDepth_trim]
  rw [BlockReader.startMember_eq] at h
  split_ifs at h with hneg hzero
  · split at h
    · next next hadd =>
      obtain rfl := Except.ok.inj h
      obtain ⟨hreads, hstate', hindent⟩ := Reads.addPieces hadd
      refine ⟨(progress_scanning (hstate'.trans hstate)).mpr ?_, hindent⟩
      rw [read_ofMembers, hpieces]
      exact hreads
    · exact absurd h (by simp)
  · -- The last piece is the one that goes on below.
    obtain ⟨front, last, hparts, hopener, hopen⟩ := exists_open_part
      (show 0 < bracketDepth line by omega)
    rw [← hpieces, hopen, List.dropLast_concat, List.getLast?_concat, Option.getD_some] at h
    split at h
    · next next hadd =>
      obtain ⟨hreads, -, hindent⟩ := Reads.addPieces hadd
      split at h
      · next key header hheader =>
        obtain rfl := Except.ok.inj h
        have hbegun : (Stretch.ofMembers line).begun = (piecesOf front).length + 1 := by
          show (pieces line).length = _
          rw [hopen, List.length_append]
          rfl
        exact ⟨(progress_block rfl).mpr
          ⟨front, last, hparts, hbegun, hreads, hopener, header, hheader⟩, hindent⟩
      · exact absurd h (by simp)
    · exact absurd h (by simp)

/-- A stretch that begins with a comment has begun no line of members. -/
lemma ofLine_comment
    (h : LineKind.of (trim line) = .lineComment ∨ LineKind.of (trim line) = .commentStart) :
    Stretch.ofLine line = { first := line, begun := 0 } := by
  unfold Stretch.ofLine
  rcases h with h | h
  · rw [h]
  · rw [h]

/-- A stretch that begins with a blank line or with members has begun there. -/
lemma ofLine_members (h : LineKind.of (trim line) = .blank ∨ LineKind.of (trim line) = .member) :
    Stretch.ofLine line = .ofMembers line := by
  unfold Stretch.ofLine
  rcases h with h | h
  · rw [h]
  · rw [h]

/-- Nothing is read of a stretch in which no member has begun. -/
lemma read_of_begun {s : Stretch} (h : s.begun = 0) : s.read = [] := by
  rw [Stretch.read, h, List.take_zero]

/-- **The first line of a stretch.** -/
lemma progress_first (hindent : ∀ c ∈ r.indent, isBlank c = true) (hstate : r.state = .scanning)
    (h : r.feed line = .ok r') : Progress r.exports (.ofLine line) r' ∧ r'.indent = r.indent := by
  obtain ⟨body, hbody⟩ := BlockReader.exists_bodyOf (by rw [hstate]; simp) h
  have htrim := BlockReader.trim_bodyOf hindent hbody
  rw [BlockReader.feed_scanning hstate hbody] at h
  have hkind : LineKind.of body ≠ .continuation → LineKind.of (trim line) = LineKind.of body := by
    intro hne
    rw [htrim, LineKind.of_trim hne]
  unfold BlockReader.scanLine at h
  split at h
  · next hblank =>
    obtain rfl := Except.ok.inj h
    refine ⟨(progress_scanning hstate).mpr ?_, rfl⟩
    rw [hblank] at hkind
    rw [ofLine_members (Or.inl (hkind (by simp))), read_ofMembers,
      pieces_eq_nil (htrim.trans (LineKind.trim_of_blank hblank))]
    exact Reads.refl _
  · next hcomment =>
    obtain rfl := Except.ok.inj h
    rw [hcomment] at hkind
    rw [ofLine_comment (Or.inl (hkind (by simp)))]
    exact ⟨(progress_scanning hstate).mpr (Reads.refl _), rfl⟩
  · next hcomment =>
    rw [hcomment] at hkind
    rw [ofLine_comment (Or.inr (hkind (by simp)))]
    obtain rfl := Except.ok.inj h
    split_ifs
    · exact ⟨(progress_scanning hstate).mpr (Reads.refl _), rfl⟩
    · exact ⟨(progress_comment rfl).mpr ⟨rfl, rfl⟩, rfl⟩
  · next hmember =>
    rw [hmember] at hkind
    rw [ofLine_members (Or.inr (hkind (by simp)))]
    exact progress_startMember htrim hstate h
  · exact absurd h (by simp)
  · exact absurd h (by simp)

/-- Whatever lines follow, the member that the first line leaves open is read with its key. -/
lemma Opened.exists_read {key : Text} {e' : GlobalExports} {front : List Text} {last : Text}
    (h : Opened e s key e' front last) :
    ∃ piece value, s.read = piecesOf front ++ [piece]
      ∧ Member.parse piece = .ok (.assignment key value) := by
  obtain ⟨c, hmem, hc⟩ := h.opener
  obtain ⟨header, hheader⟩ := h.header
  have hne : trim last ≠ [] := List.ne_nil_of_mem hmem
  obtain ⟨rest, hcalm, htext⟩ : ∃ rest, Calm rest ∧ s.text = s.first ++ rest := by
    cases hmore : s.more with
    | nil =>
      refine ⟨[], ⟨by simp, by simp⟩, ?_⟩
      rw [Stretch.text, Stretch.lines, hmore, List.append_nil, unlines_singleton]
    | cons line lines =>
      refine ⟨'\n' :: unlines (line :: lines), ⟨by simp, by simp⟩, ?_⟩
      rw [Stretch.text, Stretch.lines, hmore, ← List.singleton_append,
        unlines_append (List.cons_ne_nil _ _) (List.cons_ne_nil _ _), unlines_singleton]
  obtain ⟨front', last', hparts, happend⟩ := exists_partsFrom_append false .code 0 s.first hcalm
  obtain ⟨rfl, hlast⟩ := List.append_inj' (hparts.symm.trans ((parts_eq _).symm.trans h.split)) rfl
  obtain rfl := (List.cons.inj hlast).1
  obtain ⟨first, others, hrest⟩ := exists_cons_partsFrom false (modeAfter .code s.first)
    (0 + depthOf (codeIn .code s.first)) rest
  -- What follows is read into the part that was left open.
  obtain ⟨before, after, hbefore, -, hsplit, -, -⟩ := trim_split last'
  obtain ⟨w, hw⟩ : ∃ w, trim (last' ++ first) = trim last' ++ w := by
    obtain ⟨w, hw⟩ := (firm_trim hne).exists_trim_append (after ++ first)
    refine ⟨w, ?_⟩
    rw [← hw]
    conv_lhs => rw [hsplit]
    rw [List.append_assoc, List.append_assoc, trim_blanks_append hbefore]
  obtain ⟨value, hvalue⟩ := parse_of_openHeader hheader hc hmem w
  refine ⟨trim (last' ++ first), value, ?_, hw ▸ hvalue⟩
  have hpieces : pieces s.text = piecesOf front' ++ [trim (last' ++ first)] ++ piecesOf others := by
    rw [pieces, parts_eq, htext, happend first others hrest, piecesOf_append, piecesOf_cons,
      if_neg (by rw [hw]; simp [hne]), List.append_assoc]
  rw [Stretch.read, hpieces, h.begun]
  exact List.take_left' (by rw [List.length_append]; rfl)

/-- **A further line of a stretch.** -/
lemma progress_extend (hprogress : Progress e s r) (hstate : r.state ≠ .scanning)
    (h : r.feed line = .ok r') : Progress e (s.extend line) r' ∧ r'.indent = r.indent := by
  cases hcase : r.state with
  | scanning => exact absurd hcase hstate
  | comment =>
    obtain ⟨hbegun, rfl⟩ := (progress_comment hcase).mp hprogress
    have hbegun' : (s.extend line).begun = 0 := hbegun
    unfold BlockReader.feed at h
    simp only [hcase] at h
    obtain rfl := Except.ok.inj h
    split_ifs
    · refine ⟨(progress_scanning rfl).mpr ?_, rfl⟩
      rw [read_of_begun hbegun']
      exact Reads.refl _
    · exact ⟨(progress_comment rfl).mpr ⟨hbegun', rfl⟩, rfl⟩
  | block key lines depth =>
    obtain ⟨front, last, hopened⟩ := (progress_block hcase).mp hprogress
    -- The first line stays the same, and nothing else is asked of an open stretch.
    have hopened' : Opened e (s.extend line) key r.exports front last :=
      ⟨hopened.split, hopened.begun, hopened.reads, hopened.opener, hopened.header⟩
    obtain ⟨body, hbody⟩ := BlockReader.exists_bodyOf (by rw [hcase]; simp) h
    rw [BlockReader.feed_block hcase hbody] at h
    have hkind : LineKind.of body ≠ .member := by
      intro hmember
      unfold BlockReader.blockLine at h
      rw [hmember] at h
      exact absurd h (by simp)
    rw [BlockReader.blockLine_eq hkind, BlockReader.continueBlock] at h
    split_ifs at h with hneg hzero
    · obtain rfl := Except.ok.inj h
      refine ⟨(progress_scanning rfl).mpr ?_, rfl⟩
      obtain ⟨piece, value, hread, hparse⟩ := hopened'.exists_read
      have halike : ∀ v, Member.Alike (.assignment key v) (.assignment key value) :=
        fun _ => ⟨rfl, rfl, rfl⟩
      rw [hread]
      exact hopened.reads.trans (Reads.add hparse (halike _) _ _)
    · obtain rfl := Except.ok.inj h
      exact ⟨(progress_block rfl).mpr ⟨front, last, hopened'⟩, rfl⟩

end Progress

/-! ## All stretches -/

namespace BlockReader

variable {r r' : BlockReader}

/-- **What the lines add**: of each stretch the pieces that begin on its first line. -/
lemma reads_stretchesFrom {e : GlobalExports} {s : Stretch} {lines : List Text}
    (hprogress : Progress e s r) (hindent : ∀ c ∈ r.indent, isBlank c = true)
    (hrun : r.feedAll lines = .ok r') (hend : r'.state = .scanning) :
    Reads e ((r.stretchesFrom s lines).flatMap Stretch.read) r'.exports := by
  induction lines generalizing e s r with
  | nil =>
    obtain rfl := Except.ok.inj hrun
    rw [stretchesFrom, List.flatMap_singleton]
    exact (progress_scanning hend).mp hprogress
  | cons line lines ih =>
    rw [feedAll] at hrun
    cases hfeed : r.feed line with
    | error err =>
      rw [hfeed] at hrun
      exact absurd hrun (by simp)
    | ok next =>
      rw [hfeed] at hrun
      rw [stretchesFrom, hfeed]
      by_cases hstate : r.state = .scanning
      · obtain ⟨hnext, hsame⟩ := progress_first hindent hstate hfeed
        simp only [if_pos hstate, List.flatMap_cons]
        exact ((progress_scanning hstate).mp hprogress).trans (ih hnext (hsame ▸ hindent) hrun)
      · obtain ⟨hnext, hsame⟩ := progress_extend hprogress hstate hfeed
        simp only [if_neg hstate]
        exact ih hnext (hsame ▸ hindent) hrun

/-- The stretches are made of all the lines. -/
lemma lines_stretchesFrom {s : Stretch} {lines : List Text} (hrun : r.feedAll lines = .ok r') :
    (r.stretchesFrom s lines).flatMap Stretch.lines = s.lines ++ lines := by
  induction lines generalizing s r with
  | nil => rw [stretchesFrom, List.flatMap_singleton, List.append_nil]
  | cons line lines ih =>
    rw [feedAll] at hrun
    cases hfeed : r.feed line with
    | error err =>
      rw [hfeed] at hrun
      exact absurd hrun (by simp)
    | ok next =>
      rw [hfeed] at hrun
      rw [stretchesFrom, hfeed]
      by_cases hstate : r.state = .scanning
      · have hfirst : (Stretch.ofLine line).lines = [line] := by
          unfold Stretch.ofLine
          split <;> rfl
        simp only [if_pos hstate, List.flatMap_cons]
        rw [ih hrun, hfirst, List.singleton_append]
      · simp only [if_neg hstate]
        rw [ih hrun, Stretch.lines_extend, List.append_assoc, List.singleton_append]

/-- The line of the opening brace is the first line of a stretch. -/
lemma progress_feedHead {head : Text} (h : feedHead {} head = .ok r) :
    Progress {} (.ofMembers head) r := by
  unfold feedHead at h
  split_ifs at h with hblank
  · obtain rfl := Except.ok.inj h
    refine (progress_scanning rfl).mpr ?_
    rw [read_ofMembers, pieces_eq_nil (trim_eq_nil (List.all_eq_true.mp hblank))]
    exact Reads.refl _
  · exact (progress_startMember (trim_trim head).symm rfl h).1

end BlockReader

/-- The unit of indentation is white space. -/
lemma isBlank_of_detectUnit {lines : List Text} {unit : Text} (h : detectUnit lines = .ok unit) :
    ∀ c ∈ unit, isBlank c = true := by
  induction lines with
  | nil =>
    obtain rfl := Except.ok.inj h
    simp
  | cons line lines ih =>
    unfold detectUnit at h
    split_ifs at h
    · exact ih h
    · obtain rfl := Except.ok.inj h
      exact fun c hc => isBlank_of_isIndent (List.mem_takeWhile_imp hc)

section readBlock

variable {inner : Text} {e : GlobalExports}

/-- The steps of reading an object literal that is accepted. -/
lemma exists_of_readBlock (h : readBlock inner = .ok e) : ∃ opened indent r,
    BlockReader.feedHead {} (inner.lines.head?.getD []) = .ok opened
      ∧ detectUnit inner.lines.tail = .ok indent
      ∧ BlockReader.feedAll { opened with indent } inner.lines.tail = .ok r
      ∧ r.state = .scanning ∧ r.exports = e := by
  unfold readBlock at h
  simp only [bind, Except.bind] at h
  split at h
  · exact absurd h (by simp)
  next opened hhead =>
  split at h
  · exact absurd h (by simp)
  next indent hunit =>
  split at h
  · exact absurd h (by simp)
  next r hrun =>
  unfold BlockReader.finish at h
  split at h
  · next hend => exact ⟨opened, indent, r, hhead, hunit, hrun, hend, Except.ok.inj h⟩
  · exact absurd h (by simp)
  · exact absurd h (by simp)

/-- **The line reader reads of each stretch the pieces that begin on its first line.** -/
lemma reads_readBlock (h : readBlock inner = .ok e) :
    Reads {} ((stretches inner).flatMap Stretch.read) e := by
  obtain ⟨opened, indent, r, hhead, hunit, hrun, hend, rfl⟩ := exists_of_readBlock h
  have hprogress := BlockReader.progress_feedHead hhead
  rw [stretches, hhead, hunit]
  -- The unit plays no part in how far the stretch has been read.
  have hprogress' : Progress {} (.ofMembers (inner.lines.head?.getD []))
      { opened with indent } := by
    exact hprogress
  exact BlockReader.reads_stretchesFrom hprogress' (isBlank_of_detectUnit hunit) hrun hend

/-- The stretches of a text that is accepted are the text. -/
lemma unlines_stretches (h : readBlock inner = .ok e) :
    unlines ((stretches inner).flatMap Stretch.lines) = inner := by
  obtain ⟨opened, indent, r, hhead, hunit, hrun, -, -⟩ := exists_of_readBlock h
  rw [stretches, hhead, hunit]
  simp only
  obtain ⟨head, tail, hlines⟩ := List.exists_cons_of_ne_nil (List.splitOn_ne_nil '\n' inner)
  have hall : (Stretch.ofMembers (inner.lines.head?.getD [])).lines ++ inner.lines.tail
      = inner.lines := by
    rw [show inner.lines = head :: tail from hlines]
    rfl
  rw [BlockReader.lines_stretchesFrom hrun, hall]
  exact List.intercalate_splitOn '\n'

end readBlock

/-! ## Orderly stretches -/

/-- No part runs over from one text into the other. -/
def Parted (above below : Text) : Prop :=
  isBlankText (lastPart above) = true ∨ isBlankText (firstPart below) = true

instance (above below : Text) : Decidable (Parted above below) :=
  inferInstanceAs (Decidable (_ ∨ _))

/-- Each stretch is whole, and code between commas does not run over into what stands below. -/
def Orderly : List Stretch → Prop
  | [] => True
  | [s] => s.Whole
  | s :: next :: rest =>
    s.Whole ∧ Closed s.text ∧ Parted s.text (unlines ((next :: rest).flatMap Stretch.lines))
      ∧ Orderly (next :: rest)

instance Orderly.decidable : (ss : List Stretch) → Decidable (Orderly ss)
  | [] => isTrue trivial
  | [s] => inferInstanceAs (Decidable s.Whole)
  | s :: next :: rest =>
    have := Orderly.decidable (next :: rest)
    inferInstanceAs (Decidable (s.Whole ∧ Closed s.text
      ∧ Parted s.text (unlines ((next :: rest).flatMap Stretch.lines)) ∧ Orderly (next :: rest)))

/-- **All pieces of orderly stretches are read.** -/
lemma Orderly.flatMap_read {s : Stretch} {ss : List Stretch} (h : Orderly (s :: ss)) :
    (s :: ss).flatMap Stretch.read = pieces (unlines ((s :: ss).flatMap Stretch.lines)) := by
  induction ss generalizing s with
  | nil =>
    rw [List.flatMap_singleton, List.flatMap_singleton]
    exact Stretch.Whole.read_eq h
  | cons next rest ih =>
    obtain ⟨hwhole, hclosed, hparted, hrest⟩ := h
    have hbelow : (next :: rest).flatMap Stretch.lines ≠ [] := by
      rw [List.flatMap_cons]
      exact List.append_ne_nil_of_left_ne_nil (List.cons_ne_nil _ _) _
    have habove : s.lines ≠ [] := List.cons_ne_nil _ _
    calc (s :: next :: rest).flatMap Stretch.read
        = pieces s.text ++ (next :: rest).flatMap Stretch.read := by
          rw [List.flatMap_cons, hwhole.read_eq]
      _ = pieces s.text ++ pieces (unlines ((next :: rest).flatMap Stretch.lines)) := by
          rw [ih hrest]
      _ = pieces (s.text ++ '\n' :: unlines ((next :: rest).flatMap Stretch.lines)) :=
          (pieces_lines hclosed hparted).symm
      _ = pieces (unlines ((s :: next :: rest).flatMap Stretch.lines)) := by
          conv_rhs => rw [List.flatMap_cons, unlines_append habove hbelow]
          rfl

/-- **Reading by lines and by commas finds the same members**: when an object literal of orderly
stretches is accepted, each of its pieces is a member, and these are the members that were read. -/
theorem readBlock_lists_pieces {inner : Text} {e : GlobalExports} (h : readBlock inner = .ok e)
    (horderly : Orderly (stretches inner)) :
    ∃ members, Classified (pieces inner) members ∧ e.Lists members := by
  obtain ⟨members, hclassified, hlists⟩ := reads_readBlock h
  have hpieces : (stretches inner).flatMap Stretch.read = pieces inner := by
    cases hss : stretches inner with
    | nil =>
      have hnil := unlines_stretches h
      rw [hss] at hnil
      rw [← hnil]
      rfl
    | cons s ss =>
      rw [hss] at horderly
      rw [horderly.flatMap_read, ← hss, unlines_stretches h]
  rw [hpieces] at hclassified
  exact ⟨members, hclassified, hlists [] ⟨rfl, rfl, rfl⟩⟩

/-- Comments, values over several lines, a comma below its member and several members on a line. -/
theorem readBlock_lists_pieces_commented :
    let inner := ("\n  /**\n   * One.\n   */\n  one: \x7b\n    a, b\n  \x7d,\n  // Two.\n"
      ++ "  two(x) \x7b\n    return x\n  \x7d\n  , ...rest, three\n").toList
    let e : GlobalExports :=
      { properties := ["three".toList]
        keySets := ["rest".toList]
        assignments :=
          [⟨"one".toList, "\x7b\n  a, b\n\x7d".toList, some "/**\n * One.\n */".toList⟩,
            ⟨"two".toList, "function two(x) \x7b\n  return x\n\x7d".toList,
              some "// Two.".toList⟩] }
    readBlock inner = .ok e ∧ Orderly (stretches inner)
      ∧ ∃ members, Classified (pieces inner) members ∧ e.Lists members := by
  intro inner e
  have hread : readBlock inner = .ok e := by decide
  have horderly : Orderly (stretches inner) := by decide
  exact ⟨hread, horderly, readBlock_lists_pieces hread horderly⟩

/-- **A member behind a comment on its line is lost**, though the text is accepted. -/
theorem readBlock_loses_member : readBlock "\n  /* one */ a\n".toList = .ok {}
    ∧ ¬ ∃ members, Classified (pieces "\n  /* one */ a\n".toList) members
      ∧ GlobalExports.Lists {} members := by
  have hpieces : pieces "\n  /* one */ a\n".toList = ["a".toList] := by decide
  have hname : Member.parse "a".toList = .ok (.property "a".toList) := by decide
  refine ⟨by decide, ?_⟩
  rintro ⟨members, hclassified, hlists⟩
  rw [hpieces] at hclassified
  cases hclassified with
  | cons hparse hrest =>
    obtain rfl := Except.ok.inj (hname.symm.trans hparse)
    exact absurd hlists.properties (by simp [Member.property?])

end Esmify
