import Mathlib.Data.List.Perm.Basic
import TdsAdmin.Package.Directory
import TdsAdmin.Proof.Package.Complete
import TdsAdmin.Proof.Package.Metadata

/-!
# A directory and its files one by one

What one call of the callback finds depends on where the reported name leads from the directory
`find` is in; what a run on the file alone finds depends on where it leads from the directory
the script was started in. For a path from the root these are the same place. For a relative
path they are not, and the file is not found at all.

`Clear` says it of the files: as long as nothing has ended the script, the callback finds what the
run on the file finds, as far as a record is made of it, and behind the entry that ends it there is
no package left. `directory_run_iff` says that this is the whole difference between the two ways of
running the script.
-/

set_option autoImplicit false

namespace TdsAdmin
namespace Package

open FileTree (Dir Node Position ValidName resolve lookup)

variable {σ : Type} {root : Dir}

/-! ## What the calls are -/

/-- Below a directory every call is about an entry that is there, under valid names. -/
theorem mem_visits : ∀ {entries : Dir} {dir : Position} {v : Visit}, entries.WellFormed →
    v ∈ visits dir entries → ∃ name rest, v.rel = dir ++ name :: rest ∧ name ∈ entries.names ∧
      (∀ c ∈ name :: rest, ValidName c) ∧ ∃ n, (Node.dir entries).at (name :: rest) = some n ∧
        n.isDir = !v.regular
  | .empty, dir, v, _, h => by simp [visits] at h
  | .file m content others, dir, v, hw, h => by
    obtain ⟨hm, hnot, hw⟩ := hw
    rcases List.mem_cons.mp h with rfl | h
    · exact ⟨m, [], rfl, by simp [Dir.names], by simpa using hm, .file content,
        by simp [Node.at, Dir.entry], rfl⟩
    · obtain ⟨name, rest, hrel, hname, hvalid, n, hat, hn⟩ := mem_visits hw h
      have hne : m ≠ name := fun he => hnot (he ▸ hname)
      refine ⟨name, rest, hrel, by simp [Dir.names, hname], hvalid, n, ?_, hn⟩
      rw [Node.at] at hat ⊢
      rw [Dir.entry, if_neg hne]
      exact hat
  | .sub m inner others, dir, v, hw, h => by
    obtain ⟨hm, hnot, hinner, hw⟩ := hw
    rcases List.mem_cons.mp h with rfl | h
    · exact ⟨m, [], rfl, by simp [Dir.names], by simpa using hm, .dir inner,
        by simp [Node.at, Dir.entry], rfl⟩
    rcases List.mem_append.mp h with h | h
    · obtain ⟨name, rest, hrel, hname, hvalid, n, hat, hn⟩ := mem_visits hinner h
      refine ⟨m, name :: rest, by rw [hrel]; simp, by simp [Dir.names], ?_, n, ?_, hn⟩
      · intro c hc
        rcases List.mem_cons.mp hc with rfl | hc
        · exact hm
        · exact hvalid c hc
      · rw [Node.at, Dir.entry, if_pos rfl]
        exact hat
    · obtain ⟨name, rest, hrel, hname, hvalid, n, hat, hn⟩ := mem_visits hw h
      have hne : m ≠ name := fun he => hnot (he ▸ hname)
      refine ⟨name, rest, hrel, by simp [Dir.names, hname], hvalid, n, ?_, hn⟩
      rw [Node.at] at hat ⊢
      rw [Dir.entry, if_neg hne]
      exact hat

/-- No entry is reported twice. -/
theorem visits_nodup : ∀ {entries : Dir} {dir : Position}, entries.WellFormed →
    ((visits dir entries).map Visit.rel).Nodup
  | .empty, dir, _ => by simp [visits]
  | .file m content others, dir, hw => by
    obtain ⟨-, hnot, hw⟩ := hw
    rw [visits, List.map_cons, List.nodup_cons]
    refine ⟨fun hmem => ?_, visits_nodup hw⟩
    obtain ⟨v, hv, hrel⟩ := List.mem_map.mp hmem
    obtain ⟨name, rest, hv', hname, -⟩ := mem_visits hw hv
    rw [hv'] at hrel
    have := List.append_cancel_left hrel
    exact hnot ((List.cons.inj this).1 ▸ hname)
  | .sub m inner others, dir, hw => by
    obtain ⟨-, hnot, hinner, hw⟩ := hw
    have hothers : ∀ {q : Position}, ∀ v ∈ visits dir others, v.rel ≠ dir ++ m :: q := by
      intro q v hv hrel
      obtain ⟨name, rest, hv', hname, -⟩ := mem_visits hw hv
      rw [hv'] at hrel
      have := List.append_cancel_left hrel
      exact hnot ((List.cons.inj this).1 ▸ hname)
    have hin : ∀ v ∈ visits (dir ++ [m]) inner, ∃ name rest,
        v.rel = dir ++ m :: name :: rest := by
      intro v hv
      obtain ⟨name, rest, hv', -⟩ := mem_visits hinner hv
      exact ⟨name, rest, by rw [hv']; simp⟩
    rw [visits, List.map_cons, List.nodup_cons, List.map_append, List.nodup_append]
    refine ⟨fun hmem => ?_, visits_nodup hinner, visits_nodup hw, ?_⟩
    · rcases List.mem_append.mp hmem with hmem | hmem
      · obtain ⟨v, hv, hrel⟩ := List.mem_map.mp hmem
        obtain ⟨name, rest, hv'⟩ := hin v hv
        rw [hv'] at hrel
        have := List.append_cancel_left hrel
        simp at this
      · obtain ⟨v, hv, hrel⟩ := List.mem_map.mp hmem
        exact hothers v hv hrel
    · rintro a ha b hb rfl
      obtain ⟨v, hv, rfl⟩ := List.mem_map.mp ha
      obtain ⟨u, hu, hrel⟩ := List.mem_map.mp hb
      obtain ⟨name, rest, hv'⟩ := hin v hv
      exact hothers u hu (hrel.trans hv')

theorem allVisits_nodup {entries : Dir} (hw : entries.WellFormed) :
    ((allVisits entries).map Visit.rel).Nodup := by
  rw [allVisits, List.map_cons, List.nodup_cons]
  refine ⟨fun hmem => ?_, visits_nodup hw⟩
  obtain ⟨v, hv, hrel⟩ := List.mem_map.mp hmem
  obtain ⟨name, rest, hv', -⟩ := mem_visits hw hv
  rw [hv'] at hrel
  simp at hrel

/-- A directory of a well-formed tree is well-formed. -/
theorem wellFormed_entry : ∀ {entries : Dir} {name : Text} {inner : Dir}, entries.WellFormed →
    entries.entry name = some (.dir inner) → inner.WellFormed
  | .empty, _, _, _, h => by cases h
  | .file m content others, name, inner, hw, h => by
    rw [Dir.entry] at h
    split at h
    · cases h
    · exact wellFormed_entry hw.2.2 h
  | .sub m es others, name, inner, hw, h => by
    rw [Dir.entry] at h
    split at h
    · cases h
      exact hw.2.2.1
    · exact wellFormed_entry hw.2.2.2 h

theorem wellFormed_at : ∀ {p : Position} {top entries : Dir}, top.WellFormed →
    (Node.dir top).at p = some (.dir entries) → entries.WellFormed
  | [], top, entries, hw, h => by
    cases h
    exact hw
  | name :: p, top, entries, hw, h => by
    rw [Node.at] at h
    obtain ⟨n, hn, hat⟩ := Option.bind_eq_some_iff.mp h
    cases n with
    | file content =>
      cases p with
      | nil => cases hat
      | cons c p => cases hat
    | dir inner => exact wellFormed_at (wellFormed_entry hw hn) hat

/-! ## Where the names lead -/

theorem topItem_ne_nil {path : Text} (h : path ≠ []) : topItem path ≠ [] := by
  rw [topItem]
  split
  · rename_i hs
    obtain ⟨t, ht⟩ := List.getLast?_eq_some_iff.mp hs.2
    intro hnil
    rw [ht, List.dropLast_concat] at hnil
    exact hs.1 (by rw [ht, hnil]; rfl)
  · exact h

theorem resolve_topItem {cwd top : Position} {path : Text}
    (h : resolve root cwd path = some top) : resolve root cwd (topItem path) = some top := by
  have hne : path ≠ [] := by
    rintro rfl
    cases h
  have htop := topItem_ne_nil hne
  rw [topItem] at htop ⊢
  split
  · rename_i hs
    obtain ⟨t, ht⟩ := List.getLast?_eq_some_iff.mp hs.2
    rw [if_pos hs, ht, List.dropLast_concat] at htop
    rw [ht, List.dropLast_concat]
    exact FileTree.resolve_slash htop (ht ▸ h)
  · exact h

/-- A step of `findName`. -/
theorem resolve_step {cwd pos : Position} {dir name : Text} {n : Node}
    (h : resolve root cwd dir = some pos) (hname : ValidName name)
    (hat : (Node.dir root).at (pos ++ [name]) = some n) :
    resolve root cwd (if dir = ['/'] then dir ++ name else dir ++ '/' :: name)
      = some (pos ++ [name]) := by
  split
  · rename_i hroot
    subst hroot
    rw [FileTree.resolve_root, Option.some.injEq] at h
    subst h
    exact FileTree.resolve_rootChild hname hat
  · exact FileTree.resolve_child h hname hat

theorem resolve_findName {cwd top : Position} {path : Text} : ∀ {rel : List Text} {n : Node},
    resolve root cwd path = some top → (∀ c ∈ rel, ValidName c) →
    (Node.dir root).at (top ++ rel) = some n →
    resolve root cwd (findName path rel) = some (top ++ rel) := by
  intro rel n h hvalid hat
  have hfold : ∀ {rel : List Text} {pos : Position} {dir : Text},
      resolve root cwd dir = some pos → (∀ c ∈ rel, ValidName c) →
      (∃ n, (Node.dir root).at (pos ++ rel) = some n) →
      resolve root cwd (rel.foldl (fun dir name =>
        if dir = ['/'] then dir ++ name else dir ++ '/' :: name) dir) = some (pos ++ rel) := by
    intro rel
    induction rel with
    | nil =>
      intro pos dir hdir _ _
      rw [List.append_nil]
      exact hdir
    | cons name rel ih =>
      intro pos dir hdir hvalid ⟨n, hn⟩
      have hcons : pos ++ name :: rel = (pos ++ [name]) ++ rel := by simp
      rw [hcons] at hn ⊢
      obtain ⟨m, hm⟩ : ∃ m, (Node.dir root).at (pos ++ [name]) = some m := by
        rw [Node.at_append] at hn
        obtain ⟨m, hm, -⟩ := Option.bind_eq_some_iff.mp hn
        exact ⟨m, hm⟩
      exact ih (resolve_step hdir (hvalid name (by simp)) hm) (fun c hc => hvalid c (by simp [hc]))
        ⟨n, hn⟩
  exact hfold (resolve_topItem h) hvalid ⟨n, hat⟩

/-- Names from the root stay names from the root. -/
theorem findName_absolute {path : Text} (h : path.head? = some '/') :
    ∀ rel : List Text, (findName path rel).head? = some '/' := by
  have htop : (topItem path).head? = some '/' := by
    cases path with
    | nil => cases h
    | cons c path =>
      rw [List.head?_cons, Option.some.injEq] at h
      subst h
      rw [topItem]
      split
      · rename_i hs
        cases path with
        | nil => exact absurd rfl hs.1
        | cons d path => rfl
      · rfl
  have hstep : ∀ (rel : List Text) (dir : Text), dir.head? = some '/' →
      (rel.foldl (fun dir name => if dir = ['/'] then dir ++ name else dir ++ '/' :: name)
        dir).head? = some '/' := by
    intro rel
    induction rel with
    | nil => exact fun dir hdir => hdir
    | cons name rel ih =>
      intro dir hdir
      refine ih _ ?_
      have happend : ∀ t, (dir ++ t).head? = some '/' := fun t => by
        rw [List.head?_append, hdir]
        rfl
      dsimp only
      split
      · exact happend _
      · exact happend _
  exact fun rel => hstep rel _ htop

/-- A name from the root is opened as a file to read, unless it ends like a command. -/
theorem opening_absolute {name : Text} (h : name.head? = some '/')
    (hlast : (strip name).getLast? ≠ some '|') :
    ∃ path, path.head? = some '/' ∧ opening name = .read path := by
  obtain ⟨rest, rfl⟩ : ∃ rest, name = '/' :: rest := by
    cases name with
    | nil => cases h
    | cons c rest => exact ⟨rest, by rw [Option.some.inj h]⟩
  have hstrip : ∃ path, strip ('/' :: rest) = '/' :: path := by
    have hne : ('/' :: rest).rdropWhile Pattern.isSpace ≠ [] := by
      rw [ne_eq, List.rdropWhile_eq_nil_iff]
      intro hall
      exact absurd (hall '/' List.mem_cons_self) (by decide)
    have hdrop : strip ('/' :: rest) = ('/' :: rest).rdropWhile Pattern.isSpace := rfl
    rw [hdrop]
    cases hpath : ('/' :: rest).rdropWhile Pattern.isSpace with
    | nil => exact absurd hpath hne
    | cons c path =>
      have hprefix := List.rdropWhile_prefix Pattern.isSpace (l := '/' :: rest)
      rw [hpath] at hprefix
      exact ⟨path, by rw [(List.cons_prefix_cons.mp hprefix).1]⟩
  obtain ⟨path, hpath⟩ := hstrip
  rw [hpath] at hlast
  refine ⟨'/' :: path, rfl, ?_⟩
  simp [opening, hpath, hlast]

/-! ## The files -/

section
variable (e : Session) (z : Deflater σ)

/-- The library reports no error on the lines that are to be compressed. -/
def Compresses (content : Text) : Prop :=
  ∀ s, scan e.tenantId (Text.lines content) = .ok s → (z.pieces s.testPackage).isSome

/-- A package: the script dies on none of its lines, and it can be compressed. -/
def IsPackage (content : Text) : Prop :=
  ¬ Rejected e.tenantId (Text.lines content) ∧ Compresses e z content

/-- The record that is made of a package. -/
def RecordOf (content : Text) (d : Data) : Prop :=
  ∃ s encoded, scan e.tenantId (Text.lines content) = .ok s ∧
    encodeTestPackage z s.testPackage = .ok encoded ∧ d = buildData e s encoded

/-- One record is made of the two packages. -/
def SameRecord (c c' : Text) : Prop := ∃ d, RecordOf e z c d ∧ RecordOf e z c' d

/-- What is found at two places: for a name, whether there is a file, and what can be read of it.
Either there is no package at both places, or one record is made of both. -/
def FoundAlike (file file' : Option (Option Text)) : Prop :=
  ((∀ c, file = some (some c) → ¬ IsPackage e z c) ∧
    ∀ c, file' = some (some c) → ¬ IsPackage e z c) ∨
  ∃ c c', file = some (some c) ∧ file' = some (some c') ∧ SameRecord e z c c'

/-- The script ends at a file with this content: it cannot be opened, it is no package, or the
service has no JSON for an answer to its record. -/
def EndsAt (content : Option Text) : Prop :=
  match content with
  | none => True
  | some c => ¬ IsPackage e z c ∨
      e.executeParam = true ∧ ∃ d, RecordOf e z c d ∧ (e.answer d).isSome

end

/-! ### What the script does with them -/

section
variable {e : Session} {z : Deflater σ} {name content : Text}

theorem linePieces_isSome {z : Deflater σ} {stream stream' : σ} {encoded out : Text} :
    ∀ {lines : List Text}, deflateLines z stream encoded lines = .ok (out, stream') →
    ∃ ps, z.linePieces stream lines = some (ps, stream') := by
  intro lines
  induction lines generalizing stream encoded with
  | nil =>
    intro h
    cases h
    exact ⟨[], rfl⟩
  | cons line lines ih =>
    intro h
    rw [deflateLines] at h
    cases hd : z.deflate stream line with
    | none =>
      rw [hd] at h
      cases h
    | some r =>
      rw [hd] at h
      obtain ⟨ps, hps⟩ := ih h
      refine ⟨r.1 :: ps, ?_⟩
      rw [Deflater.linePieces, hd, Option.bind_some, hps]
      rfl

/-- The package is encoded exactly if every call is answered. -/
theorem encodes_iff {z : Deflater σ} {testPackage : List Text} :
    (∃ encoded, encodeTestPackage z testPackage = .ok encoded) ↔
      (z.pieces testPackage).isSome := by
  constructor
  · intro ⟨encoded, h⟩
    rw [encodeTestPackage] at h
    cases hi : z.init with
    | none =>
      rw [hi] at h
      cases h
    | some stream =>
      rw [hi] at h
      cases hd : deflateLines z stream [] testPackage with
      | error death =>
        simp [hd, bind, Except.bind] at h
      | ok r =>
        have hpair : deflateLines z stream [] testPackage = .ok (r.1, r.2) := hd
        obtain ⟨ps, hps⟩ := linePieces_isSome hpair
        cases hf : z.flush r.2 with
        | none => simp [hd, hf, bind, Except.bind, throw, throwThe, MonadExceptOf.throw] at h
        | some last =>
          rw [Deflater.pieces, hi, Option.bind_some, hps, Option.bind_some, hf]
          rfl
  · intro h
    obtain ⟨ps, hps⟩ := Option.isSome_iff_exists.mp h
    exact ⟨_, encodeTestPackage_eq hps⟩

/-- A record is made of exactly the packages. -/
theorem isPackage_iff : IsPackage e z content ↔ ∃ d, RecordOf e z content d := by
  constructor
  · rintro ⟨hrejected, hcompresses⟩
    have hscan : ∃ s, scan e.tenantId (Text.lines content) = .ok s := by
      rcases scan_cases e.tenantId (Text.lines content) with h | ⟨⟨R⟩⟩ | ⟨s, hs, -⟩
      · exact absurd h hrejected
      · exact ⟨_, R.scan⟩
      · exact ⟨s, hs⟩
    obtain ⟨s, hs⟩ := hscan
    obtain ⟨encoded, hencoded⟩ := encodes_iff.mpr (hcompresses s hs)
    exact ⟨_, s, encoded, hs, hencoded, rfl⟩
  · rintro ⟨d, s, encoded, hs, hencoded, -⟩
    refine ⟨fun hrejected => ?_, fun s' hs' => ?_⟩
    · obtain ⟨death, hdeath⟩ := hrejected.scan
      rw [hs] at hdeath
      cases hdeath
    · rw [hs] at hs'
      cases hs'
      exact encodes_iff.mp ⟨encoded, hencoded⟩

theorem RecordOf.unique {d d' : Data} (h : RecordOf e z content d) (h' : RecordOf e z content d') :
    d = d' := by
  obtain ⟨s, encoded, hs, hencoded, rfl⟩ := h
  obtain ⟨s', encoded', hs', hencoded', rfl⟩ := h'
  rw [hs] at hs'
  cases hs'
  rw [hencoded] at hencoded'
  cases hencoded'
  rfl

theorem prepare_iff {file : Option Text} {d : Data} : prepare e z name file = .ok d ↔
    ∃ c, file = some c ∧ RecordOf e z c d := by
  rw [prepare_ok_iff]
  constructor
  · rintro ⟨c, s, encoded, hfile, h⟩
    exact ⟨c, hfile, s, encoded, h⟩
  · rintro ⟨c, hfile, s, encoded, h⟩
    exact ⟨c, s, encoded, hfile, h⟩

theorem died_iff {file : Option Text} : (processXmlFile e z name file).died.isSome = true ↔
    isXmlPath name = true ∧ EndsAt e z file := by
  rw [processXmlFile]
  cases isXmlPath name with
  | false => simp
  | true =>
    rw [if_pos rfl, and_iff_right rfl]
    cases hprepare : prepare e z name file with
    | error death =>
      refine iff_of_true rfl ?_
      cases file with
      | none => trivial
      | some c =>
        refine Or.inl fun h => ?_
        obtain ⟨d, hd⟩ := isPackage_iff.mp h
        have hok : prepare e z name (some c) = .ok d := prepare_iff.mpr ⟨c, rfl, hd⟩
        rw [hprepare] at hok
        cases hok
    | ok d =>
      obtain ⟨c, rfl, hd⟩ := prepare_iff.mp hprepare
      have hpackage : IsPackage e z c := isPackage_iff.mpr ⟨d, hd⟩
      have hends : EndsAt e z (some c) ↔ e.executeParam = true ∧ (e.answer d).isSome = true := by
        refine (or_iff_right (not_not_intro hpackage)).trans (and_congr_right fun _ => ?_)
        constructor
        · rintro ⟨d', hd', hanswer⟩
          rw [hd.unique hd']
          exact hanswer
        · intro hanswer
          exact ⟨d, hd, hanswer⟩
      rw [hends]
      cases e.executeParam <;> simp

end

/-! ## The two ways of running the script -/

/-- A run on a directory, from the working directory `cwd`. -/
structure DirectoryRun (m : Machine) where
  cwd : Position
  path : Text
  top : Position
  entries : Dir
  wellFormed : m.root.WellFormed
  leads : resolve m.root cwd path = some top
  isDirectory : (Node.dir m.root).at top = some (.dir entries)

namespace DirectoryRun

variable {m : Machine} (r : DirectoryRun m) (e : Session) (z : Deflater σ)

/-- An order in which `find` may report the entries. -/
abbrev Order := { order : List Visit // order.Perm (allVisits r.entries) }

/-- The request of a run on the file alone, under the name that `find` reports for it. -/
def alone (v : Visit) : List Request :=
  if v.regular then requests e z m r.cwd (findName r.path v.rel) [] else []

/-- The requests of the runs on each regular file below the directory. -/
def eachAlone : List Request := (allVisits r.entries).flatMap (r.alone e z)

/-! ### What is found -/

/-- What the callback finds for an entry, in the directory `find` is in: whether the name leads to
a regular file, and what `open` finds behind it. -/
def found (v : Visit) : Option (Option Text) :=
  match lookup m.root (r.top ++ v.dir) (findName r.path v.rel) with
  | some (.file _) => some (m.openFile (r.top ++ v.dir) (findName r.path v.rel))
  | _ => none

/-- What a run on the file finds, in the directory the script was started in. -/
def itself (v : Visit) : Option (Option Text) :=
  if v.regular then some (m.openFile r.cwd (findName r.path v.rel)) else none

/-- The name is the one of a package file, for the script. -/
def Named (v : Visit) : Prop := isXmlPath (findName r.path v.rel) = true

/-- The callback finds what the run on the file finds, if a record could come of it. -/
def Finds (v : Visit) : Prop :=
  e.executeParam = true → r.Named v → FoundAlike e z (r.found v) (r.itself v)

/-- The script ends at this entry. -/
def Ends (v : Visit) : Prop := r.Named v ∧ ∃ file, r.found v = some file ∧ EndsAt e z file

/-- The entry is a package that is there to be sent. -/
def Waits (v : Visit) : Prop :=
  e.executeParam = true ∧ r.Named v ∧ ∃ c, r.itself v = some (some c) ∧ IsPackage e z c

/-- Until the script ends, and at the entry where it does, it finds the files; and behind that entry
no package is left. -/
def Clear (order : List Visit) : Prop :=
  ∀ before v after, order = before ++ v :: after → (∀ u ∈ before, ¬ r.Ends e z u) →
    r.Finds e z v ∧ (r.Ends e z v → ∀ u ∈ after, ¬ r.Waits e z u)

variable {r} {e} {z}

theorem clear_nil : r.Clear e z [] := by
  intro before v after h
  simp at h

theorem clear_cons {v : Visit} {vs : List Visit} : r.Clear e z (v :: vs) ↔ r.Finds e z v ∧
    (r.Ends e z v → ∀ u ∈ vs, ¬ r.Waits e z u) ∧ (¬ r.Ends e z v → r.Clear e z vs) := by
  constructor
  · intro h
    obtain ⟨hfinds, hlast⟩ := h [] v vs rfl fun u hu => absurd hu List.not_mem_nil
    refine ⟨hfinds, hlast, fun halive before w after heq hbefore => ?_⟩
    refine h (v :: before) w after (by rw [heq]; rfl) fun u hu => ?_
    rcases List.mem_cons.mp hu with rfl | hu
    · exact halive
    · exact hbefore u hu
  · rintro ⟨hfinds, hlast, hrest⟩ before w after heq hbefore
    cases before with
    | nil =>
      obtain ⟨rfl, rfl⟩ := List.cons.inj heq
      exact ⟨hfinds, hlast⟩
    | cons u before =>
      obtain ⟨rfl, rfl⟩ := List.cons.inj heq
      obtain ⟨halive, hbefore⟩ := List.forall_mem_cons.mp hbefore
      exact hrest halive before w after rfl hbefore

/-! ### What is sent -/

/-- What one call of the callback does. -/
def call (r : DirectoryRun m) (e : Session) (z : Deflater σ) (v : Visit) : Outcome :=
  processDirectory e z m (r.top ++ v.dir) (findName r.path v.rel)

/-- The record of a run on the file. -/
def expected (r : DirectoryRun m) (e : Session) (z : Deflater σ) (v : Visit) : Option Data :=
  if v.regular then
    (processXmlFile e z (findName r.path v.rel) (m.openFile r.cwd (findName r.path v.rel))).sent
  else none

theorem sent_record_iff {name : Text} {file : Option Text} {d : Data} :
    (processXmlFile e z name file).sent = some d ↔ e.executeParam = true ∧
      isXmlPath name = true ∧ ∃ c, file = some c ∧ RecordOf e z c d := by
  rw [sent_iff, prepare_iff]

theorem call_sent_iff {v : Visit} {d : Data} : (r.call e z v).sent = some d ↔
    e.executeParam = true ∧ r.Named v ∧ ∃ c, r.found v = some (some c) ∧ RecordOf e z c d := by
  rw [call, processDirectory, found]
  split
  · rename_i hfile
    rw [sent_record_iff]
    simp [Named, hfile]
  · simp

theorem expected_iff {v : Visit} {d : Data} : r.expected e z v = some d ↔
    e.executeParam = true ∧ r.Named v ∧ ∃ c, r.itself v = some (some c) ∧ RecordOf e z c d := by
  rw [expected, itself]
  split
  · rw [sent_record_iff]
    simp [Named]
  · simp

theorem call_died_iff {v : Visit} : (r.call e z v).died.isSome = true ↔ r.Ends e z v := by
  rw [call, processDirectory, Ends, found]
  split
  · rename_i hfile
    rw [died_iff]
    simp [Named, hfile]
  · simp

/-- An entry waits exactly if the run on it sends something. -/
theorem waits_iff {v : Visit} : r.Waits e z v ↔ r.expected e z v ≠ none := by
  rw [Option.ne_none_iff_exists']
  constructor
  · rintro ⟨hexec, hnamed, c, hc, hpackage⟩
    obtain ⟨d, hd⟩ := isPackage_iff.mp hpackage
    exact ⟨d, expected_iff.mpr ⟨hexec, hnamed, c, hc, hd⟩⟩
  · rintro ⟨d, hd⟩
    obtain ⟨hexec, hnamed, c, hc, hrecord⟩ := expected_iff.mp hd
    exact ⟨hexec, hnamed, c, hc, isPackage_iff.mpr ⟨d, hrecord⟩⟩

/-- The callback sends what the run on the file sends exactly if it finds the file. -/
theorem finds_iff {v : Visit} : r.Finds e z v ↔ (r.call e z v).sent = r.expected e z v := by
  rw [Option.ext_iff]
  simp only [call_sent_iff, expected_iff]
  constructor
  · intro h d
    refine and_congr_right fun hexec => and_congr_right fun hnamed => ?_
    rcases h hexec hnamed with ⟨hnone, hnone'⟩ | ⟨c, c', hc, hc', d', hd, hd'⟩
    · refine iff_of_false ?_ ?_
      · rintro ⟨c, hc, hrecord⟩
        exact hnone c hc (isPackage_iff.mpr ⟨d, hrecord⟩)
      · rintro ⟨c, hc, hrecord⟩
        exact hnone' c hc (isPackage_iff.mpr ⟨d, hrecord⟩)
    · have heq : ∀ {f : Option (Option Text)} {c : Text}, f = some (some c) → RecordOf e z c d' →
          ((∃ b, f = some (some b) ∧ RecordOf e z b d) ↔ d' = d) := by
        rintro _ c rfl hrecord
        constructor
        · rintro ⟨b, hb, hrecord'⟩
          cases hb
          exact hrecord.unique hrecord'
        · rintro rfl
          exact ⟨c, rfl, hrecord⟩
      rw [heq hc hd, heq hc' hd']
  · intro h hexec hnamed
    have hiff : ∀ d, (∃ c, r.found v = some (some c) ∧ RecordOf e z c d) ↔
        ∃ c, r.itself v = some (some c) ∧ RecordOf e z c d := by
      intro d
      have hd := h d
      rwa [and_iff_right hexec, and_iff_right hexec, and_iff_right hnamed, and_iff_right hnamed]
        at hd
    by_cases hpackage : ∃ c d, r.found v = some (some c) ∧ RecordOf e z c d
    · obtain ⟨c, d, hc, hd⟩ := hpackage
      obtain ⟨c', hc', hd'⟩ := (hiff d).mp ⟨c, hc, hd⟩
      exact Or.inr ⟨c, c', hc, hc', d, hd, hd'⟩
    · refine Or.inl ⟨fun c hc hp => ?_, fun c hc hp => ?_⟩
      · obtain ⟨d, hd⟩ := isPackage_iff.mp hp
        exact hpackage ⟨c, d, hc, hd⟩
      · obtain ⟨d, hd⟩ := isPackage_iff.mp hp
        obtain ⟨c', hc', hd'⟩ := (hiff d).mpr ⟨c, hc, hd⟩
        exact hpackage ⟨c', d, hc', hd'⟩

/-- Every entry is where its name leads from the directory the script was started in. -/
theorem leads_name {v : Visit} (hv : v ∈ allVisits r.entries) :
    resolve m.root r.cwd (findName r.path v.rel) = some (r.top ++ v.rel) ∧
      ∃ n, (Node.dir m.root).at (r.top ++ v.rel) = some n ∧ n.isDir = !v.regular := by
  have hw := wellFormed_at r.wellFormed r.isDirectory
  rcases List.mem_cons.mp hv with rfl | hv
  · refine ⟨?_, .dir r.entries, ?_, rfl⟩
    · rw [List.append_nil]
      exact resolve_topItem r.leads
    · rw [List.append_nil]
      exact r.isDirectory
  · obtain ⟨name, rest, hrel, -, hvalid, n, hat, hn⟩ := mem_visits hw hv
    rw [List.nil_append] at hrel
    have hfull : (Node.dir m.root).at (r.top ++ v.rel) = some n := by
      rw [Node.at_append, r.isDirectory, Option.bind_some, hrel]
      exact hat
    exact ⟨resolve_findName r.leads (hrel ▸ hvalid) hfull, n, hfull, hn⟩

/-- The run on a file alone sends the request of that file, if it has one. -/
theorem alone_eq {v : Visit} (hv : v ∈ allVisits r.entries) :
    r.alone e z v = (r.expected e z v).toList.map (Request.mk (r.top ++ v.rel)) := by
  obtain ⟨hleads, n, hat, hn⟩ := leads_name hv
  rw [alone, expected]
  cases hreg : v.regular with
  | false => rfl
  | true =>
    rw [hreg] at hn
    cases n with
    | dir entries => cases hn
    | file content =>
      rw [if_pos rfl, if_pos rfl, requests, hleads]
      simp only [hat]

/-- Requests of one entry in front of requests of others. -/
theorem perm_tagged_iff {entry : Position} {a b : Option Data} {S E : List Request}
    (hS : ∀ q ∈ S, q.entry ≠ entry) (hE : ∀ q ∈ E, q.entry ≠ entry) :
    (a.toList.map (Request.mk entry) ++ S).Perm (b.toList.map (Request.mk entry) ++ E) ↔
      a = b ∧ S.Perm E := by
  have hkeep : ∀ {o : Option Data} {T : List Request}, (∀ q ∈ T, q.entry ≠ entry) →
      (o.toList.map (Request.mk entry) ++ T).filter (fun q => q.entry = entry)
        = o.toList.map (Request.mk entry) ∧
      (o.toList.map (Request.mk entry) ++ T).filter (fun q => q.entry ≠ entry) = T := by
    intro o T hT
    -- the requests of the entry can be told from the others
    have hnone : T.filter (fun q => q.entry = entry) = [] := by simpa using hT
    have hall : T.filter (fun q => q.entry ≠ entry) = T := by simpa using hT
    rw [List.filter_append, List.filter_append, hnone, hall]
    cases o <;> simp
  constructor
  · intro h
    have h1 := h.filter fun q => q.entry = entry
    have h2 := h.filter fun q => q.entry ≠ entry
    rw [(hkeep hS).1, (hkeep hE).1] at h1
    rw [(hkeep hS).2, (hkeep hE).2] at h2
    refine ⟨?_, h2⟩
    have hdata := h1.map Request.data
    rw [List.map_map, List.map_map] at hdata
    cases a <;> cases b <;> simp_all
  · rintro ⟨rfl, h⟩
    exact h.append_left _

theorem findRequests_entry : ∀ {vs : List Visit}, ∀ q ∈ findRequests e z m r.path r.top vs,
    ∃ v ∈ vs, q.entry = r.top ++ v.rel
  | [], q, hq => by simp [findRequests] at hq
  | v :: vs, q, hq => by
    rcases List.mem_append.mp hq with hq | hq
    · obtain ⟨d, -, rfl⟩ := List.mem_map.mp hq
      exact ⟨v, by simp, rfl⟩
    · split at hq
      · simp at hq
      · obtain ⟨u, hu, hentry⟩ := findRequests_entry q hq
        exact ⟨u, by simp [hu], hentry⟩

/-- The calls one after the other: the two lists of requests are the same exactly if the order is
clear. -/
theorem findRequests_perm_iff : ∀ {vs : List Visit}, (∀ v ∈ vs, v ∈ allVisits r.entries) →
    (vs.map Visit.rel).Nodup →
    ((findRequests e z m r.path r.top vs).Perm (vs.flatMap (r.alone e z)) ↔ r.Clear e z vs)
  | [], _, _ => iff_of_true (List.Perm.refl _) clear_nil
  | v :: vs, hmem, hnodup => by
    rw [List.map_cons, List.nodup_cons] at hnodup
    have hvs : ∀ u ∈ vs, u ∈ allVisits r.entries := fun u hu => hmem u (by simp [hu])
    have ih := findRequests_perm_iff hvs hnodup.2
    have hother : ∀ u ∈ vs, r.top ++ u.rel ≠ r.top ++ v.rel := fun u hu h =>
      hnodup.1 (List.append_cancel_left h ▸ List.mem_map_of_mem (f := Visit.rel) hu)
    have halone : ∀ q ∈ vs.flatMap (r.alone e z), q.entry ≠ r.top ++ v.rel := by
      intro q hq
      obtain ⟨u, hu, hq⟩ := List.mem_flatMap.mp hq
      rw [alone_eq (hvs u hu)] at hq
      obtain ⟨d, -, rfl⟩ := List.mem_map.mp hq
      exact hother u hu
    have hstep : findRequests e z m r.path r.top (v :: vs)
        = (r.call e z v).sent.toList.map (Request.mk (r.top ++ v.rel)) ++
          if (r.call e z v).died.isSome then [] else findRequests e z m r.path r.top vs := rfl
    rw [hstep, List.flatMap_cons, alone_eq (hmem v (by simp)), clear_cons, finds_iff,
      ← call_died_iff]
    -- a `die` ends the run, so that nothing may be waiting behind it
    cases hdied : (r.call e z v).died.isSome with
    | true =>
      rw [if_pos rfl, perm_tagged_iff (by simp) halone, List.nil_perm, List.flatMap_eq_nil_iff]
      refine and_congr_right fun _ => ?_
      rw [and_iff_left fun h => absurd rfl h, forall_prop_of_true rfl]
      refine forall₂_congr fun u hu => ?_
      rw [alone_eq (hvs u hu), List.map_eq_nil_iff, waits_iff, not_not]
      exact Option.toList_eq_nil_iff
    | false =>
      have hfind : ∀ q ∈ findRequests e z m r.path r.top vs, q.entry ≠ r.top ++ v.rel := by
        intro q hq
        obtain ⟨u, hu, hentry⟩ := findRequests_entry q hq
        rw [hentry]
        exact hother u hu
      rw [if_neg (by decide), perm_tagged_iff hfind halone, ih]
      simp

/-- Under a path from the root the callback finds the files, unless a name ends like a command. -/
theorem finds_absolute (h : r.path.head? = some '/') {v : Visit} (hv : v ∈ allVisits r.entries)
    (hlast : (strip (findName r.path v.rel)).getLast? ≠ some '|') : r.Finds e z v := by
  obtain ⟨hleads, n, hat, hn⟩ := leads_name hv
  obtain ⟨path, hpath, hopening⟩ := opening_absolute (findName_absolute h v.rel) hlast
  have hopen : m.openFile (r.top ++ v.dir) (findName r.path v.rel) =
      m.openFile r.cwd (findName r.path v.rel) := by
    simp only [Machine.openFile, hopening, lookup, FileTree.resolve_absolute hpath _ r.cwd]
  have hsame : r.found v = r.itself v := by
    rw [found, itself, hopen, lookup,
      FileTree.resolve_absolute (findName_absolute h v.rel) _ r.cwd, hleads,
      Option.bind_some, hat]
    cases n with
    | file content =>
      have hregular : v.regular = true := by simpa [Node.isDir] using hn
      rw [if_pos hregular]
    | dir entries =>
      have hregular : v.regular = false := by simpa [Node.isDir] using hn
      rw [hregular]
      rfl
  rw [finds_iff, Option.ext_iff]
  intro d
  rw [call_sent_iff, expected_iff, hsame]

end DirectoryRun

/-- **A run on a directory sends what the runs on its files send exactly when the order is
clear.** -/
theorem directory_run_iff {m : Machine} (r : DirectoryRun m) (e : Session) (z : Deflater σ)
    (order : r.Order) :
    (requests e z m r.cwd r.path order.1).Perm (r.eachAlone e z) ↔ r.Clear e z order.1 := by
  have hw := wellFormed_at r.wellFormed r.isDirectory
  have hrun : requests e z m r.cwd r.path order.1
      = findRequests e z m r.path r.top order.1 := by
    rw [requests, r.leads]
    simp only [r.isDirectory]
  have heach : (order.1.flatMap (r.alone e z)).Perm (r.eachAlone e z) :=
    order.2.flatMap_right (r.alone e z)
  have hnodup : (order.1.map Visit.rel).Nodup :=
    (order.2.map Visit.rel).nodup_iff.mpr (allVisits_nodup hw)
  rw [hrun, ← r.findRequests_perm_iff (fun v hv => order.2.mem_iff.mp hv) hnodup]
  exact ⟨fun h => h.trans heach.symm, fun h => h.trans heach⟩

/-- One package in a directory. -/
def pkgsMachine : Machine where
  root := .sub ['w']
    (.sub "pkgs".toList (.file "a.xml".toList (some gradedPackage) .empty) .empty) .empty
  special := fun _ _ => none

def pkgsRun : DirectoryRun pkgsMachine where
  cwd := [['w']]
  path := "pkgs".toList
  top := [['w'], "pkgs".toList]
  entries := .file "a.xml".toList (some gradedPackage) .empty
  wellFormed := by decide
  leads := by decide
  isDirectory := rfl

/-- Named by a relative path, the directory is gone through and nothing is sent. -/
theorem relative_directory_sends_nothing :
    ¬ ∀ (m : Machine) (r : DirectoryRun m) (e : Session) (z : Deflater Unit) (order : r.Order),
      (requests e z m r.cwd r.path order.1).Perm (r.eachAlone e z) := by
  intro h
  have hperm := h pkgsMachine pkgsRun shortSession shortStream ⟨_, List.Perm.refl _⟩
  have hrun : (requests shortSession shortStream pkgsMachine pkgsRun.cwd pkgsRun.path
      (allVisits pkgsRun.entries)).length = 0 := by decide +kernel
  have halone : (pkgsRun.eachAlone shortSession shortStream).length = 1 := by decide +kernel
  rw [← hperm.length_eq, hrun] at halone
  exact absurd halone (by decide)

end Package
end TdsAdmin
