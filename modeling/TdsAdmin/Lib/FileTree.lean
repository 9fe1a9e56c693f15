import TdsAdmin.Lib.Text

/-!
# Directory trees and path names

A file system without links: a directory is a list of entries, an entry is a file or a
directory. A place in the tree is a `Position`, the names on the way down from the root; a path
is text, and what it means depends on the working directory (`resolve`). Paths resolve the way
POSIX says: a leading slash starts at the root, empty components and `.` stay, `..` goes up,
and nothing is below a file.
-/

set_option autoImplicit false

namespace TdsAdmin
namespace FileTree

/-- The entries of a directory. A file that cannot be read has no content. -/
inductive Dir where
  | empty
  | file (name : Text) (content : Option Text) (rest : Dir)
  | sub (name : Text) (entries : Dir) (rest : Dir)

inductive Node where
  | file (content : Option Text)
  | dir (entries : Dir)

def Dir.entry (name : Text) : Dir → Option Node
  | .empty => none
  | .file n content rest => if n = name then some (.file content) else rest.entry name
  | .sub n entries rest => if n = name then some (.dir entries) else rest.entry name

abbrev Position := List Text

/-- What is found at the position, seen from the node. -/
def Node.at : Node → Position → Option Node
  | n, [] => some n
  | .file _, _ :: _ => none
  | .dir entries, name :: rest => (entries.entry name).bind fun n => n.at rest

def Node.isDir : Node → Bool
  | .file _ => false
  | .dir _ => true

/-! ## Names -/

/-- A name that an entry can have. -/
def ValidName (name : Text) : Prop :=
  name ≠ [] ∧ '/' ∉ name ∧ name ≠ ['.'] ∧ name ≠ ['.', '.']

def Dir.names : Dir → List Text
  | .empty => []
  | .file n _ rest => n :: rest.names
  | .sub n _ rest => n :: rest.names

/-- Names are valid, and no directory has two entries of one name. -/
def Dir.WellFormed : Dir → Prop
  | .empty => True
  | .file n _ rest => ValidName n ∧ n ∉ rest.names ∧ rest.WellFormed
  | .sub n entries rest => ValidName n ∧ n ∉ rest.names ∧ entries.WellFormed ∧ rest.WellFormed

instance (name : Text) : Decidable (ValidName name) := by unfold ValidName; infer_instance

instance decidableWellFormed : (d : Dir) → Decidable d.WellFormed
  | .empty => isTrue trivial
  | .file n _ rest =>
      haveI := decidableWellFormed rest
      inferInstanceAs (Decidable (ValidName n ∧ n ∉ rest.names ∧ rest.WellFormed))
  | .sub n entries rest =>
      haveI := decidableWellFormed entries
      haveI := decidableWellFormed rest
      inferInstanceAs (Decidable
        (ValidName n ∧ n ∉ rest.names ∧ entries.WellFormed ∧ rest.WellFormed))

/-! ## Resolving a path -/

/-- Going along the components from a position. Every step needs a directory to be in. -/
def walk (root : Dir) : Position → List Text → Option Position
  | pos, [] => some pos
  | pos, c :: cs =>
      if ((Node.dir root).at pos).any Node.isDir then
        if c = [] ∨ c = ['.'] then walk root pos cs
        else if c = ['.', '.'] then walk root pos.dropLast cs
        else if ((Node.dir root).at (pos ++ [c])).isSome then walk root (pos ++ [c]) cs
        else none
      else none

/-- Where the path leads from the working directory. The empty path leads nowhere. -/
def resolve (root : Dir) (cwd : Position) (path : Text) : Option Position :=
  if path = [] then none
  else walk root (if path.head? = some '/' then [] else cwd) (path.splitOn '/')

/-- What the path leads to. -/
def lookup (root : Dir) (cwd : Position) (path : Text) : Option Node :=
  (resolve root cwd path).bind (Node.dir root).at

variable {root : Dir}

theorem Node.at_append (n : Node) (p q : Position) :
    n.at (p ++ q) = (n.at p).bind fun m => m.at q := by
  induction p generalizing n with
  | nil => rfl
  | cons name p ih =>
    cases n with
    | file content => rfl
    | dir entries =>
      rw [List.cons_append, Node.at, Node.at, Option.bind_assoc]
      exact congrArg _ (funext fun m => ih m)

theorem walk_append : ∀ (xs ys : List Text) (pos : Position),
    walk root pos (xs ++ ys) = (walk root pos xs).bind fun p => walk root p ys
  | [], ys, pos => rfl
  | c :: xs, ys, pos => by
    rw [List.cons_append, walk, walk]
    split_ifs
    · exact walk_append xs ys pos
    · exact walk_append xs ys pos.dropLast
    · exact walk_append xs ys (pos ++ [c])
    · rfl
    · rfl

/-- Valid names that are there lead down to them. -/
theorem walk_names : ∀ (rel : List Text) {pos : Position} {n : Node},
    (∀ c ∈ rel, ValidName c) → (Node.dir root).at (pos ++ rel) = some n →
    walk root pos rel = some (pos ++ rel)
  | [], pos, n, _, _ => by rw [List.append_nil]; rfl
  | c :: rel, pos, n, hvalid, h => by
    obtain ⟨hne, -, hdot, hdots⟩ := hvalid c (by simp)
    rw [Node.at_append] at h
    obtain ⟨m, hm, hrest⟩ := Option.bind_eq_some_iff.mp h
    have hdir : ∃ entries, m = .dir entries := by
      cases m with
      | file content => cases hrest
      | dir entries => exact ⟨entries, rfl⟩
    obtain ⟨entries, rfl⟩ := hdir
    have hcons : pos ++ c :: rel = (pos ++ [c]) ++ rel := by simp
    have hhere : ((Node.dir root).at (pos ++ [c])).isSome := by
      rw [Node.at_append, hm, Option.bind_some]
      rw [Node.at] at hrest
      obtain ⟨k, hk, -⟩ := Option.bind_eq_some_iff.mp hrest
      rw [Node.at, hk]
      rfl
    have hall : (Node.dir root).at ((pos ++ [c]) ++ rel) = some n := by
      rw [← hcons, Node.at_append, hm]
      exact hrest
    rw [walk, hm, if_pos (by rfl), if_neg (by simp [hne, hdot]), if_neg hdots, if_pos hhere,
      walk_names rel (fun d hd => hvalid d (by simp [hd])) hall, hcons]

/-- One more component behind a path that resolves. -/
theorem resolve_child {cwd pos : Position} {path name : Text} {n : Node}
    (h : resolve root cwd path = some pos) (hname : ValidName name)
    (hat : (Node.dir root).at (pos ++ [name]) = some n) :
    resolve root cwd (path ++ '/' :: name) = some (pos ++ [name]) := by
  have hne : path ≠ [] := by
    rintro rfl
    cases h
  have hhead : (path ++ '/' :: name).head? = path.head? := by
    cases path with
    | nil => exact absurd rfl hne
    | cons c path => rfl
  rw [resolve, if_neg hne] at h
  rw [resolve, if_neg (by simp), hhead, List.splitOn_append_cons_self, walk_append, h,
    Option.bind_some, List.splitOn_eq_singleton hname.2.1]
  exact walk_names [name] (by simpa using hname) hat

/-- A slash behind the path of a directory changes nothing. -/
theorem resolve_slash {cwd pos : Position} {path : Text} (hne : path ≠ [])
    (h : resolve root cwd (path ++ ['/']) = some pos) : resolve root cwd path = some pos := by
  have hhead : (path ++ ['/']).head? = path.head? := by
    cases path with
    | nil => exact absurd rfl hne
    | cons c path => rfl
  rw [resolve, if_neg (by simp), hhead, List.splitOn_append_cons_self, walk_append] at h
  obtain ⟨q, hq, hslash⟩ := Option.bind_eq_some_iff.mp h
  rw [resolve, if_neg hne, hq]
  rw [List.splitOn_nil, walk, if_pos (c := [] = [] ∨ _) (Or.inl rfl)] at hslash
  split at hslash
  · exact hslash
  · cases hslash

/-- The root, and a name behind it. -/
theorem resolve_root (cwd : Position) : resolve root cwd ['/'] = some [] := rfl

theorem resolve_rootChild {cwd : Position} {name : Text} {n : Node} (hname : ValidName name)
    (hat : (Node.dir root).at [name] = some n) :
    resolve root cwd ('/' :: name) = some [name] := by
  have hsplit : ('/' :: name).splitOn '/' = [[], name] := by
    have happend := List.splitOn_append_cons_self (a := '/') [] name
    rw [List.nil_append] at happend
    rw [happend, List.splitOn_eq_singleton hname.2.1]
    rfl
  rw [resolve, if_neg (by simp), List.head?_cons, if_pos rfl, hsplit, walk]
  exact walk_names [name] (by simpa using hname) hat

/-- A path from the root leads to the same place from everywhere. -/
theorem resolve_absolute {path : Text} (h : path.head? = some '/') (cwd cwd' : Position) :
    resolve root cwd path = resolve root cwd' path := by
  rw [resolve, resolve, if_pos h, if_pos h]

end FileTree
end TdsAdmin
