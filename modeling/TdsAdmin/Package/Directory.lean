import Mathlib.Data.List.DropRight
import TdsAdmin.Lib.FileTree
import TdsAdmin.Package.Upload

/-!
# `--path` as a file and as a directory

The script processes the file the path leads to, or hands the directory to `File::Find`, whose
callback is `ProcessDirectory`. `find` changes into each directory before it goes through its
entries, and reports every entry by a name that starts with the path it was given. The callback
tests and opens that name from wherever `find` is. It is opened with two arguments, so the name is
stripped of blanks and may say itself that it is not a file to read.

The order in which `find` goes through the entries is a parameter: a list of its calls, in any
order. A `die` inside the callback ends the run.
-/

set_option autoImplicit false

namespace TdsAdmin
namespace Package

open FileTree (Dir Node Position resolve lookup)
open Pattern (isSpace)

/-! ## `File::Find` -/

/-- One call of the callback: the directory `find` is in, the entry, both seen from the top, and
whether the entry is a regular file, which the callback has to find out for itself. -/
structure Visit where
  dir : Position
  rel : Position
  regular : Bool

/-- The calls for the entries of the directory `dir` and for everything below them. -/
def visits (dir : Position) : Dir → List Visit
  | .empty => []
  | .file name _ rest => ⟨dir, dir ++ [name], true⟩ :: visits dir rest
  | .sub name entries rest =>
      ⟨dir, dir ++ [name], false⟩ :: (visits (dir ++ [name]) entries ++ visits dir rest)

/-- All the calls: the top directory is reported too. -/
def allVisits (entries : Dir) : List Visit := ⟨[], [], false⟩ :: visits [] entries

/-- `find` takes one slash off the end of the path it is given. -/
def topItem (path : Text) : Text :=
  if path ≠ ['/'] ∧ path.getLast? = some '/' then path.dropLast else path

/-- `$File::Find::name` for an entry. -/
def findName (path : Text) (rel : Position) : Text :=
  rel.foldl (fun dir name => if dir = ['/'] then dir ++ name else dir ++ '/' :: name)
    (topItem path)

/-! ## `open` -/

/-- What `open` with two arguments makes of a name: the path of a file to read, or something else
that the name itself asks for. -/
inductive Opening where
  | read (path : Text)
  /-- A file to write, a command, a copy of a handle, or the standard input. -/
  | special (expr : Text)
  deriving DecidableEq, Repr

/-- `open` strips the blanks on both sides. -/
def strip (s : Text) : Text := (s.dropWhile isSpace).rdropWhile isSpace

/-- `-` behind the mode is the standard input. -/
def isStandardInput (path : Text) : Bool :=
  path.head? == some '-' && (path.tail.head?.all fun c => isSpace c || c == ':')

/-- The mode is read off the name: `<` in front or nothing, for a file to read, or `>`, `+<`, `+>`,
`<&`, `|` in front, `|` behind, or `-`. -/
def opening (filePath : Text) : Opening :=
  match strip filePath with
  | '<' :: rest =>
      if rest.head? = some '&' ∨ isStandardInput (rest.dropWhile isSpace) then
        .special (strip filePath)
      else .read (rest.dropWhile isSpace)
  | expr =>
      if expr.head? = some '>' ∨ expr.head? = some '|' ∨ "+<".toList <+: expr ∨
          "+>".toList <+: expr ∨ expr.getLast? = some '|' ∨ expr = ['-'] then .special expr
      else .read expr

/-- Where the script runs. -/
structure Machine where
  root : Dir
  /-- What can be read from anything that is not a file on the disk, in a working directory. -/
  special : Position → Text → Option Text

/-- What `open` finds behind a name, looked up from the working directory `cwd`. A directory can
be opened too, and has no lines. -/
def Machine.openFile (m : Machine) (cwd : Position) (filePath : Text) : Option Text :=
  match opening filePath with
  | .special expr => m.special cwd expr
  | .read path =>
      match lookup m.root cwd path with
      | some (.file content) => content
      -- reading a directory gives no line and no error
      | some (.dir _) => some []
      | none => none

/-! ## The script -/

variable {σ : Type}

/-- `-f` and `ProcessXmlFile`, for a name that is looked up from the working directory `cwd`. -/
def processDirectory (e : Session) (z : Deflater σ) (m : Machine) (cwd : Position)
    (xmlPathName : Text) : Outcome :=
  match lookup m.root cwd xmlPathName with
  | some (.file _) => processXmlFile e z xmlPathName (m.openFile cwd xmlPathName)
  | _ => ⟨none, none⟩

/-- A request, and the entry that was being processed when it was sent. -/
structure Request where
  entry : Position
  data : Data

/-- The rest of a run of `find` below the directory at `top`. -/
def findRequests (e : Session) (z : Deflater σ) (m : Machine) (path : Text) (top : Position) :
    List Visit → List Request
  | [] => []
  | v :: vs =>
      let outcome := processDirectory e z m (top ++ v.dir) (findName path v.rel)
      outcome.sent.toList.map (Request.mk (top ++ v.rel)) ++
        -- a `die` in the callback is not caught
        if outcome.died.isSome then [] else findRequests e z m path top vs

/-- The requests of one run of the script in the directory `cwd`, with `find` going through the
directory in this order. -/
def requests (e : Session) (z : Deflater σ) (m : Machine) (cwd : Position) (path : Text)
    (order : List Visit) : List Request :=
  match resolve m.root cwd path with
  | none => []
  | some position =>
      match (Node.dir m.root).at position with
      | some (.file _) =>
          (processXmlFile e z path (m.openFile cwd path)).sent.toList.map (Request.mk position)
      | some (.dir _) => findRequests e z m path position order
      | none => []

end Package
end TdsAdmin
