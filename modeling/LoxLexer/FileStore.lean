import LoxLexer.Text.Utf8

/-!
# File stores

Where scripts are read from. A store answers a path with the bytes found there or with a
complaint. Three stores are built from lists: one that compares paths by their components, one
that compares them letter by letter, and a directory tree that is walked component by component.

## Main definitions

* `FileStore`: how paths are read
* `PathPart`, `pathParts`: the components of a path
* `FileStore.ofFiles`: files by components, the last entry wins
* `FileStore.ofEntries`: files by spelling, the first entry wins
* `FileTree`, `FileTree.find`: directories and files, with their own complaints
-/

namespace LoxLexer

/-- **How paths are read.** -/
structure FileStore where
  /-- The bytes at a path, or a complaint. -/
  read : String → Except String (List UInt8)

/-- A component of a path. -/
inductive PathPart where
  /-- The slash that an absolute path begins with. -/
  | root
  /-- A point that a relative path begins with. -/
  | here
  /-- Any other name, two points included. -/
  | name (s : String)
deriving DecidableEq, Repr, Inhabited

/-- The stretches between the slashes of a path. -/
def pathNames (path : String) : List String :=
  (path.splitOn "/").filter fun s => s != ""

/-- **The components of a path.** Repeated slashes, a slash at the end, and points other than the
first component of a relative path do not count. -/
def pathParts (path : String) : List PathPart :=
  let names := pathNames path
  let rest := (names.filter fun s => s != ".").map PathPart.name
  if path.startsWith "/" then .root :: rest
  else if names.head? = some "." then .here :: rest
  else rest

namespace FileStore

/-- The store in which every path leads to the same bytes. -/
def constant (bs : List UInt8) : FileStore :=
  ⟨fun _ => .ok bs⟩

/-- The store in which every path leads to a small sample script. -/
def sample : FileStore :=
  constant (Utf8.bytes "var x = 10;")

/-- **Files by components.** Of several entries for one path the last one counts. -/
def ofFiles (files : List (String × List UInt8)) : FileStore :=
  ⟨fun path =>
    match files.reverse.find? fun file => pathParts file.1 == pathParts path with
    | some file => .ok file.2
    | none => .error ("No such file " ++ path)⟩

/-- **Files by spelling.** An entry may hold a complaint, and of several entries for one path the
first one counts. -/
def ofEntries (entries : List (String × Except String (List UInt8))) : FileStore :=
  ⟨fun path =>
    match entries.find? fun entry => entry.1 == path with
    | some entry => entry.2
    | none => .error "missing"⟩

end FileStore

/-- A directory with everything below it: its directories and its files, each named by the way
down to it. -/
structure FileTree where
  /-- The ways to the directories. -/
  directories : List (List String)
  /-- The ways to all files, with their contents. -/
  files : List (List String × List UInt8)
deriving Repr, Inhabited

/-- Why a path of a directory tree cannot be read. -/
inductive PathError where
  /-- There is nothing at the path. -/
  | notFound
  /-- The path goes on behind a file. -/
  | notADirectory
  /-- The path leads to a directory. -/
  | isADirectory
  /-- The path, or a name on it, has more bytes than allowed. -/
  | nameTooLong
deriving DecidableEq, Repr, Inhabited

/-- What a user is told about a path that cannot be read. -/
def PathError.message : PathError → String
  | notFound => "No such file or directory (os error 2)"
  | notADirectory => "Not a directory (os error 20)"
  | isADirectory => "Is a directory (os error 21)"
  | nameTooLong => "File name too long (os error 36)"

namespace FileTree

/-- The way down that names lead to: a point stays where it is, and two points go back. -/
def wayOf (names : List String) : List String :=
  names.foldl
    (fun way name =>
      if name = "." then way else if name = ".." then way.dropLast else way ++ [name]) []

/-- The ways to all places that names lead through, their end included. -/
def passed (names : List String) : List (List String) :=
  (List.range names.length).map fun n => wayOf (names.take (n + 1))

/-- The tree that holds the given directories and files, and all directories that the paths to
them lead through. Of several files at one place the last one counts. -/
def ofPaths (directories : List String) (files : List (String × List UInt8)) : FileTree :=
  { directories :=
      directories.flatMap (fun path => passed (pathNames path)) ++
        files.flatMap fun file => passed (pathNames file.1).dropLast
    files := files.reverse.map fun file => (wayOf (pathNames file.1), file.2) }

/-- Where a walk through the tree has led. -/
inductive Place where
  /-- To the directory at the end of a way. -/
  | directory (way : List String)
  /-- To a file. -/
  | file (content : List UInt8)
  /-- To a directory above the tree, of which nothing is known. -/
  | above
deriving Repr, Inhabited

/-- The number of bytes that a name may have. -/
def nameLimit : Nat := 255

/-- The number of bytes that a path may have. -/
def pathLimit : Nat := 4095

/-- One component further. A name is measured only where it is looked up, so one behind a file
fails for the file. -/
def enter (t : FileTree) (name : String) : Place → Except PathError Place
  | .file _ => .error .notADirectory
  | .above =>
    if name = "." || name = ".." then .ok .above
    else if nameLimit < name.utf8ByteSize then .error .nameTooLong
    else .error .notFound
  | .directory way =>
    if name = "." then .ok (.directory way)
    else if name = ".." then
      .ok (if way.isEmpty then .above else .directory way.dropLast)
    else if nameLimit < name.utf8ByteSize then .error .nameTooLong
    else
      let next := way ++ [name]
      match t.files.find? fun file => file.1 == next with
      | some file => .ok (.file file.2)
      | none => if t.directories.contains next then .ok (.directory next) else .error .notFound

/-- The components that a walk takes; a slash at the end of a path asks for a directory. -/
def route (path : String) : List String :=
  pathNames path ++ if path.endsWith "/" then ["."] else []

/-- **The bytes at a path** of the tree. A path over the limit fails before anything is looked
up. -/
def find (t : FileTree) (path : String) : Except PathError (List UInt8) := do
  if pathLimit < path.utf8ByteSize then
    .error .nameTooLong
  let start := if path.startsWith "/" then Place.above else Place.directory []
  match ← (route path).foldlM (fun place name => t.enter name place) start with
  | .file content => return content
  | .directory _ | .above => .error .isADirectory

/-- The tree as a store. -/
def store (t : FileTree) : FileStore :=
  ⟨fun path => (t.find path).mapError PathError.message⟩

end FileTree

end LoxLexer
