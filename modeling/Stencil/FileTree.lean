/-!
Files and directories, as far as a run looks at them.

Paths are followed part by part from the working directory or from the root, and every way in
which that can fail has its own error.
-/

namespace Stencil

/-- Why a file could not be read or written. -/
inductive FileError where
  | notFound
  | notDirectory
  | isDirectory
  | nameTooLong
  | badName
  | notText
deriving DecidableEq, Repr

def FileError.message : FileError → String
  | notFound => "No such file or directory (os error 2)"
  | notDirectory => "Not a directory (os error 20)"
  | isDirectory => "Is a directory (os error 21)"
  | nameTooLong => "File name too long (os error 36)"
  | badName => "file name contained an unexpected NUL byte"
  | notText => "stream did not contain valid UTF-8"

/-- Files by the names on their way from the root. A directory is one that is listed, or that
is on the way to a file, to a listed directory or to the working directory. -/
structure FileTree where
  here : List String
  directories : List (List String)
  files : List (List String × ByteArray)

namespace FileTree

/-- A tree with nothing in its working directory. -/
def empty (here : List String) : FileTree := ⟨here, [], []⟩

/-- What a path leads to. -/
inductive Node where
  | file (names : List String) (content : ByteArray)
  | directory (names : List String)
  | absent (names : List String)

def isDirectory (t : FileTree) (names : List String) : Bool :=
  names.isPrefixOf t.here || t.directories.any names.isPrefixOf ||
    t.files.any fun f => names.isPrefixOf f.1

def node (t : FileTree) (names : List String) : Node :=
  match t.files.find? (·.1 == names) with
  | some (_, content) => .file names content
  | none => if t.isDirectory names then .directory names else .absent names

/-! ### Paths -/

/-- Follows one part of a path. -/
def step (t : FileTree) (position : Node) (part : String) : Except FileError Node :=
  match position with
  | .file .. => .error .notDirectory
  | .absent _ => .error .notFound
  | .directory names =>
    if part = "" ∨ part = "." then .ok position
    else if part = ".." then .ok (.directory names.dropLast)
    else if 255 < part.utf8ByteSize then .error .nameTooLong
    else .ok (t.node (names ++ [part]))

/-- Where a path starts. -/
def start (t : FileTree) (path : String) : List String :=
  if path.startsWith "/" then [] else t.here

def follow (t : FileTree) (path : String) (parts : List String) : Except FileError Node :=
  if path = "" then .error .notFound
  else if path.contains '\x00' then .error .badName
  else if 4095 < path.utf8ByteSize then .error .nameTooLong
  else parts.foldlM t.step (.directory (t.start path))

def resolve (t : FileTree) (path : String) : Except FileError Node :=
  t.follow path (path.splitOn "/")

/-- The names a path leads along, by its text alone. -/
def names (t : FileTree) (path : String) : List String :=
  (path.splitOn "/").foldl (fun names part =>
    if part = "" ∨ part = "." then names
    else if part = ".." then names.dropLast
    else names ++ [part]) (t.start path)

/-! ### Reading and writing -/

/-- The text of a file. -/
def read (t : FileTree) (path : String) : Except FileError String := do
  match ← t.resolve path with
  | .file _ content =>
    match String.fromUTF8? content with
    | some text => .ok text
    | none => .error .notText
  | .directory _ => .error .isDirectory
  | .absent _ => .error .notFound

def isFile (t : FileTree) (path : String) : Bool :=
  match t.resolve path with
  | .ok (.file ..) => true
  | _ => false

/-- The tree with a file of the given names, whatever was there. -/
def put (t : FileTree) (names : List String) (content : ByteArray) : FileTree :=
  if t.files.any (·.1 == names) then
    { t with files := t.files.map fun f => if f.1 == names then (names, content) else f }
  else { t with files := t.files ++ [(names, content)] }

/-- The tree with a file at a path, with the directories that it needs. -/
def add (t : FileTree) (path : String) (content : ByteArray) : FileTree :=
  t.put (t.names path) content

/-- The tree with a directory at a path. -/
def addDirectory (t : FileTree) (path : String) : FileTree :=
  { t with directories := t.directories ++ [t.names path] }

/-- The parts of a path without the empty ones at its end, and whether there were any. -/
def trimmedParts (path : String) : List String × Bool :=
  let parts := path.splitOn "/"
  ((parts.reverse.dropWhile String.isEmpty).reverse, parts.getLast? == some "")

/-- Writes a file, which may be new, into a directory that exists. A path with a slash at its
end is never that of a file. -/
def write (t : FileTree) (path text : String) : Except FileError FileTree := do
  let (parts, slash) := trimmedParts path
  match ← t.follow path parts with
  | .file names _ | .absent names =>
    if slash then .error .isDirectory else .ok (t.put names text.toUTF8)
  | .directory _ => .error .isDirectory

/-- The files that are new or have another content than before. -/
def changes (before after : FileTree) : List (List String × ByteArray) :=
  after.files.filter fun f => !before.files.any (· == f)

end FileTree

end Stencil
