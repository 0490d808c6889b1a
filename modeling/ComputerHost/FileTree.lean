import ComputerHost.Error
import ComputerHost.FilePath

/-! # File trees

The part of the host's file system that a program can reach, as a value: directories, files with their
bytes, and a working directory for relative paths. There are no links and nobody else writes, so the
tree and a path decide what an operation does.

A location is the list of names from the root. `locate` follows a path to a location whose parent is a
directory; every operation starts with it.
-/

namespace ComputerHost

namespace FileError

/-- The wording of a cause. -/
def detail : FileError → String
  | .notFound => "No such file or directory (os error 2)"
  | .alreadyExists => "File exists (os error 17)"
  | .notADirectory => "Not a directory (os error 20)"
  | .isADirectory => "Is a directory (os error 21)"
  | .directoryNotEmpty => "Directory not empty (os error 39)"
  | .invalidData => "stream did not contain valid UTF-8"
  | .invalidInput => "file name contained an unexpected NUL byte"
  | .invalidFilename => "File name too long (os error 36)"

/-- The error of settings that could not be read or written. -/
def toConfigError (e : FileError) : ConfigError := .file e e.detail

end FileError

/-- What is at a location. -/
inductive FileNode where
  | directory
  | file (content : ByteArray)

structure FileTree where
  /-- Everything but the root, each location once. -/
  nodes : List (List String × FileNode)
  workingDir : List String

namespace FileTree

/-- Nothing but the root, which is the working directory. -/
def empty : FileTree := ⟨[], []⟩

instance : Inhabited FileTree := ⟨empty⟩

def lookup? (nodes : List (List String × FileNode)) (loc : List String) : Option FileNode :=
  (nodes.find? (·.1 == loc)).map (·.2)

/-- What is at a location. The root and the working directory are there whatever happens. -/
def node? (t : FileTree) (loc : List String) : Option FileNode :=
  if loc = [] ∨ loc = t.workingDir then some .directory else lookup? t.nodes loc

/-- The tree with something put at a location, in place of what was there. -/
def put (t : FileTree) (loc : List String) (node : FileNode) : FileTree :=
  { t with nodes := t.nodes.filter (·.1 != loc) ++ [(loc, node)] }

/-- A name may have 255 bytes. -/
def nameFits (name : String) : Bool := name.utf8ByteSize ≤ 255

/-- A location that has to be a directory. -/
def enter (t : FileTree) (loc : List String) : Except FileError (List String) :=
  match t.node? loc with
  | none => .error .notFound
  | some (.file _) => .error .notADirectory
  | some .directory => .ok loc

/-- Follow names through directories, from one directory to another. -/
def descend (t : FileTree) : List String → List String → Except FileError (List String)
  | loc, [] => t.enter loc
  | loc, name :: rest => do
    let loc ← t.enter loc
    if name = ".." then t.descend loc.dropLast rest
    else if nameFits name then t.descend (loc ++ [name]) rest
    else throw .invalidFilename

/-- Where a path leads. -/
structure Place where
  loc : List String
  /-- Does the path say that there must be a directory? -/
  asDirectory : Bool
  /-- Does the path end in a name, rather than in the root, `.` or `..`? -/
  named : Bool
deriving DecidableEq

/-- The pieces of a path that count, and whether the last piece allows a directory only. -/
def pieces (path : String) : List String × Bool :=
  let all := Text.piecesOf (· == '/') path
  let kept := all.filter fun piece => piece != "" && piece != "."
  (kept, all.getLast? == some "" || all.getLast? == some ".")

/-- Follow a path to a location whose parent is a directory. The location itself may be empty. -/
def locate (t : FileTree) (path : String) : Except FileError Place :=
  if path.toList.contains '\x00' then .error .invalidInput
  else if path = "" then .error .notFound
  else
    let start := if FilePath.isAbsolute path then [] else t.workingDir
    let (names, asDirectory) := pieces path
    match names.getLast? with
    | none => .ok ⟨start, true, false⟩
    | some last =>
      if last = ".." then do
        let loc ← t.descend start names
        return ⟨loc, true, false⟩
      else do
        let parent ← t.descend start names.dropLast
        if nameFits last then return ⟨parent ++ [last], asDirectory, true⟩
        else throw .invalidFilename

/-- What is at the end of a path. -/
def find? (t : FileTree) (path : String) : Option FileNode :=
  match t.locate path with
  | .error _ => none
  | .ok place =>
    match t.node? place.loc with
    | some (.file content) => if place.asDirectory then none else some (.file content)
    | found => found

def isDirectory (t : FileTree) (path : String) : Bool :=
  match t.find? path with
  | some .directory => true
  | _ => false

def holds (t : FileTree) (path : String) : Bool :=
  (t.find? path).isSome

/-- The bytes of a file. -/
def read (t : FileTree) (path : String) : Except FileError ByteArray := do
  let place ← t.locate path
  match t.node? place.loc with
  | none => throw .notFound
  | some .directory => throw .isADirectory
  | some (.file content) => if place.asDirectory then throw .notADirectory else return content

/-- The text of a file. -/
def readText (t : FileTree) (path : String) : Except FileError String := do
  match String.fromUTF8? (← t.read path) with
  | some text => return text
  | none => throw .invalidData

/-- Write a file, in place of what it held. -/
def write (t : FileTree) (path : String) (content : ByteArray) : Except FileError FileTree := do
  let place ← t.locate path
  match t.node? place.loc with
  | some .directory => throw .isADirectory
  | some (.file _) =>
    if place.asDirectory then throw .notADirectory else return t.put place.loc (.file content)
  | none =>
    if place.asDirectory then throw .isADirectory else return t.put place.loc (.file content)

/-- Write a file that holds a text. -/
def writeText (t : FileTree) (path text : String) : Except FileError FileTree :=
  t.write path text.toUTF8

/-- Make one directory. -/
def makeDirectory (t : FileTree) (path : String) : Except FileError FileTree := do
  let place ← t.locate path
  match t.node? place.loc with
  | some _ => throw .alreadyExists
  | none => return t.put place.loc .directory

/-- Make a directory and those it lies in, given the spellings of the path cut after each of its
components, longest first. What is already a directory is left as it is, and what was made before a
failure stays. -/
def makeAll (t : FileTree) : List String → Except FileError Unit × FileTree
  | [] => (.ok (), t)
  | path :: shorter =>
    match t.makeDirectory path with
    | .ok made => (.ok (), made)
    | .error .notFound =>
      match t.makeAll shorter with
      | (.error e, t) => (.error e, t)
      | (.ok (), t) =>
        match t.makeDirectory path with
        | .ok made => (.ok (), made)
        | .error e => (if t.isDirectory path then .ok () else .error e, t)
    | .error e => (if t.isDirectory path then .ok () else .error e, t)

/-- The spellings of a path cut after each of its components, longest first. -/
def cuts (path : String) : List String :=
  let root := if FilePath.isAbsolute path then "/" else ""
  (FilePath.components path).foldl
    (fun done name => FilePath.join (done.headD root) name :: done) []

/-- Make a directory and those it lies in: whether that went well, and the tree afterwards. -/
def makePath (t : FileTree) (path : String) : Except FileError Unit × FileTree :=
  if path.toList.contains '\x00' then (.error .invalidInput, t) else t.makeAll (cuts path)

/-- The tree with a directory and those it lies in, if they can all be made. -/
def makeDirectories (t : FileTree) (path : String) : Except FileError FileTree :=
  match t.makePath path with
  | (.ok (), t) => .ok t
  | (.error e, _) => .error e

/-- Write a file and make the directories it lies in. -/
def plant (t : FileTree) (path : String) (content : ByteArray) : Except FileError FileTree := do
  let t ← match (cuts path).tail.head? with
    | some parent => t.makeDirectories parent
    | none => .ok t
  t.write path content

/-- Remove a directory and everything below it. -/
def removeDirectories (t : FileTree) (path : String) : Except FileError FileTree := do
  let place ← t.locate path
  match t.node? place.loc with
  | none => throw .notFound
  | some (.file _) => throw .notADirectory
  | some .directory => return { t with nodes := t.nodes.filter fun n => !place.loc.isPrefixOf n.1 }

end FileTree

end ComputerHost
