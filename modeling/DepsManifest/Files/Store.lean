import DepsManifest.Files.Access
/-! # Stores

A store is a tree of directories and files as a plain value, with a directory that paths start from
unless they start at the root. Each operation answers as a file system does: a name before the last
has to be a directory, a directory is neither read nor written, and what is there is not made again.
A name has at most 255 bytes, and a path fewer than 4096.

A path is followed name by name to a place, the names from the root to where it leads; links there
are none. Reading, writing and making directories are partial functions of a store, and become a
`Host` by keeping the store as a state. A failed operation leaves the store as it was.
-/
namespace DepsManifest

/-- Files with their texts, and directories, each with the names that lead to it from the root. -/
structure Store where
  files : List (List String × String)
  directories : List (List String)
  workingDirectory : List String

/-- What a store has in a place. -/
inductive StoreItem where
  | file (text : String)
  | directory
  deriving DecidableEq

namespace Store

/-- What is in a place; nothing if the place is empty. -/
def item? (s : Store) (place : List String) : Option StoreItem :=
  match s.files.lookup place with
  | some text => some (.file text)
  | none => if place ∈ s.directories then some .directory else none

/-- A store with one more file, or with one file's text replaced. -/
def setFile (s : Store) (place : List String) (text : String) : Store :=
  if (s.files.lookup place).isSome then
    { s with files := s.files.map fun f => if f.1 = place then (f.1, text) else f }
  else { s with files := s.files ++ [(place, text)] }

def addDirectory (s : Store) (place : List String) : Store :=
  if place ∈ s.directories then s else { s with directories := s.directories ++ [place] }

/-- The places on the way from the root to a place, both of them among these. -/
def way (place : List String) : List (List String) :=
  (List.range (place.length + 1)).map place.take

/-- The store of nothing but a directory to work in. -/
def ofWorkingDirectory (place : List String) : Store where
  files := []
  directories := way place
  workingDirectory := place

/-- The store of some files, each with its path from the directory to work in. -/
def ofFiles (workingDirectory : List String) (files : List (String × String)) : Store :=
  files.foldl (fun s file =>
    let place := workingDirectory ++ Path.names file.1
    ((way place.dropLast).foldl addDirectory s).setFile place file.2)
    (ofWorkingDirectory workingDirectory)

/-- The files below the directory to work in, each with its path from there. -/
def workingFiles (s : Store) : List (String × String) :=
  s.files.filterMap fun file =>
    if s.workingDirectory.isPrefixOf file.1 then
      some (String.intercalate "/" (file.1.drop s.workingDirectory.length), file.2)
    else none

/-- The place that names lead to from a directory. Every name before the last has to be a
directory; `.` and the empty name stay where they are, `..` goes up. -/
def follow (s : Store) : List String → List String → Except FileFault (List String)
  | here, [] => .ok here
  | here, name :: rest =>
    if name = "" ∨ name = "." then follow s here rest
    else if name = ".." then follow s here.dropLast rest
    else
      let there := here ++ [name]
      if name.utf8ByteSize > 255 then .error .nameTooLong
      else
        match rest, s.item? there with
        | [], _ => .ok there
        | _ :: _, some .directory => follow s there rest
        | _ :: _, some (.file _) => .error .notDirectory
        | _ :: _, none => .error .missing

/-- The place that the names of a path lead to. -/
def placeOf (s : Store) (path : String) (names : List String) : Except FileFault (List String) :=
  if path = "" then .error .missing
  else if path.utf8ByteSize ≥ 4096 then .error .nameTooLong
  else s.follow (if Path.isAbsolute path then [] else s.workingDirectory) names

/-- The place that a path leads to. -/
def place (s : Store) (path : String) : Except FileFault (List String) :=
  s.placeOf path (Path.names path)

def read (s : Store) (path : String) : Except FileFault String := do
  match s.item? (← s.place path) with
  | some (.file text) => return text
  | some .directory => throw .isDirectory
  | none => throw .missing

/-- The place that a path leads to as that of a file to be written. A name with a slash after it at
the end of a path means a directory, whatever is there; what comes before it has to be one. -/
def placeToWrite (s : Store) (path : String) : Except FileFault (List String) :=
  match Path.beforeNamedDirectory? path with
  | some names => do
    let _ ← s.placeOf path (names ++ ["."])
    throw .isDirectory
  | none => s.place path

/-- A store after a file has been written. -/
def write (s : Store) (path text : String) : Except FileFault Store := do
  let place ← s.placeToWrite path
  match s.item? place with
  | some .directory => throw .isDirectory
  | _ => return s.setFile place text

/-- A store after a directory has been made. -/
def makeDirectory (s : Store) (path : String) : Except FileFault Store := do
  let place ← s.place path
  match s.item? place with
  | some _ => throw .occupied
  | none => return s.addDirectory place

def isDirectory (s : Store) (path : String) : Bool :=
  match s.place path with
  | .ok place => s.item? place == some .directory
  | .error _ => false

/-- An operation on a store as a step that leaves the store as it is when it fails. -/
def step (f : Store → Except FileFault Store) : ExceptT FileFault (StateM Store) Unit := do
  match f (← get) with
  | .ok s => set s
  | .error fault => throw fault

/-- The host whose files are a store and whose clock stands still. -/
def host (now : Timestamp) : Host (StateM Store) where
  read path := do MonadExcept.ofExcept ((← get).read path)
  write path text := step (·.write path text)
  makeDirectory path := step (·.makeDirectory path)
  isDirectory path := do return (← get).isDirectory path
  now := return now

end Store

end DepsManifest
