import TagLint.Files.Path
import TagLint.Files.Store

/-!
The files below a working directory.

A path leads from the working directory through one name after the other; an empty name and a dot
stay where they are, and two dots go back. Each of these steps starts in a directory, so a slash
after the path of a file leads nowhere. Two dots also lead to the directories around the working
directory, of which nothing else is known. Names and whole paths have a greatest length.
-/
namespace TagLint

/-- What stands at a path. -/
inductive FileEntry where
  | directory
  | file (content : Text)
  /-- A file whose content cannot be had. -/
  | unreadable (failure : FileFailure)
  deriving DecidableEq, Repr

/-- The entries below a working directory, with the names that lead to them. -/
structure FileTree where
  entries : List (List Text × FileEntry)
  deriving DecidableEq, Repr

namespace FileTree

/-- The empty working directory. -/
def empty : FileTree :=
  ⟨[]⟩

/-- The part of a path that goes back. -/
def back : Text :=
  ['.', '.']

/-- Whether a place is the working directory or a directory around it. -/
def isAround (place : List Text) : Bool :=
  place.all (· == back)

def lookup (tree : FileTree) (place : List Text) : Option FileEntry :=
  if isAround place then some .directory else tree.entries.lookup place

def put (tree : FileTree) (place : List Text) (entry : FileEntry) : FileTree :=
  if (tree.entries.lookup place).isSome then
    ⟨tree.entries.map fun old => if old.1 == place then (place, entry) else old⟩
  else ⟨tree.entries ++ [(place, entry)]⟩

def makeDirectories (tree : FileTree) (place : List Text) : FileTree :=
  (List.range (place.length + 1)).foldl
    (fun tree count =>
      let outer := place.take count
      if (tree.lookup outer).isSome then tree else tree.put outer .directory)
    tree

/-- The names along a path. -/
def placeOf (path : String) : List Text :=
  (Path.parts path).filter fun part => !part.isEmpty && part != ['.']

def add (tree : FileTree) (path : String) (entry : FileEntry) : FileTree :=
  let place := placeOf path
  (tree.makeDirectories place.dropLast).put place entry

def ofList (entries : List (String × FileEntry)) : FileTree :=
  entries.foldl (fun tree entry => tree.add entry.1 entry.2) empty

def isDirectoryAt (tree : FileTree) (place : List Text) : Bool :=
  tree.lookup place == some .directory

/-- The longest name, in bytes. -/
def nameLimit : Nat :=
  255

def step (tree : FileTree) (place : List Text) (part : Text) : Except FileFailure (List Text) :=
  if !tree.isDirectoryAt place then .error .notDirectory
  else if part.isEmpty || part == ['.'] then .ok place
  else if part == back then .ok (if isAround place then place ++ [back] else place.dropLast)
  else if part.byteLength > nameLimit then .error .nameTooLong
  else if (tree.lookup (place ++ [part])).isSome then .ok (place ++ [part])
  else .error .notFound

/-- The longest path, in bytes. -/
def pathLimit : Nat :=
  4095

/-- The place that a path leads to. -/
def locate (tree : FileTree) (path : String) : Except FileFailure (List Text) :=
  if path.toList.contains '\x00' then .error .nullInPath
  else if path.utf8ByteSize > pathLimit then .error .nameTooLong
  else if path.isEmpty || path.toList.head? == some '/' then .error .notFound
  else (Path.parts path).foldlM tree.step []

/-- The entry that a path leads to. -/
def at? (tree : FileTree) (path : String) : Option FileEntry :=
  match tree.locate path with
  | .ok place => tree.lookup place
  | .error _ => none

/-- Whether a path leads anywhere. -/
def isPresent (tree : FileTree) (path : String) : Bool :=
  (tree.at? path).isSome

def isDirectory (tree : FileTree) (path : String) : Bool :=
  tree.at? path == some .directory

def isFile (tree : FileTree) (path : String) : Bool :=
  (tree.at? path).any (· != .directory)

/-- The names in the directory that a path leads to, in their order. -/
def names (tree : FileTree) (path : String) : List Text :=
  match tree.locate path with
  | .ok place =>
    let inside := tree.entries.filterMap fun entry =>
      entry.1.getLast?.filter fun _ => entry.1.dropLast == place
    inside.mergeSort PathComponent.textBefore
  | .error _ => []

/-- The content of the file that a path leads to. -/
def read (tree : FileTree) (path : String) : Except FileFailure Text :=
  match tree.locate path with
  | .error failure => .error failure
  | .ok place =>
    match tree.lookup place with
    | some (.file content) => .ok content
    | some (.unreadable failure) => .error failure
    | some .directory => .error .isDirectory
    | none => .error .notFound

def replace (tree : FileTree) (path : String) (entry : FileEntry) : FileTree :=
  match tree.locate path with
  | .ok place => tree.put place entry
  | .error _ => tree

/-- Changes the content of the file that a path leads to. -/
def write (tree : FileTree) (path : String) (content : Text) : FileTree :=
  tree.replace path (.file content)

instance : FileStore FileTree where
  read := read
  write := write

end FileTree
end TagLint
