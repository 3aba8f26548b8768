import TagLint.Files.Tree
import TagLint.Glob.Basic

/-!
The paths in a file tree that a glob pattern leads to.

The pattern is applied component by component. A component without special characters is followed
without looking at the names in a directory; any other is compared with each of them.
-/
namespace TagLint

/-- A glob pattern for paths. -/
structure PathGlob where
  components : List GlobPattern
  /-- Whether it starts at the root of all files. -/
  isRooted : Bool
  /-- Whether it ends with a slash, so that only directories match. -/
  wantsDirectory : Bool
  deriving DecidableEq, Repr

namespace PathGlob

/-- The parts of a text between slashes; a slash at the end starts none. -/
def parts (t : Text) : List Text :=
  let parts := Text.splitOn (· == '/') t
  if parts.getLast? == some [] then parts.dropLast else parts

/-- The pattern written in a text. It has to be one as a whole, and in each of its components. -/
def read? (pattern : String) : Option PathGlob := do
  let t := pattern.toList
  let _ ← GlobPattern.read? t
  let isRooted := t.head? == some '/'
  let rest := if isRooted then t.drop 1 else t
  let components ← (if rest.isEmpty then [[]] else parts rest).mapM GlobPattern.read?
  return ⟨components, isRooted, t.getLast? == some '/'⟩

/-- The special names in a directory that a pattern matches; they need a dot at its start. -/
def specialNames (pattern : GlobPattern) : List String :=
  if pattern.tokens.head? == some (.char '.') then
    ["..", "."].filter fun name => pattern.isMatch name.toList
  else []

def below (directory name : String) : String :=
  if Path.same directory "." then name else Path.join directory name

/-- The paths below a directory that some components lead to. -/
def search (tree : FileTree) : Nat → List GlobPattern → String → List String
  | 0, _, _ => []
  | _ + 1, [], _ => []
  | fuel + 1, pattern :: rest, path =>
    let follow (rest : List GlobPattern) (next : String) : List String :=
      if rest.isEmpty then [next] else search tree fuel rest next
    let compare (patterns : List GlobPattern) (name : Text) (next : String) : List String :=
      match patterns with
      | [] => []
      | first :: others => if first.isMatch name then follow others next else []
    match pattern.literal? with
    | some name =>
      let next := below path (String.ofList name)
      let isThere :=
        if name == ['.'] || name == ['.', '.'] then tree.isDirectory path else tree.isPresent next
      if isThere then follow rest next else []
    | none =>
      if !tree.isDirectory path then []
      else
        let special := (specialNames pattern).flatMap fun name => follow rest (Path.join path name)
        special ++ (tree.names path).flatMap fun name =>
          let next := below path (String.ofList name)
          if pattern.isAnyComponents then
            let later := rest.dropWhile GlobPattern.isAnyComponents
            let isDirectory := tree.isDirectory next
            let own :=
              if later.isEmpty then (if isDirectory then [next] else [])
              else compare later name next
            own ++ if isDirectory then search tree fuel (pattern :: later) next else []
          else compare (pattern :: rest) name next

/-- The paths in a tree that a pattern leads to. Each step takes a component of the pattern or goes
into a directory. -/
def paths (glob : PathGlob) (tree : FileTree) : List String :=
  if glob.isRooted then []
  else
    let steps := (glob.components.length + 1) * (tree.entries.length + 2)
    let found := search tree steps glob.components "."
    if glob.wantsDirectory then found.filter tree.isDirectory else found

end PathGlob
end TagLint
