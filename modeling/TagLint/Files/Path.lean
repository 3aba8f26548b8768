import TagLint.Text.Basic

/-!
Paths as sequences of components.

A path is kept as it is written. Repeated slashes, a slash at the end, and a dot anywhere but at
the start make no difference to its components; two paths are the same when these are, and their
order is that of the components, one after the other.
-/
namespace TagLint

/-- A component of a path. -/
inductive PathComponent where
  /-- The slash at the start. -/
  | root
  /-- The dot at the start. -/
  | here
  | parent
  | name (text : Text)
  deriving DecidableEq, Repr

namespace PathComponent

/-- The kinds of components in their order. -/
def rank : PathComponent → Nat
  | root => 0
  | here => 1
  | parent => 2
  | name _ => 3

/-- The order of texts by code point, which is that of their bytes. -/
def textBefore : Text → Text → Bool
  | [], _ => true
  | _ :: _, [] => false
  | c :: s, d :: t => c < d || (c == d && textBefore s t)

def before : PathComponent → PathComponent → Bool
  | name s, name t => textBefore s t
  | a, b => a.rank ≤ b.rank

end PathComponent

namespace Path

def parts (path : String) : List Text :=
  Text.splitOn (· == '/') path.toList

def components (path : String) : List PathComponent :=
  let isRooted := path.toList.head? == some '/'
  let component (part : Text) : Option PathComponent :=
    if part.isEmpty || part == ['.'] then none
    else if part == ['.', '.'] then some .parent
    else some (.name part)
  let start : List PathComponent :=
    if isRooted then [.root] else if (parts path).head? == some ['.'] then [.here] else []
  start ++ (parts path).filterMap component

/-- The order of sequences of components. -/
def componentsBefore : List PathComponent → List PathComponent → Bool
  | [], _ => true
  | _ :: _, [] => false
  | a :: as, b :: bs => if a == b then componentsBefore as bs else a.before b

def before (a b : String) : Bool :=
  componentsBefore (components a) (components b)

def same (a b : String) : Bool :=
  components a == components b

def join (directory name : String) : String :=
  if directory.isEmpty || directory.toList.getLast? == some '/' then directory ++ name
  else directory ++ "/" ++ name

/-- The last component, if it is a name. -/
def fileName? (path : String) : Option Text :=
  match (components path).getLast? with
  | some (.name text) => some text
  | _ => none

/-- What follows the last dot of the file name; nothing where that dot is the first character. -/
def extension (path : String) : String :=
  match fileName? path with
  | none => ""
  | some name =>
    match (Text.splitOn (· == '.') name).reverse with
    | last :: [before] => if before.isEmpty then "" else String.ofList last
    | last :: _ :: _ :: _ => String.ofList last
    | _ => ""

end Path
end TagLint
