import TagLint.CommandLine.Run

/-!
The program: it looks at the names below the working directory, reads the files that the command
line needs, and prints and writes what a run comes to.
-/
namespace TagLint.Main

/-- The names below a directory entry, as paths from the working directory. Links to directories
are not followed. -/
partial def entriesBelow (path : String) (entry : IO.FS.DirEntry) :
    IO (List (String × FileEntry)) := do
  if (← entry.path.symlinkMetadata).type == .dir then
    let inner ← entry.path.readDir
    let below ← inner.toList.mapM fun child =>
      entriesBelow (Path.join path child.fileName) child
    return (path, .directory) :: below.flatten
  else
    return [(path, .unreadable .forbidden)]

/-- The names below the working directory. -/
def workingTree : IO FileTree := do
  let top ← (← IO.currentDir).readDir
  let entries ← top.toList.mapM fun entry => entriesBelow entry.fileName entry
  return FileTree.ofList entries.flatten

def contentOf (path : String) : IO FileEntry := do
  try
    match String.fromUTF8? (← IO.FS.readBinFile path) with
    | some content => return .file content.toList
    | none => return .unreadable .notText
  catch _ => return .unreadable .forbidden

def withContents (tree : FileTree) (paths : List String) : IO FileTree :=
  paths.foldlM
    (fun tree path => do
      if tree.isFile path then return tree.replace path (← contentOf path) else return tree)
    tree

def filesFor : CommandLine.Request → IO FileTree
  | .version => return .empty
  | .work line => do
    let names ← workingTree
    let configured ← withContents names (line.configPath? names).toList
    withContents configured (line.pathsToRead configured)

end TagLint.Main

/-- Runs the program. -/
def main (arguments : List String) : IO UInt32 := do
  match TagLint.CommandLine.read? arguments with
  | none =>
    IO.eprintln "error: invalid arguments"
    return 2
  | some request =>
    let result := request.run (← TagLint.Main.filesFor request)
    for (path, content) in result.written do
      IO.FS.writeFile path (String.ofList content)
    IO.eprint (String.ofList result.errors)
    IO.print (String.ofList result.output)
    return result.exitCode.toUInt32
