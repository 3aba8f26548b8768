import TagLint.Text.Basic

/-! Places that hold files by their paths, and why a file cannot be read or written. -/
namespace TagLint

/-- Why a file cannot be read or written. -/
inductive FileFailure where
  /-- There is nothing at the path. -/
  | notFound
  /-- There is a directory at the path. -/
  | isDirectory
  /-- The path goes on below something that is no directory. -/
  | notDirectory
  /-- The path, or a name in it, is too long. -/
  | nameTooLong
  /-- The path holds a null character. -/
  | nullInPath
  /-- The bytes of the file are no text. -/
  | notText
  /-- Reading or writing is not permitted. -/
  | forbidden
  deriving DecidableEq, Repr

def FileFailure.message : FileFailure → String
  | notFound => "No such file or directory (os error 2)"
  | isDirectory => "Is a directory (os error 21)"
  | notDirectory => "Not a directory (os error 20)"
  | nameTooLong => "File name too long (os error 36)"
  | nullInPath => "file name contained an unexpected NUL byte"
  | notText => "stream did not contain valid UTF-8"
  | forbidden => "Permission denied (os error 13)"

/-- What holds files. Writing is asked for only where a file can be read. -/
class FileStore (Store : Type) where
  read : Store → String → Except FileFailure Text
  write : Store → String → Text → Store

end TagLint
