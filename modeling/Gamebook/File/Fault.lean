/-!
# Faults of files

Stories and sessions are kept in files. Why one of them cannot be read or written is told in the
words of the operating system.
-/

namespace Gamebook

/-- Why a file cannot be read or written. -/
inductive FileFault where
  /-- There is no such file, or no such directory on the way to it. -/
  | notFound
  /-- On the way to it a file stands in the place of a directory. -/
  | notDirectory
  /-- It is a directory. -/
  | isDirectory
  /-- Its path, or a name on the way to it, is too long. -/
  | nameTooLong
  /-- There is a NUL in its path. -/
  | nulInPath
  /-- Its bytes are no text. -/
  | notText
  deriving DecidableEq, Repr

/-- The text of a fault. -/
def FileFault.message : FileFault → String
  | notFound => "No such file or directory (os error 2)"
  | notDirectory => "Not a directory (os error 20)"
  | isDirectory => "Is a directory (os error 21)"
  | nameTooLong => "File name too long (os error 36)"
  | nulInPath => "file name contained an unexpected NUL byte"
  | notText => "stream did not contain valid UTF-8"

end Gamebook
