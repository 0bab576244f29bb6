/-!
# `PartitionStore.IoError`: why a file operation failed

Each cause is a constructor; its wording, the system's message followed by
the system's number for it, is in `IoError.message` alone.
-/

set_option autoImplicit false

namespace PartitionStore

/-- The causes for which an operation on the file tree fails. -/
inductive IoError where
  /-- A name on the way, or the thing itself, is missing. -/
  | notFound
  /-- The path does not end in a name that could be given away. -/
  | busy
  /-- The name to be created is taken. -/
  | alreadyExists
  /-- A directory is needed where there is something else. -/
  | notADirectory
  /-- A file is needed where there is a directory. -/
  | isADirectory
  /-- The operation makes no sense at this path. -/
  | invalidArgument
  /-- A name is longer than a directory entry may be. -/
  | nameTooLong
  /-- The directory to be removed or replaced holds something. -/
  | notEmpty
  /-- The path leads through more symbolic links than are followed. -/
  | tooManyLinks
  /-- The path contains the character U+0000. -/
  | nulInPath
  /-- The bytes of a text file are not UTF-8. -/
  | notUtf8
  /-- A failure planted on purpose, with the text it reports. -/
  | planted (text : String)
  deriving DecidableEq, Repr, Inhabited

/-- The text a cause is reported with. -/
def IoError.message : IoError → String
  | .notFound => "No such file or directory (os error 2)"
  | .busy => "Device or resource busy (os error 16)"
  | .alreadyExists => "File exists (os error 17)"
  | .notADirectory => "Not a directory (os error 20)"
  | .isADirectory => "Is a directory (os error 21)"
  | .invalidArgument => "Invalid argument (os error 22)"
  | .nameTooLong => "File name too long (os error 36)"
  | .notEmpty => "Directory not empty (os error 39)"
  | .tooManyLinks => "Too many levels of symbolic links (os error 40)"
  | .nulInPath => "file name contained an unexpected NUL byte"
  | .notUtf8 => "stream did not contain valid UTF-8"
  | .planted text => text

end PartitionStore
