/-!
# Files

What the analysis needs of a file system: to read a text and to write one. Both can fail, and the
messages say how in the words of the operating system.
-/

namespace WorkflowPaths

/-- Why a file can be neither read nor written. -/
inductive FileFault where
  /-- There is no such file or directory. -/
  | notFound
  /-- A part of the path that has to be a directory is a file. -/
  | notDirectory
  /-- The path leads to a directory. -/
  | isDirectory
  /-- The path or a part of it is too long. -/
  | nameTooLong
  /-- The path holds a NUL character. -/
  | nulInName
  /-- Any other failure, in words. -/
  | other (text : String)
deriving DecidableEq, Repr

/-- The failure in words. -/
def FileFault.text : FileFault → String
  | .notFound => "No such file or directory (os error 2)"
  | .notDirectory => "Not a directory (os error 20)"
  | .isDirectory => "Is a directory (os error 21)"
  | .nameTooLong => "File name too long (os error 36)"
  | .nulInName => "file name contained an unexpected NUL byte"
  | .other text => text

/-- Access to files in a monad `m`. -/
structure Files (m : Type → Type) where
  /-- The text of the file at a path. -/
  read : String → m (Except FileFault String)
  /-- Makes the text the contents of the file at a path. -/
  write : String → String → m (Except FileFault Unit)

end WorkflowPaths
