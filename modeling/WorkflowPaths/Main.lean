import WorkflowPaths.Command.Run

/-!
# The program

Runs the command on the files of the operating system.
-/

namespace WorkflowPaths

/-- The failure that an error of the operating system is. -/
def FileFault.ofError : IO.Error → FileFault
  | .noFileOrDirectory .. => .notFound
  | .inappropriateType _ 20 _ => .notDirectory
  | .inappropriateType _ 21 _ => .isDirectory
  | .invalidArgument _ 36 _ => .nameTooLong
  | e => .other (toString e)

/-- The files of the operating system. -/
def systemFiles : Files IO where
  read path := do
    try
      let handle ← IO.FS.Handle.mk path .read
      return .ok (← handle.readToEnd)
    catch e => return .error (.ofError e)
  write path text := do
    try
      IO.FS.writeFile path text
      return .ok ()
    catch e => return .error (.ofError e)

end WorkflowPaths

/-- Runs the command and passes on its output and its exit code. -/
def main (args : List String) : IO UInt32 := do
  let result ← WorkflowPaths.Command.run WorkflowPaths.systemFiles args
  IO.print result.stdout
  IO.eprint result.stderr
  return result.exitCode.toUInt32
