/-
The command line on a disk.

Files are read and written where their paths say.  The files below a
directory are listed on standard input, one path to a line, and so are the
commands of `play` and the targets that `serve` answers.
-/
import Reactive.Command.Basic

namespace Reactive.Disk

/-- Write bytes. -/
def put (out : IO.FS.Stream) (t : Text) : IO Unit := do
  out.write ⟨t.toArray⟩
  out.flush

/-- What went wrong with a file. -/
def fileError (act path : Text) : IO.Error → FileError
  | .inappropriateType .. => .isDirectory act path
  | .resourceExhausted .. | .illegalOperation .. => .notDirectory act path
  | _ => .missing act path

/-- The lines of standard input, up to its end. -/
partial def inputLines (input : IO.FS.Stream) : IO (List Text) := do
  let line ← input.getLine
  if line.isEmpty then return []
  return Text.trimSuffix line "\n" :: (← inputLines input)

/-- The disk as the world of a command. -/
def shell : Shell IO where
  read path := do
    try
      return .ok (← IO.FS.readBinFile path.toString).data.toList
    catch e => return .error (fileError "open" path e)
  write path text := do
    try
      IO.FS.writeBinFile path.toString ⟨text.toArray⟩
      return .ok ()
    catch e => return .error (fileError "open" path e)
  walk path := do
    let paths ← inputLines (← IO.getStdin)
    return (Folder.ofFiles (paths.map fun p => (p, []))).walk path
  print t := do put (← IO.getStdout) t
  log t := do put (← IO.getStderr) (LogEntry.line .component (logName ++ t)).text

/-- Commands until one quits or there are no more. -/
partial def play (s : Setting) (m : Machine World) : IO UInt32 := do
  put (← IO.getStdout) "loom> "
  let line ← (← IO.getStdin).getLine
  if line.isEmpty then
    shell.print "\n"
    return 0
  match (Play.command s line).run m with
  | .error _ => return 2
  | .ok (r, m) =>
    shell.relay m.logs
    match r with
    | .ok reply =>
      shell.print reply.out
      if reply.quit then return 0
    | .error e => put (← IO.getStderr) (e.message ++ "\n")
    play s { m with logs := [] }

/-- Pages for targets until there are no more. -/
partial def serve (p : Preview) : IO UInt32 := do
  let line ← (← IO.getStdin).getLine
  if line.isEmpty then return 0
  match p.page (Text.trimSuffix line "\n") with
  | .error _ => return 2
  | .ok (page, logs) =>
    shell.relay logs
    shell.print (Text.ofNat page.status ++ "\n" ++ page.body ++ "\n")
    serve p

end Reactive.Disk

/-- Run a command line. -/
def main (args : List String) : IO UInt32 := do
  match ← Reactive.Command.run Reactive.Disk.shell (args.map Reactive.Text.ofString) with
  | .exit code => return UInt32.ofNat code
  | .play s m => Reactive.Disk.play s m
  | .serve p _ => Reactive.Disk.serve p
  | .halt _ => return 2
