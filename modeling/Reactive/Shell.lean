/-
What commands can do to the world around them.

A command reads and writes files, prints, and writes to a log.  `Desk` is a
world of its own for that: a folder, what was printed, and the log.
-/
import Reactive.Folder
import Reactive.Log

namespace Reactive

/-- What a command can do. -/
structure Shell (m : Type → Type) where
  read : Text → m (Except FileError Text)
  write : Text → Text → m (Except FileError Unit)
  /-- The files under a path, or the file at it. -/
  walk : Text → m (Except FileError (List Text))
  print : Text → m Unit
  log : Text → m Unit

/-- A folder with what was printed and logged so far, the last first. -/
structure Desk where
  files : Folder := []
  printed : List Text := []
  logs : List Text := []

/-- The name in front of every line that is logged. -/
def logName : Text := "loom: "

namespace Desk

/-- A desk as the world of a command. -/
def shell : Shell (StateM Desk) where
  read path := do return (← get).files.read path
  write path text := do
    match (← get).files.write path text with
    | .error e => return .error e
    | .ok files =>
      modify fun d => { d with files }
      return .ok ()
  walk path := do return (← get).files.walk path
  print t := modify fun d => { d with printed := t :: d.printed }
  log t := modify fun d => { d with logs := (LogEntry.line .component (logName ++ t)).text :: d.logs }

/-- What was printed. -/
def output (d : Desk) : Text := d.printed.reverse.flatten

/-- The lines of the log. -/
def logLines (d : Desk) : List Text :=
  if d.logs.isEmpty then [] else Text.lines (Text.trimSuffix d.logs.reverse.flatten "\n")

end Desk

namespace Shell

variable {m : Type → Type} [Monad m]

/-- Pass entries on, the first one last in the list: what tracing wrote is printed, the rest is
logged. -/
def relay (sh : Shell m) (entries : List LogEntry) : m Unit :=
  entries.reverse.forM fun e => if e.voice = .trace then sh.print e.text else sh.log e.text

end Shell

end Reactive
