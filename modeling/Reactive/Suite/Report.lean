/-
Suites from files, and reports on them.

* `Suite.load` — the suites under a path, in the order of their files;
* `Report.all` — every case run in order;
* `Report.summary` — the counts in one line.
-/
import Reactive.Shell
import Reactive.Suite.Run

namespace Reactive

/-- Why suites could not be loaded. -/
inductive LoadError where
  | file (e : FileError)
  | document (path : Text) (e : DocumentError)
  | unopened (path : Text) (e : FileError)

/-- The wording of a failure. -/
def LoadError.message : LoadError → Text
  | .file e => e.message
  | .document path e => path ++ ": " ++ e.message "empty suite"
  | .unopened path e => path ++ ": " ++ e.message

/-- A case with the file and the suite it is from. -/
structure LoadedCase where
  file : Text
  suite : Text
  case : Case

namespace Suite

variable {m : Type → Type} [Monad m]

/-- The cases in some files; the first file that cannot be read ends it. -/
def loadFiles (sh : Shell m) (dir : Text) : List Text → ExceptT LoadError m (List LoadedCase)
  | [] => return []
  | path :: r => do
    match ← ExceptT.lift (sh.read path) with
    | .error e => throw (.unopened path e)
    | .ok t =>
      match Suite.ofText path t with
      | .error e => throw (.document path e)
      | .ok s =>
        let here := s.cases.map (⟨Path.relative dir path, s.name, ·⟩)
        return here ++ (← loadFiles sh dir r)

/-- The cases of all suites under a path. -/
def load (sh : Shell m) (dir : Text) : ExceptT LoadError m (List LoadedCase) := do
  match ← ExceptT.lift (sh.walk dir) with
  | .error e => throw (.file e)
  | .ok paths => loadFiles sh dir (paths.filter fun p => Path.extension p = extension)

end Suite

/-- What became of a case that was loaded, and what was logged meanwhile. -/
structure Report where
  loaded : LoadedCase
  verdict : Verdict
  logs : List LogEntry

namespace Report

/-- Run every case in order. -/
def all (tr : Tracing) : List LoadedCase → Except Halt (List Report)
  | [] => .ok []
  | c :: r =>
    match c.case.run tr with
    | .error h => .error h
    | .ok (v, logs) => (all tr r).map (⟨c, v, logs⟩ :: ·)

/-- Whether a case was left out. -/
def isSkipped (r : Report) : Bool := r.verdict matches .skipped _

/-- Whether a case passed. -/
def isPassed (r : Report) : Bool := r.verdict matches .passed

/-- Whether a case failed. -/
def isFailed (r : Report) : Bool := r.verdict matches .failed _

/-- The counts of the verdicts. -/
def summary (rs : List Report) : Text :=
  Text.ofNat (rs.countP isPassed) ++ " passed, " ++ Text.ofNat (rs.countP isFailed) ++
    " failed, " ++ Text.ofNat (rs.countP isSkipped) ++ " skipped (" ++ Text.ofNat rs.length ++
    " total)"

end Report

end Reactive
