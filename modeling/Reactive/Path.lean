/-
Names of files.

A path is a text with slashes between its parts.  `Path.clean` is the
shortest path that means the same; `.` stands for the empty one.
-/
import Reactive.Text.Basic

namespace Reactive.Path

/-- Whether a path starts at the root. -/
def isAbsolute (p : Text) : Bool := Text.startsWith p "/"

/-- The parts of a path without those that change nothing.  `stack` holds the parts kept so far,
the last one first. -/
def cleanParts (rooted : Bool) (stack : List Text) : List Text → List Text
  | [] => stack.reverse
  | p :: r =>
    if p = "" || p = "." then cleanParts rooted stack r
    else if p = ".." then
      match stack with
      | [] => cleanParts rooted (if rooted then [] else [p]) r
      | q :: s => cleanParts rooted (if q = ".." then p :: q :: s else s) r
    else cleanParts rooted (p :: stack) r

/-- The parts of a path. -/
def parts (p : Text) : List Text := Text.splitOn "/" p

/-- The shortest path that means the same. -/
def clean (p : Text) : Text :=
  let body := Text.join "/" (cleanParts (isAbsolute p) [] (parts p))
  if isAbsolute p then "/" ++ body else if body.isEmpty then "." else body

/-- A path seen from a directory; an empty directory says nothing. -/
def join (dir p : Text) : Text :=
  if dir.isEmpty then (if p.isEmpty then [] else clean p)
  else if p.isEmpty then clean dir else clean (dir ++ "/" ++ p)

/-- The last part of a path. -/
def base (p : Text) : Text := (parts p).getLastD []

/-- The directory that a path is in. -/
def dir (p : Text) : Text := clean (p.take (p.length - (base p).length))

/-- The end of the last part from its last point on. -/
def extension (p : Text) : Text :=
  match Text.lastIndexOf? "." (base p) with
  | none => []
  | some i => (base p).drop i

/-- A path with another extension. -/
def withExtension (p ext : Text) : Text := p.take (p.length - (extension p).length) ++ ext

/-- A path inside a directory as it is seen from there. -/
def relative (dir p : Text) : Text :=
  if p = dir then "."
  else if clean dir = "." then p
  else Text.trimPrefix p (if clean dir = "/" then "/" else clean dir ++ "/")

end Reactive.Path
