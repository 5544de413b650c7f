/-
A folder of files.

A folder holds files under their paths; a directory is there as long as a
file is in it.  Nothing outside the folder can be reached.

* `Folder.locate` — what is at a path, going through it part by part;
* `Folder.read`, `Folder.write` — one file;
* `Folder.walk` — the files under a directory, in the order of their parts.
-/
import Reactive.Dict
import Reactive.Path

namespace Reactive

/-- Why a file could not be used; `act` is what was tried. -/
inductive FileError where
  | missing (act path : Text)
  | isDirectory (act path : Text)
  | notDirectory (act path : Text)

/-- The wording of a failure. -/
def FileError.message : FileError → Text
  | .missing act p => act ++ " " ++ p ++ ": no such file or directory"
  | .isDirectory act p => act ++ " " ++ p ++ ": is a directory"
  | .notDirectory act p => act ++ " " ++ p ++ ": not a directory"

/-- Files by path. -/
abbrev Folder := Dict Text

/-- What is at a path. -/
inductive Place where
  | file (key : Text)
  /-- A directory, by its parts. -/
  | directory (parts : List Text)
  /-- Nothing, in a directory that is there. -/
  | vacant (key : Text)
  | missing
  /-- A part before the last one is a file. -/
  | blocked

namespace Folder

/-- The folder of some files. -/
def ofFiles (files : List (Text × Text)) : Folder :=
  Dict.ofPairs (files.map fun p => (Path.clean p.1, p.2))

/-- The path with given parts. -/
def key (parts : List Text) : Text := Text.join "/" parts

/-- Whether a directory is there; the whole folder always is. -/
def isDirectory (f : Folder) (parts : List Text) : Bool :=
  parts.isEmpty || f.any fun p => Text.startsWith p.1 (key parts ++ "/")

/-- What is at the end of some parts, seen from a directory. -/
def locate (f : Folder) (here : List Text) : List Text → Place
  | [] => .directory here
  | p :: r =>
    if p = "" || p = "." then locate f here r
    else if p = ".." then
      if here.isEmpty then .missing else locate f here.dropLast r
    else
      let there := here ++ [p]
      if f.isDirectory there then locate f there r
      else if f.has (key there) then if r.isEmpty then .file (key there) else .blocked
      else if r.isEmpty then .vacant (key there)
      else .missing

/-- What is at a path. -/
def find (f : Folder) (path : Text) : Place :=
  if path.isEmpty || Path.isAbsolute path then .missing else f.locate [] (Path.parts path)

/-- The text of a file. -/
def read (f : Folder) (path : Text) : Except FileError Text :=
  match f.find path with
  | .file k => .ok ((f.get? k).getD [])
  | .directory _ => .error (.isDirectory "read" path)
  | .blocked => .error (.notDirectory "open" path)
  | .vacant _ | .missing => .error (.missing "open" path)

/-- The folder with a file written. -/
def write (f : Folder) (path text : Text) : Except FileError Folder :=
  match f.find path with
  | .file k | .vacant k => .ok (f.insert k text)
  | .directory _ => .error (.isDirectory "open" path)
  | .blocked => .error (.notDirectory "open" path)
  | .missing => .error (.missing "open" path)

/-- The order of paths part by part, a front part first. -/
def partsLt : List Text → List Text → Bool
  | _, [] => false
  | [], _ :: _ => true
  | a :: s, b :: t => if Text.lt a b then true else if Text.lt b a then false else partsLt s t

/-- The paths below a directory as they are seen from there, in the order of their parts. -/
def below (f : Folder) (dir : List Text) : List Text :=
  let inside := f.keys.filterMap fun k =>
    let ps := Path.parts k
    if dir.isPrefixOf ps then some (ps.drop dir.length) else none
  (inside.mergeSort fun a b => !partsLt b a).map key

/-- The files under a path, or the file at it. -/
def walk (f : Folder) (path : Text) : Except FileError (List Text) :=
  match f.find path with
  | .file _ => .ok [path]
  | .directory dir => .ok ((f.below dir).map (Path.join path))
  | .blocked => .error (.notDirectory "lstat" path)
  | .vacant _ | .missing => .error (.missing "lstat" path)

end Folder

end Reactive
