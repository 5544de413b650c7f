/-
Flags on a command line.

A flag is a name after one or two hyphens.  A switch stands alone or has a
truth value after an equals sign; any other flag has its value there or in
the next word.  Flags end at the first word that is none, or at `--`.

* `Flags.read` — the values of the flags and the words after them;
* `Flags.readInput` — the same, with a word that may also come first.
-/
import Reactive.Dict
import Reactive.Text.Quoted

namespace Reactive

/-- A flag that a command knows. -/
structure Flag where
  name : Text
  /-- The value without the flag; a switch has none. -/
  start : Option Text
  description : Text

namespace Flag

/-- A flag that is on or off. -/
def switch (name description : Text) : Flag := ⟨name, none, description⟩

/-- A flag with a value. -/
def value (name start description : Text) : Flag := ⟨name, some start, description⟩

/-- The lines on a flag in a list of flags. -/
def usage (f : Flag) : Text :=
  let front : Text := "  -" ++ f.name ++ (if f.start.isSome then " string" else "")
  let gap : Text := if front.length ≤ 4 then "\t" else "\n    \t"
  let default : Text := match f.start with
    | some (b :: r) => " (default " ++ Text.quote (b :: r) ++ ")"
    | _ => []
  front ++ gap ++ f.description ++ default ++ "\n"

end Flag

/-- Why flags could not be read. -/
inductive FlagError where
  /-- The list of flags was asked for. -/
  | help
  | malformed (word : Text)
  | unknown (name : Text)
  | badSwitch (name value : Text)
  | missingValue (name : Text)

/-- The wording of a failure; a request for help has none. -/
def FlagError.message : FlagError → Text
  | .help => []
  | .malformed w => "bad flag syntax: " ++ w ++ "\n"
  | .unknown n => "flag provided but not defined: -" ++ n ++ "\n"
  | .badSwitch n v => "invalid boolean value " ++ Text.quote v ++ " for -" ++ n ++ ": parse error\n"
  | .missingValue n => "flag needs an argument: -" ++ n ++ "\n"

/-- What flags were set to. -/
structure Flags where
  switches : Dict Bool := []
  values : Dict Text := []

namespace Flags

/-- Whether a switch is on. -/
def isOn (f : Flags) (name : Text) : Bool := (f.switches.get? name).getD false

/-- The value of a flag. -/
def get (f : Flags) (name : Text) : Text := (f.values.get? name).getD []

/-- The values of flags that are not on the command line. -/
def start (known : List Flag) : Flags :=
  { values := known.filterMap fun f => f.start.map fun t => (f.name, t) }

/-- A word for a truth value. -/
def readSwitch? (t : Text) : Option Bool :=
  let yes : List Text := ["1", "t", "T", "TRUE", "true", "True"]
  let no : List Text := ["0", "f", "F", "FALSE", "false", "False"]
  if yes.contains t then some true else if no.contains t then some false else none

/-- The name in a flag, and what stands after an equals sign that is not its first byte. -/
def splitName (t : Text) : Text × Option Text :=
  match Text.indexOfByte? 61 (t.drop 1) with
  | none => (t, none)
  | some i => (t.take (i + 1), some (t.drop (i + 2)))

/-- The values of the flags, and the words after them. -/
def readWords (known : List Flag) (f : Flags) : List Text → Except FlagError (Flags × List Text)
  | [] => .ok (f, [])
  | w :: r =>
    if w.length < 2 || !Text.startsWith w "-" then .ok (f, w :: r)
    else if w = "--" then .ok (f, r)
    else
      let body := w.drop (if Text.startsWith w "--" then 2 else 1)
      if Text.startsWith body "-" || Text.startsWith body "=" then .error (.malformed w)
      else
        let (name, given) := splitName body
        match known.find? fun k => k.name = name with
        | none => .error (if name = "help" || name = "h" then .help else .unknown name)
        | some k =>
          match k.start, given, r with
          | none, none, r => readWords known { f with switches := f.switches.insert name true } r
          | none, some v, r =>
            match readSwitch? v with
            | none => .error (.badSwitch name v)
            | some b => readWords known { f with switches := f.switches.insert name b } r
          | some _, some v, r => readWords known { f with values := f.values.insert name v } r
          | some _, none, v :: r => readWords known { f with values := f.values.insert name v } r
          | some _, none, [] => .error (.missingValue name)

/-- The flags on a command line, and the word that may come before or after them. -/
def readInput (known : List Flag) (args : List Text) : Except FlagError (Flags × Text) :=
  let (first, rest) : Text × List Text := match args with
    | [] => ([], [])
    | w :: r => if Text.startsWith w "-" then ([], w :: r) else (w, r)
  match readWords known (start known) rest with
  | .error e => .error e
  | .ok (f, words) => .ok (f, if first.isEmpty then words.headD [] else first)

/-- The list of the flags of a command, in the order of their names. -/
def usage (command : Text) (known : List Flag) : Text :=
  "Usage of " ++ command ++ ":\n" ++
    (Text.sortedByKey (known.map fun f => (f.name, f))).flatMap fun p => p.2.usage

end Flags

end Reactive
