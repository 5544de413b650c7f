/-
Trace lines.

When tracing is on, compilation and updates leave a line in the log for each
thing they do.  Filters are name patterns for tags; without filters every
tag is traced.
-/
import Reactive.Bits
import Reactive.Eval.Machine
import Reactive.Glob

namespace Reactive

/-- Whether there are trace lines, and for which tags. -/
structure Tracing where
  enabled : Bool := false
  filters : List Text := []

namespace Tracing

/-- Whether a tag is traced. -/
def covers (t : Tracing) (tag : Text) : Bool :=
  t.enabled && (t.filters.isEmpty || t.filters.any fun p => Text.fitsPattern tag p)

/-- A trace line. -/
def line (tag detail : Text) : Text := "[TRACE] <" ++ tag ++ "> " ++ detail

/-- A mask in binary. -/
def maskText (m : Mask) : Text := "0b" ++ Text.ofNatBinary m.toNat

/-- Names in brackets. -/
def namesText (names : List Text) : Text := "[" ++ Text.join " " names ++ "]"

/-- A truth value as a word. -/
def boolText (b : Bool) : Text := if b then "true" else "false"

/-- The line for a finished phase of compilation. -/
def phase (name detail : Text) : Text := "PHASE " ++ name ++ " " ++ detail

/-- The line for the start of an update. -/
def flush (dirty : Mask) (keys : List Text) : Text :=
  "FLUSH dirty=" ++ maskText dirty ++ " keys=" ++ namesText keys

/-- A text cut to sixty bytes. -/
def shortened (t : Text) : Text := if t.length > 60 then t.take 57 ++ "..." else t

/-- The line for a derived value that was computed. -/
def derived (name : Text) (value : Value) (changed : Bool) : Text :=
  "DERIVED " ++ name ++ " => " ++ shortened value.display ++ " changed=" ++ boolText changed

/-- The line for a block that changed something. -/
def patch (block : Text) (dirty : Mask) : Text := "PATCH " ++ block ++ " dirty=" ++ maskText dirty

/-- The line for an event that was sent. -/
def event (name : Text) (handled : Bool) : Text :=
  "EVENT " ++ name ++ " handled=" ++ boolText handled

/-- Write a trace line if the tag is traced. -/
def write {ω : Type} (t : Tracing) (tag detail : Text) : Run ω Unit :=
  if t.covers tag then writeLog .trace (line tag detail) else pure ()

end Tracing

end Reactive
