/-
The log.

Three voices write to it: components tell what went wrong, programs print,
and tracing follows what happens.  Who reads the log decides which of them
to show.
-/
import Reactive.Text.Basic

namespace Reactive

/-- Who wrote an entry of the log. -/
inductive Voice where
  /-- A component or its compilation. -/
  | component
  /-- A program that prints. -/
  | program
  /-- Tracing. -/
  | trace
deriving DecidableEq

/-- An entry of the log; its text ends with a line break. -/
structure LogEntry where
  voice : Voice
  text : Text

namespace LogEntry

/-- An entry, with a line break at its end if there is none. -/
def line (voice : Voice) (t : Text) : LogEntry :=
  ⟨voice, if Text.endsWith t "\n" then t else t ++ "\n"⟩

/-- Entries, the last one first, as one text. -/
def textOf (entries : List LogEntry) : Text := entries.reverse.flatMap text

/-- The entries of one voice. -/
def ofVoice (voice : Voice) (entries : List LogEntry) : List LogEntry :=
  entries.filter fun e => e.voice = voice

end LogEntry

end Reactive
