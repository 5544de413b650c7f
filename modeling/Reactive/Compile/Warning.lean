/-
Warnings for things that compile but are probably not meant.

There are two kinds: more keys than a mask has bits, and names that nothing
declares.  A name that nothing declares is reported once, with a name that
resembles it if there is one.

* `Text.suggest` — the candidate that resembles a name: those in which the name
  occurs with gaps, letter case aside, come first, and of those the nearest;
  otherwise one that is at most two edits away;
* `Text.editDistance` — how many characters to insert, drop or change.
-/
import Reactive.Eval.Globals
import Reactive.Script
import Reactive.Text.Case
import Reactive.Trace
import Reactive.View.Basic

namespace Reactive

/-! ### Names that resemble a name -/

namespace Text

/-- Whether the characters of one list occur in another in order. -/
def isSubsequence : List Nat → List Nat → Bool
  | [], _ => true
  | _ :: _, [] => false
  | a :: s, b :: t => if a = b then isSubsequence s t else isSubsequence (a :: s) t

/-- Whether a name occurs with gaps in a candidate that is not shorter, letter case aside. -/
def occursIn (name candidate : Text) : Bool :=
  let s := lower name
  let t := lower candidate
  s.length ≤ t.length && isSubsequence (codePoints s) (codePoints t)

/-- The next row of the table of distances between the beginnings of two texts: `c` is the next
character of the second text, `diagonal` and `left` the distances before and beside. -/
def nextRow (c : Nat) (diagonal left : Nat) : List Nat → List Nat → List Nat
  | a :: s, up :: row =>
    let here := min (min (up + 1) (left + 1)) (diagonal + if a = c then 0 else 1)
    here :: nextRow c up here s row
  | _, _ => []

/-- The last row of the table of distances. -/
def lastRow (s : List Nat) (x : Nat) (row : List Nat) : List Nat → Nat × List Nat
  | [] => (x, row)
  | c :: t => lastRow s (x + 1) (nextRow c x (x + 1) s row) t

/-- How many characters to insert, drop or change to get from one text to another. -/
def editDistance (s t : Text) : Nat :=
  let cs := codePoints s
  let (x, row) := lastRow cs 0 (cs.mapIdx fun i _ => i + 1) (codePoints t)
  row.getLastD x

/-- The first of the nearest candidates below a distance. -/
def nearest (name : Text) (best : Option Text) (below : Nat) : List Text → Option Text
  | [] => best
  | c :: r =>
    let d := editDistance name c
    if d < below then nearest name (some c) d r else nearest name best below r

/-- The candidate that resembles a name most, if any does. -/
def suggest (name : Text) (candidates : List Text) : Option Text :=
  match candidates.filter (occursIn name) with
  | [] => nearest name none 3 candidates
  | c :: r => nearest name (some c) (editDistance name c) r

end Text

/-! ### Mentions -/

/-- Where names are mentioned: in what, in which source, and the names. -/
structure Mention where
  place : Text
  source : Text
  names : List Text

namespace Mention

/-- The names that a binding mentions. -/
def ofBinding (place : Text) (b : View.Binding) : Mention := ⟨place, b.source, b.state⟩

/-- The names that an attribute mentions. -/
def ofAttr : View.Attr → List Mention
  | .fixed .. => []
  | .bound name b => [ofBinding ("attribute " ++ name) b]

open View in
mutual

/-- The names that a node mentions, then those that the nodes below it mention. -/
def ofNode : Node → List Mention
  | .fixed _ _ => []
  | .text _ b => [ofBinding "text" b]
  | .elem _ _ attrs toggles handlers children =>
    attrs.flatMap ofAttr ++ (toggles.map fun t => ofBinding ("class:" ++ t.token) t.binding) ++
      (handlers.map fun h => ofBinding ("on:" ++ h.event) h.binding) ++ ofNodes children
  | .cond _ branches other =>
    (testsOf branches).map (ofBinding "if") ++ ofBranches branches ++ ofOtherwise other
  | .each _ list _ _ body => ofBinding "each" list :: ofNode body
  | .fragment _ children => ofNodes children

/-- The names that several nodes mention. -/
def ofNodes : List Node → List Mention
  | [] => []
  | n :: r => ofNode n ++ ofNodes r

/-- The names that some branches mention. -/
def ofBranches : List Branch → List Mention
  | [] => []
  | b :: r => ofBranch b ++ ofBranches r

/-- The names that the body of a branch mentions. -/
def ofBranch : Branch → List Mention
  | .mk _ body => ofNode body

/-- The names mentioned for when no condition holds. -/
def ofOtherwise : Otherwise → List Mention
  | .nothing => []
  | .body n => ofNode n

end

/-- The names that derived values and methods mention. -/
def ofScript (s : Script) : List Mention :=
  (s.derived.map fun d => ⟨"derived " ++ d.name, d.name, d.deps⟩) ++
    (s.methods.map fun m => ⟨"function " ++ m.name, m.name, m.deps⟩)

end Mention

namespace Warning

/-- The warning for a name that nothing declares. -/
def undeclared (declared : List Text) (m : Mention) (name : Text) : Text :=
  name ++ " is not declared (in " ++ m.place ++ " \x7b" ++ m.source ++ "\x7d)" ++
    match Text.suggest name declared with
    | none => []
    | some s => "; did you mean " ++ s ++ "?"

/-- The warnings for names that nothing declares, each name once. -/
def ofMentions (declared seen : List Text) : List (Mention × Text) → List Text
  | [] => []
  | (m, name) :: r =>
    if declared.contains name || seen.contains name || Globals.names.contains name then
      ofMentions declared seen r
    else undeclared declared m name :: ofMentions declared (name :: seen) r

/-- The warning for keys that have no bit. -/
def ofKeys (keys : List Text) : List Text :=
  if keys.length > Bits.maxKeys then
    [Text.ofNat keys.length ++ " reactive keys exceed the " ++ Text.ofNat Bits.maxKeys ++
      "-bit dirty mask; changes to " ++ Tracing.namesText (keys.drop Bits.maxKeys) ++
      " are never patched"]
  else []

/-- The warnings for a component. -/
def all (view : List View.Node) (s : Script) (keys : List Text) : List Text :=
  ofKeys keys ++ ofMentions s.names []
    ((Mention.ofNodes view ++ Mention.ofScript s).flatMap fun m => m.names.map fun n => (m, n))

end Warning

end Reactive
