/-
Previews of components as pages.

A preview holds compiled components.  A target is a path with a query:

* `/` lists the components;
* `/c/<tag>` shows a fresh component, with the query as its attributes;
* `/c/<tag>/artifact` is what was compiled, as a document.
-/
import Reactive.Compile.Artifact
import Reactive.Component.Life

namespace Reactive

/-- An answer to a request. -/
structure Page where
  status : Nat := 200
  body : Text

/-- Compiled components, with the tracing in force. -/
structure Preview where
  registry : Registry := []
  artifacts : Dict Artifact := []
  tracing : Tracing := {}

/-! ### Targets -/

namespace Target

/-- A text with every escape replaced by the byte it stands for; nothing if an escape is
malformed.  In a query a plus stands for a blank. -/
def unescape (query : Bool) : Text → Option Text
  | [] => some []
  | '%' :: a :: b :: r =>
    if Text.isHexDigit a && Text.isHexDigit b then
      (unescape query r).map (UInt8.ofNat (Text.digitValue a * 16 + Text.digitValue b) :: ·)
    else none
  | c :: r =>
    if c == 37 then none
    else (unescape query r).map ((if query && c == 43 then 32 else c) :: ·)

/-- A text before and after the first place of a byte. -/
def cut (b : UInt8) (t : Text) : Text × Text :=
  match Text.indexOfByte? b t with
  | none => (t, [])
  | some i => (t.take i, t.drop (i + 1))

/-- One pair of a query; a malformed one is left out. -/
def pair? (t : Text) : Option (Text × Text) :=
  if t.isEmpty || t.contains 59 then none
  else do
    let (k, v) := cut 61 t
    return (← unescape true k, ← unescape true v)

/-- The pairs of a query in the order of their names; of several with one name the first
counts. -/
def pairs (query : Text) : List (Text × Text) :=
  let ps := (Text.splitOn "&" query).filterMap pair?
  (Text.sorted (Text.distinct (ps.map Prod.fst))).filterMap fun k =>
    (Dict.get? ps k).map fun v => (k, v)

end Target

/-! ### Pages -/

namespace Preview

/-- The page for a target that means nothing. -/
def notFound : Page := { status := 404, body := "404 page not found\n" }

/-- The page for a failure. -/
def failed (t : Text) : Page := { status := 500, body := t }

/-- An entry of the list of components. -/
def indexEntry (tag : Text) : Text :=
  "<li><a href=\"/c/" ++ tag ++ "\">&lt;" ++ tag ++ "&gt;</a> (<a href=\"/c/" ++ tag ++
    "/artifact\">artifact</a>)</li>"

/-- The list of components. -/
def index (p : Preview) : Page :=
  { body := "<!doctype html><html><head><title>loom</title></head><body><ul>" ++
      p.registry.tags.flatMap indexEntry ++ "</ul></body></html>" }

/-- A fresh component with attributes. -/
def render (s : Setting) (attrs : List (Text × Text)) : Attempt Text := do
  s.launch []
  attrs.forM fun a => s.setAttribute a.1 a.2
  return (← get).host.componentHtml

/-- The page of a component. -/
def component (p : Preview) (tag : Text) (attrs : List (Text × Text)) :
    Except Halt (Page × List LogEntry) :=
  match p.registry.get? tag with
  | none => .ok (failed (Registry.missing tag), [])
  | some d =>
    let s : Setting := ⟨d, p.tracing⟩
    match (render s attrs).run (s.start []) with
    | .error h => .error h
    | .ok (.error e, m) => .ok (failed e.message, m.logs)
    | .ok (.ok html, m) =>
      .ok ({ body := "<!doctype html><html><head><title>" ++ Html.escape tag ++
        "</title></head><body>" ++ html ++ "</body></html>" }, m.logs)

/-- Texts as an array. -/
def textArray (ts : List Text) : Json := .arr (ts.map .str)

/-- What was compiled, as a document.  A style or warnings stand there only if there are any. -/
def describe (a : Artifact) : Json :=
  let keys := a.definition.keys
  let css := a.definition.css
  let style : List (Text × Json) := if css.isEmpty then [] else [("css", .str css)]
  let warnings : List (Text × Json) :=
    if a.warnings.isEmpty then [] else [("warnings", textArray a.warnings)]
  let head : List (Text × Json) := [("tag", .str a.tag), ("hash", .str a.hash),
    ("keys", if keys.isEmpty then .null else textArray keys)]
  let code : List (Text × Json) := [("code", .str a.code)]
  .obj (head ++ style ++ warnings ++ code)

/-- The page of what was compiled. -/
def artifact (p : Preview) (tag : Text) : Page :=
  match p.artifacts.get? tag with
  | none => failed ("unknown component " ++ Text.quote tag)
  | some a => { body := (describe a).compact ++ "\n" }

/-- The page for a target, and what was logged, the last entry first. -/
def page (p : Preview) (target : Text) : Except Halt (Page × List LogEntry) :=
  let (path, query) := Target.cut 63 target
  match Text.splitOn "/" path with
  | [[], []] => .ok (p.index, [])
  | [[], c, tag] =>
    match if c = "c" && !tag.isEmpty then Target.unescape false tag else none with
    | some tag => p.component tag (Target.pairs query)
    | none => .ok (notFound, [])
  | [[], c, tag, last] =>
    match if c = "c" && !tag.isEmpty && last = "artifact" then Target.unescape false tag
      else none with
    | some tag => .ok (p.artifact tag, [])
    | none => .ok (notFound, [])
  | _ => .ok (notFound, [])

/-- Compile a component into a preview; what was logged stays if that fails. -/
def add (p : Preview) (o : Options) (source : Text) :
    Except CompileError Preview × List LogEntry :=
  let (r, bench) := (compile p.tracing { o with mode := Mode.register.text } source).run
    { registry := p.registry }
  match r with
  | .error e => (.error e, bench.logs)
  | .ok a => (.ok ⟨bench.registry, p.artifacts.insert a.tag a, p.tracing⟩, bench.logs)

end Preview

end Reactive
