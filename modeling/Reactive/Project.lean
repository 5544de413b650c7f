/-
Project files.

A project file lists components with the options they are compiled with.  It may
name a network address: a host, a colon and the number of an endpoint.

* `Project.parse` — a project from the text of its file;
* `Project.problems` — everything that is wrong with it, in order;
* `Project.pathOf`, `Project.outPath` — where its files are.
-/
import Reactive.Compile.Options
import Reactive.Form
import Reactive.Number.Numeral
import Reactive.Path
import Reactive.Trace

namespace Reactive

/-! ### Addresses

The host may be missing, and may stand in brackets.  A host name has labels of up to sixty-three
letters, digits and hyphens, with points between them. -/

namespace Address

/-- The host and the endpoint of an address. -/
def split? (a : Text) : Option (Text × Text) := do
  let i ← Text.lastIndexOf? ":" a
  let endpoint := a.drop (i + 1)
  if Text.startsWith a "[" then
    let close ← Text.indexOfByte? 93 a
    if close + 1 ≠ i then none
    else if (a.drop 1).contains 91 || (a.drop (close + 1)).contains 93 then none
    else some (Text.slice a 1 close, endpoint)
  else
    let host := a.take i
    if host.contains 58 || a.contains 91 || a.contains 93 then none else some (host, endpoint)

/-- A letter or a digit. -/
def isNameByte (b : UInt8) : Bool := Text.isAsciiLetter b || Text.isDigit b

/-- A label of a host name. -/
def isLabel (t : Text) : Bool :=
  match t with
  | [] => false
  | b :: r => isNameByte b && r.length ≤ 62 && r.all fun c => isNameByte c || c == 45

/-- The name of a host. -/
def isHostName (t : Text) : Bool := (Text.splitOn "." t).all isLabel

/-- The number of an endpoint, from 1 to 65535. -/
def isEndpoint (t : Text) : Bool :=
  match Numeral.readInt? 10 t with
  | none => false
  | some n => 1 ≤ n && n ≤ 65535

/-- Whether a text is an address. -/
def isValid (a : Text) : Bool :=
  match split? a with
  | none => false
  | some (host, endpoint) => isEndpoint endpoint && (host.isEmpty || isHostName host)

end Address

/-! ### Projects -/

/-- A component of a project. -/
structure ProjectEntry where
  input : Text := []
  tag : Text := []
  out : Text := []
  mode : Text := []
  props : List Text := []
  derived : List DerivedOption := []

/-- A project. -/
structure Project where
  dev : Bool := false
  debug : Bool := false
  strictCycles : Bool := false
  keepCss : Bool := false
  trace : Tracing := {}
  addr : Text := []
  /-- The components; none at all is not the same as an empty list. -/
  entries : Option (List ProjectEntry) := none
  /-- The directory that paths are seen from. -/
  dir : Text := []

/-- A derived value in a document. -/
def DerivedOption.form : Form DerivedOption :=
  .record "compiler.DerivedOption" ⟨[], []⟩ [
    .of "name" .text fun t d => { d with name := t },
    .of "expr" .text fun t d => { d with source := t }]

/-- The word for a mode in a document. -/
def Mode.form : Form Text where
  type := "compiler.Mode"
  read
    | .arr js => Form.refuse "compiler.Mode" (.arr js)
    | .obj ms => Form.refuse "compiler.Mode" (.obj ms)
    | j => Form.text.read j

namespace ProjectEntry

/-- A component in a project file. -/
def form : Form ProjectEntry :=
  .record "config.Component" {} [
    .of "input" .text fun t e => { e with input := t },
    .of "tag" .text fun t e => { e with tag := t },
    .of "out" .text fun t e => { e with out := t },
    .of "mode" Mode.form fun t e => { e with mode := t },
    .of "props" (.list .text) fun ts e => { e with props := ts },
    .of "derived" (.list DerivedOption.form) fun ds e => { e with derived := ds }]

/-- What is wrong with a component. -/
def problems (path : Text) (e : ProjectEntry) : List Problem :=
  Problem.ofRequired (path ++ ".Input") e.input ++ Problem.ofElement (path ++ ".Tag") e.tag ++
    Problem.ofMode (path ++ ".Mode") e.mode ++
    Problem.ofIdentifiers (path ++ ".Props") e.props ++
    DerivedOption.problems (path ++ ".Derived") e.derived

end ProjectEntry

/-- Why a text is no project. -/
inductive ProjectError where
  | document (e : DocumentError)
  | invalid (problems : List Problem)
  | repeatedTag (tag : Text)

/-- The wording of a failure. -/
def ProjectError.message : ProjectError → Text
  | .document e => e.message "empty project file"
  | .invalid ps => Problem.summary ps
  | .repeatedTag tag => "tag " ++ tag ++ " is listed twice"

namespace Project

/-- The trace section. -/
def traceForm : Form Tracing :=
  .record "config.Trace" {} [
    .of "enabled" .bool fun b t => { t with enabled := b },
    .of "filters" (.list .text) fun ts t => { t with filters := ts }]

/-- The section on styles. -/
def cssForm : Form Bool := .record "config.CSS" false [.of "keep" .bool fun b _ => b]

/-- The section on the preview server. -/
def serveForm : Form Text := .record "config.Serve" [] [.of "addr" .text fun t _ => t]

/-- A project file. -/
def form : Form Project :=
  .record "config.Project" {} [
    .of "dev" .bool fun b p => { p with dev := b },
    .of "debug" .bool fun b p => { p with debug := b },
    .of "strict_cycles" .bool fun b p => { p with strictCycles := b },
    .of "css" cssForm fun b p => { p with keepCss := b },
    .of "trace" traceForm fun t p => { p with trace := t },
    .of "serve" serveForm fun t p => { p with addr := t },
    .of "components" (.opt (.list ProjectEntry.form)) fun es p => { p with entries := es }]

/-- The components. -/
def components (p : Project) : List ProjectEntry := p.entries.getD []

/-- What is wrong with a project. -/
def problems (p : Project) : List Problem :=
  (if p.addr.isEmpty || Address.isValid p.addr then []
    else [.broken "Project.Serve.Addr" "hostname_port"]) ++
  match p.entries with
  | none => [.missing "Project.Components"]
  | some [] => [.broken "Project.Components" "min"]
  | some es => (es.mapIdx fun i e => e.problems (Problem.item "Project.Components" i)).flatten

/-- The first tag that was there before. -/
def repeatedTag? (seen : List Text) : List ProjectEntry → Option Text
  | [] => none
  | e :: r => if seen.contains e.tag then some e.tag else repeatedTag? (e.tag :: seen) r

/-- The address that is served if a project does not say. -/
def defaultAddr : Text := "localhost:8080"

/-- The project in the text of a file. -/
def parse (t : Text) : Except ProjectError Project :=
  match form.readText {} t with
  | .error e => .error (.document e)
  | .ok p =>
    match p.problems, repeatedTag? [] p.components with
    | [], none => .ok { p with addr := if p.addr.isEmpty then defaultAddr else p.addr }
    | [], some tag => .error (.repeatedTag tag)
    | ps, _ => .error (.invalid ps)

/-- A path of the project as it is seen from outside. -/
def pathOf (p : Project) (rel : Text) : Text :=
  if rel.isEmpty || Path.isAbsolute rel || p.dir.isEmpty then rel else Path.join p.dir rel

/-- Where a component is written to. -/
def outPath (p : Project) (e : ProjectEntry) : Text :=
  if e.out.isEmpty then Path.withExtension (p.pathOf e.input) ".js" else p.pathOf e.out

/-- The options that a component is compiled with. -/
def options (p : Project) (e : ProjectEntry) : Options :=
  { tag := e.tag
    mode := e.mode
    props := e.props
    derived := e.derived
    dev := p.dev
    debug := p.debug
    strictCycles := p.strictCycles }

end Project

end Reactive
