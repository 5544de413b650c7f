/-
Suites of cases.

A case compiles a template, mounts it, and says what has to be seen then and
after each of some steps.  Suites are documents; `Suite.ofText` reads one.
-/
import Reactive.Compile.Options
import Reactive.Form
import Reactive.Path
import Reactive.Project

namespace Reactive

/-- What has to be seen. -/
structure Expectation where
  /-- The markup inside the host. -/
  html : Option Text := none
  /-- The text inside the host. -/
  text : Option Text := none
  /-- Parts of the markup. -/
  parts : List Text := []
  /-- Values of keys. -/
  state : Dict Plain := []
  /-- The name of an error, or a part of its message. -/
  error : Text := []
  /-- Parts of warnings. -/
  warnings : List Text := []
  /-- Parts of the log. -/
  logs : List Text := []

/-- An event to send. -/
structure EventStep where
  type : Text := []
  target : Text := []
  index : Int := 0
  detail : Plain := .null

/-- One thing to do with a component, and what has to be seen then. -/
structure CaseStep where
  /-- Keys to write, in one batch. -/
  set : Option (Dict Plain) := none
  /-- Attributes to set on the host. -/
  attr : Option (Dict Text) := none
  /-- A method to call. -/
  call : Text := []
  args : List Plain := []
  event : Option EventStep := none
  expect : Expectation := {}

/-- The tag that every case is compiled under. -/
def caseTag : Text := "x-case"

/-- The options of a case before the suite sets any. -/
def caseOptions : Options := { tag := caseTag, mode := "module" }

/-- A case of a suite. -/
structure Case where
  name : Text := []
  /-- Why the case is left out. -/
  skip : Option Text := none
  template : Text := []
  options : Options := caseOptions
  props : Dict Plain := []
  expect : Expectation := {}
  steps : List CaseStep := []

/-- A suite. -/
structure Suite where
  name : Text := []
  cases : List Case := []

/-- Whether nothing has to be seen. -/
def Expectation.isEmpty (e : Expectation) : Bool :=
  e.html.isNone && e.text.isNone && e.parts.isEmpty && e.state.isEmpty && e.error.isEmpty &&
    e.warnings.isEmpty && e.logs.isEmpty

/-! ### Documents -/

/-- Values by name. -/
def Form.plains : Form (Dict Plain) := .dict .plain .null

/-- An expectation in a suite. -/
def Expectation.form : Form Expectation :=
  .record "conformance.Expectation" {} [
    .of "html" (.opt .text) fun t e => { e with html := t },
    .of "text" (.opt .text) fun t e => { e with text := t },
    .of "contains" (.list .text) fun ts e => { e with parts := ts },
    .of "state" .plains fun d e => { e with state := d },
    .of "error" .text fun t e => { e with error := t },
    .of "warnings" (.list .text) fun ts e => { e with warnings := ts },
    .of "logs" (.list .text) fun ts e => { e with logs := ts }]

/-- An event in a suite. -/
def EventStep.form : Form EventStep :=
  .record "conformance.EventStep" {} [
    .of "type" .text fun t e => { e with type := t },
    .of "target" .text fun t e => { e with target := t },
    .of "index" .int fun i e => { e with index := i },
    .of "detail" .plain fun p e => { e with detail := p }]

/-- A step in a suite. -/
def CaseStep.form : Form CaseStep :=
  .record "conformance.Step" {} [
    .of "set" (.opt .plains) fun d s => { s with set := d },
    .of "attr" (.opt (.dict .text [])) fun d s => { s with attr := d },
    .of "call" .text fun t s => { s with call := t },
    .of "args" (.list .plain) fun ps s => { s with args := ps },
    .of "event" (.opt EventStep.form) fun e s => { s with event := e },
    .of "expect" Expectation.form fun e s => { s with expect := e }]

/-- The options in a suite. -/
def Case.optionsForm : Form Options :=
  .record "conformance.CaseOptions" caseOptions [
    .of "props" (.list .text) fun ts o => { o with props := ts },
    .of "derived" (.list DerivedOption.form) fun ds o => { o with derived := ds },
    .of "dev" .bool fun b o => { o with dev := b },
    .of "strict_cycles" .bool fun b o => { o with strictCycles := b }]

/-- Why a case is left out: true gives no reason, a text is the reason, anything else is none. -/
def Case.skipReason (p : Plain) : Option Text :=
  match p with
  | .bool true => some "skipped"
  | .str reason => some reason
  | _ => none

/-- A case in a suite. -/
def Case.form : Form Case :=
  .record "conformance.TestCase" {} [
    .of "name" .text fun t c => { c with name := t },
    .ignored "description" .text,
    .of "skip" .plain fun p c => { c with skip := skipReason p },
    .of "template" .text fun t c => { c with template := t },
    .of "options" optionsForm fun o c => { c with options := o },
    .of "props" .plains fun d c => { c with props := d },
    .of "expect" Expectation.form fun e c => { c with expect := e },
    .of "steps" (.list CaseStep.form) fun ss c => { c with steps := ss }]

namespace Suite

/-- A suite. -/
def form : Form Suite :=
  .record "conformance.TestSuite" {} [
    .of "name" .text fun t s => { s with name := t },
    .ignored "description" .text,
    .of "tests" (.list Case.form) fun cs s => { s with cases := cs }]

/-- What ends the name of a file that holds a suite. -/
def extension : Text := ".yaml"

/-- The suite in the text of a file, named after the file if it has no name. -/
def ofText (path t : Text) : Except DocumentError Suite :=
  match form.readText {} t with
  | .error e => .error e
  | .ok s =>
    let name := if s.name.isEmpty then Text.trimSuffix (Path.base path) extension else s.name
    .ok { s with name }

end Suite

end Reactive
