/-
Compilation: from the source of a component to its definition.

* `compile` — the stages in order; a failure stops it, and what was logged
  before stays;
* `Artifact.preimage` — what the hash of a compilation is taken of;
* `Artifact.code` — the whole component as code.
-/
import Reactive.Compile.Options
import Reactive.Compile.Warning
import Reactive.Component.Basic
import Reactive.Css.Sheet
import Reactive.Hash.Blake2b
import Reactive.Template.Parser
import Reactive.Template.Projection
import Reactive.View.Build

namespace Reactive

/-- Why a compilation failed. -/
inductive CompileError where
  | invalid (problems : List Problem)
  | template (source : Text) (e : Template.TemplateError)
  | view (source : Text) (e : View.BuildError)
  | script (tag : Text) (e : ScriptError)
  | derivedTaken (tag name : Text)
  | derivedUnreadable (tag name : Text) (e : SyntaxError)
  | markup (tag message : Text)
  | style (tag : Text) (e : Css.BuildError)
  | schedule (tag : Text) (e : ScheduleError)
  | tagTaken (tag : Text)

/-- The wording of a failure. -/
def CompileError.message : CompileError → Text
  | .invalid ps => Problem.summary ps
  | .template src e => e.message src
  | .view src e => e.message src
  | .script tag e => tag ++ ": " ++ e.message
  | .derivedTaken tag n => tag ++ ": derived value " ++ n ++ " is already declared"
  | .derivedUnreadable tag n e => tag ++ ": derived value " ++ n ++ ": " ++ e.message
  | .markup tag m => tag ++ ": projecting markup: " ++ m
  | .style tag e => tag ++ ": css: " ++ e.message
  | .schedule tag e => "component " ++ tag ++ ": " ++ e.message
  | .tagTaken tag => "tag " ++ Text.quote tag ++ " is already defined"

/-- Definitions by tag. -/
abbrev Registry := Dict Definition

/-- The tags of a registry, in byte order. -/
def Registry.tags (r : Registry) : List Text := Text.sorted r.keys

/-- The wording for a tag that nothing is registered under. -/
def Registry.missing (tag : Text) : Text := "no component registered as " ++ Text.quote tag

/-- What a compilation can change: the log, its last entry first, and the registry. -/
structure Bench where
  logs : List LogEntry := []
  registry : Registry := []

/-- A compilation; what it did before it failed stays. -/
abbrev Compile := ExceptT CompileError (StateM Bench)

/-- The outcome of a compilation. -/
structure Artifact where
  tag : Text
  mode : Mode
  definition : Definition
  hash : Text
  warnings : List Text := []

namespace Artifact

/-- The script, with derived values from outside. -/
def script (a : Artifact) : Script := a.definition.script

/-- A short form of the hash. -/
def id (a : Artifact) : Text := a.hash.take 12

/-- What divides the parts that a hash is taken of. -/
def divider : Text := [0]

/-- What the hash takes of a derived value from outside. -/
def derivedPart (d : DerivedOption) : Text := d.name ++ "=" ++ d.source ++ divider

/-- What the hash is taken of: tag, mode, props, derived values, then the source. -/
def preimage (mode : Mode) (o : Options) (source : Text) : Text :=
  o.tag ++ divider ++ mode.text ++ divider ++ Tracing.namesText o.props ++ divider ++
    o.derived.flatMap derivedPart ++ source

/-! ### Code -/

/-- A text with an ASCII letter in front of it in upper case. -/
def capitalize : Text → Text
  | [] => []
  | b :: r => Text.upper [b] ++ r

/-- The parts of a tag between hyphens, points and underscores, each capitalised. -/
def className (tag : Text) : Text :=
  let plain : Text := tag.map fun b => if b == 46 || b == 95 then 45 else b
  (Text.splitOn "-" plain).flatMap capitalize

/-- Quoted names in brackets. -/
def quoteList (names : List Text) : Text := "[" ++ Text.join ", " (names.map Text.quote) ++ "]"

/-- The source of an expression, or `undefined`. -/
def sourceText (e : Option Expr) : Text :=
  match e with
  | none => "undefined"
  | some e => e.text

/-- Entries between braces. -/
def braced (entries : List Text) : Text :=
  "\x7b" ++ Text.join "," (entries.map fun e => " " ++ e) ++ " \x7d"

/-- A key with its bit. -/
def keyEntry (bits : Bits) (key : Text) : Text := key ++ ": " ++ Tracing.maskText (bits.bit key)

/-- A prop with its default. -/
def propEntry (p : PropDecl) : Text := p.name ++ ": () => " ++ sourceText p.default

/-- A derived value with its names. -/
def derivedLine (d : Derived) : Text :=
  "    [" ++ Text.quote d.name ++ ", (s) => " ++ d.expr.text ++ ", " ++ quoteList d.deps ++ "],\n"

/-- A variable with its first value. -/
def varLine (v : Variable) : Text := "    s." ++ v.name ++ " = " ++ sourceText v.init ++ ";\n"

/-- The variables with their first values. -/
def initLines (vars : List Variable) : Text :=
  if vars.isEmpty then [] else "  init(s) \x7b\n" ++ vars.flatMap varLine ++ "  \x7d\n"

/-- A method. -/
def methodLine (m : Method) : Text :=
  "  " ++ m.name ++ "(" ++ Text.join ", " m.params ++ ") \x7b" ++ m.source ++ "\x7d\n"

/-- The line that hands the component over. -/
def lastLine (a : Artifact) : Text :=
  match a.mode with
  | .register => "customElements.define(" ++ Text.quote a.tag ++ ", " ++ className a.tag ++ ");\n"
  | .module => "export default " ++ className a.tag ++ ";\n"

/-- The component as code. -/
def code (a : Artifact) : Text :=
  let d := a.definition
  let s := d.script
  "// <" ++ a.tag ++ "> compiled by loom (" ++ a.mode.text ++ ") " ++ a.id ++ "\n\n" ++
  "const css = " ++ Text.quote d.css ++ ";\n\n" ++
  Block.listing d.bits d.view ++ "\n" ++
  "class " ++ className a.tag ++ " extends LoomElement \x7b\n" ++
  "  static keys = " ++ braced (d.keys.map (keyEntry d.bits)) ++ ";\n" ++
  "  static props = " ++ braced (s.props.map propEntry) ++ ";\n" ++
  "  static derived = [\n" ++
  (d.schedule.order.flatMap fun n =>
    (s.derived.filter fun x => x.name = n).flatMap derivedLine) ++
  "  ];\n" ++
  initLines s.vars ++
  s.methods.flatMap methodLine ++
  "  create(ctx, state) \x7b return create_root(ctx, state); \x7d\n" ++
  "  static css = css;\n\x7d\n\n" ++
  lastLine a

end Artifact

namespace Compile

/-- Write to the log. -/
def log (voice : Voice) (t : Text) : Compile Unit :=
  modify fun b => { b with logs := .line voice t :: b.logs }

/-- Write a trace line for a finished stage. -/
def phase (tr : Tracing) (tag name detail : Text) : Compile Unit :=
  if tr.covers tag then log .trace (Tracing.line tag (Tracing.phase name detail)) else pure ()

/-- An outcome as a step, its failure put into words by `wrap`. -/
def stage {ε α : Type} (wrap : ε → CompileError) (x : Except ε α) : Compile α :=
  match x with
  | .ok a => pure a
  | .error e => throw (wrap e)

/-- A count with what is counted. -/
def counted (n : Nat) (what : Text) : Text := Text.ofNat n ++ " " ++ what

/-- The script with derived values from outside. -/
def mergeDerived (tag : Text) (s : Script) : List DerivedOption → Except CompileError Script
  | [] => .ok s
  | d :: r =>
    if s.names.contains d.name then .error (.derivedTaken tag d.name)
    else
      match Expr.parse d.source with
      | .error e => .error (.derivedUnreadable tag d.name e)
      | .ok e => mergeDerived tag { s with derived := s.derived ++ [.ofExpr d.name e] } r

/-- The style of a component. -/
def buildStyle (builder : StyleBuilder) (i : Css.Input) : Except Css.BuildError Text :=
  match builder with
  | .purge keep => i.build keep false
  | .failing m => .error (.other m)

/-- A definition from its parts; a cycle of derived values is logged unless it is refused. -/
def define (o : Options) (script : Script) (view : List View.Node) (css : Text) :
    Compile Definition := do
  let schedule ← stage (.schedule o.tag) (Schedule.build script.derived o.strictCycles)
  unless schedule.cycle.isEmpty do
    log .component (o.tag ++ ": warning: derived values " ++ Tracing.namesText schedule.cycle ++
      " depend on each other and may be stale")
  return { tag := o.tag, script, view, bits := Bits.ofNames script.keys, schedule, css }

/-- The tree of a template, with trace lines. -/
def readTemplate (tr : Tracing) (tag source : Text) : Compile (List Template.Node) := do
  let ts ← stage (fun e => .template source (.lex e)) (Template.Token.ofSource source)
  phase tr tag "tokenize" (counted ts.length "tokens")
  let body := ts.filter fun t => t.kind != .eof
  let ns ← stage (fun e => .template source (.parse e))
    (Template.Node.ofTokens (Template.Token.eof source) body)
  phase tr tag "parse" (counted ns.length "nodes")
  return ns

/-- The script of a component, with derived values from outside and trace lines. -/
def readScript (tr : Tracing) (o : Options) (source : Text) : Compile Script := do
  let s ← stage (.script o.tag) (Script.analyze source o.props)
  let s ← stage (fun e => e) (mergeDerived o.tag s o.derived)
  phase tr o.tag "script" (counted s.props.length "props, " ++ counted s.vars.length "vars, " ++
    counted s.methods.length "methods, " ++ counted s.derived.length "derived")
  return s

end Compile

/-- Compile the source of a component. -/
def compile (tr : Tracing) (o : Options) (source : Text) : Compile Artifact := do
  let mode ← match o.problems, Mode.ofText? o.mode with
    | [], some m => pure m
    | ps, _ => throw (.invalid ps)
  let ns ← Compile.readTemplate tr o.tag source
  let view ← Compile.stage (.view source) (View.build ns)
  Compile.phase tr o.tag "ir" (Compile.counted view.hints.length "hints")
  let script ← Compile.readScript tr o view.script
  Compile.phase tr o.tag "codegen" (Compile.counted script.keys.length "keys, " ++
    Compile.counted (Block.factories view.nodes).length "factories")
  let html ← Compile.stage (.markup o.tag) (Template.projection ns)
  let input : Css.Input := ⟨html, view.safelist, view.hints, view.style⟩
  let css ← Compile.stage (.style o.tag) (Compile.buildStyle o.style input)
  Compile.phase tr o.tag "css" (Compile.counted css.length "bytes")
  let definition ← Compile.define o script view.nodes css
  let warnings := if o.dev then Warning.all view.nodes script script.keys else []
  let hash := Text.toHex (Blake2b.digest (Artifact.preimage mode o source))
  let a : Artifact := { tag := o.tag, mode, definition, hash, warnings }
  for w in warnings do
    Compile.log .component (o.tag ++ ": warning: " ++ w)
  if o.debug then
    Compile.log .component (o.tag ++ ": generated program\n" ++ Block.listing definition.bits view.nodes)
  if mode = .register then
    if (← get).registry.has o.tag then throw (.tagTaken o.tag)
    modify fun b => { b with registry := b.registry.insert o.tag definition }
  Compile.phase tr o.tag "done" a.id
  return a

end Reactive
