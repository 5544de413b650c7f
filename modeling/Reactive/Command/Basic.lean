/-
The commands.

Each command reads its flags and does its work through a shell, so the same
commands run on a desk and on a disk.  `build` compiles components to files,
`test` runs suites, `play` and `serve` set up what goes on until it is
stopped.

* `Command.run` — a whole command line;
* `Ending` — the exit code, or what goes on.
-/
import Reactive.Command.Flags
import Reactive.Play
import Reactive.Preview
import Reactive.Project
import Reactive.Suite.Report

namespace Reactive

/-- How a command ends. -/
inductive Ending where
  | exit (code : Nat)
  /-- Commands drive a mounted component. -/
  | play (s : Setting) (m : Machine World)
  /-- Pages are served at an address. -/
  | serve (p : Preview) (addr : Text)
  /-- A program stopped without an answer. -/
  | halt (h : Halt)

namespace Command

/-- The text for `help`. -/
def usage : Text := "Usage:
  loom build <input> --tag <tag> [--out <file>] [--mode wc|liquid]   Compile one component
  loom build --config loom.yaml                                      Compile every component in a project
  loom play <input> [--tag <tag>] [--props a,b]                      Mount a component and drive it interactively
  loom serve [--config loom.yaml | <input> --tag <tag>] [--addr]     Serve rendered previews over HTTP
  loom test [dir]                                                    Run YAML conformance suites

Every command accepts --trace and --trace-filter 'x-*,y-*'.
"

/-- The flags that every command knows. -/
def commonFlags : List Flag :=
  [.value "config" [] "Project file (e.g. loom.yaml)", .switch "dev" "Report dev warnings",
    .switch "debug" "Log the generated program",
    .switch "strict-cycles" "Reject derived dependency cycles",
    .switch "keep-css" "Embed <style> without purging unused rules",
    .switch "trace" "Enable compile and runtime tracing",
    .value "trace-filter" [] "Trace filter pattern (glob over tags, e.g. 'x-*')"]

/-- The flags of `build`. -/
def buildFlags : List Flag :=
  commonFlags ++ [.value "out" [] "Output file (default: input with .js)",
    .value "tag" [] "Custom element tag, e.g. x-counter",
    .value "mode" "wc" "Output mode: wc or liquid",
    .value "emit-liquid" [] "Also write a Liquid section to this file",
    .value "section-name" [] "Liquid section name"]

/-- The flags of `test`. -/
def testFlags : List Flag := commonFlags ++ [.switch "v" "List every case"]

/-- The flags of `play`. -/
def playFlags : List Flag :=
  commonFlags ++ [.value "tag" "x-play" "Custom element tag",
    .value "props" [] "Comma-separated prop names"]

/-- The flags of `serve`. -/
def serveFlags : List Flag :=
  commonFlags ++ [.value "tag" [] "Custom element tag when serving a single file",
    .value "addr" [] "Listen address (default from project, else localhost:8080)"]

/-- The tracing that flags ask for, or else the project. -/
def tracingOf (f : Flags) (p : Option Project) : Tracing :=
  let own := f.get "trace-filter"
  let filters := if own.isEmpty then none else some (Text.splitOn "," own)
  match p with
  | some p =>
    if p.trace.enabled then ⟨true, filters.getD p.trace.filters⟩
    else ⟨f.isOn "trace", filters.getD []⟩
  | none => ⟨f.isOn "trace", filters.getD []⟩

/-- Options with what flags add to them. -/
def optionsOf (f : Flags) (p : Option Project) (o : Options) : Options :=
  { o with
    dev := o.dev || f.isOn "dev"
    debug := o.debug || f.isOn "debug"
    strictCycles := o.strictCycles || f.isOn "strict-cycles"
    style := .purge (f.isOn "keep-css" || p.any (·.keepCss)) }

/-- Why a command could not go on. -/
inductive Trouble where
  | file (e : FileError)
  | compile (input : Text) (e : CompileError)
  | component (e : ComponentError)
  | project (path : Text) (e : ProjectError)
  | halt (h : Halt)

/-- The wording of a failure. -/
def Trouble.message : Trouble → Text
  | .file e => e.message
  | .compile input e => input ++ ": " ++ e.message
  | .component e => e.message
  | .project path e => path ++ ": " ++ e.message
  | .halt _ => "stopped"

variable {m : Type → Type} [Monad m]

/-- A step of a command that may fail. -/
abbrev Task (m : Type → Type) := ExceptT Trouble m

/-- End with what is wrong; `tell` says it. -/
def Trouble.ending (tell : Text → m Unit) (e : Trouble) : m Ending := do
  match e with
  | .halt h => return .halt h
  | e =>
    tell e.message
    return .exit 1

/-- Begin tracing; filters are told. -/
def announce (sh : Shell m) (tr : Tracing) : m Unit :=
  if tr.enabled && !tr.filters.isEmpty then
    sh.log ("Tracing enabled with filters: " ++ Tracing.namesText tr.filters)
  else pure ()

/-- The text of a file. -/
def readFile (sh : Shell m) (path : Text) : Task m Text := do
  match ← ExceptT.lift (sh.read path) with
  | .error e => throw (.file e)
  | .ok t => return t

/-- A failed compilation as a failure of the command. -/
def compileTrouble (input : Text) : CompileError → Trouble
  | .template _ (.lex .overrun) => .halt .outOfRange
  | e => .compile input e

/-- Compile a file. -/
def compileFile (sh : Shell m) (tr : Tracing) (registry : Registry) (o : Options) (input : Text) :
    Task m (Artifact × Registry) := do
  let source ← readFile sh input
  let (r, bench) := (compile tr o source).run { registry }
  ExceptT.lift (sh.relay bench.logs)
  match r with
  | .error e => throw (compileTrouble input e)
  | .ok a => return (a, bench.registry)

/-- The project in a file; its paths are seen from there. -/
def loadProject (sh : Shell m) (path : Text) : Task m Project := do
  match Project.parse (← readFile sh path) with
  | .error e => throw (.project path e)
  | .ok p => return { p with dir := Path.dir path }

/-! ### Building -/

/-- Compile a file to another. -/
def buildOne (sh : Shell m) (tr : Tracing) (registry : Registry) (o : Options)
    (input dest : Text) : Task m Registry := do
  let (a, registry) ← compileFile sh tr registry o input
  match ← ExceptT.lift (sh.write dest a.code) with
  | .error e => throw (.file e)
  | .ok _ =>
    ExceptT.lift (sh.log (input ++ " -> " ++ dest ++ " (<" ++ a.tag ++ ">, " ++
      Text.ofNat a.definition.keys.length ++ " keys, " ++ a.id ++ ")"))
    return registry

/-- Build the components of a project; one that fails does not keep the others from it. -/
def buildAll (sh : Shell m) (tr : Tracing) (f : Flags) (p : Project) (registry : Registry)
    (code : Nat) : List ProjectEntry → m Ending
  | [] => return .exit code
  | e :: r => do
    let o := optionsOf f (some p) (p.options e)
    match ← (buildOne sh tr registry o (p.pathOf e.input) (p.outPath e)).run with
    | .ok registry => buildAll sh tr f p registry code r
    | .error (.halt h) => return .halt h
    | .error x =>
      sh.log x.message
      buildAll sh tr f p registry 1 r

/-- The command `build`, once its mode is known to be the one there is. -/
def buildWith (sh : Shell m) (f : Flags) (input : Text) : m Ending := do
  unless (f.get "section-name").isEmpty do
    sh.log "--section-name only applies to liquid output; ignored"
  if !(f.get "config").isEmpty then
    match ← (loadProject sh (f.get "config")).run with
    | .error x => x.ending sh.log
    | .ok p =>
      let tr := tracingOf f (some p)
      announce sh tr
      buildAll sh tr f p [] 0 p.components
  else
    let tr := tracingOf f none
    announce sh tr
    if input.isEmpty || (f.get "tag").isEmpty then
      sh.print "usage: loom build <input> --tag <tag> [--out <file>]\n"
      return .exit 2
    let dest := if (f.get "out").isEmpty then Path.withExtension input ".js" else f.get "out"
    let o := optionsOf f none { tag := f.get "tag", mode := Mode.register.text }
    match ← (buildOne sh tr [] o input dest).run with
    | .ok _ => return .exit 0
    | .error x => x.ending sh.log

/-- The command `build`. -/
def build (sh : Shell m) (f : Flags) (input : Text) : m Ending := do
  if f.get "mode" = "liquid" || !(f.get "emit-liquid").isEmpty then
    sh.log "liquid output is not supported; use --mode wc"
    return .exit 2
  else if f.get "mode" = "wc" then buildWith sh f input
  else
    sh.log ("unknown mode " ++ Text.quote (f.get "mode"))
    return .exit 2

/-! ### Testing -/

/-- The line on a case; one that did not fail has one only if every case is listed. -/
def reportLine (verbose : Bool) (r : Report) : Text :=
  let name := r.loaded.file ++ "/" ++ r.loaded.case.name
  match r.verdict with
  | .skipped reason => if verbose then "SKIP " ++ name ++ ": " ++ reason ++ "\n" else []
  | .passed => if verbose then "ok   " ++ name ++ "\n" else []
  | .failed f => "FAIL " ++ name ++ ": " ++ f.message ++ "\n"

/-- What is passed on of the log of a case; what its component says stays with the case. -/
def caseLog (r : Report) : List LogEntry := r.logs.filter fun e => e.voice ≠ .component

/-- The command `test`. -/
def test (sh : Shell m) (f : Flags) (input : Text) : m Ending := do
  let dir : Text := if input.isEmpty then "." else input
  let tr := tracingOf f none
  announce sh tr
  match ← (Suite.load sh dir).run with
  | .error e =>
    sh.log e.message
    return .exit 1
  | .ok [] =>
    sh.log ("no suites under " ++ dir)
    return .exit 1
  | .ok cs =>
    match Report.all tr cs with
    | .error h => return .halt h
    | .ok rs =>
      rs.forM fun r => sh.relay (caseLog r)
      sh.print (rs.flatMap (reportLine (f.isOn "v")))
      sh.print (Report.summary rs ++ "\n")
      return .exit (if rs.any Report.isFailed then 1 else 0)

/-! ### Playing -/

/-- A component of an artifact, mounted. -/
def mountedOf (sh : Shell m) (s : Setting) : Task m (Machine World) := do
  match (s.launch []).run (s.start []) with
  | .error h => throw (.halt h)
  | .ok (r, w) =>
    ExceptT.lift (sh.relay w.logs)
    match r with
    | .error e => throw (.component e)
    | .ok _ => return { w with logs := [] }

/-- The command `play`. -/
def play (sh : Shell m) (f : Flags) (input : Text) : m Ending := do
  if input.isEmpty then
    sh.print "usage: loom play <input> [--tag <tag>] [--props a,b]\n"
    return .exit 2
  let tr := tracingOf f none
  announce sh tr
  let props := if (f.get "props").isEmpty then [] else Text.splitOn "," (f.get "props")
  let o := optionsOf f none { tag := f.get "tag", mode := Mode.module.text, props }
  let task : Task m Ending := do
    let (a, _) ← compileFile sh tr [] o input
    let s : Setting := ⟨a.definition, tr⟩
    let w ← mountedOf sh s
    ExceptT.lift (sh.print ("<" ++ a.tag ++ "> mounted; keys " ++
      Tracing.namesText a.definition.keys ++ ". Type :help for commands.\n" ++
      w.host.componentHtml ++ "\n"))
    return .play s w
  match ← task.run with
  | .ok e => return e
  | .error x => x.ending fun t => sh.print (t ++ "\n")

/-! ### Serving -/

/-- Add a file to a preview. -/
def addFile (sh : Shell m) (p : Preview) (o : Options) (input : Text) :
    Task m Preview := do
  let source ← readFile sh input
  let (r, logs) := p.add o source
  ExceptT.lift (sh.relay logs)
  match r with
  | .error e => throw (compileTrouble input e)
  | .ok p => return p

/-- Add the components of a project to a preview. -/
def addAll (sh : Shell m) (f : Flags) (project : Project) (p : Preview) :
    List ProjectEntry → Task m Preview
  | [] => return p
  | e :: r => do
    let o := optionsOf f (some project) (project.options e)
    addAll sh f project (← addFile sh p o (project.pathOf e.input)) r

/-- The command `serve`. -/
def serve (sh : Shell m) (f : Flags) (input : Text) : m Ending := do
  let listen (p : Preview) (addr : Text) : m Ending := do
    let addr := if (f.get "addr").isEmpty then addr else f.get "addr"
    sh.log ("Serving " ++ Text.join ", " p.registry.tags ++ " on http://" ++ addr)
    return .serve p addr
  if !(f.get "config").isEmpty then
    let task : Task m (Preview × Text) := do
      let project ← loadProject sh (f.get "config")
      let tr := tracingOf f (some project)
      ExceptT.lift (announce sh tr)
      return (← addAll sh f project { tracing := tr } project.components, project.addr)
    match ← task.run with
    | .ok (p, addr) => listen p addr
    | .error x => x.ending sh.log
  else if !input.isEmpty && !(f.get "tag").isEmpty then
    let tr := tracingOf f none
    announce sh tr
    match ← (addFile sh { tracing := tr } (optionsOf f none { tag := f.get "tag" }) input).run with
    | .ok p => listen p Project.defaultAddr
    | .error x => x.ending sh.log
  else
    sh.print
      "usage: loom serve [--config loom.yaml | <input> --tag <tag>] [--addr host:port]\n"
    return .exit 2

/-! ### The command line -/

/-- Read the flags of a command, then run it. -/
def withFlags (sh : Shell m) (name : Text) (known : List Flag) (args : List Text)
    (act : Shell m → Flags → Text → m Ending) : m Ending := do
  match Flags.readInput known args with
  | .ok (f, input) => act sh f input
  | .error e =>
    sh.print (e.message ++ Flags.usage name known)
    return .exit 2

/-- Run a command line. -/
def run (sh : Shell m) : List Text → m Ending
  | [] => do
    sh.print usage
    return .exit 2
  | name :: args =>
    if name = "build" then withFlags sh name buildFlags args build
    else if name = "test" then withFlags sh name testFlags args test
    else if name = "play" then withFlags sh name playFlags args play
    else if name = "serve" then withFlags sh name serveFlags args serve
    else if name = "help" || name = "-h" || name = "--help" then do
      sh.print usage
      return .exit 0
    else do
      sh.print (logName ++ "unknown command " ++ Text.quote name ++ "\n" ++ usage)
      return .exit 2

end Command

end Reactive
