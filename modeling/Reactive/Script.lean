/-
Scripts of components.

A script is a list of declarations: props (`export let`), variables, derived
values (`$: name = expr`) and methods (functions).  `Script.analyze` sorts
them into these four groups.  A name can also be exported from outside; if
the script does not declare it, it becomes a prop without a default.

No name is declared twice: `Script.declare` refuses a name that is there.
-/
import Reactive.Expr.Names
import Reactive.Expr.Parser

namespace Reactive

/-- A prop with its default. -/
structure PropDecl where
  name : Text
  default : Option Expr

/-- A variable. -/
structure Variable where
  name : Text
  kind : DeclKind
  init : Option Expr

/-- Whether a variable cannot be assigned. -/
def Variable.isConst (v : Variable) : Bool := v.kind = .const

/-- A method, with the names of the component that its body reads or writes. -/
structure Method where
  name : Text
  params : List Text
  body : List Stmt
  source : Text
  deps : List Text

/-- A derived value, with the names it is computed from. -/
structure Derived where
  name : Text
  expr : Expr
  deps : List Text

/-- A derived value that depends on the names its expression mentions. -/
def Derived.ofExpr (name : Text) (e : Expr) : Derived := ⟨name, e, e.freeNames⟩

/-- The declarations of a script, by group. -/
structure Script where
  props : List PropDecl := []
  vars : List Variable := []
  methods : List Method := []
  derived : List Derived := []

/-- Why a script was refused. -/
inductive ScriptCause where
  | unreadable (cause : SyntaxCause)
  | duplicate (name : Text)
  | constProp (name : Text)
  | unknownLabel (label : Text)
  | notAssignment
  | notDeclaration

/-- The wording of a cause. -/
def ScriptCause.message : ScriptCause → Text
  | .unreadable c => c.message
  | .duplicate n => "duplicate declaration of " ++ n
  | .constProp n => "prop " ++ n ++ " cannot be const"
  | .unknownLabel l => "unknown label " ++ l
  | .notAssignment => "reactive declarations must have the form $: name = expr"
  | .notDeclaration => "only declarations are allowed at the top level of a script"

/-- A refused script: the cause and the offset it was found at. -/
structure ScriptError where
  cause : ScriptCause
  offset : Nat

/-- The message of a failure with its place. -/
def ScriptError.message (e : ScriptError) : Text :=
  "script error at offset " ++ Text.ofNat e.offset ++ ": " ++ e.cause.message

namespace Script

/-- The declared names: props, derived values, variables, methods. -/
def names (s : Script) : List Text :=
  s.props.map (·.name) ++ s.derived.map (·.name) ++ s.vars.map (·.name) ++ s.methods.map (·.name)

/-- A prop at the end of the props. -/
def addProp (s : Script) (p : PropDecl) : Script := { s with props := s.props ++ [p] }

/-- The derived value that a labeled statement declares. -/
def derivedOf (pos : Nat) (label : Text) (body : Stmt) : Except ScriptError Derived :=
  if label ≠ "$" then .error ⟨.unknownLabel label, pos⟩
  else
    match body with
    | .expr _ (.assign _ .set (.ident _ name) value) => .ok (.ofExpr name value)
    | _ => .error ⟨.notAssignment, pos⟩

/-- Refuses a name that is declared already. -/
def checkNew (s : Script) (pos : Nat) (name : Text) : Except ScriptError Unit :=
  if s.names.contains name then .error ⟨.duplicate name, pos⟩ else .ok ()

/-- The script with one more declaration. -/
def declare (exported : List Text) (s : Script) (st : Stmt) : Except ScriptError Script :=
  match st with
  | .decl pos kind name init isExported => do
    s.checkNew pos name
    if isExported || exported.contains name then
      if kind = .const then .error ⟨.constProp name, pos⟩ else .ok (s.addProp ⟨name, init⟩)
    else .ok { s with vars := s.vars ++ [⟨name, kind, init⟩] }
  | .func pos name params body source _ => do
    s.checkNew pos name
    let deps := st.freeNames.filter (· ≠ name)
    .ok { s with methods := s.methods ++ [⟨name, params, body, source, deps⟩] }
  | .labeled pos label body => do
    let d ← derivedOf pos label body
    s.checkNew pos d.name
    .ok { s with derived := s.derived ++ [d] }
  | other => .error ⟨.notDeclaration, other.pos⟩

/-- An exported name that the script did not declare is a prop without a default. -/
def addExported (s : Script) (name : Text) : Script :=
  if s.names.contains name then s else s.addProp ⟨name, none⟩

/-- The declarations of a program. -/
def ofProgram (exported : List Text) (ss : List Stmt) : Except ScriptError Script := do
  return exported.foldl addExported (← ss.foldlM (declare exported) {})

/-- The declarations of a source. -/
def analyze (source : Text) (exported : List Text) : Except ScriptError Script :=
  match Stmt.parseProgram source with
  | .error e => .error ⟨.unreadable e.cause, e.offset⟩
  | .ok ss => ofProgram exported ss

end Script

end Reactive
