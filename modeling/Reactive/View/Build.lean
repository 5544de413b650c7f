/-
From templates to views.

Scripts, styles and comments leave the tree: scripts and styles are
collected, and a comment that starts with `tw:safelist` lists class names to
keep.  Texts that become neighbours are joined, and a text that is blank and
holds a line break is dropped.

`View.build` runs over the tree once; nodes are numbered in the order in
which it meets them.
-/
import Reactive.Expr.Parser
import Reactive.Template.Lexer
import Reactive.Template.Syntax
import Reactive.View.Basic

namespace Reactive

namespace View

/-- Why a template has no view. -/
inductive BuildCause where
  | unreadable (e : SyntaxError)
  | badToggle (token : Text)

/-- The wording of a cause. -/
def BuildCause.message : BuildCause → Text
  | .unreadable e => e.message
  | .badToggle t => "class:" ++ t ++ " needs a value, the class name is not an identifier"

/-- A refused template: the cause and the offset it was found at. -/
structure BuildError where
  cause : BuildCause
  offset : Nat

/-- The message of a failure with its place. -/
def BuildError.message (src : Text) (e : BuildError) : Text :=
  "ir error at " ++ (Position.ofOffset src e.offset).text ++ ": " ++ e.cause.message

/-- What has been collected so far. -/
structure Collected where
  /-- The last number given to a node. -/
  last : Nat := 0
  scripts : List Text := []
  styles : List Text := []
  safelist : List Text := []

/-- A step of building a view. -/
abbrev Build := StateT Collected (Except BuildError)

/-- The next number of a node. -/
def fresh : Build Nat := do
  let c ← get
  set { c with last := c.last + 1 }
  return c.last + 1

/-- A failure. -/
def refuse {α : Type} (cause : BuildCause) (offset : Nat) : Build α := throw ⟨cause, offset⟩

/-- A parsed expression. -/
def readExpr (offset : Nat) (source : Text) : Build Expr :=
  match Expr.parse source with
  | .ok e => return e
  | .error e => refuse (.unreadable e) offset

/-- An expression with the names it mentions; names in `skip` are bound where it is run. -/
def Binding.ofExpr (locals : List Text) (source : Text) (e : Expr) (skip : List Text) : Binding :=
  let names := e.freeNames.filter fun n => !skip.contains n
  ⟨source, e, names.filter fun n => !locals.contains n, names.filter fun n => locals.contains n⟩

/-- The binding of a source. -/
def bind (locals : List Text) (offset : Nat) (source : Text) : Build Binding := do
  return .ofExpr locals source (← readExpr offset source) []

/-- The words of a text between blanks and commas. -/
def listed (word : Text) : Text → List Text
  | [] => if word.isEmpty then [] else [word.reverse]
  | b :: t =>
    if b == ',' || b == ' ' || b == '\t' || b == '\n' || b == '\r' then
      if word.isEmpty then listed [] t else word.reverse :: listed [] t
    else listed (b :: word) t

/-- The class names that a comment lists. -/
def safelistOf (comment : Text) : List Text :=
  match Text.dropPrefix? (Text.trimSpace comment) "tw:safelist" with
  | none => []
  | some rest => listed [] rest

/-- The texts among some nodes, one after another. -/
def rawBody : List Template.Node → Text
  | [] => []
  | .text _ t :: r => t ++ rawBody r
  | _ :: r => rawBody r

/-- What the attributes of an element become. -/
structure Attrs where
  attrs : List Attr := []
  toggles : List Toggle := []
  handlers : List Handler := []

/-- The attributes of an element and one more. -/
def addAttr (locals : List Text) (out : Attrs) (a : Template.Attr) : Build Attrs := do
  match Template.eventOf? a.name with
  | some event =>
    let e ← readExpr a.start a.value
    let b := Binding.ofExpr locals a.value e.handler [eventName, eventAlias]
    return { out with handlers := out.handlers ++ [⟨event, b⟩] }
  | none =>
    match Text.dropPrefix? a.name "class:" with
    | some (c :: rest) =>
      let token := c :: rest
      if a.kind = .bool then
        unless isIdentifier token do refuse (.badToggle token) a.start
      let b ← bind locals a.start (if a.kind = .bool then token else a.value)
      return { out with toggles := out.toggles ++ [⟨token, b⟩] }
    | _ =>
      if a.kind = .dynamic then
        let b ← bind locals a.start a.value
        return { out with attrs := out.attrs ++ [.bound a.name b] }
      else return { out with attrs := out.attrs ++ [.fixed a.name a.value] }

/-- The attributes of an element. -/
def addAttrs (locals : List Text) (out : Attrs) : List Template.Attr → Build Attrs
  | [] => return out
  | a :: r => do addAttrs locals (← addAttr locals out a) r

/-- Blank with a line break: a text that only lays the template out. -/
def isLayout (t : Text) : Bool := Text.isBlank t && t.contains 10

/-- A node before the nodes after it; neighbouring texts become one. -/
def joinTexts (n : Node) (rest : List Node) : List Node :=
  match n, rest with
  | .fixed i s, .fixed _ t :: r => .fixed i (s ++ t) :: r
  | n, r => n :: r

/-- Whether a node is a text that only lays the template out. -/
def Node.isLayout : Node → Bool
  | .fixed _ t => View.isLayout t
  | _ => false

/-- A list of children: neighbouring texts are joined, then layout is dropped. -/
def normalize (ns : List Node) : List Node :=
  (ns.foldr joinTexts []).filter fun n => !n.isLayout

/-- Several children as one node. -/
def single (ns : List Node) : Build Node :=
  match ns with
  | [n] => return n
  | ns => do return .fragment (← fresh) ns

mutual

/-- The node that a template node becomes, if it stays in the tree. -/
def Build.node (locals : List Text) : Template.Node → Build (List Node)
  | .text _ t => do return [.fixed (← fresh) t]
  | .comment _ t => do
    modify fun c => { c with safelist := c.safelist ++ safelistOf t }
    return []
  | .mustache start source _ => do
    let b ← bind locals start source
    return [.text (← fresh) b]
  | .element _ tag attrs children => do
    let lowered := Text.lower tag
    if lowered = "script" then
      modify fun c => { c with scripts := c.scripts ++ [rawBody children] }
      return []
    else if lowered = "style" then
      modify fun c => { c with styles := c.styles ++ [rawBody children] }
      return []
    else
      let id ← fresh
      let as ← addAttrs locals {} attrs
      let built ←
        if Template.Scanner.isRawTextTag lowered then
          let body := rawBody children
          if body.isEmpty then pure [] else do pure [Node.fixed (← fresh) body]
        else normalize <$> Build.nodes locals children
      return [.elem id tag as.attrs as.toggles as.handlers built]
  | .cond _ bs other => do
    let id ← fresh
    let built ← Build.branches locals bs
    return [.cond id built (← Build.otherwise locals other)]
  | .each start list _ item index children => do
    let b ← bind locals start list
    let id ← fresh
    let inner := [item, index].filter (!·.isEmpty) ++ locals
    let body ← single (normalize (← Build.nodes inner children))
    return [.each id b item index body]

/-- The nodes that several template nodes become. -/
def Build.nodes (locals : List Text) : List Template.Node → Build (List Node)
  | [] => return []
  | n :: r => do return (← Build.node locals n) ++ (← Build.nodes locals r)

/-- The branches of a choice. -/
def Build.branches (locals : List Text) : List Template.Branch → Build (List Branch)
  | [] => return []
  | b :: r => do
    let built ← Build.branch locals b
    return built :: (← Build.branches locals r)

/-- A branch of a choice. -/
def Build.branch (locals : List Text) : Template.Branch → Build Branch
  | .mk start source _ children => do
    let b ← bind locals start source
    let body ← single (normalize (← Build.nodes locals children))
    return .mk b body

/-- What is rendered when no condition holds. -/
def Build.otherwise (locals : List Text) : Template.Otherwise → Build Otherwise
  | .nothing => return .nothing
  | .nodes _ children => do return .body (← single (normalize (← Build.nodes locals children)))

end

end View

/-- A view with what was taken out of its template. -/
structure View where
  nodes : List View.Node
  script : Text
  style : Text
  hints : List Text
  safelist : List Text

/-- The view of a template. -/
def View.build (ns : List Template.Node) : Except View.BuildError View := do
  let (built, c) ← (View.Build.nodes [] ns).run {}
  let nodes := View.normalize built
  return {
    nodes
    script := Text.join "\n" c.scripts
    style := Text.join "\n" c.styles
    hints := View.classWords nodes
    safelist := c.safelist }

end Reactive
