/-
Parsing templates at a position.

The parser is a program over the tokens of a template, a token of the end put
after them if there is none.  It looks at the token at its position and moves
on, but not past the last token; elements, choices and loops read the nodes
inside of them.  A failure is reported with its place and the lines around it.
That all of this ends is no part of its definition.

* `NodeCursor.parse` — some tokens of a template, as nodes.
-/
import Reactive.Template.Parser
import Reactive.Proofs.Cursor.Parser
import Reactive.Proofs.Cursor.Place

namespace Reactive.Template

/-- A failure to parse a template, with its place and the lines around it. -/
structure Report where
  error : ParseError
  place : Position
  frame : Text

/-- The report of a failure. -/
def ParseError.report (src : Text) (e : ParseError) : Report :=
  ⟨e, Position.ofOffset src e.offset, (Position.ofOffset src e.offset).frame src⟩

namespace NodeCursor

open Reactive.Cursor (look lookAhead take item own)
open NodeParser (closes)

/-- The text of a template. -/
abbrev Source : Type := Text

variable {α : Type} (src : Text)

/-! ### Failures and expressions -/

/-- Refuse the tokens at an offset of the template. -/
def errorAt (phase : Phase) (offset : Nat) (cause : ParseCause) : Cursor Report α := do
  let p ← Reactive.Cursor.place src offset
  let shown ← Reactive.Cursor.frame src p
  Reactive.Cursor.refuse ⟨⟨phase, cause, offset⟩, p, shown⟩

/-- Check that a source spells an expression. -/
def checkExpr (phase : Phase) (source : Text) (offset : Nat) : Cursor Report Unit := do
  match ← own (Reactive.Cursor.parseExpr source) with
  | .ok _ => pure ()
  | .error e => errorAt src phase (offset + e.offset) (.invalidExpression e.cause)

/-- The condition of a branch. -/
def checkCondition (t : Token) : Cursor Report Unit :=
  if t.value.isEmpty then errorAt src .ifHead t.start (.noCondition t.kind)
  else checkExpr src .ifHead t.value t.valueStart

/-- The head of a loop, its list checked. -/
def checkHead (t : Token) : Cursor Report EachHead :=
  match EachHead.ofText? t.value with
  | none => errorAt src .eachHead t.start (.badEachHead t.value)
  | some head => do
    checkExpr src .eachHead head.list (t.valueStart + head.listStart)
    pure head

/-- The attribute of a name with a value. -/
def attrOf (name v : Token) : Cursor Report Attr :=
  match v.kind with
  | .string =>
    if (eventOf? name.value).isSome then
      if (Text.trimSpace v.value).isEmpty then
        errorAt src .attrs v.start (.emptyHandler name.value)
      else do
        checkExpr src .attrs v.value v.valueStart
        pure ⟨name.start, name.value, .static, v.value, v.valueStart⟩
    else pure ⟨name.start, name.value, .static, v.value, v.valueStart⟩
  | .expr | .template =>
    if v.value.isEmpty then errorAt src .attrs v.start (.emptyAttribute name.value)
    else do
      checkExpr src .attrs v.value v.valueStart
      pure ⟨name.start, name.value, .dynamic, v.value, v.valueStart⟩
  | _ => errorAt src .attrs v.start (.noValue name.value v)

/-- An expression in data. -/
def mustacheOf (t : Token) : Cursor Report Node :=
  if t.value.isEmpty then errorAt src .mustache t.start .emptyExpression
  else do
    checkExpr src .mustache t.value t.valueStart
    pure (.mustache t.start t.value t.valueStart)

/-! ### Tags -/

variable (toks : List Token)

/-- A name in a tag, with its value if it has one. -/
def parseAttr : Cursor Report Attr := do
  let name ← take toks
  let t ← look toks
  if t.kind = .equals then
    let _ ← take toks
    let v ← take toks
    attrOf src name v
  else pure ⟨name.start, name.value, .bool, [], 0⟩

/-- The attributes of a tag up to its end, and whether it closes itself. -/
def Source.attrLoop (src : Source) (toks : List Token) (tag : Text) :
    Cursor Report (List Attr × Bool) := do
  let t ← look toks
  match t.kind with
  | .tagEnd =>
    let _ ← take toks
    pure ([], false)
  | .selfClose =>
    let _ ← take toks
    pure ([], true)
  | .name =>
    let attr ← parseAttr src toks
    let rest ← src |>.attrLoop toks tag
    pure (attr :: rest.1, rest.2)
  | .expr =>
    let _ ← take toks
    if isIdentifier t.value then
      let rest ← src |>.attrLoop toks tag
      pure (⟨t.start, t.value, .dynamic, t.value, t.valueStart⟩ :: rest.1, rest.2)
    else errorAt src .attrs t.start (.badShorthand t.value)
  | _ => errorAt src .attrs t.start (.unexpectedInTag t tag)
partial_fixpoint

/-- The closing tag of an element that starts at an offset. -/
def expectClose (phase : Phase) (start : Nat) (tag : Text) : Cursor Report Unit := do
  let t ← look toks
  match t.kind with
  | .eof => errorAt src phase start (.unclosed tag)
  | .tagCloseOpen =>
    let _ ← take toks
    let name ← look toks
    if name.kind = .name && Text.equalFold name.value tag then
      let _ ← take toks
      let stop ← look toks
      if stop.kind = .tagEnd then
        let _ ← take toks
        pure ()
      else errorAt src phase stop.start (.unfinishedClosing tag stop)
    else errorAt src phase name.start (.mismatched name.value tag)
  | _ => errorAt src phase t.start (.noClosing tag t)

/-- The raw text at the position, if there is some. -/
def rawChild : Cursor Report (List Node) := do
  let t ← look toks
  if t.kind = .raw then
    let _ ← take toks
    pure [.text t.start t.value]
  else pure []

/-! ### Nodes -/

open Source

mutual

/-- Sibling nodes, up to a token that closes or continues what encloses them. -/
def Source.parseNodes (src : Source) (toks : List Token) (phase : Phase) :
    Cursor Report (List Node) := do
  let t ← look toks
  if closes t.kind then pure []
  else
    let x ← src |>.parseNode toks phase
    let xs ← src |>.parseNodes toks phase
    pure (x :: xs)
partial_fixpoint

/-- A node. -/
def Source.parseNode (src : Source) (toks : List Token) (phase : Phase) : Cursor Report Node := do
  let t ← look toks
  match t.kind with
  | .text | .raw =>
    let _ ← take toks
    pure (.text t.start t.value)
  | .comment =>
    let _ ← take toks
    pure (.comment t.start t.value)
  | .expr =>
    let _ ← take toks
    mustacheOf src t
  | .ifOpen => src |>.parseIf toks phase
  | .eachOpen => src |>.parseEach toks phase
  | .tagOpen => src |>.parseElement toks
  | _ => errorAt src phase t.start (.unexpected t)
partial_fixpoint

/-- An element. -/
def Source.parseElement (src : Source) (toks : List Token) : Cursor Report Node := do
  let opening ← take toks
  let name ← look toks
  if name.kind = .name then
    let _ ← take toks
    let tag ← attrLoop src toks name.value
    if tag.2 || isVoid (Text.lower name.value) then
      pure (.element opening.start name.value tag.1 [])
    else
      let children ← src |>.parseBody toks opening.start name.value
      pure (.element opening.start name.value tag.1 children)
  else errorAt src .elementOpen name.start (.noTagName name)
partial_fixpoint

/-- The body of an element and its closing tag. -/
def Source.parseBody (src : Source) (toks : List Token) (start : Nat) (tag : Text) :
    Cursor Report (List Node) := do
  if Scanner.isRawTextTag tag then
    let children ← rawChild toks
    expectClose src toks .rawText start tag
    pure children
  else
    let children ← src |>.parseNodes toks .children
    expectClose src toks .children start tag
    pure children
partial_fixpoint

/-- A choice. -/
def Source.parseIf (src : Source) (toks : List Token) (phase : Phase) : Cursor Report Node := do
  let t ← take toks
  checkCondition src t
  let children ← src |>.parseNodes toks .children
  let rest ← src |>.branchLoop toks phase t.start .nothing
  pure (.cond t.start (.mk t.start t.value t.valueStart children :: rest.1) rest.2)
partial_fixpoint

/-- The branches of a choice after its first one, up to its end, with what is rendered when no
condition holds; `otherwise` is what was read of that so far. -/
def Source.branchLoop (src : Source) (toks : List Token) (phase : Phase) (start : Nat)
    (otherwise : Otherwise) : Cursor Report (List Branch × Otherwise) := do
  let t ← look toks
  match t.kind with
  | .elseIf =>
    match otherwise with
    | .nodes .. => errorAt src phase t.start .elseIfAfterElse
    | .nothing =>
      let _ ← take toks
      checkCondition src t
      let children ← src |>.parseNodes toks .children
      let rest ← src |>.branchLoop toks phase start .nothing
      pure (.mk t.start t.value t.valueStart children :: rest.1, rest.2)
  | .else_ =>
    match otherwise with
    | .nodes .. => errorAt src phase t.start .duplicateElse
    | .nothing =>
      let _ ← take toks
      let children ← src |>.parseNodes toks .children
      src |>.branchLoop toks phase start (.nodes t.start children)
  | .ifClose =>
    let _ ← take toks
    pure ([], otherwise)
  | .eof => errorAt src phase start .unclosedIf
  | _ => errorAt src phase t.start (.noIfClose t)
partial_fixpoint

/-- A loop. -/
def Source.parseEach (src : Source) (toks : List Token) (phase : Phase) : Cursor Report Node := do
  let t ← take toks
  let head ← checkHead src t
  let children ← src |>.parseNodes toks .children
  let u ← look toks
  match u.kind with
  | .eachClose =>
    let _ ← take toks
    pure (.each t.start head.list (t.valueStart + head.listStart) head.item head.index children)
  | .eof => errorAt src phase t.start .unclosedEach
  | _ => errorAt src phase u.start (.noEachClose u)
partial_fixpoint

end

/-- Refuse a token that closes or continues nothing. -/
def strayCloser (t : Token) : Cursor Report α := do
  match t.kind with
  | .tagCloseOpen =>
    let next ← lookAhead toks 1
    errorAt src .top t.start (.unexpectedClosing next.value)
  | .elseIf | .else_ | .ifClose => errorAt src .top t.start (.withoutIf t.kind)
  | .eachClose => errorAt src .top t.start .withoutEach
  | _ => errorAt src .top t.start (.unexpected t)

/-- Some tokens, with one of the end of the template after them if the last one is not of that
kind. -/
def ended : Cursor Report (List Token) :=
  if toks.length = 0 then pure (toks ++ [Token.eof src])
  else do
    let last ← item toks (toks.length - 1)
    pure (if last.kind = .eof then toks else toks ++ [Token.eof src])

/-- The nodes of tokens that have one of the end of the template after them. -/
def parseEnded : Cursor Report (List Node) := do
  let xs ← parseNodes src toks .top
  let t ← look toks
  if t.kind = .eof then pure xs else strayCloser src toks t

/-- The nodes that some tokens of a template make up. -/
def parse : Cursor Report (List Node) := do
  let all ← ended src toks
  parseEnded src all

end NodeCursor

end Reactive.Template
