/-
Parsing templates.

`Level n` holds the parser of sibling nodes for all token lists shorter than
`n`; `level n` builds it from the lower levels.  What is being read is passed
down as a phase and named in failures.

* `Node.parse` — the nodes of a template;
* `Node.ofTokens` — the nodes of a token list.
-/
import Reactive.Expr.Parser
import Reactive.Template.EachHead
import Reactive.Template.Lexer
import Reactive.Template.Syntax

namespace Reactive.Template

/-- What is being read. -/
inductive Phase where
  | top
  | elementOpen
  | attrs
  | children
  | rawText
  | mustache
  | ifHead
  | eachHead
deriving DecidableEq

/-- The name of a phase in a message; the top level has none. -/
def Phase.name? : Phase → Option Text
  | .top => none
  | .elementOpen => some "element-open"
  | .attrs => some "attrs"
  | .children => some "children"
  | .rawText => some "rawtext"
  | .mustache => some "mustache"
  | .ifHead => some "if-head"
  | .eachHead => some "each-head"

/-- Why the tokens are no template. -/
inductive ParseCause where
  | invalidExpression (cause : SyntaxCause)
  | unexpected (found : Token)
  | unexpectedClosing (tag : Text)
  | withoutIf (kind : TokenKind)
  | withoutEach
  | emptyExpression
  | noTagName (found : Token)
  | badShorthand (source : Text)
  | unexpectedInTag (found : Token) (tag : Text)
  | emptyHandler (attr : Text)
  | emptyAttribute (attr : Text)
  | noValue (attr : Text) (found : Token)
  | unclosed (tag : Text)
  | noClosing (tag : Text) (found : Token)
  | mismatched (found tag : Text)
  | unfinishedClosing (tag : Text) (found : Token)
  | noCondition (kind : TokenKind)
  | elseIfAfterElse
  | duplicateElse
  | unclosedIf
  | noIfClose (found : Token)
  | badEachHead (head : Text)
  | unclosedEach
  | noEachClose (found : Token)
deriving DecidableEq

/-- The wording of a cause. -/
def ParseCause.message : ParseCause → Text
  | .invalidExpression c => "invalid expression: " ++ c.message
  | .unexpected t => "unexpected " ++ t.describe
  | .unexpectedClosing tag => "unexpected closing tag </" ++ tag ++ ">"
  | .withoutIf k => k.label ++ " without matching \x7b#if\x7d"
  | .withoutEach => "\x7b/each\x7d without matching \x7b#each\x7d"
  | .emptyExpression => "empty expression"
  | .noTagName t => "expected tag name, found " ++ t.describe
  | .badShorthand src => "attribute shorthand must be a plain identifier, found \x7b" ++ src ++ "\x7d"
  | .unexpectedInTag t tag => "unexpected " ++ t.describe ++ " in <" ++ tag ++ ">"
  | .emptyHandler a => "empty handler for " ++ a
  | .emptyAttribute a => "empty expression for attribute " ++ a
  | .noValue a t => "expected value for attribute " ++ a ++ ", found " ++ t.describe
  | .unclosed tag => "unclosed <" ++ tag ++ ">"
  | .noClosing tag t => "expected </" ++ tag ++ ">, found " ++ t.describe
  | .mismatched found tag => "mismatched closing tag </" ++ found ++ ">, expected </" ++ tag ++ ">"
  | .unfinishedClosing tag t => "expected '>' to close </" ++ tag ++ ">, found " ++ t.describe
  | .noCondition k => "missing condition in " ++ k.label
  | .elseIfAfterElse => "\x7b:else if\x7d after \x7b:else\x7d"
  | .duplicateElse => "duplicate \x7b:else\x7d in \x7b#if\x7d"
  | .unclosedIf => "unclosed \x7b#if\x7d, expected \x7b/if\x7d"
  | .noIfClose t => "expected \x7b/if\x7d, found " ++ t.describe
  | .badEachHead head =>
    "invalid \x7b#each\x7d head " ++ Text.quote head ++ ", expected LIST as ITEM[, INDEX]"
  | .unclosedEach => "unclosed \x7b#each\x7d, expected \x7b/each\x7d"
  | .noEachClose t => "expected \x7b/each\x7d, found " ++ t.describe

/-- A failure to parse a template: what was being read, why it failed and where. -/
structure ParseError where
  phase : Phase
  cause : ParseCause
  offset : Nat
deriving DecidableEq

/-- The message of a failure, with the line it is on. -/
def ParseError.message (src : Text) (e : ParseError) : Text :=
  let p := Position.ofOffset src e.offset
  let phase := match e.phase.name? with
    | none => []
    | some n => " (" ++ n ++ ")"
  "parse error at " ++ p.text ++ phase ++ ": " ++ e.cause.message ++ "\n" ++ p.frame src

/-- Why a template was refused. -/
inductive TemplateError where
  | lex (e : LexError)
  | parse (e : ParseError)
deriving DecidableEq

namespace NodeParser

/-- A result and the tokens after it, fewer than `n`. -/
abbrev Outcome (α : Type) (n : Nat) := Except ParseError { r : α × List Token // r.2.length < n }

/-- The parser of sibling nodes for token lists shorter than `n`, given the phase, the token at
the end and the tokens.  It stops at a token that closes or continues what encloses them. -/
abbrev Level (n : Nat) :=
  Phase → Token → (ts : List Token) → ts.length < n → Outcome (List Node) (ts.length + 1)

/-- The next token, or the one at the end. -/
def cur (eof : Token) (ts : List Token) : Token := ts.headD eof

/-- A failure at a token. -/
def fail {α : Type} (phase : Phase) (t : Token) (cause : ParseCause) : Except ParseError α :=
  .error ⟨phase, cause, t.start⟩

/-- Check that a source spells an expression. -/
def checkSource (phase : Phase) (source : Text) (at_ : Nat) : Except ParseError Unit :=
  match Expr.parse source with
  | .ok _ => .ok ()
  | .error e => .error ⟨phase, .invalidExpression e.cause, at_ + e.offset⟩

/-- The value of an attribute after its equals sign. -/
def attrValue (name v : Token) : Except ParseError Attr :=
  let attr (kind : AttrKind) : Attr := ⟨name.start, name.value, kind, v.value, v.valueStart⟩
  match v.kind with
  | .string =>
    if (eventOf? name.value).isSome then
      if (Text.trimSpace v.value).isEmpty then fail .attrs v (.emptyHandler name.value)
      else (checkSource .attrs v.value v.valueStart).map fun _ => attr .static
    else .ok (attr .static)
  | .expr | .template =>
    if v.value.isEmpty then fail .attrs v (.emptyAttribute name.value)
    else (checkSource .attrs v.value v.valueStart).map fun _ => attr .dynamic
  | _ => fail .attrs v (.noValue name.value v)

/-- The attribute that a name starts: the name alone, or a name with a value. -/
def namedAttr (eof name : Token) (ts : List Token) : Outcome Attr (ts.length + 1) :=
  match ts with
  | [] => .ok ⟨(⟨name.start, name.value, .bool, [], 0⟩, []), by simp⟩
  | t :: r =>
    if t.kind = .equals then
      match attrValue name (cur eof r) with
      | .error e => .error e
      | .ok a => .ok ⟨(a, r.drop 1), by simp only [List.length_drop, List.length_cons]; omega⟩
    else .ok ⟨(⟨name.start, name.value, .bool, [], 0⟩, t :: r), by simp⟩

/-- The attributes of a tag up to its end, and whether it closes itself. -/
def attributes (eof : Token) (tag : Text) (ts : List Token) : Outcome (List Attr × Bool) ts.length :=
  match ts with
  | [] => fail .attrs eof (.unexpectedInTag eof tag)
  | t :: r =>
    match t.kind with
    | .tagEnd => .ok ⟨(([], false), r), by simp⟩
    | .selfClose => .ok ⟨(([], true), r), by simp⟩
    | .name =>
      match namedAttr eof t r with
      | .error e => .error e
      | .ok ⟨(a, r'), h⟩ =>
        match attributes eof tag r' with
        | .error e => .error e
        | .ok ⟨((as, closed), r''), h'⟩ =>
          .ok ⟨((a :: as, closed), r''), by simp only [List.length_cons] at *; omega⟩
    | .expr =>
      if isIdentifier t.value then
        match attributes eof tag r with
        | .error e => .error e
        | .ok ⟨((as, closed), r'), h⟩ =>
          .ok ⟨((⟨t.start, t.value, .dynamic, t.value, t.valueStart⟩ :: as, closed), r'), by
            simp only [List.length_cons] at *; omega⟩
      else fail .attrs t (.badShorthand t.value)
    | _ => fail .attrs t (.unexpectedInTag t tag)
termination_by ts.length
decreasing_by
  all_goals simp only [List.length_cons] at *
  all_goals omega

/-- The closing tag of an element that starts at `start`. -/
def closingTag (phase : Phase) (eof : Token) (start : Nat) (tag : Text) (ts : List Token) :
    Outcome Unit ts.length :=
  match ts with
  | [] => .error ⟨phase, .unclosed tag, start⟩
  | t :: r =>
    if t.kind = .tagCloseOpen then
      let name := cur eof r
      if name.kind = .name && Text.equalFold name.value tag then
        let stop := cur eof (r.drop 1)
        if stop.kind = .tagEnd then
          .ok ⟨((), r.drop 2), by simp only [List.length_drop, List.length_cons]; omega⟩
        else fail phase stop (.unfinishedClosing tag stop)
      else fail phase name (.mismatched name.value tag)
    else fail phase t (.noClosing tag t)

/-- The body of an element and its closing tag. -/
def elementBody {n : Nat} (L : Level n) (eof : Token) (start : Nat) (tag : Text) (ts : List Token)
    (h : ts.length < n) : Outcome (List Node) (ts.length + 1) :=
  if Scanner.isRawTextTag tag then
    match ts with
    | [] =>
      match closingTag .rawText eof start tag [] with
      | .error e => .error e
      | .ok ⟨(_, r'), h'⟩ => .ok ⟨([], r'), by simp only at *; omega⟩
    | t :: r =>
      if t.kind = .raw then
        match closingTag .rawText eof start tag r with
        | .error e => .error e
        | .ok ⟨(_, r'), h'⟩ =>
          .ok ⟨([.text t.start t.value], r'), by simp only [List.length_cons] at *; omega⟩
      else
        match closingTag .rawText eof start tag (t :: r) with
        | .error e => .error e
        | .ok ⟨(_, r'), h'⟩ => .ok ⟨([], r'), by simp only at *; omega⟩
  else
    match L .children eof ts h with
    | .error e => .error e
    | .ok ⟨(children, r), h₁⟩ =>
      match closingTag .children eof start tag r with
      | .error e => .error e
      | .ok ⟨(_, r'), h₂⟩ => .ok ⟨(children, r'), by simp only at *; omega⟩

/-- An element after its opening mark `t`. -/
def element {n : Nat} (L : Level n) (eof : Token) (start : Nat) (ts : List Token)
    (h : ts.length < n) : Outcome Node (ts.length + 1) :=
  match ts with
  | [] => fail .elementOpen eof (.noTagName eof)
  | name :: r =>
    if name.kind = .name then
      match attributes eof name.value r with
      | .error e => .error e
      | .ok ⟨((attrs, closed), r₁), h₁⟩ =>
        if closed || isVoid (Text.lower name.value) then
          .ok ⟨(.element start name.value attrs [], r₁), by simp only [List.length_cons] at *; omega⟩
        else
          match elementBody L eof start name.value r₁
              (by simp only [List.length_cons] at *; omega) with
          | .error e => .error e
          | .ok ⟨(children, r₂), h₂⟩ =>
            .ok ⟨(.element start name.value attrs children, r₂), by
              simp only [List.length_cons] at *; omega⟩
    else fail .elementOpen name (.noTagName name)

/-- The condition of a branch. -/
def checkCondition (t : Token) : Except ParseError Unit :=
  if t.value.isEmpty then fail .ifHead t (.noCondition t.kind)
  else checkSource .ifHead t.value t.valueStart

/-- The branches of a choice after its first one, up to its end, with what is rendered when no
condition holds.  `otherwise` is what was read of that so far. -/
def branches {n : Nat} (L : Level n) (phase : Phase) (eof : Token) (start : Nat)
    (otherwise : Otherwise) (ts : List Token) (h : ts.length < n) :
    Outcome (List Branch × Otherwise) (ts.length + 1) :=
  match ts with
  | [] => .error ⟨phase, .unclosedIf, start⟩
  | t :: r =>
    have hr : r.length < n := by simp only [List.length_cons] at h; omega
    match t.kind with
    | .elseIf =>
      match otherwise with
      | .nodes .. => fail phase t .elseIfAfterElse
      | .nothing =>
        match checkCondition t with
        | .error e => .error e
        | .ok _ =>
          match L .children eof r hr with
          | .error e => .error e
          | .ok ⟨(children, r₁), h₁⟩ =>
            match branches L phase eof start .nothing r₁ (by simp only at h₁; omega) with
            | .error e => .error e
            | .ok ⟨((bs, o), r₂), h₂⟩ =>
              .ok ⟨((.mk t.start t.value t.valueStart children :: bs, o), r₂), by
                simp only [List.length_cons] at *; omega⟩
    | .else_ =>
      match otherwise with
      | .nodes .. => fail phase t .duplicateElse
      | .nothing =>
        match L .children eof r hr with
        | .error e => .error e
        | .ok ⟨(children, r₁), h₁⟩ =>
          match branches L phase eof start (.nodes t.start children) r₁
              (by simp only at h₁; omega) with
          | .error e => .error e
          | .ok ⟨(x, r₂), h₂⟩ => .ok ⟨(x, r₂), by simp only [List.length_cons] at *; omega⟩
    | .ifClose => .ok ⟨(([], otherwise), r), by simp only [List.length_cons]; omega⟩
    | _ => fail phase t (.noIfClose t)
termination_by ts.length
decreasing_by
  all_goals simp only [List.length_cons] at *
  all_goals omega

/-- A choice after its opening token `t`. -/
def choice {n : Nat} (L : Level n) (phase : Phase) (eof t : Token) (ts : List Token)
    (h : ts.length < n) : Outcome Node (ts.length + 1) :=
  match checkCondition t with
  | .error e => .error e
  | .ok _ =>
    match L .children eof ts h with
    | .error e => .error e
    | .ok ⟨(children, r), h₁⟩ =>
      match branches L phase eof t.start .nothing r (by simp only at h₁; omega) with
      | .error e => .error e
      | .ok ⟨((bs, o), r'), h₂⟩ =>
        .ok ⟨(.cond t.start (.mk t.start t.value t.valueStart children :: bs) o, r'), by
          simp only at *; omega⟩

/-- The head of a loop, its list checked. -/
def loopHead (t : Token) : Except ParseError EachHead :=
  match EachHead.ofText? t.value with
  | none => fail .eachHead t (.badEachHead t.value)
  | some head =>
    (checkSource .eachHead head.list (t.valueStart + head.listStart)).map fun _ => head

/-- A loop after its opening token `t`. -/
def loop {n : Nat} (L : Level n) (phase : Phase) (eof t : Token) (ts : List Token)
    (h : ts.length < n) : Outcome Node (ts.length + 1) :=
  match loopHead t with
  | .error e => .error e
  | .ok head =>
    match L .children eof ts h with
    | .error e => .error e
    | .ok ⟨(_, []), _⟩ => .error ⟨phase, .unclosedEach, t.start⟩
    | .ok ⟨(children, u :: r), h₁⟩ =>
      if u.kind = .eachClose then
        .ok ⟨(.each t.start head.list (t.valueStart + head.listStart) head.item head.index children,
          r), by simp only [List.length_cons] at *; omega⟩
      else fail phase u (.noEachClose u)

/-- An expression in data. -/
def mustache (t : Token) : Except ParseError Node :=
  if t.value.isEmpty then fail .mustache t .emptyExpression
  else (checkSource .mustache t.value t.valueStart).map fun _ =>
    .mustache t.start t.value t.valueStart

/-- A node that starts with the token `t`. -/
def node {n : Nat} (L : Level n) (phase : Phase) (eof t : Token) (ts : List Token)
    (h : ts.length < n) : Outcome Node (ts.length + 1) :=
  let leaf (x : Node) : Outcome Node (ts.length + 1) := .ok ⟨(x, ts), Nat.lt_succ_self _⟩
  match t.kind with
  | .text | .raw => leaf (.text t.start t.value)
  | .comment => leaf (.comment t.start t.value)
  | .expr => (mustache t).bind leaf
  | .ifOpen => choice L phase eof t ts h
  | .eachOpen => loop L phase eof t ts h
  | .tagOpen => element L eof t.start ts h
  | _ => fail phase t (.unexpected t)

/-- Whether a token closes or continues what encloses it. -/
def closes : TokenKind → Bool
  | .eof | .tagCloseOpen | .elseIf | .else_ | .ifClose | .eachClose => true
  | _ => false

/-- Sibling nodes, given the parser for shorter token lists. -/
def nodes (phase : Phase) (eof : Token) (ts : List Token) (L : Level ts.length) :
    Outcome (List Node) (ts.length + 1) :=
  match ts with
  | [] => .ok ⟨([], []), by simp⟩
  | t :: r =>
    if closes t.kind then .ok ⟨([], t :: r), by simp⟩
    else
      match node L phase eof t r (by simp) with
      | .error e => .error e
      | .ok ⟨(x, r₁), h₁⟩ =>
        match L phase eof r₁ (by simp only [List.length_cons] at *; omega) with
        | .error e => .error e
        | .ok ⟨(xs, r₂), h₂⟩ => .ok ⟨(x :: xs, r₂), by simp only [List.length_cons] at *; omega⟩

/-- The parser of sibling nodes for token lists shorter than `n`. -/
def level (n : Nat) : Level n := fun phase eof ts _ => nodes phase eof ts (level ts.length)
termination_by n

/-- A failure at a token that closes or continues nothing. -/
def stray (eof t : Token) (r : List Token) : ParseError :=
  let cause : ParseCause := match t.kind with
    | .tagCloseOpen => .unexpectedClosing (cur eof r).value
    | .elseIf | .else_ | .ifClose => .withoutIf t.kind
    | .eachClose => .withoutEach
    | _ => .unexpected t
  ⟨.top, cause, t.start⟩

end NodeParser

open NodeParser in
/-- The nodes of a token list, whose end token is `eof`. -/
def Node.ofTokens (eof : Token) (ts : List Token) : Except ParseError (List Node) :=
  match nodes .top eof ts (level _) with
  | .error e => .error e
  | .ok ⟨(xs, []), _⟩ => .ok xs
  | .ok ⟨(_, t :: r), _⟩ => .error (stray eof t r)

/-- The nodes of a template. -/
def Node.parse (src : Text) : Except TemplateError (List Node) :=
  match Token.scan src.length .data src with
  | .error e => .error (.lex e)
  | .ok ts =>
    match Node.ofTokens (Token.eof src) ts with
    | .error e => .error (.parse e)
    | .ok xs => .ok xs

/-- The message of a refusal. -/
def TemplateError.message (src : Text) : TemplateError → Text
  | .lex e => e.message src
  | .parse e => e.message src

end Reactive.Template
