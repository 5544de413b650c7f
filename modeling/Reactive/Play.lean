/-
Driving a component by commands.

A line is a command and its arguments.  `Play.command` runs one against a
live component; what it prints and what went wrong are its answer.
-/
import Reactive.Component.Life
import Reactive.Expr.Parser

namespace Reactive

/-- Why a command failed. -/
inductive PlayError where
  | usage (form : Text)
  | unreadable (e : SyntaxError)
  | component (e : ComponentError)
  | badIndex (t : Text)
  | unknown (command : Text)

/-- The wording of a failure. -/
def PlayError.message : PlayError → Text
  | .usage form => "usage: " ++ form
  | .unreadable e => e.message
  | .component e => e.message
  | .badIndex t => "bad index " ++ Text.quote t
  | .unknown c => "unknown command " ++ Text.quote c ++ "; type :help"

/-- What a command prints, and whether it ends the session. -/
structure PlayReply where
  out : Text := []
  quit : Bool := false

/-- A command at work; what it did before it failed stays. -/
abbrev Play := ExceptT PlayError (Run World)

namespace Play

/-- The text for `:help`. -/
def help : Text := "Commands:
  html                      Print the host element
  keys                      List reactive keys and their values
  methods                   List callable methods
  state <name>              Print one key
  set <name> <expr>         Assign a key; expr may read current state
  attr <name> <value>       Set a host attribute
  unattr <name>             Remove a host attribute
  call <method> [args...]   Call a method; args are comma-separated expressions
  fire <event> <tag> [n]    Dispatch an event on the n-th <tag>
  click <tag> [n]           Shorthand for fire click
  :help                     Show this text
  :quit                     Exit
"

/-- A line that is printed. -/
def line (t : Text) : Text := t ++ "\n"

/-- Something done with the component. -/
def attempt {α : Type} (x : Attempt α) : Play α := do
  match ← ExceptT.lift x.run with
  | .ok a => return a
  | .error e => throw (.component e)

/-- The host element as a line. -/
def html : Play Text := do return line (← get).host.componentHtml

/-- The value of an expression that reads the state. -/
def evaluate (s : Setting) (source : Text) : Play Value :=
  match Expr.parse source with
  | .error e => throw (.unreadable e)
  | .ok e => attempt (s.evaluate e)

/-- What is left of a text after a word at its front. -/
def after (word t : Text) : Text := Text.trimSpace (Text.trimPrefix t word)

/-- Every key with its value. -/
def keys (s : Setting) : Play Text := do
  let c := (← get).host.own
  return s.definition.keys.flatMap fun k => line (k ++ " = " ++ (c.get k).display)

/-- Every method. -/
def methods : Play Text := do
  return (Text.sorted (← get).host.own.methods.keys).flatMap line

/-- Call a method with the values of some expressions, and print its answer unless that is
undefined. -/
def call (s : Setting) (name source : Text) : Play Text := do
  let args ← if source.isEmpty then pure [] else
    match ← evaluate s ("[" ++ source ++ "]") with
    | .list vs => pure vs
    | v => pure [v]
  let shown : Text := match ← attempt (s.call name args) with
    | .undefined => []
    | v => line ("=> " ++ v.display)
  return shown ++ (← html)

/-- Send an event to an element. -/
def fire (s : Setting) (event tag : Text) (n : Int) : Play Text := do
  let handled ← attempt (s.dispatch tag n event .null)
  let shown := if handled then [] else line ("no " ++ event ++ " listener on <" ++ tag ++ ">")
  return shown ++ (← html)

/-- Send an event as the words after a command say. -/
def fireWords (s : Setting) (words : List Text) : Play Text :=
  match words with
  | [event, tag] => fire s event tag 0
  | [event, tag, n] =>
    match Numeral.readInt? 10 n with
    | some n => fire s event tag n
    | none => throw (.badIndex n)
  | _ => throw (.usage "fire <event> <tag> [n]")

/-- A command with its arguments: as words, and as one text. -/
def perform (s : Setting) (command : Text) (words : List Text) (rest : Text) : Play Text :=
  match command.toString, words with
  | ":help", _ => return help
  | "html", _ => html
  | "keys", _ => keys s
  | "methods", _ => methods
  | "state", [name] => do return line ((← get).host.own.get name).display
  | "state", _ => throw (.usage "state <name>")
  | "set", name :: _ :: _ => do
    let v ← evaluate s (after name rest)
    attempt (s.set name v)
    html
  | "set", _ => throw (.usage "set <name> <expr>")
  | "attr", name :: _ => do
    attempt (s.setAttribute name (after name rest))
    html
  | "attr", _ => throw (.usage "attr <name> <value>")
  | "unattr", [name] => do
    attempt (s.removeAttribute name)
    html
  | "unattr", _ => throw (.usage "unattr <name>")
  | "call", name :: _ => call s name (after name rest)
  | "call", _ => throw (.usage "call <method> [args...]")
  | "fire", words => fireWords s words
  | "click", words => fireWords s ("click" :: words)
  | _, _ => throw (.unknown command)

/-- Run the command on a line; a blank line does nothing. -/
def command (s : Setting) (t : Text) : Play PlayReply :=
  match Text.fields t with
  | [] => return {}
  | c :: words =>
    if c = ":quit" || c = ":q" then return { quit := true }
    else do return { out := ← perform s c words (after c (Text.trimSpace t)) }

end Play

end Reactive
