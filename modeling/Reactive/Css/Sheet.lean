/-
Style sheets and their rules.

A sheet is a list of rules: statements such as `@import`, groups such as
`@media` with rules inside, other blocks such as `@keyframes`, and style
rules with selectors.  Purging keeps a selector if every class it requires
is in use; classes inside brackets and parentheses are not required.  Rules
and groups of which nothing is left are dropped.

* `Css.rules` — the rules of a list of tokens;
* `Rule.render` — a rule after purging;
* `Css.build` — both, for the style of a component;
* `Css.usedClasses` — the classes that a component can put on an element: those in
  the markup it can render, the hints from its expressions, and a list of its own.
-/
import Reactive.Css.Token
import Reactive.Html.Tags
import Reactive.Text.CodePoint

namespace Reactive.Css

/-- A selector with the classes it requires. -/
structure Selector where
  text : Text
  classes : List Text
deriving DecidableEq

/-- A rule. -/
inductive Rule where
  | statement (head : Text)
  | group (head : Text) (rules : List Rule)
  | block (head body : Text)
  | style (selectors : List Selector) (body : Text)

/-! ### Selectors -/

/-- How a token changes the depth of parentheses and brackets. -/
def Kind.nesting : Kind → Int
  | .function | .leftParen | .leftBracket => 1
  | .rightParen | .rightBracket => -1
  | _ => 0

/-- A name without its backslashes: each stands for the byte after it. -/
def unescape : Text → Text
  | [] => []
  | ['\\'] => ['\\']
  | '\\' :: b :: r => b :: unescape r
  | b :: r => b :: unescape r

/-- The classes named at depth zero. -/
def requiredClassesFrom (depth : Int) : List Token → List Text
  | [] => []
  | t :: r =>
    let depth := depth + t.kind.nesting
    let rest := requiredClassesFrom depth r
    match r with
    | u :: _ =>
      if depth = 0 && t.kind = .delim && t.text = "." && u.kind = .ident then
        unescape u.text :: rest
      else rest
    | [] => rest

/-- The classes that a selector requires. -/
def requiredClasses (ts : List Token) : List Text := requiredClassesFrom 0 ts

/-- The parts of a list of tokens between the commas at depth zero. -/
def splitCommas (depth : Int) (part : List Token) : List Token → List (List Token)
  | [] => [part.reverse]
  | t :: r =>
    let depth := depth + t.kind.nesting
    if t.kind = .comma && depth = 0 then part.reverse :: splitCommas depth [] r
    else splitCommas depth (t :: part) r

/-- The selectors of a prelude; blank parts are none. -/
def selectors (ts : List Token) : List Selector :=
  ((splitCommas 0 [] ts).map fun p => ⟨textOf p, requiredClasses p⟩).filter (!·.text.isEmpty)

/-! ### Rules -/

/-- Whether a token ends a prelude. -/
def endsPrelude (t : Token) : Bool :=
  t.kind = .leftBrace || t.kind = .semicolon || t.kind = .rightBrace

/-- The tokens up to the brace that closes `depth + 1` braces, and those after it. -/
def splitClose (depth : Nat) (body : List Token) : List Token → Option (List Token × List Token)
  | [] => none
  | t :: r =>
    if t.kind = .leftBrace then splitClose (depth + 1) (t :: body) r
    else if t.kind = .rightBrace then
      match depth with
      | 0 => some (body.reverse, r)
      | d + 1 => splitClose d (t :: body) r
    else splitClose depth (t :: body) r

theorem length_splitClose {depth : Nat} {body ts : List Token} {x : List Token × List Token}
    (h : splitClose depth body ts = some x) :
    x.1.length < body.length + ts.length + 1 ∧ x.2.length < ts.length := by
  fun_induction splitClose depth body ts with
  | case1 => simp at h
  | case2 depth body t r _ ih =>
    have := ih h
    simp only [List.length_cons] at *
    omega
  | case3 body t r _ _ =>
    simp only [Option.some.injEq] at h
    subst h
    simp only [List.length_reverse, List.length_cons]
    omega
  | case4 body t r _ _ d ih =>
    have := ih h
    simp only [List.length_cons] at *
    omega
  | case5 depth body t r _ _ ih =>
    have := ih h
    simp only [List.length_cons] at *
    omega

/-- The heads of groups, whose rules are purged one by one. -/
def groupHeads : List Text := ["@media", "@supports", "@layer", "@container"]

/-- Whether a prelude starts a group. -/
def isGroup (prelude : Text) : Bool := groupHeads.any fun h => Text.startsWith prelude h

/-- The rules of a list of tokens. -/
def rules (ts : List Token) : Except SheetError (List Rule) :=
  match _h : ts.dropWhile (·.kind = .blank) with
  | [] => .ok []
  | first :: more =>
    let head := (first :: more).takeWhile (!endsPrelude ·)
    let prelude := textOf head
    match _h2 : (first :: more).dropWhile (!endsPrelude ·) with
    | [] => .error ⟨.missingBlock prelude, first.start⟩
    | stop :: after =>
      if stop.kind = .rightBrace then .error ⟨.strayClose, stop.start⟩
      else if stop.kind = .semicolon then
        if Text.startsWith prelude "@" then do
          return .statement prelude :: (← rules after)
        else .error ⟨.outsideRule, first.start⟩
      else if prelude.isEmpty then .error ⟨.noSelector, stop.start⟩
      else
        match _h3 : splitClose 0 [] after with
        | none => .error ⟨.unclosed, stop.start⟩
        | some (body, rest) => do
          let rule ←
            if isGroup prelude then Rule.group prelude <$> rules body
            else if Text.startsWith prelude "@" then pure (.block prelude (textOf body))
            else pure (.style (selectors head) (textOf body))
          return rule :: (← rules rest)
termination_by ts.length
decreasing_by
  all_goals
    have h1 : (first :: more).length ≤ ts.length := by
      rw [← _h]; exact (List.dropWhile_suffix _).length_le
    have h2 : (stop :: after).length ≤ (first :: more).length := by
      rw [← _h2]; exact (List.dropWhile_suffix _).length_le
    simp only [List.length_cons] at h1 h2
  · omega
  all_goals
    have h3 := length_splitClose _h3
    simp only [List.length_nil] at h3
    omega

/-! ### Purging -/

/-- Whether every class that a selector requires is in use. -/
def Selector.isUsed (s : Selector) (used : List Text) : Bool := s.classes.all used.contains

mutual

/-- What is left of a rule; nothing if it is dropped.  With `keep` no selector is dropped. -/
def Rule.render (used : List Text) (keep : Bool) : Rule → Text
  | .statement head => head ++ ";"
  | .group head rs =>
    match renderAll used keep rs with
    | [] => []
    | parts => head ++ "\x7b" ++ parts.flatten ++ "\x7d"
  | .block head body => head ++ "\x7b" ++ body ++ "\x7d"
  | .style sels body =>
    match sels.filter fun s => keep || s.isUsed used with
    | [] => []
    | kept => Text.join "," (kept.map (·.text)) ++ "\x7b" ++ body ++ "\x7d"

/-- What is left of several rules. -/
def renderAll (used : List Text) (keep : Bool) : List Rule → List Text
  | [] => []
  | r :: rest =>
    match r.render used keep with
    | [] => renderAll used keep rest
    | t => t :: renderAll used keep rest

end

/-- Why a style was not built. -/
inductive BuildError where
  | malformed (e : SheetError)
  /-- Whoever asked for the style no longer wants it. -/
  | cancelled
  /-- Another way of building styles failed. -/
  | other (message : Text)

/-- The wording of a failure. -/
def BuildError.message : BuildError → Text
  | .malformed e => e.message
  | .cancelled => "context canceled"
  | .other m => m

/-- The rules of a style. -/
def rulesOf (style : Text) : Except SheetError (List Rule) := do rules (← tokens style)

/-- The style of a component after purging.  A cancelled build fails before its first rule. -/
def build (used : List Text) (keep cancelled : Bool) (style : Text) : Except BuildError Text :=
  if Text.isBlank style then .ok []
  else
    match rulesOf style with
    | .error e => .error (.malformed e)
    | .ok rs =>
      if cancelled && !rs.isEmpty then .error .cancelled
      else .ok (Text.join "\n" (renderAll used keep rs))

/-! ### Classes in use -/

/-- What a style sheet is built from. -/
structure Input where
  html : Text := []
  safelist : List Text := []
  hints : List Text := []
  style : Text := []

/-- The class names in the markup; a name with a brace in it comes from an expression and does
not count. -/
def markupClasses (html : Text) : List Text :=
  (Html.startTags html).flatMap fun attrs : List (Text × Text) =>
    (attrs.filter fun a => a.1 == ("class" : Text)).flatMap fun a =>
      (Text.fields a.2).filter fun c => !c.contains '{' && !c.contains '}'

/-- The classes in use, in byte order. -/
def usedClasses (i : Input) : List Text :=
  Text.sorted (Text.distinct (markupClasses i.html ++ i.hints ++ i.safelist))

/-- The style of a component, purged of the classes that are not in use. -/
def Input.build (i : Input) (keep cancelled : Bool) : Except BuildError Text :=
  Css.build (usedClasses i) keep cancelled i.style

end Reactive.Css
