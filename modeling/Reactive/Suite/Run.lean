/-
Running a case.

* `CaseStep.act` — what a step does to the component;
* `Expectation.mismatch?` — the first thing that is not as it has to be;
* `Case.run` — a case from its template to its verdict.

An error counts as seen if the expectation names it; `Cause.isNamed` says
when it does.
-/
import Reactive.Compile.Artifact
import Reactive.Component.Life
import Reactive.Suite.Basic

namespace Reactive

/-! ### Verdicts -/

/-- Why something in a case failed. -/
inductive Cause where
  | compile (e : CompileError)
  | component (e : ComponentError)
  | noListener (type target : Text)
  | noAction

namespace Cause

/-- The wording of a failure. -/
def message : Cause → Text
  | .compile e => e.message
  | .component e => e.message
  | .noListener type target => "no listener for " ++ type ++ " on <" ++ target ++ ">"
  | .noAction => "step has no action"

/-- Whether an expectation names a failure: by its sort, by the code of an evaluation that failed,
or by a part of its message. -/
def isNamed (want : Text) (c : Cause) : Bool :=
  if want = "LexError" then
    match c with
    | .compile (.template _ (.lex _)) => true
    | _ => false
  else if want = "ParseError" then
    match c with
    | .compile (.template _ (.parse _)) => true
    | _ => false
  else if want = "CycleError" then
    match c with
    | .compile (.schedule _ (.cycle _)) => true
    | _ => false
  else if Text.startsWith want "E_" then
    match c with
    | .component e => e.cause?.any fun x => x.code.name = want
    | _ => false
  else Text.hasPart c.message want

end Cause

/-- Why a case is not as it has to be. -/
inductive Mismatch where
  | unexpected (c : Cause)
  | otherError (want : Text) (c : Cause)
  | noError (want : Text)
  | noExpectation
  | html (want got : Text)
  | text (want got : Text)
  | part (want got : Text)
  | state (name : Text) (want got : Value)
  | warning (want : Text) (got : List Text)
  | log (want got : Text)

namespace Mismatch

/-- The failure that was not expected, if that is what is wrong. -/
def cause? : Mismatch → Option Cause
  | .unexpected c => some c
  | _ => none

/-- The wording of a mismatch. -/
def message : Mismatch → Text
  | .unexpected c => "unexpected error: " ++ c.message
  | .otherError want c => "expected error " ++ want ++ ", got " ++ c.message
  | .noError want => "expected error " ++ want ++ ", got none"
  | .noExpectation => "no expectation specified"
  | .html want got => "expected html " ++ Text.quote want ++ ", got " ++ Text.quote got
  | .text want got => "expected text " ++ Text.quote want ++ ", got " ++ Text.quote got
  | .part want got => "expected html to contain " ++ Text.quote want ++ ", got " ++ Text.quote got
  | .state n want got => "expected " ++ n ++ " = " ++ want.display ++ ", got " ++ got.display
  | .warning want got => "expected a warning containing " ++ Text.quote want ++ ", got " ++
      Tracing.namesText (got.map Text.quote)
  | .log want got => "expected log containing " ++ Text.quote want ++ ", got " ++ Text.quote got

end Mismatch

/-- Where in a case something is wrong. -/
inductive Moment where
  | start
  | mounted
  | step (number : Nat)

/-- What is wrong with a case, and where. -/
structure Failure where
  moment : Moment
  mismatch : Mismatch

/-- The wording of a failure. -/
def Failure.message (f : Failure) : Text :=
  match f.moment with
  | .start => f.mismatch.message
  | .mounted => "after mount: " ++ f.mismatch.message
  | .step n => "step " ++ Text.ofNat n ++ ": " ++ f.mismatch.message

/-! ### Comparing -/

/-- What can be seen of a component. -/
structure Sight where
  html : Text
  text : Text
  state : Text → Value
  warnings : List Text
  logs : Text

namespace Expectation

/-- An error instead of a component: fine if the expectation names it. -/
def judge (e : Expectation) (c : Cause) : Option Mismatch :=
  if e.error.isEmpty then some (.unexpected c)
  else if c.isNamed e.error then none else some (.otherError e.error c)

/-- A text that has to be there, if any. -/
def differs (want : Option Text) (got : Text) (wrong : Text → Text → Mismatch) : Option Mismatch :=
  match want with
  | none => none
  | some w => if w = got then none else some (wrong w got)

/-- The first value that is not as it has to be. -/
def stateMismatch? (got : Text → Value) : Dict Plain → Option Mismatch
  | [] => none
  | (k, p) :: r =>
    let want := p.toValue
    if (got k).equal want then stateMismatch? got r else some (.state k want (got k))

/-- The first thing that is not as it has to be. -/
def mismatch? (e : Expectation) (s : Sight) : Option Mismatch :=
  differs e.html s.html .html <|> differs e.text s.text .text <|>
    (e.parts.find? fun w => !Text.hasPart s.html w).map (.part · s.html) <|>
    stateMismatch? s.state e.state <|>
    (e.warnings.find? fun w => !s.warnings.any (Text.hasPart · w)).map (.warning · s.warnings) <|>
    (e.logs.find? fun w => !Text.hasPart s.logs w).map (.log · s.logs)

end Expectation

/-! ### Steps -/

/-- A step of a case that may fail. -/
abbrev Deed := ExceptT Cause (Run World)

/-- Something done with a component, as part of a case. -/
def Deed.ofAttempt {α : Type} (x : Attempt α) : Deed α := do
  match ← ExceptT.lift x.run with
  | .ok a => return a
  | .error e => throw (.component e)

/-- Write keys, up to the first that cannot be written. -/
def setAll (s : Setting) : List (Text × Plain) → Attempt Unit
  | [] => return
  | (k, p) :: r => do
    s.set k p.toValue
    setAll s r

/-- What a step does; of several things the first counts. -/
def CaseStep.act (s : Setting) (st : CaseStep) : Deed Unit :=
  match st.set, st.attr, st.event with
  | some d, _, _ =>
    .ofAttempt (ExceptT.mk (s.batch (setAll s (Text.sortedByKey d)).run))
  | none, some d, _ =>
    .ofAttempt ((Text.sortedByKey d).forM fun p => s.setAttribute p.1 p.2)
  | none, none, event =>
    if !st.call.isEmpty then do
      let _ ← Deed.ofAttempt (s.call st.call (Plain.toValues st.args))
    else
      match event with
      | none => throw .noAction
      | some e => do
        let handled ← Deed.ofAttempt (s.dispatch e.target e.index e.type e.detail.toValue)
        unless handled do throw (.noListener e.type e.target)

/-! ### Cases -/

/-- The rest of a case; it stops at the first failure. -/
abbrev Trial := ExceptT Failure (Run World)

/-- What can be seen now. -/
def sight (warnings : List Text) : Run World Sight := do
  let m ← get
  let w := m.host
  let host := w.own.host.getD 0
  return { html := w.doc.innerHtml false host
           text := w.doc.textContent host
           state := w.own.get
           warnings
           logs := LogEntry.textOf (LogEntry.ofVoice .component m.logs) }

namespace Trial

/-- A mismatch, if there is one, ends the trial. -/
def settle (moment : Moment) : Option Mismatch → Trial Unit
  | none => return
  | some x => throw ⟨moment, x⟩

/-- Compare what can be seen with what has to be. -/
def compare (warnings : List Text) (moment : Moment) (e : Expectation) : Trial Unit := do
  settle moment (e.mismatch? (← ExceptT.lift (sight warnings)))

/-- The steps of a case, from the one with a number on. -/
def steps (s : Setting) (warnings : List Text) (number : Nat) : List CaseStep → Trial Unit
  | [] => return
  | st :: r => do
    match ← ExceptT.lift (st.act s).run with
    | .error c => settle (.step number) (st.expect.judge c)
    | .ok _ =>
      unless st.expect.error.isEmpty do throw ⟨.step number, .noError st.expect.error⟩
      compare warnings (.step number) st.expect
    steps s warnings (number + 1) r

/-- A case whose template was compiled. -/
def ofCase (s : Setting) (warnings : List Text) (c : Case) : Trial Unit := do
  match ← ExceptT.lift (s.create (Plain.toEntries c.props)).run with
  | .error e => settle .start (c.expect.judge (.component e))
  | .ok _ =>
    ExceptT.lift (s.mount none)
    if c.expect.isEmpty && c.steps.isEmpty then throw ⟨.start, .noExpectation⟩
    unless c.expect.error.isEmpty do throw ⟨.start, .noError c.expect.error⟩
    compare warnings .mounted c.expect
    steps s warnings 1 c.steps

end Trial

/-- What became of a case. -/
inductive Verdict where
  | skipped (reason : Text)
  | passed
  | failed (f : Failure)

/-- A verdict from what is wrong, if anything. -/
def Verdict.ofFailure? : Option Failure → Verdict
  | none => .passed
  | some f => .failed f

/-- Run a case, with what was logged meanwhile, the last entry first. -/
def Case.run (tr : Tracing) (c : Case) : Except Halt (Verdict × List LogEntry) :=
  match c.skip with
  | some reason => .ok (.skipped reason, [])
  | none =>
    let (r, bench) := (compile tr c.options c.template).run {}
    match r with
    | .error (.template _ (.lex .overrun)) => .error .outOfRange
    | .error e =>
      .ok (.ofFailure? ((c.expect.judge (.compile e)).map (⟨.start, ·⟩)), bench.logs)
    | .ok a =>
      let s : Setting := ⟨a.definition, tr⟩
      match (Trial.ofCase s a.warnings c).run (s.start bench.logs) with
      | .error h => .error h
      | .ok (.ok _, m) => .ok (.passed, m.logs)
      | .ok (.error f, m) => .ok (.failed f, m.logs)

end Reactive
