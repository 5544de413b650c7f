/-
The nodes that are read at a position.

The parser of templates at a position agrees with the parser of token lists,
function by function, by induction on a bound of the number of tokens that are
left.  With the readers of tokens and the parsers of expressions and programs this
makes every reader of a source end, on every source, with what it spells or with
a failure, and without a look outside of the source or of its tokens.

* `NodeCursor.follows_level` — the parsers of every number of tokens;
* `parsers_total` — every reader of a source.
-/
import Reactive.Proofs.Cursor.NodeParser
import Reactive.Proofs.Cursor.Parsing
import Reactive.Proofs.Template.Grammar
import Reactive.Proofs.Template.Tiling

namespace Reactive.Template

open NodeParser (Outcome Level)
open Reactive.Cursor (At Twin Agrees item look lookAhead take)

namespace NodeCursor

open Source

/-! ### Checks -/

/-- A program leaves its position as it is and comes to an outcome. -/
def Checks {α : Type} (src : Text) (x : Cursor Report α) (o : Except ParseError α) : Prop :=
  ∀ k, x.run k = match o with
    | .error e => throw (.refused (e.report src))
    | .ok a => pure (a, k)

section

variable {α β : Type} {src : Text} {all r : List Token} {i : Nat} {x : Cursor Report α}
  {P : β × List Token → Prop}

theorem Checks.bind_error {k : α → Cursor Report β} {o : Except ParseError α} {e : ParseError}
    (hx : Checks src x o) (ho : o = .error e) :
    Twin (ParseError.report src) all (x >>= k) i
      (.error e : Except ParseError { y : β × List Token // P y }) := by
  have hrun := hx i
  rw [ho] at hrun
  exact Agrees.bind_error hrun

theorem Checks.bind {k : α → Cursor Report β} {o : Except ParseError α} {a : α}
    {o' : Except ParseError { y : β × List Token // P y }} (hx : Checks src x o) (ho : o = .ok a)
    (hk : Twin (ParseError.report src) all (k a) i o') :
    Twin (ParseError.report src) all (x >>= k) i o' := by
  have hrun := hx i
  rw [ho] at hrun
  exact .step hrun hk

theorem run_errorAt (src : Text) (phase : Phase) (offset : Nat) (cause : ParseCause) (k : Nat) :
    (errorAt src phase offset cause : Cursor Report α).run k =
      throw (.refused (ParseError.report src ⟨phase, cause, offset⟩)) := by
  rw [errorAt, StateT.run_bind, Reactive.Cursor.run_place, pure_bind, StateT.run_bind,
    Reactive.Cursor.run_frame, pure_bind]
  rfl

theorem twin_errorAt {phase : Phase} {offset : Nat} {cause : ParseCause} :
    Twin (ParseError.report src) all (errorAt src phase offset cause) i
      (.error ⟨phase, cause, offset⟩ : Except ParseError { y : β × List Token // P y }) :=
  run_errorAt src phase offset cause i

theorem checks_expr (phase : Phase) (source : Text) (offset : Nat) :
    Checks src (checkExpr src phase source offset) (NodeParser.checkSource phase source offset) := by
  intro k
  rw [checkExpr, StateT.run_bind, Reactive.Cursor.run_own (Reactive.Cursor.answer_parseExpr source),
    pure_bind, NodeParser.checkSource]
  cases Expr.parse source with
  | error e => exact run_errorAt _ _ _ _ _
  | ok e => rfl

theorem Checks.map {f : α → β} {o : Except ParseError α} (hx : Checks src x o) :
    Checks src (x >>= fun a => pure (f a)) (o.map f) := by
  intro k
  rw [StateT.run_bind, hx k]
  cases o <;> rfl

theorem checks_fail {phase : Phase} {t : Token} {cause : ParseCause} :
    Checks src (errorAt src phase t.start cause : Cursor Report α) (NodeParser.fail phase t cause) :=
  run_errorAt src phase t.start cause

theorem checks_pure (a : α) : Checks src (pure a) (.ok a) := fun _ => rfl

theorem checks_condition (t : Token) :
    Checks src (checkCondition src t) (NodeParser.checkCondition t) := by
  rw [checkCondition, NodeParser.checkCondition]
  split
  · exact checks_fail
  · exact checks_expr _ _ _

theorem checks_head (t : Token) : Checks src (checkHead src t) (NodeParser.loopHead t) := by
  rw [checkHead, NodeParser.loopHead]
  cases EachHead.ofText? t.value with
  | none => exact checks_fail
  | some head => exact (checks_expr _ _ _).map

/-- An expression that is there is checked before something is made of it. -/
theorem checks_guarded (missing : Bool) {phase : Phase} {t : Token} {cause : ParseCause}
    {source : Text} {offset : Nat} (a : α) :
    Checks src (if missing then errorAt src phase t.start cause else do
        checkExpr src phase source offset
        pure a)
      (if missing then NodeParser.fail phase t cause
        else (NodeParser.checkSource phase source offset).map fun _ => a) := by
  cases missing with
  | true => exact checks_fail
  | false => exact (checks_expr _ _ _).map

theorem checks_attr (name v : Token) :
    Checks src (attrOf src name v) (NodeParser.attrValue name v) := by
  rw [NodeParser.attrValue]
  split
  · rename_i hkind
    simp only [attrOf, hkind]
    split
    · exact checks_guarded _ _
    · exact checks_pure _
  · rename_i hkind
    simp only [attrOf, hkind]
    exact checks_guarded _ _
  · rename_i hkind
    simp only [attrOf, hkind]
    exact checks_guarded _ _
  · simp only [attrOf]
    exact checks_fail

theorem checks_mustache (t : Token) :
    Checks src (mustacheOf src t) (NodeParser.mustache t) :=
  checks_guarded _ _

end

/-! ### Tags -/

section

variable {src : Text} {all ts r : List Token} {t : Token} {i : Nat}

theorem run_look (h : At all i ts) :
    (look (all ++ [Token.eof src]) : Cursor Report Token).run i =
      pure (NodeParser.cur (Token.eof src) ts, i) :=
  h.run_look

theorem run_look_cons (h : At all i (t :: r)) :
    (look (all ++ [Token.eof src]) : Cursor Report Token).run i = pure (t, i) :=
  h.run_look

theorem run_look_nil (h : At all i []) :
    (look (all ++ [Token.eof src]) : Cursor Report Token).run i = pure (Token.eof src, i) :=
  h.run_look

theorem twin_take {β : Type} {P : β × List Token → Prop} {k : Token → Cursor Report β}
    {o : Except ParseError { y : β × List Token // P y }} (h : At all i (t :: r))
    (hk : At all (i + 1) r → Twin (ParseError.report src) all (k t) (i + 1) o) :
    Twin (ParseError.report src) all (take (all ++ [Token.eof src]) >>= k) i o :=
  Agrees.step h.run_take (Nat.le_succ i) (hk h.cons)

theorem twin_namedAttr {name : Token} (h : At all i (name :: ts)) :
    Twin (ParseError.report src) all (parseAttr src (all ++ [Token.eof src])) i
      (NodeParser.namedAttr (Token.eof src) name ts) := by
  rw [parseAttr]
  refine twin_take h fun hr => ?_
  cases ts with
  | nil =>
    refine .step (run_look_nil hr) ?_
    exact .ok hr
  | cons t r =>
    refine .step (run_look_cons hr) ?_
    rw [NodeParser.namedAttr]
    by_cases ht : t.kind = .equals
    · rw [if_pos ht, if_pos ht]
      refine twin_take hr fun hr => ?_
      cases r with
      | nil =>
        refine .step hr.run_take_end ?_
        exact run_errorAt _ _ _ _ _
      | cons v r =>
        refine twin_take hr fun hr => ?_
        have hattr : Checks src (attrOf src name v) _ := checks_attr name v
        replace hattr := hattr (i + 1 + 1 + 1)
        simp only [NodeParser.cur, List.headD_cons]
        cases ho : NodeParser.attrValue name v with
        | error e =>
          rw [ho] at hattr
          exact hattr
        | ok a =>
          rw [ho] at hattr
          exact ⟨_, Nat.le_refl _, hr, hattr⟩
    · rw [if_neg ht, if_neg ht]
      exact .ok hr

theorem twin_attributes {tag : Text} (h : At all i ts) :
    Twin (ParseError.report src) all (attrLoop src (all ++ [Token.eof src]) tag) i
      (NodeParser.attributes (Token.eof src) tag ts) := by
  fun_induction NodeParser.attributes (Token.eof src) tag ts generalizing i with
  | case1 =>
    rw [attrLoop]
    refine .step (run_look_nil h) ?_
    exact twin_errorAt
  | case2 t r ht | case3 t r ht =>
    rw [attrLoop]
    refine .step (run_look_cons h) ?_
    simp only [ht]
    exact twin_take h fun hr => .ok hr
  | case4 t r ht e he =>
    rw [attrLoop]
    refine .step (run_look_cons h) ?_
    simp only [ht]
    exact (twin_namedAttr h).bind_error he
  | case5 t r ht a r' hr' ha e he ih =>
    rw [attrLoop]
    refine .step (run_look_cons h) ?_
    simp only [ht]
    exact (twin_namedAttr h).bind ha fun j _ hj => (ih hj).bind_error he
  | case6 t r ht a r' hr' ha as closed r'' hr'' he ih =>
    rw [attrLoop]
    refine .step (run_look_cons h) ?_
    simp only [ht]
    exact (twin_namedAttr h).bind ha fun j _ hj => (ih hj).bind he fun j _ hj => .ok hj
  | case7 t r ht hident e he ih =>
    rw [attrLoop]
    refine .step (run_look_cons h) ?_
    simp only [ht]
    rw [if_pos hident]
    exact twin_take h fun hr => (ih hr).bind_error he
  | case8 t r ht hident as closed r' hr' he ih =>
    rw [attrLoop]
    refine .step (run_look_cons h) ?_
    simp only [ht]
    rw [if_pos hident]
    exact twin_take h fun hr => (ih hr).bind he fun j _ hj => .ok hj
  | case9 t r ht hident =>
    rw [attrLoop]
    refine .step (run_look_cons h) ?_
    simp only [ht]
    rw [if_neg hident]
    exact twin_take h fun hr => twin_errorAt
  | case10 t r =>
    rw [attrLoop]
    refine .step (run_look_cons h) ?_
    simp only
    exact twin_errorAt

theorem twin_closingTag (hproper : ∀ t ∈ all, t.kind ≠ .eof) {phase : Phase} {start : Nat}
    {tag : Text} (h : At all i ts) :
    Twin (ParseError.report src) all (expectClose src (all ++ [Token.eof src]) phase start tag) i
      (NodeParser.closingTag phase (Token.eof src) start tag ts) := by
  cases ts with
  | nil =>
    rw [expectClose]
    refine .step (run_look_nil h) ?_
    exact twin_errorAt
  | cons t r =>
    rw [NodeParser.closingTag]
    split
    · rename_i ht
      rw [expectClose]
      refine .step (run_look_cons h) ?_
      simp only [ht]
      refine twin_take h fun hr => .step (run_look hr) ?_
      split
      · rename_i hname
        cases r with
        | nil => cases hname
        | cons name r =>
          refine twin_take hr fun hr => .step (run_look hr) ?_
          simp only [List.drop_one, List.tail_cons]
          split
          · rename_i hstop
            cases r with
            | nil => cases hstop
            | cons stop r => exact twin_take hr fun hr => .ok hr
          · exact twin_errorAt
      · exact twin_errorAt
    · rename_i ht
      rw [expectClose]
      refine .step (run_look_cons h) ?_
      split
      · exact absurd ‹_› (hproper t h.mem)
      · exact absurd ‹_› ht
      · exact twin_errorAt

/-! ### Nodes -/

/-- The program comes to the same outcomes as the parser of a level. -/
def Follows (src : Text) (all : List Token) {n : Nat} (L : Level n) : Prop :=
  ∀ phase {ts i} (h : ts.length < n), At all i ts →
    Twin (ParseError.report src) all (parseNodes src (all ++ [Token.eof src]) phase) i
      (L phase (Token.eof src) ts h)

variable {n : Nat} {L : Level n} (hL : Follows src all L) (hproper : ∀ t ∈ all, t.kind ≠ .eof)

include hL hproper

theorem twin_body {start : Nat} {tag : Text} (h : ts.length < n) (hi : At all i ts) :
    Twin (ParseError.report src) all (parseBody src (all ++ [Token.eof src]) start tag) i
      (NodeParser.elementBody L (Token.eof src) start tag ts h) := by
  rw [parseBody]
  unfold NodeParser.elementBody
  by_cases hraw : Scanner.isRawTextTag tag = true
  · rw [if_pos hraw, if_pos hraw]
    cases ts with
    | nil =>
      have hchild : (rawChild (all ++ [Token.eof src])).run i = pure ([], i) := by
        rw [rawChild, StateT.run_bind, run_look_nil hi]
        rfl
      refine .step hchild ?_
      simp only
      split
      · rename_i he
        exact (twin_closingTag hproper hi).bind_error he
      · rename_i he
        exact (twin_closingTag hproper hi).bind he fun j _ hj => .ok hj
    | cons t r =>
      simp only
      by_cases ht : t.kind = .raw
      · have hchild : (rawChild (all ++ [Token.eof src])).run i =
            pure ([.text t.start t.value], i + 1) := by
          rw [rawChild, StateT.run_bind, run_look_cons hi, pure_bind, if_pos ht, StateT.run_bind,
            hi.run_take]
          rfl
        rw [if_pos ht]
        refine Agrees.step hchild (Nat.le_succ i) ?_
        split
        · rename_i he
          exact (twin_closingTag hproper hi.cons).bind_error he
        · rename_i he
          exact (twin_closingTag hproper hi.cons).bind he fun j _ hj => .ok hj
      · have hchild : (rawChild (all ++ [Token.eof src])).run i = pure ([], i) := by
          rw [rawChild, StateT.run_bind, run_look_cons hi, pure_bind, if_neg ht]
          rfl
        rw [if_neg ht]
        refine .step hchild ?_
        split
        · rename_i he
          exact (twin_closingTag hproper hi).bind_error he
        · rename_i he
          exact (twin_closingTag hproper hi).bind he fun j _ hj => .ok hj
  · rw [if_neg hraw, if_neg hraw]
    split
    · rename_i he
      exact (hL .children h hi).bind_error he
    rename_i children r hr he
    refine (hL .children h hi).bind he fun j _ hj => ?_
    split
    · rename_i he
      exact (twin_closingTag hproper hj).bind_error he
    · rename_i he
      exact (twin_closingTag hproper hj).bind he fun j _ hj => .ok hj

theorem twin_element {t : Token} (h : ts.length < n) (hi : At all i (t :: ts)) :
    Twin (ParseError.report src) all (parseElement src (all ++ [Token.eof src])) i
      (NodeParser.element L (Token.eof src) t.start ts h) := by
  rw [parseElement]
  refine twin_take hi fun hr => ?_
  unfold NodeParser.element
  split
  · refine .step (run_look_nil hr) ?_
    exact twin_errorAt
  rename_i name r h
  refine .step (run_look_cons hr) ?_
  simp only
  by_cases hname : name.kind = .name
  · rw [if_pos hname, if_pos hname]
    refine twin_take hr fun hr => ?_
    split
    · rename_i he
      exact (twin_attributes hr).bind_error he
    rename_i attrs closed r₁ h₁ he
    refine (twin_attributes hr).bind he fun j _ hj => ?_
    by_cases hclosed : (closed || isVoid (Text.lower name.value)) = true
    · simp only [if_pos hclosed]
      exact .ok hj
    · simp only [if_neg hclosed]
      split
      · rename_i he
        exact (twin_body hL hproper _ hj).bind_error he
      · rename_i he
        exact (twin_body hL hproper _ hj).bind he fun j _ hj => .ok hj
  · rw [if_neg hname, if_neg hname]
    exact twin_errorAt

theorem twin_branches {phase : Phase} {start : Nat} {otherwise : Otherwise} (h : ts.length < n)
    (hi : At all i ts) :
    Twin (ParseError.report src) all
      (branchLoop src (all ++ [Token.eof src]) phase start otherwise) i
      (NodeParser.branches L phase (Token.eof src) start otherwise ts h) := by
  fun_induction NodeParser.branches L phase (Token.eof src) start otherwise ts h generalizing i with
  | case1 =>
    rw [branchLoop]
    refine .step (run_look_nil hi) ?_
    exact twin_errorAt
  | case2 t r h hr ht =>
    rw [branchLoop]
    refine .step (run_look_cons hi) ?_
    simp only [ht]
    exact twin_errorAt
  | case3 t r h hr ht e hcond =>
    rw [branchLoop]
    refine .step (run_look_cons hi) ?_
    simp only [ht]
    exact twin_take hi fun _ => (checks_condition t).bind_error hcond
  | case4 t r h hr ht _ hcond e he =>
    rw [branchLoop]
    refine .step (run_look_cons hi) ?_
    simp only [ht]
    exact twin_take hi fun hi => (checks_condition t).bind hcond ((hL .children hr hi).bind_error he)
  | case5 t r h hr ht _ hcond children r₁ h₁ he e hrest _ ih =>
    rw [branchLoop]
    refine .step (run_look_cons hi) ?_
    simp only [ht]
    refine twin_take hi fun hi => (checks_condition t).bind hcond ?_
    exact (hL .children hr hi).bind he fun j _ hj => (ih hj).bind_error hrest
  | case6 t r h hr ht _ hcond children r₁ h₁ he bs o r₂ h₂ hrest _ ih =>
    rw [branchLoop]
    refine .step (run_look_cons hi) ?_
    simp only [ht]
    refine twin_take hi fun hi => (checks_condition t).bind hcond ?_
    exact (hL .children hr hi).bind he fun j _ hj => (ih hj).bind hrest fun j _ hj => .ok hj
  | case7 t r h hr ht =>
    rw [branchLoop]
    refine .step (run_look_cons hi) ?_
    simp only [ht]
    exact twin_errorAt
  | case8 t r h hr ht e he =>
    rw [branchLoop]
    refine .step (run_look_cons hi) ?_
    simp only [ht]
    exact twin_take hi fun hi => (hL .children hr hi).bind_error he
  | case9 t r h hr ht children r₁ h₁ he e hrest _ ih =>
    rw [branchLoop]
    refine .step (run_look_cons hi) ?_
    simp only [ht]
    refine twin_take hi fun hi => (hL .children hr hi).bind he fun j _ hj => ?_
    have hlast := ih hj
    rw [hrest] at hlast
    exact hlast
  | case10 t r h hr ht children r₁ h₁ he x r₂ h₂ hrest _ ih =>
    rw [branchLoop]
    refine .step (run_look_cons hi) ?_
    simp only [ht]
    refine twin_take hi fun hi => (hL .children hr hi).bind he fun j _ hj => ?_
    have hlast := ih hj
    rw [hrest] at hlast
    exact hlast
  | case11 otherwise t r h hr ht =>
    rw [branchLoop]
    refine .step (run_look_cons hi) ?_
    simp only [ht]
    exact twin_take hi fun hi => .ok hi
  | case12 otherwise t r h hr =>
    have heof : t.kind ≠ .eof := hproper t hi.mem
    rw [branchLoop]
    refine .step (run_look_cons hi) ?_
    simp only
    exact twin_errorAt

theorem twin_choice {phase : Phase} {t : Token} (h : ts.length < n) (hi : At all i (t :: ts)) :
    Twin (ParseError.report src) all (parseIf src (all ++ [Token.eof src]) phase) i
      (NodeParser.choice L phase (Token.eof src) t ts h) := by
  rw [parseIf]
  refine twin_take hi fun hi => ?_
  unfold NodeParser.choice
  split
  · rename_i hcond
    exact (checks_condition t).bind_error hcond
  rename_i hcond
  refine (checks_condition t).bind hcond ?_
  split
  · rename_i he
    exact (hL .children h hi).bind_error he
  rename_i children r h₁ he
  refine (hL .children h hi).bind he fun j _ hj => ?_
  split
  · rename_i he
    exact (twin_branches hL hproper _ hj).bind_error he
  · rename_i he
    exact (twin_branches hL hproper _ hj).bind he fun j _ hj => .ok hj

theorem twin_loop {phase : Phase} {t : Token} (h : ts.length < n) (hi : At all i (t :: ts)) :
    Twin (ParseError.report src) all (parseEach src (all ++ [Token.eof src]) phase) i
      (NodeParser.loop L phase (Token.eof src) t ts h) := by
  rw [parseEach]
  refine twin_take hi fun hi => ?_
  unfold NodeParser.loop
  split
  · rename_i hhead
    exact (checks_head t).bind_error hhead
  rename_i head hhead
  refine (checks_head t).bind hhead ?_
  split
  · rename_i he
    exact (hL .children h hi).bind_error he
  · rename_i he
    refine (hL .children h hi).bind he fun j _ hj => .step (run_look_nil hj) ?_
    exact twin_errorAt
  · rename_i children u r h₁ he
    refine (hL .children h hi).bind he fun j _ hj => .step (run_look_cons hj) ?_
    by_cases hu : u.kind = .eachClose
    · simp only [hu]
      exact twin_take hj fun hj => .ok hj
    · have heof : u.kind ≠ .eof := hproper u hj.mem
      rw [if_neg hu]
      simp only
      exact twin_errorAt

theorem twin_node {phase : Phase} {t : Token} (h : ts.length < n) (hi : At all i (t :: ts)) :
    Twin (ParseError.report src) all (parseNode src (all ++ [Token.eof src]) phase) i
      (NodeParser.node L phase (Token.eof src) t ts h) := by
  unfold NodeParser.node
  simp only
  split
  case h_1 ht | h_2 ht | h_3 ht =>
    rw [parseNode]
    refine .step (run_look_cons hi) ?_
    simp only [ht]
    exact twin_take hi fun hi => .ok hi
  case h_4 ht =>
    rw [parseNode]
    refine .step (run_look_cons hi) ?_
    simp only [ht]
    refine twin_take hi fun hi => ?_
    have hrun : Checks src (mustacheOf src t) _ := checks_mustache t
    replace hrun := hrun (i + 1)
    cases hmustache : NodeParser.mustache t with
    | error e =>
      rw [hmustache] at hrun
      exact hrun
    | ok x =>
      rw [hmustache] at hrun
      exact ⟨i + 1, Nat.le_refl _, hi, hrun⟩
  case h_5 ht =>
    rw [parseNode]
    refine .step (run_look_cons hi) ?_
    simp only [ht]
    exact twin_choice hL hproper h hi
  case h_6 ht =>
    rw [parseNode]
    refine .step (run_look_cons hi) ?_
    simp only [ht]
    exact twin_loop hL hproper h hi
  case h_7 ht =>
    rw [parseNode]
    refine .step (run_look_cons hi) ?_
    simp only [ht]
    exact twin_element hL hproper h hi
  case h_8 =>
    rw [parseNode]
    refine .step (run_look_cons hi) ?_
    simp only
    exact twin_errorAt

end

section

variable {src : Text} {all ts r : List Token} {t : Token} {i : Nat}
  (hproper : ∀ t ∈ all, t.kind ≠ .eof)

include hproper

theorem twin_nodes {phase : Phase} {L : Level ts.length} (hL : Follows src all L)
    (hi : At all i ts) :
    Twin (ParseError.report src) all (parseNodes src (all ++ [Token.eof src]) phase) i
      (NodeParser.nodes phase (Token.eof src) ts L) := by
  rw [parseNodes]
  cases ts with
  | nil =>
    refine .step (run_look_nil hi) ?_
    exact .ok hi
  | cons t r =>
    refine .step (run_look_cons hi) ?_
    unfold NodeParser.nodes
    by_cases hcloses : NodeParser.closes t.kind = true
    · simp only [if_pos hcloses]
      exact .ok hi
    simp only [if_neg hcloses]
    split
    · rename_i he
      exact (twin_node hL hproper _ hi).bind_error he
    rename_i x r₁ h₁ he
    refine (twin_node hL hproper _ hi).bind he fun j _ hj => ?_
    split
    · rename_i he
      exact (hL phase _ hj).bind_error he
    · rename_i he
      exact (hL phase _ hj).bind he fun j _ hj => .ok hj

/-- The program comes to the same outcomes as the parsers of every level. -/
theorem follows_level (n : Nat) : Follows src all (NodeParser.level n) := by
  induction n using Nat.strongRecOn with
  | ind n ih =>
    intro phase ts i h hi
    rw [NodeParser.level]
    exact twin_nodes hproper (ih ts.length h) hi

omit hproper in
theorem run_strayCloser {α : Type} (hi : At all i (t :: r)) :
    (strayCloser src (all ++ [Token.eof src]) t : Cursor Report α).run i =
      throw (.refused ((NodeParser.stray (Token.eof src) t r).report src)) := by
  rw [strayCloser, NodeParser.stray]
  split
  · rw [StateT.run_bind, hi.cons.run_lookAhead rfl, pure_bind, run_errorAt]
    simp only [*]
    rfl
  all_goals simp only [run_errorAt, *]

/-- What the program makes of tokens before the one at the end. -/
theorem answer_parseEnded :
    (parseEnded src (all ++ [Token.eof src])).answer =
      some ((Node.ofTokens (Token.eof src) all).mapError fun e => .refused (e.report src)) := by
  have hnodes : Twin (ParseError.report src) all
      (parseNodes src (all ++ [Token.eof src]) .top) 0
      (NodeParser.nodes .top (Token.eof src) all (NodeParser.level _)) :=
    twin_nodes hproper (follows_level hproper _) (At.front all)
  rw [Node.ofTokens]
  cases ho : NodeParser.nodes .top (Token.eof src) all (NodeParser.level _) with
  | error e =>
    rw [ho] at hnodes
    exact Reactive.Cursor.answer_error (Agrees.bind_error hnodes)
  | ok y =>
    obtain ⟨⟨xs, r⟩, hr⟩ := y
    rw [ho] at hnodes
    obtain ⟨j, -, hj, hrun⟩ := hnodes
    cases r with
    | nil =>
      refine Reactive.Cursor.answer_ok (j := j) ?_
      rw [parseEnded, StateT.run_bind, hrun, pure_bind, StateT.run_bind, run_look_nil hj, pure_bind]
      rfl
    | cons t r =>
      refine Reactive.Cursor.answer_error ?_
      rw [parseEnded, StateT.run_bind, hrun, pure_bind, StateT.run_bind, run_look_cons hj, pure_bind,
        if_neg (hproper t hj.mem)]
      exact run_strayCloser hj

/-- Tokens with no end get one. -/
theorem run_ended (k : Nat) :
    (ended src all).run k = pure (all ++ [Token.eof src], k) := by
  rw [ended]
  by_cases hempty : all.length = 0
  · rw [if_pos hempty]
    rfl
  have hlast : all[all.length - 1]? = some all[all.length - 1] := List.getElem?_eq_getElem _
  have hitem : (item all (all.length - 1) : Cursor Report Token).run k =
      pure (all[all.length - 1], k) := by
    rw [item, hlast]
    rfl
  rw [if_neg hempty, StateT.run_bind, hitem, pure_bind, if_neg (hproper _ (List.getElem_mem _))]
  rfl

omit hproper in
/-- Tokens with an end keep it. -/
theorem run_ended_eof (k : Nat) :
    (ended src (all ++ [Token.eof src])).run k = pure (all ++ [Token.eof src], k) := by
  have hat : At all all.length [] := ⟨Nat.le_refl _, List.drop_length⟩
  have hlen : (all ++ [Token.eof src]).length = all.length + 1 := Reactive.Cursor.length_before _ _
  rw [ended, if_neg (by omega), hlen, Nat.add_sub_cancel, StateT.run_bind, hat.run_token, pure_bind]
  rfl

theorem answer_parse {toks : List Token} (h : toks = all ∨ toks = all ++ [Token.eof src]) :
    (parse src toks).answer =
      some ((Node.ofTokens (Token.eof src) all).mapError fun e => .refused (e.report src)) := by
  have hended : (ended src toks).run 0 = pure (all ++ [Token.eof src], 0) := by
    obtain rfl | rfl := h
    · exact run_ended hproper 0
    · exact run_ended_eof 0
  have hrun : (parse src toks).run 0 = (parseEnded src (all ++ [Token.eof src])).run 0 := by
    rw [parse, StateT.run_bind, hended, pure_bind]
  rw [← answer_parseEnded hproper]
  exact congrArg (fun x : ExceptT (Stop Report) Option (List Node × Nat) => (Prod.fst <$> x).run) hrun

end

/-- The tokens of a template, less some at the front and at the end, have the one at its end after
them or no such token. -/
theorem slice_ended (ts : List Token) (eof : Token) (m n : Nat) :
    ((ts ++ [eof]).drop m).take n = (ts.drop m).take n ∨
      ((ts ++ [eof]).drop m).take n = (ts.drop m).take n ++ [eof] := by
  by_cases hm : m ≤ ts.length
  · rw [List.drop_append_of_le_length hm]
    by_cases hn : n ≤ (ts.drop m).length
    · exact .inl (List.take_append_of_le_length hn)
    · have hall : (ts.drop m ++ [eof]).length ≤ n := by
        rw [List.length_append, List.length_singleton]
        omega
      rw [List.take_of_length_le hall, List.take_of_length_le (by omega)]
      exact .inr rfl
  · refine .inl ?_
    rw [List.drop_of_length_le (by rw [List.length_append, List.length_singleton]; omega),
      List.drop_of_length_le (by omega)]

/-- No token of a template but the last one is of the kind of its end. -/
theorem proper_scan {src : Text} {ts : List Token} (h : Token.scan src.length .data src = .ok ts) :
    ∀ t ∈ ts, t.kind ≠ .eof := by
  intro t ht heof
  obtain ⟨tiles, rfl, htiles⟩ := tiles_scan h
  obtain ⟨tile, htile, rfl⟩ := List.mem_map.1 ht
  obtain ⟨⟨before, after, -, -, hwritten⟩, -⟩ :=
    htiles.placed (List.nil_append src).symm tile htile
  rw [heof] at hwritten
  cases hwritten

end NodeCursor

/-- **Every reader of a source ends.**  The programs that read expressions, programs and templates at a
position call each other where they stand and start anew in the literals of a source, and nothing in
their definition says that they end or where they look.  Each of them comes to an end on every source,
and the parser of templates on every part of the tokens of one: with what the source spells, or with a
failure to read it, and never by a look outside of the source or of its tokens. -/
theorem parsers_total (src : Text) :
    (Reactive.Cursor.tokenize src 0).answer =
      some (((Reactive.Token.ofSource 0 src).map fun r => r.1 ++ [r.2]).mapError .refused) ∧
    (Reactive.Cursor.parseExpr src).answer = some ((Expr.parse src).mapError .refused) ∧
    (Reactive.Cursor.parseProgram src).answer = some ((Stmt.parseProgram src).mapError .refused) ∧
    ∀ ts, Token.scan src.length .data src = .ok ts → ∀ m n,
      (NodeCursor.parse src (((ts ++ [Token.eof src]).drop m).take n)).answer =
        some ((Node.ofTokens (Token.eof src) ((ts.drop m).take n)).mapError
          fun e => .refused (e.report src)) := by
  refine ⟨Reactive.Cursor.answer_tokenize src 0, Reactive.Cursor.answer_parseExpr src,
    Reactive.Cursor.answer_parseProgram src, fun ts hscan m n => ?_⟩
  refine NodeCursor.answer_parse (fun t ht => ?_) (NodeCursor.slice_ended ts _ m n)
  exact NodeCursor.proper_scan hscan t (List.mem_of_mem_drop (List.mem_of_mem_take ht))

end Reactive.Template
