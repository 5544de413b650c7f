/-
The trees that are read at a position.

The parser at a position agrees with the parser of token lists, function by
function.  The latter are defined by the weight of the tokens that are left, so
the agreement goes by induction on a bound of it; what is on the way, a function
that calls another one at the same position or a loop, is a case of that.

* `Follows` — agreement below a weight;
* `follows_level` — the parsers of every weight;
* `answer_parseExpr`, `answer_parseProgram` — whole sources.
-/
import Reactive.Proofs.Cursor.Tape

namespace Reactive

open Reactive.Parser (Source Outcome Level)
open Token (weight)

namespace Cursor

open Tape
open Text (parseExprAt)

/-! ### Expressions -/

/-- The program comes to the same outcomes as the parsers of a level. -/
structure Follows {n : Nat} (L : Level n) : Prop where
  assignment : ∀ {c all ts i} (h : weight ts < n), Laid c all → At all i ts →
    Twin id all (parseAssignment (tape c all)) i (L.assignment c ts h)
  binary : ∀ {c all} least {ts i} (h : weight ts < n), Laid c all → At all i ts →
    Twin id all (parseBinary (tape c all) least) i (L.binary c least ts h)
  unary : ∀ {c all ts i} (h : weight ts < n), Laid c all → At all i ts →
    Twin id all (parseUnary (tape c all)) i (L.unary c ts h)
  statement : ∀ {c all ts i} (h : weight ts < n), Laid c all → At all i ts →
    Twin id all (parseStatement (tape c all)) i (L.statement c ts h)

section

variable {n : Nat} {L : Level n} (hL : Follows L)

include hL

theorem run_templateExprs {d : Tape} {parts : List Interpolation} (h : Lexer.partsLength parts < n)
    (k : Nat) :
    (templateExprs d parts).run k =
      match Parser.interpolations L parts h with
      | .error e => throw (.refused e)
      | .ok es => pure (es, k) := by
  fun_induction Parser.interpolations L parts h with
  | case1 h =>
    rw [templateExprs]
    rfl
  | case2 p r h hp e hs =>
    rw [templateExprs, StateT.run_bind, run_parseExprAt_error hs]
    rfl
  | case3 p r h hp eof hs =>
    rw [templateExprs, StateT.run_bind, run_parseExprAt_empty hs]
    rfl
  | case4 p r h hp t ts eof hs c hw e ho =>
    have hrun := run_parseExprAt_tokens hs _ k (hL.assignment hw (laid_ofSource hs) (At.front _))
    rw [templateExprs, StateT.run_bind, hrun, ho]
    rfl
  | case5 p r h hp t ts eof hs c hw e u us hu ho =>
    have hrun := run_parseExprAt_tokens hs _ k (hL.assignment hw (laid_ofSource hs) (At.front _))
    rw [templateExprs, StateT.run_bind, hrun, ho]
    rfl
  | case6 p r h hp t ts eof hs c hw e he ho e' hr ih =>
    have hrun := run_parseExprAt_tokens hs _ k (hL.assignment hw (laid_ofSource hs) (At.front _))
    rw [templateExprs, StateT.run_bind, hrun, ho]
    simp only
    rw [pure_bind, StateT.run_bind, ih, hr]
    rfl
  | case7 p r h hp t ts eof hs c hw e he ho es hr ih =>
    have hrun := run_parseExprAt_tokens hs _ k (hL.assignment hw (laid_ofSource hs) (At.front _))
    rw [templateExprs, StateT.run_bind, hrun, ho]
    simp only
    rw [pure_bind, StateT.run_bind, ih, hr]
    rfl

variable {c : Source} {all ts : List Token} {i : Nat} (hc : Laid c all)

include hc

theorem twin_element (h : weight ts < n) (hi : At all i ts) :
    Twin id all (parseElement (tape c all)) i (Parser.element L c ts h) := by
  unfold Parser.element
  split
  · rename_i t r _ _
    rw [parseElement]
    simp only
    split
    · rename_i ht
      exact .isOp hi (fun _ => .advance hi fun hr => (hL.assignment _ hc hr).map.widen _)
        fun hne => absurd ht hne
    · rename_i ht
      exact .isOp hi (fun hp => absurd hp ht) fun _ => hL.assignment _ hc hi
  · rw [parseElement]
    exact .isOp hi (fun hp => absurd hp (not_mark_nil hc)) fun _ => hL.assignment _ hc hi

theorem twin_elementLoop (close : Punct) (h : weight ts < n) (hi : At all i ts) :
    Twin id all (elementLoop (tape c all) close) i (Parser.elements L c close ts h) := by
  fun_induction Parser.elements L c close ts h generalizing i with
  | case1 ts h hmark =>
    rw [elementLoop]
    exact .isOp hi (fun _ => (twin_expect hc hi close).map)
      fun hne => absurd (mark_of_isMark hc hmark) hne
  | case2 ts h hmark e he =>
    rw [elementLoop]
    exact .isOp hi (fun hp => absurd hp (no_mark_of_isMark hc hmark))
      fun _ => (twin_element hL hc h hi).bind_error he
  | case3 ts h hmark e t r hr he hr' hcomma ih =>
    rw [elementLoop]
    refine .isOp hi (fun hp => absurd hp (no_mark_of_isMark hc hmark))
      fun _ => (twin_element hL hc h hi).bind he fun j _ hj => ?_
    exact .isOp hj (fun _ => .advance hj fun hnext => (ih hnext).map.widen _)
      fun hne => absurd hcomma hne
  | case4 ts h hmark e t r hr he hr' hcomma =>
    rw [elementLoop]
    refine .isOp hi (fun hp => absurd hp (no_mark_of_isMark hc hmark))
      fun _ => (twin_element hL hc h hi).bind he fun j _ hj => ?_
    exact .isOp hj (fun hp => absurd hp hcomma) fun _ => (twin_expect hc hj close).map.widen _
  | case5 ts h hmark e hr he =>
    rw [elementLoop]
    refine .isOp hi (fun hp => absurd hp (no_mark_of_isMark hc hmark))
      fun _ => (twin_element hL hc h hi).bind he fun j _ hj => ?_
    exact .isOp hj (fun hp => absurd hp (not_mark_nil hc))
      fun _ => (twin_expect hc hj close).bind_error rfl

theorem twin_elements {t : Token} (close : Punct) (h : weight ts < n) (hi : At all i (t :: ts)) :
    Twin id all (parseElements (tape c all) close) i (Parser.elements L c close ts h) := by
  rw [parseElements]
  exact .advance hi fun hr => twin_elementLoop hL hc close h hr

theorem twin_closed (close : Punct) (h : weight ts < n) (hi : At all i ts) :
    Twin id all (parseClosed (tape c all) close) i (Parser.enclosed L c close ts h) := by
  rw [parseClosed]
  unfold Parser.enclosed
  split
  · rename_i he
    exact (hL.assignment _ hc hi).bind_error he
  · rename_i he
    exact (hL.assignment _ hc hi).bind he fun j _ hj => (twin_expect hc hj close).map.widen _

theorem twin_enclosed {t : Token} (close : Punct) (h : weight ts < n) (hi : At all i (t :: ts)) :
    Twin id all (parseEnclosed (tape c all) close) i (Parser.enclosed L c close ts h) := by
  rw [parseEnclosed]
  exact .advance hi fun hr => twin_closed hL hc close h hr

theorem twin_property (h : weight ts < n) (hi : At all i ts) :
    Twin id all (parseProperty (tape c all)) i (Parser.property L c ts h) := by
  unfold Parser.property
  split
  · rw [parseProperty]
    refine .cur_nil hi ?_
    simp only [hc.eof]
    exact .refuse [] hc.eof .noPropertyName
  rename_i t r _
  simp only
  split
  · rename_i hname
    rw [parseProperty]
    refine .cur_cons hi ?_
    simp only [hname]
    exact .refuse (t :: r) rfl .noPropertyName
  rename_i key isIdent hname
  rw [parseProperty]
  refine .cur_cons hi ?_
  simp only [hname]
  refine .advance hi fun hr => ?_
  cases r with
  | nil =>
    refine .isOp hr (fun hp => absurd hp (not_mark_nil hc)) fun _ => ?_
    simp only
    split
    · exact .ok hr
    · exact .error
  | cons u r' =>
    simp only
    by_cases hu : u.lexeme = .punct .colon
    · rw [if_pos hu]
      exact .isOp hr (fun _ => .advance hr fun hr' => (hL.assignment _ hc hr').map.widen _)
        fun hne => absurd hu hne
    · rw [if_neg hu]
      refine .isOp hr (fun hp => absurd hp hu) fun _ => ?_
      split
      · exact .ok hr
      · exact .error

theorem twin_properties (h : weight ts < n) (hi : At all i ts) :
    Twin id all (objectLoop (tape c all)) i (Parser.properties L c ts h) := by
  fun_induction Parser.properties L c ts h generalizing i with
  | case1 ts h hmark =>
    rw [objectLoop]
    exact .isOp hi (fun _ => (twin_expect hc hi .rbrace).map)
      fun hne => absurd (mark_of_isMark hc hmark) hne
  | case2 ts h hmark e he =>
    rw [objectLoop]
    exact .isOp hi (fun hp => absurd hp (no_mark_of_isMark hc hmark))
      fun _ => (twin_property hL hc h hi).bind_error he
  | case3 ts h hmark e t r hr he hr' hcomma ih =>
    rw [objectLoop]
    refine .isOp hi (fun hp => absurd hp (no_mark_of_isMark hc hmark))
      fun _ => (twin_property hL hc h hi).bind he fun j _ hj => ?_
    exact .isOp hj (fun _ => .advance hj fun hnext => (ih hnext).map.widen _)
      fun hne => absurd hcomma hne
  | case4 ts h hmark e t r hr he hr' hcomma =>
    rw [objectLoop]
    refine .isOp hi (fun hp => absurd hp (no_mark_of_isMark hc hmark))
      fun _ => (twin_property hL hc h hi).bind he fun j _ hj => ?_
    exact .isOp hj (fun hp => absurd hp hcomma) fun _ => (twin_expect hc hj .rbrace).map.widen _
  | case5 ts h hmark e hr he =>
    rw [objectLoop]
    refine .isOp hi (fun hp => absurd hp (no_mark_of_isMark hc hmark))
      fun _ => (twin_property hL hc h hi).bind he fun j _ hj => ?_
    exact .isOp hj (fun hp => absurd hp (not_mark_nil hc))
      fun _ => (twin_expect hc hj .rbrace).bind_error rfl

/-- A link after an expression is read before what comes after it. -/
theorem twin_link {e : Expr} {t : Token} {r : List Token} {h : weight (t :: r) < n}
    {o : Outcome Expr (weight (t :: r))} (ho : Parser.link? L c e t r h = some o)
    (hi : At all i (t :: r)) {m : Nat} {o' : Outcome Expr m}
    (hk : ∀ x, Twin id all x i o → Twin id all (x >>= postfixLoop (tape c all)) i o') :
    Twin id all (postfixLoop (tape c all) e) i o' := by
  have hmember (mark : Punct) (short : Bool) :
      Twin id all (advance (tape c all) >>= fun _ => memberName (tape c all) mark >>= fun name =>
        pure (.member e.pos e name short)) i
        (((Parser.memberName c mark r).map (Expr.member e.pos e · short)).widen
          (Nat.le_of_lt (Token.weight_lt_cons t r))) :=
    .advance hi fun hr => (twin_memberName hc hr mark).map.widen _
  unfold Parser.link? at ho
  simp only at ho
  split at ho
  · rename_i ht
    cases ho
    rw [postfixLoop]
    refine .cur_cons hi ?_
    simp only [ht]
    simpa only [bind_assoc, pure_bind] using hk _ (hmember .dot false)
  · rename_i ht
    rw [postfixLoop]
    refine .cur_cons hi ?_
    simp only [ht]
    refine .advance_cur hi ?_
    split at ho
    · rename_i u r' h hi hmember
      split at ho
      · rename_i hu
        cases ho
        have hlink := hk (do
          let _ ← advance (tape c all)
          let args ← parseElements (tape c all) .rparen
          pure (.call e.pos e args true))
          (.advance hi fun hr => (twin_elements hL hc .rparen _ hr).map.widen _)
        simp only [Source.cur, hu]
        simpa only [bind_assoc, pure_bind] using hlink
      · rename_i hu
        cases ho
        have hlink := hk (do
          let _ ← advance (tape c all)
          let key ← parseEnclosed (tape c all) .rbracket
          pure (.index e.pos e key true))
          (.advance hi fun hr => (twin_enclosed hL hc .rbracket _ hr).map.widen _)
        simp only [Source.cur, hu]
        simpa only [bind_assoc, pure_bind] using hlink
      · cases ho
        simp only [Source.cur]
        simpa only [bind_assoc, pure_bind] using hk _ (hmember .optional true)
    · cases ho
      simp only [Source.cur, hc.eof]
      simpa only [bind_assoc, pure_bind] using hk _ (hmember .optional true)
  · rename_i ht
    cases ho
    rw [postfixLoop]
    refine .cur_cons hi ?_
    simp only [ht]
    have hlink := hk (do
      let key ← parseEnclosed (tape c all) .rbracket
      pure (.index e.pos e key false))
      ((twin_enclosed hL hc .rbracket _ hi).map.widen _)
    simpa only [bind_assoc, pure_bind] using hlink
  · rename_i ht
    cases ho
    rw [postfixLoop]
    refine .cur_cons hi ?_
    simp only [ht]
    have hlink := hk (do
      let args ← parseElements (tape c all) .rparen
      pure (.call e.pos e args false))
      ((twin_elements hL hc .rparen _ hi).map.widen _)
    simpa only [bind_assoc, pure_bind] using hlink
  · cases ho

omit hL hc in
/-- An expression that no link follows ends here, or after an increment or decrement. -/
theorem twin_unlinked {e : Expr} {t : Token} {r : List Token} {h : weight (t :: r) < n}
    (ho : Parser.link? L c e t r h = none) (hi : At all i (t :: r)) {m : Nat}
    {o : Outcome Expr m}
    (hk : Twin id all (match t.lexeme with
      | .punct p =>
        match p.step? with
        | some op =>
          if t.newline then pure e
          else if e.isAssignable then do
            let _ ← advance (tape c all)
            pure (.step e.pos op false e)
          else refuseToken t .invalidUpdateTarget
        | none => pure e
      | _ => pure e) i o) :
    Twin id all (postfixLoop (tape c all) e) i o := by
  rw [postfixLoop]
  refine .cur_cons hi ?_
  unfold Parser.link? at ho
  split
  case h_2 ht =>
    simp only [ht] at ho
    cases r with
    | nil => cases ho
    | cons u r =>
      simp only at ho
      split at ho <;> cases ho
  case h_5 ht =>
    simp only [ht] at hk
    exact hk
  case h_6 hp =>
    split at hk
    · exact absurd ‹_› (hp _)
    · exact hk
  all_goals
    rename_i ht
    simp only [ht] at ho
    cases ho

theorem twin_postfixes {e : Expr} (h : weight ts < n) (hi : At all i ts) :
    Twin id all (postfixLoop (tape c all) e) i (Parser.postfixes L c e ts h) := by
  fun_induction Parser.postfixes L c e ts h generalizing i with
  | case1 e h =>
    rw [postfixLoop]
    refine .cur_nil hi ?_
    simp only [hc.eof]
    exact .ok hi
  | case2 e t r h hr err ho =>
    exact twin_link hL hc ho hi fun x hx => hx.bind_error rfl
  | case3 e t r h hr e' r' hr' ho _ ih =>
    exact twin_link hL hc ho hi fun x hx => hx.bind rfl fun j _ hj => (ih hj).widen _
  | case4 e t r h hr ho p ht op hp hnewline =>
    refine twin_unlinked ho hi ?_
    simp only [ht, hp]
    rw [if_pos hnewline]
    exact .ok hi
  | case5 e t r h hr ho p ht op hp hnewline hassign =>
    refine twin_unlinked ho hi ?_
    simp only [ht, hp]
    rw [if_neg hnewline, if_pos hassign]
    exact .advance hi fun hr => .ok hr
  | case6 e t r h hr ho p ht op hp hnewline hassign =>
    refine twin_unlinked ho hi ?_
    simp only [ht, hp]
    rw [if_neg hnewline, if_neg hassign]
    exact .error
  | case7 e t r h hr ho p ht hp =>
    refine twin_unlinked ho hi ?_
    simp only [ht, hp]
    exact .ok hi
  | case8 e t r h hr ho hp =>
    refine twin_unlinked ho hi ?_
    split
    · exact absurd ‹_› (hp _)
    · exact .ok hi

end

section

variable {c : Source} {all ts : List Token} {i : Nat} (hc : Laid c all)

include hc

theorem twin_primary {L : Level (weight ts)} (hL : Follows L) (hi : At all i ts) :
    Twin id all (parsePrimary (tape c all)) i (Parser.primary c ts L) := by
  unfold Parser.primary
  split
  · rw [parsePrimary]
    refine .cur_nil hi ?_
    simp only [hc.eof]
    exact .refuse [] hc.eof .unexpected
  rename_i t r L
  simp only
  split
  case h_1 text ht =>
    rw [parsePrimary]
    refine .cur_cons hi ?_
    simp only [ht]
    refine .advance hi fun hr => ?_
    cases Parser.number? text with
    | none => exact .error
    | some n => exact .ok hr
  case h_3 quasis parts ht =>
    rw [parsePrimary]
    refine .cur_cons hi ?_
    simp only [ht]
    refine .advance hi fun hr => ?_
    split
    · rename_i he
      exact Agrees.bind_error ((run_templateExprs hL _ _).trans (by rw [he]; rfl))
    · rename_i he
      exact Agrees.step ((run_templateExprs hL _ _).trans (by rw [he])) (Nat.le_refl _) (.pure hr)
  case h_9 ht =>
    rw [parsePrimary]
    refine .cur_cons hi ?_
    simp only [ht]
    exact (twin_enclosed hL hc .rparen _ hi).widen _
  case h_10 ht =>
    rw [parsePrimary]
    refine .cur_cons hi ?_
    simp only [ht]
    exact (twin_elements hL hc .rbracket _ hi).map.widen _
  case h_11 ht =>
    rw [parsePrimary]
    refine .cur_cons hi ?_
    simp only [ht]
    exact .advance hi fun hr => (twin_properties hL hc _ hr).map.widen _
  case h_12 =>
    rw [parsePrimary]
    refine .cur_cons hi ?_
    simp only
    exact .refuse (t :: r) rfl .unexpected
  case h_2 ht | h_4 ht | h_5 ht | h_6 ht | h_7 ht | h_8 ht =>
    rw [parsePrimary]
    refine .cur_cons hi ?_
    simp only [ht]
    exact .advance hi fun hr => .ok hr

theorem twin_operand {L : Level (weight ts)} (hL : Follows L) (hi : At all i ts) :
    Twin id all (parsePostfix (tape c all)) i (Parser.operand c ts L) := by
  rw [parsePostfix]
  unfold Parser.operand
  split
  · rename_i he
    exact (twin_primary hc hL hi).bind_error he
  · rename_i he
    exact (twin_primary hc hL hi).bind he fun j _ hj => (twin_postfixes hL hc _ hj).widen _

theorem twin_stepTarget {n : Nat} {L : Level n} (hL : Follows L) {t : Token} (op : StepOp)
    (h : weight ts < n) (hi : At all i (t :: ts)) :
    Twin id all (parseStep (tape c all) op) i (Parser.stepTarget L c t.pos op ts h) := by
  rw [parseStep]
  unfold Parser.stepTarget
  refine .advance hi fun hr => ?_
  split
  · rename_i he
    exact (hL.unary h hc hr).bind_error he
  · rename_i e r hr' he
    refine (hL.unary h hc hr).bind he fun j _ hj => ?_
    by_cases htarget : e.isAssignable
    · rw [if_pos htarget, if_pos htarget]
      exact .ok hj
    · rw [if_neg htarget, if_neg htarget]
      exact .error

theorem twin_unary {L : Level (weight ts)} (hL : Follows L) (hi : At all i ts) :
    Twin id all (parseUnary (tape c all)) i (Parser.unary c ts L) := by
  unfold Parser.unary
  split
  · rw [parseUnary]
    refine .cur_nil hi ?_
    simp only [hc.eof]
    exact twin_operand hc hL hi
  rename_i t r L
  simp only
  split
  · rename_i op hop
    rw [parseUnary]
    refine .cur_cons hi ?_
    simp only [hop]
    exact .advance hi fun hr => (hL.unary _ hc hr).map.widen _
  rename_i hop
  split
  · rename_i ht
    rw [parseUnary]
    refine .cur_cons hi ?_
    simp only [ht]
    exact twin_stepTarget hc hL .increment _ hi
  · rename_i ht
    rw [parseUnary]
    refine .cur_cons hi ?_
    simp only [ht]
    exact twin_stepTarget hc hL .decrement _ hi
  · rw [parseUnary]
    refine .cur_cons hi ?_
    simp only [hop]
    exact twin_operand hc hL hi

theorem twin_infixes {n : Nat} {L : Level n} (hL : Follows L) {least : Nat} {left : Expr}
    (h : weight ts < n) (hi : At all i ts) :
    Twin id all (binaryLoop (tape c all) least left) i (Parser.infixes L c least left ts h) := by
  fun_induction Parser.infixes L c least left ts h generalizing i with
  | case1 left h =>
    rw [binaryLoop]
    refine .cur_nil hi ?_
    simp only [hc.eof]
    exact .ok hi
  | case2 left t r h hr hop =>
    rw [binaryLoop]
    refine .cur_cons hi ?_
    simp only [hop]
    exact .ok hi
  | case3 left t r h hr op hop hlow =>
    rw [binaryLoop]
    refine .cur_cons hi ?_
    simp only [hop]
    rw [if_pos hlow]
    exact .ok hi
  | case4 left t r h hr op hop hlow e he =>
    rw [binaryLoop]
    refine .cur_cons hi ?_
    simp only [hop]
    rw [if_neg hlow]
    exact .advance hi fun hr => (hL.binary _ _ hc hr).bind_error he
  | case5 left t r h hr op hop hlow right r' hr' he _ ih =>
    rw [binaryLoop]
    refine .cur_cons hi ?_
    simp only [hop]
    rw [if_neg hlow]
    exact .advance hi fun hr => (hL.binary _ _ hc hr).bind he fun j _ hj => (ih hj).widen _

theorem twin_binary {L : Level (weight ts)} (hL : Follows L) (least : Nat) (hi : At all i ts) :
    Twin id all (parseBinary (tape c all) least) i (Parser.binary c least ts L) := by
  rw [parseBinary]
  unfold Parser.binary
  split
  · rename_i he
    exact (twin_unary hc hL hi).bind_error he
  · rename_i he
    exact (twin_unary hc hL hi).bind he fun j _ hj => (twin_infixes hc hL _ hj).widen _

theorem twin_conditional {L : Level (weight ts)} (hL : Follows L) (hi : At all i ts) :
    Twin id all (parseConditional (tape c all)) i (Parser.conditional c ts L) := by
  rw [parseConditional]
  unfold Parser.conditional
  split
  · rename_i he
    exact (twin_binary hc hL 1 hi).bind_error he
  · rename_i he
    refine (twin_binary hc hL 1 hi).bind he fun j _ hj => ?_
    exact .isOp hj (fun hp => absurd hp (not_mark_nil hc)) fun _ => .ok hj
  · rename_i test t r hr he
    refine (twin_binary hc hL 1 hi).bind he fun j _ hj => ?_
    simp only
    split
    · rename_i ht
      refine .isOp hj (fun _ => .advance hj fun hr => ?_) fun hne => absurd ht hne
      split
      · rename_i he
        exact (hL.assignment _ hc hr).bind_error he
      · rename_i he
        refine (hL.assignment _ hc hr).bind he fun j _ hj => ?_
        split
        · rename_i he
          exact (twin_expect hc hj .colon).bind_error he
        · rename_i he
          exact (twin_expect hc hj .colon).bind he fun j _ hj =>
            (hL.assignment _ hc hj).map.widen _
    · rename_i ht
      exact .isOp hj (fun hp => absurd hp ht) fun _ => .ok hj


omit hc in
theorem expect_ok {p : Punct} {t : Token} {r : List Token} {h}
    (ho : Parser.expect c p ts = .ok ⟨(t, r), h⟩) : ts = t :: r := by
  unfold Parser.expect at ho
  split at ho
  · split at ho
    · cases ho
      rfl
    · cases ho
  · cases ho

theorem twin_blockStatements {n : Nat} {L : Level n} (hL : Follows L) (h : weight ts < n)
    (hi : At all i ts) :
    Twin id all (parseStatements (tape c all) true) i (Parser.blockStatements L c ts h) := by
  fun_induction Parser.blockStatements L c ts h generalizing i with
  | case1 h =>
    rw [parseStatements]
    refine .cur_nil hi ?_
    rw [if_pos hc.eof, if_pos rfl]
    exact .refuse [] rfl fun _ => .unterminatedBlock
  | case2 t r h hr ht =>
    rw [parseStatements]
    refine .cur_cons hi ?_
    rw [if_neg (hc.proper t hi.mem), if_pos ⟨rfl, ht⟩]
    exact .ok hi
  | case3 t r h hr hbrace ht _ ih =>
    rw [parseStatements]
    refine .cur_cons hi ?_
    rw [if_neg (hc.proper t hi.mem), if_neg fun hb => hbrace hb.2, if_pos ht]
    exact .advance hi fun hr => (ih hr).widen _
  | case4 t r h hr hbrace hsemi e he =>
    rw [parseStatements]
    refine .cur_cons hi ?_
    rw [if_neg (hc.proper t hi.mem), if_neg fun hb => hbrace hb.2, if_neg hsemi]
    exact (hL.statement _ hc hi).bind_error he
  | case5 t r h hr hbrace hsemi s r' hr' he _ ih =>
    rw [parseStatements]
    refine .cur_cons hi ?_
    rw [if_neg (hc.proper t hi.mem), if_neg fun hb => hbrace hb.2, if_neg hsemi]
    exact (hL.statement _ hc hi).bind he fun j _ hj => (ih hj).map.widen _

/-- The source between two of its tokens. -/
theorem run_between {opening closing : Token} {r r' : List Token} {j k : Nat}
    (hi : At all i (opening :: r)) (hj : At all j (closing :: r')) (hij : i < j) :
    (between (tape c all) (opening.pos + 1) closing.pos).run k =
      pure (c.text.slice (opening.pos + 1 - c.base) (closing.pos - c.base), k) := by
  have hopening := hc.within opening hi.mem
  have hclosing := hc.within closing hj.mem
  have hordered : opening.pos < closing.pos := by
    have hpairs := List.pairwise_iff_getElem.1 hc.ordered i j hi.lt hj.lt hij
    rwa [(List.getElem_eq_iff _).2 hi.getElem?, (List.getElem_eq_iff _).2 hj.getElem?] at hpairs
  have hbase : (tape c all).base ≤ opening.pos + 1 := by simp only [tape]; omega
  have hrange : opening.pos + 1 - (tape c all).base ≤ closing.pos - (tape c all).base ∧
      closing.pos - (tape c all).base ≤ (tape c all).text.length := by simp only [tape]; omega
  rw [between, if_pos hbase, slice, if_pos hrange]
  rfl

theorem twin_block {n : Nat} {L : Level n} (hL : Follows L) (h : weight ts ≤ n)
    (hi : At all i ts) :
    Twin id all (parseBlock (tape c all)) i (Parser.block L c ts h) := by
  rw [parseBlock]
  unfold Parser.block
  split
  · rename_i he
    exact (twin_expect hc hi .lbrace).bind_error he
  rename_i opening r hr hopening
  refine (twin_expect hc hi .lbrace).bind hopening fun j hij hj => ?_
  split
  · rename_i he
    exact (twin_blockStatements hc hL _ hj).bind_error he
  rename_i body r₁ hr₁ he
  refine (twin_blockStatements hc hL _ hj).bind he fun j₁ hij₁ hj₁ => ?_
  split
  · rename_i he
    exact (twin_expect hc hj₁ .rbrace).bind_error he
  rename_i closing r₂ hr₂ hclosing
  refine (twin_expect hc hj₁ .rbrace).bind hclosing fun j₂ hij₂ hj₂ => ?_
  have hstart := expect_ok hopening
  have hstop := expect_ok hclosing
  subst hstart hstop
  have hlt : i < j₁ := by
    have hlen := hi.length
    have hlen := hj.length
    rw [List.length_cons] at *
    omega
  exact .step (run_between hc hi hj₁ hlt) (.ok hj₂)

theorem twin_arrowParams (hi : At all i ts) :
    Twin id all (arrowNames (tape c all)) i (Parser.arrowParams c ts) := by
  unfold Parser.arrowParams
  split
  · split
    · rename_i ht
      rw [arrowNames]
      refine .cur_cons hi ?_
      simp only [ht]
      exact .advance hi fun hr => .ok hr
    · rw [arrowNames]
      refine .cur_cons hi ?_
      simp only
      exact twin_params hc hi
  · rw [arrowNames]
    refine .cur_nil hi ?_
    simp only [hc.eof]
    exact twin_params hc hi

theorem twin_arrow {L : Level (weight ts)} (hL : Follows L) (hi : At all i ts) :
    Twin id all (parseArrow (tape c all)) i (Parser.arrow c ts L) := by
  unfold Parser.arrow
  split
  · rename_i he
    rw [parseArrow]
    exact .cur hi ((twin_arrowParams hc hi).bind_error he)
  rename_i names r hr he
  rw [parseArrow]
  refine .cur hi ((twin_arrowParams hc hi).bind he fun j _ hj => ?_)
  split
  · rename_i he
    exact (twin_expect hc hj .arrow).bind_error he
  rename_i r₁ hr₁ he
  refine (twin_expect hc hj .arrow).bind he fun j _ hj => .widen ?_ _
  unfold Parser.arrowBody
  split
  · rename_i hmark
    rw [map_map]
    exact .isOp hj (fun _ => (twin_block hc hL _ hj).map)
      fun hne => absurd (mark_of_isMark hc hmark) hne
  · rename_i hmark
    rw [map_map]
    exact .isOp hj (fun hp => absurd hp (no_mark_of_isMark hc hmark))
      fun _ => (hL.assignment _ hc hj).map

theorem twin_assignment {L : Level (weight ts)} (hL : Follows L) (hi : At all i ts) :
    Twin id all (parseAssignment (tape c all)) i (Parser.assignment c ts L) := by
  rw [parseAssignment]
  refine .step (run_isArrowAhead hc hi) ?_
  unfold Parser.assignment
  by_cases harrow : Parser.startsArrow ts
  · rw [if_pos harrow, if_pos harrow]
    exact twin_arrow hc hL hi
  rw [if_neg harrow, if_neg harrow]
  split
  · rename_i he
    exact (twin_conditional hc hL hi).bind_error he
  · rename_i left hr he
    refine (twin_conditional hc hL hi).bind he fun j _ hj => .cur_nil hj ?_
    simp only [hc.eof]
    exact .ok hj
  rename_i left t r hr he
  refine (twin_conditional hc hL hi).bind he fun j _ hj => .cur_cons hj ?_
  cases Parser.assignOp? t.lexeme with
  | none => exact .ok hj
  | some op =>
    simp only
    by_cases htarget : left.isAssignable
    · rw [if_pos htarget, if_pos htarget]
      exact .advance hj fun hr => (hL.assignment _ hc hr).map.widen _
    · rw [if_neg htarget, if_neg htarget]
      exact .error


/-! ### Statements -/

theorem twin_body {n : Nat} {L : Level n} (hL : Follows L) (h : weight ts < n)
    (hi : At all i ts) : Twin id all (parseBody (tape c all)) i (Parser.body L c ts h) := by
  rw [parseBody]
  unfold Parser.body
  split
  · rename_i hmark
    exact .isOp hi (fun _ => (twin_block hc hL _ hi).map)
      fun hne => absurd (mark_of_isMark hc hmark) hne
  · rename_i hmark
    exact .isOp hi (fun hp => absurd hp (no_mark_of_isMark hc hmark))
      fun _ => (hL.statement _ hc hi).map

theorem twin_declaration {n : Nat} {L : Level n} (hL : Follows L) {t : Token} (kind : DeclKind)
    (exported : Bool) (h : weight ts < n) (hi : At all i (t :: ts)) :
    Twin id all (parseDecl (tape c all) kind exported) i
      (Parser.declaration L c exported t.pos kind ts h) := by
  unfold Parser.declaration
  split
  · rw [parseDecl]
    refine .advance hi fun hr => .cur_nil hr ?_
    simp only [hc.eof]
    exact .refuse [] hc.eof fun _ => .noIdentifier kind
  rename_i name r h
  simp only
  split
  · rename_i n hname
    split
    · rename_i hmark
      rw [parseDecl]
      refine .advance hi fun hr => .cur_cons hr ?_
      simp only [hname]
      refine .advance hr fun hr => .isOp hr (fun hp => ?_)
        fun hne => absurd (mark_of_isMark hc hmark) hne
      obtain ⟨u, r, rfl, hu⟩ := cur_cons hc hp (by simp)
      refine .advance hr fun hr => ?_
      simp only [Parser.expect, if_pos hu]
      rw [map_widen]
      exact twin_ended hc (.widen (hL.assignment _ hc hr) _)
    · rename_i hmark
      rw [parseDecl]
      refine .advance hi fun hr => .cur_cons hr ?_
      simp only [hname]
      refine .advance hr fun hr => .isOp hr (fun hp => absurd hp (no_mark_of_isMark hc hmark))
        fun _ => ?_
      by_cases hkind : kind = .const
      · rw [if_pos hkind, if_pos hkind]
        exact .error
      · rw [if_neg hkind, if_neg hkind]
        exact (twin_endStatement hc hr).map.widen (Nat.lt_trans (Token.weight_lt_cons name r) h)
  · rw [parseDecl]
    refine .advance hi fun hr => .cur_cons hr ?_
    simp only
    exact .refuse (name :: r) rfl fun _ => .noIdentifier kind

theorem twin_function {n : Nat} {L : Level n} (hL : Follows L) {t : Token}
    (exported : Bool) (h : weight ts < n) (hi : At all i (t :: ts)) :
    Twin id all (parseFunc (tape c all) exported) i
      (Parser.function L c exported t.pos ts h) := by
  unfold Parser.function
  split
  · rw [parseFunc]
    refine .advance hi fun hr => .cur_nil hr ?_
    simp only [hc.eof]
    exact .refuse [] hc.eof fun _ => .noFunctionName
  rename_i name r h
  simp only
  split
  · rename_i n hname
    rw [parseFunc]
    refine .advance hi fun hr => .cur_cons hr ?_
    simp only [hname]
    refine .advance hr fun hr => ?_
    split
    · rename_i he
      exact (twin_params hc hr).bind_error he
    · rename_i he
      exact (twin_params hc hr).bind he fun j _ hj => (twin_block hc hL _ hj).map.widen _
  · rw [parseFunc]
    refine .advance hi fun hr => .cur_cons hr ?_
    simp only
    exact .refuse (name :: r) rfl fun _ => .noFunctionName

theorem twin_expressionStatement {L : Level (weight ts)} (hL : Follows L) (hi : At all i ts) :
    Twin id all (parseExprStmt (tape c all)) i (Parser.expressionStatement c ts L) := by
  rw [parseExprStmt, Parser.expressionStatement]
  exact .cur hi (twin_ended hc (twin_assignment hc hL hi))

theorem twin_returned {n : Nat} {L : Level n} (hL : Follows L) {t : Token} (h : weight ts < n)
    (hi : At all i (t :: ts)) :
    Twin id all (parseReturn (tape c all)) i (Parser.returned L c t.pos ts h) := by
  have hends : Parser.endsReturn ts = true ↔ (c.cur ts).lexeme = .eof ∨ (c.cur ts).newline ∨
      (c.cur ts).lexeme = .punct .semicolon ∨ (c.cur ts).lexeme = .punct .rbrace := by
    cases ts with
    | nil => exact iff_of_true rfl (.inl hc.eof)
    | cons u r =>
      have heof : u.lexeme ≠ .eof := hc.proper u hi.cons.mem
      simp only [Parser.endsReturn, Source.cur, heof, Bool.or_eq_true, decide_eq_true_eq,
        false_or, or_assoc]
  rw [parseReturn]
  unfold Parser.returned
  refine .advance hi fun hr => .cur hr ?_
  by_cases hend : Parser.endsReturn ts = true
  · rw [if_pos hend, if_pos (hends.1 hend)]
    exact (twin_endStatement hc hr).map.widen h
  · rw [if_neg hend, if_neg fun he => hend (hends.2 he), map_widen]
    exact twin_ended hc (.widen (hL.assignment _ hc hr) _)

theorem twin_exportedStatement {n : Nat} {L : Level n} (hL : Follows L) {t : Token}
    (ht : t.lexeme = .keyword .export_) (h : weight ts < n) (hi : At all i (t :: ts)) :
    Twin id all (parseStatement (tape c all)) i (Parser.exportedStatement L c ts h) := by
  unfold Parser.exportedStatement
  split
  · rw [parseStatement]
    refine .cur_cons hi ?_
    simp only [ht]
    refine .advance hi fun hr => .cur_nil hr ?_
    simp only [hc.eof]
    exact .refuse [] hc.eof fun _ => .noDeclaration
  rename_i u r h
  simp only
  split
  · rename_i hu
    rw [parseStatement]
    refine .cur_cons hi ?_
    simp only [ht]
    refine .advance hi fun hr => .cur_cons hr ?_
    simp only [hu]
    exact twin_function hc hL true _ hr
  · rename_i k hfunction hu
    rw [parseStatement]
    refine .cur_cons hi ?_
    simp only [ht]
    refine .advance hi fun hr => .cur_cons hr ?_
    simp only [hu]
    cases k.decl? with
    | none => exact .refuse (u :: r) rfl fun _ => .noDeclaration
    | some kind => exact twin_declaration hc hL kind true _ hr
  · rw [parseStatement]
    refine .cur_cons hi ?_
    simp only [ht]
    refine .advance hi fun hr => .cur_cons hr ?_
    simp only
    exact .refuse (u :: r) rfl fun _ => .noDeclaration

omit hc in
theorem run_parseStatement_if {t : Token} (hi : At all i (t :: ts))
    (ht : t.lexeme = .keyword .if_) :
    (parseStatement (tape c all)).run i = (parseIf (tape c all)).run i := by
  rw [parseStatement, StateT.run_bind, run_cur hi, pure_bind]
  simp only [Source.cur, ht]

theorem twin_alternative {n : Nat} {L : Level n} (hL : Follows L) (h : weight ts < n)
    (hi : At all i ts) :
    Twin id all (parseElse (tape c all)) i (Parser.alternative L c ts h) := by
  rw [parseElse]
  unfold Parser.alternative
  split
  · exact .isKeyword hi (fun hw => absurd (hc.eof.symm.trans hw) (by simp)) fun _ => .ok hi
  rename_i t r h
  simp only
  by_cases ht : t.lexeme = .keyword .else_
  · rw [if_pos ht]
    refine .isKeyword hi (fun _ => .advance hi fun hr => ?_) fun hne => absurd ht hne
    by_cases hnested : Parser.isKeyword .if_ r = true
    · obtain ⟨u, r, rfl⟩ : ∃ u r', r = u :: r' := List.exists_cons_of_ne_nil (by
        rintro rfl
        cases hnested)
      have hu : u.lexeme = .keyword .if_ := of_decide_eq_true hnested
      rw [if_pos hnested]
      refine .isKeyword hr (fun _ => .widen (.map ?_) _) fun hne => absurd hu hne
      exact Agrees.congr (run_parseStatement_if hr hu).symm (hL.statement _ hc hr)
    · rw [if_neg hnested]
      refine .isKeyword hr (fun hw => ?_) fun _ => (twin_body hc hL _ hr).widen _
      obtain ⟨u, r, rfl, hu⟩ := cur_cons hc hw (by simp)
      exact absurd (decide_eq_true hu) hnested
  · rw [if_neg ht]
    exact .isKeyword hi (fun hw => absurd hw ht) fun _ => .ok hi

theorem twin_choice {n : Nat} {L : Level n} (hL : Follows L) {t : Token} (h : weight ts < n)
    (hi : At all i (t :: ts)) :
    Twin id all (parseIf (tape c all)) i (Parser.choice L c t.pos ts h) := by
  rw [parseIf]
  unfold Parser.choice
  refine .advance hi fun hr => ?_
  split
  · rename_i he
    exact (twin_expect hc hr .lparen).bind_error he
  rename_i r hr' he
  refine (twin_expect hc hr .lparen).bind he fun j _ hj => ?_
  split
  · rename_i e he
    exact (twin_closed hL hc .rparen _ hj).bind_error he
  rename_i test r₁ h₁ he
  refine (twin_closed hL hc .rparen _ hj).bind he fun j _ hj => ?_
  split
  · rename_i he
    exact (twin_body hc hL _ hj).bind_error he
  · rename_i he
    exact (twin_body hc hL _ hj).bind he fun j _ hj => (twin_alternative hc hL _ hj).map.widen _

theorem twin_statement {L : Level (weight ts)} (hL : Follows L) (hi : At all i ts) :
    Twin id all (parseStatement (tape c all)) i (Parser.statement c ts L) := by
  unfold Parser.statement
  split
  · rw [parseStatement]
    refine .cur_nil hi ?_
    simp only [hc.eof]
    exact twin_expressionStatement hc hL hi
  rename_i t r L
  simp only
  split
  case h_1 ht =>
    rw [parseStatement]
    refine .cur_cons hi ?_
    simp only [ht]
    exact twin_declaration hc hL .let_ false _ hi
  case h_2 ht =>
    rw [parseStatement]
    refine .cur_cons hi ?_
    simp only [ht]
    exact twin_declaration hc hL .const false _ hi
  case h_3 ht =>
    rw [parseStatement]
    refine .cur_cons hi ?_
    simp only [ht]
    exact twin_declaration hc hL .var false _ hi
  case h_4 ht =>
    rw [parseStatement]
    refine .cur_cons hi ?_
    simp only [ht]
    exact twin_function hc hL false _ hi
  case h_5 ht =>
    exact twin_exportedStatement hc hL ht _ hi
  case h_6 ht =>
    rw [parseStatement]
    refine .cur_cons hi ?_
    simp only [ht]
    exact twin_choice hc hL _ hi
  case h_7 ht =>
    rw [parseStatement]
    refine .cur_cons hi ?_
    simp only [ht]
    exact twin_returned hc hL _ hi
  case h_8 name ht =>
    rw [parseStatement]
    refine .cur_cons hi ?_
    simp only [ht]
    refine .step (run_peek hi.cons rfl) ?_
    cases r with
    | nil =>
      rw [if_neg (not_mark_nil hc)]
      exact twin_expressionStatement hc hL hi
    | cons u r =>
      simp only
      by_cases hu : (c.cur (u :: r)).lexeme = .punct .colon
      · rw [if_pos hu, if_pos (show u.lexeme = .punct .colon from hu)]
        exact .advance hi fun hr => .advance hr fun hr => (hL.statement _ hc hr).map.widen _
      · rw [if_neg hu, if_neg (show ¬u.lexeme = .punct .colon from hu)]
        exact twin_expressionStatement hc hL hi
  case h_9 =>
    rw [parseStatement]
    refine .cur_cons hi ?_
    simp only
    exact twin_expressionStatement hc hL hi

end

/-! ### Whole sources -/

/-- The program comes to the same outcomes as the parsers of every level: below a weight it follows
those of that level, and at a weight it calls them below. -/
theorem follows_level (n : Nat) : Follows (Parser.level n) := by
  induction n using Nat.strongRecOn with
  | ind n ih =>
    rw [Parser.level]
    exact ⟨fun h hc hi => twin_assignment hc (ih _ h) hi,
      fun least ts i h hc hi => twin_binary hc (ih _ h) least hi,
      fun h hc hi => twin_unary hc (ih _ h) hi,
      fun h hc hi => twin_statement hc (ih _ h) hi⟩

section

variable {c : Source} {all ts : List Token} {i : Nat} (hc : Laid c all)

include hc

theorem run_statement {t : Token} {r : List Token} (hi : At all i (t :: r))
    (ht : ¬t.lexeme = .punct .semicolon) :
    (parseStatements (tape c all) false).run i = (do
      let s ← parseStatement (tape c all)
      let ss ← parseStatements (tape c all) false
      pure (s :: ss)).run i := by
  have hcur : (cur (tape c all)).run i = pure (t, i) := run_cur hi
  conv =>
    lhs
    rw [parseStatements, StateT.run_bind, hcur, pure_bind, if_neg (hc.proper t hi.mem),
      if_neg fun hb => Bool.false_ne_true hb.1, if_neg ht]

theorem agrees_program (hi : At all i ts) :
    Agrees all (parseStatements (tape c all) false) i
      ((Parser.program c ts).map fun ss => (ss, [])) := by
  fun_induction Parser.program c ts generalizing i with
  | case1 =>
    have hcur : (cur (tape c all)).run i = pure (c.eof, i) := run_cur hi
    rw [parseStatements]
    refine .step hcur (Nat.le_refl i) ?_
    rw [if_pos hc.eof, if_neg Bool.false_ne_true]
    exact .pure hi
  | case2 t r ht ih =>
    have hcur : (cur (tape c all)).run i = pure (t, i) := run_cur hi
    rw [parseStatements]
    refine .step hcur (Nat.le_refl i) ?_
    rw [if_neg (hc.proper t hi.mem), if_neg fun hb => Bool.false_ne_true hb.1, if_pos ht]
    exact .step (run_advance hi) (Nat.le_succ i) (ih hi.cons)
  | case3 t r ht e he =>
    have hs := twin_statement hc (follows_level _) hi
    rw [Twin, he] at hs
    exact .congr (run_statement hc hi ht) hs.bind_error
  | case4 t r ht s r' hr he e hrest ih =>
    have hs := twin_statement hc (follows_level _) hi
    rw [Twin, he] at hs
    rw [hrest] at ih
    exact .congr (run_statement hc hi ht) (hs.bind fun j _ hj => (ih hj).bind_error)
  | case5 t r ht s r' hr he ss hrest ih =>
    have hs := twin_statement hc (follows_level _) hi
    rw [Twin, he] at hs
    rw [hrest] at ih
    exact .congr (run_statement hc hi ht)
      (hs.bind fun j _ hj => (ih hj).bind fun j _ hj => .pure hj)

end

/-- The expression parser comes to an end on every source, with the expression that the source spells
or with the failure to read it. -/
theorem run_parseExprAt (src : Text) (base k : Nat) :
    (parseExprAt src base).run k =
      match Expr.parseAt base src with
      | .error e => throw (.refused e)
      | .ok e => pure (e, k) := by
  cases hs : Token.ofSource base src with
  | error e =>
    rw [run_parseExprAt_error hs, Expr.parseAt, hs]
  | ok y =>
    obtain ⟨ts, eof⟩ := y
    cases ts with
    | nil => rw [run_parseExprAt_empty hs, Expr.parseAt, hs]
    | cons t ts =>
      rw [run_parseExprAt_tokens hs _ k
        (twin_assignment (laid_ofSource hs) (follows_level _) (At.front _)), Expr.parseAt, hs]
      simp only
      cases Parser.assignment ⟨src, base, eof⟩ (t :: ts) (Parser.level _) with
      | error e => rfl
      | ok y =>
        obtain ⟨⟨e, r⟩, hr⟩ := y
        cases r <;> rfl

/-- The expression parser comes to an end on every source. -/
theorem answer_parseExpr (src : Text) :
    (parseExpr src).answer = some ((Expr.parse src).mapError .refused) := by
  have hrun := run_parseExprAt src 0 0
  rw [parseExpr, Expr.parse]
  cases he : Expr.parseAt 0 src with
  | error e =>
    rw [he] at hrun
    exact answer_error hrun
  | ok e =>
    rw [he] at hrun
    exact answer_ok hrun

/-- The program parser comes to an end on every source. -/
theorem answer_parseProgram (src : Text) :
    (parseProgram src).answer = some ((Stmt.parseProgram src).mapError .refused) := by
  rw [Stmt.parseProgram]
  cases hs : Token.ofSource 0 src with
  | error e =>
    refine answer_error ?_
    rw [parseProgram, StateT.run_bind, run_tokenize, hs]
    rfl
  | ok y =>
    obtain ⟨ts, eof⟩ := y
    have hprogram := agrees_program (laid_ofSource hs) (At.front ts)
    have hrun : (parseProgram src).run 0 =
        (parseStatements (tape ⟨src, 0, eof⟩ ts) false).run 0 := by
      rw [parseProgram, StateT.run_bind, run_tokenize, hs]
      rfl
    rw [(hprogram.congr hrun).answer]
    simp only
    cases Parser.program ⟨src, 0, eof⟩ ts <;> rfl

end Cursor

end Reactive
