/-
The tokens of a source at a position.

The tokens of a source stand in it in their order, and only the last one is its
end.  What the parser does with the token at its position is what the parser of
token lists does with the front of its list: names and parameters, the end of a
statement, the arrow of a function that starts here, and a source inside of
another one.

* `Laid` — what holds of the tokens of a source;
* `twin_expect`, `twin_params`, `twin_endStatement` — functions that only look at tokens;
* `run_isArrowAhead` — whether an arrow function starts here;
* `run_parseExprAt_tokens` — a source that is one expression.
-/
import Reactive.Proofs.Cursor.Lexing
import Reactive.Proofs.Cursor.Parser
import Reactive.Proofs.Expr.Reported

namespace Reactive

open Reactive.Parser (Source Outcome)
open Token (weight)

namespace Cursor

open Tape
open Text (parseExprAt)

/-! ### Tokens of a source -/

/-- The tape of a source whose tokens before the end are given. -/
def tape (c : Source) (all : List Token) : Tape := ⟨c.text, c.base, all ++ [c.eof]⟩

/-- The tokens of a source, in the order in which they stand there; no other one is its end. -/
structure Laid (c : Source) (all : List Token) : Prop where
  eof : c.eof.lexeme = .eof
  proper : ∀ t ∈ all, t.lexeme ≠ .eof
  within : ∀ t ∈ all, c.base ≤ t.pos ∧ t.pos < c.base + c.text.length
  ordered : all.Pairwise fun t u => t.pos < u.pos

theorem laid_ofSource {src : Text} {base : Nat} {all : List Token} {eof : Token}
    (h : Token.ofSource base src = .ok (all, eof)) : Laid ⟨src, base, eof⟩ all := by
  have hscanned := Parser.scanned_ofSource h
  obtain ⟨tiles, last, rfl, htiles, rfl⟩ := Lexer.tiles_scan h
  refine ⟨rfl, fun t ht => ?_, fun t ht => (hscanned.stands t ht).2, hscanned.ordered⟩
  obtain ⟨tile, htile, rfl⟩ := List.mem_map.1 ht
  obtain ⟨before, after, hsplit⟩ := List.append_of_mem htile
  have hspells := (htiles.at hsplit).2.2.1
  intro heof
  rw [heof] at hspells
  cases hspells

section

variable {α β : Type} {m n : Nat} {all ts r : List Token} {i j k : Nat} {x : Cursor SyntaxError α}
  {c : Source}

theorem Twin.refuse (r : List Token) {l : Lexeme} (hl : (c.cur r).lexeme = l)
    (cause : Lexeme → SyntaxCause) :
    Twin id all (refuseToken (c.cur r) (cause l) : Cursor SyntaxError α) i
      (c.refuse r cause : Outcome α n) := by
  rw [← hl]
  exact Agrees.refuse all i _

theorem Twin.map {f : α → β} {o : Outcome α n} (hx : Twin id all x i o) :
    Twin id all (x >>= fun a => pure (f a)) i (o.map f) := by
  cases o with
  | error e => exact hx.bind_error rfl
  | ok y =>
    obtain ⟨⟨a, r⟩, h⟩ := y
    exact hx.bind rfl fun j _ hj => .ok hj

theorem Twin.widen {o : Outcome α n} (hx : Twin id all x i o) (h : n ≤ m) :
    Twin id all x i (o.widen h) := by
  cases o with
  | error e => exact hx
  | ok y => exact hx

theorem map_map {γ : Type} {f : α → β} {g : β → γ} (o : Outcome α n) :
    (o.map f).map g = o.map fun a => g (f a) := by
  cases o <;> rfl

theorem map_widen {f : α → β} (o : Outcome α n) (h : n ≤ m) :
    (o.map f).widen h = (o.widen h).map f := by
  cases o <;> rfl

/-! ### The token at the position -/

theorem length_toks : (tape c all).toks.length = all.length + 1 := List.length_append

theorem headD_eq_cur (c : Source) (ts : List Token) : ts.headD c.eof = c.cur ts := by
  cases ts <;> rfl

theorem run_token (h : At all i ts) :
    (item (tape c all).toks i : Cursor SyntaxError Token).run k = pure (c.cur ts, k) := by
  rw [← headD_eq_cur]
  exact h.run_token

theorem run_peek {n : Nat} (h : At all j ts) (hj : i + n = j) :
    (peek (tape c all) n).run i = pure (c.cur ts, i) := by
  rw [← headD_eq_cur]
  exact h.run_lookAhead hj

theorem run_cur (h : At all i ts) : (cur (tape c all)).run i = pure (c.cur ts, i) := by
  rw [← headD_eq_cur]
  exact h.run_look

theorem run_advance {t : Token} (h : At all i (t :: r)) :
    (advance (tape c all)).run i = pure (t, i + 1) :=
  h.run_take

theorem Twin.advance {t : Token} {f : Token → Cursor SyntaxError β} {o : Outcome β n}
    (h : At all i (t :: r)) (hf : At all (i + 1) r → Twin id all (f t) (i + 1) o) :
    Twin id all (Tape.advance (tape c all) >>= f) i o :=
  Agrees.step (run_advance h) (Nat.le_succ i) (hf h.cons)

theorem Twin.cur {f : Token → Cursor SyntaxError β} {o : Outcome β n} (h : At all i ts)
    (hf : Twin id all (f (c.cur ts)) i o) : Twin id all (Tape.cur (tape c all) >>= f) i o :=
  .step (run_cur h) hf

theorem Twin.cur_cons {t : Token} {f : Token → Cursor SyntaxError β} {o : Outcome β n}
    (h : At all i (t :: r)) (hf : Twin id all (f t) i o) :
    Twin id all (Tape.cur (tape c all) >>= f) i o :=
  .step (run_cur h) hf

theorem Twin.cur_nil {f : Token → Cursor SyntaxError β} {o : Outcome β n}
    (h : At all i []) (hf : Twin id all (f c.eof) i o) :
    Twin id all (Tape.cur (tape c all) >>= f) i o :=
  .step (run_cur h) hf

theorem Twin.advance_cur {t : Token} {f : Token → Token → Cursor SyntaxError β} {o : Outcome β n}
    (h : At all i (t :: r))
    (hf : Twin id all (Tape.advance (tape c all) >>= fun t => f t (c.cur r)) i o) :
    Twin id all (Tape.advance (tape c all) >>= fun t => Tape.cur (tape c all) >>= f t) i o := by
  have hrun : (Tape.advance (tape c all) >>= fun t => Tape.cur (tape c all) >>= f t).run i =
      (Tape.advance (tape c all) >>= fun t => f t (c.cur r)).run i := by
    rw [StateT.run_bind, StateT.run_bind, run_advance h, pure_bind, pure_bind, StateT.run_bind,
      run_cur h.cons, pure_bind]
  exact Agrees.congr hrun hf

theorem run_isOp (h : At all i ts) (p : Punct) :
    (isOp (tape c all) p).run i = pure (decide ((c.cur ts).lexeme = .punct p), i) := by
  rw [isOp, StateT.run_bind, run_cur h]
  rfl

theorem run_isKeyword (h : At all i ts) (k : Keyword) :
    (isKeyword (tape c all) k).run i = pure (decide ((c.cur ts).lexeme = .keyword k), i) := by
  rw [isKeyword, StateT.run_bind, run_cur h]
  rfl

theorem Twin.isOp {p : Punct} {f g : Cursor SyntaxError β} {o : Outcome β n} (h : At all i ts)
    (hf : (c.cur ts).lexeme = .punct p → Twin id all f i o)
    (hg : (c.cur ts).lexeme ≠ .punct p → Twin id all g i o) :
    Twin id all (Tape.isOp (tape c all) p >>= fun b => if b = true then f else g) i o := by
  refine .step (run_isOp h p) ?_
  by_cases hp : (c.cur ts).lexeme = .punct p
  · rw [if_pos (decide_eq_true hp)]
    exact hf hp
  · rw [if_neg (by simpa using hp)]
    exact hg hp

theorem Twin.isKeyword {w : Keyword} {f g : Cursor SyntaxError β} {o : Outcome β n}
    (h : At all i ts) (hf : (c.cur ts).lexeme = .keyword w → Twin id all f i o)
    (hg : (c.cur ts).lexeme ≠ .keyword w → Twin id all g i o) :
    Twin id all (Tape.isKeyword (tape c all) w >>= fun b => if b = true then f else g) i o := by
  refine .step (run_isKeyword h w) ?_
  by_cases hw : (c.cur ts).lexeme = .keyword w
  · rw [if_pos (decide_eq_true hw)]
    exact hf hw
  · rw [if_neg (by simpa using hw)]
    exact hg hw

/-- A token that is not the end of its source stands at the front. -/
theorem cur_cons {l : Lexeme} (hc : Laid c all) (h : (c.cur ts).lexeme = l) (hl : l ≠ .eof) :
    ∃ t r, ts = t :: r ∧ t.lexeme = l := by
  cases ts with
  | nil => exact absurd (h.symm.trans hc.eof) hl
  | cons t r => exact ⟨t, r, rfl, h⟩

theorem isMark_eq (hc : Laid c all) (p : Punct) (ts : List Token) :
    Parser.isMark p ts = decide ((c.cur ts).lexeme = .punct p) := by
  cases ts with
  | nil =>
    rw [Source.cur, hc.eof]
    rfl
  | cons t r => rfl

theorem mark_of_isMark (hc : Laid c all) {p : Punct} (h : Parser.isMark p ts = true) :
    (c.cur ts).lexeme = .punct p :=
  of_decide_eq_true ((isMark_eq hc p ts).symm.trans h)

theorem no_mark_of_isMark (hc : Laid c all) {p : Punct} (h : ¬Parser.isMark p ts = true) :
    (c.cur ts).lexeme ≠ .punct p :=
  fun hp => h ((isMark_eq hc p ts).trans (decide_eq_true hp))

theorem not_mark_nil (hc : Laid c all) {p : Punct} : (c.cur []).lexeme ≠ .punct p :=
  fun hp => absurd (hc.eof.symm.trans hp) (by simp)

theorem Twin.expect {t : Token} {p : Punct} {f : Token → Cursor SyntaxError β} {o : Outcome β n}
    (h : At all i (t :: r)) (ht : t.lexeme = .punct p)
    (hf : At all (i + 1) r → Twin id all (f t) (i + 1) o) :
    Twin id all (expectOp (tape c all) p >>= f) i o := by
  have hop : (Tape.isOp (tape c all) p).run i = pure (true, i) :=
    (run_isOp h p).trans (by rw [Source.cur, ht, decide_eq_true rfl])
  have hrun : (expectOp (tape c all) p).run i = pure (t, i + 1) := by
    rw [expectOp, StateT.run_bind, hop, pure_bind]
    exact run_advance h
  exact Agrees.step hrun (Nat.le_succ i) (hf h.cons)

theorem twin_expect (hc : Laid c all) (h : At all i ts) (p : Punct) :
    Twin id all (expectOp (tape c all) p) i (Parser.expect c p ts) := by
  rw [expectOp]
  refine .isOp h (fun hp => ?_) fun hp => .cur h ?_
  · obtain ⟨t, r, rfl, ht⟩ := cur_cons hc hp (by simp)
    rw [Parser.expect, if_pos ht]
    exact ⟨i + 1, Nat.le_succ i, h.cons, run_advance h⟩
  · have hrefuse : Parser.expect c p ts = c.refuse ts (.expected p) := by
      cases ts with
      | nil => rfl
      | cons t r => rw [Parser.expect, if_neg (show t.lexeme ≠ _ from hp)]
    rw [hrefuse]
    exact .refuse ts rfl _

theorem twin_memberName (hc : Laid c all) (h : At all i ts) (mark : Punct) :
    Twin id all (memberName (tape c all) mark) i (Parser.memberName c mark ts) := by
  unfold Parser.memberName
  split
  · rw [memberName]
    refine .cur_nil h ?_
    simp only [hc.eof]
    exact .refuse [] hc.eof fun _ => .noPropertyAfter mark
  · rename_i t r
    split
    · rename_i ht
      rw [memberName]
      refine .cur h ?_
      simp only [Source.cur, ht]
      exact .advance h fun hr => .ok hr
    · rename_i ht
      rw [memberName]
      refine .cur h ?_
      simp only [Source.cur, ht]
      exact .advance h fun hr => .ok hr
    · rename_i hident hkeyword
      rw [memberName]
      refine .cur h ?_
      simp only [Source.cur]
      exact .refuse (t :: r) rfl fun _ => .noPropertyAfter mark

theorem twin_paramNames (hc : Laid c all) :
    ∀ {ts : List Token} {i : Nat}, At all i ts →
      Twin id all (paramLoop (tape c all)) i (Parser.paramNames c ts)
  | [], i, h => by
    rw [paramLoop]
    refine .isOp h (fun hp => absurd hp (not_mark_nil hc)) fun _ => .cur h ?_
    simp only [Source.cur, hc.eof]
    exact .refuse [] hc.eof .noParameter
  | [t], i, h => by
    unfold Parser.paramNames
    simp only
    split
    · rename_i ht
      rw [paramLoop]
      exact .isOp h (fun _ => .expect h ht fun hr => .ok hr) fun hne => absurd ht hne
    · rename_i name ht
      rw [paramLoop]
      refine .isOp h (fun hp => absurd (ht.symm.trans hp) (by simp)) fun _ => .cur h ?_
      simp only [Source.cur, ht]
      refine .advance h fun hr => .isOp hr (fun hp => absurd hp (not_mark_nil hc)) fun _ => ?_
      exact .bind_error (twin_expect hc hr .rparen) rfl
    · rename_i hclose hident
      rw [paramLoop]
      refine .isOp h (fun hp => absurd hp hclose) fun _ => .cur h ?_
      simp only [Source.cur]
      exact .refuse [t] rfl .noParameter
  | t :: u :: r, i, h => by
    unfold Parser.paramNames
    simp only
    split
    · rename_i ht
      rw [paramLoop]
      exact .isOp h (fun _ => .expect h ht fun hr => .ok hr) fun hne => absurd ht hne
    · rename_i name ht
      rw [paramLoop]
      refine .isOp h (fun hp => absurd (ht.symm.trans hp) (by simp)) fun _ => .cur h ?_
      simp only [Source.cur, ht]
      refine .advance h fun hr => ?_
      split
      · rename_i hu
        refine .isOp hr (fun _ => .advance hr fun hr' => ?_) fun hne => absurd hu hne
        exact (twin_paramNames hc hr').map.widen _
      · rename_i hu
        refine .isOp hr (fun hp => absurd hp hu) fun _ => ?_
        exact (twin_expect hc hr .rparen).map.widen _
    · rename_i hclose hident
      rw [paramLoop]
      refine .isOp h (fun hp => absurd hp hclose) fun _ => .cur h ?_
      simp only [Source.cur]
      exact .refuse (t :: u :: r) rfl .noParameter

theorem twin_params (hc : Laid c all) (h : At all i ts) :
    Twin id all (parseParams (tape c all)) i (Parser.params c ts) := by
  rw [parseParams]
  unfold Parser.params
  split
  · rename_i he
    exact (twin_expect hc h .lparen).bind_error he
  · rename_i ho
    exact (twin_expect hc h .lparen).bind ho fun j _ hj => (twin_paramNames hc hj).widen _

theorem twin_endStatement (hc : Laid c all) (h : At all i ts) :
    Twin id all (endStatement (tape c all)) i (Parser.endStatement c ts) := by
  unfold Parser.endStatement
  split
  · rw [endStatement]
    refine .cur_nil h ?_
    rw [if_neg (by rw [hc.eof]; simp), if_pos (.inl hc.eof)]
    exact .ok h
  · rename_i t r
    have heof : t.lexeme ≠ .eof := hc.proper t h.mem
    split
    · rename_i ht
      rw [endStatement]
      refine .cur_cons h ?_
      rw [if_pos ht]
      exact .advance h fun hr => .ok hr
    · rename_i ht
      split
      · rename_i hends
        rw [Bool.or_eq_true, decide_eq_true_eq] at hends
        rw [endStatement]
        refine .cur_cons h ?_
        rw [if_neg ht, if_pos (.inr hends)]
        exact .ok h
      · rename_i hends
        rw [Bool.or_eq_true, decide_eq_true_eq] at hends
        rw [endStatement]
        refine .cur_cons h ?_
        rw [if_neg ht, if_neg (not_or.2 ⟨heof, hends⟩)]
        exact .refuse (t :: r) rfl _

theorem twin_ended (hc : Laid c all) {o : Outcome α n} (hx : Twin id all x i o) {f : α → β} :
    Twin id all (x >>= fun a => Tape.endStatement (tape c all) >>= fun _ => pure (f a)) i
      (Parser.ended c (o.map f)) := by
  cases o with
  | error e => exact hx.bind_error rfl
  | ok y =>
    obtain ⟨⟨a, r⟩, hr⟩ := y
    refine hx.bind rfl fun j _ hj => ?_
    exact (twin_endStatement hc hj).map.widen hr

/-! ### Arrow functions ahead -/

theorem run_arrowLoop (hc : Laid c all) {depth : Nat} (h : At all i ts) (hk : k ≤ i) :
    (arrowLoop (tape c all) k i depth).run k = pure (Parser.arrowAfter depth ts, k) := by
  induction ts generalizing i depth with
  | nil =>
    have hlen := h.eq_length
    rw [arrowLoop, if_pos (by rw [length_toks]; omega), StateT.run_bind, run_token h, pure_bind]
    simp only [Source.cur, hc.eof]
    rfl
  | cons t r ih =>
    have hlt := h.lt
    have hnext : ∀ depth, (arrowLoop (tape c all) k (i + 1) depth).run k =
        pure (Parser.arrowAfter depth r, k) := fun depth => ih h.cons (Nat.le_succ_of_le hk)
    rw [arrowLoop, if_pos (by rw [length_toks]; omega), StateT.run_bind, run_token h, pure_bind,
      Parser.arrowAfter]
    simp only [Source.cur]
    split
    · exact absurd ‹_› (hc.proper t h.mem)
    · rename_i ht
      simp only [ht, hnext]
    · rename_i ht
      simp only [ht]
      split
      · rw [StateT.run_bind, run_peek h.cons (by omega), pure_bind, isMark_eq hc]
        rfl
      · exact hnext _
    · rename_i hopen hclose heof
      simp only [hnext]

theorem run_isArrowAhead (hc : Laid c all) (h : At all i ts) :
    (isArrowAhead (tape c all)).run i = pure (Parser.startsArrow ts, i) := by
  unfold Parser.startsArrow
  split
  · rename_i t r
    have hcur : (cur (tape c all)).run i = pure (t, i) := run_cur h
    split
    · rename_i ht
      rw [isArrowAhead, StateT.run_bind, hcur, pure_bind]
      simp only [ht]
      rw [StateT.run_bind, run_peek h.cons rfl, pure_bind, isMark_eq hc]
      rfl
    · rename_i ht
      have hlt := h.lt
      rw [isArrowAhead, StateT.run_bind, hcur, pure_bind]
      simp only [ht]
      rw [StateT.run_bind, StateT.run_get, pure_bind, arrowLoop,
        if_pos (by rw [length_toks]; omega), StateT.run_bind, run_token h, pure_bind]
      simp only [Source.cur, ht]
      exact run_arrowLoop hc h.cons (Nat.le_succ i)
    · rw [isArrowAhead, StateT.run_bind, hcur, pure_bind]
      simp only
      rfl
  · rw [isArrowAhead, StateT.run_bind, run_cur h, pure_bind]
    simp only [Source.cur, hc.eof]
    rfl

/-! ### Sources inside of sources -/

theorem run_parseExprAt_tokens {src : Text} {base : Nat} {t eof : Token}
    (hs : Token.ofSource base src = .ok (t :: ts, eof)) (o : Outcome Expr n) (k : Nat) :
    Twin id (t :: ts) (parseAssignment (tape ⟨src, base, eof⟩ (t :: ts))) 0 o →
    (parseExprAt src base).run k =
      match o with
      | .error e => throw (.refused e)
      | .ok ⟨(e, []), _⟩ => pure (e, k)
      | .ok ⟨(_, u :: _), _⟩ => throw (.refused ⟨.unexpected u.lexeme, u.pos⟩) := by
  intro ho
  have hc := laid_ofSource hs
  have hfront := At.front (t :: ts)
  have hfirst : t.lexeme ≠ .eof := hc.proper t hfront.mem
  have hcur : (cur ⟨src, base, (t :: ts) ++ [eof]⟩).run 0 = pure (t, 0) :=
    run_cur (c := ⟨src, base, eof⟩) hfront
  rw [parseExprAt, StateT.run_bind, StateT.run_get, pure_bind, StateT.run_bind, run_tokenize, hs]
  simp only
  rw [pure_bind, StateT.run_bind, StateT.run_set, pure_bind, StateT.run_bind, hcur, pure_bind,
    if_neg hfirst, StateT.run_bind]
  cases o with
  | error e =>
    replace ho : (parseAssignment ⟨src, base, (t :: ts) ++ [eof]⟩).run 0 = throw (.refused e) := ho
    rw [ho]
    rfl
  | ok y =>
    obtain ⟨⟨e, r⟩, hr⟩ := y
    obtain ⟨j, -, hj, hrun⟩ := ho
    replace hrun : (parseAssignment ⟨src, base, (t :: ts) ++ [eof]⟩).run 0 = pure (e, j) := hrun
    rw [hrun, pure_bind, StateT.run_bind]
    cases r with
    | nil =>
      have hend : (cur ⟨src, base, (t :: ts) ++ [eof]⟩).run j = pure (eof, j) :=
        run_cur (c := ⟨src, base, eof⟩) hj
      rw [hend, pure_bind, if_pos hc.eof]
      rfl
    | cons u r =>
      have hmore : (cur ⟨src, base, (t :: ts) ++ [eof]⟩).run j = pure (u, j) :=
        run_cur (c := ⟨src, base, eof⟩) hj
      rw [hmore, pure_bind, if_neg (hc.proper u hj.mem)]
      rfl

theorem run_parseExprAt_error {src : Text} {base : Nat} {e : SyntaxError}
    (hs : Token.ofSource base src = .error e) (k : Nat) :
    (parseExprAt src base).run k = throw (.refused e) := by
  rw [parseExprAt, StateT.run_bind, StateT.run_get, pure_bind, StateT.run_bind, run_tokenize, hs]
  rfl

theorem run_parseExprAt_empty {src : Text} {base : Nat} {eof : Token}
    (hs : Token.ofSource base src = .ok ([], eof)) (k : Nat) :
    (parseExprAt src base).run k = throw (.refused ⟨.emptyExpression, base⟩) := by
  have hcur : (cur ⟨src, base, [] ++ [eof]⟩).run 0 = pure (eof, 0) :=
    run_cur (c := ⟨src, base, eof⟩) (At.front [])
  rw [parseExprAt, StateT.run_bind, StateT.run_get, pure_bind, StateT.run_bind, run_tokenize, hs]
  simp only
  rw [pure_bind, StateT.run_bind, StateT.run_set, pure_bind, StateT.run_bind, hcur, pure_bind,
    if_pos (laid_ofSource hs).eof]
  rfl

end

end Cursor

end Reactive
