/-
The tokens that are read at a position.

Each program of the lexer agrees with the function that takes what it reads from
the front of a text.  So its loops end, it reads no byte outside of its source,
and its tokens are those of `Token.ofSource`.

* `agreesBelow` — template literals and the braces in them;
* `agrees_readLexeme` — a lexeme;
* `run_tokenize` — all tokens of a source.
-/
import Reactive.Proofs.Cursor.Lexer
import Reactive.Proofs.Expr.Tiling
import Reactive.Proofs.Template.Tiling
import Reactive.Proofs.Text.Words

namespace Reactive

namespace Cursor

open Text

section

variable {ε α : Type} {src : Text} {base i j k : Nat} {b : UInt8} {r s x : Text}

theorem run_peekAt (h : At src i (b :: r)) :
    (peekAt src 1 : Cursor ε UInt8).run i = pure (r.headD 0, i) := by
  change (ite _ _ _ : Cursor ε UInt8).run i = _
  cases r with
  | nil =>
    have hlen := h.cons.eq_length
    rw [if_pos (by omega)]
    rfl
  | cons c r =>
    have hlt := h.cons.lt
    rw [if_neg (by omega)]
    exact h.cons.run_item i

theorem run_slice (h : At src i (x ++ s)) :
    (slice src i (i + x.length) : Cursor ε Text).run k = pure (x, k) := by
  have hlen := h.length
  rw [List.length_append] at hlen
  rw [slice, if_pos ⟨by omega, by omega⟩, Text.slice, Nat.add_sub_cancel_left, h.2, List.take_left]
  rfl

theorem run_slice_rest (h : At src i s) :
    (slice src i src.length : Cursor ε Text).run k = pure (s, k) := by
  rw [← h.length]
  exact run_slice (s := []) (by rwa [List.append_nil])

theorem At.offset (h : At src i s) : Lexer.offset (base + src.length) s = base + i := by
  have hlen := h.length
  rw [Lexer.offset]
  omega

theorem agrees_fail (h : At src i s) {cause : SyntaxCause} :
    Agrees src (refuseAt base i cause : Cursor SyntaxError α) i
      (Lexer.fail (base + src.length) s cause) := by
  rw [Lexer.fail, h.offset]
  exact .refuse src i _

/-! ### Blanks, words and numbers -/

theorem agrees_skipWhile {p : UInt8 → Bool} (h : At src i s) :
    Agrees src (skipWhile src p) i (.ok ((), s.dropWhile p)) := by
  induction s generalizing i with
  | nil =>
    have hlen := h.eq_length
    rw [skipWhile]
    refine .get ?_
    rw [if_neg (by omega)]
    exact .pure h
  | cons b r ih =>
    rw [skipWhile]
    refine .get ?_
    rw [if_pos h.lt]
    refine .item h ?_
    rw [List.dropWhile_cons]
    split
    · exact .set (Nat.le_succ i) (ih h.cons)
    · exact .pure h

theorem restOfLine_eq_dropWhile (s : Text) :
    Lexer.restOfLine s = s.dropWhile fun b => b != 10 := by
  induction s with
  | nil => rfl
  | cons b r ih =>
    rw [Lexer.restOfLine, List.dropWhile_cons, ih]
    split
    · rename_i hb
      obtain rfl : b = 10 := beq_iff_eq.1 hb
      rfl
    · rename_i hb
      have hne : b ≠ 10 := fun h => hb (beq_iff_eq.2 h)
      rw [if_pos (bne_iff_ne.2 hne)]

/-- The end of a comment, by where its end mark stands. -/
theorem afterComment?_eq (newline : Bool) (s : Text) :
    Lexer.afterComment? newline s =
      (indexOf? "*/" s).map fun n => (newline || (s.take n).contains 10, s.drop (n + 2)) := by
  fun_induction Lexer.afterComment? newline s with
  | case1 newline r =>
    have hfirst : indexOf? "*/" (42 :: 47 :: r) = some 0 := rfl
    rw [hfirst]
    simp
  | case2 newline b r hne ih =>
    have hfirst : ("*/" : Text).isPrefixOf (b :: r) = false := by
      rw [Bool.eq_false_iff]
      intro hprefix
      obtain ⟨t, ht⟩ := List.isPrefixOf_iff_prefix.1 hprefix
      cases ht
      exact hne t rfl rfl
    rw [ih, indexOf?, hfirst, if_neg Bool.false_ne_true, Option.map_map]
    refine congrArg (Option.map · _) (funext fun n => ?_)
    change (newline || b == 10 || (r.take n).contains 10, r.drop (n + 2)) =
      (newline || (b :: r.take n).contains 10, r.drop (n + 2))
    rw [List.contains_cons, Bool.or_assoc, BEq.comm]
  | case3 => rfl

theorem agrees_skipSpace (base : Nat) (newline : Bool) (h : At src i s) :
    Agrees src (skipSpace src base newline) i
      (Lexer.skipBlanks (base + src.length) newline s) := by
  -- the bytes that stand at the position are read first, whatever they are
  have hread : ∀ {i : Nat} {b : UInt8} {r : Text} {o} {k : UInt8 → UInt8 → Cursor SyntaxError Bool}
      {d : Cursor SyntaxError Bool}, At src i (b :: r) → Agrees src (k b (r.headD 0)) i o →
      Agrees src (if i < src.length then item src i >>= fun b => peekAt src 1 >>= k b else d) i o := by
    intro i b r o k d h hk
    rw [if_pos h.lt]
    exact .item h (.step (run_peekAt h) (Nat.le_refl i) hk)
  fun_induction Lexer.skipBlanks (base + src.length) newline s generalizing i with
  | case1 newline r ih | case2 newline r ih | case3 newline r ih | case4 newline r ih =>
    rw [skipSpace]
    exact .get (hread h (.set (Nat.le_succ i) (ih h.cons)))
  | case5 newline r ih =>
    rw [skipSpace]
    refine .get (hread h (.bind (agrees_skipWhile h) fun j hij hj => ih ?_))
    rwa [restOfLine_eq_dropWhile]
  | case6 newline r broke r' hcomment ih =>
    rw [afterComment?_eq] at hcomment
    obtain ⟨n, hn, hr⟩ := Option.map_eq_some_iff.1 hcomment
    cases hr
    rw [skipSpace]
    have hinner : At src (i + 2) r := h.cons.cons
    refine .get (hread h (.step (run_slice_rest hinner) (Nat.le_refl i) ?_))
    rw [hn]
    obtain ⟨u, w, rfl, rfl⟩ := indexOf?_spec hn
    have hcomment : (slice src i (i + 2 + u.length) : Cursor SyntaxError Text).run i =
        pure (47 :: 42 :: u, i) := by
      have hslice := run_slice (ε := SyntaxError) (k := i) (x := 47 :: 42 :: u) h
      rwa [show (47 :: 42 :: u).length = 2 + u.length by simp only [List.length_cons]; omega, ← Nat.add_assoc] at hslice
    refine .step hcomment (Nat.le_refl i) (.set (by omega) ?_)
    rw [List.take_left] at ih ⊢
    refine ih ?_
    have hdrop := h.cons.cons.drop (n := u.length + 2) (by
      have hmark : ("*/" : Text).length = 2 := rfl
      simp only [List.length_append]
      omega)
    rwa [show i + 1 + 1 + (u.length + 2) = i + u.length + 4 by omega] at hdrop
  | case7 newline r hcomment =>
    rw [afterComment?_eq] at hcomment
    rw [skipSpace]
    have hinner : At src (i + 2) r := h.cons.cons
    refine .get (hread h (.step (run_slice_rest hinner) (Nat.le_refl i) ?_))
    rw [Option.map_eq_none_iff.1 hcomment]
    exact agrees_fail h
  | case8 newline s h₁ h₂ h₃ h₄ h₅ h₆ =>
    rw [skipSpace]
    refine .get ?_
    cases s with
    | nil =>
      rw [if_neg (by have := h.eq_length; omega)]
      exact .pure h
    | cons b r =>
      refine hread h ?_
      have hblank : ¬(b = 32 ∨ b = 9 ∨ b = 13) := by
        rintro (rfl | rfl | rfl)
        · exact h₂ r rfl
        · exact h₃ r rfl
        · exact h₄ r rfl
      have hline : ¬(b = 47 ∧ r.headD 0 = 47) := by
        rintro ⟨rfl, hc⟩
        cases r with
        | nil => cases hc
        | cons c r =>
          cases hc
          exact h₅ r rfl
      have hcomment : ¬(b = 47 ∧ r.headD 0 = 42) := by
        rintro ⟨rfl, hc⟩
        cases r with
        | nil => cases hc
        | cons c r =>
          cases hc
          exact h₆ r rfl
      rw [if_neg (fun hb => h₁ r (by rw [hb])), if_neg hblank, if_neg hline, if_neg hcomment]
      exact .pure h

theorem pieces_cons (b : UInt8) (r : Text) :
    pieces (b :: r) = ((decode b r).1, b :: r.take (decode b r).2) :: pieces (r.drop (decode b r).2) := by
  rw [pieces]

theorem identLength_cons (b : UInt8) (r : Text) :
    Lexer.identLength (b :: r) =
      if isIdentPart (decode b r).1 then
        1 + (decode b r).2 + Lexer.identLength (r.drop (decode b r).2) else 0 := by
  rw [Lexer.identLength, pieces_cons, List.takeWhile_cons]
  split
  · have hsize : (r.take (decode b r).2).length = (decode b r).2 :=
      List.length_take_of_le (decode_le_length b r)
    rw [Lexer.identLength, Lexer.foldl_length, Lexer.foldl_length, List.flatMap_cons,
      List.length_append, List.length_cons, hsize]
    omega
  · rfl

theorem agrees_skipIdent (h : At src i s) :
    Agrees src (skipIdent src) i (.ok ((), s.drop (Lexer.identLength s))) := by
  induction hn : s.length using Nat.strongRecOn generalizing i s with
  | ind n ih =>
    rw [skipIdent]
    refine .get ?_
    cases s with
    | nil =>
      rw [if_neg (by have := h.eq_length; omega), List.drop_nil]
      exact .pure h
    | cons b r =>
      rw [if_pos h.lt]
      refine .step (run_slice_rest h) (Nat.le_refl i) ?_
      have hsize := decode_le_length b r
      rw [identLength_cons]
      simp only
      split
      · have hrest := ih (r.drop (decode b r).2).length
          (by rw [← hn, List.length_drop, List.length_cons]; omega) (h.cons.drop hsize) rfl
        rw [List.drop_drop] at hrest
        rw [Nat.add_assoc 1, Nat.add_comm 1, List.drop_succ_cons]
        exact .set (by omega) hrest
      · exact .pure h

/-- How many bytes a sign takes. -/
def signLength : Text → Nat
  | [] => 0
  | b :: _ => if b = 43 ∨ b = 45 then 1 else 0

theorem signLength_le (s : Text) : signLength s ≤ s.length := by
  unfold signLength
  split
  · exact Nat.le_refl 0
  · split
    · exact Nat.succ_le_succ (Nat.zero_le _)
    · exact Nat.zero_le _

theorem run_skipSign (h : At src i s) :
    (skipSign src).run i = pure ((), i + signLength s) := by
  rw [skipSign, StateT.run_bind, StateT.run_get, pure_bind]
  cases s with
  | nil =>
    rw [if_neg (by have := h.eq_length; omega)]
    rfl
  | cons b r =>
    rw [if_pos h.lt, StateT.run_bind, h.run_item, pure_bind, signLength]
    split
    · rfl
    · rfl

theorem drop_runLength (p : UInt8 → Bool) (s : Text) :
    s.drop (Lexer.runLength p s) = s.dropWhile p := by
  have hsplit := List.takeWhile_append_dropWhile (p := p) (l := s)
  rw [Lexer.runLength]
  exact (congrArg (List.drop _) hsplit.symm).trans List.drop_left

theorem runLength_digits (s : Text) :
    Lexer.runLength isDigit s = 0 ↔ isDigit (s.headD 0) = false := by
  cases s with
  | nil => exact ⟨fun _ => rfl, fun _ => rfl⟩
  | cons b r =>
    rw [Lexer.runLength, List.takeWhile_cons, List.headD_cons]
    split
    · rename_i hb
      simp [hb]
    · rename_i hb
      simpa using hb

theorem agrees_skipDigits (h : At src i s) :
    Agrees src (skipWhile src isDigit) i (.ok ((), s.drop (Lexer.runLength isDigit s))) := by
  rw [drop_runLength]
  exact agrees_skipWhile h

theorem agrees_skipFraction (h : At src i s) :
    Agrees src (skipFraction src) i (.ok ((), s.drop (Lexer.fractionLength s))) := by
  rw [skipFraction]
  refine .get ?_
  cases s with
  | nil =>
    rw [if_neg (by have := h.eq_length; omega), List.drop_nil]
    exact .pure h
  | cons b r =>
    rw [if_pos h.lt]
    refine .item h (.step (run_peekAt h) (Nat.le_refl i) ?_)
    rw [Lexer.fractionLength.eq_def]
    split
    · rename_i hfraction
      obtain ⟨rfl, hdigit⟩ := hfraction
      have hsome : ¬ Lexer.runLength isDigit r = 0 := by
        rw [runLength_digits, hdigit]
        exact Bool.noConfusion
      simp only [if_neg hsome, Nat.add_comm 1, List.drop_succ_cons]
      exact .set (Nat.le_succ i) (agrees_skipDigits h.cons)
    · rename_i hfraction
      split
      · rename_i heq
        cases heq
        have hnone : Lexer.runLength isDigit r = 0 := by
          rw [runLength_digits]
          exact Bool.eq_false_iff.2 fun hdigit => hfraction ⟨rfl, hdigit⟩
        simp only [if_pos hnone, List.drop_zero]
        exact .pure h
      · exact .pure h

theorem exponentLength_cons (b : UInt8) (r : Text) :
    Lexer.exponentLength (b :: r) =
      if b = 101 ∨ b = 69 then
        if Lexer.runLength isDigit (r.drop (signLength r)) = 0 then 0
        else 1 + signLength r + Lexer.runLength isDigit (r.drop (signLength r))
      else 0 := by
  have hsign : ∀ c : UInt8, (c == '+' || c == '-') = decide (c = 43 ∨ c = 45) := by
    intro c
    rw [Bool.decide_or]
    rfl
  have hletter : (b == 'e' || b == 'E') = decide (b = 101 ∨ b = 69) := by
    rw [Bool.decide_or]
    rfl
  rw [Lexer.exponentLength.eq_def]
  cases r with
  | nil =>
    simp only [hletter, decide_eq_true_eq]
    rfl
  | cons c r =>
    simp only [hletter, hsign, decide_eq_true_eq]
    rfl

theorem run_skipDigits (h : At src i s) :
    (skipWhile src isDigit).run i = pure ((), i + Lexer.runLength isDigit s) := by
  obtain ⟨j, -, hj, hrun⟩ := agrees_skipDigits h
  have hi := h.length
  have hlen := hj.length
  have hle := Lexer.runLength_le isDigit s
  rw [List.length_drop] at hlen
  rw [hrun, show j = i + Lexer.runLength isDigit s by omega]

theorem run_skipExponent (h : At src i s) :
    (skipExponent src).run i = pure ((), i + Lexer.exponentLength s) := by
  rw [skipExponent, StateT.run_bind, StateT.run_get, pure_bind]
  cases s with
  | nil =>
    rw [if_neg (by have := h.eq_length; omega)]
    rfl
  | cons b r =>
    rw [if_pos h.lt, StateT.run_bind, h.run_item, pure_bind, exponentLength_cons]
    split
    · have hafter := h.cons.drop (signLength_le r)
      rw [StateT.run_bind, StateT.run_set, pure_bind, StateT.run_bind, run_skipSign h.cons, pure_bind,
        StateT.run_bind, StateT.run_get, pure_bind]
      simp only
      cases hr : r.drop (signLength r) with
      | nil =>
        rw [hr] at hafter
        rw [if_neg (by have := hafter.eq_length; omega)]
        rfl
      | cons c r' =>
        rw [hr] at hafter
        rw [if_pos hafter.lt, StateT.run_bind, hafter.run_item, pure_bind]
        split
        · rename_i hdigit
          have hsome : ¬ Lexer.runLength isDigit (c :: r') = 0 := by
            rw [runLength_digits, List.headD_cons, hdigit]
            exact Bool.noConfusion
          rw [run_skipDigits hafter, if_neg hsome]
          simp only [Nat.add_assoc]
        · rename_i hdigit
          have hnone : Lexer.runLength isDigit (c :: r') = 0 := by
            rw [runLength_digits]
            exact Bool.eq_false_iff.2 hdigit
          rw [if_pos hnone]
          rfl
    · rfl

theorem agrees_skipExponent (h : At src i s) :
    Agrees src (skipExponent src) i (.ok ((), s.drop (Lexer.exponentLength s))) :=
  ⟨_, Nat.le_add_right i _, h.drop (Lexer.exponentLength_le s), run_skipExponent h⟩

theorem agrees_skipNumber (h : At src i (b :: r)) :
    Agrees src (skipNumber src) i (.ok ((), (b :: r).drop (Lexer.numberLength (b :: r)))) := by
  rw [skipNumber]
  refine .get (.item h (.step (run_peekAt h) (Nat.le_refl i) ?_))
  split
  · rename_i hhex
    obtain ⟨rfl, hx⟩ := hhex
    cases r with
    | nil => rcases hx with hx | hx <;> cases hx
    | cons x r =>
      rw [List.headD_cons] at hx
      have hlen : Lexer.numberLength (48 :: x :: r) = 2 + Lexer.runLength isHexDigit r := by
        rcases hx with rfl | rfl
        · rfl
        · rfl
      rw [hlen, Nat.add_comm 2, List.drop_succ_cons, List.drop_succ_cons, drop_runLength]
      exact .set (Nat.le_add_right i 2) (agrees_skipWhile h.cons.cons)
  · rename_i hhex
    have hlen : Lexer.numberLength (b :: r) =
        let whole := Lexer.runLength (fun b => isDigit b || b == 95) (b :: r)
        let part := whole + Lexer.fractionLength ((b :: r).drop whole)
        part + Lexer.exponentLength ((b :: r).drop part) := by
      rw [Lexer.numberLength]
      · rfl
      · rintro t ⟨⟩
        exact hhex ⟨rfl, .inl rfl⟩
      · rintro t ⟨⟩
        exact hhex ⟨rfl, .inr rfl⟩
    rw [hlen]
    refine .bind (agrees_skipWhile h) fun j hij hj => ?_
    rw [← drop_runLength] at hj
    refine .bind (agrees_skipFraction hj) fun k hjk hk => ?_
    have hrest := agrees_skipExponent hk
    simp only [List.drop_drop] at hrest ⊢
    exact hrest

/-! ### Strings and template literals -/

theorem agrees_readHex {start n : Nat} (h : At src i s) :
    Agrees src (readHex src base start n) i
      (match (Lexer.hexEscape? n s).elim (Except.error SyntaxCause.invalidEscape) Except.ok with
      | .error cause => .error ⟨cause, base + start⟩
      | .ok v => .ok v) := by
  have hlen := h.length
  rw [readHex, Lexer.hexEscape?]
  refine .get ?_
  split
  · rename_i hshort
    rw [if_pos (by omega)]
    exact .refuse src i _
  · rename_i hshort
    have hn : n ≤ s.length := by omega
    have hslice := run_slice (ε := SyntaxError) (k := i) (x := s.take n) (s := s.drop n)
      (by rwa [List.take_append_drop])
    rw [List.length_take_of_le hn] at hslice
    rw [if_neg (by omega)]
    refine .step hslice (Nat.le_refl i) ?_
    cases Lexer.hexValue? (s.take n) with
    | none => exact .refuse src i _
    | some c => exact .set (Nat.le_add_right i n) (.pure (h.drop hn))

theorem agrees_readEscape (base : Nat) (h : At src i (b :: r)) :
    Agrees src (readEscape src base) i
      (match Lexer.escape r with
      | .error cause => .error ⟨cause, base + i⟩
      | .ok v => .ok v) := by
  rw [readEscape]
  refine .get (.set (Nat.le_succ i) ?_)
  cases r with
  | nil =>
    rw [if_pos (Nat.le_of_eq h.cons.eq_length.symm)]
    exact .refuse src _ _
  | cons c r =>
    have hnext := h.cons.cons
    rw [if_neg (Nat.not_le.2 h.cons.lt)]
    refine .item h.cons (.set (Nat.le_succ _) ?_)
    split
    · exact .pure hnext
    · exact .pure hnext
    · exact .pure hnext
    · exact .pure hnext
    · exact agrees_readHex hnext
    · exact agrees_readHex hnext
    · exact .pure hnext
    · rename_i h₁ h₂ h₃ h₄ h₅ h₆ h₇
      have hplain : Lexer.escape (c :: r) = .ok ([c], r) := by
        rw [Lexer.escape]
        all_goals assumption
      rw [hplain]
      exact .pure hnext

theorem agrees_stringLoop {start : Nat} {quote : UInt8} {acc : Text} (h : At src i s) :
    Agrees src (stringLoop src base start quote acc) i
      (Lexer.stringBody (base + src.length) (base + start) quote acc s) := by
  fun_induction Lexer.stringBody (base + src.length) (base + start) quote acc s
    generalizing i with
  | case1 acc =>
    rw [stringLoop]
    refine .get ?_
    rw [if_neg (by have := h.eq_length; omega)]
    exact .refuse src i _
  | case2 acc r =>
    rw [stringLoop]
    refine .get ?_
    rw [if_pos h.lt]
    refine .item h ?_
    rw [if_pos rfl]
    exact .set (Nat.le_succ i) (.pure h.cons)
  | case3 acc r hquote =>
    rw [stringLoop]
    refine .get ?_
    rw [if_pos h.lt]
    refine .item h ?_
    rw [if_neg hquote, if_pos rfl]
    exact .refuse src i _
  | case4 acc r cause hcause hquote hline =>
    rw [stringLoop]
    refine .get ?_
    rw [if_pos h.lt]
    refine .item h ?_
    rw [if_neg hquote, if_neg hline, if_pos rfl, Lexer.fail, h.offset]
    have hread := agrees_readEscape base h
    rw [hcause] at hread
    exact .bind_error hread
  | case5 acc r v r' hv hquote hline ih =>
    rw [stringLoop]
    refine .get ?_
    rw [if_pos h.lt]
    refine .item h ?_
    rw [if_neg hquote, if_neg hline, if_pos rfl]
    have hread := agrees_readEscape base h
    rw [hv] at hread
    exact .bind hread fun j _ hj => ih hj
  | case6 acc b r hquote hline hescape ih =>
    rw [stringLoop]
    refine .get ?_
    rw [if_pos h.lt]
    refine .item h ?_
    rw [if_neg hquote, if_neg hline, if_neg hescape]
    exact .set (Nat.le_succ i) (ih h.cons)

theorem agrees_readString (base : Nat) (quote : UInt8) (h : At src i (b :: r)) :
    Agrees src (readString src base quote) i
      (Lexer.stringBody (base + src.length) (base + i) quote [] r) := by
  rw [readString]
  exact .get (.set (Nat.le_succ i) (agrees_stringLoop h.cons))

/-- What a template literal that starts at `start` gives, with its text. -/
def literal {P : Lexer.TemplateRead → Prop} (src : Text) (start : Nat)
    (o : Except SyntaxError (Subtype P)) :
    Except SyntaxError ((Text × List Text × List Interpolation) × Text) :=
  o.map fun t =>
    ((src.slice start (src.length - t.1.rest.length), t.1.quasis, t.1.parts), t.1.rest)

/-- What a run of braces gives, with where its last one stands. -/
def closing {P : Text → Prop} (src : Text) (o : Except SyntaxError (Subtype P)) :
    Except SyntaxError (Nat × Text) :=
  o.map fun r => (src.length - r.1.length - 1, r.1)

/-- The programs for literals and braces agree on what is shorter than `n`.  As they call each other,
the two go by one induction, on this bound. -/
structure AgreesBelow (src : Text) (base n : Nat) : Prop where
  literals : ∀ (start : Nat) (acc : Text) {i : Nat} {s : Text}, s.length < n → start ≤ i → At src i s →
    Agrees src (templateLoop src base start acc) i
      (literal src start (Lexer.templateBody (base + src.length) (base + start) acc s))
  braces : ∀ (start depth : Nat) {i : Nat} {s : Text}, s.length < n → At src i s →
    Agrees src (braceLoop src base start depth) i
      (closing src (Lexer.closingBrace (base + src.length) (base + start) depth s))

/-- The rest of a literal is read as the literal is. -/
theorem AgreesBelow.rest_literal {n start : Nat} (hbelow : AgreesBelow src base n) (acc : Text)
    {P : Lexer.TemplateRead → Prop}
    {f : ∀ t : Lexer.TemplateRead, Lexer.partsLength t.parts + t.rest.length < s.length → P t}
    (hn : s.length < n) (hstart : start ≤ i) (h : At src i s) :
    Agrees src (templateLoop src base start acc) i (literal (P := P) src start
      (match Lexer.templateBody (base + src.length) (base + start) acc s with
        | .error e => .error e
        | .ok ⟨t, ht⟩ => .ok ⟨t, f t ht⟩)) := by
  have hrest := hbelow.literals start acc hn hstart h
  split
  · rename_i ht
    rw [ht] at hrest
    exact hrest
  · rename_i ht
    rw [ht] at hrest
    exact hrest

/-- The rest of a run of braces is read as the run is. -/
theorem AgreesBelow.rest_braces {n : Nat} (hbelow : AgreesBelow src base n) (start depth : Nat)
    {P : Text → Prop} {f : ∀ t : Text, t.length < s.length → P t} (hn : s.length < n)
    (h : At src i s) :
    Agrees src (braceLoop src base start depth) i (closing (P := P) src
      (match Lexer.closingBrace (base + src.length) (base + start) depth s with
        | .error e => .error e
        | .ok ⟨t, ht⟩ => .ok ⟨t, f t ht⟩)) := by
  have hrest := hbelow.braces start depth hn h
  split
  · rename_i ht
    rw [ht] at hrest
    exact hrest
  · rename_i ht
    rw [ht] at hrest
    exact hrest

/-- The source of an interpolation is the text up to its closing brace. -/
theorem run_interpolation {r' : Text} (hi : At src i r) (hless : r'.length < r.length) :
    (slice src i (src.length - r'.length - 1) : Cursor SyntaxError Text).run k =
      pure (r.take (r.length - r'.length - 1), k) := by
  have hlen := hi.length
  have hsource := run_slice (ε := SyntaxError) (k := k) (x := r.take (r.length - r'.length - 1))
    (s := r.drop (r.length - r'.length - 1)) (by rwa [List.take_append_drop])
  rwa [List.length_take_of_le (by omega),
    show i + (r.length - r'.length - 1) = src.length - r'.length - 1 by omega] at hsource

theorem agrees_templateLoop {n start : Nat} (hbelow : AgreesBelow src base n) (acc : Text)
    (hn : s.length < n + 1) (hstart : start ≤ i) (h : At src i s) :
    Agrees src (templateLoop src base start acc) i
      (literal src start (Lexer.templateBody (base + src.length) (base + start) acc s)) := by
  rw [Lexer.templateBody.eq_def]
  split
  · rw [templateLoop]
    refine .get ?_
    rw [if_neg (by have := h.eq_length; omega)]
    exact .refuse src i _
  -- the closing backtick
  · rename_i r
    rw [templateLoop]
    refine .get ?_
    rw [if_pos h.lt]
    refine .item h (.step (run_peekAt h) (Nat.le_refl i) ?_)
    rw [if_pos rfl]
    have hend := h.cons.length
    have hraw : (slice src start (i + 1) : Cursor SyntaxError Text).run (i + 1) =
        pure (src.slice start (src.length - r.length), i + 1) := by
      rw [slice, if_pos ⟨by omega, h.lt⟩, show src.length - r.length = i + 1 by omega]
      rfl
    exact .set (Nat.le_succ i) (.step hraw (Nat.le_refl _) (.pure h.cons))
  -- an escape
  · rename_i r
    rw [List.length_cons] at hn
    rw [templateLoop]
    refine .get ?_
    rw [if_pos h.lt]
    refine .item h (.step (run_peekAt h) (Nat.le_refl i) ?_)
    rw [if_neg (by decide), if_pos rfl]
    have hread := agrees_readEscape base h
    split
    · rename_i hcause
      rw [hcause] at hread
      rw [Lexer.fail, h.offset]
      exact .bind_error hread
    · rename_i v r' hv
      rw [hv] at hread
      have hless := Lexer.length_escape hv
      exact .bind hread fun j hij hj => hbelow.rest_literal (v.reverse ++ acc)
        (by simp only at hless; omega) (Nat.le_trans hstart hij) hj
  -- an interpolation
  · rename_i r
    rw [List.length_cons, List.length_cons] at hn
    rw [templateLoop]
    refine .get ?_
    rw [if_pos h.lt]
    refine .item h (.step (run_peekAt h) (Nat.le_refl i) ?_)
    rw [if_neg (by decide), if_neg (by decide), if_pos ⟨rfl, rfl⟩]
    refine .set (Nat.le_add_right i 2) ?_
    have hinner : At src (i + 2) r := h.cons.cons
    have hclose := hbelow.braces i 1 (by omega) hinner
    rw [h.offset]
    split
    · rename_i hfail
      rw [hfail] at hclose
      exact .bind_error hclose
    · rename_i r' hless hr
      rw [hr] at hclose
      replace hclose : Agrees src (braceLoop src base i 1) (i + 2)
          (.ok (src.length - r'.length - 1, r')) := hclose
      refine .bind hclose fun j hij hj => ?_
      have hlen := hinner.length
      have hend := hj.length
      refine .step (run_interpolation hinner hless) (Nat.le_refl j) (.set (by omega) ?_)
      rw [show src.length - r'.length - 1 + 1 = j by omega, Lexer.offset,
        show base + src.length - r.length = base + (i + 2) by omega]
      have hrest := hbelow.literals start [] (by omega) (by omega) hj
      split
      · rename_i ht
        rw [ht] at hrest
        exact .bind_error hrest
      · rename_i ht
        rw [ht] at hrest
        exact .bind hrest fun k _ hk => .pure hk
  · rename_i b r htick hslash hopen
    rw [List.length_cons] at hn
    have hopen' : ¬(b = 36 ∧ r.headD 0 = 123) := by
      rintro ⟨rfl, hc⟩
      cases r with
      | nil => cases hc
      | cons c r =>
        cases hc
        exact hopen r rfl rfl
    rw [templateLoop]
    refine .get ?_
    rw [if_pos h.lt]
    refine .item h (.step (run_peekAt h) (Nat.le_refl i) ?_)
    rw [if_neg htick, if_neg hslash, if_neg hopen']
    exact .set (Nat.le_succ i)
      (hbelow.rest_literal (b :: acc) (by omega) (Nat.le_succ_of_le hstart) h.cons)

theorem agrees_braceLoop {n start depth : Nat} (hbelow : AgreesBelow src base n)
    (hn : s.length < n + 1) (h : At src i s) :
    Agrees src (braceLoop src base start depth) i
      (closing src (Lexer.closingBrace (base + src.length) (base + start) depth s)) := by
  cases s with
  | nil =>
    rw [Lexer.closingBrace, braceLoop]
    refine .get ?_
    rw [if_neg (by have := h.eq_length; omega)]
    exact .refuse src i _
  | cons b r =>
    rw [List.length_cons] at hn
    rw [Lexer.closingBrace, braceLoop]
    refine .get ?_
    rw [if_pos h.lt]
    refine .item h ?_
    split
    · exact .set (Nat.le_succ i) (hbelow.rest_braces start _ (by omega) h.cons)
    split
    · split
      · have hend := h.cons.length
        refine .set (Nat.le_succ i) ?_
        change Agrees src _ (i + 1) (.ok (src.length - r.length - 1, r))
        rw [show src.length - r.length - 1 = i by omega]
        exact .pure h.cons
      · exact .set (Nat.le_succ i) (hbelow.rest_braces start _ (by omega) h.cons)
    by_cases hquote : b = '"' ∨ b = '\''
    · have hstring := agrees_readString base b h
      rw [← h.offset] at hstring
      rw [if_pos hquote, if_pos (by simpa using hquote)]
      split
      · rename_i hv
        rw [hv] at hstring
        exact .bind_error hstring
      · rename_i v r' hv
        have hless := Lexer.length_stringBody hv
        rw [hv] at hstring
        exact .bind hstring fun j _ hj =>
          hbelow.rest_braces start depth (by simp only at hless; omega) hj
    have hquote' : ¬(b = '"' || b = '\'') = true := by simpa using hquote
    rw [if_neg hquote, if_neg hquote']
    split
    · have hliteral := hbelow.literals i [] (by omega) (Nat.le_succ i) h.cons
      rw [h.offset]
      refine .set (Nat.le_succ i) ?_
      split
      · rename_i ht
        rw [ht] at hliteral
        exact .bind_error hliteral
      · rename_i t hless ht
        rw [ht] at hliteral
        refine .bind hliteral fun j _ hj => ?_
        have hrest := hbelow.braces start depth (by simp only; omega) hj
        split
        · rename_i hr
          rw [hr] at hrest
          exact hrest
        · rename_i hr
          rw [hr] at hrest
          exact hrest
    · exact .set (Nat.le_succ i) (hbelow.rest_braces start _ (by omega) h.cons)

theorem agreesBelow (src : Text) (base n : Nat) : AgreesBelow src base n := by
  induction n with
  | zero => exact ⟨fun _ _ _ _ hn => absurd hn (Nat.not_lt_zero _),
      fun _ _ _ _ hn => absurd hn (Nat.not_lt_zero _)⟩
  | succ n ih => exact ⟨fun start acc _ _ hn hstart h => agrees_templateLoop ih acc hn hstart h,
      fun start depth _ _ hn h => agrees_braceLoop ih hn h⟩

theorem agrees_readTemplate (base : Nat) (h : At src i (b :: r)) :
    Agrees src (readTemplate src base) i
      ((literal src i (Lexer.templateBody (base + src.length) (base + i) [] r)).map fun x =>
        (.template x.1.1 x.1.2.1 x.1.2.2, x.2)) := by
  have hliteral := (agreesBelow src base (r.length + 1)).literals i []
    (Nat.lt_succ_self _) (Nat.le_succ i) h.cons
  rw [readTemplate]
  refine .get (.set (Nat.le_succ i) ?_)
  cases ht : Lexer.templateBody (base + src.length) (base + i) [] r with
  | error e =>
    rw [ht] at hliteral
    exact .bind_error hliteral
  | ok t =>
    rw [ht] at hliteral
    exact .bind hliteral fun j _ hj => .pure hj

/-! ### Tokens -/

/-- The text between two offsets, by what is left at them. -/
theorem run_slice_between {n : Nat} (hi : At src i s) (hj : At src j (s.drop n)) (hij : i ≤ j) :
    (slice src i j : Cursor ε Text).run k = pure (s.take n, k) := by
  have hlen := hi.length
  have hend := hj.length
  rw [List.length_drop] at hend
  have htake : src.slice i j = s.take n := by
    rw [Text.slice, hi.2]
    rcases Nat.le_total n s.length with hn | hn
    · rw [show j - i = n by omega]
    · rw [List.take_of_length_le hn, List.take_of_length_le (by omega)]
  rw [slice, if_pos ⟨hij, by omega⟩, htake]
  rfl

theorem startsNumber_iff (b : UInt8) (r : Text) :
    Lexer.startsNumber (b :: r) = true ↔
      isDigit b = true ∨ b = 46 ∧ isDigit (r.headD 0) = true := by
  by_cases hb : b = 46
  · subst hb
    cases r with
    | nil => decide
    | cons c r => simp [Lexer.startsNumber, show isDigit 46 = false by decide]
  · rw [Lexer.startsNumber]
    · simp [hb]
    · exact fun _ _ h => absurd h hb

theorem drop_pred {n : Nat} (hn : 0 < n) (b : UInt8) (r : Text) : r.drop (n - 1) = (b :: r).drop n := by
  obtain ⟨m, rfl⟩ := Nat.exists_eq_succ_of_ne_zero (Nat.ne_of_gt hn)
  rfl

theorem agrees_readNumber (h : At src i (b :: r)) :
    Agrees src (readNumber src) i (.ok (.number ((b :: r).take (Lexer.numberLength (b :: r))),
      (b :: r).drop (Lexer.numberLength (b :: r)))) := by
  rw [readNumber]
  refine .get (.bind (agrees_skipNumber h) fun j hij hj => .get ?_)
  exact .step (run_slice_between h hj hij) (Nat.le_refl j) (.pure hj)

theorem agrees_readWord (h : At src i s) :
    Agrees src (readWord src) i (.ok
      (match Keyword.ofText? (s.take (Lexer.identLength s)) with
        | some k => .keyword k
        | none => .ident (s.take (Lexer.identLength s)),
      s.drop (Lexer.identLength s))) := by
  rw [readWord]
  refine .get (.bind (agrees_skipIdent h) fun j hij hj => .get ?_)
  refine .step (run_slice_between h hj hij) (Nat.le_refl j) ?_
  cases Keyword.ofText? (s.take (Lexer.identLength s)) with
  | some k => exact .pure hj
  | none => exact .pure hj

theorem agrees_readLexeme (base : Nat) (h : At src i (b :: r)) :
    Agrees src (readLexeme src base) i
      ((Lexer.lexeme (base + src.length) b r).map Subtype.val) := by
  rw [readLexeme]
  refine .get ?_
  rw [if_pos h.lt]
  refine .item h (.step (run_peekAt h) (Nat.le_refl i) ?_)
  unfold Lexer.lexeme
  simp only
  by_cases hquote : b = '"' ∨ b = '\''
  · have hstring := agrees_readString base b h
    rw [← h.offset] at hstring
    rw [if_pos hquote, if_pos (by simpa using hquote)]
    split
    · rename_i hv
      rw [hv] at hstring
      exact .bind_error hstring
    · rename_i hv
      rw [hv] at hstring
      exact .bind hstring fun j _ hj => .pure hj
  have hquote' : ¬(b = '"' || b = '\'') = true := by simpa using hquote
  rw [if_neg hquote, if_neg hquote']
  split
  · have htemplate := agrees_readTemplate base h
    rw [← h.offset] at htemplate
    split
    · rename_i ht
      rw [ht] at htemplate
      exact htemplate
    · rename_i t _ ht
      rw [ht] at htemplate
      have hraw : src.slice i (src.length - t.rest.length) =
          (b :: r).take ((b :: r).length - t.rest.length) := by
        have hlen := h.length
        rw [Text.slice, h.2]
        congr 1
        omega
      rw [← hraw]
      exact htemplate
  by_cases hnumber : isDigit b = true ∨ b = 46 ∧ isDigit (r.headD 0) = true
  · have hstarts := (startsNumber_iff b r).2 hnumber
    rw [if_pos hnumber, if_pos hstarts]
    have hread := agrees_readNumber h
    rw [← drop_pred (Lexer.numberLength_pos hstarts)] at hread
    exact hread
  rw [if_neg hnumber, if_neg (mt (startsNumber_iff b r).1 hnumber), readMark]
  refine .get (.step (run_slice_rest h) (Nat.le_refl i) ?_)
  rw [show firstCode (b :: r) = (decode b r).1 from rfl]
  by_cases hstart : isIdentStart (decode b r).1 = true
  · have hpart : isIdentPart (decode b r).1 = true := by
      rw [isIdentPart, hstart]
      rfl
    have hpos : 0 < Lexer.identLength (b :: r) := by
      rw [identLength_cons, if_pos hpart]
      omega
    have hread := agrees_readWord h
    rw [← drop_pred hpos] at hread
    rw [if_pos hstart, if_pos hstart]
    split
    · rename_i hk
      rw [hk] at hread
      exact hread
    · rename_i hk
      rw [hk] at hread
      exact hread
  rw [if_neg hstart, if_neg hstart]
  cases hmark : Lexer.mark? (b :: r) with
  | none => exact agrees_fail h
  | some p =>
    have hstands := (Lexer.mark?_longest hmark).1.1
    have hpos : 0 < p.text.length := by cases p <;> decide
    have hnext := h.drop hstands.length_le
    rw [← drop_pred hpos] at hnext
    exact .set (Nat.le_add_right i _) (.pure hnext)

theorem ne_eof_of_lexeme {stop : Nat} {x} (h : Lexer.lexeme stop b r = .ok x) : x.1.1 ≠ .eof := by
  obtain ⟨⟨l, rest⟩, hle⟩ := x
  obtain ⟨y, -, -, hspells⟩ := Lexer.lexeme_spells h
  intro heof
  simp only at heof
  rw [heof] at hspells
  cases hspells

theorem agrees_tokenLoop (base : Nat) (h : At src i s) :
    Agrees src (tokenLoop src base) i
      ((Token.scan (base + src.length) s).map fun r => (r.1 ++ [r.2], [])) := by
  fun_induction Token.scan (base + src.length) s generalizing i with
  | case1 s e hblank =>
    have hskip := agrees_skipSpace base false h
    rw [hblank] at hskip
    rw [tokenLoop]
    exact .bind_error hskip
  | case2 s newline hblank =>
    have hskip := agrees_skipSpace base false h
    rw [hblank] at hskip
    rw [tokenLoop]
    refine .bind hskip fun j _ hj => .get ?_
    have hend : (readLexeme src base).run j = pure (.eof, j) := by
      rw [readLexeme, StateT.run_bind, StateT.run_get, pure_bind,
        if_neg (by have := hj.eq_length; omega)]
      rfl
    refine .step hend (Nat.le_refl j) ?_
    rw [if_pos rfl, hj.eq_length]
    rw [hj.eq_length] at hj
    exact .pure hj
  | case3 s newline b r hblank e hlexeme =>
    have hskip := agrees_skipSpace base false h
    rw [hblank] at hskip
    rw [tokenLoop]
    refine .bind hskip fun j _ hj => .get ?_
    have hread := agrees_readLexeme base hj
    rw [hlexeme] at hread
    exact .bind_error hread
  | case4 s newline b r hblank l rest hle hlexeme e hrest ih =>
    have hskip := agrees_skipSpace base false h
    rw [hblank] at hskip
    rw [tokenLoop]
    refine .bind hskip fun j _ hj => .get ?_
    have hread := agrees_readLexeme base hj
    rw [hlexeme] at hread
    refine .bind hread fun k _ hk => ?_
    have hmore := ih hk
    rw [hrest] at hmore
    rw [if_neg (ne_eof_of_lexeme hlexeme)]
    exact .bind_error hmore
  | case5 s newline b r hblank l rest hle hlexeme ts eof hrest ih =>
    have hskip := agrees_skipSpace base false h
    rw [hblank] at hskip
    rw [tokenLoop]
    refine .bind hskip fun j _ hj => .get ?_
    have hread := agrees_readLexeme base hj
    rw [hlexeme] at hread
    refine .bind hread fun k _ hk => ?_
    have hmore := ih hk
    rw [hrest] at hmore
    rw [if_neg (ne_eof_of_lexeme hlexeme), hj.offset]
    exact .bind hmore fun l _ hl => .pure hl

/-- The tokens of a source are read to their end, with the one there. -/
theorem run_tokenize (src : Text) (base k : Nat) :
    (tokenize src base).run k =
      match Token.ofSource base src with
      | .error e => throw (.refused e)
      | .ok (ts, eof) => pure (ts ++ [eof], src.length) := by
  have hread := agrees_tokenLoop base (At.front src)
  rw [tokenize, StateT.run_bind, StateT.run_set, pure_bind, Token.ofSource]
  cases hscan : Token.scan (base + src.length) src with
  | error e =>
    rw [hscan] at hread
    exact hread
  | ok r =>
    rw [hscan] at hread
    obtain ⟨j, -, hj, hrun⟩ := hread
    rw [hrun, hj.eq_length]

end

/-- The reader of tokens comes to an end on every source. -/
theorem answer_tokenize (src : Text) (base : Nat) :
    (tokenize src base).answer =
      some (((Token.ofSource base src).map fun r => r.1 ++ [r.2]).mapError .refused) := by
  have hrun := run_tokenize src base 0
  cases ho : Token.ofSource base src with
  | error e =>
    rw [ho] at hrun
    exact answer_error hrun
  | ok r =>
    rw [ho] at hrun
    exact answer_ok hrun

end Cursor

end Reactive
