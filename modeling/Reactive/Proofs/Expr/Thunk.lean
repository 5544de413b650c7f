/-
Expressions as bodies of arrow functions.

Generated code hands an expression to the runtime as a function without
parameters: the text `() => ` and after it the canonical text of the
expression.  The brace of an object literal at the very start of the body is
read as that of a block, so the text stands for the function meant exactly if
the expression does not start so.

* `Expr.parse_thunk_iff` — which expressions may stand there.
-/
import Reactive.Proofs.Expr.RoundTrip

namespace Reactive

open Lexer

namespace Grammar

/-- Tokens of a function without parameters, and those of its body. -/
def IsThunk (E : Shape) : Shape := fun c _ ts =>
  ∃ o k a xs, ts = o :: k :: a :: xs ∧ o.lexeme = .punct .lparen ∧ k.lexeme = .punct .rparen ∧
    a.lexeme = .punct .arrow ∧ E c false xs

theorem spelled_thunk {x : Text} {E : Shape} (hx : Spelled x E) :
    Spelled ("() => " ++ x) (IsThunk E) := by
  have hparams := (spelled_mark (p := .rparen) rfl).seq (hx.spaced (p := .arrow)) blank_space
    fun _ => breaks_blank _
  refine (hparams.after (p := .lparen) rfl Blank.nil).imp ?_
  rintro c nl _ ⟨o, _, rfl, ho, -, _, _, rfl, ⟨k, rfl, hk, -⟩, a, xs, rfl, ha, -, hE⟩
  exact ⟨o, k, a, xs, rfl, ho, hk, ha, hE⟩

/-- The expression that is the body of a function without parameters starts with no brace. -/
theorem Derives.thunk_body {c : Parser.Source} {τ : Tail} {o k a : Token} {xs : List Token}
    {p : Nat} {e : Expr} (ho : o.lexeme = .punct .lparen) (hk : k.lexeme = .punct .rparen)
    (ha : a.lexeme = .punct .arrow)
    (h : Derives c (.expr τ) (o :: k :: a :: xs) (.arrow p [] (.expr e))) :
    Parser.isMark .lbrace xs = false := by
  generalize hts : o :: k :: a :: xs = ts at h
  generalize hf : Expr.arrow p [] (.expr e) = f at h
  cases h with
  | value h =>
    -- No conditional starts like an arrow function.
    subst hts
    have harrow : Parser.startsArrow (o :: k :: a :: xs) = true := by
      rw [Parser.startsArrow, ho]
      exact (arrowAfter_one_rparen hk _).trans (by simp [Parser.isMark, ha])
    have hnone := h.told.1 [] rfl
    rw [List.append_nil, harrow] at hnone
    cases hnone
  | assign => cases hf
  | arrowOne ht =>
    cases hts
    rw [ho] at ht
    cases ht
  | arrow _ hns _ hbody =>
    obtain ⟨-, rfl, rfl⟩ := Expr.arrow.inj hf
    cases hns with
    | noNames =>
      cases hts
      cases hbody with
      | arrowValue _ hmark => exact hmark

end Grammar

/-- **An expression is the body of the function that its text is made to** exactly if its text does
not start with an object literal. -/
theorem Expr.parse_thunk_iff {src : Text} {e : Expr} (hparse : Expr.parse src = .ok e)
    (hi : e.Every intact false) :
    (∃ p e', Expr.parse ("() => " ++ e.text) = .ok (.arrow p [] (.expr e')) ∧ e'.bare = e.bare) ↔
      e.opensBrace = false := by
  obtain ⟨ts, eof, hsrc, o, k, a, xs, rfl, ho, hk, ha, ⟨t, r, rfl, -, hbrace⟩, τ, e', hd, hbare⟩ :=
    (Grammar.spelled_thunk (Expr.spelled_text hparse hi)).ofSource 0
  constructor
  · rintro ⟨p, e₁, hthunk, -⟩
    obtain ⟨τ', hderives⟩ := derives_of_parseAt hsrc hthunk
    have hmark := hderives.thunk_body ho hk ha
    rw [← Bool.not_eq_true, ← hbrace]
    intro hopen
    simp [Parser.isMark, hopen] at hmark
  · intro hopen
    have hmark : Parser.isMark .lbrace (t :: r) = false :=
      Parser.isMark_cons_ne fun h => Bool.noConfusion (hopen.symm.trans (hbrace.1 h))
    have hthunk := parseAt_of_derives hsrc
      (.arrow ho (.noNames hk) ha (.arrowValue hd hmark) : Grammar.Derives _ (.expr τ) _ _)
    exact ⟨_, e', hthunk, hbare⟩

/-- The name and the value of an object literal as a statement with a label. -/
example : Expr.parse "() => \x7ba: b\x7d" =
    .ok (.arrow 0 [] (.block [.labeled 7 "a" (.expr 10 (.ident 10 "b"))])) := by
  with_unfolding_all rfl

end Reactive
