/-
What the parsers read is derived by the grammar.

A parser splits its tokens into those it used and those that are left.  The
former derive its result, and the latter do not go on with it: that is what
makes the end of a statement, and a choice without `else`, a derivation.
`Derived` says this of the parsers of a level, and holds of all of them by
the weight of the tokens.

* `Parser.derived_level` — what the parsers read is derived;
* `Expr.derives_of_parseAt` — so is a parsed source.
-/
import Reactive.Proofs.Expr.Lookahead

namespace Reactive

open Grammar

namespace Parser

open Token (weight)

/-! ### Outcomes -/

/-- A parser's outcome: the result and the tokens left are in a relation. -/
def Reads {α : Type} {n : Nat} (P : α → List Token → Prop) (o : Outcome α n) : Prop :=
  ∀ x, o = .ok x → P x.1.1 x.1.2

section

variable {α β : Type} {m n : Nat} {P : α → List Token → Prop} {Q : β → List Token → Prop}

theorem Reads.error (e : SyntaxError) : Reads P (.error e : Outcome α n) := fun _ h => by cases h

theorem Reads.refuse (c : Source) (ts : List Token) (cause : Lexeme → SyntaxCause) :
    Reads P (c.refuse ts cause : Outcome α n) := fun _ h => by cases h

theorem Reads.ok {a : α} {r : List Token} {h : weight r < n} (ha : P a r) :
    Reads P (.ok ⟨(a, r), h⟩ : Outcome α n) := by
  intro x hx
  cases hx
  exact ha

theorem Reads.map {o : Outcome α n} (h : Reads P o) {f : α → β}
    (hf : ∀ a r, P a r → Q (f a) r) : Reads Q (o.map f) := by
  intro x hx
  cases o with
  | error e => cases hx
  | ok y =>
    cases hx
    exact hf _ _ (h y rfl)

theorem Reads.widen {o : Outcome α m} (h : Reads P o) (hmn : m ≤ n) : Reads P (o.widen hmn) := by
  intro x hx
  cases o with
  | error e => cases hx
  | ok y =>
    cases hx
    exact h y rfl

theorem Reads.of_ok {o : Outcome α n} (h : Reads P o) {a : α} {r : List Token} {hr : weight r < n}
    (ho : o = .ok ⟨(a, r), hr⟩) : P a r :=
  h _ ho

theorem Reads.imp {P' : α → List Token → Prop} {o : Outcome α n} (h : Reads P o)
    (hP : ∀ a r, P a r → P' a r) : Reads P' o :=
  fun x hx => hP _ _ (h x hx)

end

/-- The next token, if there is one, is not of a kind. -/
def Stops (f : Lexeme → Bool) (r : List Token) : Prop := ∀ t ∈ r.head?, f t.lexeme = false

theorem Stops.nil {f : Lexeme → Bool} : Stops f [] := fun _ h => by cases h

theorem stops_cons {f : Lexeme → Bool} {t : Token} {r : List Token} :
    Stops f (t :: r) ↔ f t.lexeme = false := by
  simp [Stops]

/-- The tokens used derive the result. -/
def Takes (c : Source) (s : Sym) (ts : List Token) (a : s.Out) (r : List Token) : Prop :=
  ∃ xs, ts = xs ++ r ∧ Derives c s xs a

/-- The tokens used are an expression, and those left do not go on with it. -/
def TakesExpr (c : Source) (ts : List Token) (e : Expr) (r : List Token) : Prop :=
  ∃ xs τ, ts = xs ++ r ∧ Derives c (.expr τ) xs e ∧ Stops τ.goesOn r

/-- The tokens used are an operand, and those left start no link after it. -/
def TakesUnary (c : Source) (ts : List Token) (e : Expr) (r : List Token) : Prop :=
  ∃ xs τ, ts = xs ++ r ∧ Derives c (.unary τ) xs e ∧ (τ = .chain → Stops isLink r)

/-- The tokens used are a chain of infix operators of at least a precedence, and those left do not
go on with it. -/
def TakesBinary (c : Source) (least : Nat) (ts : List Token) (e : Expr) (r : List Token) : Prop :=
  ∃ xs τ, ts = xs ++ r ∧ Derives c (.binary least τ) xs e ∧ (τ = .chain → Stops isLink r) ∧
    ∀ t ∈ r.head?, ∀ op, infixOp? t.lexeme = some op → op.precedence < least

/-- The tokens used are a statement before the tokens that are left. -/
def TakesStmt (c : Source) (ts : List Token) (s : Stmt) (r : List Token) : Prop :=
  Takes c (.stmt r.head?) ts s r

/-- Parsers whose results are derived. -/
structure Derived {n : Nat} (L : Level n) : Prop where
  assignment : ∀ c ts h, Reads (TakesExpr c ts) (L.assignment c ts h)
  binary : ∀ c least ts h, 1 ≤ least → least ≤ 9 →
    Reads (TakesBinary c least ts) (L.binary c least ts h)
  unary : ∀ c ts h, Reads (TakesUnary c ts) (L.unary c ts h)
  statement : ∀ c ts h, Reads (TakesStmt c ts) (L.statement c ts h)

theorem expect_reads (c : Source) (p : Punct) (ts : List Token) :
    Reads (fun t r => ts = t :: r ∧ t.lexeme = .punct p) (expect c p ts) := by
  unfold expect
  split
  · split
    · rename_i ht
      exact Reads.ok ⟨rfl, ht⟩
    · exact Reads.refuse _ _ _
  · exact Reads.refuse _ _ _

theorem isMark_false {p : Punct} {ts : List Token} (h : ¬ isMark p ts = true) :
    isMark p ts = false := by
  simpa using h

/-- The tokens used before a token that is left do not start with a mark if all tokens do not. -/
theorem isMark_of_append {p : Punct} {xs r : List Token} (h : isMark p (xs ++ r) = false) :
    isMark p xs = false := by
  cases xs with
  | nil => rfl
  | cons t xs => exact h

/-! ### Primary expressions -/

section

variable {n : Nat} {L : Level n}

theorem interpolations_derives (hL : Derived L) (c : Source) :
    ∀ (parts : List Interpolation) (h : Lexer.partsLength parts < n) (es : List Expr),
      interpolations L parts h = .ok es → Derives c (.parts parts) [] es := by
  intro parts
  induction parts with
  | nil =>
    intro h es hes
    cases hes
    exact .noParts
  | cons p r ih =>
    intro h es hes
    rw [interpolations] at hes
    split at hes
    · cases hes
    · cases hes
    · rename_i t ts eof hsrc
      simp only at hes
      split at hes
      · cases hes
      · cases hes
      · rename_i hasg
        split at hes
        · cases hes
        · rename_i hrest
          cases hes
          obtain ⟨xs, τ, hxs, he, -⟩ := (hL.assignment _ _ _).of_ok hasg
          rw [List.append_nil] at hxs
          rw [← hxs] at he
          exact .parts hsrc he (ih _ _ hrest)

theorem element_reads (hL : Derived L) (c : Source) (ts : List Token) (h : weight ts < n) :
    Reads (Takes c .element ts) (element L c ts h) := by
  have hplain : ∀ e r, TakesExpr c ts e r → Takes c .element ts e r := by
    rintro e r ⟨xs, τ, rfl, he, -⟩
    exact ⟨xs, rfl, .element he⟩
  unfold element
  split
  · rename_i t r _
    simp only
    split
    · rename_i ht
      refine Reads.widen (Reads.map (hL.assignment _ _ _) ?_) _
      rintro e r' ⟨xs, τ, rfl, he, -⟩
      exact ⟨t :: xs, rfl, .spread ht he⟩
    · exact (hL.assignment _ _ _).imp hplain
  · exact (hL.assignment _ _ _).imp hplain

theorem elements_reads (hL : Derived L) (c : Source) (close : Punct) (ts : List Token)
    (h : weight ts < n) : Reads (Takes c (.elements close) ts) (elements L c close ts h) := by
  fun_induction elements L c close ts h with
  | case1 ts h hm =>
    refine Reads.map (expect_reads c close ts) ?_
    rintro k r ⟨rfl, hk⟩
    exact ⟨[k], rfl, .noElements hk⟩
  | case2 => exact Reads.error _
  | case3 ts h hm e t r hr he hr' ht ih =>
    obtain ⟨xs, rfl, hxs⟩ := (element_reads hL c _ h).of_ok he
    refine Reads.widen (Reads.map ih ?_) _
    rintro es r₁ ⟨ys, rfl, hys⟩
    exact ⟨xs ++ t :: ys, by simp, .elements hxs ht hys⟩
  | case4 ts h hm e t r hr he hr' ht =>
    obtain ⟨xs, rfl, hxs⟩ := (element_reads hL c _ h).of_ok he
    refine Reads.widen (Reads.map (expect_reads c close _) ?_) _
    rintro k r₁ ⟨heq, hk⟩
    cases heq
    exact ⟨xs ++ [t], by simp, .lastElement hxs hk⟩
  | case5 => exact Reads.refuse _ _ _

theorem propertyName?_ident {l : Lexeme} {key : Text} (h : propertyName? l = some (key, true)) :
    l = .ident key := by
  cases l with
  | ident k => cases h; rfl
  | _ => simp [propertyName?] at h

theorem property_reads (hL : Derived L) (c : Source) (ts : List Token) (h : weight ts < n) :
    Reads (Takes c .property ts) (property L c ts h) := by
  unfold property
  split
  · exact Reads.refuse _ _ _
  · rename_i t r _
    simp only
    split
    · exact Reads.refuse _ _ _
    · rename_i key isIdent hkey
      have hshort : ∀ r', isIdent = true →
          Takes c .property (t :: r') (.mk key (.ident t.pos key) true) r' := by
        rintro r' rfl
        exact ⟨[t], rfl, .shorthand (propertyName?_ident hkey)⟩
      split
      · split
        · rename_i u r' _ _ hu
          refine Reads.widen (Reads.map (hL.assignment _ _ _) ?_) _
          rintro e r₁ ⟨xs, τ, rfl, he, -⟩
          exact ⟨t :: u :: xs, rfl, .property hkey hu he⟩
        · split
          · exact Reads.ok (hshort _ (by assumption))
          · exact Reads.error _
      · split
        · exact Reads.ok (hshort _ (by assumption))
        · exact Reads.error _

theorem properties_reads (hL : Derived L) (c : Source) (ts : List Token) (h : weight ts < n) :
    Reads (Takes c .properties ts) (properties L c ts h) := by
  fun_induction properties L c ts h with
  | case1 ts h hm =>
    refine Reads.map (expect_reads c .rbrace ts) ?_
    rintro k r ⟨rfl, hk⟩
    exact ⟨[k], rfl, .noProperties hk⟩
  | case2 => exact Reads.error _
  | case3 ts h hm p t r hr he hr' ht ih =>
    obtain ⟨xs, rfl, hxs⟩ := (property_reads hL c _ h).of_ok he
    refine Reads.widen (Reads.map ih ?_) _
    rintro ps r₁ ⟨ys, rfl, hys⟩
    exact ⟨xs ++ t :: ys, by simp, .properties hxs ht hys⟩
  | case4 ts h hm p t r hr he hr' ht =>
    obtain ⟨xs, rfl, hxs⟩ := (property_reads hL c _ h).of_ok he
    refine Reads.widen (Reads.map (expect_reads c .rbrace _) ?_) _
    rintro k r₁ ⟨heq, hk⟩
    cases heq
    exact ⟨xs ++ [t], by simp, .lastProperty hxs hk⟩
  | case5 => exact Reads.refuse _ _ _

/-- The tokens used are an expression and a mark. -/
theorem enclosed_reads (hL : Derived L) (c : Source) (close : Punct) (ts : List Token)
    (h : weight ts < n) :
    Reads (fun e r => ∃ xs k τ, ts = xs ++ k :: r ∧ Derives c (.expr τ) xs e ∧
      k.lexeme = .punct close) (enclosed L c close ts h) := by
  unfold enclosed
  split
  · exact Reads.error _
  · rename_i e r hr he
    obtain ⟨xs, τ, hxs, hd, -⟩ := (hL.assignment _ _ _).of_ok he
    refine Reads.widen (Reads.map (expect_reads c close r) ?_) _
    rintro k r₁ ⟨rfl, hk⟩
    exact ⟨xs, k, τ, hxs, hd, hk⟩

end

theorem primary_reads (c : Source) (ts : List Token) {L : Level (weight ts)} (hL : Derived L) :
    Reads (Takes c .primary ts) (primary c ts L) := by
  unfold primary
  split
  · exact Reads.refuse _ _ _
  · rename_i t r _
    have hleaf : ∀ {e : Expr} {h : weight r < weight (t :: r)}, Derives c .primary [t] e →
        Reads (Takes c .primary (t :: r)) (.ok ⟨(e, r), h⟩) :=
      fun he => Reads.ok ⟨[t], rfl, he⟩
    simp only
    split
    · rename_i ht
      split
      · rename_i hnum
        exact hleaf (.number ht hnum)
      · exact Reads.error _
    · rename_i ht
      exact hleaf (.str ht)
    · rename_i ht
      split
      · exact Reads.error _
      · rename_i hes
        exact hleaf (.template ht (interpolations_derives hL c _ _ _ hes))
    · rename_i ht
      exact hleaf (.ident ht)
    · rename_i ht
      exact hleaf (.constant (by rw [ht]; rfl))
    · rename_i ht
      exact hleaf (.constant (by rw [ht]; rfl))
    · rename_i ht
      exact hleaf (.constant (by rw [ht]; rfl))
    · rename_i ht
      exact hleaf (.constant (by rw [ht]; rfl))
    · rename_i ht
      refine Reads.widen ((enclosed_reads hL c .rparen r _).imp ?_) _
      rintro e r₁ ⟨xs, k, τ, rfl, he, hk⟩
      exact ⟨t :: (xs ++ [k]), by simp, .paren ht he hk⟩
    · rename_i ht
      refine Reads.widen (Reads.map (elements_reads hL c .rbracket r _) ?_) _
      rintro es r₁ ⟨xs, rfl, hes⟩
      exact ⟨t :: xs, rfl, .array ht hes⟩
    · rename_i ht
      refine Reads.widen (Reads.map (properties_reads hL c r _) ?_) _
      rintro ps r₁ ⟨xs, rfl, hps⟩
      exact ⟨t :: xs, rfl, .object ht hps⟩
    · exact Reads.refuse _ _ _

/-! ### Operators -/

section

variable {n : Nat} {L : Level n}

theorem memberName_reads (c : Source) (mark : Punct) (ts : List Token) :
    Reads (fun name r => ∃ t, ts = t :: r ∧ memberName? t.lexeme = some name)
      (memberName c mark ts) := by
  unfold memberName
  split
  · exact Reads.refuse _ _ _
  · rename_i t r
    split
    · rename_i ht
      exact Reads.ok ⟨t, rfl, by rw [ht]; rfl⟩
    · rename_i ht
      exact Reads.ok ⟨t, rfl, by rw [ht]; rfl⟩
    · exact Reads.refuse _ _ _

/-- A link lengthens the operand that it follows. -/
theorem link?_reads (hL : Derived L) (c : Source) (e : Expr) (t : Token) (r : List Token)
    (h : weight (t :: r) < n) {o : Outcome Expr (weight (t :: r))}
    (ho : link? L c e t r h = some o) {xs : List Token} (hxs : Derives c (.operand .chain) xs e) :
    Reads (Takes c (.operand .chain) (xs ++ t :: r)) o := by
  unfold link? at ho
  split at ho
  · rename_i ht
    cases ho
    refine Reads.widen (Reads.map (memberName_reads c .dot r) ?_) _
    rintro name r₁ ⟨u, rfl, hu⟩
    exact ⟨xs ++ [t, u], by simp, .member false hxs ht hu⟩
  · rename_i ht
    simp only at ho
    split at ho
    · rename_i u r' _ _
      split at ho
      · rename_i hu
        cases ho
        refine Reads.widen (Reads.map (elements_reads hL c .rparen _ _) ?_) _
        rintro es r₁ ⟨ys, rfl, hys⟩
        exact ⟨xs ++ t :: u :: ys, by simp, .optionalCall hxs ht hu hys⟩
      · rename_i hu
        cases ho
        refine Reads.widen (Reads.map (enclosed_reads hL c .rbracket _ _) ?_) _
        rintro i r₁ ⟨ys, k, τ, rfl, hi, hk⟩
        exact ⟨xs ++ t :: u :: (ys ++ [k]), by simp, .optionalIndex hxs ht hu hi hk⟩
      · cases ho
        refine Reads.widen (Reads.map (memberName_reads c .optional _) ?_) _
        rintro name r₁ ⟨v, heq, hv⟩
        cases heq
        exact ⟨xs ++ [t, u], by simp, .member true hxs ht hv⟩
    · cases ho
      exact Reads.refuse _ _ _
  · rename_i ht
    cases ho
    refine Reads.widen (Reads.map (enclosed_reads hL c .rbracket _ _) ?_) _
    rintro i r₁ ⟨ys, k, τ, rfl, hi, hk⟩
    exact ⟨xs ++ t :: (ys ++ [k]), by simp, .index hxs ht hi hk⟩
  · rename_i ht
    cases ho
    refine Reads.widen (Reads.map (elements_reads hL c .rparen _ _) ?_) _
    rintro es r₁ ⟨ys, rfl, hys⟩
    exact ⟨xs ++ t :: ys, by simp, .call hxs ht hys⟩
  · cases ho

theorem isLink_of_link? {c : Source} {e : Expr} {t : Token} {r : List Token}
    {h : weight (t :: r) < n} (ho : link? L c e t r h = none) : isLink t.lexeme = false := by
  unfold link? at ho
  split at ho
  · cases ho
  · simp only at ho
    split at ho
    · split at ho <;> cases ho
    · cases ho
  · cases ho
  · cases ho
  · rename_i h₁ h₂ h₃ h₄
    unfold isLink
    split
    · exact absurd ‹_› h₁
    · exact absurd ‹_› h₂
    · exact absurd ‹_› h₃
    · exact absurd ‹_› h₄
    · rfl

theorem postfixes_reads (hL : Derived L) (c : Source) (e : Expr) (ts : List Token)
    (h : weight ts < n) {xs : List Token} (hxs : Derives c (.operand .chain) xs e) :
    Reads (TakesUnary c (xs ++ ts)) (postfixes L c e ts h) := by
  fun_induction postfixes L c e ts h generalizing xs with
  | case1 e => exact Reads.ok ⟨xs, .chain, rfl, .unmarked hxs, fun _ => Stops.nil⟩
  | case2 => exact Reads.error _
  | case3 e t r h hr e' r' hr' ho _ ih =>
    obtain ⟨ys, heq, hys⟩ := (link?_reads hL c e t r h ho hxs).of_ok rfl
    rw [heq]
    exact Reads.widen (ih hys) _
  | case4 e t r h hr ho p hp op hop hnl =>
    exact Reads.ok ⟨xs, .chain, rfl, .unmarked hxs, fun _ => stops_cons.2 (isLink_of_link? ho)⟩
  | case5 e t r h hr ho p hp op hop hnl hassign =>
    refine Reads.ok ⟨xs ++ [t], .step, by simp, .unmarked (.stepAfter hxs hassign ?_ ?_), ?_⟩
    · rw [hp]
      exact hop
    · simpa using hnl
    · intro hτ
      cases hτ
  | case6 => exact Reads.error _
  | case7 e t r h hr ho =>
    exact Reads.ok ⟨xs, .chain, rfl, .unmarked hxs, fun _ => stops_cons.2 (isLink_of_link? ho)⟩
  | case8 e t r h hr ho =>
    exact Reads.ok ⟨xs, .chain, rfl, .unmarked hxs, fun _ => stops_cons.2 (isLink_of_link? ho)⟩

theorem operand_reads (c : Source) (ts : List Token) {L : Level (weight ts)} (hL : Derived L) :
    Reads (TakesUnary c ts) (operand c ts L) := by
  unfold operand
  split
  · exact Reads.error _
  · rename_i hp
    obtain ⟨xs, heq, hxs⟩ := (primary_reads c ts hL).of_ok hp
    have hr := postfixes_reads hL c _ _ ‹_› (.plain hxs)
    rw [← heq] at hr
    exact Reads.widen hr _

theorem stepTarget_reads (hL : Derived L) (c : Source) (t : Token) (op : StepOp) (ts : List Token)
    (h : weight ts < n) (hop : stepOp? t.lexeme = some op) :
    Reads (TakesUnary c (t :: ts)) (stepTarget L c t.pos op ts h) := by
  unfold stepTarget
  split
  · exact Reads.error _
  · rename_i hu
    obtain ⟨xs, τ, rfl, hxs, hstop⟩ := (hL.unary _ _ _).of_ok hu
    split
    · rename_i hassign
      exact Reads.ok ⟨t :: xs, τ, rfl, .stepBefore hop hxs hassign, hstop⟩
    · exact Reads.error _

theorem unary_reads (c : Source) (ts : List Token) {L : Level (weight ts)} (hL : Derived L) :
    Reads (TakesUnary c ts) (unary c ts L) := by
  unfold unary
  split
  · exact operand_reads c [] hL
  · rename_i t r _
    simp only
    split
    · rename_i hop
      refine Reads.widen (Reads.map (hL.unary _ _ _) ?_) _
      rintro e r₁ ⟨xs, τ, rfl, hxs, hstop⟩
      exact ⟨t :: xs, τ, rfl, .unary hop hxs, hstop⟩
    · split
      · rename_i ht
        exact stepTarget_reads hL c t _ r _ (by rw [ht]; rfl)
      · rename_i ht
        exact stepTarget_reads hL c t _ r _ (by rw [ht]; rfl)
      · exact operand_reads c _ hL

/-- A chain of infix operators is also one of lower precedence. -/
theorem looser_of_le {c : Source} {k least : Nat} {τ : Tail} {xs : List Token} {e : Expr}
    (h : Derives c (.binary k τ) xs e) (hleast : 1 ≤ least) (hle : least ≤ k) (hk : k ≤ 9) :
    Derives c (.binary least τ) xs e := by
  obtain ⟨d, rfl⟩ := Nat.exists_eq_add_of_le hle
  clear hle
  induction d with
  | zero => exact h
  | succ d ih => exact ih (.looser h (by omega) (by omega)) (by omega)

theorem precedence_bounds (op : BinaryOp) : 1 ≤ op.precedence ∧ op.precedence ≤ 8 := by
  cases op <;> decide

theorem eq_pow_iff (op : BinaryOp) : op = .pow ↔ op.precedence = 8 := by
  cases op <;> decide

/-- The loop over the infix operators.  The left operand has a precedence `k` of its own, and the
next operator is one that may follow it at that precedence or a lower one. -/
theorem infixes_reads (hL : Derived L) (c : Source) (least : Nat) (left : Expr) (ts : List Token)
    (h : weight ts < n) (hleast : 1 ≤ least) {k : Nat} {τ : Tail} {xs : List Token}
    (hxs : Derives c (.binary k τ) xs left) (hle : least ≤ k) (hk : k ≤ 9)
    (hlink : τ = .chain → Stops isLink ts)
    (hnext : ∀ t ∈ ts.head?, ∀ op, infixOp? t.lexeme = some op →
      op.precedence < k ∨ (op.precedence = k ∧ op ≠ .pow)) :
    Reads (TakesBinary c least (xs ++ ts)) (infixes L c least left ts h) := by
  fun_induction infixes L c least left ts h generalizing xs k τ with
  | case1 left h =>
    exact Reads.ok ⟨xs, τ, rfl, looser_of_le hxs hleast hle hk, hlink, fun _ h => by cases h⟩
  | case2 left t r h hr hop =>
    refine Reads.ok ⟨xs, τ, rfl, looser_of_le hxs hleast hle hk, hlink, ?_⟩
    intro u hu op hop'
    cases hu
    rw [hop] at hop'
    cases hop'
  | case3 left t r h hr op hop hlt =>
    refine Reads.ok ⟨xs, τ, rfl, looser_of_le hxs hleast hle hk, hlink, ?_⟩
    intro u hu op' hop'
    cases hu
    rw [hop] at hop'
    cases hop'
    exact hlt
  | case4 => exact Reads.error _
  | case5 left t r h hr op hop hge right r' hr' hb _ ih =>
    have hprec := precedence_bounds op
    have hright : 1 ≤ op.rightPrecedence ∧ op.rightPrecedence ≤ 9 := by
      unfold BinaryOp.rightPrecedence
      split <;> omega
    obtain ⟨ys, τ', rfl, hys, hlink', hnext'⟩ := (hL.binary _ _ _ _ hright.1 hright.2).of_ok hb
    have hop' := hnext t (by simp) op hop
    have heq : xs ++ t :: (ys ++ r') = (xs ++ t :: ys) ++ r' := by simp
    rw [heq]
    by_cases hpow : op = .pow
    · -- A power: the left operand is tighter, and the right one was a power as well.
      subst hpow
      have hk9 : k = 9 := by
        simp only [BinaryOp.precedence] at hop'
        rcases hop' with hlt | ⟨-, hne⟩
        · omega
        · exact absurd rfl hne
      subst hk9
      refine Reads.widen (ih (.power hxs hop hys) ?_ (by decide) hlink' ?_) _
      · simpa [BinaryOp.precedence] using hge
      · intro u hu op₂ hop₂
        exact .inl (hnext' u hu op₂ hop₂)
    · have hbelow : op.precedence ≤ k := by omega
      rw [BinaryOp.rightPrecedence, if_neg hpow] at hys hnext'
      refine Reads.widen (ih (.binary (looser_of_le hxs hprec.1 hbelow hk) hop rfl hpow hys)
        (by omega) (by omega) hlink' ?_) _
      intro u hu op₂ hop₂
      have hlt := hnext' u hu op₂ hop₂
      by_cases hsame : op₂.precedence = op.precedence
      · refine .inr ⟨hsame, fun hpow₂ => hpow ?_⟩
        rw [eq_pow_iff] at hpow₂ ⊢
        omega
      · exact .inl (by omega)

theorem binary_reads (c : Source) (least : Nat) (ts : List Token) {L : Level (weight ts)}
    (hL : Derived L) (hleast : 1 ≤ least) (hle : least ≤ 9) :
    Reads (TakesBinary c least ts) (binary c least ts L) := by
  unfold binary
  split
  · exact Reads.error _
  · rename_i e r hr hu
    obtain ⟨xs, τ, heq, hxs, hlink⟩ := (unary_reads c ts hL).of_ok hu
    have hrest := infixes_reads hL c least e r hr hleast (.tight hxs) hle (by decide) hlink
      fun t _ op _ => .inl (by have := precedence_bounds op; omega)
    rw [← show ts = xs ++ r from heq] at hrest
    exact Reads.widen hrest _

/-! ### Conditionals, assignments and arrow functions -/

/-- The tokens used are a conditional expression.  Those left do not go on with it unless they
start an assignment. -/
def TakesConditional (c : Source) (ts : List Token) (e : Expr) (r : List Token) : Prop :=
  ∃ xs τ, ts = xs ++ r ∧ Derives c (.conditional τ) xs e ∧
    (Stops (fun l => (assignOp? l).isSome) r → Stops τ.goesOn r)

/-- An expression ends where no link, infix operator, condition or assignment follows. -/
theorem stops_goesOn {τ : Tail} {r : List Token} (hlink : τ = .chain → Stops isLink r)
    (hoperator : Stops (fun l => (infixOp? l).isSome) r)
    (hquestion : Stops (fun l => l = .punct .question) r)
    (hassign : Stops (fun l => (assignOp? l).isSome) r) : Stops τ.goesOn r := by
  intro t ht
  have h₂ := hoperator t ht
  have h₃ := hquestion t ht
  have h₄ := hassign t ht
  cases τ with
  | chain =>
    have h₁ := hlink rfl t ht
    simp only [Tail.goesOn, h₁, h₂, h₃, h₄, Bool.or_false]
  | step => simp only [Tail.goesOn, h₂, h₃, h₄, Bool.or_false]
  | block => rfl

/-- Every infix operator has precedence 1 or more. -/
theorem stops_operator {r : List Token}
    (h : ∀ t ∈ r.head?, ∀ op, infixOp? t.lexeme = some op → op.precedence < 1) :
    Stops (fun l => (infixOp? l).isSome) r := by
  intro t ht
  rw [Option.isSome_eq_false_iff, Option.isNone_iff_eq_none, Option.eq_none_iff_forall_ne_some]
  intro op hop
  have hlt := h t ht op hop
  have hge := (precedence_bounds op).1
  omega

theorem conditional_reads (c : Source) (ts : List Token) {L : Level (weight ts)}
    (hL : Derived L) : Reads (TakesConditional c ts) (conditional c ts L) := by
  unfold conditional
  split
  · exact Reads.error _
  · rename_i hb
    obtain ⟨xs, τ, heq, hxs, -, -⟩ := (binary_reads c 1 ts hL (by decide) (by decide)).of_ok hb
    exact Reads.ok ⟨xs, τ, heq, .certain hxs, fun _ => Stops.nil⟩
  · rename_i test t r hr hb
    obtain ⟨xs, τ, rfl, hxs, hlink, hoperator⟩ :=
      (binary_reads c 1 ts hL (by decide) (by decide)).of_ok hb
    simp only
    split
    · rename_i ht
      split
      · exact Reads.error _
      · rename_i yes r₁ h₁ hy
        obtain ⟨ys, τ₁, rfl, hys, -⟩ := (hL.assignment _ _ _).of_ok hy
        split
        · exact Reads.error _
        · rename_i u r₂ h₂ hcolon
          obtain ⟨rfl, hu⟩ := (expect_reads c .colon _).of_ok hcolon
          refine Reads.widen (Reads.map (hL.assignment _ _ _) ?_) _
          rintro no r₃ ⟨zs, τ₂, rfl, hzs, hstop⟩
          exact ⟨xs ++ t :: (ys ++ u :: zs), τ₂, by simp, .conditional hxs ht hys hu hzs,
            fun _ => hstop⟩
    · rename_i ht
      refine Reads.ok ⟨xs, τ, rfl, .certain hxs, fun hassign => ?_⟩
      exact stops_goesOn hlink (stops_operator hoperator) (stops_cons.2 (by simpa using ht)) hassign

end

theorem paramNames_reads (c : Source) : ∀ ts : List Token,
    Reads (Takes c .names ts) (paramNames c ts)
  | [] => Reads.refuse _ _ _
  | [t] => by
    unfold paramNames
    simp only
    split
    · rename_i ht
      exact Reads.ok ⟨[t], rfl, .noNames ht⟩
    · exact Reads.refuse _ _ _
    · exact Reads.refuse _ _ _
  | t :: u :: r => by
    unfold paramNames
    simp only
    split
    · rename_i ht
      exact Reads.ok ⟨[t], rfl, .noNames ht⟩
    · rename_i ht
      split
      · rename_i hu
        refine Reads.widen (Reads.map (paramNames_reads c r) ?_) _
        rintro names r₁ ⟨xs, rfl, hxs⟩
        exact ⟨t :: u :: xs, rfl, .names ht hu hxs⟩
      · refine Reads.widen (Reads.map (expect_reads c .rparen (u :: r)) ?_) _
        rintro k r₁ ⟨heq, hk⟩
        cases heq
        exact ⟨[t, u], rfl, .lastName ht hk⟩
    · exact Reads.refuse _ _ _

/-- The tokens used are a parenthesis and parameter names. -/
theorem params_reads (c : Source) (ts : List Token) :
    Reads (fun names r => ∃ o ns, ts = o :: (ns ++ r) ∧ o.lexeme = .punct .lparen ∧
      Derives c .names ns names) (params c ts) := by
  unfold params
  split
  · exact Reads.error _
  · rename_i o r hr ho
    obtain ⟨rfl, hlex⟩ := (expect_reads c .lparen _).of_ok ho
    refine Reads.widen ((paramNames_reads c r).imp ?_) _
    rintro names r₁ ⟨ns, heq, hns⟩
    exact ⟨o, ns, by rw [heq], hlex, hns⟩

section

variable {n : Nat} {L : Level n}

/-- The tokens used are statements, and a closing brace is left. -/
theorem blockStatements_reads (hL : Derived L) (c : Source) (ts : List Token) (h : weight ts < n) :
    Reads (fun ss r => ∃ xs k r', ts = xs ++ r ∧ r = k :: r' ∧ k.lexeme = .punct .rbrace ∧
      Derives c (.stmts k) xs ss) (blockStatements L c ts h) := by
  fun_induction blockStatements L c ts h with
  | case1 => exact Reads.refuse _ _ _
  | case2 t r h hr ht => exact Reads.ok ⟨[], t, r, rfl, rfl, ht, .noStmts⟩
  | case3 t r h hr ht hsemi _ ih =>
    refine Reads.widen (ih.imp ?_) _
    rintro ss r₁ ⟨xs, k, r', rfl, rfl, hk, hss⟩
    exact ⟨t :: xs, k, r', rfl, rfl, hk, .skip hsemi hss⟩
  | case4 => exact Reads.error _
  | case5 t r h hr ht hsemi s r' hr' hs _ ih =>
    obtain ⟨xs, heq, hxs⟩ := (hL.statement _ _ _).of_ok hs
    refine Reads.widen (Reads.map ih ?_) _
    rintro ss r₁ ⟨ys, k, r₂, rfl, rfl, hk, hss⟩
    refine ⟨xs ++ ys, k, r₂, by simpa using heq, rfl, hk, .stmts ?_ hss⟩
    have hhead : (ys ++ k :: r₂).head? = (ys ++ [k]).head? := by cases ys <;> rfl
    rw [← hhead]
    exact hxs

theorem block_reads (hL : Derived L) (c : Source) (ts : List Token) (h : weight ts ≤ n) :
    Reads (Takes c .block ts) (block L c ts h) := by
  unfold block
  split
  · exact Reads.error _
  · rename_i o r hr ho
    obtain ⟨rfl, hlex⟩ := (expect_reads c .lbrace _).of_ok ho
    split
    · exact Reads.error _
    · rename_i hb
      obtain ⟨xs, k, r₁, heq, rfl, hk, hss⟩ := (blockStatements_reads hL c _ _).of_ok hb
      split
      · exact Reads.error _
      · rename_i hc
        obtain ⟨hcons, -⟩ := (expect_reads c .rbrace _).of_ok hc
        cases hcons
        refine Reads.ok ⟨o :: (xs ++ [k]), ?_, .block hlex hss hk⟩
        rw [show r = xs ++ k :: r₁ from heq]
        simp

theorem arrowBody_reads (hL : Derived L) (c : Source) (ts : List Token) (h : weight ts < n) :
    Reads (fun b r => ∃ xs τ, ts = xs ++ r ∧ Derives c (.arrowBody τ) xs b ∧ Stops τ.goesOn r)
      (arrowBody L c ts h) := by
  unfold arrowBody
  split
  · refine Reads.map (block_reads hL c ts _) ?_
    rintro b r ⟨xs, rfl, hb⟩
    exact ⟨xs, .block, rfl, .arrowBlock hb, fun _ _ => rfl⟩
  · rename_i hm
    refine Reads.map (hL.assignment _ _ _) ?_
    rintro e r ⟨xs, τ, rfl, he, hstop⟩
    exact ⟨xs, τ, rfl, .arrowValue he (isMark_of_append (isMark_false hm)), hstop⟩

end

/-- The tokens used start an arrow function. -/
theorem arrowParams_reads (c : Source) (ts : List Token) :
    Reads (fun names r => ∃ ps, ts = ps ++ r ∧ ∀ a xs τ b, a.lexeme = .punct .arrow →
      Derives c (.arrowBody τ) xs b →
      Derives c (.expr τ) (ps ++ a :: xs) (.arrow (c.cur ts).pos names b)) (arrowParams c ts) := by
  have hparams : ∀ ts, Reads (fun names r => ∃ ps, ts = ps ++ r ∧ ∀ a xs τ b,
      a.lexeme = .punct .arrow → Derives c (.arrowBody τ) xs b →
      Derives c (.expr τ) (ps ++ a :: xs) (.arrow (c.cur ts).pos names b)) (params c ts) := by
    refine fun ts => (params_reads c ts).imp ?_
    rintro names r ⟨o, ns, rfl, ho, hns⟩
    refine ⟨o :: ns, rfl, fun a xs τ b ha hb => ?_⟩
    exact .arrow ho hns ha hb
  unfold arrowParams
  split
  · rename_i t r
    split
    · rename_i ht
      exact Reads.ok ⟨[t], rfl, fun a xs τ b ha hb => .arrowOne ht ha hb⟩
    · exact hparams _
  · exact hparams _

theorem arrow_reads (c : Source) (ts : List Token) {L : Level (weight ts)} (hL : Derived L) :
    Reads (TakesExpr c ts) (arrow c ts L) := by
  unfold arrow
  split
  · exact Reads.error _
  · rename_i hp
    obtain ⟨ps, hps, hd⟩ := (arrowParams_reads c ts).of_ok hp
    split
    · exact Reads.error _
    · rename_i a r₁ h₁ ha
      obtain ⟨rfl, hlex⟩ := (expect_reads c .arrow _).of_ok ha
      refine Reads.widen (Reads.map (arrowBody_reads hL c r₁ _) ?_) _
      rintro b r₂ ⟨xs, τ, rfl, hb, hstop⟩
      exact ⟨ps ++ a :: xs, τ, by rw [hps]; simp, hd a xs τ b hlex hb, hstop⟩

theorem assignment_reads (c : Source) (ts : List Token) {L : Level (weight ts)} (hL : Derived L) :
    Reads (TakesExpr c ts) (assignment c ts L) := by
  unfold assignment
  split
  · exact arrow_reads c ts hL
  · split
    · exact Reads.error _
    · rename_i hb
      obtain ⟨xs, τ, hxs, hd, -⟩ := (conditional_reads c ts hL).of_ok hb
      exact Reads.ok ⟨xs, τ, hxs, .value hd, Stops.nil⟩
    · rename_i left t r hr hb
      obtain ⟨xs, τ, hxs, hd, hstop⟩ := (conditional_reads c ts hL).of_ok hb
      simp only
      split
      · rename_i hop
        exact Reads.ok ⟨xs, τ, hxs, .value hd, hstop (stops_cons.2 (by rw [hop]; rfl))⟩
      · rename_i op hop
        split
        · rename_i hassign
          refine Reads.widen (Reads.map (hL.assignment _ _ _) ?_) _
          rintro e r₁ ⟨ys, τ', rfl, hys, hstop'⟩
          exact ⟨xs ++ t :: ys, τ', by rw [hxs]; simp, .assign hd hassign hop hys, hstop'⟩
        · exact Reads.error _

/-! ### Statements -/

section

variable {n : Nat} {L : Level n}

/-- The end of a statement after tokens that do not go on with it. -/
theorem endStatement_reads (c : Source) {goesOn : Lexeme → Bool} (ts : List Token)
    (hstop : Stops goesOn ts) :
    Reads (fun _ r => ∃ es, ts = es ++ r ∧ Ends goesOn r.head? es) (endStatement c ts) := by
  unfold endStatement
  split
  · exact Reads.ok ⟨[], rfl, .inr ⟨rfl, fun _ h => by cases h⟩⟩
  · rename_i t r
    split
    · rename_i ht
      exact Reads.ok ⟨[t], rfl, .inl ⟨t, rfl, ht⟩⟩
    · rename_i hsemi
      split
      · rename_i hend
        refine Reads.ok ⟨[], rfl, .inr ⟨rfl, ?_⟩⟩
        intro u hu
        cases hu
        rw [Bool.or_eq_true, decide_eq_true_iff] at hend
        rcases hend with hnl | hbrace
        · exact .inr ⟨hnl, hsemi, hstop t rfl⟩
        · exact .inl hbrace
      · exact Reads.refuse _ _ _

/-- A statement and its end: the tokens before the end do not go on with it. -/
theorem ended_reads {α : Type} (c : Source) {o : Outcome α n} {P Q : α → List Token → Prop}
    (h : Reads P o)
    (hQ : ∀ a r, P a r → ∃ goesOn, Stops goesOn r ∧
      ∀ es r', r = es ++ r' → Ends goesOn r'.head? es → Q a r') : Reads Q (ended c o) := by
  unfold ended
  split
  · exact Reads.error _
  · rename_i a r hr
    obtain ⟨goesOn, hstop, hend⟩ := hQ a r (h.of_ok rfl)
    refine Reads.widen (Reads.map (endStatement_reads c r hstop) ?_) _
    rintro - r' ⟨es, heq, hes⟩
    exact hend es r' heq hes

theorem body_reads (hL : Derived L) (c : Source) (ts : List Token) (h : weight ts < n) :
    Reads (fun ss r => Takes c (.body r.head?) ts ss r) (body L c ts h) := by
  unfold body
  split
  · refine Reads.map (block_reads hL c ts _) ?_
    rintro b r ⟨xs, rfl, hb⟩
    exact ⟨xs, rfl, .braced hb⟩
  · rename_i hm
    refine Reads.map (hL.statement _ _ _) ?_
    rintro s r ⟨xs, rfl, hs⟩
    exact ⟨xs, rfl, .single hs (isMark_of_append (isMark_false hm))⟩

theorem declaration_reads (hL : Derived L) (c : Source) {ps : List Token} {exported : Bool}
    (hps : Exports ps exported) (w : Token) {kind : DeclKind} (hw : declKind? w.lexeme = some kind)
    (ts : List Token) (h : weight ts < n) :
    Reads (TakesStmt c (ps ++ w :: ts)) (declaration L c exported w.pos kind ts h) := by
  unfold declaration
  split
  · exact Reads.refuse _ _ _
  · rename_i t r _
    simp only
    split
    · rename_i name ht
      split
      · split
        · exact Reads.error _
        · rename_i a r₁ h₁ ha
          obtain ⟨rfl, hlex⟩ := (expect_reads c .assign _).of_ok ha
          refine ended_reads c (Reads.widen (Reads.map
            (Q := fun s r => ∃ e, s = .decl w.pos kind name (some e) exported ∧ TakesExpr c r₁ e r)
            (hL.assignment _ _ _) fun e r he => ⟨e, rfl, he⟩) _) ?_
          rintro s r₂ ⟨e, rfl, xs, τ, rfl, he, hstop⟩
          refine ⟨τ.goesOn, hstop, ?_⟩
          rintro es r' rfl hes
          exact ⟨ps ++ w :: t :: a :: (xs ++ es), by simp, .decl hps hw ht hlex he hes⟩
      · rename_i hassign
        split
        · exact Reads.error _
        · rename_i hkind
          refine ended_reads c (Reads.ok (P := fun s r' =>
            s = .decl w.pos kind name none exported ∧ r' = r) ⟨rfl, rfl⟩) ?_
          rintro s r' ⟨rfl, rfl⟩
          refine ⟨fun l => l = .punct .assign, ?_, ?_⟩
          · intro u hu
            cases r' with
            | nil => cases hu
            | cons v r' =>
              cases hu
              simpa [isMark] using hassign
          · rintro es r₂ rfl hes
            exact ⟨ps ++ w :: t :: es, by simp, .declBare hps hw ht hkind hes⟩
    · exact Reads.refuse _ _ _

theorem function_reads (hL : Derived L) (c : Source) {ps : List Token} {exported : Bool}
    (hps : Exports ps exported) (w : Token) (hw : w.lexeme = .keyword .function)
    (ts : List Token) (h : weight ts < n) :
    Reads (TakesStmt c (ps ++ w :: ts)) (function L c exported w.pos ts h) := by
  unfold function
  split
  · exact Reads.refuse _ _ _
  · rename_i t r _
    simp only
    split
    · rename_i name ht
      split
      · exact Reads.error _
      · rename_i names r₁ h₁ hp
        obtain ⟨o, ns, rfl, ho, hns⟩ := (params_reads c _).of_ok hp
        refine Reads.widen (Reads.map (block_reads hL c r₁ _) ?_) _
        rintro b r₂ ⟨xs, rfl, hb⟩
        exact ⟨ps ++ w :: t :: o :: (ns ++ xs), by simp, .func hps hw ht ho hns hb⟩
    · exact Reads.refuse _ _ _

/-- The tokens used are `else` and a body; if there are none, no `else` is left. -/
theorem alternative_reads (hL : Derived L) (c : Source) (ts : List Token) (h : weight ts < n) :
    Reads (fun no r =>
      (no = [] ∧ ts = r ∧ ∀ t ∈ r.head?, t.lexeme ≠ .keyword .else_) ∨
      ∃ l zs, ts = l :: (zs ++ r) ∧ l.lexeme = .keyword .else_ ∧ Derives c (.body r.head?) zs no)
      (alternative L c ts h) := by
  unfold alternative
  split
  · exact Reads.ok (.inl ⟨rfl, rfl, fun _ h => by cases h⟩)
  · rename_i l r _
    simp only
    split
    · rename_i hl
      split
      · rename_i hif
        refine Reads.widen (Reads.map (hL.statement _ _ _) ?_) _
        rintro s r' ⟨zs, rfl, hs⟩
        refine .inr ⟨l, zs, rfl, hl, .single hs ?_⟩
        -- A statement that starts with `if` does not start with a brace.
        cases zs with
        | nil => rfl
        | cons t zs =>
          simp only [isKeyword, List.cons_append, decide_eq_true_eq] at hif
          simp [isMark, hif]
      · refine Reads.widen ((body_reads hL c r _).imp ?_) _
        rintro no r' ⟨zs, rfl, hno⟩
        exact .inr ⟨l, zs, rfl, hl, hno⟩
    · rename_i hl
      refine Reads.ok (.inl ⟨rfl, rfl, ?_⟩)
      intro t ht
      cases ht
      exact hl

theorem choice_reads (hL : Derived L) (c : Source) (w : Token) (hw : w.lexeme = .keyword .if_)
    (ts : List Token) (h : weight ts < n) :
    Reads (TakesStmt c (w :: ts)) (choice L c w.pos ts h) := by
  unfold choice
  split
  · exact Reads.error _
  · rename_i o r hr ho
    obtain ⟨rfl, hlex⟩ := (expect_reads c .lparen _).of_ok ho
    split
    · exact Reads.error _
    · rename_i he
      obtain ⟨xs, k, τ, rfl, hxs, hk⟩ := (enclosed_reads hL c .rparen _ _).of_ok he
      split
      · exact Reads.error _
      · rename_i hb
        obtain ⟨ys, rfl, hys⟩ := (body_reads hL c _ _).of_ok hb
        refine Reads.widen (Reads.map (alternative_reads hL c _ _) ?_) _
        rintro no r₃ (⟨rfl, rfl, helse⟩ | ⟨l, zs, rfl, hl, hzs⟩)
        · exact ⟨w :: o :: (xs ++ k :: ys), by simp, .cond hw hlex hxs hk hys helse⟩
        · exact ⟨w :: o :: (xs ++ k :: (ys ++ l :: zs)), by simp,
            .condElse hw hlex hxs hk hys hl hzs⟩

theorem returned_reads (hL : Derived L) (c : Source) (w : Token)
    (hw : w.lexeme = .keyword .return_) (ts : List Token) (h : weight ts < n) :
    Reads (TakesStmt c (w :: ts)) (returned L c w.pos ts h) := by
  unfold returned
  split
  · refine ended_reads c (Reads.ok (P := fun s r => s = .ret w.pos none ∧ r = ts) ⟨rfl, rfl⟩) ?_
    rintro s r ⟨rfl, rfl⟩
    refine ⟨fun _ => false, fun _ _ => rfl, ?_⟩
    rintro es r' rfl hes
    exact ⟨w :: es, rfl, .ret hw hes⟩
  · rename_i hend
    refine ended_reads c (Reads.widen (Reads.map
      (Q := fun s r => ∃ e, s = .ret w.pos (some e) ∧ TakesExpr c ts e r)
      (hL.assignment _ _ _) fun e r he => ⟨e, rfl, he⟩) _) ?_
    rintro s r ⟨e, rfl, xs, τ, rfl, he, hstop⟩
    refine ⟨τ.goesOn, hstop, ?_⟩
    rintro es r' rfl hes
    obtain ⟨t, ys, rfl, -⟩ := he.exists_cons
    have hnl : t.newline = false := by
      simp only [List.cons_append, endsReturn, Bool.or_eq_true, not_or, Bool.not_eq_true] at hend
      exact hend.1.1
    exact ⟨w :: t :: (ys ++ es), by simp, .retValue hw hnl he hes⟩

theorem exportedStatement_reads (hL : Derived L) (c : Source) (x : Token)
    (hx : x.lexeme = .keyword .export_) (ts : List Token) (h : weight ts < n) :
    Reads (TakesStmt c (x :: ts)) (exportedStatement L c ts h) := by
  have hps : Exports [x] true := .inr ⟨x, rfl, hx, rfl⟩
  unfold exportedStatement
  split
  · exact Reads.refuse _ _ _
  · rename_i t r _
    simp only
    split
    · rename_i ht
      exact function_reads hL c hps t ht r _
    · rename_i ht
      split
      · rename_i hkind
        exact declaration_reads hL c hps t (by rw [ht]; exact hkind) r _
      · exact Reads.refuse _ _ _
    · exact Reads.refuse _ _ _

end

theorem expressionStatement_reads (c : Source) (ts : List Token) {L : Level (weight ts)}
    (hL : Derived L) : Reads (TakesStmt c ts) (expressionStatement c ts L) := by
  refine ended_reads c (Reads.map
    (Q := fun s r => ∃ e, s = .expr (c.cur ts).pos e ∧ TakesExpr c ts e r)
    (assignment_reads c ts hL) fun e r he => ⟨e, rfl, he⟩) ?_
  rintro s r ⟨e, rfl, xs, τ, rfl, he, hstop⟩
  refine ⟨τ.goesOn, hstop, ?_⟩
  rintro es r' rfl hes
  obtain ⟨t, ys, rfl, -⟩ := he.exists_cons
  exact ⟨t :: (ys ++ es), by simp, .exprStmt he hes⟩

theorem statement_reads (c : Source) (ts : List Token) {L : Level (weight ts)} (hL : Derived L) :
    Reads (TakesStmt c ts) (statement c ts L) := by
  have hps : Exports [] false := .inl ⟨rfl, rfl⟩
  unfold statement
  split
  · exact expressionStatement_reads c [] hL
  · rename_i t r _
    simp only
    split
    · rename_i ht
      exact declaration_reads hL c hps t (by rw [ht]; rfl) r _
    · rename_i ht
      exact declaration_reads hL c hps t (by rw [ht]; rfl) r _
    · rename_i ht
      exact declaration_reads hL c hps t (by rw [ht]; rfl) r _
    · rename_i ht
      exact function_reads hL c hps t ht r _
    · rename_i ht
      exact exportedStatement_reads hL c t ht r _
    · rename_i ht
      exact choice_reads hL c t ht r _
    · rename_i ht
      exact returned_reads hL c t ht r _
    · rename_i name ht
      split
      · rename_i u r' _ _
        split
        · rename_i hu
          refine Reads.widen (Reads.map (hL.statement _ _ _) ?_) _
          rintro s r₁ ⟨xs, rfl, hs⟩
          exact ⟨t :: u :: xs, rfl, .labeled ht hu hs⟩
        · exact expressionStatement_reads c _ hL
      · exact expressionStatement_reads c _ hL
    · exact expressionStatement_reads c _ hL

/-- All parsers read what the grammar derives. -/
theorem derived_level (n : Nat) : Derived (level n) := by
  induction n using Nat.strongRecOn with
  | _ n ih =>
    rw [level]
    exact ⟨fun c ts h => assignment_reads c ts (ih _ h),
      fun c least ts h => binary_reads c least ts (ih _ h), fun c ts h => unary_reads c ts (ih _ h),
      fun c ts h => statement_reads c ts (ih _ h)⟩

end Parser

/-- The tokens of a source that is parsed derive its tree. -/
theorem Expr.derives_of_parseAt {base : Nat} {src : Text} {ts : List Token} {eof : Token}
    (hsrc : Token.ofSource base src = .ok (ts, eof)) {e : Expr}
    (h : Expr.parseAt base src = .ok e) : ∃ τ, Derives ⟨src, base, eof⟩ (.expr τ) ts e := by
  unfold Expr.parseAt at h
  rw [hsrc] at h
  cases ts with
  | nil => cases h
  | cons t ts =>
    simp only at h
    split at h
    · cases h
    · rename_i hasg
      cases h
      obtain ⟨xs, τ, hxs, hd, -⟩ :=
        (Parser.assignment_reads _ _ (Parser.derived_level _)).of_ok hasg
      rw [List.append_nil] at hxs
      rw [hxs]
      exact ⟨τ, hd⟩
    · cases h

/-- A source that is parsed has tokens, and they derive its tree. -/
theorem Expr.exists_derives_of_parseAt {base : Nat} {src : Text} {e : Expr}
    (h : Expr.parseAt base src = .ok e) : ∃ ts eof τ,
      Token.ofSource base src = .ok (ts, eof) ∧ Derives ⟨src, base, eof⟩ (.expr τ) ts e := by
  cases hsrc : Token.ofSource base src with
  | error err =>
    rw [Expr.parseAt, hsrc] at h
    cases h
  | ok r =>
    obtain ⟨τ, hderives⟩ := derives_of_parseAt hsrc h
    exact ⟨r.1, r.2, τ, rfl, hderives⟩

end Reactive
