/-
What the parsers give.

For each parser and each way it can succeed: if its parts give their results,
it gives the result that is built from them.  `Gives` leaves out the bound on
the tokens that are left, which every outcome carries.  The look-ahead of a
parser is a hypothesis here, on the tokens it reads.

* `Gives` — a result and the tokens after it;
* `statement_expr`, `unary_operand` — which tokens choose the last alternative.
-/
import Reactive.Proofs.Expr.Lookahead

namespace Reactive.Parser

open Token (weight)
open Grammar

/-- A parser succeeds with a result and the tokens after it. -/
def Gives {α : Type} {n : Nat} (o : Outcome α n) (a : α) (r : List Token) : Prop :=
  ∃ h, o = .ok ⟨(a, r), h⟩

section

variable {α β : Type} {m n : Nat} {a : α} {r : List Token}

theorem Gives.ok {h : weight r < n} : Gives (.ok ⟨(a, r), h⟩ : Outcome α n) a r := ⟨h, rfl⟩

theorem Gives.map {o : Outcome α n} (h : Gives o a r) (f : α → β) : Gives (o.map f) (f a) r := by
  obtain ⟨hr, rfl⟩ := h
  exact ⟨hr, rfl⟩

theorem Gives.widen {o : Outcome α m} (h : Gives o a r) (hmn : m ≤ n) :
    Gives (o.widen hmn) a r := by
  obtain ⟨hr, rfl⟩ := h
  exact ⟨Nat.lt_of_lt_of_le hr hmn, rfl⟩

end

section

variable {n : Nat} {c : Source} {t k u : Token} {r r' ts : List Token} {e e' : Expr} {p : Punct}

theorem level_assignment (h : weight ts < n) :
    (level n).assignment c ts h = assignment c ts (level (weight ts)) := by
  rw [level]

theorem level_binary {least : Nat} (h : weight ts < n) :
    (level n).binary c least ts h = binary c least ts (level (weight ts)) := by
  rw [level]

theorem level_unary (h : weight ts < n) :
    (level n).unary c ts h = unary c ts (level (weight ts)) := by
  rw [level]

theorem level_statement (h : weight ts < n) :
    (level n).statement c ts h = statement c ts (level (weight ts)) := by
  rw [level]

theorem expect_gives (ht : t.lexeme = .punct p) : Gives (expect c p (t :: r)) t r := by
  rw [expect, if_pos ht]
  exact Gives.ok

theorem isMark_cons (ht : t.lexeme = .punct p) : isMark p (t :: r) = true := by
  simp [isMark, ht]

theorem isMark_cons_ne (ht : t.lexeme ≠ .punct p) : isMark p (t :: r) = false := by
  simpa [isMark] using ht

/-! ### Primary expressions -/

variable {L : Level n} {h : weight ts < n}

theorem element_gives (he : Gives (L.assignment c ts h) e r)
    (ht : isMark .ellipsis ts = false) : Gives (element L c ts h) e r := by
  cases ts with
  | nil => exact he
  | cons t ts =>
    have hne : t.lexeme ≠ .punct .ellipsis := by simpa [isMark] using ht
    rw [element]
    simp only [if_neg hne]
    exact he

theorem element_spread {h : weight (t :: ts) < n} (ht : t.lexeme = .punct .ellipsis)
    (he : ∀ h, Gives (L.assignment c ts h) e r) :
    Gives (element L c (t :: ts) h) (.spread t.pos e) r := by
  rw [element]
  simp only [if_pos ht]
  exact ((he _).map _).widen _

theorem elements_none {close : Punct} {h : weight (k :: r) < n} (hk : k.lexeme = .punct close) :
    Gives (elements L c close (k :: r) h) [] r := by
  rw [elements, if_pos (isMark_cons hk)]
  exact (expect_gives hk).map _

theorem elements_last {close : Punct} (hm : isMark close ts = false) (hc : close ≠ .comma)
    (he : Gives (element L c ts h) e (k :: r)) (hk : k.lexeme = .punct close) :
    Gives (elements L c close ts h) [e] r := by
  obtain ⟨hw, ho⟩ := he
  have hne : k.lexeme ≠ .punct .comma := by
    rw [hk]
    simpa using hc
  rw [elements, if_neg (by simp [hm]), ho]
  simp only [if_neg hne]
  exact ((expect_gives hk).map _).widen _

theorem elements_more {close : Punct} {es : List Expr} (hm : isMark close ts = false)
    (he : Gives (element L c ts h) e (k :: r)) (hk : k.lexeme = .punct .comma)
    (hes : ∀ h, Gives (elements L c close r h) es r') :
    Gives (elements L c close ts h) (e :: es) r' := by
  obtain ⟨hw, ho⟩ := he
  rw [elements, if_neg (by simp [hm]), ho]
  simp only [if_pos hk]
  exact ((hes _).map _).widen _

theorem property_value {key : Text} {isIdent : Bool} {h : weight (t :: u :: ts) < n}
    (ht : propertyName? t.lexeme = some (key, isIdent)) (hu : u.lexeme = .punct .colon)
    (he : ∀ h, Gives (L.assignment c ts h) e r) :
    Gives (property L c (t :: u :: ts) h) (.mk key e false) r := by
  rw [property]
  simp only [ht, if_pos hu]
  exact ((he _).map _).widen _

theorem property_short {key : Text} {h : weight (t :: r) < n} (ht : t.lexeme = .ident key)
    (hr : isMark .colon r = false) :
    Gives (property L c (t :: r) h) (.mk key (.ident t.pos key) true) r := by
  have hname : propertyName? t.lexeme = some (key, true) := by rw [ht]; rfl
  rw [property]
  simp only [hname]
  cases r with
  | nil => exact Gives.ok
  | cons u r =>
    have hne : u.lexeme ≠ .punct .colon := by simpa [isMark] using hr
    simp only [if_neg hne]
    exact Gives.ok

theorem properties_none {h : weight (k :: r) < n} (hk : k.lexeme = .punct .rbrace) :
    Gives (properties L c (k :: r) h) [] r := by
  rw [properties, if_pos (isMark_cons hk)]
  exact (expect_gives hk).map _

theorem properties_last {q : Property} (hm : isMark .rbrace ts = false)
    (he : Gives (property L c ts h) q (k :: r)) (hk : k.lexeme = .punct .rbrace) :
    Gives (properties L c ts h) [q] r := by
  obtain ⟨hw, ho⟩ := he
  have hne : k.lexeme ≠ .punct .comma := by rw [hk]; decide
  rw [properties, if_neg (by simp [hm]), ho]
  simp only [if_neg hne]
  exact ((expect_gives hk).map _).widen _

theorem properties_more {q : Property} {qs : List Property} (hm : isMark .rbrace ts = false)
    (he : Gives (property L c ts h) q (k :: r)) (hk : k.lexeme = .punct .comma)
    (hes : ∀ h, Gives (properties L c r h) qs r') :
    Gives (properties L c ts h) (q :: qs) r' := by
  obtain ⟨hw, ho⟩ := he
  rw [properties, if_neg (by simp [hm]), ho]
  simp only [if_pos hk]
  exact ((hes _).map _).widen _

theorem enclosed_gives {close : Punct} (he : Gives (L.assignment c ts h) e (k :: r))
    (hk : k.lexeme = .punct close) : Gives (enclosed L c close ts h) e r := by
  obtain ⟨hw, ho⟩ := he
  rw [enclosed, ho]
  exact ((expect_gives hk).map _).widen _

end

section

variable {c : Source} {t : Token} {r r' : List Token} {L : Level (weight (t :: r))}

theorem primary_number {text : Text} {x : Num} (ht : t.lexeme = .number text)
    (hx : number? text = some x) :
    Gives (primary c (t :: r) L) (.literal t.pos (.number x)) r := by
  obtain ⟨l, pos, nl⟩ := t
  cases ht
  rw [primary]
  simp only [hx]
  exact Gives.ok

theorem primary_str {v : Text} (ht : t.lexeme = .str v) :
    Gives (primary c (t :: r) L) (.literal t.pos (.str v)) r := by
  obtain ⟨l, pos, nl⟩ := t
  cases ht
  exact Gives.ok

theorem primary_template {raw : Text} {quasis : List Text} {ps : List Interpolation}
    {es : List Expr} (ht : t.lexeme = .template raw quasis ps)
    (hes : ∀ h, interpolations L ps h = .ok es) :
    Gives (primary c (t :: r) L) (.template t.pos quasis es) r := by
  obtain ⟨l, pos, nl⟩ := t
  cases ht
  rw [primary]
  simp only [hes]
  exact Gives.ok

theorem primary_ident {name : Text} (ht : t.lexeme = .ident name) :
    Gives (primary c (t :: r) L) (.ident t.pos name) r := by
  obtain ⟨l, pos, nl⟩ := t
  cases ht
  exact Gives.ok

theorem primary_constant {v : Literal} (ht : constant? t.lexeme = some v) :
    Gives (primary c (t :: r) L) (.literal t.pos v) r := by
  obtain ⟨l, pos, nl⟩ := t
  cases l with
  | keyword k => cases k <;> cases ht <;> exact Gives.ok
  | _ => cases ht

theorem primary_paren {e : Expr} (ht : t.lexeme = .punct .lparen)
    (he : ∀ h, Gives (enclosed L c .rparen r h) e r') : Gives (primary c (t :: r) L) e r' := by
  obtain ⟨l, pos, nl⟩ := t
  cases ht
  exact (he _).widen (Nat.le_of_lt (Token.weight_lt_cons _ r))

theorem primary_array {es : List Expr} (ht : t.lexeme = .punct .lbracket)
    (hes : ∀ h, Gives (elements L c .rbracket r h) es r') :
    Gives (primary c (t :: r) L) (.array t.pos es) r' := by
  obtain ⟨l, pos, nl⟩ := t
  cases ht
  exact ((hes _).map _).widen (Nat.le_of_lt (Token.weight_lt_cons _ r))

theorem primary_object {qs : List Property} (ht : t.lexeme = .punct .lbrace)
    (hqs : ∀ h, Gives (properties L c r h) qs r') :
    Gives (primary c (t :: r) L) (.object t.pos qs) r' := by
  obtain ⟨l, pos, nl⟩ := t
  cases ht
  exact ((hqs _).map _).widen (Nat.le_of_lt (Token.weight_lt_cons _ r))

end

/-! ### Operators -/

section

variable {n : Nat} {L : Level n} {c : Source} {t u : Token} {r r' r'' ts : List Token}
  {e e₁ e' : Expr}

theorem memberName_gives {name : Text} {mark : Punct} (ht : memberName? t.lexeme = some name) :
    Gives (memberName c mark (t :: r)) name r := by
  obtain ⟨l, pos, nl⟩ := t
  cases l <;> cases ht <;> exact Gives.ok

/-- A link, and what follows it. -/
theorem postfixes_link {h : weight (t :: r) < n} {o : Outcome Expr (weight (t :: r))}
    (ho : link? L c e t r h = some o) (hg : Gives o e₁ r')
    (hrest : ∀ h, Gives (postfixes L c e₁ r' h) e' r'') :
    Gives (postfixes L c e (t :: r) h) e' r'' := by
  obtain ⟨hw, rfl⟩ := hg
  rw [postfixes]
  simp only [ho]
  exact (hrest _).widen _

theorem postfixes_member {name : Text} (opt : Bool) {h : weight (t :: u :: r) < n}
    (ht : t.lexeme = .punct (if opt then .optional else .dot))
    (hu : memberName? u.lexeme = some name)
    (hrest : ∀ h, Gives (postfixes L c (.member e.pos e name opt) r h) e' r') :
    Gives (postfixes L c e (t :: u :: r) h) e' r' := by
  obtain ⟨l, pos, nl⟩ := t
  cases ht
  cases opt with
  | false => exact postfixes_link rfl (((memberName_gives hu).map _).widen _) hrest
  | true =>
    obtain ⟨l, pos', nl'⟩ := u
    cases l <;> cases hu <;>
      exact postfixes_link rfl (((memberName_gives rfl).map _).widen _) hrest

theorem postfixes_index {i : Expr} {h : weight (t :: r) < n} (ht : t.lexeme = .punct .lbracket)
    (hi : ∀ h, Gives (enclosed L c .rbracket r h) i r')
    (hrest : ∀ h, Gives (postfixes L c (.index e.pos e i false) r' h) e' r'') :
    Gives (postfixes L c e (t :: r) h) e' r'' := by
  obtain ⟨l, pos, nl⟩ := t
  cases ht
  exact postfixes_link rfl (((hi _).map _).widen _) hrest

theorem postfixes_optionalIndex {i : Expr} {h : weight (t :: u :: r) < n}
    (ht : t.lexeme = .punct .optional) (hu : u.lexeme = .punct .lbracket)
    (hi : ∀ h, Gives (enclosed L c .rbracket r h) i r')
    (hrest : ∀ h, Gives (postfixes L c (.index e.pos e i true) r' h) e' r'') :
    Gives (postfixes L c e (t :: u :: r) h) e' r'' := by
  obtain ⟨l, pos, nl⟩ := t
  cases ht
  obtain ⟨l, pos', nl'⟩ := u
  cases hu
  exact postfixes_link rfl (((hi _).map _).widen _) hrest

theorem postfixes_call {es : List Expr} {h : weight (t :: r) < n} (ht : t.lexeme = .punct .lparen)
    (hes : ∀ h, Gives (elements L c .rparen r h) es r')
    (hrest : ∀ h, Gives (postfixes L c (.call e.pos e es false) r' h) e' r'') :
    Gives (postfixes L c e (t :: r) h) e' r'' := by
  obtain ⟨l, pos, nl⟩ := t
  cases ht
  exact postfixes_link rfl (((hes _).map _).widen _) hrest

theorem postfixes_optionalCall {es : List Expr} {h : weight (t :: u :: r) < n}
    (ht : t.lexeme = .punct .optional) (hu : u.lexeme = .punct .lparen)
    (hes : ∀ h, Gives (elements L c .rparen r h) es r')
    (hrest : ∀ h, Gives (postfixes L c (.call e.pos e es true) r' h) e' r'') :
    Gives (postfixes L c e (t :: u :: r) h) e' r'' := by
  obtain ⟨l, pos, nl⟩ := t
  cases ht
  obtain ⟨l, pos', nl'⟩ := u
  cases hu
  exact postfixes_link rfl (((hes _).map _).widen _) hrest

theorem link?_none {h : weight (t :: r) < n} (ht : isLink t.lexeme = false) :
    link? L c e t r h = none := by
  obtain ⟨l, pos, nl⟩ := t
  cases l with
  | punct p => cases p <;> first | rfl | cases ht
  | _ => rfl

theorem postfixes_step {op : StepOp} {h : weight (t :: r) < n} (ht : stepOp? t.lexeme = some op)
    (hnl : t.newline = false) (he : e.isAssignable = true) :
    Gives (postfixes L c e (t :: r) h) (.step e.pos op false e) r := by
  have hlink : isLink t.lexeme = false := by
    obtain ⟨l, pos, nl⟩ := t
    cases l with
    | punct p => cases p <;> cases ht <;> rfl
    | _ => cases ht
  rw [postfixes]
  simp only [link?_none hlink]
  obtain ⟨l, pos, nl⟩ := t
  cases l with
  | punct p =>
    have hop : p.step? = some op := ht
    have hnl : nl = false := hnl
    simp only [hop, hnl, he, if_pos, Bool.false_eq_true, if_false]
    exact Gives.ok
  | _ => cases ht

/-- Where an operand ends. -/
theorem postfixes_end {h : weight ts < n}
    (hts : ∀ t ∈ ts.head?, isLink t.lexeme = false ∧
      (stepOp? t.lexeme = none ∨ t.newline = true)) :
    Gives (postfixes L c e ts h) e ts := by
  cases ts with
  | nil =>
    rw [postfixes]
    exact Gives.ok
  | cons t r =>
    obtain ⟨hlink, hstep⟩ := hts t rfl
    rw [postfixes]
    simp only [link?_none hlink]
    split
    · rename_i p hp
      split
      · rename_i op hop
        have hnl : t.newline = true := by
          rcases hstep with hnone | hnl
          · rw [hp] at hnone
            rw [show stepOp? (.punct p) = p.step? from rfl, hop] at hnone
            cases hnone
          · exact hnl
        rw [if_pos hnl]
        exact Gives.ok
      · exact Gives.ok
    · exact Gives.ok

theorem operand_gives {L : Level (weight ts)} (hp : Gives (primary c ts L) e r)
    (hrest : ∀ h, Gives (postfixes L c e r h) e' r') : Gives (operand c ts L) e' r' := by
  obtain ⟨hw, ho⟩ := hp
  rw [operand, ho]
  exact (hrest _).widen _

theorem unary_operand {L : Level (weight ts)} (hts : Starts startsPrimary ts) :
    unary c ts L = operand c ts L := by
  obtain ⟨t, r, rfl, ht⟩ := hts.exists_cons
  obtain ⟨l, pos, nl⟩ := t
  cases l with
  | punct p => cases p <;> first | rfl | cases ht
  | keyword k => cases k <;> first | rfl | cases ht
  | eof => cases ht
  | _ => rfl

theorem unary_operator {op : UnaryOp} {L : Level (weight (t :: r))}
    (ht : prefixOp? t.lexeme = some op) (he : ∀ h, Gives (L.unary c r h) e r') :
    Gives (unary c (t :: r) L) (.unary t.pos op e) r' := by
  rw [unary]
  simp only [ht]
  exact ((he _).map _).widen _

theorem unary_step {op : StepOp} {L : Level (weight (t :: r))} (ht : stepOp? t.lexeme = some op)
    (he : ∀ h, Gives (L.unary c r h) e r') (hassign : e.isAssignable = true) :
    Gives (unary c (t :: r) L) (.step t.pos op true e) r' := by
  have htarget : ∀ h, Gives (stepTarget L c t.pos op r h) (.step t.pos op true e) r' := by
    intro h
    obtain ⟨hw, ho⟩ := he h
    rw [stepTarget, ho]
    simp only [hassign, if_true]
    exact Gives.ok
  obtain ⟨l, pos, nl⟩ := t
  cases l with
  | punct p => cases p <;> cases ht <;> exact htarget _
  | _ => cases ht

theorem infixes_more {least : Nat} {op : BinaryOp} {h : weight (t :: r) < n}
    (ht : infixOp? t.lexeme = some op) (hle : least ≤ op.precedence)
    (hright : ∀ h, Gives (L.binary c op.rightPrecedence r h) e₁ r')
    (hrest : ∀ h, Gives (infixes L c least (.binary e.pos op e e₁) r' h) e' r'') :
    Gives (infixes L c least e (t :: r) h) e' r'' := by
  rw [infixes]
  simp only [ht, if_neg (Nat.not_lt.2 hle)]
  obtain ⟨hw, ho⟩ := hright (Nat.lt_trans (Token.weight_lt_cons t r) h)
  rw [ho]
  exact (hrest _).widen _

/-- Where a chain of infix operators ends. -/
theorem infixes_end {least : Nat} {h : weight ts < n}
    (hts : ∀ t ∈ ts.head?, ∀ op, infixOp? t.lexeme = some op → op.precedence < least) :
    Gives (infixes L c least e ts h) e ts := by
  cases ts with
  | nil =>
    rw [infixes]
    exact Gives.ok
  | cons t r =>
    rw [infixes]
    simp only
    split
    · exact Gives.ok
    · rename_i op hop
      rw [if_pos (hts t rfl op hop)]
      exact Gives.ok

theorem binary_gives {least : Nat} {L : Level (weight ts)} (hu : Gives (unary c ts L) e r)
    (hrest : ∀ h, Gives (infixes L c least e r h) e' r') : Gives (binary c least ts L) e' r' := by
  obtain ⟨hw, ho⟩ := hu
  rw [binary, ho]
  exact (hrest _).widen _

/-! ### Conditionals, assignments and arrow functions -/

theorem conditional_plain {L : Level (weight ts)} (hb : Gives (binary c 1 ts L) e r)
    (hr : isMark .question r = false) : Gives (conditional c ts L) e r := by
  obtain ⟨hw, ho⟩ := hb
  rw [conditional, ho]
  cases r with
  | nil => exact Gives.ok
  | cons t r =>
    have hne : t.lexeme ≠ .punct .question := by simpa [isMark] using hr
    simp only [if_neg hne]
    exact Gives.ok

theorem conditional_choice {test yes no : Expr} {q k : Token} {r₁ r₂ r₃ : List Token}
    {L : Level (weight ts)} (hb : Gives (binary c 1 ts L) test (q :: r₁))
    (hq : q.lexeme = .punct .question) (hy : ∀ h, Gives (L.assignment c r₁ h) yes (k :: r₂))
    (hk : k.lexeme = .punct .colon) (hn : ∀ h, Gives (L.assignment c r₂ h) no r₃) :
    Gives (conditional c ts L) (.conditional test.pos test yes no) r₃ := by
  obtain ⟨hw, ho⟩ := hb
  rw [conditional, ho]
  simp only [if_pos hq]
  obtain ⟨hw₁, ho₁⟩ := hy (Nat.lt_trans (Token.weight_lt_cons q r₁) hw)
  obtain ⟨hw₂, ho₂⟩ := expect_gives (c := c) (r := r₂) hk
  simp only [ho₁, ho₂]
  exact ((hn _).map _).widen _

theorem assignment_plain {L : Level (weight ts)} (ha : startsArrow ts = false)
    (hc : Gives (conditional c ts L) e r) (hr : ∀ t ∈ r.head?, assignOp? t.lexeme = none) :
    Gives (assignment c ts L) e r := by
  obtain ⟨hw, ho⟩ := hc
  rw [assignment, if_neg (by simp [ha]), ho]
  cases r with
  | nil => exact Gives.ok
  | cons t r =>
    simp only [hr t rfl]
    exact Gives.ok

theorem assignment_assign {op : AssignOp} {L : Level (weight ts)} (ha : startsArrow ts = false)
    (hc : Gives (conditional c ts L) e (t :: r)) (ht : assignOp? t.lexeme = some op)
    (he : e.isAssignable = true) (hv : ∀ h, Gives (L.assignment c r h) e₁ r') :
    Gives (assignment c ts L) (.assign e.pos op e e₁) r' := by
  obtain ⟨hw, ho⟩ := hc
  rw [assignment, if_neg (by simp [ha]), ho]
  simp only [ht, he, if_true]
  exact ((hv _).map _).widen _

theorem arrow_gives {names : List Text} {b : Body} {a : Token} {r₁ : List Token}
    {L : Level (weight ts)} (hts : startsArrow ts = true)
    (hp : Gives (arrowParams c ts) names (a :: r)) (ha : a.lexeme = .punct .arrow)
    (hb : ∀ h, Gives (arrowBody L c r h) b r₁) :
    Gives (assignment c ts L) (.arrow (c.cur ts).pos names b) r₁ := by
  obtain ⟨hw, ho⟩ := hp
  obtain ⟨hw', ho'⟩ := expect_gives (c := c) (r := r) ha
  rw [assignment, if_pos hts, arrow, ho]
  simp only [ho']
  exact ((hb _).map _).widen _

theorem paramNames_none {k : Token} (hk : k.lexeme = .punct .rparen) :
    Gives (paramNames c (k :: r)) [] r := by
  obtain ⟨l, pos, nl⟩ := k
  cases hk
  cases r <;> exact Gives.ok

theorem paramNames_last {k : Token} {name : Text} (ht : t.lexeme = .ident name)
    (hk : k.lexeme = .punct .rparen) : Gives (paramNames c (t :: k :: r)) [name] r := by
  obtain ⟨l, pos, nl⟩ := t
  cases ht
  have hne : k.lexeme ≠ .punct .comma := by rw [hk]; decide
  rw [paramNames]
  simp only [if_neg hne]
  exact ((expect_gives hk).map _).widen _

theorem paramNames_more {name : Text} {names : List Text} (ht : t.lexeme = .ident name)
    (hu : u.lexeme = .punct .comma) (hr : Gives (paramNames c r) names r') :
    Gives (paramNames c (t :: u :: r)) (name :: names) r' := by
  obtain ⟨l, pos, nl⟩ := t
  cases ht
  rw [paramNames]
  simp only [if_pos hu]
  exact (hr.map _).widen _

theorem params_gives {names : List Text} (ht : t.lexeme = .punct .lparen)
    (hr : Gives (paramNames c r) names r') : Gives (params c (t :: r)) names r' := by
  obtain ⟨hw, ho⟩ := expect_gives (c := c) (r := r) ht
  rw [params, ho]
  exact hr.widen _

theorem arrowParams_one {name : Text} (ht : t.lexeme = .ident name) :
    Gives (arrowParams c (t :: r)) [name] r := by
  obtain ⟨l, pos, nl⟩ := t
  cases ht
  exact Gives.ok

theorem arrowParams_paren {names : List Text} (ht : t.lexeme = .punct .lparen)
    (hr : Gives (paramNames c r) names r') : Gives (arrowParams c (t :: r)) names r' := by
  have hp := params_gives ht hr
  obtain ⟨l, pos, nl⟩ := t
  cases ht
  exact hp

theorem blockStatements_none {h : weight (t :: r) < n} (ht : t.lexeme = .punct .rbrace) :
    Gives (blockStatements L c (t :: r) h) [] (t :: r) := by
  rw [blockStatements]
  simp only [if_pos ht]
  exact Gives.ok

theorem blockStatements_skip {ss : List Stmt} {h : weight (t :: r) < n}
    (ht : t.lexeme = .punct .semicolon)
    (hrest : ∀ h, Gives (blockStatements L c r h) ss r') :
    Gives (blockStatements L c (t :: r) h) ss r' := by
  have hne : t.lexeme ≠ .punct .rbrace := by rw [ht]; decide
  rw [blockStatements]
  simp only [if_neg hne, if_pos ht]
  exact (hrest _).widen _

theorem blockStatements_more {s : Stmt} {ss : List Stmt} {h : weight ts < n}
    (hts : Starts startsStmt ts) (hs : Gives (L.statement c ts h) s r)
    (hrest : ∀ h, Gives (blockStatements L c r h) ss r') :
    Gives (blockStatements L c ts h) (s :: ss) r' := by
  obtain ⟨t, ts, rfl, ht⟩ := hts.exists_cons
  have hbrace : t.lexeme ≠ .punct .rbrace := by
    intro heq
    rw [heq] at ht
    cases ht
  have hsemi : t.lexeme ≠ .punct .semicolon := by
    intro heq
    rw [heq] at ht
    cases ht
  obtain ⟨hw, ho⟩ := hs
  rw [blockStatements]
  simp only [if_neg hbrace, if_neg hsemi, ho]
  exact ((hrest _).map _).widen _

theorem block_gives {k : Token} {ss : List Stmt} {h : weight (t :: r) ≤ n}
    (ht : t.lexeme = .punct .lbrace) (hb : ∀ h, Gives (blockStatements L c r h) ss (k :: r'))
    (hk : k.lexeme = .punct .rbrace) :
    Gives (block L c (t :: r) h)
      (ss, c.text.slice (t.pos + 1 - c.base) (k.pos - c.base)) r' := by
  obtain ⟨hw, ho⟩ := expect_gives (c := c) (r := r) ht
  obtain ⟨hw₁, ho₁⟩ := hb (Nat.lt_of_lt_of_le hw h)
  obtain ⟨hw₂, ho₂⟩ := expect_gives (c := c) (r := r') hk
  rw [block, ho]
  simp only [ho₁, ho₂]
  exact Gives.ok

theorem arrowBody_expr {h : weight ts < n} (hm : isMark .lbrace ts = false)
    (he : Gives (L.assignment c ts h) e r) : Gives (arrowBody L c ts h) (.expr e) r := by
  rw [arrowBody, if_neg (by simp [hm])]
  exact he.map _

theorem arrowBody_block {h : weight ts < n} {b : List Stmt × Text} (hts : Starts startsBlock ts)
    (hb : ∀ h, Gives (block L c ts h) b r) : Gives (arrowBody L c ts h) (.block b.1) r := by
  obtain ⟨t, ts, rfl, ht⟩ := hts.exists_cons
  rw [arrowBody, if_pos (isMark_cons (of_decide_eq_true ht))]
  exact (hb _).map _

/-! ### Statements -/

/-- The end of a statement, before the tokens that follow it. -/
theorem ended_gives {α : Type} {o : Outcome α n} {a : α} {goesOn : Lexeme → Bool}
    {es rest : List Token} (ho : Gives o a (es ++ rest)) (hes : Ends goesOn rest.head? es) :
    Gives (ended c o) a rest := by
  have hend : Gives (endStatement c (es ++ rest)) () rest := by
    obtain ⟨t, rfl, ht⟩ | ⟨rfl, hnext⟩ := hes
    · rw [List.singleton_append, endStatement, if_pos ht]
      exact Gives.ok
    · cases rest with
      | nil => exact Gives.ok
      | cons t rest =>
        have hsemi : t.lexeme ≠ .punct .semicolon := by
          rcases hnext t rfl with hbrace | ⟨-, hne, -⟩
          · rw [hbrace]
            decide
          · exact hne
        have hstop : (t.newline || t.lexeme = .punct .rbrace) = true := by
          rcases hnext t rfl with hbrace | ⟨hnl, -, -⟩
          · simp [hbrace]
          · simp [hnl]
        rw [List.nil_append, endStatement, if_neg hsemi, if_pos hstop]
        exact Gives.ok
  obtain ⟨hw, rfl⟩ := ho
  rw [ended]
  exact (hend.map _).widen _

theorem body_block {h : weight ts < n} {b : List Stmt × Text} (hts : Starts startsBlock ts)
    (hb : ∀ h, Gives (block L c ts h) b r) : Gives (body L c ts h) b.1 r := by
  obtain ⟨t, ts, rfl, ht⟩ := hts.exists_cons
  rw [body, if_pos (isMark_cons (of_decide_eq_true ht))]
  exact (hb _).map _

theorem body_single {h : weight ts < n} {s : Stmt} (hm : isMark .lbrace ts = false)
    (hs : Gives (L.statement c ts h) s r) : Gives (body L c ts h) [s] r := by
  rw [body, if_neg (by simp [hm])]
  exact hs.map _

theorem declaration_value {exported : Bool} {pos : Nat} {kind : DeclKind} {name : Text} {a : Token}
    {goesOn : Lexeme → Bool} {es rest : List Token} {h : weight (t :: a :: r) < n}
    (ht : t.lexeme = .ident name) (ha : a.lexeme = .punct .assign)
    (he : ∀ h, Gives (L.assignment c r h) e (es ++ rest)) (hes : Ends goesOn rest.head? es) :
    Gives (declaration L c exported pos kind (t :: a :: r) h)
      (.decl pos kind name (some e) exported) rest := by
  obtain ⟨l, pos', nl⟩ := t
  cases ht
  obtain ⟨hw, ho⟩ := expect_gives (c := c) (r := r) ha
  rw [declaration]
  simp only [isMark_cons ha, if_true, ho]
  exact ended_gives (((he _).map _).widen _) hes

theorem declaration_bare {exported : Bool} {pos : Nat} {kind : DeclKind} {name : Text}
    {es rest : List Token} {h : weight (t :: (es ++ rest)) < n} (ht : t.lexeme = .ident name)
    (hkind : kind ≠ .const) (hes : Ends (· = .punct .assign) rest.head? es) :
    Gives (declaration L c exported pos kind (t :: (es ++ rest)) h)
      (.decl pos kind name none exported) rest := by
  have hm : isMark .assign (es ++ rest) = false := by
    obtain ⟨u, rfl, hu⟩ | ⟨rfl, hnext⟩ := hes
    · exact isMark_cons_ne (by rw [hu]; decide)
    · cases rest with
      | nil => rfl
      | cons u rest =>
        refine isMark_cons_ne ?_
        rcases hnext u rfl with hbrace | ⟨-, -, hne⟩
        · rw [hbrace]
          decide
        · exact of_decide_eq_false hne
  obtain ⟨l, pos', nl⟩ := t
  cases ht
  rw [declaration]
  simp only [hm, Bool.false_eq_true, if_false, if_neg hkind]
  exact ended_gives Gives.ok hes

theorem function_gives {exported : Bool} {pos : Nat} {name : Text} {names : List Text} {o : Token}
    {b : List Stmt × Text} {h : weight (t :: o :: r) < n} (ht : t.lexeme = .ident name)
    (ho : o.lexeme = .punct .lparen) (hp : Gives (paramNames c r) names r')
    (hb : ∀ h, Gives (block L c r' h) b r'') :
    Gives (function L c exported pos (t :: o :: r) h)
      (.func pos name names b.1 b.2 exported) r'' := by
  obtain ⟨l, pos', nl⟩ := t
  cases ht
  obtain ⟨hw, hparams⟩ := params_gives ho hp
  rw [function]
  simp only [hparams]
  exact ((hb _).map _).widen _

theorem alternative_none {h : weight ts < n}
    (hts : ∀ t ∈ ts.head?, t.lexeme ≠ .keyword .else_) : Gives (alternative L c ts h) [] ts := by
  cases ts with
  | nil => exact Gives.ok
  | cons t ts =>
    rw [alternative]
    simp only [if_neg (hts t rfl)]
    exact Gives.ok

/-- What stands after `else` is a body: `if` starts a single statement. -/
theorem alternative_gives {ss : List Stmt} {h : weight (t :: r) < n}
    (ht : t.lexeme = .keyword .else_) (hb : ∀ h, Gives (body L c r h) ss r') :
    Gives (alternative L c (t :: r) h) ss r' := by
  have hr := hb (Nat.lt_trans (Token.weight_lt_cons t r) h)
  rw [alternative]
  simp only [if_pos ht]
  split
  · rename_i hif
    have hm : isMark .lbrace r = false := by
      cases r with
      | nil => rfl
      | cons u r =>
        simp only [isKeyword, decide_eq_true_eq] at hif
        exact isMark_cons_ne (by rw [hif]; decide)
    rw [body, if_neg (by simp [hm])] at hr
    exact hr.widen _
  · exact hr.widen _

theorem choice_gives {pos : Nat} {o k : Token} {yes no : List Stmt} {r₁ r₂ : List Token}
    {h : weight (o :: r) < n} (ho : o.lexeme = .punct .lparen)
    (he : ∀ h, Gives (L.assignment c r h) e (k :: r')) (hk : k.lexeme = .punct .rparen)
    (hb : ∀ h, Gives (body L c r' h) yes r₁) (ha : ∀ h, Gives (alternative L c r₁ h) no r₂) :
    Gives (choice L c pos (o :: r) h) (.cond pos e yes no) r₂ := by
  obtain ⟨hw, hopen⟩ := expect_gives (c := c) (r := r) ho
  obtain ⟨hw₁, hclosed⟩ := enclosed_gives (he (Nat.lt_trans hw h)) hk
  obtain ⟨hw₂, hbody⟩ := hb (Nat.lt_trans hw₁ (Nat.lt_trans hw h))
  rw [choice, hopen]
  simp only [hclosed, hbody]
  exact ((ha _).map _).widen _

theorem returned_none {pos : Nat} {es rest : List Token} {h : weight (es ++ rest) < n}
    (hes : Ends (fun _ => false) rest.head? es) :
    Gives (returned L c pos (es ++ rest) h) (.ret pos none) rest := by
  have hend : endsReturn (es ++ rest) = true := by
    obtain ⟨t, rfl, ht⟩ | ⟨rfl, hnext⟩ := hes
    · simp [endsReturn, ht]
    · cases rest with
      | nil => rfl
      | cons t rest =>
        rcases hnext t rfl with hbrace | ⟨hnl, -, -⟩
        · simp [endsReturn, hbrace]
        · simp [endsReturn, hnl]
  rw [returned, if_pos hend]
  exact ended_gives Gives.ok hes

theorem returned_value {pos : Nat} {goesOn : Lexeme → Bool} {es rest : List Token}
    {h : weight (t :: r) < n} (hnl : t.newline = false) (ht : startsExpr t.lexeme = true)
    (he : Gives (L.assignment c (t :: r) h) e (es ++ rest)) (hes : Ends goesOn rest.head? es) :
    Gives (returned L c pos (t :: r) h) (.ret pos (some e)) rest := by
  have hend : endsReturn (t :: r) = false := by
    obtain ⟨l, pos', nl⟩ := t
    cases hnl
    cases l with
    | punct p => cases p <;> first | rfl | cases ht
    | _ => rfl
  rw [returned, if_neg (by simp [hend])]
  exact ended_gives ((he.map _).widen _) hes

/-- A declaration, with or without `export`. -/
theorem statement_decl {ps : List Token} {exported : Bool} (hps : Exports ps exported) {w : Token}
    {kind : DeclKind} (hw : declKind? w.lexeme = some kind) {s : Stmt}
    (hd : ∀ m h, Gives (declaration (level m) c exported w.pos kind r h) s r')
    (hts : ts = ps ++ w :: r) : Gives (statement c ts (level (weight ts))) s r' := by
  obtain ⟨l, pos, nl⟩ := w
  cases l with
  | keyword k =>
    obtain ⟨rfl, rfl⟩ | ⟨⟨l, pos', nl'⟩, rfl, ht, rfl⟩ := hps
    · subst hts
      cases k <;> cases hw <;> exact hd _ _
    · cases ht
      subst hts
      cases k <;> cases hw <;> exact hd _ _
  | _ => cases hw

/-- A function, with or without `export`. -/
theorem statement_func {ps : List Token} {exported : Bool} (hps : Exports ps exported) {w : Token}
    (hw : w.lexeme = .keyword .function) {s : Stmt}
    (hf : ∀ m h, Gives (function (level m) c exported w.pos r h) s r')
    (hts : ts = ps ++ w :: r) : Gives (statement c ts (level (weight ts))) s r' := by
  obtain ⟨l, pos, nl⟩ := w
  cases hw
  obtain ⟨rfl, rfl⟩ | ⟨⟨l, pos', nl'⟩, rfl, ht, rfl⟩ := hps
  · subst hts
    exact hf _ _
  · cases ht
    subst hts
    exact hf _ _

theorem statement_choice {L : Level (weight (t :: r))} (ht : t.lexeme = .keyword .if_) {s : Stmt}
    (hc : ∀ h, Gives (choice L c t.pos r h) s r') : Gives (statement c (t :: r) L) s r' := by
  obtain ⟨l, pos, nl⟩ := t
  cases ht
  exact hc (Token.weight_lt_cons _ r)

theorem statement_return {L : Level (weight (t :: r))} (ht : t.lexeme = .keyword .return_)
    {s : Stmt} (hc : ∀ h, Gives (returned L c t.pos r h) s r') :
    Gives (statement c (t :: r) L) s r' := by
  obtain ⟨l, pos, nl⟩ := t
  cases ht
  exact hc (Token.weight_lt_cons _ r)

theorem statement_labeled {L : Level (weight (t :: u :: r))} {name : Text}
    (ht : t.lexeme = .ident name) (hu : u.lexeme = .punct .colon) {s : Stmt}
    (hs : ∀ h, Gives (L.statement c r h) s r') :
    Gives (statement c (t :: u :: r) L) (.labeled t.pos name s) r' := by
  obtain ⟨l, pos, nl⟩ := t
  cases ht
  rw [statement]
  simp only [if_pos hu]
  exact ((hs _).map _).widen _

theorem statement_expr {L : Level (weight (t :: r))} {goesOn : Lexeme → Bool}
    {es rest : List Token} (ht : startsExpr t.lexeme = true) (hlabel : startsLabel (t :: r) = false)
    (he : Gives (assignment c (t :: r) L) e (es ++ rest)) (hes : Ends goesOn rest.head? es) :
    Gives (statement c (t :: r) L) (.expr t.pos e) rest := by
  have hs : Gives (expressionStatement c (t :: r) L) (.expr t.pos e) rest :=
    ended_gives (he.map _) hes
  obtain ⟨l, pos, nl⟩ := t
  cases l with
  | keyword k => cases k <;> first | exact hs | cases ht
  | ident name =>
    cases r with
    | nil => exact hs
    | cons u r =>
      have hne : u.lexeme ≠ .punct .colon := by simpa [startsLabel, isMark] using hlabel
      rw [statement]
      simp only [if_neg hne]
      exact hs
  | _ => exact hs

end

end Reactive.Parser
