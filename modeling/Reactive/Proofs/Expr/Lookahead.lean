/-
How derived tokens start.

The parsers decide by the next tokens alone, most of the time by one.  The
exception is an arrow function with its parameters in parentheses: that is told
from an expression in parentheses by what stands after the closing one, which
is found because derived tokens have their brackets in pairs.

* `Derives.starts` — the first token of each nonterminal;
* `Derives.nested` — brackets come in pairs, one within or after the other;
* `Derives.balanced` — parentheses are balanced;
* `Derives.told` — only arrow functions start like arrow functions, and no
  expression starts like a label.
-/
import Reactive.Proofs.Expr.Grammar

namespace Reactive.Grammar

open Reactive.Parser (number? prefixOp? infixOp? assignOp? propertyName? isMark arrowAfter
  startsArrow)

/-! ### First tokens -/

/-- Whether a token starts a primary expression. -/
def startsPrimary : Lexeme → Bool
  | .number _ | .str _ | .template .. | .ident _ => true
  | .punct .lparen | .punct .lbracket | .punct .lbrace => true
  | l => (constant? l).isSome

/-- Whether a token starts an expression. -/
def startsExpr (l : Lexeme) : Bool :=
  startsPrimary l || (prefixOp? l).isSome || (stepOp? l).isSome

/-- Whether a token starts an element of an array or an argument. -/
def startsElement (l : Lexeme) : Bool := startsExpr l || l = .punct .ellipsis

/-- Whether a token starts an entry of an object literal. -/
def startsProperty (l : Lexeme) : Bool := (propertyName? l).isSome

/-- Whether a token starts a block. -/
def startsBlock (l : Lexeme) : Bool := l = .punct .lbrace

/-- Whether a token starts a statement. -/
def startsStmt (l : Lexeme) : Bool :=
  startsExpr l || (declKind? l).isSome || l = .keyword .function || l = .keyword .export_ ||
    l = .keyword .if_ || l = .keyword .return_

/-- Whether a token starts a statement or stands for an empty one. -/
def startsMore (l : Lexeme) : Bool := startsStmt l || l = .punct .semicolon

/-- There is a first token, of a kind. -/
def Starts (f : Lexeme → Bool) (xs : List Token) : Prop := ∃ t ∈ xs.head?, f t.lexeme = true

theorem starts_cons {f : Lexeme → Bool} {t : Token} {xs : List Token} :
    Starts f (t :: xs) ↔ f t.lexeme = true := by
  simp [Starts]

theorem Starts.append {f : Lexeme → Bool} {xs : List Token} (h : Starts f xs) (ys : List Token) :
    Starts f (xs ++ ys) := by
  obtain ⟨t, ht, hf⟩ := h
  cases xs with
  | nil => cases ht
  | cons x xs => exact ⟨t, ht, hf⟩

theorem Starts.imp {f g : Lexeme → Bool} (hfg : ∀ l, f l = true → g l = true) {xs : List Token}
    (h : Starts f xs) : Starts g xs := by
  obtain ⟨t, ht, hf⟩ := h
  exact ⟨t, ht, hfg _ hf⟩

theorem Starts.exists_cons {f : Lexeme → Bool} {xs : List Token} (h : Starts f xs) :
    ∃ t r, xs = t :: r ∧ f t.lexeme = true := by
  obtain ⟨t, ht, hf⟩ := h
  cases xs with
  | nil => cases ht
  | cons x r =>
    cases ht
    exact ⟨t, r, rfl, hf⟩

/-- A mark that is not of the kind does not come first. -/
theorem Starts.not_mark {f : Lexeme → Bool} {xs : List Token} (h : Starts f xs) {p : Punct}
    (hp : f (.punct p) = false) (ys : List Token) : isMark p (xs ++ ys) = false := by
  obtain ⟨t, r, rfl, ht⟩ := h.exists_cons
  have hne : t.lexeme ≠ .punct p := by
    intro heq
    rw [heq, hp] at ht
    cases ht
  simpa [isMark] using hne

theorem startsExpr_of_startsPrimary (l : Lexeme) (h : startsPrimary l = true) :
    startsExpr l = true := by
  simp [startsExpr, h]

theorem startsStmt_of_startsExpr (l : Lexeme) (h : startsExpr l = true) : startsStmt l = true := by
  simp [startsStmt, h]

/-- How the tokens of a nonterminal start. -/
def Sym.Front : Sym → List Token → Prop
  | .primary, xs | .operand _, xs => Starts startsPrimary xs
  | .unary _, xs | .binary _ _, xs | .conditional _, xs | .expr _, xs | .arrowBody _, xs =>
    Starts startsExpr xs
  | .element, xs => Starts startsElement xs
  | .property, xs => Starts startsProperty xs
  | .block, xs => Starts startsBlock xs
  | .body _, xs | .stmt _, xs => Starts startsStmt xs
  | .stmts _, xs => xs = [] ∨ Starts startsMore xs
  | .parts _, _ | .elements _, _ | .properties, _ | .names, _ => True

theorem Derives.starts {c : Parser.Source} {s : Sym} {xs : List Token} {a : s.Out}
    (h : Derives c s xs a) : s.Front xs := by
  have hbrace : ∀ l : Lexeme, startsBlock l = true → startsExpr l = true := by
    intro l hl
    rw [of_decide_eq_true hl]
    rfl
  have hexports : ∀ {ps : List Token} {exported : Bool} {w : Token} (r : List Token),
      Exports ps exported → startsStmt w.lexeme = true → Starts startsStmt (ps ++ w :: r) := by
    rintro ps exported w r (⟨rfl, -⟩ | ⟨t, rfl, ht, -⟩) hw
    · exact starts_cons.2 hw
    · exact starts_cons.2 (by rw [ht]; rfl)
  induction h with
  | noParts | parts | noElements | lastElement | elements | noProperties | lastProperty
  | properties | noNames | lastName | names => trivial
  | number ht | str ht | template ht | ident ht | paren ht | array ht | object ht =>
    exact starts_cons.2 (by rw [ht]; rfl)
  | constant ht =>
    refine starts_cons.2 ?_
    unfold startsPrimary
    split <;> first | rfl | rw [ht]; rfl
  | plain _ ih | value _ ih | certain _ ih | tight _ ih | looser _ _ _ ih => exact ih
  | member _ _ _ _ ih | index _ _ _ _ ih | optionalIndex _ _ _ _ _ ih | call _ _ _ ih
  | optionalCall _ _ _ _ ih | stepAfter _ _ _ _ ih | binary _ _ _ _ _ ih | power _ _ _ ih
  | conditional _ _ _ _ _ ih | assign _ _ _ _ ih => exact ih.append _
  | unmarked _ ih => exact Starts.imp startsExpr_of_startsPrimary ih
  | unary hop _ _ => exact starts_cons.2 (by simp [startsExpr, hop])
  | stepBefore hop _ _ _ => exact starts_cons.2 (by simp [startsExpr, hop])
  | arrowOne ht _ _ _ | arrow ht _ _ _ _ _ => exact starts_cons.2 (by rw [ht]; rfl)
  | arrowValue _ _ ih => exact ih
  | arrowBlock _ ih => exact Starts.imp hbrace ih
  | element _ ih => exact Starts.imp (fun l hl => by simp [startsElement, hl]) ih
  | spread ht _ _ => exact starts_cons.2 (by simp [startsElement, ht])
  | property ht _ _ _ => exact starts_cons.2 (by simp [startsProperty, ht])
  | shorthand ht => exact starts_cons.2 (by rw [ht]; rfl)
  | block ht _ _ _ => exact starts_cons.2 (by simp [startsBlock, ht])
  | noStmts => exact .inl rfl
  | skip ht _ _ => exact .inr (starts_cons.2 (by simp [startsMore, ht]))
  | stmts _ _ ih _ =>
    refine .inr ((Starts.imp (fun l hl => ?_) ih).append _)
    simp [startsMore, hl]
  | braced _ ih => exact Starts.imp (fun l hl => startsStmt_of_startsExpr l (hbrace l hl)) ih
  | single _ _ ih => exact ih
  | exprStmt _ _ ih => exact starts_cons.2 (startsStmt_of_startsExpr _ (starts_cons.1 ih))
  | decl hps hw _ _ _ _ _ | declBare hps hw _ _ _ => exact hexports _ hps (by simp [startsStmt, hw])
  | func hps hw _ _ _ _ _ _ => exact hexports _ hps (by rw [hw]; rfl)
  | cond ht | condElse ht | ret ht | retValue ht | labeled ht =>
    exact starts_cons.2 (by rw [ht]; rfl)

/-- Derived expressions have a first token. -/
theorem Derives.exists_cons {c : Parser.Source} {τ : Tail} {xs : List Token} {e : Expr}
    (h : Derives c (.expr τ) xs e) : ∃ t r, xs = t :: r ∧ startsExpr t.lexeme = true :=
  Starts.exists_cons h.starts

/-! ### Brackets -/

/-- Whether a token is a parenthesis, a bracket or a brace. -/
def isBracket : Lexeme → Bool
  | .punct .lparen | .punct .rparen | .punct .lbracket | .punct .rbracket | .punct .lbrace
  | .punct .rbrace => true
  | _ => false

/-- Whether two tokens are brackets that belong together. -/
def encloses : Lexeme → Lexeme → Bool
  | .punct .lparen, .punct .rparen | .punct .lbracket, .punct .rbracket
  | .punct .lbrace, .punct .rbrace => true
  | _, _ => false

/-- Tokens with their brackets in pairs, one within or after the other. -/
inductive Nested : List Token → Prop where
  | nil : Nested []
  | cons {t : Token} {xs : List Token} : isBracket t.lexeme = false → Nested xs → Nested (t :: xs)
  | enclosed {o k : Token} {xs ys : List Token} : encloses o.lexeme k.lexeme = true → Nested xs →
      Nested ys → Nested (o :: (xs ++ k :: ys))

/-- Nested tokens and then a mark. -/
def NestedBefore (p : Punct) (xs : List Token) : Prop :=
  ∃ ys k, xs = ys ++ [k] ∧ Nested ys ∧ k.lexeme = .punct p

section

variable {t o k : Token} {l l' : Lexeme} {p : Punct} {xs ys : List Token}

theorem Nested.append (hx : Nested xs) (hy : Nested ys) : Nested (xs ++ ys) := by
  induction hx with
  | nil => exact hy
  | cons ht _ ih => exact .cons ht ih
  | enclosed ho hx _ _ ih =>
    rw [List.cons_append, List.append_assoc]
    exact .enclosed ho hx ih

theorem Nested.after (ht : t.lexeme = l) (hl : isBracket l = false) (h : Nested xs) :
    Nested (t :: xs) :=
  .cons (ht ▸ hl) h

theorem Nested.single (ht : t.lexeme = l) (hl : isBracket l = false) : Nested [t] :=
  Nested.nil.after ht hl

theorem Nested.pair (ho : o.lexeme = l) (hx : Nested xs) (hk : k.lexeme = l')
    (hl : encloses l l' = true) (hy : Nested ys) : Nested (o :: (xs ++ k :: ys)) :=
  .enclosed (ho ▸ hk ▸ hl) hx hy

theorem NestedBefore.nil (hk : k.lexeme = .punct p) : NestedBefore p [k] := ⟨[], k, rfl, .nil, hk⟩

theorem NestedBefore.append (hx : Nested xs) (hy : NestedBefore p ys) :
    NestedBefore p (xs ++ ys) := by
  obtain ⟨zs, k, rfl, hzs, hk⟩ := hy
  exact ⟨xs ++ zs, k, (List.append_assoc _ _ _).symm, hx.append hzs, hk⟩

theorem NestedBefore.after (ht : t.lexeme = l) (hl : isBracket l = false) (h : NestedBefore p xs) :
    NestedBefore p (t :: xs) :=
  NestedBefore.append (Nested.single ht hl) h

theorem NestedBefore.opened (h : NestedBefore p xs) (ho : o.lexeme = l)
    (hl : encloses l (.punct p) = true) : Nested (o :: xs) := by
  obtain ⟨ys, k, rfl, hys, hk⟩ := h
  exact hys.pair ho hk hl .nil

end

/-- How the tokens of a nonterminal have their brackets. -/
def Sym.Nests : Sym → List Token → Prop
  | .elements close, xs => NestedBefore close xs
  | .properties, xs => NestedBefore .rbrace xs
  | .names, xs => NestedBefore .rparen xs
  | _, xs => Nested xs

/-- A token with a meaning that brackets do not have is no bracket. -/
theorem not_bracket {β : Type} {f : Lexeme → Option β} (h₁ : f (.punct .lparen) = none)
    (h₂ : f (.punct .rparen) = none) (h₃ : f (.punct .lbracket) = none)
    (h₄ : f (.punct .rbracket) = none) (h₅ : f (.punct .lbrace) = none)
    (h₆ : f (.punct .rbrace) = none) {l : Lexeme} {b : β} (h : f l = some b) :
    isBracket l = false := by
  unfold isBracket
  split <;> simp_all

theorem Ends.nested {goesOn : Lexeme → Bool} {next : Option Token} {es : List Token}
    (h : Ends goesOn next es) : Nested es := by
  obtain ⟨t, rfl, ht⟩ | ⟨rfl, -⟩ := h
  · exact .single ht rfl
  · exact .nil

theorem Exports.nested {ps : List Token} {exported : Bool} (h : Exports ps exported) : Nested ps := by
  obtain ⟨rfl, -⟩ | ⟨t, rfl, ht, -⟩ := h
  · exact .nil
  · exact .single ht rfl

theorem Derives.nested {c : Parser.Source} {s : Sym} {xs : List Token} {a : s.Out}
    (h : Derives c s xs a) : s.Nests xs := by
  induction h with
  | noParts | parts | noStmts => exact .nil
  | number ht | str ht | template ht | ident ht | shorthand ht => exact .single ht rfl
  | constant ht => exact .single rfl (not_bracket rfl rfl rfl rfl rfl rfl ht)
  | paren ho _ hk ih => exact .pair ho ih hk rfl .nil
  | array ho _ ih => exact ih.opened ho rfl
  | object ho _ ih => exact ih.opened ho rfl
  | plain _ ih | unmarked _ ih | tight _ ih | looser _ _ _ ih | certain _ ih | value _ ih
  | arrowValue _ _ ih | arrowBlock _ ih | element _ ih | braced _ ih | single _ _ ih => exact ih
  | member opt _ hd ht ih =>
    have hmark : isBracket (.punct (if opt then .optional else .dot)) = false := by cases opt <;> rfl
    exact .append ih (.after hd hmark (.single rfl (not_bracket rfl rfl rfl rfl rfl rfl ht)))
  | index _ ho _ hk ihx ihy => exact .append ihx (.pair ho ihy hk rfl .nil)
  | optionalIndex _ hd ho _ hk ihx ihy =>
    exact .append ihx (.after hd rfl (.pair ho ihy hk rfl .nil))
  | call _ ho _ ihx ihy => exact .append ihx (ihy.opened ho rfl)
  | optionalCall _ hd ho _ ihx ihy => exact .append ihx (.after hd rfl (ihy.opened ho rfl))
  | stepAfter _ _ ht _ ih => exact .append ih (.single rfl (not_bracket rfl rfl rfl rfl rfl rfl ht))
  | unary hop _ ih | stepBefore hop _ _ ih => exact .after rfl (not_bracket rfl rfl rfl rfl rfl rfl hop) ih
  | binary _ hop _ _ _ ihx ihy | power _ hop _ ihx ihy | assign _ _ hop _ ihx ihy =>
    exact .append ihx (.after rfl (not_bracket rfl rfl rfl rfl rfl rfl hop) ihy)
  | conditional _ hq _ hk _ ihx ihy ihz =>
    exact .append ihx (.after hq rfl (.append ihy (.after hk rfl ihz)))
  | arrowOne ht ha _ ih => exact .after ht rfl (.after ha rfl ih)
  | arrow ho _ ha _ ihn ih => exact .append (ihn.opened ho rfl) (.after ha rfl ih)
  | spread ht _ ih => exact .after ht rfl ih
  | noElements hk | noProperties hk | noNames hk => exact .nil hk
  | lastElement _ hk ih | lastProperty _ hk ih => exact .append ih (.nil hk)
  | elements _ ht _ ih ihs | properties _ ht _ ih ihs => exact .append ih (.after ht rfl ihs)
  | property ht hd _ ih =>
    exact .after rfl (not_bracket rfl rfl rfl rfl rfl rfl ht) (.after hd rfl ih)
  | lastName ht hk => exact .after ht rfl (.nil hk)
  | names ht hd _ ih => exact .after ht rfl (.after hd rfl ih)
  | block ho _ hk ih => exact .pair ho ih hk rfl .nil
  | skip ht _ ih => exact .after ht rfl ih
  | stmts _ _ ih ihs => exact .append ih ihs
  | exprStmt _ hes ih => exact .append ih hes.nested
  | decl hps hw ht ha _ hes ih =>
    exact .append hps.nested (.after rfl (not_bracket rfl rfl rfl rfl rfl rfl hw) (.after ht rfl
      (.after ha rfl (.append ih hes.nested))))
  | declBare hps hw ht _ hes =>
    exact .append hps.nested (.after rfl (not_bracket rfl rfl rfl rfl rfl rfl hw)
      (.after ht rfl hes.nested))
  | func hps hw ht ho _ _ ihn ih =>
    exact .append hps.nested (.after hw rfl (.after ht rfl (.append (ihn.opened ho rfl) ih)))
  | cond hw ho _ hk _ _ ihx ihy => exact .after hw rfl (.pair ho ihx hk rfl ihy)
  | condElse hw ho _ hk _ hl _ ihx ihy ihz =>
    exact .after hw rfl (.pair ho ihx hk rfl (.append ihy (.after hl rfl ihz)))
  | ret hw hes => exact .after hw rfl hes.nested
  | retValue hw _ _ hes ih => exact .after hw rfl (.append ih hes.nested)
  | labeled ht hd _ ih => exact .after ht rfl (.after hd rfl ih)

/-! ### Parentheses -/

/-- Whether a token is a parenthesis. -/
def isParen (l : Lexeme) : Bool := l = .punct .lparen || l = .punct .rparen

theorem arrowAfter_cons {t : Token} (ht : isParen t.lexeme = false) (d : Nat) (r : List Token) :
    arrowAfter d (t :: r) = arrowAfter d r := by
  simp only [isParen, Bool.or_eq_false_iff, decide_eq_false_iff_not] at ht
  rw [arrowAfter]
  split
  · exact absurd ‹_› ht.1
  · exact absurd ‹_› ht.2
  · rfl

theorem arrowAfter_lparen {t : Token} (ht : t.lexeme = .punct .lparen) (d : Nat)
    (r : List Token) : arrowAfter d (t :: r) = arrowAfter (d + 1) r := by
  rw [arrowAfter, ht]

theorem arrowAfter_rparen {t : Token} (ht : t.lexeme = .punct .rparen) (d : Nat)
    (r : List Token) : arrowAfter (d + 2) (t :: r) = arrowAfter (d + 1) r := by
  rw [arrowAfter, ht]
  simp

theorem arrowAfter_one_rparen {t : Token} (ht : t.lexeme = .punct .rparen) (r : List Token) :
    arrowAfter 1 (t :: r) = isMark .arrow r := by
  rw [arrowAfter, ht]
  simp

/-- Tokens that close as many parentheses as they open. -/
def Even (xs : List Token) : Prop :=
  ∀ d rest, arrowAfter (d + 1) (xs ++ rest) = arrowAfter (d + 1) rest

/-- Tokens that close one parenthesis more than they open, the last with their last token. -/
def Closes (xs : List Token) : Prop :=
  (∀ d rest, arrowAfter (d + 2) (xs ++ rest) = arrowAfter (d + 1) rest) ∧
    ∀ rest, arrowAfter 1 (xs ++ rest) = isMark .arrow rest

section

variable {t : Token} {xs ys : List Token}

theorem Even.nil : Even [] := fun _ _ => rfl

theorem Even.cons (h : Even xs) (ht : isParen t.lexeme = false) : Even (t :: xs) := by
  intro d rest
  rw [List.cons_append, arrowAfter_cons ht]
  exact h d rest

theorem Even.append (hx : Even xs) (hy : Even ys) : Even (xs ++ ys) := by
  intro d rest
  rw [List.append_assoc, hx, hy]

theorem Even.closes (hx : Even xs) (ht : t.lexeme = .punct .rparen) : Closes (xs ++ [t]) := by
  constructor
  · intro d rest
    rw [List.append_assoc, hx]
    exact arrowAfter_rparen ht d rest
  · intro rest
    rw [List.append_assoc, hx]
    exact arrowAfter_one_rparen ht rest

theorem Even.paren (ht : t.lexeme = .punct .lparen) (h : Closes xs) : Even (t :: xs) := by
  intro d rest
  rw [List.cons_append, arrowAfter_lparen ht]
  exact h.1 d rest

end

/-- Tokens with their brackets in pairs close the parentheses that they open. -/
theorem Nested.even {xs : List Token} (h : Nested xs) : Even xs := by
  have hparen : ∀ l, isBracket l = false → isParen l = false := by
    intro l hl
    simp only [isParen, Bool.or_eq_false_iff, decide_eq_false_iff_not]
    constructor <;> rintro rfl <;> cases hl
  induction h with
  | nil => exact Even.nil
  | cons ht _ ih => exact ih.cons (hparen _ ht)
  | @enclosed o k xs ys hpair _ _ ihx ihy =>
    rw [List.append_cons, ← List.cons_append]
    refine Even.append ?_ ihy
    unfold encloses at hpair
    split at hpair
    · rename_i ho hk
      exact Even.paren ho (ihx.closes hk)
    · rename_i ho hk
      exact (ihx.append (Even.nil.cons (by rw [hk]; rfl))).cons (by rw [ho]; rfl)
    · rename_i ho hk
      exact (ihx.append (Even.nil.cons (by rw [hk]; rfl))).cons (by rw [ho]; rfl)
    · cases hpair

/-- How the tokens of a nonterminal have their parentheses. -/
def Sym.Balanced : Sym → List Token → Prop
  | .elements close, xs => (close = .rparen → Closes xs) ∧ (close = .rbracket → Even xs)
  | .names, xs => Closes xs
  | _, xs => Even xs

theorem Derives.balanced {c : Parser.Source} {s : Sym} {xs : List Token} {a : s.Out}
    (h : Derives c s xs a) : s.Balanced xs := by
  have hnested := h.nested
  cases s with
  | elements close =>
    obtain ⟨ys, k, rfl, hys, hk⟩ := hnested
    refine ⟨fun hclose => hys.even.closes (hclose ▸ hk), fun hclose => ?_⟩
    exact hys.even.append (Even.nil.cons (by rw [hk, hclose]; rfl))
  | names =>
    obtain ⟨ys, k, rfl, hys, hk⟩ := hnested
    exact hys.even.closes hk
  | properties =>
    obtain ⟨ys, k, rfl, hys, hk⟩ := hnested
    exact hys.even.append (Even.nil.cons (by rw [hk]; rfl))
  | _ => exact Nested.even hnested

/-! ### Arrow functions and labels -/

/-- Whether tokens start like a statement with a label. -/
def startsLabel : List Token → Bool
  | t :: r =>
    match t.lexeme with
    | .ident _ => isMark .colon r
    | _ => false
  | [] => false

/-- Tokens that start like an arrow function only if an arrow follows them. -/
def NoArrow (xs : List Token) : Prop :=
  ∀ rest, isMark .arrow rest = false → startsArrow (xs ++ rest) = false

/-- Tokens that start like a label only if a colon follows them. -/
def NoLabel (xs : List Token) : Prop :=
  ∀ rest, isMark .colon rest = false → startsLabel (xs ++ rest) = false

/-- A token that is a name or opens a parenthesis. -/
def startsTarget : Lexeme → Bool
  | .ident _ | .punct .lparen => true
  | _ => false

section

variable {t : Token} {xs ys : List Token}

theorem NoArrow.append (h : NoArrow xs) (ht : t.lexeme ≠ .punct .arrow) :
    NoArrow (xs ++ t :: ys) := by
  intro rest _
  rw [List.append_assoc]
  exact h _ (by simpa [isMark] using ht)

theorem NoLabel.append (h : NoLabel xs) (ht : t.lexeme ≠ .punct .colon) :
    NoLabel (xs ++ t :: ys) := by
  intro rest _
  rw [List.append_assoc]
  exact h _ (by simpa [isMark] using ht)

theorem NoArrow.cons (ht : startsTarget t.lexeme = false) : NoArrow (t :: xs) := by
  intro rest _
  rw [List.cons_append, startsArrow]
  split
  · rename_i hl
    rw [hl] at ht
    cases ht
  · rename_i hl
    rw [hl] at ht
    cases ht
  · rfl

theorem NoLabel.cons (ht : ∀ name, t.lexeme ≠ .ident name) : NoLabel (t :: xs) := by
  intro rest _
  rw [List.cons_append, startsLabel]
  split
  · rename_i hl
    exact absurd hl (ht _)
  · rfl

theorem NoArrow.ident {name : Text} (ht : t.lexeme = .ident name) : NoArrow [t] := by
  intro rest hrest
  rw [List.singleton_append, startsArrow, ht]
  exact hrest

theorem NoLabel.ident {name : Text} (ht : t.lexeme = .ident name) : NoLabel [t] := by
  intro rest hrest
  rw [List.singleton_append, startsLabel, ht]
  exact hrest

/-- Tokens in parentheses are an arrow function only if an arrow follows them. -/
theorem NoArrow.paren {k : Token} (ht : t.lexeme = .punct .lparen) (hx : Even xs)
    (hk : k.lexeme = .punct .rparen) : NoArrow (t :: (xs ++ [k])) := by
  intro rest hrest
  rw [List.cons_append, startsArrow, ht]
  exact ((hx.closes hk).2 rest).trans hrest

end

/-- How the tokens of a nonterminal are told from arrow functions and labels. -/
def Sym.Told : Sym → List Token → Prop
  | .primary, xs | .operand _, xs | .unary _, xs | .binary _ _, xs | .conditional _, xs =>
    NoArrow xs ∧ NoLabel xs
  | .expr _, xs => NoLabel xs
  | _, _ => True

/-- A token with a meaning that a mark does not have is not that mark. -/
theorem ne_mark_of_some {β : Type} {f : Lexeme → Option β} {p : Punct} (hp : f (.punct p) = none)
    {l : Lexeme} {b : β} (h : f l = some b) : l ≠ .punct p := by
  rintro rfl
  rw [hp] at h
  cases h

theorem startsTarget_of_some {β : Type} {f : Lexeme → Option β}
    (hn : ∀ name, f (.ident name) = none) (hp : f (.punct .lparen) = none) {l : Lexeme} {b : β}
    (h : f l = some b) : startsTarget l = false := by
  unfold startsTarget
  split
  · rw [hn] at h
    cases h
  · rw [hp] at h
    cases h
  · rfl

theorem Derives.told {c : Parser.Source} {s : Sym} {xs : List Token} {a : s.Out}
    (h : Derives c s xs a) : s.Told xs := by
  have leaf : ∀ {t : Token} {l : Lexeme} {r : List Token}, t.lexeme = l → startsTarget l = false →
      NoArrow (t :: r) ∧ NoLabel (t :: r) := by
    rintro t l r rfl hl
    refine ⟨NoArrow.cons hl, NoLabel.cons fun name hname => ?_⟩
    rw [hname] at hl
    cases hl
  have after : ∀ {xs ys : List Token} {t : Token}, NoArrow xs ∧ NoLabel xs →
      t.lexeme ≠ .punct .arrow → t.lexeme ≠ .punct .colon →
      NoArrow (xs ++ t :: ys) ∧ NoLabel (xs ++ t :: ys) :=
    fun h ha hc => ⟨h.1.append ha, h.2.append hc⟩
  induction h with
  | number ht | str ht | template ht | array ht | object ht => exact leaf ht rfl
  | ident ht => exact ⟨NoArrow.ident ht, NoLabel.ident ht⟩
  | constant hop | unary hop _ _ | stepBefore hop _ _ _ =>
    exact leaf rfl (startsTarget_of_some (fun _ => rfl) rfl hop)
  | paren ho hx hk _ =>
    exact ⟨NoArrow.paren ho hx.balanced hk, NoLabel.cons fun name => by rw [ho]; simp⟩
  | plain _ ih | unmarked _ ih | tight _ ih | looser _ _ _ ih | certain _ ih => exact ih
  | member opt _ hd _ ih =>
    exact after ih (by rw [hd]; cases opt <;> decide) (by rw [hd]; cases opt <;> decide)
  | index _ ho _ _ ih | optionalIndex _ ho _ _ _ ih | call _ ho _ ih | optionalCall _ ho _ _ ih
  | conditional _ ho _ _ _ ih => exact after ih (by rw [ho]; decide) (by rw [ho]; decide)
  | stepAfter _ _ hop _ ih | binary _ hop _ _ _ ih | power _ hop _ ih =>
    exact after ih (ne_mark_of_some rfl hop) (ne_mark_of_some rfl hop)
  | value _ ih => exact ih.2
  | assign _ _ hop _ ih => exact ih.2.append (ne_mark_of_some rfl hop)
  | arrowOne ht ha _ _ =>
    intro rest _
    simp [startsLabel, ht, isMark, ha]
  | arrow ho _ _ _ _ _ => exact NoLabel.cons fun name => by rw [ho]; simp
  | _ => trivial

end Reactive.Grammar
