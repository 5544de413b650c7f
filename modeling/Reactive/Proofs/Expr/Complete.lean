/-
The parser accepts exactly its grammar.

A derivation drives the parsers: each nonterminal is parsed from the tokens it
derives, whatever follows them, as long as that does not go on with them.  The
loops over links and infix operators are the reason that the statements about
operands and chains of operators speak of what the loop does afterwards.

* `Derives.parses` — derived tokens are parsed to the tree they spell;
* `Expr.parse_iff_derives` — a source is parsed to a tree exactly if its tokens
  derive that tree, at most one tree is derived, and all else is refused.
-/
import Reactive.Proofs.Expr.Gives
import Reactive.Proofs.Expr.Sound

namespace Reactive

namespace Grammar

open Reactive.Parser
open Token (weight)

/-! ### What may follow -/

/-- The next token does not go on with an operand. -/
def Closed (τ : Tail) (r : List Token) : Prop :=
  τ = .chain → ∀ t ∈ r.head?, isLink t.lexeme = false ∧
    (stepOp? t.lexeme = none ∨ t.newline = true)

/-- The next token, if it is an infix operator, may follow operators of precedence `k`. -/
def Below (k : Nat) (r : List Token) : Prop :=
  ∀ t ∈ r.head?, ∀ op, infixOp? t.lexeme = some op →
    op.precedence < k ∨ (op.precedence = k ∧ op ≠ .pow)

/-- The next token does not go on with a conditional expression. -/
structure Rests (τ : Tail) (r : List Token) : Prop where
  closed : Closed τ r
  noInfix : τ ≠ .block → ∀ t ∈ r.head?, infixOp? t.lexeme = none
  noQuestion : τ ≠ .block → isMark .question r = false
  noArrow : isMark .arrow r = false

/-- The next token does not go on with an expression. -/
structure Free (τ : Tail) (r : List Token) : Prop extends Rests τ r where
  noAssign : ∀ t ∈ r.head?, assignOp? t.lexeme = none

/-- The next token cannot be taken for a part of the statement before it. -/
def Follows (next : Option Token) : Prop :=
  ∀ t ∈ next, assignOp? t.lexeme = none ∧ t.lexeme ≠ .punct .arrow ∧ t.lexeme ≠ .punct .colon

/-- Marks that separate and close. -/
def separates : Punct → Bool
  | .colon | .comma | .rparen | .rbracket | .rbrace | .semicolon => true
  | _ => false

/-- Separators go on with no expression. -/
theorem free_separator {t : Token} {p : Punct} (ht : t.lexeme = .punct p)
    (hp : separates p = true) (τ : Tail) (r : List Token) : Free τ (t :: r) := by
  obtain ⟨l, pos, nl⟩ := t
  cases ht
  have hall : isLink (.punct p) = false ∧ stepOp? (.punct p) = none ∧
      infixOp? (.punct p) = none ∧ assignOp? (.punct p) = none ∧ p ≠ .question ∧ p ≠ .arrow := by
    cases p <;> first | decide | cases hp
  obtain ⟨hlink, hstep, hoperator, hassign, hquestion, harrow⟩ := hall
  refine ⟨⟨?_, ?_, ?_, ?_⟩, ?_⟩
  · rintro - t ⟨⟩
    exact ⟨hlink, .inl hstep⟩
  · rintro - t ⟨⟩
    exact hoperator
  · exact fun _ => isMark_cons_ne (by simpa using hquestion)
  · exact isMark_cons_ne (by simpa using harrow)
  · rintro t ⟨⟩
    exact hassign

theorem free_nil (τ : Tail) : Free τ [] := by
  refine ⟨⟨?_, ?_, fun _ => rfl, rfl⟩, ?_⟩
  · rintro - t ⟨⟩
  · rintro - t ⟨⟩
  · rintro t ⟨⟩

/-- A token that does not go on with an expression, on a new line. -/
theorem free_newline {τ : Tail} {t : Token} {r : List Token} (hnl : t.newline = true)
    (hgoes : τ.goesOn t.lexeme = false) (hassign : assignOp? t.lexeme = none)
    (harrow : t.lexeme ≠ .punct .arrow) : Free τ (t :: r) := by
  have hjoins : (τ = .chain → isLink t.lexeme = false) ∧
      (τ ≠ .block → infixOp? t.lexeme = none ∧ t.lexeme ≠ .punct .question) := by
    cases τ with
    | block => simp
    | chain => simpa [Tail.goesOn, and_assoc, hassign] using hgoes
    | step => simpa [Tail.goesOn, hassign] using hgoes
  refine ⟨⟨?_, ?_, ?_, isMark_cons_ne harrow⟩, ?_⟩
  · rintro hτ u ⟨⟩
    exact ⟨hjoins.1 hτ, .inr hnl⟩
  · rintro hτ u ⟨⟩
    exact (hjoins.2 hτ).1
  · exact fun hτ => isMark_cons_ne (hjoins.2 hτ).2
  · rintro u ⟨⟩
    exact hassign

/-- Where a statement ends, the expression in it does. -/
theorem Ends.free {τ : Tail} {es rest : List Token} (h : Ends τ.goesOn rest.head? es)
    (hrest : Follows rest.head?) : Free τ (es ++ rest) := by
  obtain ⟨t, rfl, ht⟩ | ⟨rfl, hnext⟩ := h
  · exact free_separator ht rfl τ rest
  · cases rest with
    | nil => exact free_nil τ
    | cons t rest =>
      obtain ⟨hassign, harrow, -⟩ := hrest t rfl
      rcases hnext t rfl with hbrace | ⟨hnl, -, hgoes⟩
      · exact free_separator hbrace rfl τ rest
      · exact free_newline hnl hgoes hassign harrow

theorem Ends.not_colon {goesOn : Lexeme → Bool} {es rest : List Token}
    (h : Ends goesOn rest.head? es) (hrest : Follows rest.head?) :
    isMark .colon (es ++ rest) = false := by
  obtain ⟨t, rfl, ht⟩ | ⟨rfl, -⟩ := h
  · exact isMark_cons_ne (by rw [ht]; decide)
  · cases rest with
    | nil => rfl
    | cons t rest => exact isMark_cons_ne (hrest t rfl).2.2

theorem follows_of_startsMore {xs : List Token} (h : Starts startsMore xs) :
    Follows xs.head? := by
  obtain ⟨⟨l, pos, nl⟩, r, rfl, ht⟩ := h.exists_cons
  rintro t ⟨⟩
  cases l with
  | punct p => cases p <;> first | (cases ht; done) | exact ⟨rfl, by simp, by simp⟩
  | _ => exact ⟨rfl, by simp, by simp⟩

theorem closed_of_operator {τ : Tail} {t : Token} {op : BinaryOp} {r : List Token}
    (ht : infixOp? t.lexeme = some op) : Closed τ (t :: r) := by
  rintro - u ⟨⟩
  obtain ⟨l, pos, nl⟩ := t
  cases l with
  | punct p => cases p <;> first | exact ⟨rfl, .inl rfl⟩ | cases ht
  | _ => cases ht

theorem closed_question {τ : Tail} {t : Token} {r : List Token}
    (ht : t.lexeme = .punct .question) : Closed τ (t :: r) := by
  rintro - u ⟨⟩
  rw [ht]
  exact ⟨rfl, .inl rfl⟩

theorem rests_of_assign {τ : Tail} {t : Token} {op : AssignOp} {r : List Token}
    (ht : assignOp? t.lexeme = some op) : Rests τ (t :: r) := by
  have hall : isLink t.lexeme = false ∧ stepOp? t.lexeme = none ∧ infixOp? t.lexeme = none := by
    obtain ⟨l, pos, nl⟩ := t
    cases l with
    | punct p => cases p <;> first | exact ⟨rfl, rfl, rfl⟩ | cases ht
    | _ => cases ht
  obtain ⟨hlink, hstep, hoperator⟩ := hall
  refine ⟨?_, ?_, ?_, isMark_cons_ne (ne_mark_of_some rfl ht)⟩
  · rintro - u ⟨⟩
    exact ⟨hlink, .inl hstep⟩
  · rintro - u ⟨⟩
    exact hoperator
  · exact fun _ => isMark_cons_ne (ne_mark_of_some rfl ht)

/-! ### Derived tokens are parsed -/

/-- Operands and chains of operators do not end with a block. -/
def Sym.Unblocked : Sym → Prop
  | .operand τ | .unary τ | .binary _ τ => τ ≠ .block
  | _ => True

theorem Derives.unblocked {c : Source} {s : Sym} {xs : List Token} {a : s.Out}
    (h : Derives c s xs a) : s.Unblocked := by
  induction h with
  | plain | member | index | optionalIndex | call | optionalCall | stepAfter => exact nofun
  | unmarked _ ih | unary _ _ ih | stepBefore _ _ _ ih | tight _ ih | looser _ _ _ ih => exact ih
  | binary _ _ _ _ _ _ ih | power _ _ _ _ ih => exact ih
  | _ => trivial

/-- What follows an operand, when it ends with one that links can follow. -/
def Linked (c : Source) (τ : Tail) (e : Expr) (rest : List Token) (e' : Expr) (r : List Token) :
    Prop :=
  if τ = .chain then ∀ n h, Gives (postfixes (level n) c e rest h) e' r else e' = e ∧ r = rest

/-- The parser of a nonterminal gives the tree, before tokens that do not go on with it.

An operand and a chain of operators are read by loops, which do not stop after them: there the
result is what the loop gives from them on. -/
def Parses (c : Source) : (s : Sym) → List Token → s.Out → Prop
  | .parts ps, _, es => ∀ n h, interpolations (level n) ps h = .ok es
  | .primary, xs, e => ∀ ts rest, ts = xs ++ rest → Gives (primary c ts (level (weight ts))) e rest
  | .operand τ, xs, e => ∀ ts rest e' r, ts = xs ++ rest → Linked c τ e rest e' r →
      Gives (operand c ts (level (weight ts))) e' r
  | .unary τ, xs, e => ∀ ts rest, ts = xs ++ rest → Closed τ rest →
      Gives (unary c ts (level (weight ts))) e rest
  | .binary k τ, xs, e => ∀ ts rest least e' r, ts = xs ++ rest → least ≤ k → Closed τ rest →
      Below k rest → (∀ n h, Gives (infixes (level n) c least e rest h) e' r) →
      Gives (binary c least ts (level (weight ts))) e' r
  | .conditional τ, xs, e => ∀ ts rest, ts = xs ++ rest → Rests τ rest →
      (∀ t ∈ rest.head?, assignOp? t.lexeme = none ∨ e.isAssignable = true) →
      Gives (conditional c ts (level (weight ts))) e rest
  | .expr τ, xs, e => ∀ ts rest, ts = xs ++ rest → Free τ rest →
      Gives (assignment c ts (level (weight ts))) e rest
  | .element, xs, e => ∀ n ts rest h, ts = xs ++ rest → (∀ τ, Free τ rest) →
      Gives (element (level n) c ts h) e rest
  | .elements close, xs, es => close = .rparen ∨ close = .rbracket →
      ∀ n ts rest h, ts = xs ++ rest → Gives (elements (level n) c close ts h) es rest
  | .property, xs, p => ∀ n ts rest h, ts = xs ++ rest → (∀ τ, Free τ rest) →
      isMark .colon rest = false → Gives (property (level n) c ts h) p rest
  | .properties, xs, ps => ∀ n ts rest h, ts = xs ++ rest →
      Gives (properties (level n) c ts h) ps rest
  | .names, xs, names => ∀ ts rest, ts = xs ++ rest → Gives (paramNames c ts) names rest
  | .arrowBody τ, xs, b => ∀ n ts rest h, ts = xs ++ rest → Free τ rest →
      Gives (arrowBody (level n) c ts h) b rest
  | .block, xs, b => ∀ n ts rest h, ts = xs ++ rest → Gives (block (level n) c ts h) b rest
  | .stmts k, xs, ss => k.lexeme = .punct .rbrace → ∀ n ts rest h, ts = xs ++ k :: rest →
      Gives (blockStatements (level n) c ts h) ss (k :: rest)
  | .body next, xs, ss => ∀ n ts rest h, ts = xs ++ rest → rest.head? = next → Follows next →
      Gives (body (level n) c ts h) ss rest
  | .stmt next, xs, s => ∀ ts rest, ts = xs ++ rest → rest.head? = next → Follows next →
      Gives (statement c ts (level (weight ts))) s rest

theorem Derives.parses {c : Source} {s : Sym} {xs : List Token} {a : s.Out}
    (h : Derives c s xs a) : Parses c s xs a := by
  induction h with
  | noParts => exact fun _ _ => rfl
  | parts hsrc he _ ihe ihs =>
    intro n h
    obtain ⟨t, r, rfl, -⟩ := he.exists_cons
    obtain ⟨hw, ho⟩ := ihe _ [] (List.append_nil _).symm (free_nil _)
    rw [interpolations]
    split
    · rename_i hsrc'
      rw [hsrc] at hsrc'
      cases hsrc'
    · rename_i hsrc'
      rw [hsrc] at hsrc'
      cases hsrc'
    · rename_i hsrc'
      rw [hsrc] at hsrc'
      cases hsrc'
      have hrest : ∀ n h, interpolations (level n) _ h = .ok _ := ihs
      simp only [level_assignment, ho, hrest]
  | number ht hn =>
    rintro ts rest rfl
    exact primary_number ht hn
  | str ht =>
    rintro ts rest rfl
    exact primary_str ht
  | template ht _ ih =>
    rintro ts rest rfl
    exact primary_template ht (ih _)
  | ident ht =>
    rintro ts rest rfl
    exact primary_ident ht
  | constant ht =>
    rintro ts rest rfl
    exact primary_constant ht
  | paren ho _ hk ih =>
    rintro ts rest rfl
    refine primary_paren ho fun h => enclosed_gives ?_ hk
    rw [level_assignment]
    exact ih _ _ (by simp) (free_separator hk rfl _ _)
  | array ho _ ih =>
    rintro ts rest rfl
    exact primary_array ho fun h => ih (.inr rfl) _ _ _ h rfl
  | object ho _ ih =>
    rintro ts rest rfl
    exact primary_object ho fun h => ih _ _ _ h rfl
  | plain _ ih =>
    rintro ts rest e' r hts hlinked
    exact operand_gives (ih ts rest hts) (hlinked _)
  | member opt _ hd ht ih =>
    rintro ts rest e' r hts hlinked
    refine ih ts _ e' r (hts.trans (List.append_assoc _ _ _)) fun n h => ?_
    exact postfixes_member opt hd ht (hlinked n)
  | index _ ho _ hk ihx ihy =>
    rintro ts rest e' r hts hlinked
    refine ihx ts _ e' r (hts.trans (List.append_assoc _ _ _)) fun n h => ?_
    refine postfixes_index ho (fun h => enclosed_gives ?_ hk) (hlinked n)
    rw [level_assignment]
    exact ihy _ _ (List.append_assoc _ _ _) (free_separator hk rfl _ _)
  | optionalIndex _ hd ho _ hk ihx ihy =>
    rintro ts rest e' r hts hlinked
    refine ihx ts _ e' r (hts.trans (List.append_assoc _ _ _)) fun n h => ?_
    refine postfixes_optionalIndex hd ho (fun h => enclosed_gives ?_ hk) (hlinked n)
    rw [level_assignment]
    exact ihy _ _ (List.append_assoc _ _ _) (free_separator hk rfl _ _)
  | call _ ho _ ihx ihy =>
    rintro ts rest e' r hts hlinked
    refine ihx ts _ e' r (hts.trans (List.append_assoc _ _ _)) fun n h => ?_
    exact postfixes_call ho (fun h => ihy (.inl rfl) _ _ _ h rfl) (hlinked n)
  | optionalCall _ hd ho _ ihx ihy =>
    rintro ts rest e' r hts hlinked
    refine ihx ts _ e' r (hts.trans (List.append_assoc _ _ _)) fun n h => ?_
    exact postfixes_optionalCall hd ho (fun h => ihy (.inl rfl) _ _ _ h rfl) (hlinked n)
  | stepAfter _ hassign hop hnl ih =>
    rintro ts rest e' r hts ⟨rfl, rfl⟩
    refine ih ts _ _ _ (hts.trans (List.append_assoc _ _ _)) fun n h => ?_
    exact postfixes_step hop hnl hassign
  | @unmarked c xs τ e hx ih =>
    rintro ts rest rfl hclosed
    rw [unary_operand (Starts.append hx.starts rest)]
    refine ih _ rest e rest rfl ?_
    unfold Linked
    split
    · rename_i hτ
      exact fun n h => postfixes_end (hclosed hτ)
    · exact ⟨rfl, rfl⟩
  | unary hop _ ih =>
    rintro ts rest rfl hclosed
    refine unary_operator hop fun h => ?_
    rw [level_unary]
    exact ih _ rest rfl hclosed
  | stepBefore hop _ hassign ih =>
    rintro ts rest rfl hclosed
    refine unary_step hop (fun h => ?_) hassign
    rw [level_unary]
    exact ih _ rest rfl hclosed
  | tight _ ih =>
    rintro ts rest least e' r hts - hclosed - hrest
    exact binary_gives (ih ts rest hts hclosed) (hrest _)
  | looser _ _ _ ih =>
    rintro ts rest least e' r hts hle hclosed hbelow hrest
    refine ih ts rest least e' r hts (by omega) hclosed ?_ hrest
    intro t ht op hop
    have := hbelow t ht op hop
    omega
  | @binary c t k xs ys τ τ' a b op _ hop hk hpow _ ihx ihy =>
    rintro ts rest least e' r rfl hle hclosed hbelow hrest
    refine ihx _ (t :: (ys ++ rest)) least e' r (by simp) hle (closed_of_operator hop) ?_ ?_
    · rintro u ⟨⟩ op' hop'
      rw [hop] at hop'
      cases hop'
      exact .inr ⟨hk, hpow⟩
    · -- The right operand takes the tighter operators only, and leaves `rest` to the loop.
      intro n h
      refine infixes_more hop (by omega) (fun h => ?_) (hrest n)
      rw [level_binary, BinaryOp.rightPrecedence, if_neg hpow, hk]
      have hlower : ∀ t ∈ rest.head?, ∀ op, infixOp? t.lexeme = some op → op.precedence < k + 1 := by
        intro t ht op hop
        have := hbelow t ht op hop
        omega
      exact ihy _ rest (k + 1) b rest rfl (Nat.le_refl _) hclosed
        (fun t ht op hop => .inl (hlower t ht op hop)) fun n h => infixes_end hlower
  | @power c t xs ys τ τ' a b _ hop _ ihx ihy =>
    rintro ts rest least e' r rfl hle hclosed hbelow hrest
    refine ihx _ (t :: (ys ++ rest)) least e' r (by simp) (by omega) (closed_of_operator hop) ?_ ?_
    · rintro u ⟨⟩ op' hop'
      rw [hop] at hop'
      cases hop'
      exact .inl (by decide)
    · intro n h
      refine infixes_more hop hle (fun h => ?_) (hrest n)
      rw [level_binary]
      refine ihy _ rest 8 b rest rfl (Nat.le_refl _) hclosed hbelow fun n h => infixes_end ?_
      intro t ht op hop
      rcases hbelow t ht op hop with hlt | ⟨heq, hne⟩
      · exact hlt
      · exact absurd ((eq_pow_iff op).2 heq) hne
  | @certain c xs τ e hx ih =>
    rintro ts rest rfl hrests -
    have hblock : τ ≠ .block := hx.unblocked
    have hnone : ∀ t ∈ rest.head?, ∀ op, infixOp? t.lexeme = some op → op.precedence < 1 := by
      intro t ht op hop
      rw [hrests.noInfix hblock t ht] at hop
      cases hop
    refine conditional_plain ?_ (hrests.noQuestion hblock)
    exact ih _ rest 1 e rest rfl (Nat.le_refl _) hrests.closed
      (fun t ht op hop => .inl (hnone t ht op hop)) fun n h => infixes_end hnone
  | @conditional c q k xs ys zs τ τ₁ τ₂ a b d _ hq _ hk _ ihx ihy ihz =>
    rintro ts rest hts hrests hassign
    have heq : ts = xs ++ q :: (ys ++ k :: (zs ++ rest)) := by rw [hts]; simp
    have hnone : ∀ t ∈ (q :: (ys ++ k :: (zs ++ rest))).head?, ∀ op,
        infixOp? t.lexeme = some op → op.precedence < 1 := by
      rintro t ⟨⟩ op hop
      rw [hq] at hop
      cases hop
    have htest := ihx ts _ 1 a _ heq (Nat.le_refl _) (closed_question hq)
      (fun t ht op hop => .inl (hnone t ht op hop)) fun n h => infixes_end hnone
    have hyes : ∀ n h, Gives ((level n).assignment c (ys ++ k :: (zs ++ rest)) h) b
        (k :: (zs ++ rest)) := by
      intro n h
      rw [level_assignment]
      exact ihy _ _ rfl (free_separator hk rfl _ _)
    refine conditional_choice htest hq (hyes _) hk fun h => ?_
    rw [level_assignment]
    refine ihz _ rest rfl ⟨hrests, fun t ht => ?_⟩
    simpa [Expr.isAssignable] using hassign t ht
  | value hx ih =>
    rintro ts rest rfl hfree
    refine assignment_plain (hx.told.1 rest hfree.noArrow) ?_ hfree.noAssign
    exact ih _ rest rfl hfree.toRests fun t ht => .inl (hfree.noAssign t ht)
  | @assign c t xs ys τ τ' a b op hx hassign hop _ ihx ihy =>
    rintro ts rest rfl hfree
    have heq : xs ++ t :: ys ++ rest = xs ++ t :: (ys ++ rest) := by simp
    have harrow : isMark .arrow (t :: (ys ++ rest)) = false :=
      isMark_cons_ne (ne_mark_of_some rfl hop)
    refine assignment_assign (t := t) (r := ys ++ rest) ?_ ?_ hop hassign fun h => ?_
    · rw [heq]
      exact hx.told.1 _ harrow
    · exact ihx _ _ heq (rests_of_assign hop) fun _ _ => .inr hassign
    · rw [level_assignment]
      exact ihy _ rest rfl hfree
  | @arrowOne c t a xs τ name b ht ha _ ih =>
    rintro ts rest rfl hfree
    refine arrow_gives ?_ (arrowParams_one ht) ha fun h => ih _ _ _ h rfl hfree
    simp [startsArrow, ht, isMark, ha]
  | @arrow c o a ns xs τ names b ho hn ha _ ihn ih =>
    rintro ts rest rfl hfree
    refine arrow_gives ?_ (arrowParams_paren ho (ihn _ (a :: (xs ++ rest)) (by simp))) ha
      fun h => ih _ _ _ h rfl hfree
    have hclose := hn.balanced.2 (a :: (xs ++ rest))
    rw [isMark_cons ha] at hclose
    simpa [startsArrow, ho] using hclose
  | arrowValue hx hm ih =>
    rintro n ts rest h rfl hfree
    obtain ⟨t, r, rfl, -⟩ := hx.exists_cons
    refine arrowBody_expr hm ?_
    rw [level_assignment]
    exact ih _ rest rfl hfree
  | arrowBlock hx ih =>
    rintro n ts rest h rfl -
    exact arrowBody_block (Starts.append hx.starts rest) fun h => ih _ _ rest h rfl
  | element hx ih =>
    rintro n ts rest h rfl hfree
    refine element_gives ?_ ?_
    · rw [level_assignment]
      exact ih _ rest rfl (hfree _)
    · exact Starts.not_mark hx.starts rfl _
  | spread ht _ ih =>
    rintro n ts rest h rfl hfree
    refine element_spread ht fun h => ?_
    rw [level_assignment]
    exact ih _ rest rfl (hfree _)
  | noElements hk =>
    rintro - n ts rest h rfl
    exact elements_none hk
  | @lastElement c k close xs e hx hk ih =>
    rintro hclose n ts rest h hts
    have heq := hts.trans (List.append_assoc _ _ _)
    have hsep : separates close = true := by rcases hclose with rfl | rfl <;> rfl
    refine elements_last ?_ ?_ (ih n ts _ h heq fun τ => free_separator hk hsep τ rest) hk
    · rw [heq]
      exact Starts.not_mark hx.starts (by rcases hclose with rfl | rfl <;> rfl) _
    · rcases hclose with rfl | rfl <;> decide
  | elements hx ht _ ih ihs =>
    rintro hclose n ts rest h hts
    have heq := hts.trans (List.append_assoc _ _ _)
    refine elements_more ?_ (ih n ts _ h heq fun τ => free_separator ht rfl τ _) ht
      fun h => ihs hclose _ _ _ h rfl
    rw [heq]
    exact Starts.not_mark hx.starts (by rcases hclose with rfl | rfl <;> rfl) _
  | property ht hd _ ih =>
    rintro n ts rest h rfl hfree -
    refine property_value ht hd fun h => ?_
    rw [level_assignment]
    exact ih _ rest rfl (hfree _)
  | shorthand ht =>
    rintro n ts rest h rfl - hcolon
    exact property_short ht hcolon
  | noProperties hk =>
    rintro n ts rest h rfl
    exact properties_none hk
  | lastProperty hx hk ih =>
    rintro n ts rest h hts
    have heq := hts.trans (List.append_assoc _ _ _)
    refine properties_last ?_ (ih n ts _ h heq (fun τ => free_separator hk rfl τ rest) ?_) hk
    · rw [heq]
      exact Starts.not_mark hx.starts rfl _
    · exact isMark_cons_ne (by rw [hk]; decide)
  | properties hx ht _ ih ihs =>
    rintro n ts rest h hts
    have heq := hts.trans (List.append_assoc _ _ _)
    refine properties_more ?_ (ih n ts _ h heq (fun τ => free_separator ht rfl τ _) ?_) ht
      fun h => ihs _ _ _ h rfl
    · rw [heq]
      exact Starts.not_mark hx.starts rfl _
    · exact isMark_cons_ne (by rw [ht]; decide)
  | noNames hk =>
    rintro ts rest rfl
    exact paramNames_none hk
  | lastName ht hk =>
    rintro ts rest rfl
    exact paramNames_last ht hk
  | names ht hd _ ih =>
    rintro ts rest rfl
    exact paramNames_more ht hd (ih _ rest rfl)
  | block ho _ hk ih =>
    rintro n ts rest h rfl
    exact block_gives ho (fun h => ih hk _ _ rest h (List.append_assoc _ _ _)) hk
  | noStmts =>
    rintro hk n ts rest h rfl
    exact blockStatements_none hk
  | skip ht _ ih =>
    rintro hk n ts rest h rfl
    exact blockStatements_skip ht fun h => ih hk _ _ rest h rfl
  | @stmts c k xs ys s ss hs hss ihs ihss =>
    rintro hk n ts rest h rfl
    have hhead : (ys ++ k :: rest).head? = (ys ++ [k]).head? := by cases ys <;> rfl
    have hfollows : Follows (ys ++ [k]).head? := by
      rcases hss.starts with rfl | hstarts
      · rintro t ⟨⟩
        rw [hk]
        exact ⟨rfl, by decide, by decide⟩
      · exact follows_of_startsMore (hstarts.append [k])
    refine blockStatements_more (r := ys ++ k :: rest) ?_ ?_ fun h => ihss hk _ _ rest h rfl
    · rw [List.append_assoc]
      exact Starts.append hs.starts _
    · rw [level_statement]
      exact ihs _ _ (List.append_assoc _ _ _) hhead hfollows
  | braced hx ih =>
    rintro n ts rest h rfl - -
    exact body_block (Starts.append hx.starts rest) fun h => ih _ _ rest h rfl
  | single hx hm ih =>
    rintro n ts rest h rfl hnext hfollows
    obtain ⟨t, r, rfl, -⟩ := Starts.exists_cons hx.starts
    refine body_single hm ?_
    rw [level_statement]
    exact ih _ rest rfl hnext hfollows
  | @exprStmt c next t xs es τ e hx hes ih =>
    rintro ts rest rfl rfl hfollows
    obtain ⟨t', r, heq, ht⟩ := hx.exists_cons
    cases heq
    have hassoc : t :: (xs ++ es) ++ rest = t :: xs ++ (es ++ rest) := by simp
    have hlabel := hx.told _ (Ends.not_colon hes hfollows)
    rw [← hassoc] at hlabel
    exact statement_expr ht hlabel (ih _ _ hassoc (Ends.free hes hfollows)) hes
  | @decl c next w t a ps xs es τ kind name e exported hps hw ht ha _ hes ih =>
    rintro ts rest rfl rfl hfollows
    refine statement_decl hps hw (r := t :: a :: (xs ++ (es ++ rest))) (fun m h => ?_) (by simp)
    refine declaration_value ht ha (fun h => ?_) hes
    rw [level_assignment]
    exact ih _ _ rfl (Ends.free hes hfollows)
  | @declBare c next w t ps es kind name exported hps hw ht hkind hes =>
    rintro ts rest rfl rfl hfollows
    exact statement_decl hps hw (r := t :: (es ++ rest))
      (fun m h => declaration_bare ht hkind hes) (by simp)
  | @func c next w t o ps ns xs name names b exported hps hw ht ho _ _ ihn ih =>
    rintro ts rest rfl - -
    refine statement_func hps hw (r := t :: o :: (ns ++ (xs ++ rest))) (fun m h => ?_) (by simp)
    exact function_gives ht ho (ihn _ _ rfl) fun h => ih _ _ rest h rfl
  | @cond c next w o k xs ys τ e yes hw ho _ hk _ helse ihx ihy =>
    rintro ts rest rfl rfl hfollows
    have htest : ∀ n h, Gives ((level n).assignment c (xs ++ k :: ys ++ rest) h) e
        (k :: (ys ++ rest)) := by
      intro n h
      rw [level_assignment]
      exact ihx _ _ (by simp) (free_separator hk rfl _ _)
    exact statement_choice hw fun h => choice_gives ho (htest _) hk
      (fun h => ihy _ _ rest h rfl rfl hfollows) fun h => alternative_none helse
  | @condElse c next w o k l xs ys zs τ e yes no hw ho _ hk _ hl _ ihx ihy ihz =>
    rintro ts rest rfl rfl hfollows
    have htest : ∀ n h, Gives ((level n).assignment c (xs ++ k :: (ys ++ l :: zs) ++ rest) h) e
        (k :: (ys ++ l :: (zs ++ rest))) := by
      intro n h
      rw [level_assignment]
      exact ihx _ _ (by simp) (free_separator hk rfl _ _)
    have helse : Follows (l :: (zs ++ rest)).head? := by
      rintro t ⟨⟩
      rw [hl]
      exact ⟨rfl, by decide, by decide⟩
    exact statement_choice hw fun h => choice_gives ho (htest _) hk
      (fun h => ihy _ _ _ h rfl rfl helse)
      fun h => alternative_gives hl fun h => ihz _ _ rest h rfl rfl hfollows
  | ret hw hes =>
    rintro ts rest rfl rfl -
    exact statement_return hw fun h => returned_none hes
  | @retValue c next w t xs es τ e hw hnl hx hes ih =>
    rintro ts rest rfl rfl hfollows
    obtain ⟨t', r, heq, ht⟩ := hx.exists_cons
    cases heq
    refine statement_return hw fun h => returned_value hnl ht ?_ hes
    rw [level_assignment]
    exact ih _ _ (by simp) (Ends.free hes hfollows)
  | labeled ht hd _ ih =>
    rintro ts rest rfl hnext hfollows
    refine statement_labeled ht hd fun h => ?_
    rw [level_statement]
    exact ih _ rest rfl hnext hfollows

end Grammar

namespace Expr

open Grammar

/-- Derived tokens of a source are parsed to the tree they spell. -/
theorem parseAt_of_derives {base : Nat} {src : Text} {ts : List Token} {eof : Token}
    (hsrc : Token.ofSource base src = .ok (ts, eof)) {τ : Tail} {e : Expr}
    (h : Derives ⟨src, base, eof⟩ (.expr τ) ts e) : Expr.parseAt base src = .ok e := by
  obtain ⟨t, r, rfl, -⟩ := h.exists_cons
  obtain ⟨hw, ho⟩ := h.parses _ [] (List.append_nil _).symm (free_nil τ)
  rw [Expr.parseAt, hsrc]
  simp only [ho]

/-- A source is parsed to a tree exactly if its tokens derive that tree; they derive at most one,
and a source whose tokens derive none is refused. -/
theorem parse_iff_derives {src : Text} {ts : List Token} {eof : Token}
    (hsrc : Token.ofSource 0 src = .ok (ts, eof)) :
    (∀ e, Expr.parse src = .ok e ↔ ∃ τ, Derives ⟨src, 0, eof⟩ (.expr τ) ts e) ∧
    (∀ e e' τ τ', Derives ⟨src, 0, eof⟩ (.expr τ) ts e → Derives ⟨src, 0, eof⟩ (.expr τ') ts e' →
      e = e') ∧
    ((∀ e τ, ¬ Derives ⟨src, 0, eof⟩ (.expr τ) ts e) →
      ∃ err : SyntaxError, Expr.parse src = .error err) := by
  have hiff : ∀ e, Expr.parse src = .ok e ↔ ∃ τ, Derives ⟨src, 0, eof⟩ (.expr τ) ts e := by
    intro e
    constructor
    · exact fun h => derives_of_parseAt hsrc h
    · rintro ⟨τ, h⟩
      exact parseAt_of_derives hsrc h
  refine ⟨hiff, ?_, ?_⟩
  · intro e e' τ τ' h h'
    have heq := ((hiff e).2 ⟨τ, h⟩).symm.trans ((hiff e').2 ⟨τ', h'⟩)
    cases heq
    rfl
  · intro hnone
    cases hp : Expr.parse src with
    | error err => exact ⟨err, rfl⟩
    | ok e =>
      obtain ⟨τ, h⟩ := (hiff e).1 hp
      exact absurd h (hnone e τ)

/-- Differences group to the left. -/
theorem parse_iff_derives_differences : Expr.parse "a-b-c" =
    .ok (.binary 0 .sub (.binary 0 .sub (.ident 0 "a") (.ident 2 "b")) (.ident 4 "c")) := by
  have hsrc : Token.ofSource 0 "a-b-c" = .ok
      ([⟨.ident "a", 0, false⟩, ⟨.punct .minus, 1, false⟩, ⟨.ident "b", 2, false⟩,
        ⟨.punct .minus, 3, false⟩, ⟨.ident "c", 4, false⟩], ⟨.eof, 5, false⟩) := by
    with_unfolding_all rfl
  have hname : ∀ k pos name, 1 ≤ k → k ≤ 9 → Derives ⟨"a-b-c", 0, ⟨.eof, 5, false⟩⟩
      (.binary k .chain) [⟨.ident name, pos, false⟩] (.ident pos name) := fun k pos name h₁ h₂ =>
    Parser.looser_of_le (.tight (.unmarked (.plain (.ident rfl)))) h₁ h₂ (by decide)
  have hminus : ∀ p, Parser.infixOp? (Token.mk (.punct .minus) p false).lexeme = some .sub :=
    fun _ => rfl
  have hleft := Derives.binary (hname 6 0 "a" (by decide) (by decide)) (hminus 1) rfl (by decide)
    (hname 7 2 "b" (by decide) (by decide))
  have hboth := Derives.binary hleft (hminus 3) rfl (by decide)
    (hname 7 4 "c" (by decide) (by decide))
  refine ((parse_iff_derives hsrc).1 _).2 ⟨.chain, .value (.certain ?_)⟩
  exact Parser.looser_of_le hboth (by decide) (by decide) (by decide)

end Expr

end Reactive
