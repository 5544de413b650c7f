/-
Canonical texts are read back.

The canonical text of a parsed tree is parsed to the same tree, offsets and the
sources of functions apart.  Two inductions follow the printer: the search for
a closing brace passes over every printed text, and every printed text spells
its tree; the second needs the first for template literals.

* `skips_expr` — the search for a closing brace passes over a printed text;
* `spelled_tree` — a printed text is tokens that derive its tree;
* `Expr.parse_text` — reading the canonical text of a parsed tree;
* `Expr.parse_text_of_intact` — the same with increments and decrements.
-/
import Reactive.Proofs.Expr.Canonical
import Reactive.Proofs.Expr.Spelling

namespace Reactive

open Lexer

/-! ### Braces in printed texts -/

/-- The digits of a number that is read back. -/
theorem Num.ReadsBack.text_eq {n : Num} (h : n.ReadsBack) :
    ∃ i : Nat, n.text = Text.ofNat i ∧ Parser.number? (Text.ofNat i) = some n := by
  obtain ⟨i, hi, rfl, hread⟩ := h
  have hint : (Int64.ofNat i).toInt = i := Int64.toInt_ofNat_of_lt (by omega)
  refine ⟨i, ?_, hread⟩
  rw [Num.text, hint]
  rfl

theorem skips_literal {p : Nat} {v : Literal} (h : (Expr.literal p v).Intact) : Skips v.text := by
  cases v with
  | null => exact skips_plain rfl
  | undefined => exact skips_plain rfl
  | bool b => cases b <;> exact skips_plain rfl
  | number n =>
    obtain ⟨i, htext, -⟩ := Num.ReadsBack.text_eq h
    rw [Literal.text, htext]
    exact skips_ofNat i
  | str s => exact skips_quote s

theorem skips_paren {x : Text} (hx : Skips x) (b : Bool) : Skips (Printer.paren b x) := by
  cases b with
  | false => exact hx
  | true => exact ((skips_plain rfl).append hx).append (skips_plain rfl)

theorem skips_ident {n : Text} (hn : isIdentifier n = true) : Skips n :=
  skips_word (isIdentifier_iff.1 hn).1

theorem skips_names {ns : List Text} (hns : ∀ n ∈ ns, isIdentifier n = true) :
    Skips (Text.join ", " ns) := by
  fun_induction Text.join ", " ns with
  | case1 => exact Skips.nil
  | case2 n => exact skips_ident (hns n List.mem_cons_self)
  | case3 n m r ih =>
    exact ((skips_ident (hns n List.mem_cons_self)).append (skips_plain rfl)).append
      (ih fun k hk => hns k (List.mem_cons_of_mem _ hk))

theorem skips_blanks (i : Nat) : Skips (Printer.blanks i) := by
  refine skips_plain (List.all_eq_true.2 fun b hb => ?_)
  rw [List.eq_of_mem_replicate hb]
  rfl

theorem skips_key (k : Text) : Skips (Printer.key k) := by
  unfold Printer.key
  split
  · rename_i hident
    exact skips_ident hident
  · exact skips_quote k

theorem skips_assign {op : AssignOp} (h : ∃ m : Punct, m.assign? = some op) : Skips op.text := by
  obtain ⟨m, hm⟩ := h
  rw [← Grammar.text_assign? hm]
  cases m <;> first | exact skips_plain rfl | cases hm

theorem skips_exported (exported : Bool) :
    Skips (if exported then ("export " : Text) else []) := by
  cases exported with
  | false => exact Skips.nil
  | true => exact skips_plain rfl

theorem skips_kind (kind : DeclKind) : Skips kind.text := by
  cases kind <;> exact skips_plain rfl

/-- A printed block. -/
theorem skips_block {x : Text} (hx : Skips x) (i : Nat) :
    Skips ("\x7b\n" ++ x ++ Printer.blanks i ++ "\x7d") := by
  have hinner : Skips ([10] ++ x ++ Printer.blanks i) :=
    ((skips_plain rfl).append hx).append (skips_blanks i)
  exact hinner.braces

mutual

/-- The search for a closing brace passes over a printed expression. -/
theorem skips_expr : ∀ (e : Expr) (i : Nat) {element : Bool}, e.Every rereadable element →
    Skips (Printer.expr i e)
  | .literal _ _, _, _, h => skips_literal h.2
  | .ident _ _, _, _, h => skips_ident h
  | .template _ _ es, i, _, h => skips_template h.1.1.1 (skips_all es i h.2)
  | .array _ es, i, _, h =>
    ((skips_plain rfl).append (skips_exprs es i h.2)).append (skips_plain rfl)
  | .object _ ps, i, _, h => (skips_properties ps i h.2).braces
  | .spread _ a, i, _, h => (skips_plain rfl).append (skips_paren (skips_expr a i h.2) _)
  | .member _ o _ opt, i, _, h =>
    ((skips_paren (skips_expr o i h.2) _).append (by cases opt <;> exact skips_plain rfl)).append
      (skips_word h.1.1.1)
  | .index _ o k opt, i, _, h =>
    (((skips_paren (skips_expr o i h.2.1) _).append (by cases opt <;> exact skips_plain rfl)).append
      (skips_expr k i h.2.2)).append (skips_plain rfl)
  | .call _ f args opt, i, _, h =>
    (((skips_paren (skips_expr f i h.2.1) _).append (by cases opt <;> exact skips_plain rfl)).append
      (skips_exprs args i h.2.2)).append (skips_plain rfl)
  | .unary _ op e, i, _, h =>
    ((skips_plain (by cases op <;> rfl)).append (skips_plain (by cases op <;> rfl))).append
      (skips_paren (skips_expr e i h.2) _)
  | .binary _ op l r, i, _, h =>
    ((((skips_paren (skips_expr l i h.2.1) _).append (skips_plain rfl)).append
      (skips_plain (by cases op <;> rfl))).append (skips_plain rfl)).append
      (skips_paren (skips_expr r i h.2.2) _)
  | .conditional _ t y n, i, _, h =>
    ((((skips_paren (skips_expr t i h.2.1) _).append (skips_plain rfl)).append
      (skips_paren (skips_expr y i h.2.2.1) _)).append (skips_plain rfl)).append
      (skips_paren (skips_expr n i h.2.2.2) _)
  | .arrow _ _ b, i, _, h =>
    (((skips_plain rfl).append (skips_names h.2.1)).append (skips_plain rfl)).append
      (skips_body b i h.2.2)
  | .assign _ _ t v, i, _, h =>
    ((((skips_expr t i h.2.1).append (skips_plain rfl)).append (skips_assign h.1.1.1.2)).append
      (skips_plain rfl)).append (skips_expr v i h.2.2)
  | .step _ op true t, i, _, h =>
    (skips_plain (by cases op <;> rfl)).append (skips_expr t i h.2)
  | .step _ op false t, i, _, h =>
    (skips_expr t i h.2).append (skips_plain (by cases op <;> rfl))

theorem skips_all : ∀ (es : List Expr) (i : Nat) {element : Bool}, everyExpr rereadable element es →
    ∀ e ∈ es, Skips (Printer.expr i e)
  | [], _, _, _, _, he => by cases he
  | e :: r, i, _, h, f, hf => by
    rcases List.mem_cons.1 hf with heq | hf
    · rw [heq]
      exact skips_expr e i h.1
    · exact skips_all r i h.2 f hf

theorem skips_exprs : ∀ (es : List Expr) (i : Nat) {element : Bool},
    everyExpr rereadable element es → Skips (Printer.exprs i es)
  | [], _, _, _ => Skips.nil
  | [e], i, _, h => skips_expr e i h.1
  | e :: f :: r, i, _, h =>
    ((skips_expr e i h.1).append (skips_plain rfl)).append (skips_exprs (f :: r) i h.2)

theorem skips_properties : ∀ (ps : List Property) (i : Nat), everyProperty rereadable ps →
    Skips (Printer.properties i ps)
  | [], _, _ => Skips.nil
  | [p], i, h => skips_property p i h.1
  | p :: q :: r, i, h =>
    ((skips_property p i h.1).append (skips_plain rfl)).append (skips_properties (q :: r) i h.2)

theorem skips_property : ∀ (p : Property) (i : Nat), p.Every rereadable →
    Skips (Printer.property i p)
  | .mk k v true, i, h => by
    obtain ⟨pos, rfl⟩ := h.1.1 rfl
    exact skips_ident h.2
  | .mk k v false, i, h =>
    ((skips_key k).append (skips_plain rfl)).append (skips_expr v i h.2)

theorem skips_body : ∀ (b : Body) (i : Nat), b.Every rereadable → Skips (Printer.body i b)
  | .expr e, i, h => skips_paren (skips_expr e i h) _
  | .block ss, i, h => skips_block (skips_lines ss (i + 1) h) i

theorem skips_lines : ∀ (ss : List Stmt) (i : Nat), everyStmt rereadable ss →
    Skips (Printer.lines i ss)
  | [], _, _ => Skips.nil
  | s :: r, i, h =>
    (((skips_blanks i).append (skips_stmt s i h.1)).append (skips_plain rfl)).append
      (skips_lines r i h.2)

theorem skips_stmt : ∀ (s : Stmt) (i : Nat), s.Every rereadable → Skips (Printer.stmt i s)
  | .expr _ e, i, h => (skips_expr e i h).append (skips_plain rfl)
  | .decl _ kind _ none exported, _, h =>
    ((((((skips_exported exported).append (skips_kind kind)).append (skips_plain rfl)).append
      (skips_ident h.2.1)).append Skips.nil).append (skips_plain rfl))
  | .decl _ kind _ (some e) exported, i, h =>
    (((((skips_exported exported).append (skips_kind kind)).append (skips_plain rfl)).append
      (skips_ident h.2.1)).append ((skips_plain rfl).append (skips_expr e i h.2.2))).append
      (skips_plain rfl)
  | .cond _ test yes [], i, h => by
    have hhead := (skips_plain (x := "if (") rfl).append (skips_expr test i h.1)
    have hblock := skips_block (skips_lines yes (i + 1) h.2.1) i
    have hwhole := (hhead.append (skips_plain (x := ") ") rfl)).append hblock
    rw [Printer.stmt]
    simp only [List.append_assoc] at hwhole ⊢
    exact hwhole
  | .cond _ test yes (s :: r), i, h => by
    have hhead := (skips_plain (x := "if (") rfl).append (skips_expr test i h.1)
    have hblock := skips_block (skips_lines yes (i + 1) h.2.1) i
    have hother := skips_block (skips_lines (s :: r) (i + 1) h.2.2) i
    have hwhole := (((hhead.append (skips_plain (x := ") ") rfl)).append hblock).append
      (skips_plain (x := " else ") rfl)).append hother
    rw [Printer.stmt]
    simp only [List.append_assoc] at hwhole ⊢
    exact hwhole
  | .ret _ none, _, _ => skips_plain rfl
  | .ret _ (some e), i, h =>
    ((skips_plain rfl).append ((skips_plain (x := [32]) rfl).append (skips_expr e i h))).append
      (skips_plain rfl)
  | .func _ n ns ss _ exported, i, h => by
    have hhead := (((skips_exported exported).append (skips_plain (x := "function ") rfl)).append
      (skips_ident h.1)).append ((skips_plain (x := "(") rfl).append (skips_names h.2.1))
    have hblock := skips_block (skips_lines ss (i + 1) h.2.2) i
    have hwhole := (hhead.append (skips_plain (x := ") ") rfl)).append hblock
    rw [Printer.stmt]
    simp only [List.append_assoc] at hwhole ⊢
    exact hwhole
  | .labeled _ _ s, i, h =>
    ((skips_ident h.1).append (skips_plain rfl)).append (skips_stmt s i h.2)

end

/-! ### Printed texts spell their trees -/

namespace Grammar

theorem Fresh.append {x : Text} (hx : Fresh x) (y : Text) : Fresh (x ++ y) := by
  obtain ⟨b, r, rfl, hb⟩ := hx
  exact ⟨b, r ++ y, rfl, hb⟩

theorem fresh_word {w : Text} (hw : isWord w = true) : Fresh w := by
  obtain ⟨b, r, rfl, hstart⟩ := exists_cons_of_word hw
  refine ⟨b, r, rfl, ?_, ?_, ?_⟩ <;> rintro rfl <;>
    exact absurd hstart (by rw [Text.decode_ascii (by decide)]; decide)

theorem fresh_literal {p : Nat} {v : Literal} (h : (Expr.literal p v).Intact) : Fresh v.text := by
  cases v with
  | null => exact ⟨_, _, rfl, by decide⟩
  | undefined => exact ⟨_, _, rfl, by decide⟩
  | bool b => cases b <;> exact ⟨_, _, rfl, by decide⟩
  | number n =>
    obtain ⟨i, htext, -⟩ := Num.ReadsBack.text_eq h
    obtain ⟨b, r, heq⟩ := List.exists_cons_of_ne_nil (ofNat_ne_nil i)
    have hb := isDigit_iff.1 (isDigit_of_mem_ofNat (n := i) (b := b) (by simp [heq]))
    rw [Literal.text, htext, heq]
    refine ⟨b, r, rfl, ?_, ?_, ?_⟩ <;> rintro rfl <;> exact absurd hb (by decide)
  | str s => exact ⟨_, _, rfl, by decide⟩

/-- A printed operand does not start with a sign, unless it is an increment or decrement. -/
theorem fresh_operand : ∀ (e : Expr) (i : Nat), e.Every rereadable false → e.isStep = false →
    Fresh (Printer.paren e.isCompound (Printer.expr i e))
  | .literal _ _, _, h, _ => fresh_literal h.2
  | .ident _ _, _, h, _ => fresh_word (isIdentifier_iff.1 h).1
  | .template .., _, _, _ => ⟨_, _, rfl, by decide⟩
  | .array .., _, _, _ => ⟨_, _, rfl, by decide⟩
  | .object .., _, _, _ => ⟨_, _, rfl, by decide⟩
  | .spread .., _, h, _ => Bool.noConfusion h.1.1.1
  | .member _ o _ _, i, h, _ => ((fresh_operand o i h.2 h.1.2).append _).append _
  | .index _ o _ _, i, h, _ => (((fresh_operand o i h.2.1 h.1.2).append _).append _).append _
  | .call _ f _ _, i, h, _ => (((fresh_operand f i h.2.1 h.1.2).append _).append _).append _
  | .unary .., _, _, _ => ⟨_, _, rfl, by decide⟩
  | .binary .., _, _, _ => ⟨_, _, rfl, by decide⟩
  | .conditional .., _, _, _ => ⟨_, _, rfl, by decide⟩
  | .arrow .., _, _, _ => ⟨_, _, rfl, by decide⟩
  | .assign .., _, _, _ => ⟨_, _, rfl, by decide⟩

theorem isCompound_of_assignable {e : Expr} (h : e.isAssignable = true) :
    e.isCompound = false := by
  cases e <;> first | rfl | cases h

theorem isStep_of_assignable {e : Expr} (h : e.isAssignable = true) : e.isStep = false := by
  cases e <;> first | rfl | cases h

/-- A prefix operator ends before the operand printed after it. -/
theorem clearOf_operand {op : UnaryOp} {e : Expr} {i : Nat} (h : e.Every rereadable false)
    (hglue : op.gluesTo e = false) :
    ClearOf op (Printer.paren e.isCompound (Printer.expr i e)) := by
  cases hstep : e.isStep with
  | false => exact (fresh_operand e i h hstep).clearOf op
  | true =>
    cases e with
    | step p sop before t =>
      have htarget : t.isAssignable = true := h.1.1.2
      cases before with
      | false =>
        have hfresh := fresh_operand t i h.2 (isStep_of_assignable htarget)
        rw [isCompound_of_assignable htarget] at hfresh
        exact (hfresh.append _).clearOf op
      | true =>
        cases sop with
        | increment =>
          refine clearOf_of_ne (b := 43) (by decide) (fun _ => by decide) ?_
          rintro rfl
          cases hglue
        | decrement =>
          refine clearOf_of_ne (b := 45) (by decide) ?_ fun _ => by decide
          rintro rfl
          cases hglue
    | literal | ident | template | array | object | spread | member | index | call | unary
    | binary | conditional | arrow | assign => cases hstep

/-- Whether an expression is spread over the list around it. -/
def isSpread : Expr → Bool
  | .spread .. => true
  | _ => false

/-- A text spells an expression: as an element of a list, and if the expression is no spread, as a
value and, unless it is compound, as an operand, which links can follow if it is no increment or
decrement. -/
structure SpelledAs (x : Text) (e : Expr) : Prop where
  element : Spelled x (IsElement e)
  value : isSpread e = false → Spelled x (IsValue e.opensBrace e)
  unary : isSpread e = false → e.isCompound = false → Spelled x (IsUnary e.opensBrace e)
  operand : isSpread e = false → e.isCompound = false → e.isStep = false →
    Spelled x (IsOperand e.opensBrace e)

namespace SpelledAs

variable {x : Text} {e : Expr}

theorem of_operand (h : Spelled x (IsOperand e.opensBrace e)) : SpelledAs x e :=
  ⟨h.unary.value.element, fun _ => h.unary.value, fun _ _ => h.unary, fun _ _ _ => h⟩

theorem of_unary (hs : (e.isCompound || e.isStep) = true)
    (h : Spelled x (IsUnary e.opensBrace e)) : SpelledAs x e := by
  refine ⟨h.value.element, fun _ => h.value, fun _ _ => h, fun _ hc hs' => ?_⟩
  rw [hc, hs'] at hs
  cases hs

theorem of_value (hc : e.isCompound = true) (h : Spelled x (IsValue e.opensBrace e)) :
    SpelledAs x e :=
  ⟨h.element, fun _ => h, fun _ hc' => absurd (hc.symm.trans hc') (by decide),
    fun _ hc' => absurd (hc.symm.trans hc') (by decide)⟩

theorem isSpread_false (he : e.Every rereadable false) : isSpread e = false := by
  cases e <;> first | rfl | exact Bool.noConfusion he.1.1.1

theorem whole (h : SpelledAs x e) (he : e.Every rereadable false) :
    Spelled x (IsValue e.opensBrace e) :=
  h.value (isSpread_false he)

/-- A compound operand stands in parentheses. -/
theorem paren (h : SpelledAs x e) (he : e.Every rereadable false) :
    Spelled (Printer.paren e.isCompound x) (IsUnary (!e.isCompound && e.opensBrace) e) := by
  cases hc : e.isCompound with
  | false => exact h.unary (isSpread_false he) hc
  | true => exact (spelled_paren (h.whole he)).unary

theorem linked (h : SpelledAs x e) (he : e.Every rereadable false) (hs : e.isStep = false) :
    Spelled (Printer.paren e.isCompound x) (IsOperand (!e.isCompound && e.opensBrace) e) := by
  cases hc : e.isCompound with
  | false => exact h.operand (isSpread_false he) hc hs
  | true => exact spelled_paren (h.whole he)

/-- The target of an assignment, an increment or a decrement. -/
theorem target (h : SpelledAs x e) (he : e.Every rereadable false)
    (htarget : e.isAssignable = true) : Spelled x (IsOperand e.opensBrace e) :=
  h.operand (isSpread_false he) (isCompound_of_assignable htarget) (isStep_of_assignable htarget)

/-- A canonical expression. -/
theorem valued (h : SpelledAs x e) (he : e.Every printable false) :
    Spelled x (IsValue e.leads e) := by
  rw [← opensBrace_of_printable e he]
  exact h.whole he.rereadable

end SpelledAs

theorem spelled_constant {p : Nat} {v : Literal} {k : Keyword}
    (hk : constant? (.keyword k) = some v) : Spelled k.text (IsOperand false (.literal p v)) := by
  refine spelled_primary (spelled_keyword k) Lexeme.noConfusion fun c t ht => ?_
  exact ⟨_, .constant (by rw [ht]; exact hk), rfl⟩

theorem spelled_literal {p : Nat} {v : Literal} (h : (Expr.literal p v).Intact) :
    Spelled v.text (IsOperand false (.literal p v)) := by
  cases v with
  | null => exact spelled_constant (k := .null) rfl
  | undefined => exact spelled_constant (k := .undefined) rfl
  | bool b =>
    cases b with
    | false => exact spelled_constant (k := .false_) rfl
    | true => exact spelled_constant (k := .true_) rfl
  | number n =>
    obtain ⟨i, htext, hread⟩ := Num.ReadsBack.text_eq h
    rw [Literal.text, htext]
    exact spelled_primary (spelled_number i) Lexeme.noConfusion
      fun c t ht => ⟨_, .number ht hread, rfl⟩
  | str s =>
    exact spelled_primary (spelled_quote h) Lexeme.noConfusion fun c t ht => ⟨_, .str ht, rfl⟩

/-- The body of an arrow function: an object literal stands in parentheses. -/
theorem spelled_bodyParen {x : Text} {e : Expr} (hx : Spelled x (IsValue e.opensBrace e))
    (he : e.isObject = true ∨ e.opensBrace = false) :
    Spelled (Printer.paren e.isObject x) (IsBody (.expr e)) := by
  cases ho : e.isObject with
  | true => exact spelled_bodyExpr (spelled_paren hx).unary.value
  | false =>
    have hopens : e.opensBrace = false := by
      rcases he with h | h
      · exact absurd (ho.symm.trans h) (by decide)
      · exact h
    rw [hopens] at hx
    exact spelled_bodyExpr hx

theorem blank_blanks (i : Nat) : Blank (Printer.blanks i) := Blank.replicate _

/-- A printed block, its statements one level deeper than the closing brace. -/
theorem spelled_braced {x : Text} {i : Nat} {ss : List Stmt}
    (hx : Spelled (x ++ (Printer.blanks i ++ "\x7d")) (IsStmts ss)) :
    Spelled ("\x7b\n" ++ x ++ Printer.blanks i ++ "\x7d") (IsBlock ss) := by
  simp only [List.append_assoc]
  exact spelled_block hx

mutual

/-- A printed expression spells its tree. -/
theorem spelled_tree : ∀ (e : Expr) (i : Nat) {element : Bool}, e.Every rereadable element →
    SpelledAs (Printer.expr i e) e
  | .literal _ _, _, _, h => .of_operand (spelled_literal h.2)
  | .ident _ _, _, _, h => .of_operand (spelled_primary (spelled_ident h) Lexeme.noConfusion
      fun _ _ ht => ⟨_, .ident ht, rfl⟩)
  | .template _ _ es, i, _, h => .of_operand (spelled_template h.1.1.1 (skips_all es i h.2)
      fun e he => ⟨_, spelled_all es i h.2 e he⟩)
  | .array _ es, i, _, h => by
    rw [Printer.expr, List.append_assoc]
    exact .of_operand (spelled_array (spelled_exprs es i .rbracket rfl h.2))
  | .object _ ps, i, _, h => by
    rw [Printer.expr, List.append_assoc]
    exact .of_operand (spelled_object (spelled_entries ps i h.2))
  | .spread _ a, i, _, h =>
    ⟨spelled_spread ((spelled_tree a i h.2).paren h.2), Bool.noConfusion, Bool.noConfusion,
      Bool.noConfusion⟩
  | .member _ o _ opt, i, _, h =>
    .of_operand (spelled_member ((spelled_tree o i h.2).linked h.2 h.1.2) h.1.1.1 opt)
  | .index _ o k opt, i, _, h =>
    .of_operand (spelled_index ((spelled_tree o i h.2.1).linked h.2.1 h.1.2)
      ((spelled_tree k i h.2.2).whole h.2.2) opt)
  | .call _ f args opt, i, _, h => by
    rw [Printer.expr, List.append_assoc]
    exact .of_operand (spelled_call ((spelled_tree f i h.2.1).linked h.2.1 h.1.2)
      (spelled_exprs args i .rparen rfl h.2.2) opt)
  | .unary _ _ e, i, _, h =>
    .of_unary rfl (spelled_unary (clearOf_operand h.2 h.1.2) ((spelled_tree e i h.2).paren h.2))
  | .binary _ op l r, i, _, h =>
    .of_value rfl (spelled_binary ((spelled_tree l i h.2.1).paren h.2.1)
      ((spelled_tree r i h.2.2).paren h.2.2) op)
  | .conditional _ t y n, i, _, h =>
    .of_value rfl (spelled_conditional ((spelled_tree t i h.2.1).paren h.2.1)
      ((spelled_tree y i h.2.2.1).paren h.2.2.1).value
      ((spelled_tree n i h.2.2.2).paren h.2.2.2).value)
  | .arrow _ _ (.expr e), i, _, h =>
    .of_value rfl (spelled_arrow h.2.1 (spelled_bodyParen ((spelled_tree e i h.2.2).whole h.2.2)
      h.1.2))
  | .arrow _ _ (.block ss), i, _, h =>
    .of_value rfl (spelled_arrow h.2.1 (spelled_bodyBlock (spelled_braced
      (spelled_lines ss (i + 1) i h.2.2))))
  | .assign _ _ t v, i, _, h =>
    .of_value rfl (spelled_assign ((spelled_tree t i h.2.1).target h.2.1 h.1.1.1.1) h.1.1.1.1
      ((spelled_tree v i h.2.2).whole h.2.2) h.1.1.1.2)
  | .step _ op before t, i, _, h =>
    .of_unary rfl (spelled_step ((spelled_tree t i h.2).target h.2 h.1.1.2) h.1.1.2 op before)

theorem spelled_all : ∀ (es : List Expr) (i : Nat), everyExpr rereadable false es →
    ∀ e ∈ es, Spelled (Printer.expr i e) (IsValue e.opensBrace e)
  | [], _, _, _, he => by cases he
  | e :: r, i, h, f, hf => by
    rcases List.mem_cons.1 hf with heq | hf
    · rw [heq]
      exact (spelled_tree e i h.1).whole h.1
    · exact spelled_all r i h.2 f hf

theorem spelled_exprs : ∀ (es : List Expr) (i : Nat) (close : Punct), separates close = true →
    everyExpr rereadable true es → Spelled (Printer.exprs i es ++ close.text) (IsElements close es)
  | [], _, _, hclose, _ => spelled_noElements hclose
  | [e], i, _, hclose, h => spelled_lastElement hclose (spelled_tree e i h.1).element
  | e :: f :: r, i, close, hclose, h => by
    rw [Printer.exprs, List.append_assoc]
    exact spelled_elements (spelled_tree e i h.1).element
      (spelled_exprs (f :: r) i close hclose h.2)

theorem spelled_entries : ∀ (ps : List Property) (i : Nat), everyProperty rereadable ps →
    Spelled (Printer.properties i ps ++ "\x7d") (IsProperties ps)
  | [], _, _ => spelled_noProperties
  | [p], i, h => spelled_lastProperty (spelled_entry p i h.1)
  | p :: q :: r, i, h => by
    rw [Printer.properties, List.append_assoc]
    exact spelled_properties (spelled_entry p i h.1) (spelled_entries (q :: r) i h.2)

theorem spelled_entry : ∀ (p : Property) (i : Nat), p.Every rereadable →
    Spelled (Printer.property i p) (IsProperty p)
  | .mk k v true, i, h => by
    obtain ⟨pos, rfl⟩ := h.1.1 rfl
    exact spelled_shorthand h.2
  | .mk k v false, i, h => spelled_property (h.1.2 rfl) ((spelled_tree v i h.2).whole h.2)

theorem spelled_lines : ∀ (ss : List Stmt) (i j : Nat), everyStmt rereadable ss →
    Spelled (Printer.lines i ss ++ (Printer.blanks j ++ "\x7d")) (IsStmts ss)
  | [], _, j, _ => spelled_noStmts (blank_blanks j)
  | s :: r, i, j, h => by
    rw [Printer.lines, List.append_assoc]
    exact spelled_stmts (blank_blanks i) (spelled_stmt s i h.1) (spelled_lines r i j h.2)

/-- A printed statement spells its tree. -/
theorem spelled_stmt : ∀ (s : Stmt) (i : Nat), s.Every rereadable →
    Spelled (Printer.stmt i s) (IsStmt s)
  | .expr _ e, i, h => spelled_exprStmt ((spelled_tree e i h).whole h)
  | .decl _ kind _ none exported, i, h => by
    have hkind : kind ≠ .const := fun hk => Bool.noConfusion (h.1 hk)
    rw [Printer.stmt]
    simp only [List.append_assoc]
    exact spelled_declBare hkind h.2.1 exported
  | .decl _ kind _ (some e) exported, i, h => by
    rw [Printer.stmt]
    simp only [List.append_assoc]
    exact spelled_decl h.2.1 ((spelled_tree e i h.2.2).whole h.2.2) exported
  | .cond _ test yes [], i, h => by
    have htest := (spelled_tree test i h.1).whole h.1
    have hyes := spelled_braced (spelled_lines yes (i + 1) i h.2.1)
    rw [Printer.stmt]
    simp only [List.append_assoc] at hyes ⊢
    exact spelled_cond htest hyes
  | .cond p test yes (s :: r), i, h => by
    have htest := (spelled_tree test i h.1).whole h.1
    have hyes := spelled_braced (spelled_lines yes (i + 1) i h.2.1)
    have hno := spelled_braced (spelled_lines (s :: r) (i + 1) i h.2.2)
    rw [Printer.stmt]
    have hwhole := spelled_condElse (p := p) htest hyes hno
    simp only [List.append_assoc] at hwhole ⊢
    exact hwhole
  | .ret _ none, _, _ => spelled_ret
  | .ret _ (some e), i, h => spelled_retValue ((spelled_tree e i h).whole h)
  | .func p _ _ ss src exported, i, h => by
    have hblock := spelled_braced (spelled_lines ss (i + 1) i h.2.2)
    have hwhole := spelled_func (p := p) h.1 h.2.1 hblock src exported
    rw [Printer.stmt]
    simp only [List.append_assoc] at hwhole ⊢
    exact hwhole
  | .labeled _ _ s, i, h => spelled_labeled h.1 (spelled_stmt s i h.2)

end

/-- A printed canonical expression spells its tree. -/
theorem spelled_expr (e : Expr) (i : Nat) {element : Bool} (h : e.Every printable element) :
    SpelledAs (Printer.expr i e) e :=
  spelled_tree e i h.rereadable

end Grammar

namespace Expr

/-- The canonical text of a parsed tree is parsed, and to the same tree but for offsets and the
sources of functions. -/
theorem parse_text {src : Text} {e : Expr} (hparse : Expr.parse src = .ok e) (hc : e.Canonical) :
    ∃ e', Expr.parse e.text = .ok e' ∧ e'.bare = e.bare := by
  obtain ⟨ts, eof, hsrc⟩ : ∃ ts eof, Token.ofSource 0 src = .ok (ts, eof) := by
    cases hs : Token.ofSource 0 src with
    | error err =>
      rw [Expr.parse, Expr.parseAt, hs] at hparse
      cases hparse
    | ok r => exact ⟨r.1, r.2, rfl⟩
  obtain ⟨τ, hderives⟩ := derives_of_parseAt hsrc hparse
  have hprintable : e.Every printable false :=
    hderives.printable (Token.genuine_scan hsrc) hc
  have hspelled := (Grammar.spelled_expr e 0 hprintable).valued hprintable
  obtain ⟨xs, eof', hsrc', -, τ', e', hd, hbare⟩ := hspelled.ofSource 0
  exact ⟨e', parseAt_of_derives hsrc' hd, hbare⟩

/-- What a parsed tree whose nodes are intact is printed as. -/
theorem spelled_text {src : Text} {e : Expr} (hparse : Expr.parse src = .ok e)
    (hi : e.Every intact false) : Grammar.Spelled e.text (Grammar.IsValue e.opensBrace e) := by
  obtain ⟨ts, eof, τ, hsrc, hderives⟩ := exists_derives_of_parseAt hparse
  have hrereadable : e.Every rereadable false := hderives.rereadable (Token.genuine_scan hsrc) hi
  exact (Grammar.spelled_tree e 0 hrereadable).whole hrereadable

/-- **Increments and decrements are read back as well,** where nothing is linked to them and no
sign runs into them: the canonical text of a parsed tree whose nodes are intact is parsed to the
same tree. -/
theorem parse_text_of_intact {src : Text} {e : Expr} (hparse : Expr.parse src = .ok e)
    (hi : e.Every intact false) : ∃ e', Expr.parse e.text = .ok e' ∧ e'.bare = e.bare := by
  obtain ⟨xs, eof, hsrc, -, τ, e', hd, hbare⟩ := (spelled_text hparse hi).ofSource 0
  exact ⟨e', parseAt_of_derives hsrc hd, hbare⟩

/-- A minus sign before a decrement: the text is no expression. -/
example : Expr.parse "-(--a)" = .ok (.unary 0 .neg (.step 2 .decrement true (.ident 4 "a"))) ∧
    (Expr.unary 0 .neg (.step 2 .decrement true (.ident 4 "a"))).text = "---a" ∧
    (Expr.parse "---a").toOption = none :=
  ⟨by with_unfolding_all rfl, by decide, by with_unfolding_all rfl⟩

/-- A block with a shorthand, a quoted name, a spread, an optional call and a template literal
inside another. -/
theorem parse_text_block :
    let e : Expr := .arrow 0 ["p"] (.block
      [.decl 6 .let_ "t" (some (.object 14 [.mk "p" (.ident 15 "p") true,
        .mk "a b" (.array 25 [.spread 26 (.ident 29 "q")]) false])) false,
      .ret 34 (some (.call 41 (.ident 41 "f") [.template 45 ["", ""] [.binary 48 .nullish
        (.ident 48 "p") (.template 53 ["y", ""] [.ident 57 "p"])]] true))])
    Expr.parse
      "p => \x7blet t = \x7bp, \"a b\": [...q]\x7d; return f?.(`$\x7bp ?? `y$\x7bp\x7d`\x7d`)\x7d" =
      .ok e ∧ e.Canonical ∧ ∃ e', Expr.parse e.text = .ok e' ∧ e'.bare = e.bare := by
  intro e
  have hquoted : Text.QuotesPlainly "a b" := by
    unfold Text.QuotesPlainly
    decide +kernel
  have hcanonical : e.Canonical := by
    simp only [e, Expr.Canonical, Expr.Every, Body.Every, everyStmt, Stmt.Every, everyProperty,
      Property.Every, everyExpr, canonical, Expr.Settled, Property.Settled]
    simp [hquoted]
  refine ⟨?parsed, hcanonical, parse_text ?parsed hcanonical⟩
  with_unfolding_all rfl

end Expr

end Reactive
