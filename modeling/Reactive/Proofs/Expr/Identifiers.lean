/-
The free names of a parsed expression.

The scan for free names lists each name once, and only names that stand in the
expression.  In a parsed expression these are identifiers.

* `Expr.named_of_parseAt`, `Stmt.named_of_parseProgram` — the names in a parsed
  source are identifiers;
* `Expr.Every.uses_hoisted` — and so are the names that it uses;
* `Names.tidy_expr` — what a scan adds;
* `Expr.tidy_freeNames` — the free names of an expression.
-/
import Reactive.Proofs.Expr.Canonical
import Reactive.Proofs.Expr.Hoisting
import Reactive.Proofs.Expr.Sound

namespace Reactive

/-- The condition that all names are identifiers. -/
def named : Rule where
  name n := isIdentifier n = true
  expr _ _ := True
  property _ := True
  stmt _ := True

theorem formed_named : formed.Gives formed named where
  name _ h _ := h
  expr _ _ _ _ := trivial
  property _ _ _ := trivial
  stmt _ _ _ := trivial

/-! ### Parsed sources -/

/-- The names in a derived tree are identifiers. -/
theorem Grammar.Derives.named {c : Parser.Source} {s : Grammar.Sym} {xs : List Token} {a : s.Out}
    (h : Grammar.Derives c s xs a) (hts : ∀ t ∈ xs, t.lexeme.Genuine) : s.Every named a :=
  Grammar.Sym.Every.gives formed_named s a (h.formed hts) (h.formed hts)

/-- The names in the statements up to the end of some tokens are identifiers. -/
theorem Parser.named_of_program {c : Source} {ts : List Token} (hts : ∀ t ∈ ts, t.lexeme.Genuine)
    {ss : List Stmt} (h : program c ts = .ok ss) : everyStmt named ss := by
  fun_induction program c ts generalizing ss with
  | case1 =>
    cases h
    trivial
  | case2 t r _ ih => exact ih (fun u hu => hts u (List.mem_cons_of_mem _ hu)) h
  | case3 => cases h
  | case4 => cases h
  | case5 t r _ s r' _ hs ss' hss' ih =>
    cases h
    obtain ⟨xs, hxs, hd⟩ := (statement_reads c (t :: r) (derived_level _)).of_ok hs
    rw [hxs, List.forall_mem_append] at hts
    exact ⟨hd.named hts.1, ih hts.2 hss'⟩

/-- The names in a parsed program are identifiers. -/
theorem Stmt.named_of_parseProgram {src : Text} {ss : List Stmt}
    (h : Stmt.parseProgram src = .ok ss) : everyStmt named ss := by
  unfold Stmt.parseProgram at h
  split at h
  · cases h
  · rename_i hsrc
    exact Parser.named_of_program (Token.genuine_scan hsrc) h

namespace Expr

/-- The names in a parsed expression are identifiers. -/
theorem named_of_parseAt {base : Nat} {src : Text} {e : Expr}
    (h : Expr.parseAt base src = .ok e) : e.Every named false := by
  obtain ⟨ts, eof, τ, hsrc, hderives⟩ := exists_derives_of_parseAt h
  exact hderives.named (Token.genuine_scan hsrc)

theorem everyExpr_append {R : Rule} {element : Bool} {es fs : List Expr}
    (he : everyExpr R element es) (hf : everyExpr R element fs) : everyExpr R element (es ++ fs) := by
  induction es with
  | nil => exact hf
  | cons e r ih => exact ⟨he.1, ih he.2⟩

/-- What a handler adds to an expression is the name of the event. -/
theorem named_handler {e : Expr} (h : e.Every named false) : e.handler.Every named false := by
  have hname : isIdentifier eventName = true := by decide +kernel
  have hevent : ∀ p, (Expr.ident p eventName).Every named true := fun _ => hname
  unfold handler
  split
  · exact ⟨trivial, h, hevent _, trivial⟩
  · exact ⟨trivial, h, hevent _, trivial⟩
  · split
    · exact h
    · split
      · exact h
      · exact ⟨trivial, h.2.1, everyExpr_append h.2.2 ⟨hevent _, trivial⟩⟩
  · exact h

end Expr

/-! ### Names that are used -/

theorem Names.plain_of_isIdentifier (n : Text) (h : isIdentifier n = true) : Plain n :=
  (isIdentifier_iff.1 h).2

section

variable {R : Rule}

mutual

/-- The names that an expression uses, wherever its functions stand, satisfy the condition on
names. -/
theorem Expr.Every.uses_hoisted : ∀ (e : Expr) {element : Bool} {G : Text → Prop},
    (∀ n, R.name n → G n) → e.Every R element → e.hoisted.Uses True G
  | .literal .., _, _, _, _ => trivial
  | .ident _ n, _, _, hG, h => hG n h
  | .template _ _ es, _, _, hG, h | .array _ es, _, _, hG, h => usesAll_hoisted es hG h.2
  | .object _ ps, _, _, hG, h => usesProperties_hoisted ps hG h.2
  | .spread _ a, _, _, hG, h => Expr.Every.uses_hoisted a hG h.2
  | .member _ o _ _, _, _, hG, h => Expr.Every.uses_hoisted o hG h.2
  | .index _ o k _, _, _, hG, h =>
    ⟨Expr.Every.uses_hoisted o hG h.2.1, Expr.Every.uses_hoisted k hG h.2.2⟩
  | .call _ f args _, _, _, hG, h =>
    ⟨Expr.Every.uses_hoisted f hG h.2.1, usesAll_hoisted args hG h.2.2⟩
  | .unary _ _ e, _, _, hG, h => Expr.Every.uses_hoisted e hG h.2
  | .binary _ _ l r, _, _, hG, h =>
    ⟨Expr.Every.uses_hoisted l hG h.2.1, Expr.Every.uses_hoisted r hG h.2.2⟩
  | .conditional _ t y n, _, _, hG, h =>
    ⟨Expr.Every.uses_hoisted t hG h.2.1, Expr.Every.uses_hoisted y hG h.2.2.1,
      Expr.Every.uses_hoisted n hG h.2.2.2⟩
  | .arrow _ _ b, _, _, hG, h => Body.Every.uses_hoisted b (fun n hn => Or.inr (hG n hn)) h.2.2
  | .assign _ _ t v, _, _, hG, h =>
    ⟨Expr.Every.uses_hoisted t hG h.2.1, Expr.Every.uses_hoisted v hG h.2.2⟩
  | .step _ _ _ t, _, _, hG, h => Expr.Every.uses_hoisted t hG h.2

theorem usesAll_hoisted : ∀ (es : List Expr) {element : Bool} {G : Text → Prop},
    (∀ n, R.name n → G n) → everyExpr R element es → usesAll True G (hoistedExprs es)
  | [], _, _, _, _ => trivial
  | e :: r, _, _, hG, h => ⟨Expr.Every.uses_hoisted e hG h.1, usesAll_hoisted r hG h.2⟩

theorem usesProperties_hoisted : ∀ (ps : List Property) {G : Text → Prop},
    (∀ n, R.name n → G n) → everyProperty R ps → usesProperties True G (hoistedProperties ps)
  | [], _, _, _ => trivial
  | p :: r, _, hG, h => ⟨Property.Every.uses_hoisted p hG h.1, usesProperties_hoisted r hG h.2⟩

theorem Property.Every.uses_hoisted : ∀ (p : Property) {G : Text → Prop},
    (∀ n, R.name n → G n) → p.Every R → p.hoisted.Uses True G
  | .mk _ v _, _, hG, h => Expr.Every.uses_hoisted v hG h.2

theorem Body.Every.uses_hoisted : ∀ (b : Body) {G : Text → Prop}, (∀ n, R.name n → G n) →
    b.Every R → b.hoisted.Uses True G
  | .expr e, _, hG, h => Expr.Every.uses_hoisted e hG h
  | .block ss, _, hG, h => usesStmts_of_forall fun s hs =>
      usesStmts_hoisted ss hG h s (mem_functionsFirst.1 hs)

theorem usesStmts_hoisted : ∀ (ss : List Stmt) {G : Text → Prop}, (∀ n, R.name n → G n) →
    everyStmt R ss → ∀ s ∈ hoistedStmts ss, s.Uses True G
  | [], _, _, _ => fun _ hs => absurd hs List.not_mem_nil
  | s :: r, _, hG, h =>
    List.forall_mem_cons.2 ⟨Stmt.Every.uses_hoisted s hG h.1, usesStmts_hoisted r hG h.2⟩

theorem Stmt.Every.uses_hoisted : ∀ (s : Stmt) {G : Text → Prop}, (∀ n, R.name n → G n) →
    s.Every R → s.hoisted.Uses True G
  | .expr _ e, _, hG, h => Expr.Every.uses_hoisted e hG h
  | .decl _ _ _ none _, _, _, _ => trivial
  | .decl _ _ _ (some e) _, _, hG, h => Expr.Every.uses_hoisted e hG h.2.2
  | .cond _ test yes no, _, hG, h =>
    ⟨Expr.Every.uses_hoisted test hG h.1,
      usesStmts_of_forall fun s hs => usesStmts_hoisted yes hG h.2.1 s (mem_functionsFirst.1 hs),
      usesStmts_of_forall fun s hs => usesStmts_hoisted no hG h.2.2 s (mem_functionsFirst.1 hs)⟩
  | .ret _ none, _, _, _ => trivial
  | .ret _ (some e), _, hG, h => Expr.Every.uses_hoisted e hG h
  | .func _ _ _ ss _ _, _, hG, h =>
    ⟨trivial, usesStmts_of_forall fun s hs => usesStmts_hoisted ss
      (fun n hn => Or.inr (Or.inr (hG n hn))) h.2.2 s (mem_functionsFirst.1 hs)⟩
  | .labeled _ _ s, _, hG, h => Stmt.Every.uses_hoisted s hG h.2

end

end

/-! ### The scan for free names -/

namespace Names

variable {R : Rule}

/-- Each name was met once, and all of them satisfy the condition. -/
structure Tidy (R : Rule) (s : Scan) : Prop where
  nodup : s.names.Nodup
  names : ∀ n ∈ s.names, R.name n

theorem Tidy.of_names {s t : Scan} (h : Tidy R s) (ht : t.names = s.names) : Tidy R t := by
  obtain ⟨hnodup, hnames⟩ := h
  rw [← ht] at hnodup hnames
  exact ⟨hnodup, hnames⟩

theorem Tidy.see {s : Scan} (h : Tidy R s) {n : Text} (hn : R.name n) : Tidy R (s.see n) := by
  unfold Scan.see
  split
  · exact h
  · rename_i hnew
    have hmem : n ∉ s.names := by
      simp only [Bool.or_eq_true, not_or, List.contains_iff_mem] at hnew
      exact hnew.2
    refine ⟨?_, ?_⟩
    · exact (List.perm_append_singleton n s.names).nodup_iff.2 (List.nodup_cons.2 ⟨hmem, h.nodup⟩)
    · intro m hm
      rcases List.mem_append.1 hm with hm | hm
      · exact h.names m hm
      · rw [List.mem_singleton.1 hm]
        exact hn

theorem names_bind (s : Scan) (n : Text) : (s.bind n).names = s.names := by
  unfold Scan.bind
  split <;> rfl

mutual

theorem tidy_expr {s : Scan} (h : Tidy R s) : ∀ (e : Expr) {element : Bool}, e.Every R element →
    Tidy R (expr s e)
  | .literal _ _, _, _ => h
  | .ident _ _, _, he => h.see he
  | .template _ _ es, _, he => tidy_exprs h es he.2
  | .array _ es, _, he => tidy_exprs h es he.2
  | .object _ ps, _, he => tidy_properties h ps he.2
  | .spread _ a, _, he => tidy_expr h a he.2
  | .member _ o _ _, _, he => tidy_expr h o he.2
  | .index _ o k _, _, he => tidy_expr (tidy_expr h o he.2.1) k he.2.2
  | .call _ f args _, _, he => tidy_exprs (tidy_expr h f he.2.1) args he.2.2
  | .unary _ _ e, _, he => tidy_expr h e he.2
  | .binary _ _ l r, _, he => tidy_expr (tidy_expr h l he.2.1) r he.2.2
  | .conditional _ t y n, _, he =>
    tidy_expr (tidy_expr (tidy_expr h t he.2.1) y he.2.2.1) n he.2.2.2
  | .arrow _ params b, _, he =>
    have hbound : Tidy R (s.enter params) := h.of_names rfl
    (tidy_body hbound b he.2.2).of_names rfl
  | .assign _ _ t v, _, he => tidy_expr (tidy_expr h t he.2.1) v he.2.2
  | .step _ _ _ t, _, he => tidy_expr h t he.2

theorem tidy_exprs {s : Scan} (h : Tidy R s) : ∀ (es : List Expr) {element : Bool},
    everyExpr R element es → Tidy R (exprs s es)
  | [], _, _ => h
  | e :: r, _, he => tidy_exprs (tidy_expr h e he.1) r he.2

theorem tidy_properties {s : Scan} (h : Tidy R s) : ∀ ps : List Property, everyProperty R ps →
    Tidy R (properties s ps)
  | [], _ => h
  | p :: r, hp => tidy_properties (tidy_property h p hp.1) r hp.2

theorem tidy_property {s : Scan} (h : Tidy R s) : ∀ p : Property, p.Every R → Tidy R (property s p)
  | .mk _ v _, hp => tidy_expr h v hp.2

theorem tidy_body {s : Scan} (h : Tidy R s) : ∀ b : Body, b.Every R → Tidy R (body s b)
  | .expr e, hb => tidy_expr h e hb
  | .block ss, hb => tidy_stmts h ss hb

theorem tidy_stmts {s : Scan} (h : Tidy R s) : ∀ ss : List Stmt, everyStmt R ss →
    Tidy R (stmts s ss)
  | [], _ => h
  | st :: r, hs => tidy_stmts (tidy_stmt h st hs.1) r hs.2

theorem tidy_stmt {s : Scan} (h : Tidy R s) : ∀ st : Stmt, st.Every R → Tidy R (stmt s st)
  | .expr _ e, hs => tidy_expr h e hs
  | .decl _ _ _ none _, _ => h.of_names (names_bind _ _)
  | .decl _ _ _ (some e) _, hs => (tidy_expr h e hs.2.2).of_names (names_bind _ _)
  | .cond _ test yes no, hs =>
    have htest : Tidy R ((expr s test).enter []) := (tidy_expr h test hs.1).of_names rfl
    have hyes := tidy_stmts htest yes hs.2.1
    have hleft : Tidy R ((stmts ((expr s test).enter []) yes).leave.enter []) := hyes.of_names rfl
    (tidy_stmts hleft no hs.2.2).of_names rfl
  | .ret _ none, _ => h
  | .ret _ (some e), hs => tidy_expr h e hs
  | .func _ name params ss _ _, hs =>
    have hbound : Tidy R ((s.bind name).enter params) := h.of_names (names_bind _ _)
    (tidy_stmts hbound ss hs.2.2).of_names rfl
  | .labeled _ _ st, hs => tidy_stmt h st hs.2

end

end Names

namespace Expr

variable {R : Rule} {e : Expr} {element : Bool}

/-- Free names are listed once, and they are names that stand in the expression. -/
theorem tidy_freeNames (h : e.Every R element) : Names.Tidy R (Names.expr ⟨[], []⟩ e) :=
  Names.tidy_expr ⟨List.nodup_nil, fun _ h => absurd h List.not_mem_nil⟩ e h

end Expr

end Reactive
