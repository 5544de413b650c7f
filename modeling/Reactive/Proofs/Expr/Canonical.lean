/-
Trees that are read back from their canonical text.

A tree is compared without what its text does not show: the offsets of its
nodes and the sources of its functions (`Expr.bare`).  Conditions on the nodes
of a tree are collected in a `Rule`: `canonical` is what a tree needs besides
being parsed, and `printable` adds what holds of every parsed tree.

* `Expr.Canonical` — trees with a canonical text that means the same;
* `Derives.printable` — what the grammar says of the nodes of a tree;
* `Expr.Intact` — a node whose own part of the text means the same, increments and
  decrements included;
* `Expr.Every.rereadable` — a canonical tree has such nodes only.
-/
import Reactive.Proofs.Expr.Grammar
import Reactive.Proofs.Expr.Braces

namespace Reactive

/-! ### Trees without offsets -/

mutual

/-- The tree with all offsets zero and without the sources of functions. -/
def Expr.bare : Expr → Expr
  | .literal _ v => .literal 0 v
  | .ident _ n => .ident 0 n
  | .template _ quasis es => .template 0 quasis (bareExprs es)
  | .array _ es => .array 0 (bareExprs es)
  | .object _ ps => .object 0 (bareProperties ps)
  | .spread _ a => .spread 0 a.bare
  | .member _ o n opt => .member 0 o.bare n opt
  | .index _ o k opt => .index 0 o.bare k.bare opt
  | .call _ f args opt => .call 0 f.bare (bareExprs args) opt
  | .unary _ op e => .unary 0 op e.bare
  | .binary _ op l r => .binary 0 op l.bare r.bare
  | .conditional _ t y n => .conditional 0 t.bare y.bare n.bare
  | .arrow _ params b => .arrow 0 params b.bare
  | .assign _ op t v => .assign 0 op t.bare v.bare
  | .step _ op before t => .step 0 op before t.bare

/-- The same for several expressions. -/
def bareExprs : List Expr → List Expr
  | [] => []
  | e :: r => e.bare :: bareExprs r

/-- The same for the entries of an object literal. -/
def bareProperties : List Property → List Property
  | [] => []
  | p :: r => p.bare :: bareProperties r

/-- The same for an entry of an object literal. -/
def Property.bare : Property → Property
  | .mk k v shorthand => .mk k v.bare shorthand

/-- The same for the body of an arrow function. -/
def Body.bare : Body → Body
  | .expr e => .expr e.bare
  | .block ss => .block (bareStmts ss)

/-- The same for a block. -/
def bareStmts : List Stmt → List Stmt
  | [] => []
  | s :: r => s.bare :: bareStmts r

/-- The same for a statement. -/
def Stmt.bare : Stmt → Stmt
  | .expr _ e => .expr 0 e.bare
  | .decl _ kind name init exported =>
    .decl 0 kind name (match init with | none => none | some e => some e.bare) exported
  | .cond _ test yes no => .cond 0 test.bare (bareStmts yes) (bareStmts no)
  | .ret _ value => .ret 0 (match value with | none => none | some e => some e.bare)
  | .func _ name params ss _ exported => .func 0 name params (bareStmts ss) [] exported
  | .labeled _ label s => .labeled 0 label s.bare

end

attribute [simp] Expr.bare Property.bare Body.bare Stmt.bare bareExprs bareProperties bareStmts

theorem Expr.isAssignable_bare (e : Expr) : e.bare.isAssignable = e.isAssignable := by
  cases e <;> rfl

/-! ### Conditions on nodes -/

/-- Conditions on the names and the nodes of a tree.  An expression is told whether it stands as an
element of an array or an argument of a call. -/
structure Rule where
  name : Text → Prop
  expr : Bool → Expr → Prop
  property : Property → Prop
  stmt : Stmt → Prop

section

variable (R : Rule)

mutual

/-- All names and nodes of an expression satisfy the conditions. -/
def Expr.Every (element : Bool) : Expr → Prop
  | .literal p v => R.expr element (.literal p v)
  | .ident _ n => R.name n
  | .template p quasis es => R.expr element (.template p quasis es) ∧ everyExpr false es
  | .array p es => R.expr element (.array p es) ∧ everyExpr true es
  | .object p ps => R.expr element (.object p ps) ∧ everyProperty ps
  | .spread p a => R.expr element (.spread p a) ∧ a.Every false
  | .member p o n opt => R.expr element (.member p o n opt) ∧ o.Every false
  | .index p o k opt => R.expr element (.index p o k opt) ∧ o.Every false ∧ k.Every false
  | .call p f args opt => R.expr element (.call p f args opt) ∧ f.Every false ∧ everyExpr true args
  | .unary p op e => R.expr element (.unary p op e) ∧ e.Every false
  | .binary p op l r => R.expr element (.binary p op l r) ∧ l.Every false ∧ r.Every false
  | .conditional p t y n =>
    R.expr element (.conditional p t y n) ∧ t.Every false ∧ y.Every false ∧ n.Every false
  | .arrow p params b =>
    R.expr element (.arrow p params b) ∧ (∀ n ∈ params, R.name n) ∧ b.Every
  | .assign p op t v => R.expr element (.assign p op t v) ∧ t.Every false ∧ v.Every false
  | .step p op before t => R.expr element (.step p op before t) ∧ t.Every false

/-- The same for several expressions. -/
def everyExpr (element : Bool) : List Expr → Prop
  | [] => True
  | e :: r => e.Every element ∧ everyExpr element r

/-- The same for the entries of an object literal. -/
def everyProperty : List Property → Prop
  | [] => True
  | p :: r => p.Every ∧ everyProperty r

/-- The same for an entry of an object literal. -/
def Property.Every : Property → Prop
  | .mk k v shorthand => R.property (.mk k v shorthand) ∧ v.Every false

/-- The same for the body of an arrow function. -/
def Body.Every : Body → Prop
  | .expr e => e.Every false
  | .block ss => everyStmt ss

/-- The same for a block. -/
def everyStmt : List Stmt → Prop
  | [] => True
  | s :: r => s.Every ∧ everyStmt r

/-- The same for a statement. -/
def Stmt.Every : Stmt → Prop
  | .expr _ e => e.Every false
  | .decl p kind name init exported =>
    R.stmt (.decl p kind name init exported) ∧ R.name name ∧
      match init with
      | none => True
      | some e => e.Every false
  | .cond _ test yes no => test.Every false ∧ everyStmt yes ∧ everyStmt no
  | .ret _ value =>
    match value with
    | none => True
    | some e => e.Every false
  | .func _ name params ss _ _ => R.name name ∧ (∀ n ∈ params, R.name n) ∧ everyStmt ss
  | .labeled _ label s => R.name label ∧ s.Every

end

end

/-- Whether an expression stands as an element matters to its own node only. -/
theorem Expr.Every.move {R : Rule} {a b : Bool} (hR : ∀ e, R.expr a e → R.expr b e) {e : Expr}
    (h : e.Every R a) : e.Every R b := by
  cases e with
  | literal => exact hR _ h
  | ident => exact h
  | template | array | object | spread | member | index | call | unary | binary | conditional
  | arrow | assign | step => exact ⟨hR _ h.1, h.2⟩

theorem every_of_mem {R : Rule} {ss : List Stmt} (h : everyStmt R ss) : ∀ s ∈ ss, s.Every R := by
  induction ss with
  | nil => exact fun s hs => absurd hs List.not_mem_nil
  | cons s r ih => exact List.forall_mem_cons.2 ⟨h.1, ih h.2⟩

/-! ### Canonical trees -/

/-- An integer below 2^53 whose decimal digits are read as it. -/
def Num.ReadsBack (n : Num) : Prop :=
  ∃ i : Nat, i < 2 ^ 53 ∧ n = .int (Int64.ofNat i) ∧ Parser.number? (Text.ofNat i) = some n

/-- Whether the canonical text starts with an object literal. -/
def Expr.leads : Expr → Bool
  | .object .. => true
  | .member _ o _ _ | .index _ o _ _ | .call _ o _ _ => !o.isCompound && o.leads
  | .binary _ _ l _ | .conditional _ l _ _ => !l.isCompound && l.leads
  | .assign _ _ t _ => t.leads
  | _ => false

/-- The node's own part of the canonical text means the same: no increment or decrement, numbers
and strings that are read back, and no body of an arrow function that would be taken for a
block. -/
def Expr.Settled : Expr → Prop
  | .literal _ (.number n) => n.ReadsBack
  | .literal _ (.str s) => s.QuotesPlainly
  | .arrow _ _ (.expr b) => b.isObject = true ∨ b.leads = false
  | .step .. => False
  | _ => True

/-- The same for an entry of an object literal: a quoted name is read back. -/
def Property.Settled : Property → Prop
  | .mk k _ shorthand => shorthand = false → isIdentifier k = false → k.QuotesPlainly

/-- The conditions on trees whose canonical text means the same. -/
def canonical : Rule where
  name _ := True
  expr _ e := e.Settled
  property p := p.Settled
  stmt _ := True

/-- All nodes of an expression mean the same in its canonical text. -/
def Expr.Canonical (e : Expr) : Prop := e.Every canonical false

/-! ### Parsed trees -/

/-- What is known of a node that was parsed. -/
def Expr.Formed (element : Bool) : Expr → Prop
  | .template _ quasis es => quasis.length = es.length + 1
  | .spread .. => element = true
  | .member _ _ n _ => isWord n = true
  | .assign _ op t _ => t.isAssignable = true ∧ ∃ p : Punct, p.assign? = some op
  | _ => True

/-- The same for an entry of an object literal. -/
def Property.Formed : Property → Prop
  | .mk k v shorthand => shorthand = true → ∃ pos, v = .ident pos k

/-- The same for a statement. -/
def Stmt.Formed : Stmt → Prop
  | .decl _ kind _ init _ => kind = .const → init.isSome = true
  | _ => True

/-- The conditions on parsed trees whose canonical text means the same. -/
def printable : Rule where
  name n := isIdentifier n = true
  expr element e := e.Formed element ∧ e.Settled
  property p := p.Formed ∧ p.Settled
  stmt s := s.Formed

/-- What is known of an increment or decrement that was parsed. -/
def Expr.Targets : Expr → Prop
  | .step _ _ _ t => t.isAssignable = true
  | _ => True

/-- The conditions on parsed trees. -/
def formed : Rule where
  name n := isIdentifier n = true
  expr element e := e.Formed element ∧ e.Targets
  property p := p.Formed
  stmt s := s.Formed

/-! ### Rules combined -/

/-- A tree that satisfies two rules satisfies a third at each node. -/
structure Rule.Gives (R₁ R₂ R : Rule) : Prop where
  name : ∀ n, R₁.name n → R₂.name n → R.name n
  expr : ∀ element e, e.Every R₁ element → e.Every R₂ element → R.expr element e
  property : ∀ p, p.Every R₁ → p.Every R₂ → R.property p
  stmt : ∀ s, s.Every R₁ → s.Every R₂ → R.stmt s

section

variable {R₁ R₂ R : Rule}

mutual

theorem Expr.Every.gives (hR : R₁.Gives R₂ R) : ∀ (e : Expr) {element : Bool},
    e.Every R₁ element → e.Every R₂ element → e.Every R element
  | .literal .., _, h₁, h₂ => hR.expr _ _ h₁ h₂
  | .ident .., _, h₁, h₂ => hR.name _ h₁ h₂
  | .template _ _ es, _, h₁, h₂ => ⟨hR.expr _ _ h₁ h₂, everyExpr_gives hR es h₁.2 h₂.2⟩
  | .array _ es, _, h₁, h₂ => ⟨hR.expr _ _ h₁ h₂, everyExpr_gives hR es h₁.2 h₂.2⟩
  | .object _ ps, _, h₁, h₂ => ⟨hR.expr _ _ h₁ h₂, everyProperty_gives hR ps h₁.2 h₂.2⟩
  | .spread _ a, _, h₁, h₂ => ⟨hR.expr _ _ h₁ h₂, Expr.Every.gives hR a h₁.2 h₂.2⟩
  | .member _ o _ _, _, h₁, h₂ => ⟨hR.expr _ _ h₁ h₂, Expr.Every.gives hR o h₁.2 h₂.2⟩
  | .index _ o k _, _, h₁, h₂ =>
    ⟨hR.expr _ _ h₁ h₂, Expr.Every.gives hR o h₁.2.1 h₂.2.1, Expr.Every.gives hR k h₁.2.2 h₂.2.2⟩
  | .call _ f args _, _, h₁, h₂ =>
    ⟨hR.expr _ _ h₁ h₂, Expr.Every.gives hR f h₁.2.1 h₂.2.1, everyExpr_gives hR args h₁.2.2 h₂.2.2⟩
  | .unary _ _ e, _, h₁, h₂ => ⟨hR.expr _ _ h₁ h₂, Expr.Every.gives hR e h₁.2 h₂.2⟩
  | .binary _ _ l r, _, h₁, h₂ =>
    ⟨hR.expr _ _ h₁ h₂, Expr.Every.gives hR l h₁.2.1 h₂.2.1, Expr.Every.gives hR r h₁.2.2 h₂.2.2⟩
  | .conditional _ t y n, _, h₁, h₂ =>
    ⟨hR.expr _ _ h₁ h₂, Expr.Every.gives hR t h₁.2.1 h₂.2.1, Expr.Every.gives hR y h₁.2.2.1 h₂.2.2.1,
      Expr.Every.gives hR n h₁.2.2.2 h₂.2.2.2⟩
  | .arrow _ _ b, _, h₁, h₂ =>
    ⟨hR.expr _ _ h₁ h₂, fun n hn => hR.name n (h₁.2.1 n hn) (h₂.2.1 n hn),
      Body.Every.gives hR b h₁.2.2 h₂.2.2⟩
  | .assign _ _ t v, _, h₁, h₂ =>
    ⟨hR.expr _ _ h₁ h₂, Expr.Every.gives hR t h₁.2.1 h₂.2.1, Expr.Every.gives hR v h₁.2.2 h₂.2.2⟩
  | .step _ _ _ t, _, h₁, h₂ => ⟨hR.expr _ _ h₁ h₂, Expr.Every.gives hR t h₁.2 h₂.2⟩

theorem everyExpr_gives (hR : R₁.Gives R₂ R) : ∀ (es : List Expr) {element : Bool},
    everyExpr R₁ element es → everyExpr R₂ element es → everyExpr R element es
  | [], _, _, _ => trivial
  | e :: r, _, h₁, h₂ => ⟨Expr.Every.gives hR e h₁.1 h₂.1, everyExpr_gives hR r h₁.2 h₂.2⟩

theorem everyProperty_gives (hR : R₁.Gives R₂ R) : ∀ (ps : List Property),
    everyProperty R₁ ps → everyProperty R₂ ps → everyProperty R ps
  | [], _, _ => trivial
  | p :: r, h₁, h₂ => ⟨Property.Every.gives hR p h₁.1 h₂.1, everyProperty_gives hR r h₁.2 h₂.2⟩

theorem Property.Every.gives (hR : R₁.Gives R₂ R) : ∀ (p : Property),
    p.Every R₁ → p.Every R₂ → p.Every R
  | .mk _ v _, h₁, h₂ => ⟨hR.property _ h₁ h₂, Expr.Every.gives hR v h₁.2 h₂.2⟩

theorem Body.Every.gives (hR : R₁.Gives R₂ R) : ∀ (b : Body), b.Every R₁ → b.Every R₂ → b.Every R
  | .expr e, h₁, h₂ => Expr.Every.gives hR e h₁ h₂
  | .block ss, h₁, h₂ => everyStmt_gives hR ss h₁ h₂

theorem everyStmt_gives (hR : R₁.Gives R₂ R) : ∀ (ss : List Stmt), everyStmt R₁ ss →
    everyStmt R₂ ss → everyStmt R ss
  | [], _, _ => trivial
  | s :: r, h₁, h₂ => ⟨Stmt.Every.gives hR s h₁.1 h₂.1, everyStmt_gives hR r h₁.2 h₂.2⟩

theorem Stmt.Every.gives (hR : R₁.Gives R₂ R) : ∀ (s : Stmt), s.Every R₁ → s.Every R₂ → s.Every R
  | .expr _ e, h₁, h₂ => Expr.Every.gives hR e h₁ h₂
  | .decl _ _ _ none _, h₁, h₂ => ⟨hR.stmt _ h₁ h₂, hR.name _ h₁.2.1 h₂.2.1, trivial⟩
  | .decl _ _ _ (some e) _, h₁, h₂ =>
    ⟨hR.stmt _ h₁ h₂, hR.name _ h₁.2.1 h₂.2.1, Expr.Every.gives hR e h₁.2.2 h₂.2.2⟩
  | .cond _ test yes no, h₁, h₂ =>
    ⟨Expr.Every.gives hR test h₁.1 h₂.1, everyStmt_gives hR yes h₁.2.1 h₂.2.1,
      everyStmt_gives hR no h₁.2.2 h₂.2.2⟩
  | .ret _ none, _, _ => trivial
  | .ret _ (some e), h₁, h₂ => Expr.Every.gives hR e h₁ h₂
  | .func _ _ _ ss _ _, h₁, h₂ =>
    ⟨hR.name _ h₁.1 h₂.1, fun n hn => hR.name n (h₁.2.1 n hn) (h₂.2.1 n hn),
      everyStmt_gives hR ss h₁.2.2 h₂.2.2⟩
  | .labeled _ _ s, h₁, h₂ => ⟨hR.name _ h₁.1 h₂.1, Stmt.Every.gives hR s h₁.2 h₂.2⟩

end

end

theorem Expr.Every.isFormed {e : Expr} {element : Bool} (h : e.Every formed element) :
    e.Formed element ∧ e.Targets := by
  cases e <;> first | exact h.1 | exact h | exact ⟨trivial, trivial⟩

theorem Stmt.Every.isFormed {s : Stmt} (h : s.Every formed) : s.Formed := by
  cases s with
  | decl _ _ _ init _ => cases init <;> exact h.1
  | expr | cond | ret | func | labeled => trivial

theorem Expr.Every.isSettled {e : Expr} {element : Bool} (h : e.Every canonical element) :
    e.Settled := by
  cases e <;> first | exact h.1 | exact h

/-- A canonical tree that was parsed can be printed. -/
theorem formed_canonical : formed.Gives canonical printable where
  name _ h _ := h
  expr _ _ h₁ h₂ := ⟨h₁.isFormed.1, h₂.isSettled⟩
  property
    | .mk .., h₁, h₂ => ⟨h₁.1, h₂.1⟩
  stmt _ h _ := h.isFormed

/-! ### Tokens of a source -/

/-- What is known of a token of a source: identifiers are no keywords, and template literals have
a fixed part more than expressions. -/
def Lexeme.Genuine : Lexeme → Prop
  | .ident n => isIdentifier n = true
  | .template _ quasis parts => quasis.length = parts.length + 1
  | _ => True

namespace Lexer

open Text

/-- The longest word at the front of a text. -/
theorem isWord_take {b : UInt8} {r : Text} (h : isIdentStart (decode b r).1 = true) :
    isWord ((b :: r).take (identLength (b :: r))) = true := by
  have hsplit := List.takeWhile_append_dropWhile (p := fun p => isIdentPart p.1)
    (l := pieces (b :: r))
  have hparts := List.all_eq_true.1 (List.all_takeWhile (p := fun p => isIdentPart p.1)
    (l := pieces (b :: r)))
  have hlen : identLength (b :: r) =
      (((pieces (b :: r)).takeWhile fun p => isIdentPart p.1).flatMap Prod.snd).length := by
    rw [identLength, foldl_length, Nat.zero_add]
  have hfirst : ((decode b r).1, b :: r.take (decode b r).2) ∈
      ((pieces (b :: r)).takeWhile fun p => isIdentPart p.1).head? := by
    rw [pieces, List.takeWhile_cons, if_pos (isIdentPart_of_start h)]
    rfl
  generalize (pieces (b :: r)).takeWhile (fun p => isIdentPart p.1) = l at *
  have hword : (b :: r).take (identLength (b :: r)) = l.flatMap Prod.snd := by
    have htext := flatten_pieces (b :: r)
    rw [← hsplit, List.flatMap_append] at htext
    rw [hlen]
    exact (congrArg (List.take _) htext.symm).trans List.take_left
  have hcodes : codePoints (l.flatMap Prod.snd) = l.map Prod.fst := by
    rw [codePoints, pieces_flatMap hsplit.symm fun p hp => isIdentPart_ne_replacement (hparts p hp)]
  rw [hword, isWord, hcodes]
  cases l with
  | nil => cases hfirst
  | cons p l =>
    cases hfirst
    simp only [List.map_cons, h, Bool.true_and, List.all_map, List.all_eq_true]
    exact fun q hq => hparts q (List.mem_cons_of_mem _ hq)

/-- A template literal has a fixed part more than expressions. -/
theorem length_quasis {stop start n : Nat} {acc s : Text} {t : TemplateRead} (hn : s.length = n)
    (h : Cuts stop start acc s t) : t.quasis.length = t.parts.length + 1 := by
  induction n using Nat.strongRecOn generalizing acc s t with
  | _ n ih =>
    obtain ⟨hlt, h⟩ := h
    unfold templateBody at h
    split at h
    · cases h
    · cases h
      rfl
    · split at h
      · cases h
      · rename_i he
        split at h
        · cases h
        · rename_i ht
          cases h
          have hless := length_escape he
          exact ih _ (by simp only [List.length_cons] at hn hless ⊢; omega) rfl ⟨_, ht⟩
    · split at h
      · cases h
      · rename_i r hclose
        split at h
        · cases h
        · rename_i ht
          cases h
          have hone := ih _ (by simp only [List.length_cons] at hn; omega) rfl ⟨_, ht⟩
          simp [hone]
    · split at h
      · cases h
      · rename_i ht
        cases h
        exact ih _ (by simp only [List.length_cons] at hn; omega) rfl ⟨_, ht⟩

theorem lexeme_genuine {stop : Nat} {b : UInt8} {r : Text} {x : Read (b :: r)}
    (h : lexeme stop b r = .ok x) : x.1.1.Genuine := by
  unfold lexeme at h
  simp only at h
  split at h
  · split at h <;> cases h
    trivial
  split at h
  · split at h
    · cases h
    · rename_i ht
      cases h
      exact length_quasis rfl ⟨_, ht⟩
  split at h
  · cases h
    trivial
  split at h
  · rename_i hstart
    split at h <;> cases h
    · trivial
    · rename_i hk
      exact isIdentifier_iff.2 ⟨isWord_take hstart, hk⟩
  · split at h <;> cases h
    trivial

end Lexer

/-- All tokens of a source are genuine. -/
theorem Token.genuine_scan {stop : Nat} {s : Text} {r : List Token × Token}
    (h : scan stop s = .ok r) : ∀ t ∈ r.1, t.lexeme.Genuine := by
  fun_induction scan stop s generalizing r with
  | case1 => simp at h
  | case2 => cases h; simp
  | case3 => simp at h
  | case4 => simp at h
  | case5 s newline b r' hb l rest hl hlex ts eof hts ih =>
    cases h
    intro t ht
    rcases List.mem_cons.1 ht with rfl | ht
    · exact Lexer.lexeme_genuine hlex
    · exact ih hts t ht

/-! ### Derived trees -/

namespace Grammar

/-- All names and nodes of what a nonterminal spells satisfy the conditions. -/
def Sym.Every (R : Rule) : (s : Sym) → s.Out → Prop
  | .parts _, es => everyExpr R false es
  | .elements _, es => everyExpr R true es
  | .primary, e | .operand _, e | .unary _, e | .binary _ _, e | .conditional _, e | .expr _, e =>
    Expr.Every R false e
  | .element, e => Expr.Every R true e
  | .property, p => Property.Every R p
  | .properties, ps => everyProperty R ps
  | .names, ns => ∀ n ∈ ns, R.name n
  | .arrowBody _, b => Body.Every R b
  | .block, b => everyStmt R b.1
  | .stmts _, ss | .body _, ss => everyStmt R ss
  | .stmt _, s => Stmt.Every R s

theorem Sym.Every.gives {R₁ R₂ R : Rule} (hR : R₁.Gives R₂ R) :
    ∀ (s : Sym) (a : s.Out), s.Every R₁ a → s.Every R₂ a → s.Every R a
  | .parts _, es, h₁, h₂ | .elements _, es, h₁, h₂ => everyExpr_gives hR es h₁ h₂
  | .primary, e, h₁, h₂ | .operand _, e, h₁, h₂ | .unary _, e, h₁, h₂ | .binary _ _, e, h₁, h₂
  | .conditional _, e, h₁, h₂ | .expr _, e, h₁, h₂ | .element, e, h₁, h₂ =>
    Expr.Every.gives hR e h₁ h₂
  | .property, p, h₁, h₂ => Property.Every.gives hR p h₁ h₂
  | .properties, ps, h₁, h₂ => everyProperty_gives hR ps h₁ h₂
  | .names, _, h₁, h₂ => fun n hn => hR.name n (h₁ n hn) (h₂ n hn)
  | .arrowBody _, b, h₁, h₂ => Body.Every.gives hR b h₁ h₂
  | .block, b, h₁, h₂ => everyStmt_gives hR b.1 h₁ h₂
  | .stmts _, ss, h₁, h₂ | .body _, ss, h₁, h₂ => everyStmt_gives hR ss h₁ h₂
  | .stmt _, s, h₁, h₂ => Stmt.Every.gives hR s h₁ h₂

theorem Derives.length_parts {c : Parser.Source} {ps : List Interpolation} {xs : List Token}
    {es : List Expr} (h : Derives c (.parts ps) xs es) : es.length = ps.length := by
  induction ps generalizing xs es with
  | nil =>
    cases h
    rfl
  | cons p ps ih =>
    cases h with
    | parts _ _ hrest => exact congrArg (· + 1) (ih hrest)

theorem isWord_of_memberName? {l : Lexeme} {n : Text} (hl : l.Genuine)
    (h : memberName? l = some n) : isWord n = true := by
  unfold memberName? at h
  split at h
  · cases h
    exact (isIdentifier_iff.1 hl).1
  · rename_i k
    cases h
    cases k <;> decide +kernel
  · cases h

theorem exists_assign? {l : Lexeme} {op : AssignOp} (h : Parser.assignOp? l = some op) :
    ∃ p : Punct, p.assign? = some op := by
  unfold Parser.assignOp? at h
  split at h
  · exact ⟨_, h⟩
  · cases h

/-- A derived tree is formed as its grammar says. -/
theorem Derives.formed {c : Parser.Source} {s : Sym} {xs : List Token} {a : s.Out}
    (h : Derives c s xs a) (hts : ∀ t ∈ xs, t.lexeme.Genuine) : s.Every formed a := by
  induction h with
  | noParts => trivial
  | parts hsrc _ _ ihe ihes => exact ⟨ihe (Token.genuine_scan hsrc), ihes hts⟩
  | number | str | constant => exact ⟨trivial, trivial⟩
  | template ht hes ih =>
    have hlen := hts _ List.mem_cons_self
    rw [ht] at hlen
    have hcount := hes.length_parts
    exact ⟨⟨hlen.trans (congrArg (· + 1) hcount.symm), trivial⟩, ih (fun _ h => by cases h)⟩
  | ident ht =>
    have hname := hts _ List.mem_cons_self
    rw [ht] at hname
    exact hname
  | paren _ _ _ ih =>
    simp only [List.forall_mem_cons, List.forall_mem_append] at hts
    exact ih hts.2.1
  | array _ _ ih | object _ _ ih =>
    rw [List.forall_mem_cons] at hts
    exact ⟨⟨trivial, trivial⟩, ih hts.2⟩
  | plain _ ih | unmarked _ ih | tight _ ih | looser _ _ _ ih | certain _ ih | value _ ih
  | braced _ ih => exact ih hts
  | single _ _ ih => exact ⟨ih hts, trivial⟩
  | member _ _ _ ht ih =>
    simp only [List.forall_mem_cons, List.forall_mem_append] at hts
    exact ⟨⟨isWord_of_memberName? hts.2.2.1 ht, trivial⟩, ih hts.1⟩
  | index _ _ _ _ ih ihk =>
    simp only [List.forall_mem_cons, List.forall_mem_append] at hts
    exact ⟨⟨trivial, trivial⟩, ih hts.1, ihk hts.2.2.1⟩
  | optionalIndex _ _ _ _ _ ih ihk =>
    simp only [List.forall_mem_cons, List.forall_mem_append] at hts
    exact ⟨⟨trivial, trivial⟩, ih hts.1, ihk hts.2.2.2.1⟩
  | call _ _ _ ih ihs =>
    simp only [List.forall_mem_cons, List.forall_mem_append] at hts
    exact ⟨⟨trivial, trivial⟩, ih hts.1, ihs hts.2.2⟩
  | optionalCall _ _ _ _ ih ihs =>
    simp only [List.forall_mem_cons, List.forall_mem_append] at hts
    exact ⟨⟨trivial, trivial⟩, ih hts.1, ihs hts.2.2.2⟩
  | stepAfter _ htarget _ _ ih =>
    rw [List.forall_mem_append] at hts
    exact ⟨⟨trivial, htarget⟩, ih hts.1⟩
  | stepBefore _ _ htarget ih =>
    rw [List.forall_mem_cons] at hts
    exact ⟨⟨trivial, htarget⟩, ih hts.2⟩
  | unary _ _ ih =>
    rw [List.forall_mem_cons] at hts
    exact ⟨⟨trivial, trivial⟩, ih hts.2⟩
  | binary _ _ _ _ _ ihl ihr | power _ _ _ ihl ihr =>
    simp only [List.forall_mem_cons, List.forall_mem_append] at hts
    exact ⟨⟨trivial, trivial⟩, ihl hts.1, ihr hts.2.2⟩
  | conditional _ _ _ _ _ iht ihy ihn =>
    simp only [List.forall_mem_cons, List.forall_mem_append] at hts
    exact ⟨⟨trivial, trivial⟩, iht hts.1, ihy hts.2.2.1, ihn hts.2.2.2.2⟩
  | assign _ hassign hop _ iht ihv =>
    simp only [List.forall_mem_cons, List.forall_mem_append] at hts
    exact ⟨⟨⟨hassign, exists_assign? hop⟩, trivial⟩, iht hts.1, ihv hts.2.2⟩
  | arrowOne ht _ _ ih =>
    simp only [List.forall_mem_cons] at hts
    have hname := hts.1
    rw [ht] at hname
    refine ⟨⟨trivial, trivial⟩, ?_, ih hts.2.2⟩
    intro n hn
    rwa [List.mem_singleton.1 hn]
  | arrow _ _ _ _ ihns ih =>
    simp only [List.forall_mem_cons, List.forall_mem_append] at hts
    exact ⟨⟨trivial, trivial⟩, ihns hts.2.1, ih hts.2.2.2⟩
  | arrowValue _ _ ih => exact ih hts
  | arrowBlock _ ih => exact ih hts
  | element _ ih =>
    refine Expr.Every.move ?_ (ih hts)
    rintro e ⟨hformed, htargets⟩
    refine ⟨?_, htargets⟩
    cases e <;> first | exact hformed | rfl
  | spread _ _ ih =>
    rw [List.forall_mem_cons] at hts
    exact ⟨⟨rfl, trivial⟩, ih hts.2⟩
  | noElements | noProperties | noStmts => trivial
  | lastElement _ _ ih | lastProperty _ _ ih =>
    rw [List.forall_mem_append] at hts
    exact ⟨ih hts.1, trivial⟩
  | elements _ _ _ ih ihs | properties _ _ _ ih ihs =>
    simp only [List.forall_mem_cons, List.forall_mem_append] at hts
    exact ⟨ih hts.1, ihs hts.2.2⟩
  | property _ _ _ ih =>
    simp only [List.forall_mem_cons] at hts
    exact ⟨fun h => (by cases h), ih hts.2.2⟩
  | shorthand ht =>
    have hname := hts _ List.mem_cons_self
    rw [ht] at hname
    exact ⟨fun _ => ⟨_, rfl⟩, hname⟩
  | noNames => exact fun _ h => by cases h
  | lastName ht _ =>
    have hname := hts _ List.mem_cons_self
    rw [ht] at hname
    intro n hn
    rwa [List.mem_singleton.1 hn]
  | names ht _ _ ih =>
    simp only [List.forall_mem_cons] at hts
    have hname := hts.1
    rw [ht] at hname
    intro n hn
    rcases List.mem_cons.1 hn with rfl | hn
    · exact hname
    · exact ih hts.2.2 n hn
  | block _ _ _ ih =>
    simp only [List.forall_mem_cons, List.forall_mem_append] at hts
    exact ih hts.2.1
  | skip _ _ ih =>
    rw [List.forall_mem_cons] at hts
    exact ih hts.2
  | stmts _ _ ih ihs =>
    rw [List.forall_mem_append] at hts
    exact ⟨ih hts.1, ihs hts.2⟩
  | exprStmt _ _ ih =>
    rw [← List.cons_append, List.forall_mem_append] at hts
    exact ih hts.1
  | decl _ _ ht _ _ _ ih =>
    simp only [List.forall_mem_cons, List.forall_mem_append] at hts
    have hname := hts.2.2.1
    rw [ht] at hname
    exact ⟨fun _ => rfl, hname, ih hts.2.2.2.2.1⟩
  | declBare _ _ ht hkind _ =>
    simp only [List.forall_mem_cons, List.forall_mem_append] at hts
    have hname := hts.2.2.1
    rw [ht] at hname
    exact ⟨fun h => absurd h hkind, hname, trivial⟩
  | func _ _ ht _ _ _ ihns ih =>
    simp only [List.forall_mem_cons, List.forall_mem_append] at hts
    have hname := hts.2.2.1
    rw [ht] at hname
    exact ⟨hname, ihns hts.2.2.2.2.1, ih hts.2.2.2.2.2⟩
  | cond _ _ _ _ _ _ ih ihy =>
    simp only [List.forall_mem_cons, List.forall_mem_append] at hts
    exact ⟨ih hts.2.2.1, ihy hts.2.2.2.2, trivial⟩
  | condElse _ _ _ _ _ _ _ ih ihy ihn =>
    simp only [List.forall_mem_cons, List.forall_mem_append] at hts
    exact ⟨ih hts.2.2.1, ihy hts.2.2.2.2.1, ihn hts.2.2.2.2.2.2⟩
  | ret => trivial
  | retValue _ _ _ _ ih =>
    rw [List.forall_mem_cons, ← List.cons_append, List.forall_mem_append] at hts
    exact ih hts.2.1
  | labeled ht _ _ ih =>
    simp only [List.forall_mem_cons] at hts
    have hname := hts.1
    rw [ht] at hname
    exact ⟨hname, ih hts.2.2⟩

/-- A derived tree that is canonical can be printed. -/
theorem Derives.printable {c : Parser.Source} {s : Sym} {xs : List Token} {a : s.Out}
    (h : Derives c s xs a) (hts : ∀ t ∈ xs, t.lexeme.Genuine) (ha : s.Every canonical a) :
    s.Every printable a :=
  Sym.Every.gives formed_canonical s a (h.formed hts) ha

end Grammar

/-! ### Increments and decrements

An increment is printed as an operand, without parentheses, though it is none: nothing can be linked
to it, and a sign before it grows together with its own mark.  So besides the conditions on literals,
a tree must keep increments out of these places, and no arrow function may have a body whose text
starts with an object literal that is only a part of it. -/

/-- Whether the canonical text starts with an object literal, increments and decrements
included. -/
def Expr.opensBrace : Expr → Bool
  | .object .. => true
  | .member _ o _ _ | .index _ o _ _ | .call _ o _ _ => !o.isCompound && o.opensBrace
  | .binary _ _ l _ | .conditional _ l _ _ => !l.isCompound && l.opensBrace
  | .assign _ _ t _ => t.opensBrace
  | .step _ _ before t => !before && t.opensBrace
  | _ => false

/-- Whether an expression is an increment or decrement. -/
def Expr.isStep : Expr → Bool
  | .step .. => true
  | _ => false

/-- Whether a sign and the operand printed after it make another mark. -/
def UnaryOp.gluesTo : UnaryOp → Expr → Bool
  | .neg, .step _ .decrement true _ | .plus, .step _ .increment true _ => true
  | _, _ => false

/-- The node's own part of the canonical text means the same: numbers and strings that are read
back, no increment or decrement that a link follows or that a sign runs into, and no body of an
arrow function that would be taken for a block. -/
def Expr.Intact : Expr → Prop
  | .literal _ (.number n) => n.ReadsBack
  | .literal _ (.str s) => s.reread = s
  | .member _ o _ _ | .index _ o _ _ | .call _ o _ _ => o.isStep = false
  | .unary _ op e => op.gluesTo e = false
  | .arrow _ _ (.expr b) => b.isObject = true ∨ b.opensBrace = false
  | _ => True

/-- The same for an entry of an object literal: a quoted name is read back. -/
def Property.Intact : Property → Prop
  | .mk k _ shorthand => shorthand = false → isIdentifier k = false → k.reread = k

/-- The conditions on trees whose canonical text means the same. -/
def intact : Rule where
  name _ := True
  expr _ e := e.Intact
  property p := p.Intact
  stmt _ := True

/-- The conditions on parsed trees whose canonical text means the same. -/
def rereadable : Rule where
  name n := isIdentifier n = true
  expr element e := (e.Formed element ∧ e.Targets) ∧ e.Intact
  property p := p.Formed ∧ p.Intact
  stmt s := s.Formed

theorem Expr.Every.isIntact {e : Expr} {element : Bool} (h : e.Every intact element) :
    e.Intact := by
  cases e <;> first | exact h.1 | exact h

theorem formed_intact : formed.Gives intact rereadable where
  name _ h _ := h
  expr _ _ h₁ h₂ := ⟨h₁.isFormed, h₂.isIntact⟩
  property
    | .mk .., h₁, h₂ => ⟨h₁.1, h₂.1⟩
  stmt _ h _ := h.isFormed

/-- A derived tree whose nodes are intact can be read again. -/
theorem Grammar.Derives.rereadable {c : Parser.Source} {s : Grammar.Sym} {xs : List Token}
    {a : s.Out} (h : Grammar.Derives c s xs a) (hts : ∀ t ∈ xs, t.lexeme.Genuine)
    (ha : s.Every intact a) : s.Every rereadable a :=
  Grammar.Sym.Every.gives formed_intact s a (h.formed hts) ha

/-! ### Trees without increments and decrements -/

theorem isStep_of_printable {e : Expr} {element : Bool} (h : e.Every printable element) :
    e.isStep = false := by
  cases e <;> first | rfl | exact h.1.2.elim

theorem opensBrace_of_printable : ∀ (e : Expr) {element : Bool}, e.Every printable element →
    e.opensBrace = e.leads
  | .member _ o _ _, _, h => congrArg (!o.isCompound && ·) (opensBrace_of_printable o h.2)
  | .index _ o _ _, _, h => congrArg (!o.isCompound && ·) (opensBrace_of_printable o h.2.1)
  | .call _ f _ _, _, h => congrArg (!f.isCompound && ·) (opensBrace_of_printable f h.2.1)
  | .binary _ _ l _, _, h => congrArg (!l.isCompound && ·) (opensBrace_of_printable l h.2.1)
  | .conditional _ t _ _, _, h => congrArg (!t.isCompound && ·) (opensBrace_of_printable t h.2.1)
  | .assign _ _ t _, _, h => opensBrace_of_printable t h.2.1
  | .step .., _, h => h.1.2.elim
  | .literal .., _, _ | .ident .., _, _ | .template .., _, _ | .array .., _, _ | .object .., _, _
  | .spread .., _, _ | .unary .., _, _ | .arrow .., _, _ => rfl

theorem intact_of_printable : ∀ (e : Expr) {element : Bool}, e.Every printable element → e.Intact
  | .literal _ (.number _), _, h => h.2
  | .literal _ (.str _), _, h => Text.QuotesPlainly.reread_eq h.2
  | .member .., _, h => isStep_of_printable h.2
  | .index .., _, h => isStep_of_printable h.2.1
  | .call .., _, h => isStep_of_printable h.2.1
  | .unary _ op e, _, h => by
    have hstep := isStep_of_printable h.2
    cases e <;> first | (cases op <;> rfl) | cases hstep
  | .arrow _ _ (.expr b), _, h => h.1.2.imp_right (opensBrace_of_printable b h.2.2).trans
  | .literal _ .null, _, _ | .literal _ .undefined, _, _ | .literal _ (.bool _), _, _
  | .ident .., _, _ | .template .., _, _ | .array .., _, _ | .object .., _, _ | .spread .., _, _
  | .binary .., _, _ | .conditional .., _, _ | .arrow _ _ (.block _), _, _ | .assign .., _, _
  | .step .., _, _ => trivial

theorem printable_rereadable : printable.Gives printable rereadable where
  name _ h _ := h
  expr _ e h _ := by
    refine ⟨⟨?_, ?_⟩, intact_of_printable e h⟩
    · cases e <;> first | exact h.1.1 | exact h.1 | trivial
    · cases e <;> first | trivial | exact h.1.2.elim
  property
    | .mk .., h, _ => ⟨h.1.1, fun hs hk => (h.1.2 hs hk).reread_eq⟩
  stmt s h _ := by
    cases s with
    | decl _ _ _ init _ => cases init <;> exact h.1
    | expr | cond | ret | func | labeled => trivial

/-- A canonical tree has no increments and decrements, so its nodes are intact. -/
theorem Expr.Every.rereadable {e : Expr} {element : Bool} (h : e.Every printable element) :
    e.Every rereadable element :=
  Expr.Every.gives printable_rereadable e h h

end Reactive
