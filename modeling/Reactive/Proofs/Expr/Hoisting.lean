/-
Function declarations before everything else.

A block binds its functions before its first statement runs, wherever they
are declared, so a function can be called before a name that is declared above
it is bound.  `Expr.hoisted` has the function declarations of every block at
the front of it: this is the order in which names are bound.

* `Stmt.hoistedOf` — a block with its functions first;
* `usesStmts.append` — what is bound by the first statements of a block;
* `Expr.Uses.hoisted` — without functions the order stays.
-/
import Reactive.Proofs.Expr.Uses

namespace Reactive

/-- Whether a statement declares a function.  One behind a label is bound when its turn comes. -/
def Stmt.isFunction : Stmt → Bool
  | .func .. => true
  | _ => false

/-- Function declarations before the other statements. -/
def functionsFirst (ss : List Stmt) : List Stmt :=
  ss.filter Stmt.isFunction ++ ss.filter fun s => !s.isFunction

mutual

/-- An expression with functions first in every block. -/
def Expr.hoisted : Expr → Expr
  | .literal p v => .literal p v
  | .ident p n => .ident p n
  | .template p quasis es => .template p quasis (hoistedExprs es)
  | .array p es => .array p (hoistedExprs es)
  | .object p ps => .object p (hoistedProperties ps)
  | .spread p a => .spread p a.hoisted
  | .member p o n opt => .member p o.hoisted n opt
  | .index p o k opt => .index p o.hoisted k.hoisted opt
  | .call p f args opt => .call p f.hoisted (hoistedExprs args) opt
  | .unary p op e => .unary p op e.hoisted
  | .binary p op l r => .binary p op l.hoisted r.hoisted
  | .conditional p t y n => .conditional p t.hoisted y.hoisted n.hoisted
  | .arrow p params b => .arrow p params b.hoisted
  | .assign p op t v => .assign p op t.hoisted v.hoisted
  | .step p op before t => .step p op before t.hoisted

/-- The same for several expressions. -/
def hoistedExprs : List Expr → List Expr
  | [] => []
  | e :: r => e.hoisted :: hoistedExprs r

/-- The same for the entries of an object literal. -/
def hoistedProperties : List Property → List Property
  | [] => []
  | p :: r => p.hoisted :: hoistedProperties r

/-- The same for an entry of an object literal. -/
def Property.hoisted : Property → Property
  | .mk k v shorthand => .mk k v.hoisted shorthand

/-- The same for the body of an arrow function. -/
def Body.hoisted : Body → Body
  | .expr e => .expr e.hoisted
  | .block ss => .block (functionsFirst (hoistedStmts ss))

/-- The same inside each of several statements. -/
def hoistedStmts : List Stmt → List Stmt
  | [] => []
  | s :: r => s.hoisted :: hoistedStmts r

/-- The same inside a statement. -/
def Stmt.hoisted : Stmt → Stmt
  | .expr p e => .expr p e.hoisted
  | .decl p kind name init exported =>
    .decl p kind name (match init with | none => none | some e => some e.hoisted) exported
  | .cond p test yes no =>
    .cond p test.hoisted (functionsFirst (hoistedStmts yes)) (functionsFirst (hoistedStmts no))
  | .ret p value => .ret p (match value with | none => none | some e => some e.hoisted)
  | .func p name params ss source exported =>
    .func p name params (functionsFirst (hoistedStmts ss)) source exported
  | .labeled p label s => .labeled p label s.hoisted

end

/-- A block with functions first, and so every block in it. -/
def Stmt.hoistedOf (ss : List Stmt) : List Stmt := functionsFirst (hoistedStmts ss)

theorem Stmt.isFunction_hoisted (s : Stmt) : s.hoisted.isFunction = s.isFunction := by
  cases s <;> rfl

theorem Stmt.binds_hoisted : ∀ s : Stmt, s.hoisted.binds = s.binds
  | .expr .. | .decl .. | .cond .. | .ret .. | .func .. => rfl
  | .labeled _ _ s => Stmt.binds_hoisted s

/-- A statement that declares no function stays among the others. -/
theorem filter_hoistedStmts_cons {s : Stmt} {r : List Stmt} (h : s.isFunction = false) :
    (hoistedStmts (s :: r)).filter (fun t => !t.isFunction) =
      s.hoisted :: (hoistedStmts r).filter fun t => !t.isFunction :=
  List.filter_cons_of_pos (by simp [Stmt.isFunction_hoisted, h])

theorem mem_functionsFirst {s : Stmt} {ss : List Stmt} : s ∈ functionsFirst ss ↔ s ∈ ss := by
  rw [functionsFirst, List.mem_append, List.mem_filter, List.mem_filter]
  cases s.isFunction <;> simp

/-! ### What a block uses -/

section

variable {F : Prop} {G : Text → Prop}

/-- The statements after some others use what those bind, and other names. -/
theorem usesStmts.append {ss ss' : List Stmt} (h : usesStmts F G (ss ++ ss')) :
    usesStmts F G ss ∧ usesStmts F (fun n => (∃ s ∈ ss, n ∈ s.binds) ∨ G n) ss' := by
  induction ss generalizing G with
  | nil => exact ⟨trivial, h.mono fun n => Or.inr⟩
  | cons s r ih =>
    obtain ⟨hr, hss'⟩ := ih h.2
    refine ⟨⟨h.1, hr⟩, hss'.mono ?_⟩
    rintro n (⟨t, ht, hn⟩ | hn | hn)
    · exact Or.inl ⟨t, List.mem_cons_of_mem _ ht, hn⟩
    · exact Or.inl ⟨s, List.mem_cons_self, hn⟩
    · exact Or.inr hn

/-- A block uses what each of its statements uses. -/
theorem usesStmts_of_forall {ss : List Stmt} (h : ∀ s ∈ ss, s.Uses F G) : usesStmts F G ss := by
  induction ss generalizing G with
  | nil => trivial
  | cons s r ih =>
    refine ⟨h s List.mem_cons_self, ih fun t ht => ?_⟩
    exact (h t (List.mem_cons_of_mem _ ht)).mono fun n => Or.inr

end

/-! ### Trees without functions -/

theorem functionsFirst_of_none {ss : List Stmt} (h : ∀ s ∈ ss, s.isFunction = false) :
    functionsFirst ss = ss := by
  have hnone : ss.filter Stmt.isFunction = [] :=
    List.filter_eq_nil_iff.2 fun s hs => by simp [h s hs]
  have hall : (ss.filter fun s => !s.isFunction) = ss :=
    List.filter_eq_self.2 fun s hs => by simp [h s hs]
  rw [functionsFirst, hnone, hall, List.nil_append]

theorem isFunction_of_uses {G : Text → Prop} {ss : List Stmt} (h : usesStmts False G ss) :
    ∀ s ∈ ss, s.isFunction = false := by
  induction ss generalizing G with
  | nil => exact fun s hs => absurd hs List.not_mem_nil
  | cons s r ih =>
    refine List.forall_mem_cons.2 ⟨?_, ih h.2⟩
    cases s with
    | func => exact h.1.1.elim
    | _ => rfl

mutual

/-- Without functions nothing moves. -/
theorem Expr.hoisted_of_uses : ∀ (e : Expr) {G : Text → Prop}, e.Uses False G → e.hoisted = e
  | .literal .., _, _ | .ident .., _, _ => rfl
  | .template _ _ es, _, h => by rw [Expr.hoisted, hoistedExprs_of_uses es h]
  | .array _ es, _, h => by rw [Expr.hoisted, hoistedExprs_of_uses es h]
  | .object _ ps, _, h => by rw [Expr.hoisted, hoistedProperties_of_uses ps h]
  | .spread _ a, _, h => by rw [Expr.hoisted, Expr.hoisted_of_uses a h]
  | .member _ o _ _, _, h => by rw [Expr.hoisted, Expr.hoisted_of_uses o h]
  | .index _ o k _, _, h => by
    rw [Expr.hoisted, Expr.hoisted_of_uses o h.1, Expr.hoisted_of_uses k h.2]
  | .call _ f args _, _, h => by
    rw [Expr.hoisted, Expr.hoisted_of_uses f h.1, hoistedExprs_of_uses args h.2]
  | .unary _ _ e, _, h => by rw [Expr.hoisted, Expr.hoisted_of_uses e h]
  | .binary _ _ l r, _, h => by
    rw [Expr.hoisted, Expr.hoisted_of_uses l h.1, Expr.hoisted_of_uses r h.2]
  | .conditional _ t y n, _, h => by
    rw [Expr.hoisted, Expr.hoisted_of_uses t h.1, Expr.hoisted_of_uses y h.2.1,
      Expr.hoisted_of_uses n h.2.2]
  | .arrow _ _ b, _, h => by rw [Expr.hoisted, Body.hoisted_of_uses b h]
  | .assign _ _ t v, _, h => by
    rw [Expr.hoisted, Expr.hoisted_of_uses t h.1, Expr.hoisted_of_uses v h.2]
  | .step _ _ _ t, _, h => by rw [Expr.hoisted, Expr.hoisted_of_uses t h]

theorem hoistedExprs_of_uses : ∀ (es : List Expr) {G : Text → Prop}, usesAll False G es →
    hoistedExprs es = es
  | [], _, _ => rfl
  | e :: r, _, h => by
    rw [hoistedExprs, Expr.hoisted_of_uses e h.1, hoistedExprs_of_uses r h.2]

theorem hoistedProperties_of_uses : ∀ (ps : List Property) {G : Text → Prop},
    usesProperties False G ps → hoistedProperties ps = ps
  | [], _, _ => rfl
  | p :: r, _, h => by
    rw [hoistedProperties, Property.hoisted_of_uses p h.1, hoistedProperties_of_uses r h.2]

theorem Property.hoisted_of_uses : ∀ (p : Property) {G : Text → Prop}, p.Uses False G →
    p.hoisted = p
  | .mk _ v _, _, h => by rw [Property.hoisted, Expr.hoisted_of_uses v h]

theorem Body.hoisted_of_uses : ∀ (b : Body) {G : Text → Prop}, b.Uses False G → b.hoisted = b
  | .expr e, _, h => by rw [Body.hoisted, Expr.hoisted_of_uses e h]
  | .block ss, _, h => by
    rw [Body.hoisted, hoistedStmts_of_uses ss h, functionsFirst_of_none (isFunction_of_uses h)]

theorem hoistedStmts_of_uses : ∀ (ss : List Stmt) {G : Text → Prop}, usesStmts False G ss →
    hoistedStmts ss = ss
  | [], _, _ => rfl
  | s :: r, _, h => by
    rw [hoistedStmts, Stmt.hoisted_of_uses s h.1, hoistedStmts_of_uses r h.2]

theorem Stmt.hoisted_of_uses : ∀ (s : Stmt) {G : Text → Prop}, s.Uses False G → s.hoisted = s
  | .expr _ e, _, h => by rw [Stmt.hoisted, Expr.hoisted_of_uses e h]
  | .decl _ _ _ none _, _, _ => rfl
  | .decl _ _ _ (some e) _, _, h => by rw [Stmt.hoisted, Expr.hoisted_of_uses e h]
  | .cond _ test yes no, _, h => by
    rw [Stmt.hoisted, Expr.hoisted_of_uses test h.1, hoistedStmts_of_uses yes h.2.1,
      hoistedStmts_of_uses no h.2.2, functionsFirst_of_none (isFunction_of_uses h.2.1),
      functionsFirst_of_none (isFunction_of_uses h.2.2)]
  | .ret _ none, _, _ => rfl
  | .ret _ (some e), _, h => by rw [Stmt.hoisted, Expr.hoisted_of_uses e h]
  | .func .., _, h => h.1.elim
  | .labeled _ _ s, _, h => by rw [Stmt.hoisted, Stmt.hoisted_of_uses s h]

end

/-- What an expression uses where functions may be declared only if every name is allowed. -/
theorem Expr.Uses.hoisted {F : Prop} {G : Text → Prop} {e : Expr} (h : e.Uses F G)
    (hF : F → ∀ n, G n) : e.hoisted.Uses True G := by
  by_cases hfun : F
  · exact Expr.uses_any trivial e.hoisted (hF hfun)
  · have hnone : e.Uses False G := h.widen hfun fun _ hn => hn
    rw [Expr.hoisted_of_uses e hnone]
    exact hnone.widen False.elim fun _ hn => hn

end Reactive
