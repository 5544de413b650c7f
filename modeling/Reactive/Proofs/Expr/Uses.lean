/-
The names that an expression uses.

`Expr.Uses F G e` says that every name that `e` reads or writes, and does not
bind around that place itself, satisfies `G`; function declarations in it are
allowed if `F`.  Parameters bind in the body of a function, and a declaration
binds in the rest of its block.

* `Expr.Uses.widen` — with larger sets of names and with functions allowed;
* `Expr.uses_freeNames` — an expression uses its free names and `this`.
-/
import Reactive.Expr.Names

namespace Reactive

/-- The names that a statement binds in the rest of its block. -/
def Stmt.binds : Stmt → List Text
  | .decl _ _ name _ _ => [name]
  | .func _ name _ _ _ _ => [name]
  | .labeled _ _ s => s.binds
  | _ => []

mutual

/-- Every name that an expression uses satisfies `G`. -/
def Expr.Uses (F : Prop) (G : Text → Prop) : Expr → Prop
  | .literal _ _ => True
  | .ident _ n => G n
  | .template _ _ es => usesAll F G es
  | .array _ es => usesAll F G es
  | .object _ ps => usesProperties F G ps
  | .spread _ a => a.Uses F G
  | .member _ o _ _ => o.Uses F G
  | .index _ o k _ => o.Uses F G ∧ k.Uses F G
  | .call _ f args _ => f.Uses F G ∧ usesAll F G args
  | .unary _ _ e => e.Uses F G
  | .binary _ _ l r => l.Uses F G ∧ r.Uses F G
  | .conditional _ t y n => t.Uses F G ∧ y.Uses F G ∧ n.Uses F G
  | .arrow _ params b => b.Uses F fun n => n ∈ params ∨ G n
  | .assign _ _ t v => t.Uses F G ∧ v.Uses F G
  | .step _ _ _ t => t.Uses F G

/-- Every name that some expressions use satisfies `G`. -/
def usesAll (F : Prop) (G : Text → Prop) : List Expr → Prop
  | [] => True
  | e :: r => e.Uses F G ∧ usesAll F G r

/-- Every name that the entries of an object literal use satisfies `G`. -/
def usesProperties (F : Prop) (G : Text → Prop) : List Property → Prop
  | [] => True
  | p :: r => p.Uses F G ∧ usesProperties F G r

/-- Every name that an entry of an object literal uses satisfies `G`. -/
def Property.Uses (F : Prop) (G : Text → Prop) : Property → Prop
  | .mk _ v _ => v.Uses F G

/-- Every name that the body of an arrow function uses satisfies `G`. -/
def Body.Uses (F : Prop) (G : Text → Prop) : Body → Prop
  | .expr e => e.Uses F G
  | .block ss => usesStmts F G ss

/-- Every name that a block uses satisfies `G`. -/
def usesStmts (F : Prop) (G : Text → Prop) : List Stmt → Prop
  | [] => True
  | s :: r => s.Uses F G ∧ usesStmts F (fun n => n ∈ s.binds ∨ G n) r

/-- Every name that a statement uses satisfies `G`. -/
def Stmt.Uses (F : Prop) (G : Text → Prop) : Stmt → Prop
  | .expr _ e => e.Uses F G
  | .decl _ _ _ init _ =>
    match init with
    | none => True
    | some e => e.Uses F G
  | .cond _ test yes no => test.Uses F G ∧ usesStmts F G yes ∧ usesStmts F G no
  | .ret _ value =>
    match value with
    | none => True
    | some e => e.Uses F G
  | .func _ name params ss _ _ => F ∧ usesStmts F (fun n => n ∈ params ∨ n = name ∨ G n) ss
  | .labeled _ _ s => s.Uses F G

end

/-- An expression without function declarations. -/
def Expr.NoFunctions (e : Expr) : Prop := e.Uses False fun _ => True

/-! ### Two uses of one expression -/

section

variable {F F' F'' : Prop}

/-- What a binder adds to two sets of names it adds to a set with what is common to both. -/
theorem or_merge {B G G' G'' : Text → Prop} (hG : ∀ n, G n → G' n → G'' n) (n : Text) :
    B n ∨ G n → B n ∨ G' n → B n ∨ G'' n := by
  rintro (h | h) (h' | h')
  · exact Or.inl h
  · exact Or.inl h
  · exact Or.inl h'
  · exact Or.inr (hG n h h')

mutual

/-- Two facts about the names of an expression, taken together. -/
theorem Expr.Uses.merge (hF : F → F' → F'') : ∀ (e : Expr) {G G' G'' : Text → Prop},
    (∀ n, G n → G' n → G'' n) → e.Uses F G → e.Uses F' G' → e.Uses F'' G''
  | .literal _ _, _, _, _, _, _, _ => trivial
  | .ident _ n, _, _, _, hG, h, h' => hG n h h'
  | .template _ _ es, _, _, _, hG, h, h' => usesAll_merge hF es hG h h'
  | .array _ es, _, _, _, hG, h, h' => usesAll_merge hF es hG h h'
  | .object _ ps, _, _, _, hG, h, h' => usesProperties_merge hF ps hG h h'
  | .spread _ a, _, _, _, hG, h, h' => Expr.Uses.merge hF a hG h h'
  | .member _ o _ _, _, _, _, hG, h, h' => Expr.Uses.merge hF o hG h h'
  | .index _ o k _, _, _, _, hG, h, h' =>
    ⟨Expr.Uses.merge hF o hG h.1 h'.1, Expr.Uses.merge hF k hG h.2 h'.2⟩
  | .call _ f args _, _, _, _, hG, h, h' =>
    ⟨Expr.Uses.merge hF f hG h.1 h'.1, usesAll_merge hF args hG h.2 h'.2⟩
  | .unary _ _ e, _, _, _, hG, h, h' => Expr.Uses.merge hF e hG h h'
  | .binary _ _ l r, _, _, _, hG, h, h' =>
    ⟨Expr.Uses.merge hF l hG h.1 h'.1, Expr.Uses.merge hF r hG h.2 h'.2⟩
  | .conditional _ t y n, _, _, _, hG, h, h' =>
    ⟨Expr.Uses.merge hF t hG h.1 h'.1, Expr.Uses.merge hF y hG h.2.1 h'.2.1,
      Expr.Uses.merge hF n hG h.2.2 h'.2.2⟩
  | .arrow _ _ b, _, _, _, hG, h, h' => Body.Uses.merge hF b (or_merge hG) h h'
  | .assign _ _ t v, _, _, _, hG, h, h' =>
    ⟨Expr.Uses.merge hF t hG h.1 h'.1, Expr.Uses.merge hF v hG h.2 h'.2⟩
  | .step _ _ _ t, _, _, _, hG, h, h' => Expr.Uses.merge hF t hG h h'

theorem usesAll_merge (hF : F → F' → F'') : ∀ (es : List Expr) {G G' G'' : Text → Prop},
    (∀ n, G n → G' n → G'' n) → usesAll F G es → usesAll F' G' es → usesAll F'' G'' es
  | [], _, _, _, _, _, _ => trivial
  | e :: r, _, _, _, hG, h, h' =>
    ⟨Expr.Uses.merge hF e hG h.1 h'.1, usesAll_merge hF r hG h.2 h'.2⟩

theorem usesProperties_merge (hF : F → F' → F'') : ∀ (ps : List Property)
    {G G' G'' : Text → Prop}, (∀ n, G n → G' n → G'' n) → usesProperties F G ps →
    usesProperties F' G' ps → usesProperties F'' G'' ps
  | [], _, _, _, _, _, _ => trivial
  | p :: r, _, _, _, hG, h, h' =>
    ⟨Property.Uses.merge hF p hG h.1 h'.1, usesProperties_merge hF r hG h.2 h'.2⟩

theorem Property.Uses.merge (hF : F → F' → F'') : ∀ (p : Property) {G G' G'' : Text → Prop},
    (∀ n, G n → G' n → G'' n) → p.Uses F G → p.Uses F' G' → p.Uses F'' G''
  | .mk _ v _, _, _, _, hG, h, h' => Expr.Uses.merge hF v hG h h'

theorem Body.Uses.merge (hF : F → F' → F'') : ∀ (b : Body) {G G' G'' : Text → Prop},
    (∀ n, G n → G' n → G'' n) → b.Uses F G → b.Uses F' G' → b.Uses F'' G''
  | .expr e, _, _, _, hG, h, h' => Expr.Uses.merge hF e hG h h'
  | .block ss, _, _, _, hG, h, h' => usesStmts_merge hF ss hG h h'

theorem usesStmts_merge (hF : F → F' → F'') : ∀ (ss : List Stmt) {G G' G'' : Text → Prop},
    (∀ n, G n → G' n → G'' n) → usesStmts F G ss → usesStmts F' G' ss → usesStmts F'' G'' ss
  | [], _, _, _, _, _, _ => trivial
  | s :: r, _, _, _, hG, h, h' =>
    ⟨Stmt.Uses.merge hF s hG h.1 h'.1, usesStmts_merge hF r (or_merge hG) h.2 h'.2⟩

theorem Stmt.Uses.merge (hF : F → F' → F'') : ∀ (s : Stmt) {G G' G'' : Text → Prop},
    (∀ n, G n → G' n → G'' n) → s.Uses F G → s.Uses F' G' → s.Uses F'' G''
  | .expr _ e, _, _, _, hG, h, h' => Expr.Uses.merge hF e hG h h'
  | .decl _ _ _ none _, _, _, _, _, _, _ => trivial
  | .decl _ _ _ (some e) _, _, _, _, hG, h, h' => Expr.Uses.merge hF e hG h h'
  | .cond _ test yes no, _, _, _, hG, h, h' =>
    ⟨Expr.Uses.merge hF test hG h.1 h'.1, usesStmts_merge hF yes hG h.2.1 h'.2.1,
      usesStmts_merge hF no hG h.2.2 h'.2.2⟩
  | .ret _ none, _, _, _, _, _, _ => trivial
  | .ret _ (some e), _, _, _, hG, h, h' => Expr.Uses.merge hF e hG h h'
  | .func _ _ _ ss _ _, _, _, _, hG, h, h' =>
    ⟨hF h.1 h'.1, usesStmts_merge hF ss (or_merge (or_merge hG)) h.2 h'.2⟩
  | .labeled _ _ s, _, _, _, hG, h, h' => Stmt.Uses.merge hF s hG h h'

end

variable {G G' : Text → Prop}

/-! Larger sets of names, and functions allowed where they were not. -/

theorem Expr.Uses.widen {e : Expr} (h : e.Uses F G) (hF : F → F') (hG : ∀ n, G n → G' n) :
    e.Uses F' G' :=
  Expr.Uses.merge (fun h _ => hF h) e (fun n hn _ => hG n hn) h h

theorem usesAll.widen {es : List Expr} (h : usesAll F G es) (hF : F → F')
    (hG : ∀ n, G n → G' n) : usesAll F' G' es :=
  usesAll_merge (fun h _ => hF h) es (fun n hn _ => hG n hn) h h

theorem usesProperties.widen {ps : List Property} (h : usesProperties F G ps) (hF : F → F')
    (hG : ∀ n, G n → G' n) : usesProperties F' G' ps :=
  usesProperties_merge (fun h _ => hF h) ps (fun n hn _ => hG n hn) h h

theorem Body.Uses.widen {b : Body} (h : b.Uses F G) (hF : F → F') (hG : ∀ n, G n → G' n) :
    b.Uses F' G' :=
  Body.Uses.merge (fun h _ => hF h) b (fun n hn _ => hG n hn) h h

theorem usesStmts.widen {ss : List Stmt} (h : usesStmts F G ss) (hF : F → F')
    (hG : ∀ n, G n → G' n) : usesStmts F' G' ss :=
  usesStmts_merge (fun h _ => hF h) ss (fun n hn _ => hG n hn) h h

theorem Stmt.Uses.widen {s : Stmt} (h : s.Uses F G) (hF : F → F') (hG : ∀ n, G n → G' n) :
    s.Uses F' G' :=
  Stmt.Uses.merge (fun h _ => hF h) s (fun n hn _ => hG n hn) h h

theorem Expr.Uses.mono {e : Expr} (h : e.Uses F G) (hG : ∀ n, G n → G' n) : e.Uses F G' :=
  h.widen (fun hF => hF) hG

theorem usesAll.mono {es : List Expr} (h : usesAll F G es) (hG : ∀ n, G n → G' n) :
    usesAll F G' es :=
  h.widen (fun hF => hF) hG

theorem usesProperties.mono {ps : List Property} (h : usesProperties F G ps)
    (hG : ∀ n, G n → G' n) : usesProperties F G' ps :=
  h.widen (fun hF => hF) hG

theorem Body.Uses.mono {b : Body} (h : b.Uses F G) (hG : ∀ n, G n → G' n) : b.Uses F G' :=
  h.widen (fun hF => hF) hG

theorem usesStmts.mono {ss : List Stmt} (h : usesStmts F G ss) (hG : ∀ n, G n → G' n) :
    usesStmts F G' ss :=
  h.widen (fun hF => hF) hG

theorem Stmt.Uses.mono {s : Stmt} (h : s.Uses F G) (hG : ∀ n, G n → G' n) : s.Uses F G' :=
  h.widen (fun hF => hF) hG

end

/-! ### Any expression -/

section

variable {F : Prop}

mutual

/-- Where every name is allowed and functions are, every expression is. -/
theorem Expr.uses_any (hF : F) : ∀ (e : Expr) {G : Text → Prop}, (∀ n, G n) → e.Uses F G
  | .literal _ _, _, _ => trivial
  | .ident _ n, _, hG => hG n
  | .template _ _ es, _, hG => usesAll_any hF es hG
  | .array _ es, _, hG => usesAll_any hF es hG
  | .object _ ps, _, hG => usesProperties_any hF ps hG
  | .spread _ a, _, hG => Expr.uses_any hF a hG
  | .member _ o _ _, _, hG => Expr.uses_any hF o hG
  | .index _ o k _, _, hG => ⟨Expr.uses_any hF o hG, Expr.uses_any hF k hG⟩
  | .call _ f args _, _, hG => ⟨Expr.uses_any hF f hG, usesAll_any hF args hG⟩
  | .unary _ _ e, _, hG => Expr.uses_any hF e hG
  | .binary _ _ l r, _, hG => ⟨Expr.uses_any hF l hG, Expr.uses_any hF r hG⟩
  | .conditional _ t y n, _, hG =>
    ⟨Expr.uses_any hF t hG, Expr.uses_any hF y hG, Expr.uses_any hF n hG⟩
  | .arrow _ _ b, _, hG => Body.uses_any hF b fun n => Or.inr (hG n)
  | .assign _ _ t v, _, hG => ⟨Expr.uses_any hF t hG, Expr.uses_any hF v hG⟩
  | .step _ _ _ t, _, hG => Expr.uses_any hF t hG

theorem usesAll_any (hF : F) : ∀ (es : List Expr) {G : Text → Prop}, (∀ n, G n) → usesAll F G es
  | [], _, _ => trivial
  | e :: r, _, hG => ⟨Expr.uses_any hF e hG, usesAll_any hF r hG⟩

theorem usesProperties_any (hF : F) : ∀ (ps : List Property) {G : Text → Prop}, (∀ n, G n) →
    usesProperties F G ps
  | [], _, _ => trivial
  | p :: r, _, hG => ⟨Property.uses_any hF p hG, usesProperties_any hF r hG⟩

theorem Property.uses_any (hF : F) : ∀ (p : Property) {G : Text → Prop}, (∀ n, G n) → p.Uses F G
  | .mk _ v _, _, hG => Expr.uses_any hF v hG

theorem Body.uses_any (hF : F) : ∀ (b : Body) {G : Text → Prop}, (∀ n, G n) → b.Uses F G
  | .expr e, _, hG => Expr.uses_any hF e hG
  | .block ss, _, hG => usesStmts_any hF ss hG

theorem usesStmts_any (hF : F) : ∀ (ss : List Stmt) {G : Text → Prop}, (∀ n, G n) →
    usesStmts F G ss
  | [], _, _ => trivial
  | s :: r, _, hG => ⟨Stmt.uses_any hF s hG, usesStmts_any hF r fun n => Or.inr (hG n)⟩

theorem Stmt.uses_any (hF : F) : ∀ (s : Stmt) {G : Text → Prop}, (∀ n, G n) → s.Uses F G
  | .expr _ e, _, hG => Expr.uses_any hF e hG
  | .decl _ _ _ none _, _, _ => trivial
  | .decl _ _ _ (some e) _, _, hG => Expr.uses_any hF e hG
  | .cond _ test yes no, _, hG =>
    ⟨Expr.uses_any hF test hG, usesStmts_any hF yes hG, usesStmts_any hF no hG⟩
  | .ret _ none, _, _ => trivial
  | .ret _ (some e), _, hG => Expr.uses_any hF e hG
  | .func _ _ _ ss _ _, _, hG => ⟨hF, usesStmts_any hF ss fun n => Or.inr (Or.inr (hG n))⟩
  | .labeled _ _ s, _, hG => Stmt.uses_any hF s hG

end

end

/-! ### The scan for free names -/

namespace Names

/-- A name that can stand for something: no keyword. -/
def Plain (n : Text) : Prop := Keyword.ofText? n = none

/-- What is known of a scan that went from `s` to `t` over something that uses names as `U` says:
it is in the same blocks, it forgot no name, and what is used is bound, or found, or `this`. -/
structure Scanned (s t : Scan) (U : (Text → Prop) → Prop) : Prop where
  scopes : t.scopes = s.scopes
  names : ∀ n ∈ s.names, n ∈ t.names
  uses : ∀ G, (∀ n, G n → Plain n ∨ s.isBound n = true) → U G →
    U fun n => s.isBound n = true ∨ n ∈ t.names ∨ n = "this"

/-- The same for a statement in a block, where it may bind names. -/
structure ScannedStmt (s t : Scan) (binds : List Text) (U : (Text → Prop) → Prop) : Prop where
  tail : t.scopes.tail = s.scopes.tail
  inside : t.scopes ≠ []
  names : ∀ n ∈ s.names, n ∈ t.names
  bound : ∀ n, t.isBound n = true ↔ n ∈ binds ∨ s.isBound n = true
  uses : ∀ G, (∀ n, G n → Plain n ∨ s.isBound n = true) → U G →
    U fun n => s.isBound n = true ∨ n ∈ t.names ∨ n = "this"

/-- Something that uses names still uses them as part of a larger set. -/
def Grows (U : (Text → Prop) → Prop) : Prop :=
  ∀ {G G' : Text → Prop}, U G → (∀ n, G n → G' n) → U G'

section

variable {s t u : Scan} {U V : (Text → Prop) → Prop}

theorem Scanned.refl (h : ∀ G, U G) : Scanned s s U := ⟨rfl, fun _ hn => hn, fun _ _ _ => h _⟩

theorem isBound_congr (h : t.scopes = s.scopes) (n : Text) : t.isBound n = s.isBound n := by
  rw [Scan.isBound, Scan.isBound, h]

/-- One scan after another. -/
theorem Scanned.trans (h : Scanned s t U) (h' : Scanned t u V) (hU : Grows U) :
    Scanned s u fun G => U G ∧ V G := by
  refine ⟨h'.scopes.trans h.scopes, fun n hn => h'.names n (h.names n hn), fun G hG hg => ⟨?_, ?_⟩⟩
  · exact hU (h.uses G hG hg.1) fun n => Or.imp_right (Or.imp_left (h'.names n))
  · have := h'.uses G (by simpa only [isBound_congr h.scopes] using hG) hg.2
    simpa only [isBound_congr h.scopes] using this

theorem Scanned.toStmt (h : Scanned s t U) (hs : s.scopes ≠ []) : ScannedStmt s t [] U where
  tail := by rw [h.scopes]
  inside := h.scopes ▸ hs
  names := h.names
  bound := fun n => by simp [isBound_congr h.scopes n]
  uses := h.uses

/-- One statement after another. -/
theorem ScannedStmt.trans {b b' : List Text} (h : ScannedStmt s t b U) (h' : ScannedStmt t u b' V)
    (hU : Grows U) (hV : Grows V) :
    ScannedStmt s u (b' ++ b) fun G => U G ∧ V fun n => n ∈ b ∨ G n where
  tail := h'.tail.trans h.tail
  inside := h'.inside
  names := fun n hn => h'.names n (h.names n hn)
  bound := fun n => by rw [h'.bound, h.bound, List.mem_append, or_assoc]
  uses := by
    intro G hG hg
    refine ⟨hU (h.uses G hG hg.1) fun n => Or.imp_right (Or.imp_left (h'.names n)), ?_⟩
    have hbound : ∀ n, (n ∈ b ∨ G n) → Plain n ∨ t.isBound n = true := by
      rintro n (hn | hn)
      · exact Or.inr ((h.bound n).2 (Or.inl hn))
      · exact (hG n hn).imp_right fun hs => (h.bound n).2 (Or.inr hs)
    refine hV (h'.uses _ hbound hg.2) fun n hn => ?_
    rcases hn with hn | hn
    · exact ((h.bound n).1 hn).imp_right Or.inl
    · exact Or.inr (Or.inr hn)

theorem mem_see {n k : Text} (h : n ∈ s.names) : n ∈ (s.see k).names := by
  unfold Scan.see
  split
  · exact h
  · exact List.mem_append.2 (Or.inl h)

theorem scanned_see (n : Text) : Scanned s (s.see n) fun G => G n := by
  refine ⟨?_, fun k hk => mem_see hk, fun G hG hg => ?_⟩
  · unfold Scan.see
    split <;> rfl
  · unfold Scan.see
    split
    · rename_i h
      simp only [Bool.or_eq_true, isReserved, beq_iff_eq, List.contains_iff_mem] at h
      rcases h with ((h | h) | h) | h
      · exact Or.inr (Or.inr h)
      · rcases hG n hg with hp | hb
        · rw [show Keyword.ofText? n = none from hp] at h
          cases h
        · exact Or.inl hb
      · exact Or.inl h
      · exact Or.inr (Or.inl h)
    · exact Or.inr (Or.inl (List.mem_append.2 (Or.inr List.mem_cons_self)))

theorem isBound_enter (names : List Text) (n : Text) :
    (s.enter names).isBound n = true ↔ n ∈ names ∨ s.isBound n = true := by
  simp [Scan.isBound, Scan.enter]

/-- Out of a block that some names are bound in from the start. -/
theorem ScannedStmt.leave {names binds : List Text} (h : ScannedStmt (s.enter names) t binds U)
    (hU : Grows U) : Scanned s t.leave fun G => U fun n => n ∈ names ∨ G n := by
  refine ⟨h.tail, h.names, fun G hG hg => ?_⟩
  have hbound : ∀ n, (n ∈ names ∨ G n) → Plain n ∨ (s.enter names).isBound n = true := by
    rintro n (hn | hn)
    · exact Or.inr ((isBound_enter names n).2 (Or.inl hn))
    · exact (hG n hn).imp_right fun hs => (isBound_enter names n).2 (Or.inr hs)
  refine hU (h.uses _ hbound hg) fun n hn => ?_
  rcases hn with hn | hn
  · exact ((isBound_enter names n).1 hn).imp_right Or.inl
  · exact Or.inr (Or.inr hn)

/-- A declaration in a block. -/
theorem ScannedStmt.bind {b : List Text} (h : ScannedStmt s t b U) (name : Text) :
    ScannedStmt s (t.bind name) (name :: b) U := by
  obtain ⟨c, r, hc⟩ := List.exists_cons_of_ne_nil h.inside
  have hb : t.bind name = { t with scopes := (name :: c) :: r } := by rw [Scan.bind, hc]
  have htail : (t.bind name).scopes.tail = t.scopes.tail := by rw [hb, hc]; rfl
  have hnames : (t.bind name).names = t.names := by rw [hb]
  refine ⟨htail.trans h.tail, by rw [hb]; simp, fun n hn => hnames ▸ h.names n hn, fun n => ?_, ?_⟩
  · have hbind : (t.bind name).isBound n = true ↔ n = name ∨ t.isBound n = true := by
      rw [hb]
      simp [Scan.isBound, hc, or_assoc]
    rw [hbind, h.bound, List.mem_cons, or_assoc]
  · rw [hnames]
    exact h.uses

end

/-! ### The scan follows the tree -/

section

variable {F : Prop}

mutual

theorem scanned_expr (s : Scan) : ∀ e : Expr, Scanned s (expr s e) fun G => e.Uses F G
  | .literal _ _ => Scanned.refl fun _ => trivial
  | .ident _ n => scanned_see n
  | .template _ _ es => scanned_exprs s es
  | .array _ es => scanned_exprs s es
  | .object _ ps => scanned_properties s ps
  | .spread _ a => scanned_expr s a
  | .member _ o _ _ => scanned_expr s o
  | .index _ o k _ => (scanned_expr s o).trans (scanned_expr _ k) Expr.Uses.mono
  | .call _ f args _ => (scanned_expr s f).trans (scanned_exprs _ args) Expr.Uses.mono
  | .unary _ _ e => scanned_expr s e
  | .binary _ _ l r => (scanned_expr s l).trans (scanned_expr _ r) Expr.Uses.mono
  | .conditional _ t y n => by
    have h := ((scanned_expr s t).trans (scanned_expr _ y) Expr.Uses.mono).trans
      (scanned_expr _ n) fun hu hG => ⟨hu.1.mono hG, hu.2.mono hG⟩
    simp only [and_assoc] at h
    exact h
  | .arrow _ params b => by
    obtain ⟨binds, h⟩ := scanned_body (s.enter params) (by simp [Scan.enter]) b
    exact h.leave Body.Uses.mono
  | .assign _ _ t v => (scanned_expr s t).trans (scanned_expr _ v) Expr.Uses.mono
  | .step _ _ _ t => scanned_expr s t

theorem scanned_exprs (s : Scan) : ∀ es : List Expr, Scanned s (exprs s es) fun G => usesAll F G es
  | [] => Scanned.refl fun _ => trivial
  | e :: r => (scanned_expr s e).trans (scanned_exprs _ r) Expr.Uses.mono

theorem scanned_properties (s : Scan) : ∀ ps : List Property,
    Scanned s (properties s ps) fun G => usesProperties F G ps
  | [] => Scanned.refl fun _ => trivial
  | p :: r => (scanned_property s p).trans (scanned_properties _ r)
      fun hu hG => Property.Uses.merge (fun hF _ => hF) p (fun n hn _ => hG n hn) hu hu

theorem scanned_property (s : Scan) : ∀ p : Property, Scanned s (property s p) fun G => p.Uses F G
  | .mk _ v _ => scanned_expr s v

theorem scanned_body (s : Scan) (hs : s.scopes ≠ []) : ∀ b : Body,
    ∃ binds, ScannedStmt s (body s b) binds fun G => b.Uses F G
  | .expr e => ⟨[], (scanned_expr s e).toStmt hs⟩
  | .block ss => scanned_stmts s hs ss

theorem scanned_stmts (s : Scan) (hs : s.scopes ≠ []) : ∀ ss : List Stmt,
    ∃ binds, ScannedStmt s (stmts s ss) binds fun G => usesStmts F G ss
  | [] => ⟨[], (Scanned.refl fun _ => trivial).toStmt hs⟩
  | st :: r => by
    have h := scanned_stmt s hs st
    obtain ⟨binds, h'⟩ := scanned_stmts _ h.inside r
    exact ⟨_, h.trans h' Stmt.Uses.mono usesStmts.mono⟩

theorem scanned_stmt (s : Scan) (hs : s.scopes ≠ []) : ∀ st : Stmt,
    ScannedStmt s (stmt s st) st.binds fun G => st.Uses F G
  | .expr _ e => (scanned_expr s e).toStmt hs
  | .decl _ _ name none _ =>
    ((Scanned.refl (U := fun _ => True) fun _ => trivial).toStmt hs).bind name
  | .decl _ _ name (some e) _ => ((scanned_expr s e).toStmt hs).bind name
  | .cond _ test yes no => by
    obtain ⟨b, h⟩ := scanned_stmts ((expr s test).enter []) (by simp [Scan.enter]) yes
    have h₁ := h.leave usesStmts.mono
    obtain ⟨b', h'⟩ := scanned_stmts
      ((stmts ((expr s test).enter []) yes).leave.enter []) (by simp [Scan.enter]) no
    have h₂ := h'.leave usesStmts.mono
    have h := ((scanned_expr s test).trans h₁ Expr.Uses.mono).trans h₂
      fun hu hG => ⟨hu.1.mono hG, hu.2.mono fun n => Or.imp_right (hG n)⟩
    simp only [List.not_mem_nil, false_or, and_assoc] at h
    exact h.toStmt hs
  | .ret _ none => (Scanned.refl fun _ => trivial).toStmt hs
  | .ret _ (some e) => (scanned_expr s e).toStmt hs
  | .func _ name params ss _ _ => by
    have h₁ := ((Scanned.refl (U := fun _ => True) fun _ => trivial).toStmt hs).bind name
    obtain ⟨b, h⟩ := scanned_stmts ((s.bind name).enter params) (by simp [Scan.enter]) ss
    have h₂ := (h.leave usesStmts.mono).toStmt h₁.inside
    have h₃ := h₁.trans h₂ (fun _ _ => trivial) fun hu hG => hu.mono fun n => Or.imp_right (hG n)
    simp only [List.mem_singleton, true_and] at h₃
    exact ⟨h₃.tail, h₃.inside, h₃.names, h₃.bound, fun G hG hg => ⟨hg.1, h₃.uses G hG hg.2⟩⟩
  | .labeled _ _ st => scanned_stmt s hs st

end

end

end Names

/-- An expression in which no keyword stands for a value uses its free names and `this`. -/
theorem Expr.uses_freeNames {F : Prop} {e : Expr} (h : e.Uses F Names.Plain) :
    e.Uses F fun n => n ∈ e.freeNames ∨ n = "this" := by
  have hscan := (Names.scanned_expr ⟨[], []⟩ e).uses Names.Plain (fun n hn => Or.inl hn) h
  refine hscan.mono fun n hn => ?_
  rcases hn with hn | hn
  · simp [Names.Scan.isBound] at hn
  · exact hn

end Reactive
