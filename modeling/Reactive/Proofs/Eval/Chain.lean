/-
Chains of members, indices and calls.

An optional link cuts its whole chain when what stands before it is null or
undefined, and does nothing otherwise.  So what a chain does is told by its
plain form, in which no link is optional: the chain is cut where the plain form
gets to such a link with a nullish value, and does the same as the plain form
if it never does.  Only the failure of a call quotes the callee as it is
written.

* `Expr.plain`, `Expr.guards` — the plain form, and what stands before the
  optional links;
* `Expr.answers_link_iff` — a link that is not cut and its plain form answer
  the same;
* `Expr.CutAt.answers` — a chain that is cut;
* `Expr.requoted_plain` — a chain that is not.
-/
import Reactive.Eval.Interp
import Reactive.Proofs.Run

namespace Reactive

variable {ω α β : Type} {c : Caller ω} {env : Nat} {m m' : Machine ω}

namespace Expr

/-- Whether an expression is a member, an index or a call. -/
def isChain : Expr → Bool
  | .member .. | .index .. | .call .. => true
  | _ => false

/-- The chain with plain links in place of optional ones. -/
def plain : Expr → Expr
  | .member p o name _ => .member p o.plain name false
  | .index p o k _ => .index p o.plain k false
  | .call p f args _ => .call p f.plain args false
  | e => e

/-- What stands before the optional links of a chain, in the order of evaluation. -/
def guards : Expr → List Expr
  | .member _ o _ opt | .index _ o _ opt | .call _ o _ opt =>
    o.guards ++ if opt then [o] else []
  | _ => []

/-- The callees in a chain, in the order of evaluation. -/
def callees : Expr → List Expr
  | .member _ o _ _ | .index _ o _ _ => o.callees
  | .call _ f _ _ => f.callees ++ [f]
  | _ => []

end Expr

/-! ### Links that are never cut -/

theorem chainValue_some (x : Eval ω Value) : chainValue (some <$> x) = x := by
  rw [chainValue, map_eq_pure_bind, bind_assoc]
  simp

theorem chainValue_bind (x : Eval ω α) (f : α → Eval ω (Option Value)) :
    chainValue (x >>= f) = x >>= fun a => chainValue (f a) := by
  rw [chainValue, bind_assoc]
  rfl

/-- A link that is never cut. -/
def Eval.Whole (x : Eval ω (Option Value)) : Prop := x = some <$> chainValue x

namespace Eval.Whole

theorem some (x : Eval ω Value) : (Option.some <$> x).Whole := by
  rw [Whole, chainValue_some]

theorem pure (v : Value) : (Pure.pure (Option.some v) : Eval ω (Option Value)).Whole := by
  rw [Whole, chainValue, pure_bind, map_pure]
  rfl

theorem throw (err : EvalError) : (MonadExcept.throw err : Eval ω (Option Value)).Whole := rfl

theorem bind (x : Eval ω α) {f : α → Eval ω (Option Value)} (hf : ∀ a, (f a).Whole) :
    (x >>= f).Whole := by
  rw [Whole, chainValue_bind, map_bind]
  exact bind_congr hf

end Eval.Whole

/-- A link that is never cut answers a value. -/
theorem Eval.Whole.answers_iff {x : Eval ω (Option Value)} (hx : x.Whole) {v : Value} :
    (chainValue x).Answers m v m' ↔ x.Answers m (Option.some v) m' := by
  rw [Whole] at hx
  rw [hx, chainValue_some, Eval.answers_map]
  simp

/-- Only chains are cut. -/
theorem Expr.whole_link {e : Expr} (he : e.isChain = false) : (link c env e).Whole := by
  cases e with
  | literal => rw [link]; exact .pure _
  | ident => rw [link]; exact .some _
  | template | array | object | arrow => rw [link]; exact .bind _ fun _ => .pure _
  | spread => rw [link]; exact .throw _
  | member | index | call => simp [isChain] at he
  | unary _ op e =>
    rw [link]
    refine .bind _ fun r => ?_
    cases r with
    | ok v => exact .pure _
    | error err =>
      dsimp only
      split
      · exact .pure _
      · exact .throw _
  | binary _ op l r =>
    rw [link]
    refine .bind _ fun a => ?_
    split
    · exact .bind _ fun b => .some _
    · exact .pure _
  | conditional _ t y n =>
    rw [link]
    refine .bind _ fun a => ?_
    split
    · exact .some _
    · exact .some _
  | assign _ op t v =>
    cases op with
    | set =>
      rw [link]
      exact .bind _ fun new => .some _
    | update bop =>
      rw [link]
      split
      · refine .bind _ fun old => ?_
        split
        · exact .bind _ fun new => .some _
        · exact .pure _
      · exact .some _
  | step => rw [link]; exact .some _

/-! ### One link -/

theorem guarded_of_not_nullish {v : Value} (h : v.isNullish = false) (optional : Bool)
    (rest : Eval ω Value) : guarded optional v rest = some <$> rest := by
  rw [guarded, h, Bool.and_false]
  rfl

/-- A link of a chain: what stands before it, whether it is optional, and what it does then. -/
def follow (x : Eval ω (Option Value)) (optional : Bool) (rest : Value → Eval ω Value) :
    Eval ω (Option Value) := do
  match ← x with
  | none => return none
  | some v => guarded optional v (rest v)

theorem link_member (p : Nat) (o : Expr) (name : Text) (opt : Bool) :
    link c env (.member p o name opt) = follow (link c env o) opt (member · name) := by
  rw [link]
  rfl

theorem link_index (p : Nat) (o k : Expr) (opt : Bool) :
    link c env (.index p o k opt) =
      follow (link c env o) opt fun v => (do itemAt v (← eval c env k)) := by
  rw [link]
  rfl

theorem link_call (p : Nat) (f : Expr) (args : List Expr) (opt : Bool) :
    link c env (.call p f args opt) =
      follow (link c env f) opt fun v => (do
        c.call (← asFunction f.text v) (← elements c env args)) := by
  rw [link]
  rfl

/-- What a link does with a nullish value never answers. -/
def NeedsValue (rest : Value → Eval ω Value) : Prop :=
  ∀ v, v.isNullish = true → ∀ w m m', ¬(rest v).Answers m w m'

theorem needsValue_member (name : Text) : NeedsValue (ω := ω) (member · name) := by
  intro v hv
  cases v with
  | null | undefined => simp [member]
  | _ => cases hv

theorem needsValue_itemAt (k : Eval ω Value) : NeedsValue fun v => (do itemAt v (← k)) := by
  intro v hv
  cases v with
  | null | undefined => simp [itemAt, member]
  | _ => cases hv

@[simp] theorem answers_asFunction {source : Text} {v : Value} {f : Func} :
    (asFunction source v).Answers m f m' ↔ v = .func f ∧ m = m' := by
  cases v <;> simp [asFunction]

theorem needsValue_asFunction (source : Text) (f : Func → Eval ω Value) :
    NeedsValue fun v => (do f (← asFunction source v)) := by
  intro v hv
  cases v with
  | null | undefined => simp [asFunction]
  | _ => cases hv

section

variable {x : Eval ω (Option Value)} {opt : Bool} {rest rest' : Value → Eval ω Value}

/-- A link answers what it makes of the value before it. -/
theorem answers_follow_some (hrest : NeedsValue rest) {w : Value} :
    (follow x opt rest).Answers m (some w) m' ↔
      ∃ v m₁, x.Answers m (some v) m₁ ∧ (rest v).Answers m₁ w m' := by
  rw [follow, Eval.answers_bind]
  constructor
  · rintro ⟨o, m₁, ho, hw⟩
    cases o with
    | none => simp at hw
    | some v =>
      dsimp only [guarded] at hw
      split at hw
      · simp at hw
      · rw [Eval.answers_map] at hw
        obtain ⟨w', hw', heq⟩ := hw
        cases heq
        exact ⟨v, m₁, ho, hw'⟩
  · rintro ⟨v, m₁, hv, hw⟩
    refine ⟨some v, m₁, hv, ?_⟩
    -- the rest answered, so the link was not cut
    have hsome : v.isNullish = false :=
      Bool.eq_false_iff.2 fun hnull => hrest v hnull w m₁ m' hw
    simpa [guarded_of_not_nullish hsome] using hw

/-- A link behind a cut is cut. -/
theorem answers_follow_of_none (hx : x.Answers m none m') :
    (follow x opt rest).Answers m none m' := by
  rw [follow, Eval.answers_bind]
  exact ⟨none, m', hx, by simp⟩

/-- An optional link is cut by a nullish value. -/
theorem answers_follow_of_nullish {v : Value} (hx : x.Answers m (some v) m')
    (hv : v.isNullish = true) : (follow x true rest).Answers m none m' := by
  rw [follow, Eval.answers_bind]
  exact ⟨some v, m', hx, by simp [guarded, hv]⟩

/-- A plain link behind a link that is never cut is never cut. -/
theorem whole_follow (hx : x.Whole) (rest : Value → Eval ω Value) : (follow x false rest).Whole := by
  have heq : follow x false rest = chainValue x >>= fun v => some <$> rest v := by
    rw [hx, chainValue_some, follow, bind_map_left]
    rfl
  rw [heq]
  exact .bind _ fun v => .some _

end

/-! ### Whole chains -/

namespace Expr

/-- Induction along a chain. -/
@[elab_as_elim]
theorem chainInduction {P : Expr → Prop} (other : ∀ e, e.isChain = false → P e)
    (member : ∀ p o name opt, P o → P (.member p o name opt))
    (index : ∀ p o k opt, P o → P (.index p o k opt))
    (call : ∀ p f args opt, P f → P (.call p f args opt)) : ∀ e, P e
  | .member p o name opt => member p o name opt (chainInduction other member index call o)
  | .index p o k opt => index p o k opt (chainInduction other member index call o)
  | .call p f args opt => call p f args opt (chainInduction other member index call f)
  | .literal .. | .ident .. | .template .. | .array .. | .object .. | .spread .. | .unary ..
  | .binary .. | .conditional .. | .arrow .. | .assign .. | .step .. => other _ rfl

theorem plain_of_not_chain {e : Expr} (he : e.isChain = false) : e.plain = e := by
  cases e with
  | member | index | call => cases he
  | _ => rfl

theorem guards_of_not_chain {e : Expr} (he : e.isChain = false) : e.guards = [] := by
  cases e with
  | member | index | call => cases he
  | _ => rfl

/-- A link that is not cut and its plain form answer the same. -/
theorem answers_link_iff (e : Expr) : ∀ {m m' : Machine ω} {w : Value},
    (link c env e).Answers m (some w) m' ↔ (link c env e.plain).Answers m (some w) m' := by
  induction e using chainInduction with
  | other e he =>
    intro m m' w
    rw [plain_of_not_chain he]
  | member p o name opt ih =>
    intro m m' w
    rw [plain, link_member, link_member, answers_follow_some (needsValue_member name),
      answers_follow_some (needsValue_member name)]
    simp only [ih]
  | index p o k opt ih =>
    intro m m' w
    rw [plain, link_index, link_index, answers_follow_some (needsValue_itemAt _),
      answers_follow_some (needsValue_itemAt _)]
    simp only [ih]
  | call p f args opt ih =>
    intro m m' w
    rw [plain, link_call, link_call, answers_follow_some (needsValue_asFunction _ _),
      answers_follow_some (needsValue_asFunction _ _)]
    simp only [ih, Eval.answers_bind, answers_asFunction]

/-- A chain without optional links is never cut. -/
theorem whole_link_plain (e : Expr) : (link c env e.plain).Whole := by
  induction e using chainInduction with
  | other e he =>
    rw [plain_of_not_chain he]
    exact whole_link he
  | member p o name opt ih =>
    rw [plain, link_member]
    exact whole_follow ih _
  | index p o k opt ih =>
    rw [plain, link_index]
    exact whole_follow ih _
  | call p f args opt ih =>
    rw [plain, link_call]
    exact whole_follow ih _

/-- What the plain form answers, the chain answers as a link. -/
theorem answers_link_of_plain {e : Expr} {v : Value} (he : (eval c env e.plain).Answers m v m') :
    (link c env e).Answers m (some v) m' :=
  e.answers_link_iff.2 ((whole_link_plain e).answers_iff.1 he)

variable (c env) in
/-- The chain, run on `m`, gets to an optional link with a nullish value, and then the machine is
`m'`. -/
def CutAt (m m' : Machine ω) (e : Expr) : Prop :=
  ∃ o ∈ e.guards, ∃ v, (eval c env o.plain).Answers m v m' ∧ v.isNullish = true

/-- A chain is cut before its last link, or there. -/
theorem cutAt_append_iff {e o : Expr} {opt : Bool}
    (he : e.guards = o.guards ++ if opt then [o] else []) :
    e.CutAt c env m m' ↔ o.CutAt c env m m' ∨
      opt = true ∧ ∃ v, (eval c env o.plain).Answers m v m' ∧ v.isNullish = true := by
  cases opt <;> simp [CutAt, he, or_and_right, exists_or]

/-- The last link of a chain that is cut. -/
theorem answers_follow_of_cutAt {e o : Expr} {opt : Bool} (rest : Value → Eval ω Value)
    (he : e.guards = o.guards ++ if opt then [o] else [])
    (ho : o.CutAt c env m m' → (link c env o).Answers m none m') (h : e.CutAt c env m m') :
    (follow (link c env o) opt rest).Answers m none m' := by
  rcases (cutAt_append_iff he).1 h with h | ⟨rfl, v, hv, hnull⟩
  · exact answers_follow_of_none (ho h)
  · exact answers_follow_of_nullish (answers_link_of_plain hv) hnull

/-- A chain that gets to an optional link with a nullish value is cut there. -/
theorem CutAt.answers {e : Expr} : e.CutAt c env m m' → (link c env e).Answers m none m' := by
  induction e using chainInduction with
  | other e he =>
    rintro ⟨o, ho, -⟩
    rw [guards_of_not_chain he] at ho
    cases ho
  | member p o name opt ih =>
    rw [link_member]
    exact answers_follow_of_cutAt _ rfl ih
  | index p o k opt ih =>
    rw [link_index]
    exact answers_follow_of_cutAt _ rfl ih
  | call p f args opt ih =>
    rw [link_call]
    exact answers_follow_of_cutAt _ rfl ih

end Expr

/-! ### The failure of a call -/

/-- How a run ends: without an answer, or with an answer or a failure and a machine. -/
abbrev Run.End (ω α : Type) := Except Halt (Except EvalError α × Machine ω)

/-- Ends of runs that are the same, or the failure of one call whose callee is quoted as it is
written in the first and in its plain form in the second. -/
inductive Requoted (callees : List Expr) : Run.End ω α → Run.End ω α → Prop
  | same (r : Run.End ω α) : Requoted callees r r
  | call {f : Expr} (hf : f ∈ callees) (m : Machine ω) :
    Requoted callees (.ok (.error (.notFunction f.text), m))
      (.ok (.error (.notFunction f.plain.text), m))

namespace Requoted

variable {fs fs' : List Expr}

theorem mono {r r' : Run.End ω α} (h : Requoted fs r r') (hfs : fs ⊆ fs') :
    Requoted fs' r r' := by
  cases h with
  | same => exact .same _
  | call hf m => exact .call (hfs hf) m

theorem bind {x y : Eval ω α} {f g : α → Eval ω β} (hx : Requoted fs (x.run m) (y.run m))
    (hf : ∀ a m', y.Answers m a m' → Requoted fs ((f a).run m') ((g a).run m')) :
    Requoted fs ((x >>= f).run m) ((y >>= g).run m) := by
  rw [ExceptT.run_bind, ExceptT.run_bind, Run.bind_apply, Run.bind_apply]
  generalize hx' : x.run m = r at hx
  generalize hy : y.run m = r' at hx
  cases hx with
  | same =>
    rcases r with _ | ⟨_ | a, m'⟩
    · exact .same _
    · exact .same _
    · exact hf a m' hy
  | call hf m => exact .call hf m

theorem asFunction {f : Expr} (hf : f ∈ fs) (v : Value) :
    Requoted fs ((Reactive.asFunction f.text v).run m)
      ((Reactive.asFunction f.plain.text v).run m) := by
  cases v with
  | func g => exact .same _
  | _ => exact .call hf m

/-- One link, behind links that were not cut. -/
theorem follow {x y : Eval ω (Option Value)} {opt : Bool} {rest rest' : Value → Eval ω Value}
    (hx : Requoted fs (x.run m) (y.run m)) (hy : y.Whole)
    (hopt : opt = true → ∀ v m', (chainValue y).Answers m v m' → v.isNullish = false)
    (hrest : ∀ v m', Requoted fs ((rest v).run m') ((rest' v).run m')) :
    Requoted fs ((Reactive.follow x opt rest).run m) ((Reactive.follow y false rest').run m) := by
  refine bind hx fun o m' ho => ?_
  cases o with
  | none => exact .same _
  | some v =>
    have hguarded : guarded opt v (rest v) = some <$> rest v := by
      cases opt with
      | false => rfl
      | true => exact guarded_of_not_nullish (hopt rfl v m' (hy.answers_iff.2 ho)) true _
    dsimp only
    -- both go on with the rest of the link
    rw [hguarded]
    exact bind (hrest v m') fun w m'' _ => .same _

end Requoted

namespace Expr

/-- The last link of a chain that is never cut. -/
theorem requoted_follow {e o : Expr} {opt : Bool} {rest rest' : Value → Eval ω Value}
    {fs : List Expr} (he : e.guards = o.guards ++ if opt then [o] else [])
    (ho : (∀ m', ¬o.CutAt c env m m') →
      Requoted o.callees ((link c env o).run m) ((link c env o.plain).run m))
    (hfs : o.callees ⊆ fs)
    (hrest : ∀ v m', Requoted fs ((rest v).run m') ((rest' v).run m'))
    (h : ∀ m', ¬e.CutAt c env m m') :
    Requoted fs ((follow (link c env o) opt rest).run m)
      ((follow (link c env o.plain) false rest').run m) := by
  have huncut : ∀ m', ¬o.CutAt c env m m' := fun m' hcut =>
    h m' ((cutAt_append_iff he).2 (.inl hcut))
  refine .follow ((ho huncut).mono hfs) (whole_link_plain o) ?_ hrest
  intro hopt v m' hv
  exact Bool.eq_false_iff.2 fun hnull => h m' ((cutAt_append_iff he).2 (.inr ⟨hopt, v, hv, hnull⟩))

/-- A chain that is never cut does what its plain form does. -/
theorem requoted_plain {e : Expr} : (∀ m', ¬e.CutAt c env m m') →
    Requoted e.callees ((link c env e).run m) ((link c env e.plain).run m) := by
  induction e using chainInduction with
  | other e he =>
    intro _
    rw [plain_of_not_chain he]
    exact .same _
  | member p o name opt ih =>
    rw [plain, link_member, link_member]
    exact requoted_follow rfl ih (fun _ hf => hf) fun _ _ => .same _
  | index p o k opt ih =>
    rw [plain, link_index, link_index]
    exact requoted_follow rfl ih (fun _ hf => hf) fun _ _ => .same _
  | call p f args opt ih =>
    rw [plain, link_call, link_call]
    refine requoted_follow rfl ih (List.subset_append_left _ _) fun v m' => ?_
    have hf : f ∈ (call p f args opt).callees := by simp [callees]
    exact .bind (.asFunction hf v) fun _ _ _ => .same _

end Expr

end Reactive
