/-
Chains that unwind, and chains that answer nothing.

The evaluator whose cut chains raise a signal does what the evaluator does
whose cut chains answer nothing.  So the signal is always caught at the end of
the chain that raised it: no expression raises it, whatever it calls.

* `Raising.ended_cutting` — the end of a chain;
* `Raising.link_eq`, `Raising.statements_eq` — expressions and statements,
  given calls that raise no signal;
* `Raising.call_eq` — calls;
* `optional_chain` — what optional links do, and that nothing else sees it.
-/
import Reactive.Eval.Interp
import Reactive.Proofs.Eval.Calls
import Reactive.Proofs.Eval.Raising

namespace Reactive

variable {ω α β : Type}

/-! ### Computations that cut no chain -/

namespace Eval

theorem run_raised (x : Eval ω α) : x.raised.run = Except.mapError .failed <$> x.run := rfl

@[simp] theorem raised_pure (a : α) : (pure a : Eval ω α).raised = pure a := rfl

@[simp] theorem raised_throw (e : EvalError) :
    (throw e : Eval ω α).raised = throw (.failed e) := rfl

@[simp] theorem raised_get : (get : Eval ω (Machine ω)).raised = get := rfl

@[simp] theorem raised_sure (x : Run ω α) : (sure x).raised = Raising.sure x := by
  refine ExceptT.ext ?_
  rw [run_raised, sure, ExceptT.run_lift, Functor.map_map, Raising.sure, ExceptT.run_lift]
  rfl

@[simp] theorem raised_bind (x : Eval ω α) (f : α → Eval ω β) :
    (x >>= f).raised = x.raised >>= fun a => (f a).raised := by
  refine ExceptT.ext ?_
  rw [run_raised, ExceptT.run_bind, ExceptT.run_bind, map_bind, run_raised, bind_map_left]
  refine bind_congr fun r => ?_
  cases r with
  | error e => rfl
  | ok a => rfl

@[simp] theorem raised_map (g : α → β) (x : Eval ω α) : (g <$> x).raised = g <$> x.raised := by
  rw [map_eq_pure_bind, map_eq_pure_bind, raised_bind]
  rfl

@[simp] theorem raised_ite (p : Prop) [Decidable p] (x y : Eval ω α) :
    (if p then x else y).raised = if p then x.raised else y.raised := by
  split <;> rfl

/-- A link that signals a cut, where it would answer nothing. -/
def cutting (x : Eval ω (Option Value)) : Raising ω Value := do
  match ← x.raised with
  | some v => return v
  | none => throw .cut

@[simp] theorem cutting_none : (pure none : Eval ω (Option Value)).cutting = throw .cut := rfl

@[simp] theorem cutting_pure_some (v : Value) :
    (pure (some v) : Eval ω (Option Value)).cutting = pure v := rfl

@[simp] theorem cutting_bind (x : Eval ω α) (f : α → Eval ω (Option Value)) :
    (x >>= f).cutting = x.raised >>= fun a => (f a).cutting := by
  rw [cutting, raised_bind, bind_assoc]
  rfl

@[simp] theorem cutting_some (x : Eval ω Value) : (some <$> x).cutting = x.raised := by
  rw [map_eq_pure_bind, cutting_bind]
  exact bind_pure _

@[simp] theorem cutting_ite (p : Prop) [Decidable p] (x y : Eval ω (Option Value)) :
    (if p then x else y).cutting = if p then x.cutting else y.cutting := by
  split <;> rfl

@[simp] theorem cutting_guarded (opt : Bool) (v : Value) (rest : Eval ω Value) :
    (guarded opt v rest).cutting = Raising.guarded opt v rest.raised := by
  rw [guarded, cutting_ite, cutting_none, cutting_some, Raising.guarded]

end Eval

/-- An evaluator whose calls cut no chain. -/
def Caller.raising (c : Caller ω) : Raising.Caller ω :=
  ⟨c.host, fun f args => (c.call f args).raised⟩

namespace Raising

theorem sure_map (g : α → β) (x : Run ω α) : sure (g <$> x) = g <$> sure x := by
  refine ExceptT.ext ?_
  rw [sure, sure, ExceptT.run_map, ExceptT.run_lift, ExceptT.run_lift, Functor.map_map,
    Functor.map_map]
  rfl

theorem run_tryCatch (x : Raising ω α) (f : Signal → Raising ω α) :
    (tryCatch x f).run = x.run >>= fun r => match r with
      | .ok a => pure (.ok a)
      | .error s => (f s).run := by
  simp only [tryCatch, tryCatchThe, MonadExceptOf.tryCatch, ExceptT.tryCatch, ExceptT.run_mk]
  refine bind_congr fun r => ?_
  cases r <;> rfl

/-- The end of a chain makes of a cut what the value of a chain is. -/
theorem ended_cutting {e : Expr} {x : Eval ω (Option Value)} (hx : e.isChain = false → x.Whole) :
    ended e x.cutting = (chainValue x).raised := by
  cases he : e.isChain with
  | false =>
    -- nothing is caught here, and nothing is raised
    rw [hx he, ended, he, Eval.cutting_some, chainValue_some]
    rfl
  | true =>
    rw [ended, he, if_pos rfl]
    refine ExceptT.ext ?_
    rw [run_tryCatch, Eval.cutting, chainValue, Eval.raised_bind, ExceptT.run_bind,
      ExceptT.run_bind, bind_assoc, Eval.run_raised, bind_map_left, bind_map_left]
    refine bind_congr fun r => ?_
    rcases r with err | _ | v <;> rfl

/-! ### Replacing parts of values -/

theorem setMember_raised (v : Value) (name : Text) (f : Value → Eval ω (Value × Value)) :
    setMember v name (fun w => (f w).raised) = (Reactive.setMember v name f).raised := by
  cases v <;> simp [setMember, Reactive.setMember]

theorem setItemAt_raised (v key : Value) (f : Value → Eval ω (Value × Value)) :
    setItemAt v key (fun w => (f w).raised) = (Reactive.setItemAt v key f).raised := by
  cases v with
  | list vs =>
    simp only [setItemAt, Reactive.setItemAt]
    cases indexOf? key <;> simp
  | _ =>
    simp only [setItemAt, Reactive.setItemAt]
    exact setMember_raised _ _ f

/-! ### Expressions and statements -/

/-- The value of an expression, if its link signals a cut where it answers nothing. -/
theorem ended_of_link {c : Reactive.Caller ω} {env : Nat} {e : Expr}
    (h : link c.raising env e = (Reactive.link c env e).cutting) :
    ended e (link c.raising env e) = (chainValue (Reactive.link c env e)).raised := by
  rw [h, ended_cutting Expr.whole_link]

/-- One link of a chain. -/
theorem cutting_follow (x : Eval ω (Option Value)) (opt : Bool) (rest : Value → Eval ω Value) :
    (follow x opt rest).cutting = x.cutting >>= fun v => guarded opt v (rest v).raised := by
  rw [follow, Eval.cutting_bind, Eval.cutting, bind_assoc]
  refine bind_congr fun o => ?_
  cases o with
  | none => rfl
  | some v => rw [pure_bind, Eval.cutting_guarded]

section

variable (c : Reactive.Caller ω)

mutual

theorem link_eq : ∀ (env : Nat) (e : Expr),
    link c.raising env e = (Reactive.link c env e).cutting
  | env, .literal _ v => by
    rw [link, Reactive.link]
    rfl
  | env, .ident _ n => by
    rw [link, Reactive.link, Eval.cutting_some]
    rfl
  | env, .template _ quasis es => by
    rw [link, Reactive.link, templateText_eq env quasis es, Eval.cutting_bind]
    rfl
  | env, .array _ es => by
    rw [link, Reactive.link, elements_eq env es, Eval.cutting_bind]
    rfl
  | env, .object _ ps => by
    rw [link, Reactive.link, properties_eq env [] ps, Eval.cutting_bind]
    rfl
  | env, .spread _ _ => by
    rw [link, Reactive.link]
    rfl
  | env, .member _ o name opt => by
    rw [link, link_member, link_eq env o, cutting_follow]
  | env, .index _ o k opt => by
    -- the object is a link of this chain, the index is at the end of its own
    rw [link, link_index, link_eq env o, ended_of_link (link_eq env k), cutting_follow]
    simp only [Eval.raised_bind]
    rfl
  | env, .call _ f args opt => by
    rw [link, link_call, link_eq env f, elements_eq env args, cutting_follow]
    simp only [Eval.raised_bind]
    rfl
  | env, .unary _ op e => by
    rw [link, Reactive.link, ended_of_link (link_eq env e), Eval.cutting_bind, Eval.raised_sure,
      Eval.run_raised, sure_map, bind_map_left]
    refine bind_congr fun r => ?_
    cases r with
    | ok v => rfl
    | error err =>
      dsimp only [Except.mapError]
      rw [Eval.cutting_ite]
      rfl
  | env, .binary _ op l r => by
    rw [link, Reactive.link, ended_of_link (link_eq env l), ended_of_link (link_eq env r)]
    simp
  | env, .conditional _ t y n => by
    rw [link, Reactive.link, ended_of_link (link_eq env t), ended_of_link (link_eq env y),
      ended_of_link (link_eq env n)]
    simp
  | env, .arrow _ params body => by
    rw [link, Reactive.link, Eval.cutting_bind, Eval.raised_sure]
    rfl
  | env, .assign _ .set t v => by
    rw [link, Reactive.link, ended_of_link (link_eq env v), Eval.cutting_bind]
    refine bind_congr fun new => ?_
    rw [Eval.cutting_some]
    exact update_eq env t fun _ => return (new, new)
  | env, .assign _ (.update bop) t v => by
    rw [link, Reactive.link, ended_of_link (link_eq env t), ended_of_link (link_eq env v)]
    -- a short-circuit assignment writes a value it has, any other one evaluates it meanwhile
    have hset : ∀ new : Value, update c.raising env t (fun _ => return (new, new)) =
        (Reactive.update c env t fun _ => return (new, new)).raised :=
      fun new => update_eq env t fun _ => return (new, new)
    have hcompound := update_eq env t fun old => do
      let right ← chainValue (Reactive.link c env v)
      let new ← ofOutcome (bop.apply old right)
      return (new, new)
    simp only [Eval.raised_bind, Eval.raised_pure] at hcompound
    simp only [hset, hcompound, Eval.cutting_ite, Eval.cutting_bind, Eval.cutting_some,
      Eval.cutting_pure_some]
  | env, .step _ op before t => by
    rw [link, Reactive.link, Eval.cutting_some]
    exact update_eq env t fun old => return ((op.apply old).2, _)

theorem update_eq : ∀ (env : Nat) (t : Expr) (f : Value → Eval ω (Value × Value)),
    update c.raising env t (fun v => (f v).raised) = (Reactive.update c env t f).raised
  | env, .ident _ name, f => by
    rw [update, Reactive.update]
    simp only [Eval.raised_bind, Eval.raised_get, Eval.raised_pure]
    rfl
  | env, .member _ o name _, f => by
    rw [update, Reactive.update, ← update_eq env o]
    simp only [setMember_raised]
  | env, .index _ o k _, f => by
    rw [update, Reactive.update, ended_of_link (link_eq env k), Eval.raised_bind]
    refine bind_congr fun key => ?_
    rw [← update_eq env o]
    simp only [setItemAt_raised]
  | _, .literal .., _ | _, .template .., _ | _, .array .., _ | _, .object .., _
  | _, .spread .., _ | _, .call .., _ | _, .unary .., _ | _, .binary .., _
  | _, .conditional .., _ | _, .arrow .., _ | _, .assign .., _ | _, .step .., _ => rfl

theorem templateText_eq : ∀ (env : Nat) (quasis : List Text) (es : List Expr),
    templateText c.raising env quasis es = (Reactive.templateText c env quasis es).raised
  | env, quasis, [] => by
    rw [templateText, Reactive.templateText]
    rfl
  | env, [], e :: r => by
    rw [templateText, Reactive.templateText]
    rfl
  | env, q :: qs, e :: r => by
    rw [templateText, Reactive.templateText, ended_of_link (link_eq env e),
      templateText_eq env qs r]
    simp

theorem elements_eq : ∀ (env : Nat) (es : List Expr),
    elements c.raising env es = (Reactive.elements c env es).raised
  | env, [] => by
    rw [elements, Reactive.elements]
    rfl
  | env, e :: r => by
    have hone := ended_of_link (link_eq env e)
    cases e with
    | spread _ a =>
      rw [elements, Reactive.elements, ended_of_link (link_eq env a), elements_eq env r,
        Eval.raised_bind]
      refine bind_congr fun v => ?_
      cases v with
      | list vs =>
        rw [Eval.raised_bind]
        rfl
      | _ => rfl
    | _ =>
      rw [elements, Reactive.elements, hone, elements_eq env r]
      · simp only [Eval.raised_bind, Eval.raised_pure]
      all_goals exact fun _ _ e => by cases e

theorem properties_eq : ∀ (env : Nat) (acc : List (Text × Value)) (ps : List Property),
    properties c.raising env acc ps = (Reactive.properties c env acc ps).raised
  | env, acc, [] => by
    rw [properties, Reactive.properties]
    rfl
  | env, acc, .mk k e _ :: r => by
    rw [properties, Reactive.properties, ended_of_link (link_eq env e), Eval.raised_bind]
    exact bind_congr fun v => properties_eq env (Dict.insert acc k v) r

theorem statements_eq : ∀ (env : Nat) (ss : List Stmt),
    statements c.raising env ss = (Reactive.statements c env ss).raised
  | env, [] => by
    rw [statements, Reactive.statements]
    rfl
  | env, s :: r => by
    have hone := statement_eq env s
    have hrest := statements_eq env r
    cases s with
    | func =>
      rw [statements, Reactive.statements]
      exact hrest
    | _ =>
      rw [statements, Reactive.statements, hone, Eval.raised_bind]
      · refine bind_congr fun o => ?_
        cases o with
        | none => exact hrest
        | some v => rfl
      all_goals exact fun _ _ _ _ _ _ e => by cases e

theorem statement_eq : ∀ (env : Nat) (s : Stmt),
    statement c.raising env s = (Reactive.statement c env s).raised
  | env, .expr _ e => by
    -- the value is dropped, so it makes no difference that the chain was not ended before
    rw [statement, Reactive.statement, ended_of_link (link_eq env e), ← Eval.raised_pure,
      chainValue]
    simp only [Eval.raised_bind, bind_assoc, Eval.raised_pure, pure_bind]
  | env, .decl _ kind name none _ => by
    rw [statement, Reactive.statement]
    simp only [Eval.raised_bind, Eval.raised_ite, Eval.raised_sure, Eval.raised_pure]
  | env, .decl _ kind name (some e) _ => by
    rw [statement, Reactive.statement, ended_of_link (link_eq env e)]
    simp only [Eval.raised_bind, Eval.raised_ite, Eval.raised_sure, Eval.raised_pure]
  | env, .cond _ test yes no => by
    rw [statement, Reactive.statement, ended_of_link (link_eq env test)]
    simp only [Eval.raised_bind, Eval.raised_ite, Eval.raised_sure]
    refine bind_congr fun t => bind_congr fun inner => ?_
    rw [statements_eq inner yes, statements_eq inner no]
  | env, .ret _ none => by
    rw [statement, Reactive.statement]
    rfl
  | env, .ret _ (some e) => by
    rw [statement, Reactive.statement, ended_of_link (link_eq env e), Eval.raised_map]
  | env, .func _ name params body _ _ => by
    rw [statement, Reactive.statement]
    simp only [Eval.raised_bind, Eval.raised_sure, Eval.raised_pure]
  | env, .labeled _ _ s => by
    rw [statement, Reactive.statement]
    exact statement_eq env s

end

/-- An expression, if calls cut no chain. -/
theorem value_eq (env : Nat) (e : Expr) : value c.raising env e = (eval c env e).raised :=
  ended_of_link (link_eq c env e)

/-- A program, if calls cut no chain. -/
theorem exec_eq (env : Nat) (ss : List Stmt) :
    exec c.raising env ss = (Reactive.exec c env ss).raised := by
  rw [exec, Reactive.exec, statements_eq]
  simp only [Eval.raised_bind, Eval.raised_sure, Eval.raised_pure]

end

/-! ### Calls -/

section

variable (call : Func → List Value → Eval ω Value)

theorem mapItems_eq (f : Func) (i : Nat) (vs : List Value) :
    mapItems (fun f args => (call f args).raised) f i vs = (Callback.map call f i vs).raised := by
  induction vs generalizing i with
  | nil => rfl
  | cons v r ih =>
    rw [mapItems, Callback.map]
    simp only [Eval.raised_bind, Eval.raised_pure, ih]

theorem filterItems_eq (f : Func) (i : Nat) (vs : List Value) :
    filterItems (fun f args => (call f args).raised) f i vs =
      (Callback.filter call f i vs).raised := by
  induction vs generalizing i with
  | nil => rfl
  | cons v r ih =>
    rw [filterItems, Callback.filter]
    simp only [Eval.raised_bind, Eval.raised_pure, ih]

theorem findItem_eq (f : Func) (i : Nat) (vs : List Value) :
    findItem (fun f args => (call f args).raised) f i vs =
      (Callback.find? call f i vs).raised := by
  induction vs generalizing i with
  | nil => rfl
  | cons v r ih =>
    rw [findItem, Callback.find?]
    simp only [Eval.raised_bind, Eval.raised_pure, Eval.raised_ite, ih]

theorem allItems_eq (f : Func) (i : Nat) (vs : List Value) :
    allItems (fun f args => (call f args).raised) f i vs = (Callback.all call f i vs).raised := by
  induction vs generalizing i with
  | nil => rfl
  | cons v r ih =>
    rw [allItems, Callback.all]
    simp only [Eval.raised_bind, Eval.raised_pure, Eval.raised_ite, ih]

theorem foldItems_eq (f : Func) (acc : Value) (i : Nat) (vs : List Value) :
    foldItems (fun f args => (call f args).raised) f acc i vs =
      (Callback.fold call f acc i vs).raised := by
  induction vs generalizing acc i with
  | nil => rfl
  | cons v r ih =>
    rw [foldItems, Callback.fold]
    simp only [Eval.raised_bind, ih]

/-- Comparisons that go the same way, with the first failure, or the signal it raises, on the
side. -/
def comparisons : MonadRel (StateT (Option EvalError) (Run ω)) (StateT (Option Signal) (Run ω))
    where
  rel Q x y := ∀ seen m,
    match x.run seen m with
    | .error h => y.run (seen.map .failed) m = .error h
    | .ok ((a, seen'), m') =>
      ∃ b, y.run (seen.map .failed) m = .ok ((b, seen'.map .failed), m') ∧ Q a b
  pure {_ _ _ b} hab _ _ := ⟨b, rfl, hab⟩
  bind := by
    intro α β Q Q' x y f f' hx hf seen m
    have hxy := hx seen m
    rw [StateT.run_bind, StateT.run_bind, Run.bind_apply, Run.bind_apply]
    cases hr : x.run seen m with
    | error h =>
      rw [hr] at hxy
      rw [hxy]
    | ok p =>
      obtain ⟨⟨a, seen'⟩, m'⟩ := p
      rw [hr] at hxy
      obtain ⟨b, hy, hab⟩ := hxy
      rw [hy]
      exact hf a b hab seen' m'

theorem less_apply (call : Func → List Value → Raising ω Value) (f : Func) (a b : Value)
    (seen : Option Signal) (m : Machine ω) :
    (less call f a b).run seen m = match (call f [a, b]).run m with
      | .ok (.ok v, m') => .ok ((decide (v.toNumber < 0), seen), m')
      | .ok (.error s, m') => .ok ((false, seen.or (some s)), m')
      | .error h => .error h := by
  unfold less
  rw [StateT.run_bind, Run.bind_apply, StateT.run_monadLift, monadLift_self, bind_pure_comp,
    Run.map_apply]
  rcases (call f [a, b]).run m with h | ⟨s | v, m'⟩ <;> rfl

theorem less_eq (f : Func) (a b : Value) :
    comparisons.rel Eq (Callback.less call f a b)
      (less (fun f args => (call f args).raised) f a b) := by
  intro seen m
  rw [StateT.run, Twin.less_apply, less_apply, Eval.run_raised, Run.map_apply]
  rcases (call f [a, b]).run m with h | ⟨err | v, m'⟩
  · rfl
  · refine ⟨false, ?_, rfl⟩
    cases seen <;> rfl
  · exact ⟨_, rfl, rfl⟩

/-- Sorts by one callback, with the first failure or the signal it raises on the side. -/
theorem sort_eq (f : Func) (vs : List Value) :
    (Sort.sort (less (fun f args => (call f args).raised) f) vs).run none =
      (fun p => (p.1, p.2.map .failed)) <$> (Sort.sort (Callback.less call f) vs).run none := by
  have hless : ∀ a b a' b', a = a' → b = b' → comparisons.rel Eq (Callback.less call f a b)
      (less (fun f args => (call f args).raised) f a' b') := by
    rintro a b _ _ rfl rfl
    exact less_eq call f a b
  have hsort : comparisons.rel Eq (Sort.sort (Callback.less call f) vs)
      (Sort.sort (less (fun f args => (call f args).raised) f) vs) :=
    Sort.sort_forall₂ hless (fun as bs h => by rwa [List.forall₂_eq_eq_eq] at h)
      (List.forall₂_same.2 fun _ _ => rfl)
  funext m
  have hm := hsort none m
  rw [Run.map_apply]
  rcases hr : (Sort.sort (Callback.less call f) vs).run none m with h | ⟨⟨sorted, seen⟩, m'⟩
  · rw [hr] at hm
    exact hm
  · rw [hr] at hm
    obtain ⟨_, hm, rfl⟩ := hm
    exact hm

theorem sortItems_eq (f : Func) (vs : List Value) :
    sortItems (fun f args => (call f args).raised) f vs =
      (Callback.sort call (.func f) vs).raised := by
  rw [sortItems, Callback.sort, sort_eq, sure_map, bind_map_left, Eval.raised_bind,
    Eval.raised_sure]
  refine bind_congr fun p => ?_
  obtain ⟨sorted, seen⟩ := p
  cases seen <;> rfl

theorem listMethod_eq (m : ListMethod) (vs args : List Value) :
    listMethod (fun f args => (call f args).raised) m vs args = (m.apply call vs args).raised := by
  cases harg : argument args 0 with
  | func f =>
    cases m with
    | map | filter | find | any | every | forEach =>
      simp only [listMethod, ListMethod.apply, harg, mapItems_eq, filterItems_eq, findItem_eq,
        allItems_eq, Eval.raised_bind, Eval.raised_pure, pure_bind]
    | findIndex =>
      simp only [listMethod, ListMethod.apply, harg, findItem_eq, Eval.raised_bind,
        pure_bind]
      refine bind_congr fun found => ?_
      rcases found with _ | ⟨i, v⟩ <;> rfl
    | reduce =>
      simp only [listMethod, ListMethod.apply, harg, pure_bind, foldItems_eq]
      rcases args with _ | ⟨a, _ | ⟨start, r⟩⟩
      · cases harg
      · cases vs <;> rfl
      · rfl
    | sort =>
      simp only [listMethod, ListMethod.apply, harg, sortItems_eq, Eval.raised_bind,
        Eval.raised_pure]
    | _ => rfl
  | _ =>
    -- there is nothing to call
    cases m <;> simp only [listMethod, ListMethod.apply, harg] <;> rfl

theorem callWith_eq (h : Host ω) (f : Func) (args : List Value) :
    callWith h (fun f args => (call f args).raised) f args =
      (Reactive.callWith h call f args).raised := by
  unfold callWith Reactive.callWith
  cases f.code with
  | listMethod vs m => exact listMethod_eq call m vs args
  | closure params body scope =>
    simp only [Eval.raised_bind, Eval.raised_sure]
    refine bind_congr fun env => ?_
    cases body with
    | expr e => exact value_eq ⟨h, call⟩ env e
    | block ss => exact exec_eq ⟨h, call⟩ env ss
  | _ => rfl

end

/-- Calls cut no chain. -/
theorem call_eq (h : Host ω) (depth : Nat) :
    call h depth = fun f args => (Reactive.call h depth f args).raised := by
  induction depth with
  | zero =>
    funext f args
    exact (Eval.raised_sure _).symm
  | succ depth ih =>
    funext f args
    rw [call, ih]
    exact callWith_eq _ h f args

/-- An expression raises what its evaluation fails with. -/
theorem eval_eq (h : Host ω) (depth env : Nat) (e : Expr) :
    value ⟨h, call h depth⟩ env e = (eval ⟨h, Reactive.call h depth⟩ env e).raised := by
  rw [call_eq]
  exact value_eq ⟨h, Reactive.call h depth⟩ env e

end Raising

/-- A computation that cuts no chain raises no cut. -/
theorem Eval.raised_ne_cut (x : Eval ω α) (m m' : Machine ω) :
    x.raised.run m ≠ .ok (.error .cut, m') := by
  rw [run_raised, Run.map_apply]
  rcases x.run m with h | ⟨err | a, m₁⟩ <;> simp [Except.mapError]

/-! ### Optional chains -/

/-- **An optional link cuts its whole chain, and nothing sees the cut but the chain.**  A chain
that gets to an optional link with a nullish value is undefined, and the machine is left as that
value left it, whatever else the chain names: no later index expression or argument is evaluated.
Any other chain does what its plain form does, up to the text of a callee that is no function.  And
with a signal for the cut, no expression raises it. -/
theorem optional_chain (h : Host ω) (depth env : Nat) (e : Expr) (m : Machine ω) :
    (∀ m', e.CutAt ⟨h, call h depth⟩ env m m' →
      (eval ⟨h, call h depth⟩ env e).Answers m .undefined m') ∧
    ((∀ m', ¬e.CutAt ⟨h, call h depth⟩ env m m') →
      Requoted e.callees ((eval ⟨h, call h depth⟩ env e).run m)
        ((eval ⟨h, call h depth⟩ env e.plain).run m)) ∧
    Raising.value ⟨h, Raising.call h depth⟩ env e = (eval ⟨h, call h depth⟩ env e).raised ∧
    ∀ m', (Raising.value ⟨h, Raising.call h depth⟩ env e).run m ≠ .ok (.error .cut, m') := by
  refine ⟨fun m' hcut => ?_, fun huncut => ?_, Raising.eval_eq h depth env e, fun m' => ?_⟩
  · rw [eval, chainValue, Eval.answers_bind]
    exact ⟨none, m', hcut.answers, by simp⟩
  · exact (Expr.requoted_plain huncut).bind fun _ _ _ => .same _
  · rw [Raising.eval_eq]
    exact Eval.raised_ne_cut _ m m'

/-- A store with nothing under one name and an object under another. -/
def drawers : Machine (Dict Value) :=
  Machine.start (.host .writable) [("a", .null), ("b", .map [("c", .int 1)])]

theorem drawers_object {v : Value} {m : Machine (Dict Value)}
    (hv : (eval ⟨dictHost, call dictHost 0⟩ 0 (.ident 0 "b")).Answers drawers v m) :
    v.isNullish = false := by
  have hb : (eval ⟨dictHost, call dictHost 0⟩ 0 (.ident 0 "b")).Answers drawers
      (.map [("c", .int 1)]) drawers := by
    with_unfolding_all rfl
  have heq := hv.symm.trans hb
  simp only [Except.ok.injEq, Prod.mk.injEq] at heq
  rw [heq.1]
  rfl

/-- `a?.c[k]` over that store, where `k` is not defined, and `b?.c`. -/
theorem optional_chain_drawers :
    let c : Caller (Dict Value) := ⟨dictHost, call dictHost 0⟩
    let cut : Expr := .index 0 (.member 0 (.ident 0 "a") "c" true) (.ident 0 "k") false
    let uncut : Expr := .member 0 (.ident 0 "b") "c" true
    cut.CutAt c 0 drawers drawers ∧ (eval c 0 cut).Answers drawers .undefined drawers ∧
      (∀ m, ¬uncut.CutAt c 0 drawers m) ∧
      Requoted uncut.callees ((eval c 0 uncut).run drawers) ((eval c 0 uncut.plain).run drawers) := by
  intro c cut uncut
  have hcut : cut.CutAt c 0 drawers drawers := by
    have ha : (eval c 0 (.ident 0 "a")).Answers drawers .null drawers := by
      with_unfolding_all rfl
    exact ⟨.ident 0 "a", .head _, .null, ha, rfl⟩
  have huncut : ∀ m, ¬uncut.CutAt c 0 drawers m := by
    rintro m ⟨o, ho, v, hv, hnull⟩
    cases List.mem_singleton.1 ho
    exact absurd hnull (by simp [drawers_object hv])
  exact ⟨hcut, (optional_chain dictHost 0 0 cut drawers).1 _ hcut, huncut,
    (optional_chain dictHost 0 0 uncut drawers).2.1 huncut⟩

/-- The failure of a call quotes the callee with its optional links: `b?.c()` over that store. -/
theorem callee_quoted_as_written :
    let c : Caller (Dict Value) := ⟨dictHost, call dictHost 0⟩
    let e : Expr := .call 0 (.member 0 (.ident 0 "b") "c" true) [] false
    (∀ m, ¬e.CutAt c 0 drawers m) ∧ (eval c 0 e).run drawers ≠ (eval c 0 e.plain).run drawers := by
  intro c e
  have huncut : ∀ m, ¬e.CutAt c 0 drawers m := by
    rintro m ⟨o, ho, v, hv, hnull⟩
    cases List.mem_singleton.1 ho
    exact absurd hnull (by simp [drawers_object hv])
  have hwritten : (eval c 0 e).run drawers = .ok (.error (.notFunction "b?.c"), drawers) := by
    with_unfolding_all rfl
  have hplain : (eval c 0 e.plain).run drawers = .ok (.error (.notFunction "b.c"), drawers) := by
    with_unfolding_all rfl
  have htexts : ("b?.c" : Text) ≠ "b.c" := by decide
  refine ⟨huncut, ?_⟩
  rw [hwritten, hplain]
  simpa using htexts

end Reactive
