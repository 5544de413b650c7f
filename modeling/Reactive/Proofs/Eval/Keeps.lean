/-
What an evaluation keeps.

An evaluation makes scopes and functions and writes to the log; the host it
runs over changes only by the writes of the host itself.  So a relation
between the machine before and the machine after that allows all of this holds
of every evaluation, whatever program is evaluated.

* `Keeping` — a computation that keeps a relation;
* `Host.Allows` — what a relation has to allow;
* `Host.Allows.keeping_eval`, `Host.Allows.keeping_exec` — every evaluation
  keeps it.
-/
import Reactive.Eval.Interp
import Reactive.Proofs.Eval.Calls
import Reactive.Proofs.Run

namespace Reactive

variable {ω α β : Type}

/-- A computation after which the machine is related to the one before; it stops without an answer
only for a reason that `E` allows. -/
def Keeping (E : Halt → Prop) (K : Machine ω → Machine ω → Prop) (x : Run ω α) : Prop :=
  ∀ m, Run.After E x (fun _ m' => K m m') m

/-- What a relation has to allow so that evaluations over a host keep it. -/
structure Host.Allows (h : Host ω) (E : Halt → Prop) (K : Machine ω → Machine ω → Prop) :
    Prop where
  fuel : E .outOfFuel
  same : ∀ {m m' : Machine ω}, m'.host = m.host → K m m'
  trans : ∀ {m m' m'' : Machine ω}, K m m' → K m' m'' → K m m''
  write : ∀ name v, Keeping E K (h.write name v).run

namespace Host.Allows

variable {h : Host ω} {E : Halt → Prop} {K : Machine ω → Machine ω → Prop}

/-! ### Sequences -/

theorem keeping_pure (hK : h.Allows E K) (a : α) : Keeping E K (pure a : Run ω α) :=
  fun _ => hK.same rfl

/-- A step on the machine that leaves the host alone. -/
theorem keeping_step (hK : h.Allows E K) {x : Run ω α}
    (hx : ∀ m, ∃ a m', x m = .ok (a, m') ∧ m'.host = m.host) : Keeping E K x := by
  intro m
  obtain ⟨a, m', hrun, hhost⟩ := hx m
  exact (Run.after_of_ok hrun).2 (hK.same hhost)

theorem keeping_bind (hK : h.Allows E K) {x : Run ω α} {f : α → Run ω β} (hx : Keeping E K x)
    (hf : ∀ a, Keeping E K (f a)) : Keeping E K (x >>= f) := by
  intro m
  refine (hx m).bind fun a m' hm => ?_
  exact (hf a m').mono fun _ _ hm' => hK.trans hm hm'

theorem keeping_map (hK : h.Allows E K) {x : Run ω α} (f : α → β) (hx : Keeping E K x) :
    Keeping E K (f <$> x) := by
  rw [map_eq_pure_bind]
  exact hK.keeping_bind hx fun a => hK.keeping_pure (f a)

/-- Computations that may fail, one after another. -/
theorem seq (hK : h.Allows E K) {x : Eval ω α} {f : α → Eval ω β} (hx : Keeping E K x.run)
    (hf : ∀ a, Keeping E K (f a).run) : Keeping E K (x >>= f).run := by
  rw [ExceptT.run_bind]
  refine hK.keeping_bind hx fun r => ?_
  cases r with
  | error e => exact hK.keeping_pure _
  | ok a => exact hf a

theorem mapped (hK : h.Allows E K) {x : Eval ω α} (f : α → β) (hx : Keeping E K x.run) :
    Keeping E K (f <$> x).run := by
  rw [map_eq_pure_bind]
  exact hK.seq hx fun a => hK.keeping_pure (Except.ok (f a))

theorem ret (hK : h.Allows E K) (a : α) : Keeping E K (pure a : Eval ω α).run :=
  hK.keeping_pure (Except.ok a)

theorem fail (hK : h.Allows E K) (e : EvalError) :
    Keeping E K (throw e : Eval ω α).run :=
  hK.keeping_pure (Except.error e)

theorem lift (hK : h.Allows E K) {x : Run ω α} (hx : Keeping E K x) :
    Keeping E K (sure x).run :=
  hK.keeping_map Except.ok hx

/-- The machine as it is. -/
theorem look (hK : h.Allows E K) {f : Machine ω → Eval ω α} (hf : ∀ m, Keeping E K (f m).run) :
    Keeping E K (get >>= f : Eval ω α).run :=
  hK.seq (fun _ => hK.same rfl) hf

theorem outcome (hK : h.Allows E K) (r : Except EvalError α) :
    Keeping E K (ofOutcome r : Eval ω α).run := by
  cases r with
  | ok a => exact hK.ret a
  | error e => exact hK.fail e

/-! ### Steps -/

theorem newScope (hK : h.Allows E K) (outer : Outer) (vars : Dict Value) :
    Keeping E K (Reactive.newScope outer vars) :=
  hK.keeping_step fun _ => ⟨_, _, rfl, rfl⟩

theorem newFunc (hK : h.Allows E K) (name : Text) (code : Code) :
    Keeping E K (Reactive.newFunc name code) :=
  hK.keeping_step fun _ => ⟨_, _, rfl, rfl⟩

theorem modifyScope (hK : h.Allows E K) (id : Nat) (f : Scope → Scope) :
    Keeping E K (Reactive.modifyScope id f) :=
  hK.keeping_step fun _ => ⟨_, _, rfl, rfl⟩

theorem writeLog (hK : h.Allows E K) (voice : Voice) (t : Text) :
    Keeping E K (Reactive.writeLog voice t) :=
  hK.keeping_step fun _ => ⟨_, _, rfl, rfl⟩

theorem storeWrite (hK : h.Allows E K) (s : Store) (name : Text) (v : Value) :
    Keeping E K (s.write h name v).run := by
  cases s with
  | empty => exact hK.fail _
  | snapshot values => exact hK.fail _
  | host access =>
    cases access with
    | writable => exact hK.write name v
    | rendering => exact hK.fail _
    | derived => exact hK.fail _

theorem assign (hK : h.Allows E K) (id : Nat) (name : Text) (v : Value) :
    Keeping E K (Reactive.assign h id name v).run := by
  refine hK.look fun m => ?_
  cases m.binding h id name with
  | none => exact hK.fail _
  | some place =>
    cases place with
    | scope s const =>
      cases const with
      | true => exact hK.fail _
      | false => exact hK.lift (hK.modifyScope s _)
    | store st => exact hK.storeWrite st name v

theorem resolve (hK : h.Allows E K) (env : Nat) (name : Text) :
    Keeping E K (Reactive.resolve h env name).run := by
  refine hK.look fun m => ?_
  cases m.lookup h env name with
  | some v => exact hK.ret v
  | none =>
    dsimp only
    split
    · exact hK.ret _
    · exact hK.fail _

theorem chain (hK : h.Allows E K) {x : Eval ω (Option Value)} (hx : Keeping E K x.run) :
    Keeping E K (chainValue x).run :=
  hK.seq hx fun _ => hK.ret _

theorem guarded (hK : h.Allows E K) (optional : Bool) (v : Value) {rest : Eval ω Value}
    (hrest : Keeping E K rest.run) : Keeping E K (Reactive.guarded optional v rest).run := by
  unfold Reactive.guarded
  split
  · exact hK.ret none
  · exact hK.mapped some hrest

theorem asFunction (hK : h.Allows E K) (source : Text) (v : Value) :
    Keeping E K (Reactive.asFunction source v : Eval ω Func).run := by
  unfold Reactive.asFunction
  split
  · exact hK.ret _
  · exact hK.fail _

theorem setMember (hK : h.Allows E K) (v : Value) (name : Text)
    {f : Value → Eval ω (Value × Value)} (hf : ∀ w, Keeping E K (f w).run) :
    Keeping E K (Reactive.setMember v name f).run := by
  unfold Reactive.setMember
  split
  · exact hK.seq (hf _) fun _ => hK.ret _
  · exact hK.fail _
  · exact hK.fail _
  · exact hK.fail _

theorem setItemAt (hK : h.Allows E K) (v key : Value) {f : Value → Eval ω (Value × Value)}
    (hf : ∀ w, Keeping E K (f w).run) : Keeping E K (Reactive.setItemAt v key f).run := by
  unfold Reactive.setItemAt
  split
  · split
    · exact hK.seq (hf _) fun _ => hK.ret _
    · exact hK.fail _
  · exact hK.setMember _ _ hf

theorem member (hK : h.Allows E K) (v : Value) (name : Text) :
    Keeping E K (Reactive.member v name : Eval ω Value).run := by
  have hbound : ∀ code, Keeping E K (do
      return .func (← sure (Reactive.newFunc name code)) : Eval ω Value).run :=
    fun code => hK.seq (hK.lift (hK.newFunc name code)) fun _ => hK.ret _
  unfold Reactive.member
  split
  · exact hK.ret _
  · split
    · exact hK.ret _
    · split
      · exact hbound _
      · exact hK.ret _
  · split
    · exact hK.ret _
    · split
      · exact hbound _
      · exact hK.ret _
  · split
    · exact hbound _
    · split
      · exact hbound _
      · exact hK.ret _
  · split
    · exact hbound _
    · exact hK.ret _
  · exact hK.fail _
  · exact hK.fail _
  · exact hK.ret _

theorem itemAt (hK : h.Allows E K) (v key : Value) :
    Keeping E K (Reactive.itemAt v key : Eval ω Value).run := by
  unfold Reactive.itemAt
  split
  · exact hK.ret _
  · exact hK.ret _
  · exact hK.member _ _

theorem hoist (hK : h.Allows E K) (env : Nat) (ss : List Stmt) :
    Keeping E K (Reactive.hoist env ss : Run ω Unit) := by
  induction ss with
  | nil => exact hK.keeping_pure ()
  | cons s r ih =>
    cases s with
    | func _ name params body _ _ =>
      refine hK.keeping_bind (hK.newFunc name _) fun f => ?_
      exact hK.keeping_bind (hK.modifyScope env _) fun _ => ih
    | _ => exact ih

/-! ### Functions of lists -/

section

variable {call : Func → List Value → Eval ω Value}

theorem callbackMap (hK : h.Allows E K) (hc : ∀ f args, Keeping E K (call f args).run) (f : Func)
    (vs : List Value) : ∀ i, Keeping E K (Callback.map call f i vs).run := by
  induction vs with
  | nil => exact fun i => hK.ret []
  | cons v r ih =>
    intro i
    exact hK.seq (hc f _) fun _ => hK.seq (ih (i + 1)) fun _ => hK.ret _

theorem callbackFilter (hK : h.Allows E K) (hc : ∀ f args, Keeping E K (call f args).run)
    (f : Func) (vs : List Value) : ∀ i, Keeping E K (Callback.filter call f i vs).run := by
  induction vs with
  | nil => exact fun i => hK.ret []
  | cons v r ih =>
    intro i
    exact hK.seq (hc f _) fun _ => hK.seq (ih (i + 1)) fun _ => hK.ret _

theorem callbackFind (hK : h.Allows E K) (hc : ∀ f args, Keeping E K (call f args).run)
    (f : Func) (vs : List Value) : ∀ i, Keeping E K (Callback.find? call f i vs).run := by
  induction vs with
  | nil => exact fun i => hK.ret none
  | cons v r ih =>
    intro i
    refine hK.seq (hc f _) fun w => ?_
    cases w.truthy with
    | true => exact hK.ret _
    | false => exact ih (i + 1)

theorem callbackAll (hK : h.Allows E K) (hc : ∀ f args, Keeping E K (call f args).run)
    (f : Func) (vs : List Value) : ∀ i, Keeping E K (Callback.all call f i vs).run := by
  induction vs with
  | nil => exact fun i => hK.ret true
  | cons v r ih =>
    intro i
    refine hK.seq (hc f _) fun w => ?_
    cases w.truthy with
    | true => exact ih (i + 1)
    | false => exact hK.ret _

theorem callbackFold (hK : h.Allows E K) (hc : ∀ f args, Keeping E K (call f args).run)
    (f : Func) (vs : List Value) : ∀ acc i, Keeping E K (Callback.fold call f acc i vs).run := by
  induction vs with
  | nil => exact fun acc i => hK.ret acc
  | cons v r ih =>
    intro acc i
    exact hK.seq (hc f _) fun w => ih w (i + 1)

/-- Comparisons that keep the relation; only the first of two computations counts. -/
def comparisons (hK : h.Allows E K) : MonadRel (StateT (Option EvalError) (Run ω))
    (StateT (Option EvalError) (Run ω)) where
  rel Q x _ := ∀ seen m, Run.After E (x.run seen) (fun p m' => (∃ b, Q p.1 b) ∧ K m m') m
  pure hab _ _ := ⟨⟨_, hab⟩, hK.same rfl⟩
  bind := by
    intro α β Q Q' x y f f' hx hf seen m
    show Run.After E (x.run seen >>= fun p => (f p.1).run p.2) _ m
    refine (hx seen m).bind ?_
    rintro p m' ⟨⟨b, hb⟩, hm⟩
    refine (hf p.1 b hb p.2 m').mono ?_
    rintro q m'' ⟨hq, hm'⟩
    exact ⟨hq, hK.trans hm hm'⟩

theorem callbackSort (hK : h.Allows E K) (hc : ∀ f args, Keeping E K (call f args).run)
    (cmp : Value) (vs : List Value) : Keeping E K (Callback.sort call cmp vs).run := by
  have hless : ∀ f a b, ∀ seen m, Run.After E ((Callback.less call f a b).run seen)
      (fun p m' => (∃ b, p.1 = b) ∧ K m m') m := by
    intro f a b seen m
    have hrun := hc f [a, b] m
    unfold Run.After at hrun ⊢
    have happly := Twin.less_apply call f a b seen m
    unfold StateT.run
    rw [happly]
    cases hr : (call f [a, b]).run m with
    | error e =>
      rw [hr] at hrun
      exact hrun
    | ok p =>
      obtain ⟨r, m'⟩ := p
      rw [hr] at hrun
      cases r with
      | ok v => exact ⟨⟨_, rfl⟩, hrun⟩
      | error e => exact ⟨⟨_, rfl⟩, hrun⟩
  unfold Callback.sort
  split
  · rename_i f
    have hsort : Keeping E K ((Sort.sort (Callback.less call f) vs).run none) := by
      intro m
      have hrel : hK.comparisons.rel (fun vs vs' => vs' = vs.map id ∧ ∀ v ∈ vs, True)
          (Sort.sort (Callback.less call f) vs) (Sort.sort (Callback.less call f) (vs.map id)) :=
        Sort.sort_rel (fun a b _ _ => hless f a b) fun _ _ => trivial
      refine (hrel none m).mono ?_
      rintro p m' ⟨-, hm⟩
      exact hm
    refine hK.seq (hK.lift hsort) fun p => ?_
    obtain ⟨sorted, failure⟩ := p
    cases failure with
    | none => exact hK.ret _
    | some e => exact hK.fail e
  · exact hK.ret _

/-- The function that a method of lists is given. -/
theorem callback (hK : h.Allows E K) (v : Value) (e : EvalError) :
    Keeping E K (match v with
      | .func f => pure f
      | _ => throw e : Eval ω Func).run := by
  cases v with
  | func f => exact hK.ret f
  | _ => exact hK.fail e

theorem listMethod (hK : h.Allows E K) (hc : ∀ f args, Keeping E K (call f args).run)
    (method : ListMethod) (vs args : List Value) :
    Keeping E K (method.apply call vs args).run := by
  have hcallback := hK.callback (argument args 0) (.badCallback method.name)
  unfold ListMethod.apply
  cases method with
  | map => exact hK.seq hcallback fun f => hK.seq (hK.callbackMap hc f vs 0) fun _ => hK.ret _
  | filter =>
    exact hK.seq hcallback fun f => hK.seq (hK.callbackFilter hc f vs 0) fun _ => hK.ret _
  | find => exact hK.seq hcallback fun f => hK.seq (hK.callbackFind hc f vs 0) fun _ => hK.ret _
  | findIndex =>
    refine hK.seq hcallback fun f => hK.seq (hK.callbackFind hc f vs 0) fun r => ?_
    cases r <;> exact hK.ret _
  | any => exact hK.seq hcallback fun f => hK.seq (hK.callbackFind hc f vs 0) fun _ => hK.ret _
  | every => exact hK.seq hcallback fun f => hK.seq (hK.callbackAll hc f vs 0) fun _ => hK.ret _
  | forEach =>
    exact hK.seq hcallback fun f => hK.seq (hK.callbackMap hc f vs 0) fun _ => hK.ret _
  | reduce =>
    refine hK.seq hcallback fun f => ?_
    split
    · exact hK.callbackFold hc f vs _ 0
    · cases vs with
      | nil => exact hK.fail _
      | cons v r => exact hK.callbackFold hc f r v 1
  | sort => exact hK.seq (hK.callbackSort hc _ vs) fun _ => hK.ret _
  | _ => exact hK.ret _

end

/-! ### Expressions and statements -/

section

variable {c : Caller ω}

mutual

theorem keeping_link (hK : c.host.Allows E K) (hc : ∀ f args, Keeping E K (c.call f args).run) :
    ∀ (e : Expr) (env : Nat), Keeping E K (link c env e).run
  | .literal _ v, env => hK.ret _
  | .ident _ n, env => hK.mapped some (hK.resolve env n)
  | .template _ quasis es, env => hK.seq (keeping_templateText hK hc es env quasis) fun _ => hK.ret _
  | .array _ es, env => hK.seq (keeping_elements hK hc es env) fun _ => hK.ret _
  | .object _ ps, env => hK.seq (keeping_properties hK hc ps env []) fun _ => hK.ret _
  | .spread _ _, env => hK.fail _
  | .member _ o name opt, env => by
    refine hK.seq (keeping_link hK hc o env) fun r => ?_
    cases r with
    | none => exact hK.ret none
    | some v => exact hK.guarded opt v (hK.member v name)
  | .index _ o k opt, env => by
    refine hK.seq (keeping_link hK hc o env) fun r => ?_
    cases r with
    | none => exact hK.ret none
    | some v =>
      refine hK.guarded opt v ?_
      exact hK.seq (hK.chain (keeping_link hK hc k env)) fun key => hK.itemAt v key
  | .call _ f args opt, env => by
    refine hK.seq (keeping_link hK hc f env) fun r => ?_
    cases r with
    | none => exact hK.ret none
    | some v =>
      refine hK.guarded opt v ?_
      refine hK.seq (hK.asFunction f.text v) fun fn => ?_
      exact hK.seq (keeping_elements hK hc args env) fun vs => hc fn vs
  | .unary _ op e, env => by
    refine hK.seq (hK.lift (hK.chain (keeping_link hK hc e env))) fun r => ?_
    cases r with
    | ok v => exact hK.ret _
    | error err =>
      dsimp only
      split
      · exact hK.ret _
      · exact hK.fail err
  | .binary _ op l r, env => by
    refine hK.seq (hK.chain (keeping_link hK hc l env)) fun a => ?_
    split
    · refine hK.seq (hK.chain (keeping_link hK hc r env)) fun b => ?_
      exact hK.mapped some (hK.outcome _)
    · exact hK.ret _
  | .conditional _ t y n, env => by
    refine hK.seq (hK.chain (keeping_link hK hc t env)) fun a => ?_
    split
    · exact hK.mapped some (hK.chain (keeping_link hK hc y env))
    · exact hK.mapped some (hK.chain (keeping_link hK hc n env))
  | .arrow _ params body, env => hK.seq (hK.lift (hK.newFunc [] _)) fun _ => hK.ret _
  | .assign _ op t v, env => by
    have hset : Keeping E K (do
        let new ← chainValue (link c env v)
        some <$> update c env t fun _ => return (new, new)).run :=
      hK.seq (hK.chain (keeping_link hK hc v env)) fun new =>
        hK.mapped some (keeping_update hK hc t env fun _ => hK.ret _)
    cases op with
    | set => exact hset
    | update bop =>
      rw [link]
      split
      · refine hK.seq (hK.chain (keeping_link hK hc t env)) fun old => ?_
        split
        · exact hset
        · exact hK.ret _
      · refine hK.mapped some (keeping_update hK hc t env fun old => ?_)
        refine hK.seq (hK.chain (keeping_link hK hc v env)) fun right => ?_
        exact hK.seq (hK.outcome _) fun _ => hK.ret _
  | .step _ op before t, env => hK.mapped some (keeping_update hK hc t env fun _ => hK.ret _)

theorem keeping_update (hK : c.host.Allows E K) (hc : ∀ f args, Keeping E K (c.call f args).run) :
    ∀ (t : Expr) (env : Nat) {f : Value → Eval ω (Value × Value)}
    (_ : ∀ v, Keeping E K (f v).run), Keeping E K (update c env t f).run
  | .ident _ name, env, f, hf => by
    refine hK.look fun m => hK.seq (hf _) fun p => ?_
    exact hK.seq (hK.assign env name p.1) fun _ => hK.ret _
  | .member _ o name _, env, f, hf => keeping_update hK hc o env fun v => hK.setMember v name hf
  | .index _ o k _, env, f, hf => by
    refine hK.seq (hK.chain (keeping_link hK hc k env)) fun key => ?_
    exact keeping_update hK hc o env fun v => hK.setItemAt v key hf
  | .literal .., env, f, hf | .template .., env, f, hf | .array .., env, f, hf
  | .object .., env, f, hf | .spread .., env, f, hf | .call .., env, f, hf | .unary .., env, f, hf
  | .binary .., env, f, hf | .conditional .., env, f, hf | .arrow .., env, f, hf
  | .assign .., env, f, hf | .step .., env, f, hf => hK.fail _

theorem keeping_templateText (hK : c.host.Allows E K)
    (hc : ∀ f args, Keeping E K (c.call f args).run) :
    ∀ (es : List Expr) (env : Nat) (quasis : List Text),
      Keeping E K (templateText c env quasis es).run
  | [], env, quasis => hK.ret _
  | e :: r, env, quasis => by
    cases quasis with
    | nil => exact hK.ret _
    | cons q qs =>
      refine hK.seq (hK.chain (keeping_link hK hc e env)) fun v => ?_
      exact hK.seq (keeping_templateText hK hc r env qs) fun _ => hK.ret _

theorem keeping_elements (hK : c.host.Allows E K)
    (hc : ∀ f args, Keeping E K (c.call f args).run) :
    ∀ (es : List Expr) (env : Nat), Keeping E K (elements c env es).run
  | [], env => hK.ret _
  | e :: r, env => by
    have hplain : Keeping E K (do
        let v ← chainValue (link c env e)
        return v :: (← elements c env r)).run :=
      hK.seq (hK.chain (keeping_link hK hc e env)) fun v =>
        hK.seq (keeping_elements hK hc r env) fun _ => hK.ret _
    cases e with
    | spread _ a =>
      refine hK.seq (hK.chain (keeping_link hK hc a env)) fun v => ?_
      cases v with
      | list vs => exact hK.seq (keeping_elements hK hc r env) fun _ => hK.ret _
      | _ => exact hK.fail _
    | _ => exact hplain

theorem keeping_properties (hK : c.host.Allows E K)
    (hc : ∀ f args, Keeping E K (c.call f args).run) :
    ∀ (ps : List Property) (env : Nat) (acc : List (Text × Value)),
      Keeping E K (properties c env acc ps).run
  | [], _, _ => hK.ret _
  | .mk _ e _ :: r, env, _ =>
    hK.seq (hK.chain (keeping_link hK hc e env)) fun _ => keeping_properties hK hc r env _

theorem keeping_statements (hK : c.host.Allows E K)
    (hc : ∀ f args, Keeping E K (c.call f args).run) :
    ∀ (ss : List Stmt) (env : Nat), Keeping E K (statements c env ss).run
  | [], env => hK.ret none
  | s :: r, env => by
    have hplain : Keeping E K (do
        match ← statement c env s with
        | some v => return some v
        | none => statements c env r).run := by
      refine hK.seq (keeping_statement hK hc s env) fun v => ?_
      cases v with
      | some v => exact hK.ret _
      | none => exact keeping_statements hK hc r env
    cases s with
    | func => exact keeping_statements hK hc r env
    | _ => exact hplain

theorem keeping_statement (hK : c.host.Allows E K)
    (hc : ∀ f args, Keeping E K (c.call f args).run) :
    ∀ (s : Stmt) (env : Nat), Keeping E K (statement c env s).run
  | .expr _ e, env => hK.seq (keeping_link hK hc e env) fun _ => hK.ret none
  | .decl _ kind name init _, env => by
    have hrest : ∀ v, Keeping E K (do
        if kind = .const then sure (defineConst env name v)
        else sure (define env name v)
        return none : Eval ω (Option Value)).run := by
      intro v
      split
      · exact hK.seq (hK.lift (hK.modifyScope env _)) fun _ => hK.ret none
      · exact hK.seq (hK.lift (hK.modifyScope env _)) fun _ => hK.ret none
    cases init with
    | none => exact hK.seq (hK.ret _) hrest
    | some e => exact hK.seq (hK.chain (keeping_link hK hc e env)) hrest
  | .cond _ test yes no, env => by
    refine hK.seq (hK.chain (keeping_link hK hc test env)) fun t => ?_
    refine hK.seq (hK.lift (hK.newScope _ _)) fun inner => ?_
    split
    · exact hK.seq (hK.lift (hK.hoist inner yes)) fun _ => keeping_statements hK hc yes inner
    · exact hK.seq (hK.lift (hK.hoist inner no)) fun _ => keeping_statements hK hc no inner
  | .ret _ none, env => hK.ret _
  | .ret _ (some e), env => hK.mapped some (hK.chain (keeping_link hK hc e env))
  | .func _ name params body _ _, env => by
    refine hK.seq (hK.lift (hK.newFunc name _)) fun f => ?_
    exact hK.seq (hK.lift (hK.modifyScope env _)) fun _ => hK.ret none
  | .labeled _ _ s, env => keeping_statement hK hc s env

end

end

/-! ### Calls -/

theorem builtin (hK : h.Allows E K) (b : Builtin) (args : List Value) :
    Keeping E K (b.apply args : Eval ω Value).run := by
  have hresult : Keeping E K (ofOutcome (b.result args) : Eval ω Value).run := hK.outcome _
  rw [b.apply_eq]
  by_cases hlog : b = .log
  · rw [if_pos hlog]
    exact hK.seq (hK.lift (hK.writeLog _ _)) fun _ => hresult
  · rw [if_neg hlog]
    exact hresult

/-- A call keeps what evaluations keep, however deep calls are nested. -/
theorem keeping_call (hK : h.Allows E K) (depth : Nat) :
    ∀ f args, Keeping E K (call h depth f args).run := by
  induction depth with
  | zero => exact fun f args => hK.lift fun m => hK.fuel
  | succ depth ih =>
    intro f args
    have hK' : (Caller.mk h (call h depth)).host.Allows E K := hK
    rw [call, callWith]
    split
    · exact hK.builtin _ args
    · exact hK.outcome _
    · exact hK.listMethod ih _ _ args
    · exact hK.outcome _
    · exact hK.ret _
    · refine hK.seq (hK.lift (hK.newScope _ _)) fun env => ?_
      split
      · exact hK.chain (hK'.keeping_link ih _ env)
      · exact hK.seq (hK.lift (hK.hoist env _)) fun _ =>
          hK.seq (hK'.keeping_statements ih _ env) fun _ => hK.ret _

/-- Every evaluation of an expression keeps what its host allows. -/
theorem keeping_eval (hK : h.Allows E K) (env : Nat) (e : Expr) :
    Keeping E K (eval h.caller env e).run :=
  hK.chain (keeping_link (c := h.caller) hK (hK.keeping_call callDepth) e env)

/-- Every run of a program keeps what its host allows. -/
theorem keeping_exec (hK : h.Allows E K) (env : Nat) (ss : List Stmt) :
    Keeping E K (exec h.caller env ss).run :=
  hK.seq (hK.lift (hK.hoist env ss)) fun _ =>
    hK.seq (keeping_statements (c := h.caller) hK (hK.keeping_call callDepth) ss env)
      fun _ => hK.ret _

end Host.Allows

end Reactive
