/-
One program in two runs.

A program that uses only names that are clear goes the same way in both
runs.  The proof follows the evaluator: one case for each form of expression
and statement, with calls as an assumption, and then the calls themselves by
induction on how deep they nest.

* `Twin.sim_link`, `Twin.sim_statements` — expressions and blocks;
* `Twin.calls_call` — calls.
-/
import Reactive.Proofs.Eval.Calls

namespace Reactive.Twin

variable {ω α : Type} {T : Twin ω} {m₁ m₂ : Machine ω}

/-! ### Where a program runs -/

variable (T) in
/-- Machines on which both runs may go on in a scope. -/
structure Ready (m₁ m₂ : Machine ω) (env : Nat) : Prop where
  rel : T.Rel m₁ m₂
  usable : T.Usable env
  made : env < m₁.scopes.size

theorem Ready.later {env : Nat} (h : T.Ready m₁ m₂ env) {m₁' m₂' : Machine ω}
    (hrel : T.Rel m₁' m₂') (hgrow : m₁.Grows m₁') : T.Ready m₁' m₂' env :=
  ⟨hrel, h.usable, Nat.lt_of_lt_of_le h.made hgrow.size⟩

variable (T) in
/-- What an evaluator needs from outside, in one run and in the other. -/
structure Callers (c₁ c₂ : Caller ω) : Prop where
  first : c₁.host = T.first
  second : c₂.host = T.second
  call : T.Calls c₁.call c₂.call

variable (T) in
/-- Two evaluations with at most one value as the answer. -/
def SimO (x y : Eval ω (Option Value)) (m₁ m₂ : Machine ω) : Prop :=
  T.SimE (Option.map (Value.shift T.shift)) (fun m o => ∀ v, o = some v → T.Knows m v) x y m₁ m₂

/-! ### The parts of the evaluator -/

theorem sim_answer {g : α → α} {P : Machine ω → α → Prop} {a b : α} (h : T.Rel m₁ m₂)
    (hb : b = g a) (ha : P m₁ a) : T.SimE g P (pure a) (pure b) m₁ m₂ := by
  subst hb
  exact SimE.pure h ha

theorem sim_found {v w : Value} (h : T.Rel m₁ m₂) (hw : w = v.shift T.shift)
    (hv : T.Knows m₁ v) : T.SimO (pure (some v)) (pure (some w)) m₁ m₂ := by
  subst hw
  refine SimE.pure h ?_
  intro u hu
  cases hu
  exact hv

theorem sim_cut (h : T.Rel m₁ m₂) : T.SimO (pure none) (pure none) m₁ m₂ :=
  sim_answer h rfl fun v hv => by cases hv

theorem sim_some {x y : Eval ω Value} (hx : T.SimV x y m₁ m₂) :
    T.SimO (some <$> x) (some <$> y) m₁ m₂ := by
  refine SimE.map hx (fun _ => rfl) ?_
  intro m v hv w hw
  cases hw
  exact hv

theorem sim_chainValue {x y : Eval ω (Option Value)} (hx : T.SimO x y m₁ m₂) :
    T.SimV (chainValue x) (chainValue y) m₁ m₂ := by
  refine SimE.bind hx fun o m₁' m₂' hrel _ ho => ?_
  cases o with
  | none => exact sim_answer hrel rfl trivial
  | some v => exact sim_answer hrel rfl (ho v rfl)

theorem sim_resolve (hlaw : T.Lawful) {env : Nat} (h : T.Ready m₁ m₂ env) {name : Text}
    (hc : T.Clear m₁ env name) :
    T.SimV (resolve T.first env name) (resolve T.second (T.shift.scope env) name) m₁ m₂ := by
  obtain ⟨hlookup, hknown⟩ := h.rel.lookup hlaw h.usable h.made hc
  refine SimE.congr (resolve_run ..) (resolve_run ..) ?_
  rw [hlookup]
  cases hv : m₁.lookup T.first env name with
  | some v => exact SimE.pure h.rel (hknown v hv)
  | none =>
    by_cases hthis : name = "this"
    · simp only [Option.map_none, if_pos hthis]
      exact sim_answer h.rel rfl trivial
    · simp only [Option.map_none, if_neg hthis]
      exact SimE.throw _ h.rel

theorem sim_guarded (h : T.Rel m₁ m₂) (optional : Bool) (v : Value) {x y : Eval ω Value}
    (hx : T.SimV x y m₁ m₂) :
    T.SimO (guarded optional v x) (guarded optional (v.shift T.shift) y) m₁ m₂ := by
  unfold guarded
  rw [Value.isNullish_shift]
  split
  · exact sim_cut h
  · exact sim_some hx

theorem sim_asFunction (h : T.Rel m₁ m₂) (source : Text) {v : Value} (hv : T.Knows m₁ v) :
    T.SimE (Func.shift T.shift) (fun m f => T.Knows m (.func f)) (asFunction source v)
      (asFunction source (v.shift T.shift)) m₁ m₂ := by
  cases v with
  | func f => exact SimE.pure h hv
  | list vs =>
    rw [Value.shift_list]
    exact SimE.throw _ h
  | map es =>
    rw [Value.shift_map]
    exact SimE.throw _ h
  | _ => exact SimE.throw _ h

/-- A name replaced by what a change makes of it. -/
theorem sim_updateName (hlaw : T.Lawful) {env : Nat} (h : T.Ready m₁ m₂ env) {name : Text}
    (hc : T.Clear m₁ env name) {f₁ f₂ : Value → Eval ω (Value × Value)}
    (hf : T.Changes m₁ f₁ f₂) :
    T.SimV
      (do
        let old := ((← get).lookup T.first env name).getD .undefined
        let (new, answer) ← f₁ old
        assign T.first env name new
        return answer)
      (do
        let old := ((← get).lookup T.second (T.shift.scope env) name).getD .undefined
        let (new, answer) ← f₂ old
        assign T.second (T.shift.scope env) name new
        return answer) m₁ m₂ := by
  obtain ⟨hlookup, hknown⟩ := h.rel.lookup hlaw h.usable h.made hc
  have hrun : ∀ (g : Host ω) (i : Nat) (f : Value → Eval ω (Value × Value)) (m : Machine ω),
      (do
        let old := ((← get).lookup g i name).getD .undefined
        let (new, answer) ← f old
        assign g i name new
        return answer : Eval ω Value).run m =
      (do
        let (new, answer) ← f ((m.lookup g i name).getD .undefined)
        assign g i name new
        return answer : Eval ω Value).run m := fun _ _ _ _ => rfl
  have hold : T.Knows m₁ ((m₁.lookup T.first env name).getD .undefined) := by
    cases hv : m₁.lookup T.first env name with
    | none => trivial
    | some v => exact hknown v hv
  have hshift : ((m₁.lookup T.first env name).map (Value.shift T.shift)).getD .undefined =
      ((m₁.lookup T.first env name).getD .undefined).shift T.shift := by
    cases m₁.lookup T.first env name <;> rfl
  refine SimE.congr (hrun ..) (hrun ..) ?_
  rw [hlookup, hshift]
  refine SimE.bind (hf m₁ m₂ _ h.rel (.refl m₁) hold) fun p m₁' m₂' hrel hgrow hp => ?_
  obtain ⟨new, answer⟩ := p
  have h' := h.later hrel hgrow
  refine SimE.bind (sim_assign hlaw hrel h'.usable h'.made (hc.mono hgrow) hp.1) ?_
  intro _ m₁'' m₂'' hrel' hgrow' _
  exact SimE.pure hrel' (hp.2.mono hgrow')

/-- A declaration at the front of a block binds a new function. -/
theorem hoist_func (env pos : Nat) (name : Text) (params : List Text) (body : List Stmt)
    (source : Text) (exported : Bool) (r : List Stmt) :
    (hoist env (.func pos name params body source exported :: r) : Run ω Unit) = (do
      (do define env name (.func (← newFunc name (.closure params (.block body) env))))
      hoist env r) :=
  (bind_assoc _ _ _).symm

/-- A declaration among statements binds a new function. -/
theorem statement_func (c : Caller ω) (env pos : Nat) (name : Text) (params : List Text)
    (body : List Stmt) (source : Text) (exported : Bool) :
    statement c env (.func pos name params body source exported) = (do
      sure (do define env name (.func (← newFunc name (.closure params (.block body) env))))
      return none) := by
  rw [statement]
  rfl

/-- A function declared in a scope: its own name is clear in its body, since it is bound before the
function can be called. -/
theorem sim_declared (hlaw : T.Lawful) {env : Nat} (h : T.Ready m₁ m₂ env) {name : Text}
    {params : List Text} {body : List Stmt}
    (hbody : usesStmts True (fun n => n ∈ params ∨ n = name ∨ T.Clear m₁ env n)
      (Stmt.hoistedOf body)) :
    T.Sim id (fun m _ => T.Clear m env name)
      (do define env name (.func (← newFunc name (.closure params (.block body) env))))
      (do
        define (T.shift.scope env) name
          (.func (← newFunc name (.closure params (.block body) (T.shift.scope env))))) m₁ m₂ := by
  have hcode : ∀ b, Code.closure params (.block body) env ≠ .builtin b := fun b e => by cases e
  refine Sim.bind (sim_count hlaw h.rel name _ hcode).grown fun f m₁' m₂' hrel _ hf => ?_
  obtain ⟨hgrow, hm, rfl⟩ := hf
  have hmade : env < m₁'.scopes.size := Nat.lt_of_lt_of_le h.made hgrow.size
  have hfuncs : m₁.funcs < m₁'.funcs := by
    rw [hm]
    exact Nat.lt_succ_self _
  refine (sim_write hlaw hrel env name (fun cs => cs.filter (· != name)) ?_).mono
    fun m _ hc => hc hmade
  -- the function is known once it is bound
  refine knows_made h.rel.funcs_le ?_ name ?_ ?_
  · exact hfuncs
  · trivial
  rintro _ _ _ ⟨⟩
  have hgrow' := grows_written m₁' env name
    (.func (.mk name m₁.funcs (.closure params (.block body) env))) fun cs => cs.filter (· != name)
  refine ⟨h.usable, Nat.lt_of_lt_of_le hmade hgrow'.size, hbody.mono fun n hn => hn.imp_right ?_⟩
  rintro (rfl | hn)
  · exact .written hmade n _ _
  · exact (hn.mono hgrow).mono hgrow'

/-- Functions bound before the first statement of a block runs. -/
theorem sim_hoist (hlaw : T.Lawful) (ss : List Stmt) : ∀ {env : Nat} {m₁ m₂ : Machine ω},
    T.Ready m₁ m₂ env →
    usesStmts True (T.Clear m₁ env) ((hoistedStmts ss).filter Stmt.isFunction) →
    T.Sim id
      (fun m _ => ∀ s ∈ (hoistedStmts ss).filter Stmt.isFunction, ∀ n ∈ s.binds, T.Clear m env n)
      (hoist env ss) (hoist (T.shift.scope env) ss) m₁ m₂ := by
  induction ss with
  | nil =>
    intro env m₁ m₂ h _
    exact Sim.pure h.rel fun s hs => by cases hs
  | cons s r ih =>
    intro env m₁ m₂ h hss
    cases s with
    | func pos name params body source exported =>
      obtain ⟨⟨-, hbody⟩, hr⟩ := hss
      rw [hoist_func, hoist_func]
      refine Sim.bind (sim_declared hlaw h hbody) fun _ m₁' m₂' hrel hgrow hc => ?_
      have hr' := hr.mono fun n (hn : n ∈ [name] ∨ T.Clear m₁ env n) =>
        hn.elim (fun hn => List.mem_singleton.1 hn ▸ hc) (Clear.mono hgrow)
      refine (ih (h.later hrel hgrow) hr').grown.mono ?_
      rintro m _ ⟨hgrow', hrest⟩
      refine List.forall_mem_cons.2 ⟨fun n hn => ?_, hrest⟩
      exact List.mem_singleton.1 hn ▸ hc.mono hgrow'
    | _ => exact ih h hss

/-- A scope inside another one: what it binds is clear there, and what is clear outside. -/
theorem sim_innerScope (hlaw : T.Lawful) {env : Nat} (h : T.Ready m₁ m₂ env) (vars : Dict Value)
    (hvars : ∀ p ∈ vars, T.Knows m₁ p.2) :
    T.Sim T.shift.scope
      (fun m i => T.Usable i ∧ i < m.scopes.size ∧
        ∀ n, vars.has n = true ∨ T.Clear m₁ env n → T.Clear m i n)
      (newScope (.scope env) vars)
      (newScope (.scope (T.shift.scope env)) (vars.map fun p => (p.1, p.2.shift T.shift)))
      m₁ m₂ := by
  have ho : T.Outers m₁ m₁.scopes.size (.scope env) (.scope (T.shift.scope env)) :=
    ⟨rfl, h.usable, h.made⟩
  refine Sim.mono (sim_newScope hlaw h.rel ho hvars) ?_
  rintro m i ⟨rfl, rfl⟩
  have hs : (m₁.scopes.push { vars, outer := .scope env })[m₁.scopes.size]? =
      some { vars, outer := .scope env } := by simp
  refine ⟨Or.inl h.rel.size_le, by simp, ?_⟩
  rintro n (hn | hn)
  · exact .bound hs hn
  · exact .outer hs rfl (hn.mono (grows_push m₁ _))

/-- The functions of a block are bound, so that the names in its other statements are clear. -/
theorem sim_functions (hlaw : T.Lawful) {env : Nat} (h : T.Ready m₁ m₂ env) {ss : List Stmt}
    (hss : usesStmts True (T.Clear m₁ env) (Stmt.hoistedOf ss)) :
    T.Sim id
      (fun m _ => usesStmts True (T.Clear m env) ((hoistedStmts ss).filter fun s => !s.isFunction))
      (hoist env ss) (hoist (T.shift.scope env) ss) m₁ m₂ := by
  obtain ⟨hfuncs, hrest⟩ := usesStmts.append hss
  refine (sim_hoist hlaw ss h hfuncs).grown.mono ?_
  rintro m _ ⟨hgrow, hc⟩
  refine hrest.mono ?_
  rintro n (⟨s, hs, hn⟩ | hn)
  · exact hc s hs n hn
  · exact hn.mono hgrow

/-- A block: its functions are bound, then its statements run. -/
theorem sim_block {c₁ c₂ : Caller ω} (hlaw : T.Lawful) {env : Nat} (h : T.Ready m₁ m₂ env)
    {ss : List Stmt} (hss : usesStmts True (T.Clear m₁ env) (Stmt.hoistedOf ss))
    (hrun : ∀ {m₁' m₂' : Machine ω}, T.Rel m₁' m₂' → m₁.Grows m₁' →
      usesStmts True (T.Clear m₁' env) ((hoistedStmts ss).filter fun s => !s.isFunction) →
      T.SimO (statements c₁ env ss) (statements c₂ (T.shift.scope env) ss) m₁' m₂') :
    T.SimO (do sure (hoist env ss); statements c₁ env ss)
      (do sure (hoist (T.shift.scope env) ss); statements c₂ (T.shift.scope env) ss) m₁ m₂ :=
  SimE.bind (Sim.sure (sim_functions hlaw h hss)) fun _ _ _ hrel hgrow => hrun hrel hgrow

theorem shift_literal (s : Shift) (v : Literal) : v.value = v.value.shift s := by
  cases v <;> rfl

/-- A declaration binds its name. -/
theorem sim_declaration (hlaw : T.Lawful) {env : Nat} (h : T.Ready m₁ m₂ env) (kind : DeclKind)
    (name : Text) {v : Value} (hv : T.Knows m₁ v) :
    T.SimE (Option.map (Value.shift T.shift))
      (fun m o => (∀ v, o = some v → T.Knows m v) ∧ (o = none → ∀ n ∈ [name], T.Clear m env n))
      (do
        if kind = .const then sure (defineConst env name v) else sure (define env name v)
        return none)
      (do
        if kind = .const then sure (defineConst (T.shift.scope env) name (v.shift T.shift))
        else sure (define (T.shift.scope env) name (v.shift T.shift))
        return none) m₁ m₂ := by
  have hnone : ∀ {m₁' m₂' : Machine ω}, T.Rel m₁' m₂' → T.Clear m₁' env name →
      T.SimE (Option.map (Value.shift T.shift))
        (fun m o => (∀ v, o = some v → T.Knows m v) ∧ (o = none → ∀ n ∈ [name], T.Clear m env n))
        (pure none) (pure none) m₁' m₂' := by
    intro m₁' m₂' hrel hc
    refine sim_answer hrel rfl ⟨fun v hv => (by cases hv), fun _ n hn => ?_⟩
    rw [List.mem_singleton.1 hn]
    exact hc
  by_cases hk : kind = .const
  · simp only [if_pos hk]
    refine SimE.bind (Sim.sure (sim_defineConst hlaw h.rel env name hv)) ?_
    intro _ m₁' m₂' hrel _ hc
    exact hnone hrel (hc h.made)
  · simp only [if_neg hk]
    refine SimE.bind (Sim.sure (sim_define hlaw h.rel env name hv)) ?_
    intro _ m₁' m₂' hrel _ hc
    exact hnone hrel (hc h.made)

/-! ### The evaluator -/

section

variable {c₁ c₂ : Caller ω}

mutual

/-- An expression whose names are clear. -/
theorem sim_link (hlaw : T.Lawful) (hc : T.Callers c₁ c₂) : ∀ (e : Expr) {env : Nat}
    {m₁ m₂ : Machine ω}, T.Ready m₁ m₂ env → e.hoisted.Uses True (T.Clear m₁ env) →
    T.SimO (link c₁ env e) (link c₂ (T.shift.scope env) e) m₁ m₂
  | .literal _ v, env, m₁, m₂, h, _ => by
    rw [link, link]
    refine sim_found h.rel (shift_literal T.shift v) ?_
    cases v <;> trivial
  | .ident _ n, env, m₁, m₂, h, he => by
    rw [link, link, hc.first, hc.second]
    exact sim_some (sim_resolve hlaw h he)
  | .template _ quasis es, env, m₁, m₂, h, he => by
    rw [link, link]
    refine SimE.bind (sim_templateText hlaw hc es quasis h he) fun t m₁' m₂' hrel _ _ => ?_
    exact sim_found hrel rfl trivial
  | .array _ es, env, m₁, m₂, h, he => by
    rw [link, link]
    refine SimE.bind (sim_elements hlaw hc es h he) fun vs m₁' m₂' hrel _ hvs => ?_
    exact sim_found hrel (Value.shift_list T.shift vs).symm ((Value.all_list vs).2 hvs)
  | .object _ ps, env, m₁, m₂, h, he => by
    rw [link, link]
    have hnil : ∀ e ∈ ([] : List (Text × Value)), T.Knows m₁ e.2 := fun e hmem => by cases hmem
    refine SimE.bind (sim_properties hlaw hc ps h he hnil) ?_
    intro es m₁' m₂' hrel _ hes
    exact sim_found hrel (Value.shift_map T.shift es).symm ((Value.all_map es).2 hes)
  | .spread _ _, env, m₁, m₂, h, _ => by
    rw [link, link]
    exact SimE.throw _ h.rel
  | .member _ o name opt, env, m₁, m₂, h, he => by
    rw [link, link]
    refine SimE.bind (sim_link hlaw hc o h he) fun v m₁' m₂' hrel _ hv => ?_
    cases v with
    | none => exact sim_cut hrel
    | some v => exact sim_guarded hrel opt v (sim_member hlaw hrel (hv v rfl) name)
  | .index _ o k opt, env, m₁, m₂, h, he => by
    rw [link, link]
    refine SimE.bind (sim_link hlaw hc o h he.1) fun v m₁' m₂' hrel hgrow hv => ?_
    cases v with
    | none => exact sim_cut hrel
    | some v =>
      refine sim_guarded hrel opt v ?_
      have hk := he.2.mono fun _ => Clear.mono hgrow
      refine SimE.bind (sim_chainValue (sim_link hlaw hc k (h.later hrel hgrow) hk)) ?_
      intro key m₁'' m₂'' hrel' hgrow' _
      exact sim_itemAt hlaw hrel' ((hv v rfl).mono hgrow') key
  | .call _ f args opt, env, m₁, m₂, h, he => by
    rw [link, link]
    refine SimE.bind (sim_link hlaw hc f h he.1) fun v m₁' m₂' hrel hgrow hv => ?_
    cases v with
    | none => exact sim_cut hrel
    | some v =>
      refine sim_guarded hrel opt v ?_
      refine SimE.bind (sim_asFunction hrel f.text (hv v rfl)) ?_
      intro fn m₁'' m₂'' hrel' hgrow' hfn
      have hgrow'' := hgrow.trans hgrow'
      have hargs := he.2.mono fun _ => Clear.mono hgrow''
      refine SimE.bind (sim_elements hlaw hc args (h.later hrel' hgrow'') hargs) ?_
      intro vs m₁₃ m₂₃ hrel₃ hgrow₃ hvs
      exact hc.call m₁₃ m₂₃ fn vs hrel₃ (hfn.mono hgrow₃) hvs
  | .unary _ op e, env, m₁, m₂, h, he => by
    rw [link, link]
    have hx := sim_chainValue (sim_link hlaw hc e h he)
    refine SimE.bind (Sim.sure (SimE.attempt hx)) fun r m₁' m₂' hrel _ hr => ?_
    cases r with
    | ok v => exact sim_found hrel (UnaryOp.apply_shift T.shift op v) (UnaryOp.all_apply op v)
    | error err =>
      simp only [Except.map]
      split
      · exact sim_found hrel rfl trivial
      · exact SimE.throw _ hrel
  | .binary _ op l r, env, m₁, m₂, h, he => by
    rw [link, link]
    refine SimE.bind (sim_chainValue (sim_link hlaw hc l h he.1)) ?_
    intro a m₁' m₂' hrel hgrow ha
    rw [BinaryOp.needsRight_shift]
    split
    · have hr := he.2.mono fun _ => Clear.mono hgrow
      refine SimE.bind (sim_chainValue (sim_link hlaw hc r (h.later hrel hgrow) hr)) ?_
      intro b m₁'' m₂'' hrel' hgrow' hb
      rw [BinaryOp.apply_shift]
      exact sim_some (SimE.ofOutcome hrel' fun v hv => BinaryOp.all_apply hb hv)
    · exact sim_found hrel rfl ha
  | .conditional _ t y n, env, m₁, m₂, h, he => by
    rw [link, link]
    refine SimE.bind (sim_chainValue (sim_link hlaw hc t h he.1)) ?_
    intro v m₁' m₂' hrel hgrow _
    have hy := he.2.1.mono fun _ => Clear.mono hgrow
    have hn := he.2.2.mono fun _ => Clear.mono hgrow
    rw [Value.truthy_shift]
    split
    · exact sim_some (sim_chainValue (sim_link hlaw hc y (h.later hrel hgrow) hy))
    · exact sim_some (sim_chainValue (sim_link hlaw hc n (h.later hrel hgrow) hn))
  | .arrow _ params body, env, m₁, m₂, h, he => by
    rw [link, link]
    have hnew := sim_newFunc hlaw h.rel [] (.closure params body env) (fun _ e => by cases e)
      trivial fun _ _ _ e => by
        cases e
        exact ⟨h.usable, h.made, he⟩
    refine SimE.bind (Sim.sure hnew) fun f m₁' m₂' hrel _ hf => ?_
    exact sim_found hrel rfl hf
  | .assign _ op t v, env, m₁, m₂, h, he => by
    have hv : ∀ {m₁' m₂' : Machine ω}, T.Rel m₁' m₂' → m₁.Grows m₁' →
        T.SimV (chainValue (link c₁ env v)) (chainValue (link c₂ (T.shift.scope env) v)) m₁' m₂' := by
      intro m₁' m₂' hrel hgrow
      have hv := he.2.mono fun _ => Clear.mono hgrow
      exact sim_chainValue (sim_link hlaw hc v (h.later hrel hgrow) hv)
    cases op with
    | set =>
      rw [link, link]
      refine SimE.bind (hv h.rel (.refl m₁)) fun new m₁' m₂' hrel hgrow hnew => ?_
      have ht := he.1.mono fun _ => Clear.mono hgrow
      refine sim_some (sim_update hlaw hc t (h.later hrel hgrow) ht ?_)
      intro n₁ n₂ w hrel' hgrow' _
      exact SimE.pure hrel' ⟨hnew.mono hgrow', hnew.mono hgrow'⟩
    | update bop =>
      rw [link, link]
      split
      · refine SimE.bind (sim_chainValue (sim_link hlaw hc t h he.1)) ?_
        intro old m₁' m₂' hrel hgrow hold
        rw [BinaryOp.needsRight_shift]
        split
        · refine SimE.bind (hv hrel hgrow) fun new m₁'' m₂'' hrel' hgrow' hnew => ?_
          have hgrow'' := hgrow.trans hgrow'
          have ht := he.1.mono fun _ => Clear.mono hgrow''
          refine sim_some (sim_update hlaw hc t (h.later hrel' hgrow'') ht ?_)
          intro n₁ n₂ w hrel₃ hgrow₃ _
          exact SimE.pure hrel₃ ⟨hnew.mono hgrow₃, hnew.mono hgrow₃⟩
        · exact sim_found hrel rfl hold
      · refine sim_some (sim_update hlaw hc t h he.1 ?_)
        intro n₁ n₂ old hrel hgrow hold
        refine SimE.bind (hv hrel hgrow) fun right n₁' n₂' hrel' hgrow' hright => ?_
        rw [BinaryOp.apply_shift]
        have hout : T.SimV (ofOutcome (bop.apply old right))
            (ofOutcome ((bop.apply old right).map (Value.shift T.shift))) n₁' n₂' :=
          SimE.ofOutcome hrel' fun w hw => BinaryOp.all_apply hright hw
        refine SimE.bind hout fun new n₁'' n₂'' hrel'' _ hnew => ?_
        exact SimE.pure hrel'' ⟨hnew, hnew⟩
  | .step _ op before t, env, m₁, m₂, h, he => by
    rw [link, link]
    refine sim_some (sim_update hlaw hc t h he ?_)
    intro n₁ n₂ old hrel _ _
    obtain ⟨hwas, hnew⟩ := StepOp.all_apply (p := T.KnowsFunc n₁) op old
    simp only [StepOp.apply_shift]
    cases before with
    | true => exact SimE.pure hrel ⟨hnew, hnew⟩
    | false => exact SimE.pure hrel ⟨hnew, hwas⟩

/-- A target whose names are clear, with changes that go the same way. -/
theorem sim_update (hlaw : T.Lawful) (hc : T.Callers c₁ c₂) : ∀ (t : Expr) {env : Nat}
    {m₁ m₂ : Machine ω}, T.Ready m₁ m₂ env → t.hoisted.Uses True (T.Clear m₁ env) →
    ∀ {f₁ f₂ : Value → Eval ω (Value × Value)}, T.Changes m₁ f₁ f₂ →
    T.SimV (update c₁ env t f₁) (update c₂ (T.shift.scope env) t f₂) m₁ m₂
  | .ident _ name, env, m₁, m₂, h, ht, f₁, f₂, hf => by
    rw [update, update, hc.first, hc.second]
    exact sim_updateName hlaw h ht hf
  | .member _ o name _, env, m₁, m₂, h, ht, f₁, f₂, hf => by
    rw [update, update]
    refine sim_update hlaw hc o h ht ?_
    intro n₁ n₂ v hrel hgrow hv
    exact sim_setMember hf hrel hgrow hv name
  | .index _ o k _, env, m₁, m₂, h, ht, f₁, f₂, hf => by
    rw [update, update]
    refine SimE.bind (sim_chainValue (sim_link hlaw hc k h ht.2)) ?_
    intro key m₁' m₂' hrel hgrow _
    have ho := ht.1.mono fun _ => Clear.mono hgrow
    refine sim_update hlaw hc o (h.later hrel hgrow) ho ?_
    intro n₁ n₂ v hrel' hgrow' hv
    exact sim_setItemAt (hf.mono hgrow) hrel' hgrow' hv key
  | .literal .., env, m₁, m₂, h, _, _, _, _ => SimE.throw _ h.rel
  | .template .., env, m₁, m₂, h, _, _, _, _ => SimE.throw _ h.rel
  | .array .., env, m₁, m₂, h, _, _, _, _ => SimE.throw _ h.rel
  | .object .., env, m₁, m₂, h, _, _, _, _ => SimE.throw _ h.rel
  | .spread .., env, m₁, m₂, h, _, _, _, _ => SimE.throw _ h.rel
  | .call .., env, m₁, m₂, h, _, _, _, _ => SimE.throw _ h.rel
  | .unary .., env, m₁, m₂, h, _, _, _, _ => SimE.throw _ h.rel
  | .binary .., env, m₁, m₂, h, _, _, _, _ => SimE.throw _ h.rel
  | .conditional .., env, m₁, m₂, h, _, _, _, _ => SimE.throw _ h.rel
  | .arrow .., env, m₁, m₂, h, _, _, _, _ => SimE.throw _ h.rel
  | .assign .., env, m₁, m₂, h, _, _, _, _ => SimE.throw _ h.rel
  | .step .., env, m₁, m₂, h, _, _, _, _ => SimE.throw _ h.rel

theorem sim_templateText (hlaw : T.Lawful) (hc : T.Callers c₁ c₂) : ∀ (es : List Expr)
    (quasis : List Text) {env : Nat} {m₁ m₂ : Machine ω}, T.Ready m₁ m₂ env →
    usesAll True (T.Clear m₁ env) (hoistedExprs es) →
    T.SimP (templateText c₁ env quasis es) (templateText c₂ (T.shift.scope env) quasis es) m₁ m₂
  | [], quasis, env, m₁, m₂, h, _ => by
    rw [templateText, templateText]
    exact SimE.pure h.rel trivial
  | e :: r, [], env, m₁, m₂, h, _ => by
    rw [templateText, templateText]
    exact SimE.pure h.rel trivial
  | e :: r, q :: qs, env, m₁, m₂, h, he => by
    rw [templateText, templateText]
    refine SimE.bind (sim_chainValue (sim_link hlaw hc e h he.1)) ?_
    intro v m₁' m₂' hrel hgrow _
    have hr := he.2.mono fun _ => Clear.mono hgrow
    refine SimE.bind (sim_templateText hlaw hc r qs (h.later hrel hgrow) hr) ?_
    intro t m₁'' m₂'' hrel' _ _
    rw [Value.toText_shift]
    exact SimE.pure hrel' trivial

theorem sim_elements (hlaw : T.Lawful) (hc : T.Callers c₁ c₂) : ∀ (es : List Expr) {env : Nat}
    {m₁ m₂ : Machine ω}, T.Ready m₁ m₂ env → usesAll True (T.Clear m₁ env) (hoistedExprs es) →
    T.SimL (elements c₁ env es) (elements c₂ (T.shift.scope env) es) m₁ m₂
  | [], env, m₁, m₂, h, _ => by
    rw [elements, elements]
    exact SimE.pure h.rel fun v hv => by cases hv
  | e :: r, env, m₁, m₂, h, he => by
    have hrest : ∀ {m₁' m₂' : Machine ω}, T.Rel m₁' m₂' → m₁.Grows m₁' →
        T.SimL (elements c₁ env r) (elements c₂ (T.shift.scope env) r) m₁' m₂' := by
      intro m₁' m₂' hrel hgrow
      have hr := he.2.mono fun _ => Clear.mono hgrow
      exact sim_elements hlaw hc r (h.later hrel hgrow) hr
    have hone := sim_chainValue (sim_link hlaw hc e h he.1)
    cases e with
    | spread pos a =>
      rw [elements, elements]
      refine SimE.bind (sim_chainValue (sim_link hlaw hc a h he.1)) ?_
      intro v m₁' m₂' hrel hgrow hv
      cases v with
      | list vs =>
        rw [Value.shift_list]
        refine SimE.bind (hrest hrel hgrow) fun ws m₁'' m₂'' hrel' hgrow' hws => ?_
        refine sim_answer hrel' (List.map_append).symm ?_
        intro w hw
        rcases List.mem_append.1 hw with hw | hw
        · exact Knows.mono hgrow' ((Value.all_list vs).1 hv w hw)
        · exact hws w hw
      | map es =>
        rw [Value.shift_map]
        exact SimE.throw _ hrel
      | _ => exact SimE.throw _ hrel
    | _ =>
      rw [elements, elements]
      · refine SimE.bind hone fun v m₁' m₂' hrel hgrow hv => ?_
        refine SimE.bind (hrest hrel hgrow) fun ws m₁'' m₂'' hrel' hgrow' hws => ?_
        exact SimE.pure hrel' (List.forall_mem_cons.2 ⟨hv.mono hgrow', hws⟩)
      all_goals exact fun _ _ e => by cases e

theorem sim_properties (hlaw : T.Lawful) (hc : T.Callers c₁ c₂) : ∀ (ps : List Property)
    {acc : List (Text × Value)} {env : Nat} {m₁ m₂ : Machine ω}, T.Ready m₁ m₂ env →
    usesProperties True (T.Clear m₁ env) (hoistedProperties ps) → (∀ e ∈ acc, T.Knows m₁ e.2) →
    T.SimE (List.map fun p => (p.1, p.2.shift T.shift)) (fun m es => ∀ e ∈ es, T.Knows m e.2)
      (properties c₁ env acc ps)
      (properties c₂ (T.shift.scope env) (acc.map fun p => (p.1, p.2.shift T.shift)) ps) m₁ m₂
  | [], acc, env, m₁, m₂, h, _, hacc => by
    rw [properties, properties]
    exact SimE.pure h.rel hacc
  | .mk k e _ :: r, acc, env, m₁, m₂, h, hps, hacc => by
    rw [properties, properties]
    refine SimE.bind (sim_chainValue (sim_link hlaw hc e h hps.1)) ?_
    intro v m₁' m₂' hrel hgrow hv
    have hr := hps.2.mono fun _ => Clear.mono hgrow
    rw [Dict.insert_map_snd]
    refine sim_properties hlaw hc r (h.later hrel hgrow) hr ?_
    exact Value.all_insert (fun e he => Knows.mono hgrow (hacc e he)) hv

theorem sim_statements (hlaw : T.Lawful) (hc : T.Callers c₁ c₂) : ∀ (ss : List Stmt) {env : Nat}
    {m₁ m₂ : Machine ω}, T.Ready m₁ m₂ env →
    usesStmts True (T.Clear m₁ env) ((hoistedStmts ss).filter fun s => !s.isFunction) →
    T.SimO (statements c₁ env ss) (statements c₂ (T.shift.scope env) ss) m₁ m₂
  | [], env, m₁, m₂, h, _ => by
    rw [statements, statements]
    exact sim_cut h.rel
  | s :: r, env, m₁, m₂, h, hss => by
    by_cases hfunc : s.isFunction = true
    · cases s with
      | func pos name params body source exported =>
        rw [statements, statements]
        exact sim_statements hlaw hc r h hss
      | _ => cases hfunc
    rw [filter_hoistedStmts_cons (Bool.eq_false_iff.2 hfunc)] at hss
    have hone := sim_statement hlaw hc s h hss.1
    have hrest : ∀ {m₁' m₂' : Machine ω}, T.Rel m₁' m₂' → m₁.Grows m₁' →
        (∀ n ∈ s.binds, T.Clear m₁' env n) →
        T.SimO (statements c₁ env r) (statements c₂ (T.shift.scope env) r) m₁' m₂' := by
      intro m₁' m₂' hrel hgrow hbinds
      rw [← Stmt.binds_hoisted] at hbinds
      have hr := hss.2.mono fun n hn => hn.elim (hbinds n) (Clear.mono hgrow)
      exact sim_statements hlaw hc r (h.later hrel hgrow) hr
    cases s with
    | func => exact absurd rfl hfunc
    | _ =>
      rw [statements, statements]
      · refine SimE.bind hone fun o m₁' m₂' hrel hgrow ho => ?_
        cases o with
        | some v => exact sim_found hrel rfl (ho.1 v rfl)
        | none => exact hrest hrel hgrow (ho.2 rfl)
      all_goals exact fun _ _ _ _ _ _ e => by cases e

theorem sim_statement (hlaw : T.Lawful) (hc : T.Callers c₁ c₂) : ∀ (s : Stmt) {env : Nat}
    {m₁ m₂ : Machine ω}, T.Ready m₁ m₂ env → s.hoisted.Uses True (T.Clear m₁ env) →
    T.SimE (Option.map (Value.shift T.shift))
      (fun m o => (∀ v, o = some v → T.Knows m v) ∧ (o = none → ∀ n ∈ s.binds, T.Clear m env n))
      (statement c₁ env s) (statement c₂ (T.shift.scope env) s) m₁ m₂
  | .expr _ e, env, m₁, m₂, h, hs => by
    rw [statement, statement]
    refine SimE.bind (sim_link hlaw hc e h hs) fun o m₁' m₂' hrel _ _ => ?_
    exact sim_answer hrel rfl ⟨fun v hv => (by cases hv), fun _ n hn => (by cases hn)⟩
  | .decl _ kind name none _, env, m₁, m₂, h, _ => by
    rw [statement, statement]
    exact sim_declaration hlaw h kind name trivial
  | .decl _ kind name (some e) _, env, m₁, m₂, h, hs => by
    rw [statement, statement]
    refine SimE.bind (sim_chainValue (sim_link hlaw hc e h hs)) ?_
    intro v m₁' m₂' hrel hgrow hv
    exact sim_declaration hlaw (h.later hrel hgrow) kind name hv
  | .cond _ test yes no, env, m₁, m₂, h, hs => by
    rw [statement, statement]
    refine SimE.bind (sim_chainValue (sim_link hlaw hc test h hs.1)) ?_
    intro t m₁' m₂' hrel hgrow _
    have h' := h.later hrel hgrow
    refine SimE.bind (Sim.sure (sim_innerScope hlaw h' [] fun p hp => by cases hp)) ?_
    intro inner m₁'' m₂'' hrel' hgrow' hinner
    obtain ⟨husable, hmade, hclear⟩ := hinner
    have hready : T.Ready m₁'' m₂'' inner := ⟨hrel', husable, hmade⟩
    have hgrow'' := hgrow.trans hgrow'
    have huses : ∀ {ss : List Stmt}, usesStmts True (T.Clear m₁ env) ss →
        usesStmts True (T.Clear m₁'' inner) ss := fun hss =>
      hss.mono fun n hn => hclear n (Or.inr (Clear.mono hgrow hn))
    rw [Value.truthy_shift]
    split
    · have hx := sim_block hlaw hready (huses hs.2.1) fun hrel₃ hgrow₃ =>
        sim_statements hlaw hc yes (hready.later hrel₃ hgrow₃)
      exact hx.mono fun m o ho => ⟨ho, fun _ n hn => by cases hn⟩
    · have hx := sim_block hlaw hready (huses hs.2.2) fun hrel₃ hgrow₃ =>
        sim_statements hlaw hc no (hready.later hrel₃ hgrow₃)
      exact hx.mono fun m o ho => ⟨ho, fun _ n hn => by cases hn⟩
  | .ret _ none, env, m₁, m₂, h, _ => by
    rw [statement, statement]
    refine sim_answer h.rel rfl ⟨?_, fun _ n hn => by cases hn⟩
    intro v hv
    cases hv
    trivial
  | .ret _ (some e), env, m₁, m₂, h, hs => by
    rw [statement, statement]
    have hx := sim_some (sim_chainValue (sim_link hlaw hc e h hs))
    exact hx.mono fun m o ho => ⟨ho, fun _ n hn => by cases hn⟩
  | .func _ name params body _ _, env, m₁, m₂, h, hs => by
    rw [statement_func, statement_func]
    refine SimE.bind (Sim.sure (sim_declared hlaw h hs.2)) fun _ m₁' m₂' hrel _ hc => ?_
    refine sim_answer hrel rfl ⟨fun v hv => (by cases hv), fun _ n hn => ?_⟩
    exact List.mem_singleton.1 hn ▸ hc
  | .labeled _ _ s, env, m₁, m₂, h, hs => by
    rw [statement, statement]
    exact sim_statement hlaw hc s h hs

end

/-! ### Calls -/

theorem sim_eval (hlaw : T.Lawful) (hc : T.Callers c₁ c₂) {env : Nat} (h : T.Ready m₁ m₂ env)
    {e : Expr} (he : e.hoisted.Uses True (T.Clear m₁ env)) :
    T.SimV (eval c₁ env e) (eval c₂ (T.shift.scope env) e) m₁ m₂ :=
  sim_chainValue (sim_link hlaw hc e h he)

theorem sim_exec (hlaw : T.Lawful) (hc : T.Callers c₁ c₂) {env : Nat} (h : T.Ready m₁ m₂ env)
    {ss : List Stmt} (hss : usesStmts True (T.Clear m₁ env) (Stmt.hoistedOf ss)) :
    T.SimV (exec c₁ env ss) (exec c₂ (T.shift.scope env) ss) m₁ m₂ := by
  unfold exec
  refine SimE.bind (Sim.sure (sim_functions hlaw h hss)) fun _ m₁' m₂' hrel hgrow hrest => ?_
  exact sim_chainValue (sim_statements hlaw hc ss (h.later hrel hgrow) hrest)

end

/-- What a call does in the second run. -/
theorem KnowsFunc.code_shift {m : Machine ω} {f : Func} (hf : T.KnowsFunc m f) (hn : ¬T.inert f) :
    (f.shift T.shift).code = f.code.shift T.shift := by
  obtain ⟨name, i, c⟩ := f
  rw [Func.shift]
  split
  · rename_i hold
    show c = c.shift T.shift
    cases c with
    | listMethod vs method =>
      have hvs : vs.map (Value.shift T.shift) = vs := by
        refine (List.map_congr_left fun v hv => ?_).trans (List.map_id vs)
        exact hf.bound vs method rfl hold v hv
      rw [Code.shift, shiftItems_eq, hvs]
    | closure params body scope =>
      rcases hf.closure params body scope rfl with hi | ⟨-, -, hscope, -⟩
      · exact absurd hi hn
      · rw [Code.shift, Shift.scope_of_lt (hscope hold)]
    | _ => rfl
  · rfl

theorem sim_builtin (hlaw : T.Lawful) (h : T.Rel m₁ m₂) (b : Builtin) {args : List Value}
    (hargs : T.KnowsAll m₁ args) :
    T.SimV (b.apply args) (b.apply (args.map (Value.shift T.shift))) m₁ m₂ := by
  have htexts : (args.map (Value.shift T.shift)).map Value.toText = args.map Value.toText := by
    rw [List.map_map]
    exact List.map_congr_left fun v _ => Value.toText_shift T.shift v
  have hresult : ∀ {m₁' m₂' : Machine ω}, T.Rel m₁' m₂' → m₁.Grows m₁' →
      T.SimV (ofOutcome (b.result args))
        (ofOutcome (b.result (args.map (Value.shift T.shift)))) m₁' m₂' := by
    intro m₁' m₂' hrel hgrow
    rw [Builtin.result_shift]
    exact SimE.ofOutcome hrel fun v hv => Builtin.all_result (KnowsAll.mono hgrow hargs) hv
  rw [b.apply_eq, b.apply_eq, htexts]
  split
  · refine SimE.bind (Sim.sure (sim_writeLog hlaw h _ _)) fun _ m₁' m₂' hrel hgrow _ => ?_
    exact hresult hrel hgrow
  · exact hresult h (.refl m₁)

/-- A call of a function of the source. -/
theorem sim_closure (hlaw : T.Lawful) {c₁ c₂ : Caller ω} (hc : T.Callers c₁ c₂) {scope : Nat}
    (h : T.Ready m₁ m₂ scope) {params : List Text} {body : Body}
    (hbody : body.hoisted.Uses True fun n => n ∈ params ∨ T.Clear m₁ scope n)
    {args : List Value} (hargs : T.KnowsAll m₁ args) :
    T.SimV
      (do
        let env ← sure (newScope (.scope scope)
          (Dict.ofPairs (params.mapIdx fun i p => (p, argument args i))))
        match body with
        | .expr e => eval c₁ env e
        | .block ss => exec c₁ env ss)
      (do
        let env ← sure (newScope (.scope (T.shift.scope scope)) (Dict.ofPairs
          (params.mapIdx fun i p => (p, argument (args.map (Value.shift T.shift)) i))))
        match body with
        | .expr e => eval c₂ env e
        | .block ss => exec c₂ env ss) m₁ m₂ := by
  have hvars : (params.mapIdx fun i p => (p, argument (args.map (Value.shift T.shift)) i)) =
      (params.mapIdx fun i p => (p, argument args i)).map fun p => (p.1, p.2.shift T.shift) := by
    refine List.mapIdx_eq_iff.2 fun i => ?_
    rw [List.getElem?_map, List.getElem?_mapIdx, Option.map_map, argument_shift]
    rfl
  have hknown : ∀ p ∈ Dict.ofPairs (params.mapIdx fun i p => (p, argument args i)),
      T.Knows m₁ p.2 := by
    intro p hp
    obtain ⟨i, hi, rfl⟩ := List.mem_mapIdx.1 (Dict.mem_ofPairs hp)
    exact all_argument hargs i
  have hbound : ∀ n ∈ params,
      (Dict.ofPairs (params.mapIdx fun i p => (p, argument args i))).has n = true := by
    intro n hn
    obtain ⟨i, hi, rfl⟩ := List.mem_iff_getElem.1 hn
    refine Dict.has_ofPairs (List.mem_map.2 ⟨_, List.mem_mapIdx.2 ⟨i, hi, rfl⟩, rfl⟩)
  rw [hvars, Dict.ofPairs_map_snd]
  refine SimE.bind (Sim.sure (sim_innerScope hlaw h _ hknown)) ?_
  intro env m₁' m₂' hrel hgrow henv
  obtain ⟨husable, hmade, hclear⟩ := henv
  have hready : T.Ready m₁' m₂' env := ⟨hrel, husable, hmade⟩
  have hbody' : body.hoisted.Uses True (T.Clear m₁' env) :=
    hbody.mono fun n hn => hclear n (hn.imp_left (hbound n))
  cases body with
  | expr e => exact sim_eval hlaw hc hready hbody'
  | block ss => exact sim_exec hlaw hc hready hbody'

/-- A call of a function that may be called. -/
theorem sim_callWith (hlaw : T.Lawful) {self₁ self₂ : Func → List Value → Eval ω Value}
    (hself : T.Calls self₁ self₂) (h : T.Rel m₁ m₂) {f : Func} (hf : T.Knows m₁ (.func f))
    (hn : ¬T.inert f) {args : List Value} (hargs : T.KnowsAll m₁ args) :
    T.SimV (callWith T.first self₁ f args)
      (callWith T.second self₂ (f.shift T.shift) (args.map (Value.shift T.shift))) m₁ m₂ := by
  obtain ⟨name, i, c⟩ := f
  obtain ⟨hfunc, hcode⟩ := hf
  unfold callWith
  rw [hfunc.code_shift hn]
  cases c with
  | builtin b => exact sim_builtin hlaw h b hargs
  | strMethod s method =>
    show T.SimV (ofOutcome (method.apply s args)) (ofOutcome (method.apply s _)) m₁ m₂
    rw [StrMethod.apply_shift]
    exact SimE.ofOutcome h fun v hv => StrMethod.all_apply hv
  | listMethod vs method =>
    have hvs : T.KnowsAll m₁ vs := (allItems_iff vs).1 hcode
    show T.SimV (method.apply self₁ vs args) (method.apply self₂ (shiftItems T.shift vs) _) m₁ m₂
    rw [shiftItems_eq]
    exact sim_listMethod hself h method hvs hargs
  | numMethod x method =>
    show T.SimV (ofOutcome (method.apply x args)) (ofOutcome (method.apply x _)) m₁ m₂
    rw [NumMethod.apply_shift]
    exact SimE.ofOutcome h fun v hv => NumMethod.all_apply hv
  | boolText b => exact SimE.pure h trivial
  | closure params body scope =>
    rcases hfunc.closure params body scope rfl with hi | ⟨hu, hs, -, hbody⟩
    · exact absurd hi hn
    · exact sim_closure hlaw ⟨rfl, rfl, hself⟩ ⟨h, hu, hs⟩ hbody hargs

/-- Calls go the same way if every function may be called. -/
theorem calls_call (hlaw : T.Lawful) (hn : ∀ f, ¬T.inert f) (depth : Nat) :
    T.Calls (call T.first depth) (call T.second depth) := by
  induction depth with
  | zero =>
    intro m₁ m₂ f args h _ _
    exact Or.inr rfl
  | succ depth ih =>
    intro m₁ m₂ f args h hf hargs
    exact sim_callWith hlaw ih h hf (hn f) hargs

end Reactive.Twin
