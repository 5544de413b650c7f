/-
Two machines that a program cannot tell apart.

Two runs of one program start on different machines: one has made more
functions and scopes before, and the stores that the outermost scopes read
through agree on some names only.  `Twin` says what the two have in common,
`Twin.Rel` relates the machines at each moment of the runs, and `Twin.Sim`
says that two computations go the same way.

* `Twin.Rel.lookup` — a name that is clear stands for the same value;
* `Twin.Sim.bind`, `Twin.SimE.bind` — computations that go the same way one
  after another;
* `Twin.sim_newScope`, `Twin.sim_define`, `Twin.sim_assign`, … — each step of
  a machine goes the same way.
-/
import Reactive.Proofs.Eval.Held
import Reactive.Proofs.Expr.Hoisting
import Reactive.Proofs.Run

namespace Reactive

variable {ω α β : Type}

/-! ### Machines that grow -/

/-- A later machine: scopes stay, with at least the names they bound. -/
structure Machine.Grows (m m' : Machine ω) : Prop where
  size : m.scopes.size ≤ m'.scopes.size
  funcs : m.funcs ≤ m'.funcs
  scope : ∀ (i : Nat) (s : Scope), m.scopes[i]? = some s →
    ∃ s' : Scope, m'.scopes[i]? = some s' ∧ s'.outer = s.outer ∧
      ∀ n, s.vars.has n = true → s'.vars.has n = true

namespace Machine.Grows

theorem refl (m : Machine ω) : m.Grows m :=
  ⟨Nat.le_refl _, Nat.le_refl _, fun _ s h => ⟨s, h, rfl, fun _ hn => hn⟩⟩

theorem trans {m m' m'' : Machine ω} (h : m.Grows m') (h' : m'.Grows m'') : m.Grows m'' := by
  refine ⟨Nat.le_trans h.size h'.size, Nat.le_trans h.funcs h'.funcs, fun i s hs => ?_⟩
  obtain ⟨s', hs', ho', hn'⟩ := h.scope i s hs
  obtain ⟨s'', hs'', ho'', hn''⟩ := h'.scope i s' hs'
  exact ⟨s'', hs'', ho''.trans ho', fun n hn => hn'' n (hn' n hn)⟩

end Machine.Grows

/-! ### What two runs have in common -/

/-- What two runs of one program have in common. -/
structure Twin (ω : Type) where
  /-- How the numbers of the first run become those of the second. -/
  shift : Shift
  /-- The scopes made before the runs that both may use. -/
  shared : Nat → Prop
  /-- The names on which the stores of new scopes agree. -/
  agreed : Text → Prop
  /-- The functions that may be held but are never called. -/
  inert : Func → Prop
  /-- The reasons for the first run to stop after which nothing is said of the second. -/
  excused : Halt → Prop
  /-- Whether there are scopes that read through the host. -/
  reads : Prop
  /-- Whether there are scopes through which the host can be written. -/
  writes : Prop
  /-- Whether the second run is the first one over again. -/
  alone : Prop
  /-- How the hosts are related, given which values both runs may hold. -/
  hosts : (Machine ω → Value → Prop) → Machine ω → Machine ω → Prop
  first : Host ω
  second : Host ω

namespace Twin

variable (T : Twin ω)

/-- A scope that both runs may use: one made during the runs, or a shared one. -/
def Usable (i : Nat) : Prop := T.shift.scopes ≤ i ∨ T.shared i

/-- A name that means the same in both runs when it is looked up in a scope: a name bound on the
way to the store, or one on which the stores agree. -/
inductive Clear (m : Machine ω) : Nat → Text → Prop where
  | old {i : Nat} {n : Text} (h : i < T.shift.scopes) : Clear m i n
  | bound {i : Nat} {n : Text} {s : Scope} (hs : m.scopes[i]? = some s)
      (hn : s.vars.has n = true) : Clear m i n
  | outer {i p : Nat} {n : Text} {s : Scope} (hs : m.scopes[i]? = some s)
      (ho : s.outer = .scope p) (hp : Clear m p n) : Clear m i n
  | root {i : Nat} {n : Text} {s : Scope} {st : Store} (hs : m.scopes[i]? = some s)
      (ho : s.outer = .store st) (hn : T.agreed n) : Clear m i n

/-- A function that both runs may hold. -/
structure KnowsFunc (m : Machine ω) (f : Func) : Prop where
  /-- It was made before now. -/
  made : f.id < m.funcs ∨ f.isBuiltin = true
  /-- A method from before the runs is bound to a list from before the runs. -/
  bound : ∀ vs method, f.code = .listMethod vs method → f.id < T.shift.funcs →
    ∀ v ∈ vs, v.shift T.shift = v
  /-- If it is a function of the source, its scope may be used and the names in its body are clear
  there, or it is never called.  The functions in the body are bound before other names are. -/
  closure : ∀ params body scope, f.code = .closure params body scope → T.inert f ∨
    T.Usable scope ∧ scope < m.scopes.size ∧ (f.id < T.shift.funcs → scope < T.shift.scopes) ∧
      body.hoisted.Uses True fun n => n ∈ params ∨ T.Clear m scope n

/-- A value that both runs may hold. -/
def Knows (m : Machine ω) (v : Value) : Prop := v.All (T.KnowsFunc m)

/-- Stores that read the same where it matters for a scope. -/
def Stores (m : Machine ω) (i : Nat) : Store → Store → Prop
  | .empty, .empty => True
  | .snapshot a, .snapshot b => (T.alone → b = a) ∧ ∀ n, i < T.shift.scopes ∨ T.agreed n →
      b.get? n = (a.get? n).map (Value.shift T.shift) ∧ ∀ v, a.get? n = some v → T.Knows m v
  | .host x, .host y =>
    x = y ∧ T.reads ∧ (x = .writable → T.writes) ∧ (i < T.shift.scopes → ∀ n, T.agreed n)
  | _, _ => False

/-- What surrounds a scope in one run and in the other. -/
def Outers (m : Machine ω) (i : Nat) : Outer → Outer → Prop
  | .scope p, .scope q => q = T.shift.scope p ∧ T.Usable p ∧ p < i
  | .store a, .store b => T.Stores m i a b
  | _, _ => False

/-- The machines of the two runs at one moment. -/
structure Rel (m₁ m₂ : Machine ω) : Prop where
  size_le : T.shift.scopes ≤ m₁.scopes.size
  size_eq : m₂.scopes.size = m₁.scopes.size + T.shift.scopeGap
  funcs_le : T.shift.funcs ≤ m₁.funcs
  funcs_eq : m₂.funcs = m₁.funcs + T.shift.funcGap
  scope : ∀ (i : Nat) (s : Scope), T.Usable i → m₁.scopes[i]? = some s →
    ∃ s' : Scope, m₂.scopes[T.shift.scope i]? = some s' ∧
      s'.vars = (s.vars.map fun p => (p.1, p.2.shift T.shift)) ∧ s'.consts = s.consts ∧
      T.Outers m₁ i s.outer s'.outer ∧ ∀ p ∈ s.vars, T.Knows m₁ p.2
  hosts : T.hosts T.Knows m₁ m₂

/-! ### What is known stays known -/

variable {T} {m m' : Machine ω}

theorem Clear.mono (h : m.Grows m') {i : Nat} {n : Text} (hc : T.Clear m i n) :
    T.Clear m' i n := by
  induction hc with
  | old h => exact .old h
  | bound hs hn =>
    obtain ⟨s', hs', -, hn'⟩ := h.scope _ _ hs
    exact .bound hs' (hn' _ hn)
  | outer hs ho _ ih =>
    obtain ⟨s', hs', ho', -⟩ := h.scope _ _ hs
    exact .outer hs' (ho'.trans ho) ih
  | root hs ho hn =>
    obtain ⟨s', hs', ho', -⟩ := h.scope _ _ hs
    exact .root hs' (ho'.trans ho) hn

theorem KnowsFunc.mono (h : m.Grows m') {f : Func} (hf : T.KnowsFunc m f) : T.KnowsFunc m' f := by
  refine ⟨hf.made.imp_left fun hid => Nat.lt_of_lt_of_le hid h.funcs, hf.bound, ?_⟩
  intro params body scope hc
  rcases hf.closure params body scope hc with hi | ⟨hu, hs, hold, hb⟩
  · exact Or.inl hi
  · refine Or.inr ⟨hu, Nat.lt_of_lt_of_le hs h.size, hold, ?_⟩
    exact hb.mono fun n => Or.imp_right (Clear.mono h)

theorem Knows.mono (h : m.Grows m') {v : Value} (hv : T.Knows m v) : T.Knows m' v :=
  Value.All.mono (fun _ => KnowsFunc.mono h) hv

theorem Stores.mono (h : m.Grows m') {i : Nat} {a b : Store} (hs : T.Stores m i a b) :
    T.Stores m' i a b := by
  cases a with
  | snapshot a =>
    cases b with
    | snapshot b =>
      exact ⟨hs.1, fun n hn => ⟨(hs.2 n hn).1, fun v hv => ((hs.2 n hn).2 v hv).mono h⟩⟩
    | _ => exact hs
  | _ => cases b <;> exact hs

theorem Outers.mono (h : m.Grows m') {i : Nat} {a b : Outer} (ho : T.Outers m i a b) :
    T.Outers m' i a b := by
  cases a with
  | scope p => cases b <;> exact ho
  | store a =>
    cases b with
    | scope q => exact ho
    | store b => exact Stores.mono h ho

/-! ### Computations that go the same way -/

variable (T) in
/-- Two computations that go the same way: the second answers what the first answers, up to `g`,
and stops when the first stops, unless that is excused.  `P` holds of the answer. -/
def Sim (g : α → α) (P : Machine ω → α → Prop) (x y : Run ω α) (m₁ m₂ : Machine ω) : Prop :=
  match x m₁ with
  | .error e => T.excused e ∨ y m₂ = .error e
  | .ok (a, m₁') => ∃ m₂', y m₂ = .ok (g a, m₂') ∧ T.Rel m₁' m₂' ∧ m₁.Grows m₁' ∧ P m₁' a

variable (T) in
/-- The same for computations that may fail: they fail with the same error. -/
def SimE (g : α → α) (P : Machine ω → α → Prop) (x y : Eval ω α) (m₁ m₂ : Machine ω) : Prop :=
  T.Sim (Except.map g) (fun m r => ∀ a, r = .ok a → P m a) x.run y.run m₁ m₂

variable {m₁ m₂ : Machine ω} {g : α → α} {g' : β → β} {P : Machine ω → α → Prop}
  {P' : Machine ω → β → Prop}

theorem Sim.pure {a : α} (h : T.Rel m₁ m₂) (ha : P m₁ a) :
    T.Sim g P (pure a) (pure (g a)) m₁ m₂ :=
  ⟨m₂, rfl, h, .refl m₁, ha⟩

theorem Sim.bind {x y : Run ω α} {f f' : α → Run ω β} (hx : T.Sim g P x y m₁ m₂)
    (hf : ∀ a m₁' m₂', T.Rel m₁' m₂' → m₁.Grows m₁' → P m₁' a →
      T.Sim g' P' (f a) (f' (g a)) m₁' m₂') :
    T.Sim g' P' (x >>= f) (y >>= f') m₁ m₂ := by
  unfold Sim at hx ⊢
  rw [Run.bind_apply]
  cases hx₁ : x m₁ with
  | error e =>
    simp only [hx₁] at hx ⊢
    exact hx.imp_right fun hy => Run.bind_error hy
  | ok p =>
    obtain ⟨a, m₁'⟩ := p
    simp only [hx₁] at hx ⊢
    obtain ⟨m₂', hy, hrel, hgrow, ha⟩ := hx
    have := hf a m₁' m₂' hrel hgrow ha
    unfold Sim at this
    rw [Run.bind_ok hy]
    cases hfa : f a m₁' with
    | error e =>
      simp only [hfa] at this ⊢
      exact this
    | ok q =>
      obtain ⟨b, m₁''⟩ := q
      simp only [hfa] at this ⊢
      obtain ⟨m₂'', hf', hrel', hgrow', hb⟩ := this
      exact ⟨m₂'', hf', hrel', hgrow.trans hgrow', hb⟩

theorem Sim.mono {x y : Run ω α} {Q : Machine ω → α → Prop} (hx : T.Sim g P x y m₁ m₂)
    (hQ : ∀ m a, P m a → Q m a) : T.Sim g Q x y m₁ m₂ := by
  unfold Sim at *
  split
  · simp_all
  · rename_i hx₁
    simp only [hx₁] at hx
    obtain ⟨m₂', hy, hrel, hgrow, ha⟩ := hx
    exact ⟨m₂', hy, hrel, hgrow, hQ _ _ ha⟩

/-- What two computations that go the same way answer, where nothing is excused. -/
theorem Sim.fst_eq {x y : Run ω α} (hx : T.Sim g P x y m₁ m₂) (hexc : ∀ e, ¬T.excused e) :
    (y m₂).map Prod.fst = (x m₁).map fun p => g p.1 := by
  unfold Sim at hx
  cases hx₁ : x m₁ with
  | error e =>
    simp only [hx₁] at hx
    rw [hx.resolve_left (hexc e)]
    rfl
  | ok p =>
    obtain ⟨a, m₁'⟩ := p
    simp only [hx₁] at hx
    obtain ⟨m₂', hy, -⟩ := hx
    rw [hy]
    rfl

/-- What holds of the answer, with the machine as one that has grown. -/
theorem Sim.grown {x y : Run ω α} (hx : T.Sim g P x y m₁ m₂) :
    T.Sim g (fun m a => m₁.Grows m ∧ P m a) x y m₁ m₂ := by
  unfold Sim at *
  split
  · simp_all
  · rename_i hx₁
    simp only [hx₁] at hx
    obtain ⟨m₂', hy, hrel, hgrow, ha⟩ := hx
    exact ⟨m₂', hy, hrel, hgrow, hgrow, ha⟩

theorem SimE.pure {a : α} (h : T.Rel m₁ m₂) (ha : P m₁ a) :
    T.SimE g P (pure a) (pure (g a)) m₁ m₂ := by
  refine ⟨m₂, rfl, h, .refl m₁, ?_⟩
  intro b hb
  cases hb
  exact ha

theorem SimE.throw (e : EvalError) (h : T.Rel m₁ m₂) :
    T.SimE g P (throw e) (throw e) m₁ m₂ :=
  ⟨m₂, rfl, h, .refl m₁, fun _ hb => by cases hb⟩

theorem SimE.bind {x y : Eval ω α} {f f' : α → Eval ω β} (hx : T.SimE g P x y m₁ m₂)
    (hf : ∀ a m₁' m₂', T.Rel m₁' m₂' → m₁.Grows m₁' → P m₁' a →
      T.SimE g' P' (f a) (f' (g a)) m₁' m₂') :
    T.SimE g' P' (x >>= f) (y >>= f') m₁ m₂ := by
  unfold SimE
  rw [ExceptT.run_bind, ExceptT.run_bind]
  refine Sim.bind hx fun r m₁' m₂' hrel hgrow hr => ?_
  cases r with
  | error e => exact SimE.throw e hrel
  | ok a => exact hf a m₁' m₂' hrel hgrow (hr a rfl)

theorem SimE.mono {x y : Eval ω α} {Q : Machine ω → α → Prop} (hx : T.SimE g P x y m₁ m₂)
    (hQ : ∀ m a, P m a → Q m a) : T.SimE g Q x y m₁ m₂ :=
  Sim.mono hx fun m _ hr a ha => hQ m a (hr a ha)

theorem SimE.map {x y : Eval ω α} {f : α → β} (hx : T.SimE g P x y m₁ m₂)
    (hg : ∀ a, f (g a) = g' (f a)) (hf : ∀ m a, P m a → P' m (f a)) :
    T.SimE g' P' (f <$> x) (f <$> y) m₁ m₂ := by
  rw [map_eq_pure_bind, map_eq_pure_bind]
  refine SimE.bind hx fun a m₁' m₂' hrel _ ha => ?_
  rw [hg]
  exact SimE.pure hrel (hf _ _ ha)

theorem Sim.sure {x y : Run ω α} (hx : T.Sim g P x y m₁ m₂) :
    T.SimE g P (sure x) (sure y) m₁ m₂ := by
  have hrun : ∀ z : Run ω α, (Reactive.sure z).run = z >>= fun a => Pure.pure (.ok a) := by
    intro z
    exact (map_eq_pure_bind _ _)
  unfold SimE
  rw [hrun, hrun]
  refine Sim.bind hx fun a m₁' m₂' hrel _ ha => ?_
  refine ⟨m₂', rfl, hrel, .refl _, fun b hb => ?_⟩
  cases hb
  exact ha

theorem SimE.attempt {x y : Eval ω α} (hx : T.SimE g P x y m₁ m₂) :
    T.Sim (Except.map g) (fun m r => ∀ a, r = .ok a → P m a) (attempt x) (attempt y) m₁ m₂ := hx

theorem SimE.ofOutcome {r : Except EvalError α} (h : T.Rel m₁ m₂) (hr : ∀ a, r = .ok a → P m₁ a) :
    T.SimE g P (ofOutcome r) (ofOutcome (r.map g)) m₁ m₂ := by
  cases r with
  | error e => exact SimE.throw e h
  | ok a => exact SimE.pure h (hr a rfl)

/-- A step on the machine that cannot stop. -/
theorem Sim.step {x y : Run ω α} {a : α} {m₁' m₂' : Machine ω} (hx : x m₁ = .ok (a, m₁'))
    (hy : y m₂ = .ok (g a, m₂')) (hrel : T.Rel m₁' m₂') (hgrow : m₁.Grows m₁') (ha : P m₁' a) :
    T.Sim g P x y m₁ m₂ := by
  unfold Sim
  simp only [hx]
  exact ⟨m₂', hy, hrel, hgrow, ha⟩

/-! ### Looking up names -/

variable (T) in
/-- What the hosts and the names of two runs have to satisfy. -/
structure Lawful : Prop where
  stable : ∀ m₁ m₂ m₁' m₂' : Machine ω, T.hosts T.Knows m₁ m₂ → m₁.Grows m₁' →
    m₁'.host = m₁.host → m₂'.host = m₂.host → (T.alone → m₂ = m₁ → m₂' = m₁') →
    T.hosts T.Knows m₁' m₂'
  still : T.alone → T.shift.funcGap = 0 ∧ T.shift.scopeGap = 0
  read : T.reads → ∀ m₁ m₂ : Machine ω, T.Rel m₁ m₂ → ∀ n, T.agreed n →
    T.second.read m₂.host n = (T.first.read m₁.host n).map (Value.shift T.shift) ∧
      ∀ v, T.first.read m₁.host n = some v → T.Knows m₁ v
  write : T.writes → ∀ (m₁ m₂ : Machine ω) (name : Text) (v : Value), T.agreed name →
    T.Rel m₁ m₂ → T.Knows m₁ v →
    T.SimE id (fun _ _ => True) (T.first.write name v) (T.second.write name (v.shift T.shift)) m₁ m₂

theorem all_globals {name : Text} {v : Value} (h : Globals.get? name = some v) :
    v.All fun f => f.isBuiltin = true := by
  have hgroup : ∀ bs : List Builtin, ∀ e ∈ Globals.group bs,
      Value.All (fun f => f.isBuiltin = true) e.2 := by
    intro bs e he
    obtain ⟨b, -, rfl⟩ := List.mem_map.1 he
    exact ⟨rfl, trivial⟩
  have hall : ∀ e ∈ Globals.all, Value.All (fun f => f.isBuiltin = true) e.2 := by
    simp only [Globals.all, List.forall_mem_cons, Value.all_map, List.forall_mem_append]
    refine ⟨hgroup _, ⟨rfl, trivial⟩, trivial, hgroup _, ⟨hgroup _, trivial, ?_⟩, trivial,
      ⟨rfl, trivial⟩, hgroup _, ⟨rfl, trivial⟩, hgroup _, ⟨rfl, trivial⟩, ⟨rfl, trivial⟩,
      ⟨rfl, trivial⟩, ?_⟩
    · intro e he
      cases he
    · intro e he
      cases he
  exact Value.all_get? hall h

theorem Knows.of_builtin {v : Value} (h : v.All fun f => f.isBuiltin = true) : T.Knows m v := by
  refine Value.All.mono (fun f hf => ⟨Or.inr hf, ?_, ?_⟩) h
  · intro vs method hc
    obtain ⟨n, i, c⟩ := f
    cases hc
    cases hf
  · intro params body scope hc
    obtain ⟨n, i, c⟩ := f
    cases hc
    cases hf

theorem shift_of_builtin {s : Shift} {v : Value} (h : v.All fun f => f.isBuiltin = true) :
    v.shift s = v :=
  Value.shift_of_all (Value.All.mono (fun _ => Or.inr) h)

/-- A scope inside another one, in one run and in the other. -/
theorem Rel.scope_of_scope (h : T.Rel m₁ m₂) {i p : Nat} {s : Scope} (hu : T.Usable i)
    (hs : m₁.scopes[i]? = some s) (ho : s.outer = .scope p) :
    ∃ s' : Scope, m₂.scopes[T.shift.scope i]? = some s' ∧
      s'.vars = (s.vars.map fun p => (p.1, p.2.shift T.shift)) ∧ s'.consts = s.consts ∧
      s'.outer = .scope (T.shift.scope p) ∧ T.Usable p ∧ p < i := by
  obtain ⟨s', hs', hvars, hconsts, hout, -⟩ := h.scope i s hu hs
  refine ⟨s', hs', hvars, hconsts, ?_⟩
  rw [ho] at hout
  cases ho' : s'.outer with
  | store st => rw [ho'] at hout; exact hout.elim
  | scope q =>
    rw [ho'] at hout
    obtain ⟨rfl, hup, hpi⟩ := hout
    exact ⟨rfl, hup, hpi⟩

/-- An outermost scope, in one run and in the other. -/
theorem Rel.scope_of_store (h : T.Rel m₁ m₂) {i : Nat} {s : Scope} {a : Store} (hu : T.Usable i)
    (hs : m₁.scopes[i]? = some s) (ho : s.outer = .store a) :
    ∃ (s' : Scope) (b : Store), m₂.scopes[T.shift.scope i]? = some s' ∧
      s'.vars = (s.vars.map fun p => (p.1, p.2.shift T.shift)) ∧ s'.consts = s.consts ∧
      s'.outer = .store b ∧ T.Stores m₁ i a b := by
  obtain ⟨s', hs', hvars, hconsts, hout, -⟩ := h.scope i s hu hs
  rw [ho] at hout
  cases ho' : s'.outer with
  | scope q => rw [ho'] at hout; exact hout.elim
  | store b =>
    rw [ho'] at hout
    exact ⟨s', b, hs', hvars, hconsts, ho', hout⟩

/-- A clear name that a scope does not bind is clear outside of it. -/
theorem Clear.of_scope {i p : Nat} {n : Text} {s : Scope} (hc : T.Clear m i n)
    (hs : m.scopes[i]? = some s) (hn : s.vars.get? n = none) (ho : s.outer = .scope p)
    (hp : p < i) : T.Clear m p n := by
  cases hc with
  | old hold => exact .old (by omega)
  | bound hs₁ hn₁ =>
    rw [hs] at hs₁
    cases hs₁
    rw [Dict.has, hn] at hn₁
    cases hn₁
  | outer hs₁ ho₁ hp =>
    rw [hs] at hs₁
    cases hs₁
    rw [ho] at ho₁
    cases ho₁
    exact hp
  | root hs₁ ho₁ _ =>
    rw [hs] at hs₁
    cases hs₁
    rw [ho] at ho₁
    cases ho₁

/-- A clear name that an outermost scope does not bind is one on which its stores agree. -/
theorem Clear.of_store {i : Nat} {n : Text} {s : Scope} {st : Store} (hc : T.Clear m i n)
    (hs : m.scopes[i]? = some s) (hn : s.vars.get? n = none) (ho : s.outer = .store st) :
    i < T.shift.scopes ∨ T.agreed n := by
  cases hc with
  | old hold => exact Or.inl hold
  | bound hs₁ hn₁ =>
    rw [hs] at hs₁
    cases hs₁
    rw [Dict.has, hn] at hn₁
    cases hn₁
  | outer hs₁ ho₁ _ =>
    rw [hs] at hs₁
    cases hs₁
    rw [ho] at ho₁
    cases ho₁
  | root _ _ hn => exact Or.inr hn

/-- What a store reads, in one run and in the other. -/
theorem Stores.read (hlaw : T.Lawful) (h : T.Rel m₁ m₂) {i : Nat} {a b : Store}
    (hs : T.Stores m₁ i a b) {n : Text} (hn : i < T.shift.scopes ∨ T.agreed n) :
    b.read T.second m₂ n = (a.read T.first m₁ n).map (Value.shift T.shift) ∧
      ∀ v, a.read T.first m₁ n = some v → T.Knows m₁ v := by
  cases a with
  | empty =>
    cases b with
    | empty => exact ⟨rfl, fun v hv => by cases hv⟩
    | _ => exact hs.elim
  | snapshot a =>
    cases b with
    | snapshot b => exact hs.2 n hn
    | _ => exact hs.elim
  | host x =>
    cases b with
    | host y =>
      obtain ⟨-, hreads, -, hall⟩ := hs
      exact hlaw.read hreads m₁ m₂ h n (hn.elim (fun hi => hall hi n) fun h => h)
    | _ => exact hs.elim

/-- What a clear name stands for, in one run and in the other. -/
theorem Rel.lookup (hlaw : T.Lawful) (h : T.Rel m₁ m₂) {n : Text} {i : Nat} (hu : T.Usable i)
    (hi : i < m₁.scopes.size) (hc : T.Clear m₁ i n) :
    m₂.lookup T.second (T.shift.scope i) n =
        (m₁.lookup T.first i n).map (Value.shift T.shift) ∧
      ∀ v, m₁.lookup T.first i n = some v → T.Knows m₁ v := by
  induction i using Nat.strongRecOn with
  | _ i ih =>
    have hs : m₁.scopes[i]? = some m₁.scopes[i] := Array.getElem?_eq_getElem hi
    obtain ⟨s', hs', hvars, -, -, hknown⟩ := h.scope i _ hu hs
    rw [Machine.lookup, Machine.lookup, hs, hs']
    simp only [hvars, Dict.get?_map_snd]
    cases hget : m₁.scopes[i].vars.get? n with
    | some v =>
      refine ⟨rfl, fun w hw => ?_⟩
      cases hw
      exact hknown _ (Dict.mem_of_get? hget)
    | none =>
      simp only [Option.map_none]
      cases hout : m₁.scopes[i].outer with
      | scope p =>
        obtain ⟨s'', hs'', -, -, hout', hup, hpi⟩ := h.scope_of_scope hu hs hout
        obtain rfl : s'' = s' := Option.some.inj (hs''.symm.trans hs')
        simp only [hout', if_pos hpi, if_pos (Shift.scope_lt hpi)]
        exact ih p hpi hup (by omega) (hc.of_scope hs hget hout hpi)
      | store st =>
        obtain ⟨s'', st', hs'', -, -, hout', hst⟩ := h.scope_of_store hu hs hout
        obtain rfl : s'' = s' := Option.some.inj (hs''.symm.trans hs')
        obtain ⟨hread, hknows⟩ := hst.read hlaw h (hc.of_store hs hget hout)
        simp only [hout', hread]
        cases hval : st.read T.first m₁ n with
        | some v =>
          refine ⟨rfl, fun w hw => ?_⟩
          cases hw
          exact hknows v hval
        | none =>
          simp only [Option.map_none]
          cases hg : Globals.get? n with
          | none => exact ⟨rfl, fun w hw => by cases hw⟩
          | some v =>
            refine ⟨?_, fun w hw => ?_⟩
            · rw [Option.map_some, shift_of_builtin (all_globals hg)]
            · cases hw
              exact Knows.of_builtin (all_globals hg)

/-- Two places where a name is bound, in one run and in the other. -/
def Places (T : Twin ω) (m : Machine ω) (n : Text) : Option Location → Option Location → Prop
  | none, none => True
  | some (.scope i c), some (.scope j d) =>
    j = T.shift.scope i ∧ d = c ∧ T.Usable i ∧ i < m.scopes.size
  | some (.store a), some (.store b) => ∃ i, T.Stores m i a b ∧ (i < T.shift.scopes ∨ T.agreed n)
  | _, _ => False

/-- Where a clear name is bound, in one run and in the other. -/
theorem Rel.binding (hlaw : T.Lawful) (h : T.Rel m₁ m₂) {n : Text} {i : Nat} (hu : T.Usable i)
    (hi : i < m₁.scopes.size) (hc : T.Clear m₁ i n) :
    T.Places m₁ n (m₁.binding T.first i n) (m₂.binding T.second (T.shift.scope i) n) := by
  induction i using Nat.strongRecOn with
  | _ i ih =>
    have hs : m₁.scopes[i]? = some m₁.scopes[i] := Array.getElem?_eq_getElem hi
    obtain ⟨s', hs', hvars, hconsts, -, hknown⟩ := h.scope i _ hu hs
    have hhas : s'.vars.has n = m₁.scopes[i].vars.has n := by
      rw [hvars, Dict.has, Dict.get?_map_snd, Option.isSome_map]
      rfl
    rw [Machine.binding, Machine.binding, hs, hs']
    simp only [hhas, hconsts]
    cases hget : m₁.scopes[i].vars.get? n with
    | some v =>
      rw [Dict.has, hget]
      exact ⟨rfl, rfl, hu, hi⟩
    | none =>
      simp only [Dict.has, hget, Option.isSome_none, Bool.false_eq_true, if_false]
      cases hout : m₁.scopes[i].outer with
      | scope p =>
        obtain ⟨s'', hs'', -, -, hout', hup, hpi⟩ := h.scope_of_scope hu hs hout
        obtain rfl : s'' = s' := Option.some.inj (hs''.symm.trans hs')
        simp only [hout', if_pos hpi, if_pos (Shift.scope_lt hpi)]
        exact ih p hpi hup (by omega) (hc.of_scope hs hget hout hpi)
      | store st =>
        obtain ⟨s'', st', hs'', -, -, hout', hst⟩ := h.scope_of_store hu hs hout
        obtain rfl : s'' = s' := Option.some.inj (hs''.symm.trans hs')
        have hagreed := hc.of_store hs hget hout
        obtain ⟨hread, -⟩ := hst.read hlaw h hagreed
        simp only [hout', hread, Option.isSome_map]
        split
        · exact ⟨i, hst, hagreed⟩
        · trivial

/-! ### The steps of a machine -/

/-- Where the second run is the first one over again, dictionaries are the same in both. -/
theorem map_shift_alone (hlaw : T.Lawful) (halone : T.alone) (vars : Dict Value) :
    (vars.map fun p => (p.1, p.2.shift T.shift)) = vars := by
  obtain ⟨hf, hs⟩ := hlaw.still halone
  simp only [Value.shift_of_noGap hf hs]
  exact List.map_id vars

/-- There a scope is surrounded by the same in both runs. -/
theorem Outers.eq (hlaw : T.Lawful) (halone : T.alone) {i : Nat} {a b : Outer}
    (h : T.Outers m i a b) : b = a := by
  cases a with
  | scope p =>
    cases b with
    | store st => exact h.elim
    | scope q => rw [h.1, Shift.scope_of_noGap (hlaw.still halone).2]
  | store st =>
    cases b with
    | scope q => exact h.elim
    | store st' =>
      cases st <;> cases st' <;> first | exact h.elim | rfl | skip
      · rw [h.1 halone]
      · rw [h.1]

/-- Machines after a step that leaves the hosts alone. -/
theorem Rel.update (hlaw : T.Lawful) (h : T.Rel m₁ m₂) {m₁' m₂' : Machine ω}
    (hgrow : m₁.Grows m₁') (hhost₁ : m₁'.host = m₁.host) (hhost₂ : m₂'.host = m₂.host)
    (halone : T.alone → m₂ = m₁ → m₂' = m₁')
    (hsize : m₂'.scopes.size = m₁'.scopes.size + T.shift.scopeGap)
    (hfuncs : m₂'.funcs = m₁'.funcs + T.shift.funcGap)
    (hscope : ∀ (i : Nat) (s : Scope), T.Usable i → m₁'.scopes[i]? = some s →
      (m₁.scopes[i]? = some s ∧
        m₂'.scopes[T.shift.scope i]? = m₂.scopes[T.shift.scope i]?) ∨
      ∃ s' : Scope, m₂'.scopes[T.shift.scope i]? = some s' ∧
        s'.vars = (s.vars.map fun p => (p.1, p.2.shift T.shift)) ∧ s'.consts = s.consts ∧
        T.Outers m₁' i s.outer s'.outer ∧ ∀ p ∈ s.vars, T.Knows m₁' p.2) :
    T.Rel m₁' m₂' where
  size_le := Nat.le_trans h.size_le hgrow.size
  size_eq := hsize
  funcs_le := Nat.le_trans h.funcs_le hgrow.funcs
  funcs_eq := hfuncs
  scope := by
    intro i s hu hs
    rcases hscope i s hu hs with ⟨hs₁, hs₂⟩ | hnew
    · obtain ⟨s', hs', hvars, hconsts, hout, hknown⟩ := h.scope i s hu hs₁
      exact ⟨s', hs₂.trans hs', hvars, hconsts, hout.mono hgrow, fun p hp => (hknown p hp).mono hgrow⟩
    · exact hnew
  hosts := hlaw.stable m₁ m₂ m₁' m₂' h.hosts hgrow hhost₁ hhost₂ halone

theorem sim_writeLog (hlaw : T.Lawful) (h : T.Rel m₁ m₂) (voice : Voice) (t : Text) :
    T.Sim id (fun _ _ => True) (writeLog voice t) (writeLog voice t) m₁ m₂ := by
  have hgrow : m₁.Grows { m₁ with logs := .line voice t :: m₁.logs } :=
    ⟨Nat.le_refl _, Nat.le_refl _, fun _ s hs => ⟨s, hs, rfl, fun _ hn => hn⟩⟩
  refine Sim.step rfl rfl (h.update hlaw hgrow rfl rfl ?_ h.size_eq h.funcs_eq ?_) hgrow trivial
  · rintro - rfl
    rfl
  · exact fun i s _ hs => Or.inl ⟨hs, rfl⟩

theorem grows_push (m : Machine ω) (s : Scope) : m.Grows { m with scopes := m.scopes.push s } := by
  refine ⟨by simp, Nat.le_refl _, fun i t ht => ⟨t, ?_, rfl, fun _ hn => hn⟩⟩
  obtain ⟨hi, ht⟩ := Array.getElem?_eq_some_iff.1 ht
  rw [Array.getElem?_push_lt hi, ht]

/-- A new scope. -/
theorem sim_newScope (hlaw : T.Lawful) (h : T.Rel m₁ m₂) {a b : Outer}
    (ho : T.Outers m₁ m₁.scopes.size a b) {vars : Dict Value}
    (hvars : ∀ p ∈ vars, T.Knows m₁ p.2) :
    T.Sim T.shift.scope
      (fun m i => m = { m₁ with scopes := m₁.scopes.push { vars, outer := a } } ∧
        i = m₁.scopes.size)
      (newScope a vars) (newScope b (vars.map fun p => (p.1, p.2.shift T.shift))) m₁ m₂ := by
  have hgrow := grows_push m₁ { vars, outer := a }
  have hnew : T.shift.scope m₁.scopes.size = m₂.scopes.size := by
    rw [Shift.scope_of_le h.size_le, h.size_eq]
  refine Sim.step rfl (congrArg (fun i => Except.ok (i, _)) hnew.symm)
    (h.update hlaw hgrow rfl rfl ?_ ?_ h.funcs_eq ?_) hgrow ⟨rfl, rfl⟩
  · rintro halone rfl
    rw [ho.eq hlaw halone, map_shift_alone hlaw halone]
  · simp only [Array.size_push, h.size_eq]
    omega
  · intro i s hu hs
    by_cases hi : i = m₁.scopes.size
    · subst hi
      have hs' : s = { vars, outer := a } := by simpa using hs.symm
      subst hs'
      refine Or.inr ⟨{ vars := vars.map fun p => (p.1, p.2.shift T.shift), outer := b }, ?_, rfl,
        rfl, ho.mono hgrow, fun p hp => (hvars p hp).mono hgrow⟩
      rw [hnew]
      simp
    · have hlt : i < m₁.scopes.size := by
        obtain ⟨hi', -⟩ := Array.getElem?_eq_some_iff.1 hs
        simp only [Array.size_push] at hi'
        omega
      refine Or.inl ⟨?_, ?_⟩
      · rw [Array.getElem?_push_lt hlt] at hs
        rw [Array.getElem?_eq_getElem hlt]
        exact hs
      · have hlt' : T.shift.scope i < m₂.scopes.size := hnew ▸ Shift.scope_lt hlt
        rw [Array.getElem?_push_lt hlt', Array.getElem?_eq_getElem hlt']

/-- One function more, of which nothing is known yet. -/
theorem sim_count (hlaw : T.Lawful) (h : T.Rel m₁ m₂) (name : Text) (code : Code)
    (hcode : ∀ b, code ≠ .builtin b) :
    T.Sim (Func.shift T.shift)
      (fun m f => m = { m₁ with funcs := m₁.funcs + 1 } ∧ f = .mk name m₁.funcs code)
      (newFunc name code) (newFunc name (code.shift T.shift)) m₁ m₂ := by
  have hgrow : m₁.Grows { m₁ with funcs := m₁.funcs + 1 } :=
    ⟨Nat.le_refl _, Nat.le_succ _, fun _ s hs => ⟨s, hs, rfl, fun _ hn => hn⟩⟩
  have hshift : Func.shift T.shift (.mk name m₁.funcs code) =
      .mk name m₂.funcs (code.shift T.shift) := by
    rw [Func.shift, if_neg (Nat.not_lt.2 h.funcs_le), h.funcs_eq]
    cases code with
    | builtin b => exact absurd rfl (hcode b)
    | _ => simp only [Code.shiftId, Shift.func_of_le h.funcs_le]
  refine Sim.step rfl (congrArg (fun f => Except.ok (f, _)) hshift.symm)
    (h.update hlaw hgrow rfl rfl ?_ h.size_eq ?_ fun i s _ hs => Or.inl ⟨hs, rfl⟩) hgrow ⟨rfl, rfl⟩
  · rintro - rfl
    rfl
  simp only [h.funcs_eq]
  omega

/-- A function made during the runs may be held if what its code needs is there. -/
theorem knows_made {i : Nat} (hnew : T.shift.funcs ≤ i) (hi : i < m.funcs) (name : Text)
    {code : Code} (hall : code.All (T.KnowsFunc m))
    (hclosure : ∀ params body scope, code = .closure params body scope →
      T.Usable scope ∧ scope < m.scopes.size ∧
        body.hoisted.Uses True fun n => n ∈ params ∨ T.Clear m scope n) :
    T.Knows m (.func (.mk name i code)) := by
  have hold : ¬i < T.shift.funcs := Nat.not_lt.2 hnew
  refine ⟨⟨Or.inl hi, fun vs method _ h => absurd h hold, fun params body scope hc => Or.inr ?_⟩,
    hall⟩
  obtain ⟨hu, hs, hb⟩ := hclosure params body scope hc
  exact ⟨hu, hs, fun h => absurd h hold, hb⟩

/-- A new function. -/
theorem sim_newFunc (hlaw : T.Lawful) (h : T.Rel m₁ m₂) (name : Text) (code : Code)
    (hcode : ∀ b, code ≠ .builtin b) (hall : code.All (T.KnowsFunc m₁))
    (hclosure : ∀ params body scope, code = .closure params body scope →
      T.Usable scope ∧ scope < m₁.scopes.size ∧
        body.hoisted.Uses True fun n => n ∈ params ∨ T.Clear m₁ scope n) :
    T.Sim (Func.shift T.shift) (fun m f => T.Knows m (.func f)) (newFunc name code)
      (newFunc name (code.shift T.shift)) m₁ m₂ := by
  refine (sim_count hlaw h name code hcode).grown.mono ?_
  rintro m f ⟨hgrow, rfl, rfl⟩
  refine knows_made h.funcs_le (Nat.lt_succ_self _) name ?_ fun params body scope hc => ?_
  · cases code with
    | listMethod vs method =>
      have hvs := (allItems_iff vs).1 hall
      exact (allItems_iff vs).2 fun v hv => Knows.mono hgrow (hvs v hv)
    | _ => trivial
  · obtain ⟨hu, hs, hb⟩ := hclosure params body scope hc
    exact ⟨hu, hs, hb.mono fun n => Or.imp_right (Clear.mono hgrow)⟩

/-- A scope with a name written and its constants changed. -/
def written (name : Text) (v : Value) (k : List Text → List Text) (s : Scope) : Scope :=
  { s with vars := s.vars.insert name v, consts := k s.consts }

theorem grows_written (m : Machine ω) (i : Nat) (name : Text) (v : Value)
    (k : List Text → List Text) :
    m.Grows { m with scopes := m.scopes.modify i (written name v k) } := by
  refine ⟨by simp, Nat.le_refl _, fun j s hs => ?_⟩
  simp only [Array.getElem?_modify]
  split
  · rw [hs]
    exact ⟨_, rfl, rfl, fun n hn => Dict.has_insert hn⟩
  · exact ⟨s, hs, rfl, fun _ hn => hn⟩

/-- A name that was written to a scope is clear there. -/
theorem Clear.written {i : Nat} (hi : i < m.scopes.size) (name : Text) (v : Value)
    (k : List Text → List Text) :
    T.Clear { m with scopes := m.scopes.modify i (Twin.written name v k) } i name := by
  refine .bound (s := Twin.written name v k m.scopes[i]) ?_ ?_
  · rw [Array.getElem?_modify, if_pos rfl, Array.getElem?_eq_getElem hi]
    rfl
  · rw [Twin.written, Dict.has, Dict.get?_insert, if_pos rfl]
    rfl

/-- A write to a scope; the value may be one that can be held only after it. -/
theorem sim_write (hlaw : T.Lawful) (h : T.Rel m₁ m₂) (i : Nat) (name : Text) {v : Value}
    (k : List Text → List Text)
    (hv : T.Knows { m₁ with scopes := m₁.scopes.modify i (written name v k) } v) :
    T.Sim id (fun m _ => i < m₁.scopes.size → T.Clear m i name)
      (modifyScope i (written name v k))
      (modifyScope (T.shift.scope i) (written name (v.shift T.shift) k)) m₁ m₂ := by
  have hgrow := grows_written m₁ i name v k
  refine Sim.step rfl rfl (h.update hlaw hgrow rfl rfl ?_ ?_ h.funcs_eq ?_) hgrow ?_
  · rintro halone rfl
    obtain ⟨hf, hs⟩ := hlaw.still halone
    rw [Value.shift_of_noGap hf hs, Shift.scope_of_noGap hs]
  · simp only [Array.size_modify, h.size_eq]
  · intro j s hj hs
    simp only [Array.getElem?_modify] at hs ⊢
    by_cases hij : i = j
    · subst hij
      rw [if_pos rfl] at hs
      cases hs₀ : m₁.scopes[i]? with
      | none => rw [hs₀] at hs; cases hs
      | some s₀ =>
        rw [hs₀] at hs
        obtain rfl : written name v k s₀ = s := Option.some.inj hs
        obtain ⟨s', hs', hvars, hconsts, hout, hknown⟩ := h.scope i s₀ hj hs₀
        refine Or.inr ⟨written name (v.shift T.shift) k s', ?_, ?_, ?_, hout.mono hgrow, ?_⟩
        · rw [if_pos rfl, hs']
          rfl
        · rw [written, written, hvars, Dict.insert_map_snd]
        · rw [written, written, hconsts]
        · exact Value.all_insert (fun p hp => (hknown p hp).mono hgrow) hv
    · have hij' : T.shift.scope i ≠ T.shift.scope j := fun e => hij ((T.shift.scope_inj).1 e)
      rw [if_neg hij] at hs
      exact Or.inl ⟨hs, by rw [if_neg hij']⟩
  · exact fun hi => .written hi name v k

theorem sim_define (hlaw : T.Lawful) (h : T.Rel m₁ m₂) (i : Nat) (name : Text) {v : Value}
    (hv : T.Knows m₁ v) :
    T.Sim id (fun m _ => i < m₁.scopes.size → T.Clear m i name) (define i name v)
      (define (T.shift.scope i) name (v.shift T.shift)) m₁ m₂ :=
  sim_write hlaw h i name (fun cs => cs.filter (· != name)) (hv.mono (grows_written ..))

theorem sim_defineConst (hlaw : T.Lawful) (h : T.Rel m₁ m₂) (i : Nat) (name : Text) {v : Value}
    (hv : T.Knows m₁ v) :
    T.Sim id (fun m _ => i < m₁.scopes.size → T.Clear m i name) (defineConst i name v)
      (defineConst (T.shift.scope i) name (v.shift T.shift)) m₁ m₂ :=
  sim_write hlaw h i name (name :: ·) (hv.mono (grows_written ..))

/-- A write to a store. -/
theorem sim_storeWrite (hlaw : T.Lawful) (h : T.Rel m₁ m₂) {i : Nat} {a b : Store}
    (hs : T.Stores m₁ i a b) {name : Text} (hn : i < T.shift.scopes ∨ T.agreed name) {v : Value}
    (hv : T.Knows m₁ v) :
    T.SimE id (fun _ _ => True) (a.write T.first name v)
      (b.write T.second name (v.shift T.shift)) m₁ m₂ := by
  cases a with
  | empty =>
    cases b with
    | empty => exact SimE.throw _ h
    | _ => exact hs.elim
  | snapshot a =>
    cases b with
    | snapshot b => exact SimE.throw _ h
    | _ => exact hs.elim
  | host x =>
    cases b with
    | host y =>
      obtain ⟨rfl, -, hw, hall⟩ := hs
      cases x with
      | writable =>
        have hagreed : T.agreed name := hn.elim (fun hi => hall hi name) fun hn => hn
        exact hlaw.write (hw rfl) m₁ m₂ name v hagreed h hv
      | rendering => exact SimE.throw _ h
      | derived => exact SimE.throw _ h
    | _ => exact hs.elim

/-- A write to the place where a name is bound. -/
def assignAt (g : Host ω) (name : Text) (v : Value) : Option Location → Eval ω Unit
  | none => throw (.notDefined name)
  | some (.scope i const) =>
    if const then throw (.constantAssigned name) else sure (modifyScope i (written name v id))
  | some (.store st) => st.write g name v

theorem sim_assignAt (hlaw : T.Lawful) (h : T.Rel m₁ m₂) {name : Text} {a b : Option Location}
    (hplace : T.Places m₁ name a b) {v : Value} (hv : T.Knows m₁ v) :
    T.SimE id (fun _ _ => True) (assignAt T.first name v a)
      (assignAt T.second name (v.shift T.shift) b) m₁ m₂ := by
  cases a with
  | none =>
    cases b with
    | none => exact SimE.throw _ h
    | some l => exact hplace.elim
  | some l =>
    cases b with
    | none => cases l <;> exact hplace.elim
    | some l' =>
      cases l with
      | scope j const =>
        cases l' with
        | store st => exact hplace.elim
        | scope j' const' =>
          obtain ⟨rfl, rfl, -⟩ := hplace
          cases const' with
          | true => exact SimE.throw _ h
          | false =>
            have hwrite := sim_write hlaw h j name id (hv.mono (grows_written ..))
            exact (Sim.sure hwrite).mono fun _ _ _ => trivial
      | store st =>
        cases l' with
        | scope j const => exact hplace.elim
        | store st' =>
          obtain ⟨k, hs, hn⟩ := hplace
          exact sim_storeWrite hlaw h hs hn hv

theorem SimE.congr {x x' y y' : Eval ω α} (hx : x.run m₁ = x'.run m₁) (hy : y.run m₂ = y'.run m₂)
    (h : T.SimE g P x' y' m₁ m₂) : T.SimE g P x y m₁ m₂ := by
  unfold SimE Sim at *
  rw [hx, hy]
  exact h

/-- A write to the binding of a clear name. -/
theorem sim_assign (hlaw : T.Lawful) (h : T.Rel m₁ m₂) {i : Nat} (hu : T.Usable i)
    (hi : i < m₁.scopes.size) {name : Text} (hc : T.Clear m₁ i name) {v : Value}
    (hv : T.Knows m₁ v) :
    T.SimE id (fun _ _ => True) (assign T.first i name v)
      (assign T.second (T.shift.scope i) name (v.shift T.shift)) m₁ m₂ := by
  have hrun : ∀ (g : Host ω) (j : Nat) (w : Value) (m : Machine ω),
      (assign g j name w).run m = (assignAt g name w (m.binding g j name)).run m :=
    fun _ _ _ _ => rfl
  exact SimE.congr (hrun ..) (hrun ..) (sim_assignAt hlaw h (h.binding hlaw hu hi hc) hv)

end Twin

end Reactive
