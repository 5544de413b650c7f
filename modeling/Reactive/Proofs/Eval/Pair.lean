/-
Two runs of one program side by side.

The runs start on machines that are the same up to the order of properties, or
that are the same altogether, and the first of them may refuse to call some
functions: then it stops, and nothing is said of the second one.  Otherwise one
stops where the other does.  `Pair` says what the runs have in common,
`Pair.Rel` relates the machines at each moment, and `Pair.Sim` says that two
computations go the same way.

* `callUnless` — calls, some of which are refused;
* `Pair.Sim.bind`, `Pair.SimE.bind` — computations one after another;
* `Pair.Rel.lookup`, `Pair.sim_newScope`, `Pair.sim_assign`, … — the steps of a
  machine.
-/
import Reactive.Eval.Interp
import Reactive.Proofs.Eval.Sort
import Reactive.Proofs.Run
import Reactive.Proofs.Value.Akin

namespace Reactive

variable {ω α β : Type}

/-! ### Calls that are refused -/

/-- A call, unless the function is refused: then the run stops. -/
def callUnless (h : Host ω) (refused : Machine ω → Func → Bool) :
    Nat → Func → List Value → Eval ω Value
  | 0, _, _ => sure (halt .outOfFuel)
  | depth + 1, f, args => do
    if refused (← get) f then sure (halt .outOfRange)
    else callWith h (callUnless h refused depth) f args

/-- The evaluator over a host, where some functions cannot be called. -/
def Host.callerUnless (h : Host ω) (refused : Machine ω → Func → Bool) : Caller ω :=
  ⟨h, callUnless h refused callDepth⟩

/-- The store that a scope reads through in the end. -/
def Machine.outermost (m : Machine ω) (id : Nat) : Option Store :=
  match m.scopes[id]? with
  | none => none
  | some s =>
    match s.outer with
    | .scope p => if p < id then m.outermost p else none
    | .store st => some st
termination_by id

/-- Scopes that surround each other in one way read through one store. -/
theorem Machine.outermost_congr {m m' : Machine ω} {i : Nat}
    (h : ∀ j ≤ i, m'.scopes[j]?.map Scope.outer = m.scopes[j]?.map Scope.outer) :
    m'.outermost i = m.outermost i := by
  induction i using Nat.strongRecOn with
  | _ i ih =>
    have hi := h i (Nat.le_refl i)
    rw [outermost, outermost]
    cases hs : m.scopes[i]? with
    | none =>
      rw [hs] at hi
      rw [Option.map_eq_none_iff.1 hi]
    | some s =>
      rw [hs] at hi
      obtain ⟨s', hs', ho⟩ := Option.map_eq_some_iff.1 hi
      rw [hs']
      dsimp only
      rw [ho]
      cases s.outer with
      | store st => rfl
      | scope p =>
        dsimp only
        split
        · rename_i hp
          exact ih p hp fun j hj => h j (Nat.le_trans hj (Nat.le_of_lt hp))
        · rfl

/-! ### What two runs have in common -/

/-- What two runs of one program have in common. -/
structure Pair (ω : Type) where
  /-- Whether the order of properties may differ. -/
  loose : Prop
  first : Host ω
  second : Host ω
  hosts : ω → ω → Prop
  /-- The functions that the first run refuses to call. -/
  refused : Machine ω → Func → Bool
  /-- The reasons for which the first run may stop where the second one goes on. -/
  lax : Halt → Prop
  /-- How many scopes were made before the runs. -/
  base : Nat
  /-- The stores that these scopes read through. -/
  roots : Nat → Option Store
  /-- The stores that programs run over. -/
  fits : Store → Prop

namespace Pair

/-- What two stores have in common. -/
def Stores (loose : Prop) : Store → Store → Prop
  | .snapshot a, st => ∃ b, st = .snapshot b ∧ DictsAkin loose a b
  | st, st' => st' = st

/-- What surrounds a scope in one run and in the other. -/
def Outers (loose : Prop) : Outer → Outer → Prop
  | .scope p, o => o = .scope p
  | .store st, o => ∃ st', o = .store st' ∧ Stores loose st st'

/-- A scope in one run and in the other. -/
structure Scopes (loose : Prop) (s s' : Scope) : Prop where
  vars : DictsAkin loose s.vars s'.vars
  consts : s'.consts = s.consts
  outer : Outers loose s.outer s'.outer

variable (P : Pair ω)

/-- A scope in which programs may run: one made during the runs, or one whose store fits. -/
def Fits (i : Nat) : Prop := i < P.base → ∀ st, P.roots i = some st → P.fits st

/-- The machines of the two runs at one moment. -/
structure Rel (m₁ m₂ : Machine ω) : Prop where
  base_le : P.base ≤ m₁.scopes.size
  size : m₂.scopes.size = m₁.scopes.size
  funcs : m₂.funcs = m₁.funcs
  logs : m₂.logs = m₁.logs
  scope : ∀ (i : Nat) (hi : i < m₁.scopes.size) (hj : i < m₂.scopes.size),
    Scopes P.loose m₁.scopes[i] m₂.scopes[i]
  hosts : P.hosts m₁.host m₂.host
  roots : ∀ i < P.base, m₁.outermost i = P.roots i
  fresh : ∀ i, P.base ≤ i → ∀ st, m₁.outermost i = some st → P.fits st

variable {P} {m₁ m₂ : Machine ω}

/-- The store of a scope in which programs may run fits. -/
theorem Rel.fits (h : P.Rel m₁ m₂) {i : Nat} (hi : P.Fits i) {st : Store}
    (hst : m₁.outermost i = some st) : P.fits st := by
  by_cases hbase : i < P.base
  · exact hi hbase st (h.roots i hbase ▸ hst)
  · exact h.fresh i (Nat.not_lt.1 hbase) st hst

/-- A scope that is there in one run is there in the other. -/
theorem Rel.getElem? (h : P.Rel m₁ m₂) (i : Nat) : m₁.scopes[i]? = none ∧ m₂.scopes[i]? = none ∨
    ∃ s s', m₁.scopes[i]? = some s ∧ m₂.scopes[i]? = some s' ∧ Scopes P.loose s s' := by
  by_cases hi : i < m₁.scopes.size
  · have hj : i < m₂.scopes.size := h.size ▸ hi
    exact Or.inr ⟨_, _, Array.getElem?_eq_getElem hi, Array.getElem?_eq_getElem hj,
      h.scope i hi hj⟩
  · have hj : ¬i < m₂.scopes.size := h.size ▸ hi
    exact Or.inl ⟨Array.getElem?_eq_none (Nat.not_lt.1 hi), Array.getElem?_eq_none (Nat.not_lt.1 hj)⟩

/-! ### Computations that go the same way -/

variable (P) in
/-- Two computations that go the same way: if the first stops, the second stops for the same reason,
or the reason is one that does not matter; otherwise the second answers, and `Q` relates the
answers. -/
def Sim (Q : α → α → Prop) (x y : Run ω α) : Prop :=
  ∀ m₁ m₂, P.Rel m₁ m₂ →
    match x m₁ with
    | .error e => P.lax e ∨ y m₂ = .error e
    | .ok (a, m₁') => ∃ b m₂', y m₂ = .ok (b, m₂') ∧ P.Rel m₁' m₂' ∧ Q a b

variable (P) in
/-- The same for computations that may fail: they fail with the same error. -/
def SimE (Q : α → α → Prop) (x y : Eval ω α) : Prop := P.Sim (Outcomes Q) x.run y.run

variable {Q : α → α → Prop} {Q' : β → β → Prop}

theorem Sim.pure {a b : α} (h : Q a b) : P.Sim Q (pure a) (pure b) :=
  fun _ m₂ hrel => ⟨b, m₂, rfl, hrel, h⟩

theorem Sim.bind {x y : Run ω α} {f g : α → Run ω β} (hx : P.Sim Q x y)
    (hf : ∀ a b, Q a b → P.Sim Q' (f a) (g b)) : P.Sim Q' (x >>= f) (y >>= g) := by
  intro m₁ m₂ hrel
  have hx := hx m₁ m₂ hrel
  rw [Run.bind_apply]
  cases hx₁ : x m₁ with
  | error e =>
    rw [hx₁] at hx
    exact hx.imp_right Run.bind_error
  | ok p =>
    obtain ⟨a, m₁'⟩ := p
    rw [hx₁] at hx
    obtain ⟨b, m₂', hy, hrel', hab⟩ := hx
    rw [Run.bind_ok hy]
    exact hf a b hab m₁' m₂' hrel'

/-- A step that cannot stop. -/
theorem Sim.step {x y : Run ω α} (h : ∀ m₁ m₂, P.Rel m₁ m₂ → ∃ a m₁' b m₂',
    x m₁ = .ok (a, m₁') ∧ y m₂ = .ok (b, m₂') ∧ P.Rel m₁' m₂' ∧ Q a b) : P.Sim Q x y := by
  intro m₁ m₂ hrel
  obtain ⟨a, m₁', b, m₂', hx, hy, hrel', hab⟩ := h m₁ m₂ hrel
  rw [hx]
  exact ⟨b, m₂', hy, hrel', hab⟩

theorem SimE.pure {a b : α} (h : Q a b) : P.SimE Q (pure a) (pure b) :=
  Sim.pure ⟨b, rfl, h⟩

theorem SimE.throw (e : EvalError) : P.SimE Q (throw e) (throw e) := Sim.pure rfl

theorem SimE.bind {x y : Eval ω α} {f g : α → Eval ω β} (hx : P.SimE Q x y)
    (hf : ∀ a b, Q a b → P.SimE Q' (f a) (g b)) : P.SimE Q' (x >>= f) (y >>= g) := by
  unfold SimE
  rw [ExceptT.run_bind, ExceptT.run_bind]
  refine Sim.bind hx fun r r' hr => ?_
  cases r with
  | error e =>
    obtain rfl := hr
    exact SimE.throw e
  | ok a =>
    obtain ⟨b, rfl, hab⟩ := hr
    exact hf a b hab

theorem SimE.map {x y : Eval ω α} {f g : α → β} (hx : P.SimE Q x y)
    (hf : ∀ a b, Q a b → Q' (f a) (g b)) : P.SimE Q' (f <$> x) (g <$> y) := by
  rw [map_eq_pure_bind, map_eq_pure_bind]
  exact SimE.bind hx fun a b hab => SimE.pure (hf a b hab)

theorem Sim.sure {x y : Run ω α} (hx : P.Sim Q x y) : P.SimE Q (sure x) (sure y) := by
  have hrun : ∀ z : Run ω α, (Reactive.sure z).run = z >>= fun a => Pure.pure (.ok a) :=
    fun _ => map_eq_pure_bind _ _
  unfold SimE
  rw [hrun, hrun]
  exact Sim.bind hx fun a b hab => Sim.pure ⟨b, rfl, hab⟩

theorem SimE.attempt {x y : Eval ω α} (hx : P.SimE Q x y) :
    P.Sim (Outcomes Q) (attempt x) (attempt y) := hx

theorem SimE.ofOutcome {r r' : Except EvalError α} (h : Outcomes Q r r') :
    P.SimE Q (ofOutcome r) (ofOutcome r') := by
  cases r with
  | error e =>
    obtain rfl := h
    exact SimE.throw e
  | ok a =>
    obtain ⟨b, rfl, hab⟩ := h
    exact SimE.pure hab

/-- What is done with the machine as it is. -/
theorem SimE.look {f g : Machine ω → Eval ω α}
    (h : ∀ m₁ m₂, P.Rel m₁ m₂ → P.SimE Q (f m₁) (g m₂)) :
    P.SimE Q (get >>= f) (get >>= g) :=
  fun m₁ m₂ hrel => h m₁ m₂ hrel m₁ m₂ hrel

/-- Two computations that stop for one reason. -/
theorem Sim.halt (e : Halt) : P.Sim Q (halt e) (halt e) := fun _ _ _ => .inr rfl

/-! ### Looking up names -/

variable (P) in
/-- What hosts and refused functions have to satisfy. -/
structure Lawful : Prop where
  read : ∀ a b, P.hosts a b → ∀ n, OptionsAkin P.loose (P.first.read a n) (P.second.read b n)
  write : P.fits (.host .writable) → ∀ name v w, v.Akin P.loose w →
    P.SimE (fun _ _ => True) (P.first.write name v) (P.second.write name w)
  closure : ∀ m₁ m₂, P.Rel m₁ m₂ → ∀ f params body scope, f.code = .closure params body scope →
    P.refused m₁ f = false → P.Fits scope
  lists : P.loose → ∀ m f b, f.code = .builtin b → b.listsProperties = true → P.refused m f = true
  refused : ∀ m f, P.refused m f = true → P.lax .outOfRange

/-- What a store reads. -/
theorem Rel.read (hlaw : P.Lawful) (h : P.Rel m₁ m₂) {st st' : Store} (hst : Stores P.loose st st')
    (n : Text) : OptionsAkin P.loose (st.read P.first m₁ n) (st'.read P.second m₂ n) := by
  cases st with
  | empty =>
    obtain rfl := hst
    rfl
  | snapshot a =>
    obtain ⟨b, rfl, hab⟩ := hst
    exact hab.get? n
  | host x =>
    obtain rfl := hst
    exact hlaw.read _ _ h.hosts n

/-- What a name stands for. -/
theorem Rel.lookup (hlaw : P.Lawful) (h : P.Rel m₁ m₂) (i : Nat) (n : Text) :
    OptionsAkin P.loose (m₁.lookup P.first i n) (m₂.lookup P.second i n) := by
  induction i using Nat.strongRecOn with
  | _ i ih =>
    rw [Machine.lookup, Machine.lookup]
    rcases h.getElem? i with ⟨h₁, h₂⟩ | ⟨s, s', h₁, h₂, hs⟩
    · rw [h₁, h₂]
      rfl
    rw [h₁, h₂]
    dsimp only
    have hvar := hs.vars.get? n
    cases hn : s.vars.get? n with
    | some v =>
      rw [hn] at hvar
      obtain ⟨w, hw, hvw⟩ := hvar
      rw [hw]
      exact ⟨w, rfl, hvw⟩
    | none =>
      rw [hn] at hvar
      rw [show s'.vars.get? n = none from hvar]
      have hout := hs.outer
      cases ho : s.outer with
      | scope p =>
        rw [ho] at hout
        rw [show s'.outer = .scope p from hout]
        dsimp only
        split
        · exact ih p ‹_›
        · rfl
      | store st =>
        rw [ho] at hout
        obtain ⟨st', hst', hst⟩ := hout
        rw [hst']
        dsimp only
        have hread := h.read hlaw hst n
        cases hv : st.read P.first m₁ n with
        | some v =>
          rw [hv] at hread
          obtain ⟨w, hw, hvw⟩ := hread
          rw [hw]
          exact ⟨w, rfl, hvw⟩
        | none =>
          rw [hv] at hread
          rw [show st'.read P.second m₂ n = none from hread]
          exact .refl _

/-- Where a name is bound. -/
def Places (P : Pair ω) : Option Location → Option Location → Prop
  | none, b => b = none
  | some (.scope i c), b => b = some (.scope i c)
  | some (.store st), b => ∃ st', b = some (.store st') ∧ Stores P.loose st st' ∧ P.fits st

/-- Where a name is bound. -/
theorem Rel.binding (hlaw : P.Lawful) (h : P.Rel m₁ m₂) {i : Nat} (hi : P.Fits i) (n : Text) :
    P.Places (m₁.binding P.first i n) (m₂.binding P.second i n) := by
  have hgo : ∀ i, (∀ st, m₁.outermost i = some st → P.fits st) →
      P.Places (m₁.binding P.first i n) (m₂.binding P.second i n) := by
    intro i
    induction i using Nat.strongRecOn with
    | _ i ih =>
      intro hfits
      rw [Machine.outermost] at hfits
      rw [Machine.binding, Machine.binding]
      rcases h.getElem? i with ⟨h₁, h₂⟩ | ⟨s, s', h₁, h₂, hs⟩
      · rw [h₁, h₂]
        rfl
      rw [h₁] at hfits ⊢
      rw [h₂]
      dsimp only at hfits ⊢
      have hhas : s'.vars.has n = s.vars.has n := (hs.vars.get? n).isSome
      rw [hhas, hs.consts]
      split
      · rfl
      have hout := hs.outer
      cases ho : s.outer with
      | scope p =>
        rw [ho] at hout hfits
        rw [show s'.outer = .scope p from hout]
        dsimp only at hfits ⊢
        split
        · rename_i hp
          rw [if_pos hp] at hfits
          exact ih p hp hfits
        · rfl
      | store st =>
        rw [ho] at hout hfits
        obtain ⟨st', hst', hst⟩ := hout
        rw [hst']
        dsimp only
        rw [(h.read hlaw hst n).isSome]
        split
        · exact ⟨st', rfl, hst, hfits st rfl⟩
        · rfl
  exact hgo i fun st hst => h.fits hi hst

/-! ### The steps of a machine -/

/-- Machines that differ from related ones in the functions and the logs only. -/
theorem Rel.of_scopes (h : P.Rel m₁ m₂) {n₁ n₂ : Machine ω} (hs₁ : n₁.scopes = m₁.scopes)
    (hs₂ : n₂.scopes = m₂.scopes) (hhosts : P.hosts n₁.host n₂.host)
    (hfuncs : n₂.funcs = n₁.funcs) (hlogs : n₂.logs = n₁.logs) : P.Rel n₁ n₂ := by
  have hroots : ∀ i, n₁.outermost i = m₁.outermost i := fun i =>
    Machine.outermost_congr fun j _ => by rw [hs₁]
  refine ⟨hs₁ ▸ h.base_le, hs₁ ▸ hs₂ ▸ h.size, hfuncs, hlogs, ?_, hhosts,
    fun i hi => (hroots i).trans (h.roots i hi),
    fun i hi st hst => h.fresh i hi st ((hroots i).symm.trans hst)⟩
  simp only [hs₁, hs₂]
  exact h.scope

/-- A line in the log. -/
theorem sim_writeLog (voice : Voice) (t : Text) :
    P.Sim (fun _ _ => True) (writeLog voice t) (writeLog voice t) :=
  Sim.step fun _ _ h => ⟨_, _, _, _, rfl, rfl,
    h.of_scopes rfl rfl h.hosts h.funcs (congrArg (LogEntry.line voice t :: ·) h.logs), trivial⟩

theorem outermost_push (m : Machine ω) (s : Scope) {i : Nat} (hi : i < m.scopes.size) :
    Machine.outermost { m with scopes := m.scopes.push s } i = m.outermost i := by
  refine Machine.outermost_congr fun j hj => ?_
  rw [Array.getElem?_push_lt (Nat.lt_of_le_of_lt hj hi), Array.getElem?_eq_getElem]

/-- A new scope whose store fits. -/
theorem sim_newScope {o o' : Outer} (ho : Outers P.loose o o') {vars vars' : Dict Value}
    (hvars : DictsAkin P.loose vars vars')
    (hfits : ∀ m₁ m₂, P.Rel m₁ m₂ → ∀ st, Machine.outermost
      { m₁ with scopes := m₁.scopes.push { vars, outer := o } } m₁.scopes.size = some st →
      P.fits st) :
    P.Sim (fun i j => j = i ∧ P.Fits i) (newScope o vars) (newScope o' vars') := by
  refine Sim.step fun m₁ m₂ h => ⟨_, _, _, _, rfl, rfl, ?_, h.size, fun hi => ?_⟩
  · refine ⟨?_, ?_, h.funcs, h.logs, fun i hi hj => ?_, h.hosts, fun i hi => ?_,
      fun i hi st hst => ?_⟩
    · rw [Array.size_push]
      exact Nat.le_succ_of_le h.base_le
    · rw [Array.size_push, Array.size_push, h.size]
    · simp only [Array.getElem_push, h.size]
      split
      · exact h.scope i _ _
      · exact ⟨hvars, rfl, ho⟩
    · rw [outermost_push _ _ (Nat.lt_of_lt_of_le hi h.base_le)]
      exact h.roots i hi
    · rcases Nat.lt_trichotomy i m₁.scopes.size with hlt | rfl | hgt
      · exact h.fresh i hi st ((outermost_push _ _ hlt).symm.trans hst)
      · exact hfits m₁ m₂ h st hst
      · rw [Machine.outermost, Array.getElem?_eq_none (by rw [Array.size_push]; omega)] at hst
        cases hst
  · exact absurd h.base_le (Nat.not_le.2 hi)

/-- A scope inside another one. -/
theorem sim_innerScope {env : Nat} (henv : P.Fits env) {vars vars' : Dict Value}
    (hvars : DictsAkin P.loose vars vars') :
    P.Sim (fun i j => j = i ∧ P.Fits i) (newScope (.scope env) vars)
      (newScope (.scope env) vars') := by
  have ho : Outers P.loose (.scope env) (.scope env) := rfl
  refine sim_newScope ho hvars fun m₁ m₂ h st hst => ?_
  rw [Machine.outermost, Array.getElem?_push_size] at hst
  dsimp only at hst
  split at hst
  · rw [outermost_push _ _ ‹_›] at hst
    exact h.fits henv hst
  · cases hst

/-- An outermost scope. -/
theorem sim_rootScope {st st' : Store} (hst : Stores P.loose st st') (hfits : P.fits st) :
    P.Sim (fun i j => j = i ∧ P.Fits i) (newScope (.store st) []) (newScope (.store st') []) := by
  have ho : Outers P.loose (.store st) (.store st') := ⟨st', rfl, hst⟩
  refine sim_newScope ho .nil fun m₁ m₂ h st₁ hst₁ => ?_
  rw [Machine.outermost, Array.getElem?_push_size] at hst₁
  obtain rfl := Option.some.inj hst₁
  exact hfits

/-- A new function. -/
theorem sim_newFunc (name : Text) {c d : Code} (hcode : c.Akin P.loose d) :
    P.Sim (Func.Akin P.loose) (newFunc name c) (newFunc name d) := by
  refine Sim.step fun m₁ m₂ h => ⟨_, _, _, _, rfl, rfl,
    h.of_scopes rfl rfl h.hosts (congrArg (· + 1) h.funcs) h.logs, d, ?_, hcode⟩
  rw [h.funcs]

/-- A write to a scope, with a change of its constants. -/
theorem sim_modifyScope (i : Nat) {f g : Scope → Scope}
    (hfg : ∀ s s', Scopes P.loose s s' → Scopes P.loose (f s) (g s'))
    (houter : ∀ s, (f s).outer = s.outer) :
    P.Sim (fun _ _ => True) (modifyScope i f) (modifyScope i g) := by
  refine Sim.step fun m₁ m₂ h => ⟨_, _, _, _, rfl, rfl, ?_, trivial⟩
  have hroots : ∀ j, Machine.outermost { m₁ with scopes := m₁.scopes.modify i f } j =
      m₁.outermost j := by
    refine fun j => Machine.outermost_congr fun k _ => ?_
    simp only [Array.getElem?_modify]
    split
    · rw [Option.map_map]
      exact congrArg (Option.map · _) (funext houter)
    · rfl
  refine ⟨?_, ?_, h.funcs, h.logs, fun j hj hj' => ?_, h.hosts,
    fun j hj => (hroots j).trans (h.roots j hj),
    fun j hj st hst => h.fresh j hj st ((hroots j).symm.trans hst)⟩
  · rw [Array.size_modify]
    exact h.base_le
  · rw [Array.size_modify, Array.size_modify]
    exact h.size
  · simp only [Array.getElem_modify]
    split
    · exact hfg _ _ (h.scope j _ _)
    · exact h.scope j _ _

theorem sim_define (i : Nat) (name : Text) {v w : Value} (h : v.Akin P.loose w) :
    P.Sim (fun _ _ => True) (define i name v) (define i name w) :=
  sim_modifyScope i (fun _ _ hs => ⟨hs.vars.insert name h,
    congrArg (List.filter (· != name)) hs.consts, hs.outer⟩) fun _ => rfl

theorem sim_defineConst (i : Nat) (name : Text) {v w : Value} (h : v.Akin P.loose w) :
    P.Sim (fun _ _ => True) (defineConst i name v) (defineConst i name w) :=
  sim_modifyScope i (fun _ _ hs => ⟨hs.vars.insert name h, congrArg (name :: ·) hs.consts,
    hs.outer⟩) fun _ => rfl

/-- A write to a store. -/
theorem sim_storeWrite (hlaw : P.Lawful) {st st' : Store} (hst : Stores P.loose st st')
    (hfits : P.fits st) (name : Text) {v w : Value} (h : v.Akin P.loose w) :
    P.SimE (fun _ _ => True) (st.write P.first name v) (st'.write P.second name w) := by
  cases st with
  | empty =>
    obtain rfl := hst
    exact SimE.throw _
  | snapshot a =>
    obtain ⟨b, rfl, -⟩ := hst
    exact SimE.throw _
  | host x =>
    obtain rfl := hst
    cases x with
    | writable => exact hlaw.write hfits name v w h
    | rendering => exact SimE.throw _
    | derived => exact SimE.throw _

/-- A write to the binding that a name resolves to. -/
theorem sim_assign (hlaw : P.Lawful) {env : Nat} (henv : P.Fits env) (name : Text) {v w : Value}
    (h : v.Akin P.loose w) :
    P.SimE (fun _ _ => True) (assign P.first env name v) (assign P.second env name w) := by
  refine SimE.look fun m₁ m₂ hrel => ?_
  have hplace := hrel.binding hlaw henv name
  cases hb : m₁.binding P.first env name with
  | none =>
    rw [hb] at hplace
    rw [show m₂.binding P.second env name = none from hplace]
    exact SimE.throw _
  | some place =>
    cases place with
    | scope i const =>
      rw [hb] at hplace
      rw [show m₂.binding P.second env name = some (.scope i const) from hplace]
      cases const with
      | true => exact SimE.throw _
      | false =>
        refine Sim.sure (sim_modifyScope i (fun _ _ hs => ?_) fun _ => rfl)
        exact ⟨hs.vars.insert name h, hs.consts, hs.outer⟩
    | store st =>
      rw [hb] at hplace
      obtain ⟨st', hb', hst, hfits⟩ := hplace
      rw [hb']
      exact sim_storeWrite hlaw hst hfits name h

end Pair

end Reactive
