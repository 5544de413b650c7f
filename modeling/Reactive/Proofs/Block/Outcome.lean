/-
What the outcome of an expression depends on.

A binding is evaluated over a snapshot of the state, in the scope of the
loops around it.  Its outcome depends only on what the snapshot holds for the
free names of the expression: another snapshot that agrees on these gives
the same outcome.

* `Twin.sim_outcomeIn` — an expression in two runs;
* `Block.outcomeIn_agrees` — two snapshots that agree on the free names.
-/
import Reactive.Block.Basic
import Reactive.Proofs.Eval.Lockstep
import Reactive.Proofs.Expr.Identifiers
import Reactive.View.Build

namespace Reactive

open Block (Frame Stage Site frameScope outcomeIn)

/-! ### The scope of a frame in two runs -/

/-- A frame with the numbers of the functions in it moved. -/
def Block.Frame.shift (s : Shift) (frame : Frame) : Frame :=
  frame.map fun vars => vars.map fun p => (p.1, p.2.shift s)

theorem Block.Frame.shift_of_noGap {s : Shift} (hf : s.funcGap = 0) (hs : s.scopeGap = 0)
    (frame : Frame) : frame.shift s = frame := by
  unfold Block.Frame.shift
  simp only [Value.shift_of_noGap hf hs]
  refine (List.map_congr_left fun vars _ => ?_).trans (List.map_id frame)
  exact List.map_id vars

/-- A name that one of the loops around a block binds. -/
def Block.Frame.Binds (frame : Frame) (n : Text) : Prop := ∃ vars ∈ frame, Dict.has vars n = true

namespace Twin

variable {σ : Type} {T : Twin (Stage σ)} {m₁ m₂ : Machine (Stage σ)}

/-- The scope of a frame: the names that the frame binds are clear in it, and so are those on which
the stores agree. -/
theorem sim_frameScope (hlaw : T.Lawful) (h : T.Rel m₁ m₂) {a b : Store}
    (hst : T.Stores m₁ m₁.scopes.size a b) : ∀ {frame : Frame},
    (∀ vars ∈ frame, ∀ p ∈ vars, T.Knows m₁ p.2) →
    T.Sim T.shift.scope
      (fun m i => T.Usable i ∧ i < m.scopes.size ∧
        ∀ n, T.agreed n ∨ frame.Binds n → T.Clear m i n)
      (frameScope a frame) (frameScope b (frame.shift T.shift)) m₁ m₂
  | [], _ => by
    have ho : T.Outers m₁ m₁.scopes.size (.store a) (.store b) := hst
    have hnone : ∀ p ∈ ([] : Dict Value), T.Knows m₁ p.2 := fun p hp => by cases hp
    refine Sim.mono (sim_newScope hlaw h ho hnone) ?_
    rintro m i ⟨rfl, rfl⟩
    have hs : (m₁.scopes.push { vars := [], outer := .store a })[m₁.scopes.size]? =
        some { vars := [], outer := .store a } := by simp
    refine ⟨Or.inl h.size_le, by simp, ?_⟩
    rintro n (hn | ⟨vars, hvars, -⟩)
    · exact .root hs rfl hn
    · cases hvars
  | vars :: outer, hframe => by
    obtain ⟨hvars, houter⟩ := List.forall_mem_cons.1 hframe
    refine Sim.bind (sim_frameScope hlaw h hst houter) ?_
    rintro i m₁' m₂' hrel hgrow ⟨husable, hmade, hclear⟩
    have hinner := sim_innerScope hlaw ⟨hrel, husable, hmade⟩ vars
      fun p hp => (hvars p hp).mono hgrow
    refine Sim.mono hinner ?_
    rintro m j ⟨husable', hmade', hclear'⟩
    refine ⟨husable', hmade', fun n hn => hclear' n ?_⟩
    rcases hn with hn | ⟨vars', hmem, hhas⟩
    · exact Or.inr (hclear n (Or.inl hn))
    · rcases List.mem_cons.1 hmem with rfl | hmem
      · exact Or.inl hhas
      · exact Or.inr (hclear n (Or.inr ⟨vars', hmem, hhas⟩))

/-- An expression over two stores, in the scope of a frame. -/
theorem sim_outcomeIn {c₁ c₂ : Caller (Stage σ)} (hlaw : T.Lawful) (hc : T.Callers c₁ c₂)
    (h : T.Rel m₁ m₂) {a b : Store} (hst : T.Stores m₁ m₁.scopes.size a b) {frame : Frame}
    (hframe : ∀ vars ∈ frame, ∀ p ∈ vars, T.Knows m₁ p.2) {e : Expr}
    (he : e.Uses (∀ n, T.agreed n) fun n => T.agreed n ∨ frame.Binds n) :
    T.Sim (Except.map (Value.shift T.shift)) (fun m r => ∀ v, r = .ok v → T.Knows m v)
      (outcomeIn c₁ a frame e) (outcomeIn c₂ b (frame.shift T.shift) e) m₁ m₂ := by
  refine Sim.bind (sim_frameScope hlaw h hst hframe) ?_
  rintro env m₁' m₂' hrel hgrow ⟨husable, hmade, hclear⟩
  have he' := (he.hoisted fun hall n => Or.inl (hall n)).mono hclear
  exact SimE.attempt (sim_eval hlaw hc ⟨hrel, husable, hmade⟩ he')

end Twin

/-! ### Scopes apart from live state -/

/-- A value without functions. -/
def Value.FunctionFree (v : Value) : Prop := v.All fun _ => False

/-- A function that was made already; one of the source closes over one of some scopes. -/
def Machine.Holds {ω : Type} (m : Machine ω) (X : Nat → Prop) (f : Func) : Prop :=
  (f.id < m.funcs ∨ f.isBuiltin = true) ∧
    ∀ params body scope, f.code = .closure params body scope → X scope

/-- What surrounds a scope is another one of some scopes, or values that stay what they are. -/
def Machine.Keeps {ω : Type} (m : Machine ω) (X : Nat → Prop) (i : Nat) : Outer → Prop
  | .scope p => X p ∧ p < i
  | .store .empty => True
  | .store (.snapshot values) => ∀ n v, values.get? n = some v → v.All (m.Holds X)
  | .store (.host _) => False

/-- Scopes that lead to no live state: each is inside another one of them or over values that stay
what they are, and the functions in them close over them. -/
structure Machine.Sealed {ω : Type} (m : Machine ω) (X : Nat → Prop) : Prop where
  made : ∀ i, X i → i < m.scopes.size
  outer : ∀ (i : Nat) (s : Scope), X i → m.scopes[i]? = some s → m.Keeps X i s.outer
  vars : ∀ (i : Nat) (s : Scope), X i → m.scopes[i]? = some s → ∀ p ∈ s.vars, p.2.All (m.Holds X)

/-- Two runs from one machine over snapshots that agree on some names. -/
def Machine.twin {ω : Type} (h : Host ω) (m : Machine ω) (X : Nat → Prop) (N : Text → Prop) :
    Twin ω where
  shift := ⟨m.funcs, 0, m.scopes.size, 0⟩
  shared := X
  agreed := N
  inert := fun _ => False
  excused := fun _ => False
  reads := False
  writes := False
  alone := False
  hosts := fun _ m₁ m₂ => m₁.host = m.host ∧ m₂.host = m.host
  first := h
  second := h

section

variable {ω : Type} {h : Host ω} {m : Machine ω} {X : Nat → Prop} {N : Text → Prop}

theorem Machine.shift_twin (v : Value) : v.shift (m.twin h X N).shift = v :=
  Value.shift_of_noGap rfl rfl v

theorem Machine.lawful_twin : (m.twin h X N).Lawful where
  stable := by
    rintro m₁ m₂ m₁' m₂' ⟨h₁, h₂⟩ - h₁' h₂' -
    exact ⟨h₁'.trans h₁, h₂'.trans h₂⟩
  still := False.elim
  read := False.elim
  write := False.elim

theorem Machine.callers_twin : (m.twin h X N).Callers h.caller h.caller :=
  ⟨rfl, rfl, Twin.calls_call Machine.lawful_twin (fun _ => id) callDepth⟩

theorem Machine.Sealed.knowsFunc (hX : m.Sealed X) {f : Func} (hf : m.Holds X f) :
    (m.twin h X N).KnowsFunc m f := by
  refine ⟨hf.1, fun vs _ _ _ v _ => Machine.shift_twin v, fun params body scope hc => Or.inr ?_⟩
  have hscope := hf.2 params body scope hc
  have hmade := hX.made scope hscope
  -- every name is clear in a scope from before the runs
  exact ⟨Or.inr hscope, hmade, fun _ => hmade,
    Body.uses_any trivial body.hoisted fun n => Or.inr (.old hmade)⟩

theorem Machine.Sealed.knows (hX : m.Sealed X) {v : Value} (hv : v.All (m.Holds X)) :
    (m.twin h X N).Knows m v :=
  Value.All.mono (fun _ => hX.knowsFunc) hv

theorem Machine.Sealed.rel (hX : m.Sealed X) : (m.twin h X N).Rel m m where
  size_le := Nat.le_refl _
  size_eq := rfl
  funcs_le := Nat.le_refl _
  funcs_eq := rfl
  hosts := ⟨rfl, rfl⟩
  scope := by
    intro i s hu hs
    have hlt : i < m.scopes.size := (Array.getElem?_eq_some_iff.1 hs).1
    have hi : X i := hu.resolve_left (Nat.not_le.2 hlt)
    have hsame : (m.twin h X N).shift.scope i = i := Shift.scope_of_lt hlt
    refine ⟨s, by rw [hsame]; exact hs, ?_, rfl, ?_, fun p hp => hX.knows (hX.vars i s hi hs p hp)⟩
    · simp only [Machine.shift_twin]
      exact (List.map_id _).symm
    · have hout := hX.outer i s hi hs
      cases ho : s.outer with
      | scope p =>
        rw [ho] at hout
        have hp : (m.twin h X N).shift.scope p = p := Shift.scope_of_lt (Nat.lt_trans hout.2 hlt)
        exact ⟨hp.symm, Or.inr hout.1, hout.2⟩
      | store st =>
        rw [ho] at hout
        cases st with
        | empty => trivial
        | snapshot values =>
          refine ⟨False.elim, fun n _ => ?_⟩
          refine ⟨?_, fun v hv => hX.knows (hout n v hv)⟩
          cases values.get? n with
          | none => rfl
          | some v => exact congrArg some (Machine.shift_twin v).symm
        | host access => exact hout.elim

theorem Machine.Sealed.stores (hX : m.Sealed X) {A B : Dict Value}
    (hagree : ∀ n, N n → A.get? n = B.get? n)
    (hheld : ∀ n v, N n → A.get? n = some v → v.All (m.Holds X)) :
    (m.twin h X N).Stores m m.scopes.size (.snapshot A) (.snapshot B) := by
  refine ⟨False.elim, fun n hn => ?_⟩
  have hN : N n := hn.resolve_left (Nat.lt_irrefl _)
  refine ⟨?_, fun v hv => hX.knows (hheld n v hN hv)⟩
  rw [← hagree n hN]
  cases A.get? n with
  | none => rfl
  | some v => exact congrArg some (Machine.shift_twin v).symm

end

/-! ### Two snapshots -/

namespace Block

variable {σ : Type} {m : Machine (Stage σ)} {X : Nat → Prop} {frame : Frame}

/-- Over snapshots that agree on the names that the frame does not bind, an expression has one
outcome. -/
theorem outcomeIn_agrees (h : Host (Stage σ)) (hX : m.Sealed X)
    (hframe : ∀ vars ∈ frame, ∀ p ∈ vars, p.2.All (m.Holds X)) {A B : Dict Value}
    {N : Text → Prop} (hagree : ∀ n, N n → A.get? n = B.get? n)
    (hheld : ∀ n v, N n → A.get? n = some v → v.All (m.Holds X)) {e : Expr}
    (he : e.Uses False fun n => N n ∨ frame.Binds n) :
    (outcomeIn h.caller (.snapshot A) frame e m).map Prod.fst =
      (outcomeIn h.caller (.snapshot B) frame e m).map Prod.fst := by
  have hknown : ∀ vars ∈ frame, ∀ p ∈ vars, (m.twin h X N).Knows m p.2 :=
    fun vars hv p hp => hX.knows (hframe vars hv p hp)
  have hsim := Twin.sim_outcomeIn Machine.lawful_twin Machine.callers_twin hX.rel
    (hX.stores hagree hheld) hknown (he.widen False.elim fun _ hn => hn)
  have hresult : ∀ r : Except EvalError Value, r.map (Value.shift (m.twin h X N).shift) = r := by
    intro r
    cases r with
    | error e => rfl
    | ok v => exact congrArg Except.ok (Machine.shift_twin v)
  have hfst := hsim.fst_eq fun _ => id
  rw [Frame.shift_of_noGap rfl rfl] at hfst
  rw [hfst]
  congr 1
  funext p
  exact (hresult p.1).symm

/-- What a binding renders, from the outcome of its expression. -/
theorem evaluate_fst (s : Site σ) (state : Dict Value) (b : View.Binding) :
    (s.evaluate frame state b m).map Prod.fst =
      ((s.outcome (.snapshot state) frame b.expr m).map Prod.fst).map
        fun r => r.toOption.getD .undefined := by
  unfold Site.evaluate
  rw [Run.bind_apply]
  cases s.outcome (.snapshot state) frame b.expr m with
  | error e => rfl
  | ok p =>
    obtain ⟨r, m'⟩ := p
    cases r <;> rfl

/-- The names of an expression that declares no function: its free names, and `this`. -/
theorem uses_of_named {e : Expr} (he : e.Every named false) (hno : e.NoFunctions) :
    e.Uses False fun n => n ∈ e.freeNames ∨ n = "this" := by
  have hplain := he.uses_hoisted e Names.plain_of_isIdentifier
  rw [Expr.hoisted_of_uses e hno] at hplain
  exact Expr.uses_freeNames (Expr.Uses.merge (fun _ h => h) e (fun _ h _ => h) hplain hno)

/-- A free name is one of the state, or a loop binds it. -/
theorem mem_state_or_binds {locals : List Text} {source : Text} {e : Expr}
    (hloc : ∀ n ∈ (View.Binding.ofExpr locals source e []).loc, frame.Binds n) {n : Text}
    (hn : n ∈ e.freeNames ∨ n = "this") :
    (n ∈ (View.Binding.ofExpr locals source e []).state ∨ n = "this") ∨ frame.Binds n := by
  rcases hn with hn | rfl
  · by_cases hl : n ∈ locals
    · refine Or.inr (hloc n ?_)
      simp [View.Binding.ofExpr, hn, hl]
    · refine Or.inl (Or.inl ?_)
      simp [View.Binding.ofExpr, hn, hl]
  · exact Or.inl (Or.inr rfl)

/-- Noninterference.  An expression without function declarations has one outcome over two
snapshots without functions that agree on its free names; and a binding renders one value over two
that agree on the state it mentions.  The functions among the loop variables lead to no live
state. -/
theorem outcome_of_freeNames_agree {base : Nat} {source : Text} {e : Expr}
    (hparse : Expr.parseAt base source = .ok e) (hno : e.NoFunctions) {A B : Dict Value}
    (hfree : ∀ n v, A.get? n = some v → v.FunctionFree) (hA : A.get? "this" = none)
    (hB : B.get? "this" = none) (h : Host (Stage σ)) (hX : m.Sealed X)
    (hframe : ∀ vars ∈ frame, ∀ p ∈ vars, p.2.All (m.Holds X)) :
    ((∀ n ∈ e.freeNames, A.get? n = B.get? n) →
      (outcomeIn h.caller (.snapshot A) frame e m).map Prod.fst =
        (outcomeIn h.caller (.snapshot B) frame e m).map Prod.fst) ∧
    ∀ (tag : Text) (tracing : Tracing) (bits : Bits) (locals : List Text),
      (∀ n ∈ (View.Binding.ofExpr locals source e []).loc, frame.Binds n) →
      (∀ n ∈ (View.Binding.ofExpr locals source e []).state, A.get? n = B.get? n) →
      (Site.evaluate ⟨tag, tracing, bits, h.caller, outcomeIn h.caller⟩ frame A
          (.ofExpr locals source e []) m).map Prod.fst =
        (Site.evaluate ⟨tag, tracing, bits, h.caller, outcomeIn h.caller⟩ frame B
          (.ofExpr locals source e []) m).map Prod.fst := by
  have huses := uses_of_named (Expr.named_of_parseAt hparse) hno
  have hheld : ∀ n v, A.get? n = some v → v.All (m.Holds X) := fun n v hv =>
    Value.All.mono (fun _ => False.elim) (hfree n v hv)
  refine ⟨fun hagree => ?_, fun tag tracing bits locals hloc hstate => ?_⟩
  · refine outcomeIn_agrees h hX hframe (N := fun n => n ∈ e.freeNames ∨ n = "this") ?_
      (fun n v _ => hheld n v) (huses.mono fun n => Or.inl)
    rintro n (hn | rfl)
    · exact hagree n hn
    · rw [hA, hB]
  · rw [evaluate_fst, evaluate_fst]
    refine congrArg _ (outcomeIn_agrees h hX hframe (fun n hn => ?_) (fun n v _ => hheld n v)
      (huses.mono fun n => mem_state_or_binds hloc))
    rcases hn with hn | rfl
    · exact hstate n hn
    · rw [hA, hB]

/-- A machine with one scope over a snapshot, and a function that closes over it. -/
def letterMachine : Machine (Stage Unit) :=
  { scopes := #[{ outer := .store (.snapshot [("k", .str "v")]) }], funcs := 1,
    host := { own := () } }

/-- A loop variable that holds this function. -/
def letterFrame : Frame := [[("f", .func (.mk [] 0 (.closure [] (.expr (.ident 0 "k")) 0)))]]

theorem sealed_letterMachine : letterMachine.Sealed (· = 0) := by
  refine ⟨fun i hi => hi ▸ Nat.zero_lt_one, fun i s hi hs => ?_, fun i s hi hs p hp => ?_⟩
  · subst hi
    cases hs
    intro n v hv
    cases Dict.mem_of_get? hv with
    | head => trivial
    | tail _ h => cases h
  · subst hi
    cases hs
    cases hp

/-- A host without any state. -/
def emptyHost : Host (Stage Unit) := ⟨fun _ _ => none, fun name _ => throw (.notDefined name)⟩

/-- Two snapshots that differ in a name that the expression does not mention. -/
theorem outcome_of_freeNames_agree_letters :
    (outcomeIn emptyHost.caller (.snapshot [("a", .str "x"), ("b", .str "y")]) letterFrame
        (.binary 0 .add (.call 0 (.ident 0 "f") [] false) (.ident 6 "a")) letterMachine).map
          Prod.fst =
      (outcomeIn emptyHost.caller (.snapshot [("a", .str "x")]) letterFrame
        (.binary 0 .add (.call 0 (.ident 0 "f") [] false) (.ident 6 "a")) letterMachine).map
          Prod.fst := by
  have hparse : Expr.parseAt 0 "f() + a" =
      .ok (.binary 0 .add (.call 0 (.ident 0 "f") [] false) (.ident 6 "a")) := by
    with_unfolding_all rfl
  refine (outcome_of_freeNames_agree hparse ⟨⟨trivial, trivial⟩, trivial⟩ ?_ rfl rfl emptyHost
    sealed_letterMachine ?_).1 ?_
  · intro n v hv
    have hmem := Dict.mem_of_get? hv
    simp only [List.mem_cons, List.not_mem_nil, or_false, Prod.mk.injEq] at hmem
    rcases hmem with ⟨-, rfl⟩ | ⟨-, rfl⟩ <;> trivial
  · intro vars hvars p hp
    obtain rfl := List.mem_singleton.1 hvars
    obtain rfl := List.mem_singleton.1 hp
    refine ⟨⟨Or.inl Nat.zero_lt_one, ?_⟩, trivial⟩
    rintro params body scope ⟨⟩
    rfl
  · have hnames : (Expr.binary 0 .add (.call 0 (.ident 0 "f") [] false) (.ident 6 "a")).freeNames =
        [("f" : Text), "a"] := by decide
    intro n hn
    rw [hnames, List.mem_cons, List.mem_singleton] at hn
    rcases hn with rfl | rfl <;> rfl

end Block

end Reactive
