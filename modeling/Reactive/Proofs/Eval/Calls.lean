/-
Calls that go the same way.

Two ways to call functions go the same way (`Twin.Calls`) if calls of one
known function with known arguments do.  Then so do the methods of lists,
which call the functions they are given, and what members of values are made.

* `Twin.sim_listMethod`, `Twin.sim_member`, `Twin.sim_itemAt`.
-/
import Reactive.Proofs.Eval.Sort
import Reactive.Proofs.Eval.Twin

namespace Reactive.Twin

variable {ω α : Type} {T : Twin ω} {m₁ m₂ : Machine ω}

/-- Every one of some values is known. -/
def KnowsAll (T : Twin ω) (m : Machine ω) (vs : List Value) : Prop := ∀ v ∈ vs, T.Knows m v

theorem KnowsAll.mono {m m' : Machine ω} (h : m.Grows m') {vs : List Value}
    (hvs : T.KnowsAll m vs) : T.KnowsAll m' vs :=
  fun v hv => (hvs v hv).mono h

variable (T) in
/-- Two evaluations with one value as the answer. -/
def SimV (x y : Eval ω Value) (m₁ m₂ : Machine ω) : Prop :=
  T.SimE (Value.shift T.shift) T.Knows x y m₁ m₂

variable (T) in
/-- Two evaluations with several values as the answer. -/
def SimL (x y : Eval ω (List Value)) (m₁ m₂ : Machine ω) : Prop :=
  T.SimE (List.map (Value.shift T.shift)) T.KnowsAll x y m₁ m₂

variable (T) in
/-- Two evaluations with an answer that does not depend on numbers. -/
def SimP {α : Type} (x y : Eval ω α) (m₁ m₂ : Machine ω) : Prop :=
  T.SimE id (fun _ _ => True) x y m₁ m₂

variable (T) in
/-- Two ways to call functions that go the same way. -/
def Calls (call₁ call₂ : Func → List Value → Eval ω Value) : Prop :=
  ∀ (m₁ m₂ : Machine ω) (f : Func) (args : List Value), T.Rel m₁ m₂ → T.Knows m₁ (.func f) →
    T.KnowsAll m₁ args →
    T.SimV (call₁ f args) (call₂ (f.shift T.shift) (args.map (Value.shift T.shift))) m₁ m₂

theorem knows_pair {m : Machine ω} {v : Value} (hv : T.Knows m v) (i : Nat) :
    T.KnowsAll m [v, .int i] := by
  intro w hw
  simp only [List.mem_cons, List.not_mem_nil, or_false] at hw
  rcases hw with rfl | rfl
  · exact hv
  · trivial

section

variable {call₁ call₂ : Func → List Value → Eval ω Value} (hcall : T.Calls call₁ call₂)

include hcall

/-- A callback on an item and its place. -/
theorem sim_callback (h : T.Rel m₁ m₂) {f : Func} (hf : T.Knows m₁ (.func f)) {v : Value}
    (hv : T.Knows m₁ v) (i : Nat) :
    T.SimV (call₁ f [v, .int i]) (call₂ (f.shift T.shift) [v.shift T.shift, .int i]) m₁ m₂ :=
  hcall m₁ m₂ f [v, .int i] h hf (knows_pair hv i)

theorem sim_map {f : Func} (vs : List Value) : ∀ (i : Nat) (m₁ m₂ : Machine ω), T.Rel m₁ m₂ →
    T.Knows m₁ (.func f) → T.KnowsAll m₁ vs →
    T.SimL (Callback.map call₁ f i vs)
      (Callback.map call₂ (f.shift T.shift) i (vs.map (Value.shift T.shift))) m₁ m₂ := by
  induction vs with
  | nil =>
    intro i m₁ m₂ h hf hvs
    exact SimE.pure h hvs
  | cons v r ih =>
    intro i m₁ m₂ h hf hvs
    obtain ⟨hv, hr⟩ := List.forall_mem_cons.1 hvs
    refine SimE.bind (sim_callback hcall h hf hv i) fun w m₁' m₂' hrel hgrow hw => ?_
    refine SimE.bind (ih (i + 1) m₁' m₂' hrel (hf.mono hgrow) (KnowsAll.mono hgrow hr)) ?_
    intro ws m₁'' m₂'' hrel' hgrow' hws
    exact SimE.pure hrel' (List.forall_mem_cons.2 ⟨hw.mono hgrow', hws⟩)

theorem sim_filter {f : Func} (vs : List Value) : ∀ (i : Nat) (m₁ m₂ : Machine ω), T.Rel m₁ m₂ →
    T.Knows m₁ (.func f) → T.KnowsAll m₁ vs →
    T.SimL (Callback.filter call₁ f i vs)
      (Callback.filter call₂ (f.shift T.shift) i (vs.map (Value.shift T.shift))) m₁ m₂ := by
  induction vs with
  | nil =>
    intro i m₁ m₂ h hf hvs
    exact SimE.pure h hvs
  | cons v r ih =>
    intro i m₁ m₂ h hf hvs
    obtain ⟨hv, hr⟩ := List.forall_mem_cons.1 hvs
    refine SimE.bind (sim_callback hcall h hf hv i) fun w m₁' m₂' hrel hgrow _ => ?_
    refine SimE.bind (ih (i + 1) m₁' m₂' hrel (hf.mono hgrow) (KnowsAll.mono hgrow hr)) ?_
    intro ws m₁'' m₂'' hrel' hgrow' hws
    rw [Value.truthy_shift]
    cases w.truthy with
    | true => exact SimE.pure hrel' (List.forall_mem_cons.2 ⟨(hv.mono hgrow).mono hgrow', hws⟩)
    | false => exact SimE.pure hrel' hws

theorem sim_find {f : Func} (vs : List Value) : ∀ (i : Nat) (m₁ m₂ : Machine ω), T.Rel m₁ m₂ →
    T.Knows m₁ (.func f) → T.KnowsAll m₁ vs →
    T.SimE (Option.map fun p => (p.1, p.2.shift T.shift))
      (fun m o => ∀ p, o = some p → T.Knows m p.2) (Callback.find? call₁ f i vs)
      (Callback.find? call₂ (f.shift T.shift) i (vs.map (Value.shift T.shift))) m₁ m₂ := by
  induction vs with
  | nil =>
    intro i m₁ m₂ h hf hvs
    exact SimE.pure h fun p hp => by cases hp
  | cons v r ih =>
    intro i m₁ m₂ h hf hvs
    obtain ⟨hv, hr⟩ := List.forall_mem_cons.1 hvs
    refine SimE.bind (sim_callback hcall h hf hv i) fun w m₁' m₂' hrel hgrow _ => ?_
    rw [Value.truthy_shift]
    cases w.truthy with
    | true =>
      refine SimE.pure hrel fun p hp => ?_
      cases hp
      exact hv.mono hgrow
    | false => exact ih (i + 1) m₁' m₂' hrel (hf.mono hgrow) (KnowsAll.mono hgrow hr)

theorem sim_all {f : Func} (vs : List Value) : ∀ (i : Nat) (m₁ m₂ : Machine ω), T.Rel m₁ m₂ →
    T.Knows m₁ (.func f) → T.KnowsAll m₁ vs →
    T.SimP (Callback.all call₁ f i vs)
      (Callback.all call₂ (f.shift T.shift) i (vs.map (Value.shift T.shift))) m₁ m₂ := by
  induction vs with
  | nil =>
    intro i m₁ m₂ h hf hvs
    exact SimE.pure h trivial
  | cons v r ih =>
    intro i m₁ m₂ h hf hvs
    obtain ⟨hv, hr⟩ := List.forall_mem_cons.1 hvs
    refine SimE.bind (sim_callback hcall h hf hv i) fun w m₁' m₂' hrel hgrow _ => ?_
    rw [Value.truthy_shift]
    cases w.truthy with
    | true => exact ih (i + 1) m₁' m₂' hrel (hf.mono hgrow) (KnowsAll.mono hgrow hr)
    | false => exact SimE.pure hrel trivial

theorem sim_fold {f : Func} (vs : List Value) : ∀ (acc : Value) (i : Nat) (m₁ m₂ : Machine ω),
    T.Rel m₁ m₂ → T.Knows m₁ (.func f) → T.Knows m₁ acc → T.KnowsAll m₁ vs →
    T.SimV (Callback.fold call₁ f acc i vs)
      (Callback.fold call₂ (f.shift T.shift) (acc.shift T.shift) i
        (vs.map (Value.shift T.shift))) m₁ m₂ := by
  induction vs with
  | nil =>
    intro acc i m₁ m₂ h hf hacc hvs
    exact SimE.pure h hacc
  | cons v r ih =>
    intro acc i m₁ m₂ h hf hacc hvs
    obtain ⟨hv, hr⟩ := List.forall_mem_cons.1 hvs
    have hargs : T.KnowsAll m₁ [acc, v, .int i] :=
      List.forall_mem_cons.2 ⟨hacc, knows_pair hv i⟩
    refine SimE.bind (hcall m₁ m₂ f [acc, v, .int i] h hf hargs) fun w m₁' m₂' hrel hgrow hw => ?_
    exact ih w (i + 1) m₁' m₂' hrel (hf.mono hgrow) hw (KnowsAll.mono hgrow hr)

end

/-! ### Sorting -/

variable (T) in
/-- Comparisons that go the same way on machines that are later than `m`, and see the same first
failure. -/
def comparisons (m : Machine ω) :
    MonadRel (StateT (Option EvalError) (Run ω)) (StateT (Option EvalError) (Run ω)) where
  rel := fun {α} Q x y => ∀ (seen : Option EvalError) (m₁ m₂ : Machine ω), T.Rel m₁ m₂ →
    m.Grows m₁ →
    match x seen m₁ with
    | .error e => T.excused e ∨ y seen m₂ = .error e
    | .ok ((a, seen'), m₁') => ∃ (b : α) (m₂' : Machine ω), y seen m₂ = .ok ((b, seen'), m₂') ∧
        T.Rel m₁' m₂' ∧ m₁.Grows m₁' ∧ Q a b
  pure := fun {_ _ _ b} hab seen m₁ m₂ h _ => ⟨b, m₂, rfl, h, .refl m₁, hab⟩
  bind := by
    intro α β Q Q' x y f f' hx hf seen m₁ m₂ h hm
    have hrun : ∀ (z : StateT (Option EvalError) (Run ω) α)
        (k : α → StateT (Option EvalError) (Run ω) β) (m : Machine ω),
        (z >>= k) seen m = match z seen m with
          | .ok ((a, seen'), m') => k a seen' m'
          | .error e => .error e := by
      intro z k m
      show ((z seen >>= fun p => k p.1 p.2) : Run ω _) m = _
      rw [Run.bind_apply]
      cases z seen m with
      | error e => rfl
      | ok p => rfl
    have hx := hx seen m₁ m₂ h hm
    rw [hrun, hrun]
    cases hx₁ : x seen m₁ with
    | error e =>
      simp only [hx₁] at hx ⊢
      exact hx.imp_right fun hy => by rw [hy]
    | ok p =>
      obtain ⟨⟨a, seen'⟩, m₁'⟩ := p
      simp only [hx₁] at hx ⊢
      obtain ⟨b, m₂', hy, hrel, hgrow, hab⟩ := hx
      rw [hy]
      have hfa := hf a b hab seen' m₁' m₂' hrel (hm.trans hgrow)
      cases hf₁ : f a seen' m₁' with
      | error e =>
        simp only [hf₁] at hfa ⊢
        exact hfa
      | ok q =>
        obtain ⟨⟨c, seen''⟩, m₁''⟩ := q
        simp only [hf₁] at hfa ⊢
        obtain ⟨d, m₂'', hf₂, hrel', hgrow', hcd⟩ := hfa
        exact ⟨d, m₂'', hf₂, hrel', hgrow.trans hgrow', hcd⟩

theorem less_apply (call : Func → List Value → Eval ω Value) (f : Func) (a b : Value)
    (seen : Option EvalError) (m : Machine ω) :
    Callback.less call f a b seen m = match (call f [a, b]).run m with
      | .ok (.ok v, m') => .ok ((decide (v.toNumber < 0), seen), m')
      | .ok (.error e, m') => .ok ((false, seen.or (some e)), m')
      | .error h => .error h := by
  unfold Callback.less attempt
  simp only [bind, StateT.bind, liftM, monadLift, MonadLift.monadLift, StateT.lift, Except.bind]
  cases hr : (call f [a, b]).run m with
  | error h => rfl
  | ok p =>
    obtain ⟨r, m'⟩ := p
    cases r with
    | error e => rfl
    | ok v => rfl

/-- Comparisons by one function. -/
theorem sim_less {call₁ call₂ : Func → List Value → Eval ω Value} (hcall : T.Calls call₁ call₂)
    {m : Machine ω} {f : Func} (hf : T.Knows m (.func f)) (a b : Value) (ha : T.Knows m a)
    (hb : T.Knows m b) :
    (T.comparisons m).rel Eq (Callback.less call₁ f a b)
      (Callback.less call₂ (f.shift T.shift) (a.shift T.shift) (b.shift T.shift)) := by
  intro seen m₁ m₂ h hm
  have hargs : T.KnowsAll m₁ [a, b] := by
    intro v hv
    simp only [List.mem_cons, List.not_mem_nil, or_false] at hv
    rcases hv with rfl | rfl
    · exact ha.mono hm
    · exact hb.mono hm
  have hsim := hcall m₁ m₂ f [a, b] h (hf.mono hm) hargs
  unfold SimV SimE Sim at hsim
  rw [less_apply, less_apply]
  simp only [List.map_cons, List.map_nil] at hsim
  cases hr : (call₁ f [a, b]).run m₁ with
  | error e =>
    simp only [hr] at hsim ⊢
    exact hsim.imp_right fun hy => by rw [hy]
  | ok p =>
    obtain ⟨r, m₁'⟩ := p
    simp only [hr] at hsim
    obtain ⟨m₂', hy, hrel, hgrow, -⟩ := hsim
    rw [hy]
    cases r with
    | error e => exact ⟨false, m₂', rfl, hrel, hgrow, rfl⟩
    | ok v =>
      refine ⟨_, m₂', ?_, hrel, hgrow, rfl⟩
      simp only [Except.map, Value.toNumber_shift]

/-- Pure computations, related by their answers. -/
def pureRel : MonadRel Id Id where
  rel := fun Q x y => Q x.run y.run
  pure := fun h => h
  bind := fun hx hf => hf _ _ hx

/-- The order of two values by their texts. -/
def byText (a b : Value) : Id Bool := Text.lt a.toText b.toText

theorem sort_byText {vs : List Value} (hvs : T.KnowsAll m₁ vs) :
    Id.run (Sort.sort byText (vs.map (Value.shift T.shift))) =
        (Id.run (Sort.sort byText vs)).map (Value.shift T.shift) ∧
      T.KnowsAll m₁ (Id.run (Sort.sort byText vs)) := by
  have hless : ∀ x y, T.Knows m₁ x → T.Knows m₁ y →
      pureRel.rel Eq (byText x y) (byText (x.shift T.shift) (y.shift T.shift)) := by
    intro x y _ _
    show byText x y = byText (x.shift T.shift) (y.shift T.shift)
    rw [byText, byText, Value.toText_shift, Value.toText_shift]
  exact Sort.sort_rel hless hvs

theorem sort_apply (call : Func → List Value → Eval ω Value) (f : Func) (vs : List Value)
    (m : Machine ω) : (Callback.sort call (.func f) vs).run m =
      match Sort.sort (Callback.less call f) vs none m with
      | .ok ((sorted, none), m') => .ok (.ok sorted, m')
      | .ok ((_, some e), m') => .ok (.error e, m')
      | .error e => .error e := by
  unfold Callback.sort
  simp only [ExceptT.run_bind, sure, ExceptT.run_lift, StateT.run]
  rw [Run.bind_apply, Run.map_apply]
  cases Sort.sort (Callback.less call f) vs none m with
  | error e => rfl
  | ok p =>
    obtain ⟨⟨sorted, seen⟩, m'⟩ := p
    cases seen <;> rfl

theorem sim_sort {call₁ call₂ : Func → List Value → Eval ω Value} (hcall : T.Calls call₁ call₂)
    (h : T.Rel m₁ m₂) {cmp : Value} (hcmp : T.Knows m₁ cmp) {vs : List Value}
    (hvs : T.KnowsAll m₁ vs) :
    T.SimL (Callback.sort call₁ cmp vs)
      (Callback.sort call₂ (cmp.shift T.shift) (vs.map (Value.shift T.shift))) m₁ m₂ := by
  obtain ⟨hmap, hknown⟩ := sort_byText hvs
  have hbyText : T.SimL (pure (Id.run (Sort.sort byText vs)))
      (pure (Id.run (Sort.sort byText (vs.map (Value.shift T.shift))))) m₁ m₂ := by
    rw [hmap]
    exact SimE.pure h hknown
  cases cmp with
  | func f =>
    have hsort := Sort.sort_rel (sim_less hcall hcmp) hvs none m₁ m₂ h (.refl m₁)
    unfold SimL SimE Sim
    rw [Value.shift_func, sort_apply, sort_apply]
    cases hs : Sort.sort (Callback.less call₁ f) vs none m₁ with
    | error e =>
      simp only [hs] at hsort ⊢
      exact hsort.imp_right fun hy => by rw [hy]
    | ok p =>
      obtain ⟨⟨sorted, seen⟩, m₁'⟩ := p
      simp only [hs] at hsort
      obtain ⟨b, m₂', hy, hrel, hgrow, rfl, hP⟩ := hsort
      rw [hy]
      cases seen with
      | none =>
        refine ⟨m₂', rfl, hrel, hgrow, fun a ha => ?_⟩
        cases ha
        exact fun v hv => (hP v hv).mono hgrow
      | some e => exact ⟨m₂', rfl, hrel, hgrow, fun a ha => by cases ha⟩
  | _ => exact hbyText

/-! ### Methods and members -/

/-- The callback that a method is given. -/
theorem sim_callbackArgument (h : T.Rel m₁ m₂) (method : ListMethod) {args : List Value}
    (hargs : T.KnowsAll m₁ args) :
    T.SimE (Func.shift T.shift) (fun m f => T.Knows m (.func f))
      (match argument args 0 with
        | .func f => pure f
        | _ => throw (.badCallback method.name) : Eval ω Func)
      (match argument (args.map (Value.shift T.shift)) 0 with
        | .func f => pure f
        | _ => throw (.badCallback method.name) : Eval ω Func) m₁ m₂ := by
  have hknown : T.Knows m₁ (argument args 0) := all_argument hargs 0
  rw [argument_shift]
  cases harg : argument args 0 with
  | func f =>
    rw [harg] at hknown
    exact SimE.pure h hknown
  | _ => exact SimE.throw _ h

/-- A fold that starts from the first item. -/
def foldFirst (call : Func → List Value → Eval ω Value) (f : Func) : List Value → Eval ω Value
  | [] => throw .emptyReduce
  | v :: r => Callback.fold call f v 1 r

theorem sim_foldFirst {call₁ call₂ : Func → List Value → Eval ω Value}
    (hcall : T.Calls call₁ call₂) (h : T.Rel m₁ m₂) {f : Func} (hf : T.Knows m₁ (.func f))
    {vs : List Value} (hvs : T.KnowsAll m₁ vs) :
    T.SimV (foldFirst call₁ f vs)
      (foldFirst call₂ (f.shift T.shift) (vs.map (Value.shift T.shift))) m₁ m₂ := by
  cases vs with
  | nil => exact SimE.throw _ h
  | cons v r =>
    obtain ⟨hv, hr⟩ := List.forall_mem_cons.1 hvs
    exact sim_fold hcall r v 1 m₁ m₂ h hf hv hr

theorem sim_listMethod {call₁ call₂ : Func → List Value → Eval ω Value}
    (hcall : T.Calls call₁ call₂) (h : T.Rel m₁ m₂) (method : ListMethod) {vs args : List Value}
    (hvs : T.KnowsAll m₁ vs) (hargs : T.KnowsAll m₁ args) :
    T.SimV (method.apply call₁ vs args)
      (method.apply call₂ (vs.map (Value.shift T.shift)) (args.map (Value.shift T.shift)))
      m₁ m₂ := by
  have hback := sim_callbackArgument h method hargs
  unfold ListMethod.apply
  cases method with
  | map =>
    refine SimE.bind hback fun f m₁' m₂' hrel hgrow hf => ?_
    refine SimE.bind (sim_map hcall vs 0 m₁' m₂' hrel hf (KnowsAll.mono hgrow hvs)) ?_
    intro ws m₁'' m₂'' hrel' _ hws
    rw [← Value.shift_list]
    exact SimE.pure hrel' ((Value.all_list ws).2 hws)
  | filter =>
    refine SimE.bind hback fun f m₁' m₂' hrel hgrow hf => ?_
    refine SimE.bind (sim_filter hcall vs 0 m₁' m₂' hrel hf (KnowsAll.mono hgrow hvs)) ?_
    intro ws m₁'' m₂'' hrel' _ hws
    rw [← Value.shift_list]
    exact SimE.pure hrel' ((Value.all_list ws).2 hws)
  | find =>
    refine SimE.bind hback fun f m₁' m₂' hrel hgrow hf => ?_
    refine SimE.bind (sim_find hcall vs 0 m₁' m₂' hrel hf (KnowsAll.mono hgrow hvs)) ?_
    intro o m₁'' m₂'' hrel' _ ho
    cases o with
    | none => exact SimE.pure hrel' trivial
    | some p => exact SimE.pure hrel' (ho p rfl)
  | findIndex =>
    refine SimE.bind hback fun f m₁' m₂' hrel hgrow hf => ?_
    refine SimE.bind (sim_find hcall vs 0 m₁' m₂' hrel hf (KnowsAll.mono hgrow hvs)) ?_
    intro o m₁'' m₂'' hrel' _ ho
    cases o with
    | none => exact SimE.pure hrel' trivial
    | some p => exact SimE.pure hrel' trivial
  | any =>
    refine SimE.bind hback fun f m₁' m₂' hrel hgrow hf => ?_
    refine SimE.bind (sim_find hcall vs 0 m₁' m₂' hrel hf (KnowsAll.mono hgrow hvs)) ?_
    intro o m₁'' m₂'' hrel' _ ho
    rw [Option.isSome_map]
    exact SimE.pure hrel' trivial
  | every =>
    refine SimE.bind hback fun f m₁' m₂' hrel hgrow hf => ?_
    refine SimE.bind (sim_all hcall vs 0 m₁' m₂' hrel hf (KnowsAll.mono hgrow hvs)) ?_
    intro b m₁'' m₂'' hrel' _ _
    exact SimE.pure hrel' trivial
  | forEach =>
    refine SimE.bind hback fun f m₁' m₂' hrel hgrow hf => ?_
    refine SimE.bind (sim_map hcall vs 0 m₁' m₂' hrel hf (KnowsAll.mono hgrow hvs)) ?_
    intro ws m₁'' m₂'' hrel' _ _
    exact SimE.pure hrel' trivial
  | reduce =>
    refine SimE.bind hback fun f m₁' m₂' hrel hgrow hf => ?_
    have hvs' : T.KnowsAll m₁' vs := KnowsAll.mono hgrow hvs
    rcases args with _ | ⟨a, _ | ⟨start, rest⟩⟩
    · cases vs <;> exact sim_foldFirst hcall hrel hf hvs'
    · cases vs <;> exact sim_foldFirst hcall hrel hf hvs'
    · have hstart := hargs start (List.mem_cons_of_mem _ List.mem_cons_self)
      exact sim_fold hcall vs start 0 m₁' m₂' hrel hf (hstart.mono hgrow) hvs'
  | join =>
    simp only [argument_shift, Value.isNullish_shift, Value.toText_shift, Value.itemTexts_shift]
    exact SimE.pure h trivial
  | includes =>
    simp only [argument_shift, indexOfValue_shift]
    exact SimE.pure h trivial
  | indexOf =>
    simp only [argument_shift, indexOfValue_shift]
    exact SimE.pure h trivial
  | «at» =>
    simp only [intArgument_shift, List.length_map, Value.item_shift]
    exact SimE.pure h (Value.all_item hvs _)
  | slice =>
    simp only [intArgument_shift, List.length_map, ← List.map_drop, ← List.map_take]
    rw [← Value.shift_list]
    refine SimE.pure h ((Value.all_list _).2 fun v hv => ?_)
    exact hvs v (List.mem_of_mem_drop (List.mem_of_mem_take hv))
  | concat =>
    simp only [concatValues_shift]
    rw [← Value.shift_list]
    exact SimE.pure h ((Value.all_list _).2 (all_concatValues hvs hargs))
  | reverse =>
    simp only [← List.map_reverse]
    rw [← Value.shift_list]
    exact SimE.pure h ((Value.all_list _).2 fun v hv => hvs v (List.mem_reverse.1 hv))
  | sort =>
    simp only [argument_shift]
    refine SimE.bind (sim_sort hcall h (all_argument hargs 0) hvs) ?_
    intro ws m₁' m₂' hrel _ hws
    rw [← Value.shift_list]
    exact SimE.pure hrel ((Value.all_list ws).2 hws)

/-- A method read from a value is a new function. -/
theorem sim_method (hlaw : T.Lawful) (h : T.Rel m₁ m₂) (name : Text) (code : Code)
    (hcode : ∀ b, code ≠ .builtin b) (hall : code.All (T.KnowsFunc m₁))
    (hclosure : ∀ params body scope, code ≠ .closure params body scope) :
    T.SimV (do return .func (← sure (newFunc name code)))
      (do return .func (← sure (newFunc name (code.shift T.shift)))) m₁ m₂ := by
  have hnew := sim_newFunc hlaw h name code hcode hall
    fun params body scope hc => absurd hc (hclosure params body scope)
  refine SimE.bind (Sim.sure hnew) fun f m₁' m₂' hrel _ hf => ?_
  rw [← Value.shift_func]
  exact SimE.pure hrel hf

theorem sim_member (hlaw : T.Lawful) (h : T.Rel m₁ m₂) {v : Value} (hv : T.Knows m₁ v)
    (name : Text) : T.SimV (member v name) (member (v.shift T.shift) name) m₁ m₂ := by
  cases v with
  | map es =>
    rw [Value.shift_map]
    simp only [member, Dict.get?_map_snd]
    have hes := (Value.all_map es).1 hv
    cases hget : Dict.get? es name with
    | none => exact SimE.pure h trivial
    | some w => exact SimE.pure h (Value.all_get? hes hget)
  | list vs =>
    rw [Value.shift_list]
    simp only [member, List.length_map]
    split
    · exact SimE.pure h trivial
    · split
      · rename_i method _
        have := sim_method hlaw h name (.listMethod vs method) (fun _ e => by cases e)
          ((allItems_iff vs).2 ((Value.all_list vs).1 hv)) (fun _ _ _ e => by cases e)
        rw [Code.shift, shiftItems_eq] at this
        exact this
      · exact SimE.pure h trivial
  | str t =>
    simp only [Value.shift_str, member]
    split
    · exact SimE.pure h trivial
    · split
      · exact sim_method hlaw h name _ (fun _ e => by cases e) trivial (fun _ _ _ e => by cases e)
      · exact SimE.pure h trivial
  | number n =>
    simp only [Value.shift_number, member]
    split
    · exact sim_method hlaw h name _ (fun _ e => by cases e) trivial (fun _ _ _ e => by cases e)
    · split
      · exact sim_method hlaw h name _ (fun _ e => by cases e) trivial (fun _ _ _ e => by cases e)
      · exact SimE.pure h trivial
  | bool b =>
    simp only [Value.shift_bool, member]
    split
    · exact sim_method hlaw h name _ (fun _ e => by cases e) trivial (fun _ _ _ e => by cases e)
    · exact SimE.pure h trivial
  | null => exact SimE.throw _ h
  | undefined => exact SimE.throw _ h
  | func f =>
    simp only [Value.shift_func, member, Func.name_shift]
    split
    · exact SimE.pure h trivial
    · exact SimE.pure h trivial

theorem sim_itemAt (hlaw : T.Lawful) (h : T.Rel m₁ m₂) {v : Value} (hv : T.Knows m₁ v)
    (key : Value) :
    T.SimV (itemAt v key) (itemAt (v.shift T.shift) (key.shift T.shift)) m₁ m₂ := by
  have hmember := sim_member hlaw h hv key.toText
  cases v with
  | list vs =>
    rw [Value.shift_list] at hmember ⊢
    unfold itemAt
    rw [indexOf?_shift, Value.toText_shift]
    cases indexOf? key with
    | none => exact hmember
    | some i =>
      simp only [Value.item_shift]
      exact SimE.pure h (Value.all_item ((Value.all_list vs).1 hv) _)
  | str t =>
    unfold itemAt
    rw [Value.shift_str, indexOf?_shift, Value.toText_shift]
    cases indexOf? key with
    | none => exact hmember
    | some i =>
      simp only
      split
      · exact SimE.pure h trivial
      · exact SimE.pure h trivial
  | map es =>
    rw [Value.shift_map] at hmember ⊢
    unfold itemAt
    simp only [Value.toText_shift]
    exact hmember
  | _ =>
    unfold itemAt
    simp only [Value.shift_null, Value.shift_undefined, Value.shift_bool, Value.shift_number,
      Value.shift_func, Value.toText_shift]
    exact hmember

/-! ### Replacing parts of values -/

variable (T) in
/-- Two evaluations with a new value and an answer. -/
def SimU (x y : Eval ω (Value × Value)) (m₁ m₂ : Machine ω) : Prop :=
  T.SimE (Prod.map (Value.shift T.shift) (Value.shift T.shift))
    (fun m p => T.Knows m p.1 ∧ T.Knows m p.2) x y m₁ m₂

variable (T) in
/-- Two changes of a value that go the same way from a machine on. -/
def Changes (m : Machine ω) (f₁ f₂ : Value → Eval ω (Value × Value)) : Prop :=
  ∀ (m₁ m₂ : Machine ω) (v : Value), T.Rel m₁ m₂ → m.Grows m₁ → T.Knows m₁ v →
    T.SimU (f₁ v) (f₂ (v.shift T.shift)) m₁ m₂

theorem Changes.mono {m m' : Machine ω} {f₁ f₂ : Value → Eval ω (Value × Value)}
    (h : T.Changes m f₁ f₂) (hgrow : m.Grows m') : T.Changes m' f₁ f₂ :=
  fun m₁ m₂ v hrel hm hv => h m₁ m₂ v hrel (hgrow.trans hm) hv

theorem sim_setMember {m : Machine ω} {f₁ f₂ : Value → Eval ω (Value × Value)}
    (hf : T.Changes m f₁ f₂) (h : T.Rel m₁ m₂) (hm : m.Grows m₁) {v : Value} (hv : T.Knows m₁ v)
    (name : Text) : T.SimU (setMember v name f₁) (setMember (v.shift T.shift) name f₂) m₁ m₂ := by
  cases v with
  | map es =>
    have hes := (Value.all_map es).1 hv
    have hold : T.Knows m₁ ((Dict.get? es name).getD .undefined) := by
      cases hget : Dict.get? es name with
      | none => trivial
      | some w => exact Value.all_get? hes hget
    have hshift : ((Dict.get? (es.map fun p => (p.1, p.2.shift T.shift)) name).getD .undefined) =
        ((Dict.get? es name).getD .undefined).shift T.shift := by
      rw [Dict.get?_map_snd]
      cases Dict.get? es name <;> rfl
    rw [Value.shift_map]
    simp only [setMember]
    rw [hshift]
    refine SimE.bind (hf m₁ m₂ _ h hm hold) fun p m₁' m₂' hrel hgrow hp => ?_
    obtain ⟨new, answer⟩ := p
    simp only [Prod.map]
    rw [Dict.insert_map_snd, ← Value.shift_map]
    refine SimE.pure hrel ⟨(Value.all_map _).2 ?_, hp.2⟩
    exact Value.all_insert (fun e he => Knows.mono hgrow (hes e he)) hp.1
  | list vs => exact SimE.throw _ h
  | _ => exact SimE.throw _ h

theorem sim_setItemAt {m : Machine ω} {f₁ f₂ : Value → Eval ω (Value × Value)}
    (hf : T.Changes m f₁ f₂) (h : T.Rel m₁ m₂) (hm : m.Grows m₁) {v : Value} (hv : T.Knows m₁ v)
    (key : Value) :
    T.SimU (setItemAt v key f₁) (setItemAt (v.shift T.shift) (key.shift T.shift) f₂) m₁ m₂ := by
  have hmember := sim_setMember hf h hm hv key.toText
  cases v with
  | list vs =>
    have hvs := (Value.all_list vs).1 hv
    rw [Value.shift_list]
    unfold setItemAt
    simp only [indexOf?_shift, Value.toText_shift]
    cases indexOf? key with
    | none => exact SimE.throw _ h
    | some i =>
      simp only [Value.item_shift]
      refine SimE.bind (hf m₁ m₂ _ h hm (Value.all_item hvs _)) fun p m₁' m₂' hrel hgrow hp => ?_
      obtain ⟨new, answer⟩ := p
      simp only [Prod.map]
      rw [Value.setItem_shift, ← Value.shift_list]
      refine SimE.pure hrel ⟨(Value.all_list _).2 ?_, hp.2⟩
      exact Value.all_setItem (fun w hw => Knows.mono hgrow (hvs w hw)) hp.1 i
  | map es =>
    rw [Value.shift_map] at hmember ⊢
    unfold setItemAt
    simp only [Value.toText_shift]
    exact hmember
  | _ =>
    unfold setItemAt
    simp only [Value.shift_null, Value.shift_undefined, Value.shift_bool, Value.shift_number,
      Value.shift_str, Value.shift_func, Value.toText_shift]
    exact hmember

end Reactive.Twin
