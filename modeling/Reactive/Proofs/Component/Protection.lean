/-
What no program can change.

Whatever is done with a component, and whatever its handlers and methods do, its
keys, its constants and its methods stay what they are when it is created, and a
derived value changes only where it is recomputed.  A write that is refused
changes nothing.

That a derived value was computed in the course of a run is said by a watch: a
component that stops when it is about to compute one on a machine with some
property.  If the watch does not go off, the machine did not have the property.

* `Setting.Step` — the two kinds of changes: those that leave all of this alone,
  and those that store what a derived value is computed to be;
* `Setting.steps_tolerates` — whatever is done consists of such steps;
* `Setting.watch` — a component that stops where a derived value is about to be computed;
* `Setting.follows_watch` — until then it goes the way of the component that is not watched;
* `Setting.protects_state` — what holds after any run.
-/
import Mathlib.Logic.Relation
import Reactive.Proofs.Component.Keeps
import Reactive.Proofs.Component.Probed

namespace Reactive

open Block (Stage)

/-! ### Changes of a component -/

/-- A change that leaves the keys, the derived values, the constants and the methods alone. -/
structure Component.Quiet (d : Definition) (c c' : Component) : Prop where
  keys : c'.state.keys = c.state.keys
  guarded : ∀ n, d.isDerived n = true ∨ d.isConst n = true → c'.state.get? n = c.state.get? n
  methods : c'.methods = c.methods

namespace Component.Quiet

variable {d : Definition} {c c' c'' : Component}

theorem refl (c : Component) : Quiet d c c := ⟨rfl, fun _ _ => rfl, rfl⟩

theorem trans (h : Quiet d c c') (h' : Quiet d c' c'') : Quiet d c c'' :=
  ⟨h'.keys.trans h.keys, fun n hn => (h'.guarded n hn).trans (h.guarded n hn),
    h'.methods.trans h.methods⟩

/-- A write to a key that may be written. -/
theorem put {name : Text} {v old : Value} (hname : c.state.get? name = some old)
    (hderived : d.isDerived name = false) (hconst : d.isConst name = false) (bits : Bits) :
    Quiet d c ((c.put name v).mark bits name) := by
  refine ⟨?_, fun n hn => ?_, rfl⟩
  · show (c.state.insert name v).keys = c.state.keys
    rw [Dict.keys_insert, if_pos]
    rw [Dict.has, hname]
    rfl
  · show (c.state.insert name v).get? n = c.state.get? n
    rw [Dict.get?_insert, if_neg]
    rintro rfl
    rcases hn with hn | hn
    · rw [hderived] at hn
      cases hn
    · rw [hconst] at hn
      cases hn

end Component.Quiet

/-- A name that may not be written: a derived value, a constant, or anything but a key. -/
def Definition.Guarded (d : Definition) (name : Text) : Prop :=
  d.isDerived name = true ∨ d.isConst name = true ∨ name ∉ d.keys

namespace Setting

/-- One step of a component: a quiet change, or a derived value is computed from the live state and
the outcome is stored. -/
inductive Step (s : Setting) : Machine World → Machine World → Prop where
  | quiet {m m' : Machine World} (h : m.host.own.Quiet s.definition m'.host.own) : Step s m m'
  | derived {m m' : Machine World} {x : Derived} {v : Value} (hx : x ∈ s.definition.script.derived)
      (hrun : s.definition.outcome s.settling (.host .derived) [] x.expr m = .ok (.ok v, m'))
      (h : m.host.own.Quiet s.definition m'.host.own) : Step s m (m'.put x.name v)

/-- Any number of steps. -/
abbrev Steps (s : Setting) : Machine World → Machine World → Prop := Relation.ReflTransGen s.Step

variable {s : Setting} {m m' m'' : Machine World}

/-! ### What steps keep -/

theorem Step.keys (h : s.Step m m') (hk : m.host.own.state.keys = s.definition.keys) :
    m'.host.own.state.keys = s.definition.keys := by
  cases h with
  | quiet h => exact h.keys.trans hk
  | @derived m₁ x v hx _ h =>
    have hk₁ := h.keys.trans hk
    have hmem : x.name ∈ m₁.host.own.state.keys := by
      rw [hk₁]
      exact Definition.mem_keys.2 (Or.inr (Or.inl (List.mem_map_of_mem hx)))
    show (m₁.host.own.state.insert x.name v).keys = s.definition.keys
    rw [Dict.keys_insert, if_pos (Dict.has_iff_mem_keys.2 hmem), hk₁]

theorem Step.methods (h : s.Step m m') : m'.host.own.methods = m.host.own.methods := by
  cases h with
  | quiet h => exact h.methods
  | derived _ _ h => exact h.methods

theorem Step.const (hs : s.definition.Sound) (h : s.Step m m') {n : Text}
    (hn : s.definition.isConst n = true) :
    m'.host.own.state.get? n = m.host.own.state.get? n := by
  cases h with
  | quiet h => exact h.guarded n (Or.inr hn)
  | @derived m₁ x v hx _ h =>
    have hne : x.name ≠ n := by
      rintro rfl
      have hderived := Definition.isDerived_iff.2 ⟨x, hx, rfl⟩
      rw [hs.apart _ hn] at hderived
      cases hderived
    show (m₁.host.own.state.insert x.name v).get? n = _
    rw [Dict.get?_insert, if_neg hne]
    exact h.guarded n (Or.inr hn)

theorem Steps.keys (h : s.Steps m m') (hk : m.host.own.state.keys = s.definition.keys) :
    m'.host.own.state.keys = s.definition.keys := by
  induction h with
  | refl => exact hk
  | tail _ hstep ih => exact hstep.keys ih

theorem Steps.methods (h : s.Steps m m') : m'.host.own.methods = m.host.own.methods := by
  induction h with
  | refl => rfl
  | tail _ hstep ih => exact hstep.methods.trans ih

theorem Steps.const (hs : s.definition.Sound) (h : s.Steps m m') {n : Text}
    (hn : s.definition.isConst n = true) :
    m'.host.own.state.get? n = m.host.own.state.get? n := by
  induction h with
  | refl => rfl
  | tail _ hstep ih => exact (hstep.const hs hn).trans ih

theorem Steps.quiet (h : m.host.own.Quiet s.definition m'.host.own) : s.Steps m m' :=
  .single (.quiet h)

theorem Steps.same (h : m'.host.own = m.host.own) : s.Steps m m' :=
  .quiet (h ▸ .refl _)

/-! ### Evaluations -/

/-- During a flush, evaluations are quiet. -/
theorem settling_quiet (s : Setting) :
    s.settling.Allows Halt.Any fun m m' => m.host.own.Quiet s.definition m'.host.own where
  fuel := trivial
  same h := by
    rw [h]
    exact .refl _
  trans := .trans
  write := keeping_storeKey (fun _ => .refl _)
    (fun _ hname hderived hconst => .put hname hderived hconst _) .trans fun _ => .refl _

/-! ### Flushes -/

/-- A component whose evaluations keep what their hosts keep. -/
structure Contained (s : Setting) : Prop where
  derived : s.definition.schedule.derived = s.definition.script.derived
  outcome : ∀ {h : Host World} {K : Machine World → Machine World → Prop}, h.Allows Halt.Any K →
    ∀ store frame e, Keeping Halt.Any K (s.definition.outcome h store frame e)

theorem contained (hs : s.definition.Sound) : s.Contained :=
  ⟨hs.derived_schedule, fun hK => keeping_outcome hs hK⟩

section

variable (hs : s.Contained)

/-- A write to a key that may be written is a step. -/
theorem steps_marked {name : Text} {old : Value} (v : Value)
    (hname : m.host.own.state.get? name = some old) (hderived : s.definition.isDerived name = false)
    (hconst : s.definition.isConst name = false) :
    s.Steps m (m.marked s.definition.bits name v) :=
  .quiet (.put hname hderived hconst _)

theorem settling_allows (s : Setting) : s.settling.Allows Halt.Any s.Steps where
  fuel := trivial
  same h := .same (congrArg _ h)
  trans := .trans
  write := keeping_storeKey (fun _ => .refl) steps_marked .trans fun _ => .refl

include hs

theorem settling_confines : (s.site s.settling).Confines Halt.Any s.Steps :=
  confines_of s.settling_allows .same (hs.outcome s.settling_allows)

theorem keeping_settling_recompute (seed : Option (List Text)) :
    Keeping Halt.Any s.Steps (s.recompute s.settling seed) := by
  refine keeping_recompute ((settling_confines hs).permits fun _ => True)
    (fun x hx m m' r hrun => ?_) seed
  rw [hs.derived] at hx
  have hquiet : m.host.own.Quiet s.definition m'.host.own :=
    (hs.outcome s.settling_quiet _ _ _ m).of_ok hrun
  exact ⟨.quiet hquiet, fun v hv => .single (.derived hx (hv ▸ hrun) hquiet)⟩

theorem steps_settles : s.Settles s.Steps where
  permits := (settling_confines hs).permits _
  recompute := keeping_settling_recompute hs
  marks _ _ _ _ := .quiet ⟨rfl, fun _ _ => rfl, rfl⟩

theorem live_allows : s.live.Allows Halt.Any s.Steps where
  fuel := trivial
  same h := .same (congrArg _ h)
  trans := .trans
  write := keeping_storeKey (fun _ => .refl) steps_marked .trans
    (steps_settles hs).keeping_flushOutside

theorem live_confines : (s.site s.live).Confines Halt.Any s.Steps :=
  confines_of (live_allows hs) .same (hs.outcome (live_allows hs))

/-- Whatever is done with a component consists of steps. -/
theorem steps_tolerates : s.Tolerates s.Steps where
  live := live_allows hs
  confines := live_confines hs
  shown _ _ _ := .quiet ⟨rfl, fun _ _ => rfl, rfl⟩
  batch := (steps_settles hs).keeping_batch

end

/-! ### Creation -/

/-- A change after which the keys of the component are as declared if they were before. -/
def KeepsKeys (s : Setting) (m m' : Machine World) : Prop :=
  m.host.own.state.keys = s.definition.keys → m'.host.own.state.keys = s.definition.keys

section

variable (hs : s.definition.Sound)

include hs

theorem live_allows_keys : s.live.Allows Halt.Any s.KeepsKeys where
  fuel := trivial
  same h hk := by
    rw [h]
    exact hk
  trans h h' hk := h' (h hk)
  write name v m := ((live_allows (contained hs)).write name v m).mono fun _ _ h => h.keys

theorem live_confines_keys : (s.site s.live).Confines Halt.Any s.KeepsKeys :=
  confines hs (live_allows_keys hs) fun h hk => by
    rw [h]
    exact hk

omit hs in
theorem keepsKeys_put {m : Machine World} {name : Text} (hname : name ∈ s.definition.keys)
    (v : Value) : s.KeepsKeys m (m.put name v) := by
  intro hk
  show (m.host.own.state.insert name v).keys = s.definition.keys
  rw [Dict.keys_insert, if_pos (Dict.has_iff_mem_keys.2 (hk ▸ hname)), hk]

theorem keepsKeys_founds : s.Founds s.KeepsKeys where
  live := live_allows_keys hs
  confines := live_confines_keys hs
  put _ _ hname v := keepsKeys_put hname v
  methods _ _ hk := hk

end

/-! ### Derived values -/

/-- A derived value is what it was, or else what its own expression is evaluated to on a machine
with `B`. -/
def ComputedWhere (s : Setting) (B : Machine World → Prop) (m m' : Machine World) (n : Text) :
    Prop :=
  m'.host.own.state.get? n = m.host.own.state.get? n ∨
    ∃ x ∈ s.definition.script.derived, x.name = n ∧ ∃ m₁ m₂ v, B m₁ ∧
      s.definition.outcome s.settling (.host .derived) [] x.expr m₁ = .ok (.ok v, m₂) ∧
      m'.host.own.state.get? n = some v

/-- A derived value is what it was, or else what its own expression was evaluated to at some moment
in between. -/
theorem Steps.derived (h : s.Steps m m') {n : Text} (hn : s.definition.isDerived n = true) :
    s.ComputedWhere (s.Steps m) m m' n := by
  induction h with
  | refl => exact .inl rfl
  | @tail m₁ m₃ hsteps hstep ih =>
    have hkept : m₃.host.own.state.get? n = m₁.host.own.state.get? n →
        s.ComputedWhere (s.Steps m) m m₃ n := by
      intro hsame
      unfold ComputedWhere at ih ⊢
      rwa [hsame]
    cases hstep with
    | quiet h => exact hkept (h.guarded n (.inl hn))
    | @derived m₂ x v hx hrun h =>
      have hput : (m₂.put x.name v).host.own.state.get? n =
          if x.name = n then some v else m₂.host.own.state.get? n := Dict.get?_insert ..
      by_cases hname : x.name = n
      · refine .inr ⟨x, hx, hname, m₁, m₂, v, hsteps, hrun, ?_⟩
        rw [hput, if_pos hname]
      · refine hkept ?_
        rw [hput, if_neg hname]
        exact h.guarded n (.inl hn)

/-! ### Watched components -/

section

variable (A : Machine World → Prop) [DecidablePred A]

/-- A component that stops when a derived value is about to be computed on a machine with `A`. -/
def watch (s : Setting) : Setting :=
  { s with definition := { s.definition with
      outcome := fun h store frame e => match store with
        | .host .derived => do
          if A (← get) then halt .outOfRange
          else s.definition.outcome h (.host .derived) frame e
        | store => s.definition.outcome h store frame e } }

/-- How a watched component computes a derived value. -/
theorem outcome_watch (h : Host World) (e : Expr) (m : Machine World) :
    (s.watch A).definition.outcome h (.host .derived) [] e m =
      if A m then .error .outOfRange else s.definition.outcome h (.host .derived) [] e m := by
  show (if A m then halt .outOfRange else s.definition.outcome h (.host .derived) [] e :
    Run World _) m = _
  split <;> rfl

/-- From its creation on, a component that is watched goes the way of the component that is not, or
it is stopped. -/
theorem follows_watch (hs : s.definition.Sound) {given : Dict Value} {logs : List LogEntry}
    {r : Except ComponentError Unit} (hnew : (s.create given).run (s.start logs) = .ok (r, m))
    (ops : List Operation) :
    Run.Follows (· = .outOfRange) (s.performAll ops) ((s.watch A).performAll ops)
      (fun _ _ => True) m := by
  -- A watch is a probe that leaves the view and its handlers as they are.
  have hprobed : ∀ handle, s.probed ⟨View.Binding.expr, (s.watch A).definition.outcome, handle⟩ =
      s.watch A := by
    intro handle
    unfold probed
    rw [View.recodeAll_expr]
    rfl
  have hp : s.Endures (· = .outOfRange)
      ⟨View.Binding.expr, (s.watch A).definition.outcome, (s.watch A).handle⟩ := by
    refine ⟨hs, fun h e m => ?_, fun _ _ _ _ _ => rfl, fun a event _ => ?_⟩
    · dsimp only
      rw [outcome_watch]
      split
      · exact .inl ⟨_, rfl, rfl⟩
      · exact .inr rfl
    · rw [hprobed]
  obtain ⟨L, hm⟩ := boarded_of_create hs hnew
  have hrun := hp.agrees_performAll ops m hm
  rw [hprobed, performAllBy_handle] at hrun
  exact hrun.mono fun _ _ _ => trivial

/-- The evaluations of a watched component keep what their hosts keep. -/
theorem contained_watch (hs : s.definition.Sound) : (s.watch A).Contained where
  derived := hs.derived_schedule
  outcome {h K} hK store frame e := by
    have hrun := keeping_outcome hs hK store frame e
    -- Only where a derived value is computed does the watch look at the machine.
    cases store with
    | empty | snapshot => exact hrun
    | host access =>
      cases access with
      | writable | rendering => exact hrun
      | derived =>
        intro m
        show Run.After Halt.Any (if A m then halt .outOfRange
          else s.definition.outcome h (.host .derived) frame e) (fun _ m' => K m m') m
        split
        · exact trivial
        · exact hrun m

/-- A step of a component that is watched is a step of the component. -/
theorem Step.of_watch (h : (s.watch A).Step m m') : s.Step m m' := by
  cases h with
  | quiet h => exact .quiet ⟨h.keys, h.guarded, h.methods⟩
  | derived hx hrun h =>
    -- The evaluation answered, so the watch did not go off.
    rw [outcome_watch] at hrun
    split at hrun
    · cases hrun
    · exact .derived hx hrun ⟨h.keys, h.guarded, h.methods⟩

/-- Derived values that a component computed while it was watched were computed where `A` does not
hold. -/
theorem ComputedWhere.of_watch {n : Text}
    (h : (s.watch A).ComputedWhere ((s.watch A).Steps m) m m' n) :
    s.ComputedWhere (fun m₁ => s.Steps m m₁ ∧ ¬A m₁) m m' n := by
  refine h.imp_right fun ⟨x, hx, hname, m₁, m₂, v, hsteps, hrun, hv⟩ => ?_
  rw [outcome_watch] at hrun
  split at hrun
  · cases hrun
  · rename_i hA
    have hsteps' : s.Steps m m₁ :=
      Relation.ReflTransGen.mono (fun _ _ => Step.of_watch A) m m₁ hsteps
    exact ⟨x, hx, hname, m₁, m₂, v, ⟨hsteps', hA⟩, hrun, hv⟩

end

/-! ### What a run cannot change -/

theorem keys_start (s : Setting) (logs : List LogEntry) :
    (s.start logs).host.own.state.keys = s.definition.keys := by
  show (s.definition.keys.map fun k => (k, Value.undefined)).map Prod.fst = _
  rw [List.map_map]
  exact List.map_id _

/-- A new component has the keys of its definition. -/
theorem keys_of_create (hs : s.definition.Sound) {given : Dict Value} {logs : List LogEntry}
    {r : Except ComponentError Unit} (hnew : (s.create given).run (s.start logs) = .ok (r, m)) :
    m.host.own.state.keys = s.definition.keys :=
  ((keepsKeys_founds hs).keeping_create hs given (s.start logs)).of_ok hnew (keys_start s logs)

/-- A write to a guarded name is refused and changes nothing. -/
theorem refused_of_guarded (hk : m.host.own.state.keys = s.definition.keys) {name : Text}
    (hname : s.definition.Guarded name) (v : Value) :
    ∃ e, (s.set name v).run m = .ok (.error e, m) := by
  have hwrite : ∃ e, (s.live.write name v).run m = .ok (.error e, m) := by
    show ∃ e, (storeKey s.definition s.flushOutside name v).run m = _
    rw [storeKey_run]
    by_cases hderived : s.definition.isDerived name = true
    · exact ⟨_, if_pos hderived⟩
    rw [if_neg hderived]
    by_cases hconst : s.definition.isConst name = true
    · exact ⟨_, if_pos hconst⟩
    rw [if_neg hconst]
    have hkey : name ∉ m.host.own.state.keys := by
      rw [hk]
      exact (hname.resolve_left hderived).resolve_left hconst
    rw [Dict.get?_eq_none_iff.2 hkey]
    exact ⟨_, rfl⟩
  obtain ⟨e, he⟩ := hwrite
  refine ⟨.failed e, ?_⟩
  rw [set, guardEval_run, he]

/-- Only a write to a guarded name is refused. -/
theorem guarded_of_refused (hk : m.host.own.state.keys = s.definition.keys) {name : Text}
    {v : Value} {e : ComponentError} (h : (s.set name v).run m = .ok (.error e, m')) :
    s.definition.Guarded name := by
  by_contra hguarded
  simp only [Definition.Guarded, not_or, not_not] at hguarded
  obtain ⟨hderived, hconst, hkey⟩ := hguarded
  rw [← hk, ← Dict.has_iff_mem_keys, Dict.has, Option.isSome_iff_exists] at hkey
  obtain ⟨old, hold⟩ := hkey
  have hwrite : (s.live.write name v).run m = _ :=
    storeKey_run s.definition s.flushOutside name v m
  rw [if_neg hderived, if_neg hconst, hold] at hwrite
  rw [set, guardEval_run, hwrite] at h
  cases hequal : old.equal v with
  | true =>
    simp only [hequal, if_true] at h
    cases h
  | false =>
    simp only [hequal, Bool.false_eq_true, if_false, Run.map_apply] at h
    cases hflush : s.flushOutside (m.marked s.definition.bits name v) with
    | error halted =>
      rw [hflush] at h
      cases h
    | ok p =>
      rw [hflush] at h
      cases h

/-- What no program can change.  After a component is created, whatever is done with it: its keys
are those of its definition, its constants and its methods are those it was created with, the way
there consists of quiet changes and of derived values stored as they are computed, and a write is
refused just when the name is guarded.

A derived value that is new was computed in this run: unless the component is stopped when it is to
compute one on a machine with `A`, the run is the same and the machine did not have `A`.

No refused write, at any moment, changes anything. -/
theorem protects_state (hs : s.definition.Sound) {given : Dict Value} {logs : List LogEntry}
    (hnew : (s.create given).run (s.start logs) = .ok (.ok (), m)) (ops : List Operation) :
    Run.After Halt.Any (s.performAll ops) (fun _ m' =>
      m'.host.own.state.keys = s.definition.keys ∧
      (∀ n, s.definition.isConst n = true →
        m'.host.own.state.get? n = m.host.own.state.get? n) ∧
      m'.host.own.methods = m.host.own.methods ∧
      s.Steps m m' ∧
      (∀ n, s.definition.isDerived n = true → s.ComputedWhere (s.Steps m) m m' n) ∧
      ∀ name v, (∃ e m'', (s.set name v).run m' = .ok (.error e, m'')) ↔
        s.definition.Guarded name) m ∧
    (∀ (A : Machine World → Prop) [DecidablePred A],
      (s.watch A).performAll ops m = .error .outOfRange ∨
      (s.watch A).performAll ops m = s.performAll ops m ∧
        Run.After Halt.Any (s.performAll ops) (fun _ m' => ∀ n, s.definition.isDerived n = true →
          s.ComputedWhere (fun m₁ => s.Steps m m₁ ∧ ¬A m₁) m m' n) m) ∧
    ∀ name v, ∀ (m₁ m₂ : Machine World) (e : EvalError),
      ((s.live.write name v).run m₁ = .ok (.error e, m₂) → m₂ = m₁) ∧
      ((s.settling.write name v).run m₁ = .ok (.error e, m₂) → m₂ = m₁) := by
  refine ⟨?_, fun A _ => ?_, fun name v m₁ m₂ e => ⟨machine_of_refused, machine_of_refused⟩⟩
  · refine ((steps_tolerates (contained hs)).keeping_performAll ops m).mono fun _ m' hsteps => ?_
    have hkeys := hsteps.keys (keys_of_create hs hnew)
    refine ⟨hkeys, fun n hn => hsteps.const hs hn, hsteps.methods, hsteps,
      fun n hn => hsteps.derived hn, fun name v => ⟨?_, fun hname => ?_⟩⟩
    · rintro ⟨e, m'', hrefused⟩
      exact guarded_of_refused hkeys hrefused
    · obtain ⟨e, hrefused⟩ := refused_of_guarded hkeys hname v
      exact ⟨e, m', hrefused⟩
  · obtain ⟨_, rfl, hstopped⟩ | ⟨hrun, -⟩ := follows_watch A hs hnew ops
    · exact .inl hstopped
    -- The steps of the watched run tell where its derived values were computed.
    have hwatched := (steps_tolerates (contained_watch A hs)).keeping_performAll ops m
    rw [Run.After, hrun] at hwatched
    refine .inr ⟨hrun, Run.After.mono hwatched fun _ m' hsteps n hn => ?_⟩
    exact (hsteps.derived hn).of_watch A

/-- A component with a prop, a constant, a value derived from both, and a method that tries to
write them all. -/
def account : Definition where
  tag := "x-account"
  script :=
    { props := [⟨"amount", some (.literal 0 (.number (.int 2)))⟩]
      vars := [⟨"rate", .const, some (.literal 0 (.number (.int 3)))⟩]
      derived := [.ofExpr "total" (.binary 0 .mul (.ident 0 "amount") (.ident 0 "rate"))]
      methods := [⟨"raise", ["by"],
        [.expr 0 (.assign 0 (.update .add) (.ident 0 "amount") (.ident 0 "by")),
          .expr 0 (.assign 0 .set (.ident 0 "rate") (.ident 0 "by"))], "", ["amount", "rate"]⟩] }
  view := []
  bits := .ofNames ["amount", "total", "rate"]
  schedule :=
    { derived := [.ofExpr "total" (.binary 0 .mul (.ident 0 "amount") (.ident 0 "rate"))]
      order := ["total"] }
  css := []

theorem sound_account : account.Sound where
  schedule := ⟨false, by with_unfolding_all rfl⟩
  bits := by decide
  outcome := rfl
  apart n hn := by
    obtain ⟨v, hv, rfl, -⟩ := Definition.isConst_iff.1 hn
    rw [List.mem_singleton.1 hv]
    decide

/-- A batch that writes the amount and raises it by a method that fails at the constant, and then a
write to the derived value.  A watch on every machine goes off in the batch. -/
theorem protects_state_account :
    ∃ m : Machine World,
      (Setting.create ⟨account, {}⟩ []).run (Setting.start ⟨account, {}⟩ []) = .ok (.ok (), m) ∧
      m.host.own.state.keys = ["amount", "total", "rate"] ∧
      Run.After Halt.Any (Setting.performAll ⟨account, {}⟩ [.mount none,
          .batch [.set "amount" (.int 4), .call "raise" [.int 1]], .set "total" (.int 0)])
        (fun _ m' => m'.host.own.state.keys = ["amount", "total", "rate"] ∧
          m'.host.own.state.get? "rate" = m.host.own.state.get? "rate" ∧
          m'.host.own.methods = m.host.own.methods) m ∧
      (watch (fun _ => True) ⟨account, {}⟩).performAll
        [.batch [.set "amount" (.int 4), .call "raise" [.int 1]]] m = .error .outOfRange := by
  obtain ⟨m, hnew, hwatch⟩ : ∃ m : Machine World,
      (Setting.create ⟨account, {}⟩ []).run (Setting.start ⟨account, {}⟩ []) = .ok (.ok (), m) ∧
      (watch (fun _ => True) ⟨account, {}⟩).performAll
        [.batch [.set "amount" (.int 4), .call "raise" [.int 1]]] m = .error .outOfRange :=
    ⟨_, by with_unfolding_all rfl, by with_unfolding_all rfl⟩
  have hkeys : account.keys = ["amount", "total", "rate"] := by decide
  refine ⟨m, hnew, hkeys ▸ keys_of_create sound_account hnew, ?_, hwatch⟩
  refine (protects_state sound_account hnew _).1.mono fun _ m' h => ?_
  exact ⟨hkeys ▸ h.1, h.2.1 "rate" (by decide), h.2.2.1⟩

end Setting

end Reactive
