/-
Derived values between two updates.

The expressions of derived values call no function of the source from before, so
each can be told from the values that it reads, whenever it is evaluated.  A
derived value is current if it was computed from the values that are there now.
A recompute makes all those current again that are not on a cycle and wait for
none that is.

* `Definition.Discreet` — a definition whose expressions are of this kind;
* `Setting.Kept` — what is true of the component all the time;
* `Setting.Current` — a derived value that is up to date;
* `Setting.after_recompute` — what a recompute does.
-/
import Reactive.Proofs.Block.Seen
import Reactive.Proofs.Component.Writes
import Reactive.Proofs.Schedule.Cycle
import Reactive.Proofs.Schedule.Recompute

namespace Reactive

open Block (Stage)

/-- A name among those that are kept stands for what it did. -/
theorem Dict.get?_filter {α : Type} (q : Text → Bool) (d : Dict α) (n : Text) :
    Dict.get? (d.filter fun p => q p.1) n = if q n then d.get? n else none := by
  induction d with
  | nil => simp
  | cons p r ih =>
    obtain ⟨j, a⟩ := p
    by_cases hj : j = n
    · subst hj
      cases hq : q j with
      | true => simp [hq, get?]
      | false => simp [hq, ih]
    · cases hq : q j with
      | true => simp [hq, get?, hj, ih]
      | false => simp [hq, get?, hj, ih]

/-! ### Definitions -/

/-- A name that the expression of a derived value can read. -/
def Derived.Open (x : Derived) (n : Text) : Prop := n ∈ x.deps ∨ n = "this"

/-- A derived value that declares no function and reads only what it depends on. -/
def Derived.Readable (x : Derived) : Prop := x.expr.Uses False x.Open

/-- A definition whose view and derived values are evaluated without calling functions of the source
from before. -/
structure Definition.Discreet (d : Definition) : Prop where
  schedule : ∃ strict, Schedule.build d.script.derived strict = .ok d.schedule
  bits : d.bits = .ofNames d.keys
  outcome : d.outcome = fun h => Block.discreetIn h
  keys : d.keys.length ≤ Bits.maxKeys
  this : ("this" : Text) ∉ d.keys
  plain : View.plainAll d.view
  view : View.everyAll Block.Readable Block.Readable [] d.view
  derived : ∀ x ∈ d.script.derived, x.Readable

namespace Component

/-- A component that holds only what was made. -/
structure Made (m : Machine World) (c : Component) : Prop where
  state : ∀ n v, c.state.get? n = some v → v.All m.Made
  methods : ∀ n v, c.methods.get? n = some v → v.All m.Made

variable {m m' : Machine World} {c : Component} {n : Text} {v : Value}

theorem Made.grow (h : c.Made m) (hgrow : m.Grows m') : c.Made m' :=
  ⟨fun n v hv => hgrow.all (h.state n v hv), fun n v hv => hgrow.all (h.methods n v hv)⟩

theorem Made.read (h : c.Made m) (hv : c.read n = some v) : v.All m.Made := by
  unfold Component.read at hv
  split at hv
  · rename_i w hw
    obtain rfl := Option.some.inj hv
    exact h.state n w hw
  · exact h.methods n v hv

/-- A snapshot has what can be read. -/
theorem get?_snapshot (c : Component) (n : Text) : c.snapshot.get? n = c.read n := by
  rw [snapshot, Dict.get?_append, read]
  cases hn : c.state.get? n with
  | some v => rfl
  | none =>
    have hkept : (!c.state.has n) = true := by rw [Dict.has, hn]; rfl
    exact (Dict.get?_filter (fun n => !c.state.has n) c.methods n).trans (if_pos hkept)

end Component

namespace Setting

variable {s : Setting} {me : Option Value} {m m' m'' k : Machine World} {x : Derived}

/-- The component holds what was made, one value for each key, and `this` stands for what it always
stands for. -/
structure Keyed (s : Setting) (me : Option Value) (m : Machine World) : Prop where
  made : m.host.own.Made m
  keys : m.host.own.state.keys = s.definition.keys
  this : m.host.own.methods.get? "this" = me

/-- The same on a machine that holds only what was made. -/
structure Kept (s : Setting) (me : Option Value) (m : Machine World) : Prop
    extends s.Keyed me m where
  whole : m.Whole

theorem Keyed.grow (h : s.Keyed me m) (hgrow : m.Grows m') (hown : m'.host.own = m.host.own) :
    s.Keyed me m' := by
  refine ⟨?_, ?_, ?_⟩ <;> rw [hown]
  · exact h.made.grow hgrow
  · exact h.keys
  · exact h.this

theorem Keyed.put (h : s.Keyed me m) {name : Text} (hname : name ∈ s.definition.keys) {v : Value}
    (hv : v.All m.Made) : s.Keyed me (m.put name v) := by
  refine ⟨⟨fun n w hw => ?_, h.made.methods⟩, ?_, h.this⟩
  · have hw : (m.host.own.state.insert name v).get? n = some w := hw
    rw [Dict.get?_insert] at hw
    split at hw
    · rwa [← Option.some.inj hw]
    · exact h.made.state n w hw
  · show (m.host.own.state.insert name v).keys = _
    rw [Dict.keys_insert, if_pos (Dict.has_iff_mem_keys.2 (h.keys ▸ hname)), h.keys]

theorem Kept.grow (h : s.Kept me m) (hgrow : m.Grows m') (hwhole : m'.Whole)
    (hown : m'.host.own = m.host.own) : s.Kept me m' :=
  ⟨h.toKeyed.grow hgrow hown, hwhole⟩

theorem Kept.put (h : s.Kept me m) {name : Text} (hname : name ∈ s.definition.keys) {v : Value}
    (hv : v.All m.Made) : s.Kept me (m.put name v) :=
  ⟨h.toKeyed.put hname hv, h.whole.congr rfl rfl⟩

theorem name_mem_keys (hx : x ∈ s.definition.script.derived) : x.name ∈ s.definition.keys :=
  Definition.mem_keys.2 (.inr (.inl (List.mem_map_of_mem hx)))

/-! ### Evaluations of derived values -/

theorem made_nil : Block.Frame.Made m [] := fun _ hv => absurd hv List.not_mem_nil

/-- An evaluation of a derived value: what it reads was made before. -/
structure Computed (s : Setting) (x : Derived) (k : Machine World) (r : Except EvalError Value) :
    Prop where
  run : ∃ k', Block.outcomeIn (s.settling.discreet k.funcs) (.host .derived) [] x.expr k = .ok (r, k')
  before : ∀ n v, x.Open n → k.host.own.read n = some v → v.All (Func.Before k.funcs)

/-- A host of the component: what can be read is what the component holds. -/
def Reads (h : Host World) : Prop := ∀ w n, h.read w n = w.own.read n

/-- A derived value is evaluated, over whichever host of the component. -/
theorem after_computing {h : Host World} (hh : Reads h) (hm : s.Kept me m) (hx : x.Readable) :
    Run.After Halt.Any (Block.discreetIn h (.host .derived) [] x.expr) (fun r m' =>
      s.Computed x m r ∧ m'.host = m.host ∧ m.Grows m' ∧ s.Kept me m' ∧
        ∀ v, r = .ok v → v.All m'.Made) m := by
  have hbefore : ∀ n v, x.Open n → m.host.own.read n = some v → v.All (Func.Before m.funcs) :=
    fun n v _ hv => Value.All.mono (fun _ hmade => hmade.1) (hm.made.read hv)
  unfold Run.After
  split
  · rename_i r m' hrun
    have hreads : ∀ g : Host World, Reads g → h.ReadsAlike g x.Open m m :=
      fun g hg n hn => ⟨by rw [hg, hh], fun v hv => hbefore n v hn (by rwa [hh] at hv)⟩
    have huses : x.expr.Uses False fun n => x.Open n ∨ Block.Frame.Binds [] n :=
      hx.mono fun _ => .inl
    obtain ⟨hout, -⟩ := Block.outcome_of_discreetIn hrun
    have hsame : Store.Alike h (.asRead fun w n => w.own.read n) x.Open m m (.host .derived)
        (.host .derived) := .host (hreads _ fun _ _ => rfl) nofun
    have hleads : m.Leads m.scopes.size (.store (.host .derived)) := trivial
    obtain ⟨hhost, hgrow, hwhole, hmade⟩ := Block.whole_of_outcome hm.whole
      (fun n v hv => hm.made.read hv) hleads hsame made_nil huses hout
    obtain ⟨-, hout'⟩ := Block.outcomeIn_elsewhere (a := .host .derived)
      (.host (hreads s.settling fun _ _ => rfl) nofun) made_nil.before huses hout
    exact ⟨⟨⟨m', hout'⟩, hbefore⟩, hhost, hgrow, hm.grow hgrow hwhole (by rw [hhost]), hmade⟩
  · trivial

/-- A derived value is up to date: it was evaluated at some time from the values that are there now,
and either it failed or what it answered is what it holds, or equal to that. -/
def Current (s : Setting) (x : Derived) (m : Machine World) : Prop :=
  ∃ k r, s.Computed x k r ∧ k.Precedes m ∧
    (∀ n, x.Open n → m.host.own.read n = k.host.own.read n) ∧
    ∀ v, r = .ok v → ∃ held, m.host.own.state.get? x.name = some held ∧
      (held = v ∨ held.equal v = true)

/-- A derived value stays up to date while neither what it holds nor what it reads changes. -/
theorem Current.keep (h : s.Current x m) (hgrow : m.Grows m')
    (hreads : ∀ n, x.Open n → m'.host.own.read n = m.host.own.read n)
    (hheld : m'.host.own.state.get? x.name = m.host.own.state.get? x.name) : s.Current x m' := by
  obtain ⟨k, r, hcomputed, hle, hsame, hanswer⟩ := h
  refine ⟨k, r, hcomputed, ⟨Nat.le_trans hle.funcs hgrow.funcs, Nat.le_trans hle.size hgrow.size⟩,
    fun n hn => (hreads n hn).trans (hsame n hn), fun v hv => ?_⟩
  rw [hheld]
  exact hanswer v hv

theorem Current.congr (h : s.Current x m) (hscopes : m'.scopes = m.scopes)
    (hfuncs : m'.funcs = m.funcs) (hstate : m'.host.own.state = m.host.own.state)
    (hmethods : m'.host.own.methods = m.host.own.methods) : s.Current x m' := by
  refine h.keep (.of_same hscopes hfuncs) (fun n _ => ?_) (by rw [hstate])
  rw [Component.read, Component.read, hstate, hmethods]

/-- What an up to date derived value holds is what its expression is evaluated to now, or equal to
that, unless a function that this evaluation made is in it. -/
theorem Current.holds (h : s.Current x m) (hx : x.Readable) {v : Value}
    (hrun : Block.discreetIn s.settling (.host .derived) [] x.expr m = .ok (.ok v, m')) :
    (∃ held, m.host.own.state.get? x.name = some held ∧ (held = v ∨ held.equal v = true)) ∨
      ¬v.All (Func.Before m.funcs) := by
  obtain ⟨k, r, ⟨⟨k', hrun'⟩, hbefore⟩, hle, hsame, hanswer⟩ := h
  have huses : x.expr.Uses False fun n => x.Open n ∨ Block.Frame.Binds [] n := hx.mono fun _ => .inl
  obtain ⟨hout, -⟩ := Block.outcome_of_discreetIn hrun
  have hreads : s.settling.ReadsAlike s.settling x.Open k m := fun n hn =>
    ⟨hsame n hn, fun v hv => hbefore n v hn hv⟩
  obtain ⟨-, m₁, hrun₁, -⟩ := Block.outcomeIn_later (a := .host .derived) hle (.host hreads nofun)
    made_nil.before huses hrun'
  rw [hout] at hrun₁
  obtain ⟨hr, -⟩ := Prod.mk.inj (Except.ok.inj hrun₁)
  cases r with
  | error e => cases hr
  | ok w =>
    have hv : v = w.shift (k.gap m) := Except.ok.inj hr
    by_cases hmade : v.All (Func.Before m.funcs)
    · rw [hv] at hmade
      obtain ⟨held, hheld, heq⟩ := hanswer w rfl
      rw [hv, shift_eq_of_before hle.funcs hmade]
      exact .inl ⟨held, hheld, heq⟩
    · exact .inr hmade

/-! ### Recomputes -/

theorem grows_withOwn (m : Machine World) (c : Component) : m.Grows (m.withOwn c) :=
  .of_same rfl rfl

/-- A machine after the values of some derived values changed. -/
structure Recomputed (m : Machine World) (names : List Text) (m' : Machine World) : Prop where
  grows : m.Grows m'
  host : ∃ state, m'.host = { m.host with own := { m.host.own with state } }
  others : ∀ n, n ∉ names → m'.host.own.state.get? n = m.host.own.state.get? n

theorem Recomputed.of_host (hgrow : m.Grows m') (hhost : m'.host = m.host) : Recomputed m [] m' :=
  ⟨hgrow, ⟨_, hhost⟩, fun _ _ => by rw [hhost]⟩

theorem Recomputed.trans {names names' : List Text} (h : Recomputed m names m')
    (h' : Recomputed m' names' m'') : Recomputed m (names ++ names') m'' := by
  obtain ⟨state, hhost⟩ := h.host
  obtain ⟨state', hhost'⟩ := h'.host
  refine ⟨h.grows.trans h'.grows, ⟨state', by rw [hhost', hhost]⟩, fun n hn => ?_⟩
  rw [List.mem_append, not_or] at hn
  exact (h'.others n hn.2).trans (h.others n hn.1)

theorem Recomputed.methods {names : List Text} (h : Recomputed m names m') :
    m'.host.own.methods = m.host.own.methods := by
  obtain ⟨state, hhost⟩ := h.host
  rw [hhost]

/-- What is not a derived value that changed reads as before. -/
theorem Recomputed.read {names : List Text} (h : Recomputed m names m') {n : Text} (hn : n ∉ names) :
    m'.host.own.read n = m.host.own.read n := by
  rw [Component.read, Component.read, h.others n hn, h.methods]

/-- A line is written, if at all. -/
theorem after_traced (tr : Tracing) (tag t : Text) (hwhole : m.Whole) :
    Run.After Halt.Any (tr.write tag t) (fun _ m' => m'.host = m.host ∧ m.Grows m' ∧ m'.Whole) m := by
  unfold Tracing.write
  split
  · exact ⟨rfl, .of_same rfl rfl, hwhole.congr rfl rfl⟩
  · exact ⟨rfl, .refl m, hwhole⟩

/-- The report on a derived value is told to the trace. -/
theorem after_report {h : Host World} (hm : s.Kept me m) (name : Text) (o : Schedule.Outcome EvalError) :
    Run.After Halt.Any ((s.board h).report name o) (fun _ m' =>
      m'.host = m.host ∧ m.Grows m' ∧ s.Kept me m') m := by
  have hkept : ∀ {m' : Machine World}, m'.host = m.host ∧ m.Grows m' ∧ m'.Whole →
      m'.host = m.host ∧ m.Grows m' ∧ s.Kept me m' :=
    fun ⟨hhost, hgrow, hwhole⟩ => ⟨hhost, hgrow, hm.grow hgrow hwhole (by rw [hhost])⟩
  cases o with
  | failed e => exact hkept ⟨rfl, .of_same rfl rfl, hm.whole.congr rfl rfl⟩
  | computed v changed => exact (after_traced s.tracing _ _ hm.whole).mono fun _ _ h => hkept h

/-- What a derived value holds answers an evaluation of it: it is what came out, or equal to that.
Where the evaluation failed anything does. -/
def Answered (x : Derived) (c : Component) (r : Except EvalError Value) : Prop :=
  ∀ v, r = .ok v → ∃ held, c.state.get? x.name = some held ∧ (held = v ∨ held.equal v = true)

/-- A machine after one derived value was brought up to date, whether or not that changed it.  One that
reads itself may be behind again if it changed. -/
structure Renewed (s : Setting) (me : Option Value) (x : Derived) (m : Machine World) (changed : Bool)
    (m' : Machine World) : Prop where
  kept : s.Kept me m'
  recomputed : Recomputed m (if changed then [x.name] else []) m'
  current : x.name ∉ x.deps → s.Current x m'

section

variable {h : Host World} {m₁ : Machine World}

/-- A derived value keeps what it holds where the evaluation failed, or answered something equal. -/
theorem after_unchanged {r : Except EvalError Value} (hcomputed : s.Computed x m r)
    (hgrow₁ : m.Grows m₁) (hhost₁ : m₁.host = m.host) (hm₁ : s.Kept me m₁)
    (hheld : Answered x m.host.own r) (o : Schedule.Outcome EvalError) :
    Run.After Halt.Any (do (s.board h).report x.name o; return false)
      (fun changed m' => s.Renewed me x m changed m') m₁ := by
  refine (after_report hm₁ x.name o).bind ?_
  rintro _ m₂ ⟨hhost₂, hgrow₂, hm₂⟩
  have hgrow : m.Grows m₂ := hgrow₁.trans hgrow₂
  have hhost : m₂.host = m.host := hhost₂.trans hhost₁
  refine ⟨hm₂, .of_host hgrow hhost, fun _ => ⟨m, r, hcomputed, ⟨hgrow.funcs, hgrow.size⟩, ?_, ?_⟩⟩
  · intro n _
    rw [hhost]
  · rw [hhost]
    exact hheld

/-- A derived value holds what the evaluation answered once that is written. -/
theorem after_written {v : Value} (hd : s.definition.Discreet) (hx : x ∈ s.definition.script.derived)
    (hcomputed : s.Computed x m (.ok v)) (hgrow₁ : m.Grows m₁) (hhost₁ : m₁.host = m.host)
    (hm₁ : s.Kept me m₁) (hv : v.All m₁.Made) :
    Run.After Halt.Any (do
        (s.board h).write x.name v
        (s.board h).report x.name (.computed v true)
        return true) (fun changed m' => s.Renewed me x m changed m') m₁ := by
  have hname : x.name ∈ s.definition.keys := name_mem_keys hx
  show Run.After Halt.Any (do (s.board h).report x.name (.computed v true); return true) _
    (m₁.put x.name v)
  refine (after_report (hm₁.put hname hv) x.name (.computed v true)).bind ?_
  rintro _ m₂ ⟨hhost₂, hgrow₂, hm₂⟩
  have hput : m₁.Grows (m₁.put x.name v) := .of_same rfl rfl
  have hgrow : m.Grows m₂ := hgrow₁.trans (hput.trans hgrow₂)
  have hown : m₂.host.own = m.host.own.put x.name v := by
    rw [hhost₂, ← hhost₁]
    rfl
  have hget : ∀ n, m₂.host.own.state.get? n =
      if x.name = n then some v else m.host.own.state.get? n := by
    intro n
    rw [hown]
    exact Dict.get?_insert ..
  refine ⟨hm₂, ⟨hgrow, ⟨m.host.own.state.insert x.name v, ?_⟩, fun n hn => ?_⟩, fun hself =>
    ⟨m, _, hcomputed, ⟨hgrow.funcs, hgrow.size⟩, fun n hn => ?_, fun w hw => ?_⟩⟩
  · rw [hhost₂, ← hhost₁]
    rfl
  · rw [hget, if_neg fun h => hn (List.mem_singleton.2 h.symm)]
  · have hne : x.name ≠ n := by
      rintro rfl
      exact hn.elim hself fun hthis => hd.this (hthis ▸ hname)
    rw [Component.read, hget, if_neg hne, hown]
    rfl
  · cases hw
    exact ⟨v, (hget _).trans (if_pos rfl), .inl rfl⟩

/-- One derived value is brought up to date. -/
theorem after_refresh (hh : Reads h) (hd : s.definition.Discreet) (hm : s.Kept me m)
    (hx : x ∈ s.definition.script.derived) :
    Run.After Halt.Any ((s.board h).refresh x) (fun changed m' => s.Renewed me x m changed m') m := by
  have hcompute : (s.board h).compute x =
      Block.discreetIn h (.host .derived) [] x.expr := by
    show s.definition.outcome h (.host .derived) [] x.expr = _
    rw [hd.outcome]
  unfold Schedule.Board.refresh
  rw [hcompute]
  refine (after_computing hh hm (hd.derived x hx)).bind ?_
  rintro r m₁ ⟨hcomputed, hhost₁, hgrow₁, hm₁, hmade⟩
  cases r with
  | error e =>
    exact after_unchanged hcomputed hgrow₁ hhost₁ hm₁ (fun _ hv => by cases hv) _
  | ok v =>
    have hanswer : ∀ same : Bool, (same = true → ∃ old,
        m.host.own.state.get? x.name = some old ∧ old.equal v = true) → Run.After Halt.Any (do
        if same then
          (s.board h).report x.name (.computed v false)
          return false
        else
          (s.board h).write x.name v
          (s.board h).report x.name (.computed v true)
          return true) (fun changed m' => s.Renewed me x m changed m') m₁ := by
      intro same hheld
      cases same with
      | true =>
        refine after_unchanged hcomputed hgrow₁ hhost₁ hm₁ (fun w hw => ?_) _
        obtain ⟨old, hold, hequal⟩ := hheld rfl
        cases hw
        exact ⟨old, hold, .inr hequal⟩
      | false => exact after_written hd hx hcomputed hgrow₁ hhost₁ hm₁ (hmade v rfl)
    refine hanswer _ fun hequal => ?_
    rw [← hhost₁]
    cases hold : m₁.host.own.state.get? x.name with
    | none =>
      rw [hold] at hequal
      cases hequal
    | some old =>
      rw [hold] at hequal
      exact ⟨old, rfl, hequal⟩

/-- A derived value stays up to date while another one is brought up to date, unless that changes and
is read by it. -/
theorem Current.renewed {y : Derived} {changed : Bool} (hcur : s.Current y m)
    (hd : s.definition.Discreet) (hx : x ∈ s.definition.script.derived)
    (h : s.Renewed me x m changed m₁) (hne : y.name ≠ x.name)
    (hunread : changed = true → x.name ∉ y.deps) : s.Current y m₁ := by
  have hout : ∀ n, (n = y.name ∨ y.Open n) → n ∉ if changed then [x.name] else [] := by
    intro n hn hin
    split at hin
    · rename_i hchanged
      obtain rfl := List.mem_singleton.1 hin
      rcases hn with hn | hn | hn
      · exact hne hn.symm
      · exact hunread hchanged hn
      · exact hd.this (hn ▸ name_mem_keys hx)
    · cases hin
  exact hcur.keep h.recomputed.grows (fun n hn => h.recomputed.read (hout n (.inr hn)))
    (h.recomputed.others _ (hout _ (.inl rfl)))

end

/-! ### The order of derived values -/

/-- A derived value that is not on a cycle and waits for none that is. -/
def Settled (s : Setting) (x : Derived) : Prop :=
  x ∈ s.definition.script.derived ∧ x.name ∉ s.definition.schedule.cycle

/-- What a list has later than an element is in what follows the element. -/
theorem mem_of_idxOf_lt {done rest : List Text} {a b : Text} (ha : a ∉ done)
    (hb : b ∈ done ++ a :: rest)
    (hlt : (done ++ a :: rest).idxOf a < (done ++ a :: rest).idxOf b) : b ∈ rest := by
  rw [List.idxOf_append_of_notMem ha, List.idxOf_cons_self] at hlt
  rcases List.mem_append.1 hb with hb | hb
  · have := List.idxOf_lt_length_of_mem hb
    rw [List.idxOf_append_of_mem hb] at hlt
    omega
  · refine (List.mem_cons.1 hb).resolve_left fun heq => ?_
    rw [heq, List.idxOf_append_of_notMem ha, List.idxOf_cons_self] at hlt
    omega

/-- Such a derived value comes after a derived value that it reads, and does not read itself. -/
theorem Settled.comes_after (hd : s.definition.Discreet) (hx : s.Settled x) {name : Text}
    {done rest : List Text} (horder : s.definition.schedule.order = done ++ name :: rest)
    (hname : name ∈ x.deps) : x.name ∈ rest := by
  obtain ⟨strict, hbuild⟩ := hd.schedule
  obtain ⟨-, hderived, first, hfirst, hnodup, hmem, hsorted⟩ := Schedule.build_spec hbuild
  have hin : x.name ∈ first :=
    (List.mem_append.1 ((hmem _).2 (List.mem_map_of_mem hx.1))).resolve_right hx.2
  have hread : Schedule.Reads s.definition.script.derived x.name name :=
    ⟨x, hx.1, rfl, hname, (hmem _).1 (by rw [← hfirst, horder]; simp)⟩
  obtain ⟨hnamed, hlt⟩ := hsorted.idxOf_lt hin hread
  -- what is on a cycle comes last, so places among the others are places in the whole order
  have hindex : ∀ n ∈ first, (done ++ name :: rest).idxOf n = first.idxOf n := by
    intro n hn
    rw [← horder, hfirst, List.idxOf_append_of_mem hn]
  rw [← hindex _ hnamed, ← hindex _ hin] at hlt
  rw [← hfirst, horder] at hnodup
  refine mem_of_idxOf_lt (fun h => ?_) ?_ hlt
  · exact (List.nodup_append.1 hnodup).2.2 name h name List.mem_cons_self rfl
  · rw [← horder, hfirst]
    exact List.mem_append_left _ hin

theorem Settled.not_self (hd : s.definition.Discreet) (hx : s.Settled x) : x.name ∉ x.deps := by
  intro hself
  obtain ⟨strict, hbuild⟩ := hd.schedule
  obtain ⟨-, -, first, hfirst, hnodup, hmem, -⟩ := Schedule.build_spec hbuild
  have hin : x.name ∈ s.definition.schedule.order := by
    rw [hfirst]
    exact (hmem _).2 (List.mem_map_of_mem hx.1)
  obtain ⟨done, rest, horder⟩ := List.append_of_mem hin
  have hafter := hx.comes_after hd horder hself
  rw [← hfirst, horder] at hnodup
  exact (List.nodup_cons.1 (List.nodup_append.1 hnodup).2.1).1 hafter

/-- In the middle of a recompute: a derived value is up to date, or it is going to be computed. -/
def Due (s : Setting) (pending rest : List Text) (m : Machine World) : Prop :=
  ∀ x, s.Settled x → x.name ∈ rest ∧ x.name ∈ pending ∨ s.Current x m

section

variable {name : Text} {pending rest : List Text}

/-- A derived value that is not going to be computed is passed over. -/
theorem Due.skip (h : s.Due pending (name :: rest) m) (hname : name ∉ pending) :
    s.Due pending rest m := by
  intro x hx
  refine (h x hx).imp_left fun hdue => ⟨(List.mem_cons.1 hdue.1).resolve_left ?_, hdue.2⟩
  rintro rfl
  exact hname hdue.2

/-- When a derived value was brought up to date, those that read it are going to be computed if it
changed. -/
theorem Due.renewed (h : s.Due pending (x.name :: rest) m) (hd : s.definition.Discreet)
    (hx : x ∈ s.definition.script.derived) {done : List Text}
    (horder : s.definition.schedule.order = done ++ x.name :: rest) {changed : Bool}
    {m₁ : Machine World} (h₁ : s.Renewed me x m changed m₁) :
    s.Due (if changed then pending ++ s.definition.schedule.affected x.name else pending) rest m₁ := by
  obtain ⟨strict, hbuild⟩ := hd.schedule
  obtain ⟨hnames, hderived, -⟩ := Schedule.build_spec hbuild
  intro y hy
  by_cases hname : y.name = x.name
  · obtain rfl : y = x := List.inj_on_of_nodup_map hnames hy.1 hx hname
    exact .inr (h₁.current (hy.not_self hd))
  · rcases h y hy with hdue | hcur
    · refine .inl ⟨(List.mem_cons.1 hdue.1).resolve_left hname, ?_⟩
      split
      · exact List.mem_append_left _ hdue.2
      · exact hdue.2
    · by_cases hread : changed = true ∧ x.name ∈ y.deps
      · refine .inl ⟨hy.comes_after hd horder hread.2, ?_⟩
        rw [if_pos hread.1, Schedule.affected, hderived]
        exact List.mem_append_right _ (Schedule.mem_readers.2 ⟨y, hy.1, rfl, hread.2⟩)
      · exact .inr (hcur.renewed hd hx h₁ hname fun hchanged hdep => hread ⟨hchanged, hdep⟩)

end

/-- A recompute of the rest of the order brings up to date what is not, if that is looked for. -/
theorem after_refreshAll {h : Host World} (hh : Reads h) (hd : s.definition.Discreet) (on : Prop) :
    ∀ (rest done pending : List Text) {m : Machine World},
    s.definition.schedule.order = done ++ rest → s.Kept me m → (on → s.Due pending rest m) →
    Run.After Halt.Any (s.definition.schedule.refreshAll (s.board h) pending rest)
      (fun names m' => s.Kept me m' ∧ Recomputed m names m' ∧
        (on → ∀ x, s.Settled x → s.Current x m')) m := by
  obtain ⟨strict, hbuild⟩ := hd.schedule
  obtain ⟨-, hderived, first, hfirst, -, hmem, -⟩ := Schedule.build_spec hbuild
  intro rest
  induction rest with
  | nil =>
    intro done pending m _ hm hdue
    refine ⟨hm, .of_host (.refl m) rfl, fun hon x hx => ?_⟩
    exact (hdue hon x hx).resolve_left fun h => List.not_mem_nil h.1
  | cons name rest ih =>
    intro done pending m horder hm hdue
    have horder' : s.definition.schedule.order = (done ++ [name]) ++ rest := by simp [horder]
    unfold Schedule.refreshAll
    split
    · have hname : name ∈ Schedule.namesOf s.definition.schedule.derived := by
        rw [hderived, ← hmem, ← hfirst, horder]
        simp
      obtain ⟨x, hx, rfl, hfind⟩ := Schedule.exists_find? hname
      rw [hderived] at hx
      rw [hfind]
      dsimp only
      refine (after_refresh hh hd hm hx).bind ?_
      intro changed m₁ h₁
      have hdue₁ := fun hon => (hdue hon).renewed hd hx horder h₁
      cases changed with
      | false =>
        refine (ih _ _ horder' h₁.kept hdue₁).mono ?_
        rintro names m₂ ⟨hm₂, hrec₂, hall⟩
        exact ⟨hm₂, h₁.recomputed.trans hrec₂, hall⟩
      | true =>
        refine (ih _ _ horder' h₁.kept hdue₁).bind ?_
        rintro names m₂ ⟨hm₂, hrec₂, hall⟩
        exact ⟨hm₂, h₁.recomputed.trans hrec₂, hall⟩
    · rename_i hpending
      have hname : name ∉ pending := fun h => hpending (List.contains_iff_mem.2 h)
      exact ih _ pending horder' hm fun hon => (hdue hon).skip hname

/-- A recompute brings up to date every derived value that is settled, if those that are not up to
date read a key of the seed.  Without a seed nothing has to be up to date. -/
theorem after_recompute {h : Host World} (hh : Reads h) (hd : s.definition.Discreet)
    (hm : s.Kept me m) (on : Prop) {seed : Option (List Text)}
    (hseed : on → ∀ changed, seed = some changed → ∀ x, s.Settled x →
      (∃ n ∈ changed, n ∈ x.deps) ∨ s.Current x m) :
    Run.After Halt.Any (s.recompute h seed) (fun names m' => s.Kept me m' ∧
      Recomputed m names m' ∧ (on → ∀ x, s.Settled x → s.Current x m')) m := by
  obtain ⟨strict, hbuild⟩ := hd.schedule
  obtain ⟨-, hderived, first, hfirst, -, hmem, -⟩ := Schedule.build_spec hbuild
  have hin : ∀ x, s.Settled x → x.name ∈ s.definition.schedule.order := by
    intro x hx
    rw [hfirst]
    exact (hmem _).2 (List.mem_map_of_mem hx.1)
  refine after_refreshAll hh hd on _ [] _ rfl hm fun hon x hx => ?_
  cases seed with
  | none => exact .inl ⟨hin x hx, hin x hx⟩
  | some changed =>
    refine (hseed hon changed rfl x hx).imp_left ?_
    rintro ⟨n, hn, hdep⟩
    refine ⟨hin x hx, List.mem_flatMap.2 ⟨n, hn, ?_⟩⟩
    rw [Schedule.affected, hderived]
    exact Schedule.mem_readers.2 ⟨x, hx.1, rfl, hdep⟩

end Setting

end Reactive
