/-
Components with a probe.

A probe is put in the place of the expressions of a view and of the way handlers
run: it sees each binding that is evaluated together with the frame, and may do
anything with it.  A probe that does what the component does for a binding in
the frames of the loops around it is never noticed, whatever it does elsewhere:
from the creation of the component on, every run goes the same way with it.  Where
a derived value is computed a probe may stop the run.

* `Probe`, `Setting.probed` — a probe, and a component with it;
* `Setting.Heeds` — a probe that does what the component does where `P` holds;
* `Setting.Endures.agrees_performAll` — a run with a probe, up to where it is stopped;
* `runs_probed` — such a probe is never noticed.
-/
import Reactive.Proofs.Block.Recoded
import Reactive.Proofs.Component.Keeps
import Reactive.Proofs.Eval.Agreed

namespace Reactive

open Block (Frame Label Labelled Agrees AgreesOn Stands Stage Action)

/-- Something in the place of the expressions of a view and of its handlers. -/
structure Probe where
  /-- What a binding evaluates in the place of its expression. -/
  code : View.Binding → Expr
  /-- How that is evaluated. -/
  outcome : Host World → Store → Frame → Expr → Run World (Except EvalError Value)
  /-- How a handler is run. -/
  handle : Action → Value → Run World Unit

namespace Setting

/-- A component with a probe. -/
def probed (s : Setting) (p : Probe) : Setting :=
  { s with definition := { s.definition with
      view := View.recodeAll p.code s.definition.view
      outcome := p.outcome } }

/-- An event, handled in some way. -/
def dispatchBy (s : Setting) (handle : Action → Value → Run World Unit) (target : Text)
    (index : Int) (type : Text) (detail : Value) : Attempt Bool := do
  match (← ExceptT.lift Block.getOwn).host with
  | none => throw (.notMounted s.definition.tag)
  | some host =>
    let found := (← ExceptT.lift Block.getDoc).findAll host target
    match if index < 0 then none else found[index.toNat]? with
    | none => throw (.noTarget s.definition.tag target index found.length)
    | some n =>
      let handled ← ExceptT.lift (Block.dispatchBy handle s.batch n type detail)
      ExceptT.lift (s.tracing.write s.definition.tag (Tracing.event type handled))
      return handled

mutual

/-- Do one thing with a component; events are handled in some way. -/
def performBy (s : Setting) (handle : Action → Value → Run World Unit) : Operation → Run World Unit
  | .set name v => anyway (s.set name v)
  | .setProp name v => anyway (s.setProp name v)
  | .setAttribute attr value => anyway (s.setAttribute attr value)
  | .removeAttribute attr => anyway (s.removeAttribute attr)
  | .call name args => anyway (s.call name args)
  | .dispatch target index type detail => anyway (s.dispatchBy handle target index type detail)
  | .batch ops => s.batch (s.performAllBy handle ops)
  | .mount place => s.mount place
  | .destroy => s.destroy

/-- Do several things with a component; events are handled in some way. -/
def performAllBy (s : Setting) (handle : Action → Value → Run World Unit) :
    List Operation → Run World Unit
  | [] => return
  | o :: r => do
    s.performBy handle o
    s.performAllBy handle r

end

/-- How a component handles events. -/
abbrev handle (s : Setting) (a : Action) (event : Value) : Run World Unit :=
  (s.site s.live).handle a event

mutual

/-- Events are handled as the component does. -/
theorem performBy_handle (s : Setting) : ∀ o : Operation, s.performBy s.handle o = s.perform o
  | .batch ops => by rw [performBy, perform, performAllBy_handle s ops]
  | .set .. | .setProp .. | .setAttribute .. | .removeAttribute .. | .call .. | .dispatch ..
  | .mount _ | .destroy => rfl

theorem performAllBy_handle (s : Setting) :
    ∀ ops : List Operation, s.performAllBy s.handle ops = s.performAll ops
  | [] => rfl
  | o :: r => by rw [performAllBy, performAll, performBy_handle s o, performAllBy_handle s r]

end

/-- A probe that does what a component does for a binding in a frame where `P` holds of them.  The
truth value tells handlers from other bindings. -/
structure Heeds (s : Setting) (p : Probe) (P : Bool → View.Binding → Frame → Prop) : Prop where
  derived : ∀ h e, p.outcome h (.host .derived) [] e = s.definition.outcome h (.host .derived) [] e
  reads : ∀ h state frame b, P false b frame →
    p.outcome h (.snapshot state) frame (p.code b) =
      s.definition.outcome h (.snapshot state) frame b.expr
  handles : ∀ a event, P true a.handler.binding a.frame →
    p.handle a event = (s.probed p).handle a event

theorem Heeds.mono {s : Setting} {p : Probe} {P P' : Bool → View.Binding → Frame → Prop}
    (hp : s.Heeds p P) (h : ∀ handler b frame, P' handler b frame → P handler b frame) :
    s.Heeds p P' where
  derived := hp.derived
  reads host state frame b hb := hp.reads host state frame b (h _ _ _ hb)
  handles a event ha := hp.handles a event (h _ _ _ ha)

/-! ### Steps of components -/

variable {stop : Halt → Prop} {s : Setting} {p : Probe} {L : List Label} {view : List View.Node}

/-- What is known of the blocks of a component with some view. -/
abbrev Boarded (view : List View.Node) : List Label → World → Prop := Labelled Component.root view

theorem agrees_getOwn : Agrees stop (Boarded view) L
    (fun L' c => ∀ r, c.root = some r → L'[r]? = some ⟨.whole view, []⟩)
    Block.getOwn Block.getOwn :=
  .step fun m hm => ⟨_, m, rfl, hm, hm.top⟩

theorem agrees_modifyOwn {f : Component → Component}
    (hf : ∀ c r, (f c).root = some r → c.root = some r ∨ L[r]? = some ⟨.whole view, []⟩) :
    AgreesOn stop (Boarded view) L (Block.modifyOwn f) (Block.modifyOwn f) :=
  .step fun m hm => ⟨_, _, rfl, ⟨hm.size, hm.inside, hm.cell,
    fun r hr => (hf m.host.own r hr).elim (hm.top r) id, hm.listeners⟩, trivial⟩

/-- A change of a component that leaves its view where it is. -/
theorem agrees_touchOwn {f : Component → Component} (hf : ∀ c, (f c).root = c.root) :
    AgreesOn stop (Boarded view) L (Block.modifyOwn f) (Block.modifyOwn f) :=
  agrees_modifyOwn fun c _ hr => .inl (hf c ▸ hr)

theorem agrees_storeKey (d : Definition) {onChange onChange' : Run World Unit}
    (hchange : ∀ L, AgreesOn stop (Boarded view) L onChange onChange') (name : Text) (v : Value) :
    AgreesOn stop (Boarded view) L (storeKey d onChange name v).run
      (storeKey d onChange' name v).run := by
  have hsame : ∀ r : Except EvalError Unit,
      AgreesOn stop (Boarded view) L (pure r : Run World _) (pure r) := fun _ => .pure trivial
  intro m hm
  unfold Run.Follows Run.After
  rw [storeKey_run, storeKey_run]
  cases d.isDerived name with
  | true => exact hsame _ m hm
  | false =>
    cases d.isConst name with
    | true => exact hsame _ m hm
    | false =>
      cases m.host.own.state.get? name with
      | none => exact hsame _ m hm
      | some old =>
        dsimp only
        cases old.equal v with
        | true => exact hsame _ m hm
        | false =>
          have hmarked : Boarded view L (m.marked d.bits name v).host :=
            ⟨hm.size, hm.inside, hm.cell, hm.top, hm.listeners⟩
          have hmap : AgreesOn stop (Boarded view) L (Except.ok (ε := EvalError) <$> onChange)
              (Except.ok <$> onChange') := by
            rw [map_eq_pure_bind, map_eq_pure_bind]
            exact (hchange L).seq fun _ _ _ => .pure trivial
          exact hmap _ hmarked

/-! ### Evaluations -/

/-- Hosts that agree wherever the labels are right. -/
structure HostsAgree (stop : Halt → Prop) (view : List View.Node) (h h' : Host World) : Prop where
  read : ∀ w n, h'.read w n = h.read w n
  write : ∀ L name v, AgreesOn stop (Boarded view) L (h.write name v).run (h'.write name v).run

namespace HostsAgree

variable {h h' : Host World} (hh : HostsAgree stop view h h')

include hh

/-- At every moment there are at least the labels there were. -/
theorem agreesWith (L : List Label) :
    h.AgreesWith stop h' fun w => ∃ L', L <+: L' ∧ Boarded view L' w where
  read a _ n := hh.read a n
  write name v m := by
    rintro ⟨L', hL, hm⟩
    refine (hh.write L' name v m hm).mono fun _ m' h => ?_
    obtain ⟨L'', hL', hm', -⟩ := h
    exact ⟨L'', hL.trans hL', hm'⟩

theorem eval (L : List Label) (env : Nat) (e : Expr) : AgreesOn stop (Boarded view) L
    (eval h.caller env e).run (Reactive.eval h'.caller env e).run := by
  refine fun m hm => ((hh.agreesWith L).eval env e m ⟨L, List.prefix_rfl, hm⟩).mono fun _ _ h => ?_
  obtain ⟨L', hL, hm'⟩ := h
  exact ⟨L', hL, hm', trivial⟩

theorem call (L : List Label) (f : Func) (args : List Value) : AgreesOn stop (Boarded view) L
    (h.caller.call f args).run (h'.caller.call f args).run := by
  refine fun m hm => ((hh.agreesWith L).call f args m ⟨L, List.prefix_rfl, hm⟩).mono fun _ _ h => ?_
  obtain ⟨L', hL, hm'⟩ := h
  exact ⟨L', hL, hm', trivial⟩

theorem outcomeIn (store : Store) (frame : Frame) (e : Expr) : AgreesOn stop (Boarded view) L
    (Block.outcomeIn h.caller store frame e) (Block.outcomeIn h'.caller store frame e) :=
  (Agrees.frameScope store frame).seq fun env L' _ => hh.eval L' env e

end HostsAgree

/-- During a flush a write only marks its key. -/
theorem hostsAgree_settling : HostsAgree stop view s.settling (s.probed p).settling where
  read _ _ := rfl
  write _ name v := agrees_storeKey s.definition (fun _ => .pure trivial) name v

/-! ### Attempts -/

section

variable {T : List Label → World → Prop} {α β : Type}

theorem agrees_attempts {x y : Attempt α} {f g : α → Attempt β} (hx : AgreesOn stop T L x.run y.run)
    (hf : ∀ a L', L <+: L' → AgreesOn stop T L' (f a).run (g a).run) :
    AgreesOn stop T L (x >>= f).run (y >>= g).run := by
  rw [ExceptT.run_bind, ExceptT.run_bind]
  refine hx.seq fun r L' hL => ?_
  cases r with
  | error e => exact .pure trivial
  | ok a => exact hf a L' hL

theorem agrees_lift {x y : Run World α} (hx : AgreesOn stop T L x y) :
    AgreesOn stop T L (ExceptT.lift x : Attempt α).run (ExceptT.lift y : Attempt α).run := by
  show AgreesOn stop T L (Except.ok <$> x) (Except.ok <$> y)
  rw [map_eq_pure_bind, map_eq_pure_bind]
  exact hx.seq fun _ _ _ => .pure trivial

theorem agrees_guardEval (wrap : EvalError → ComponentError) {x y : Eval World α}
    (hx : AgreesOn stop T L x.run y.run) :
    AgreesOn stop T L (guardEval wrap x).run (guardEval wrap y).run := by
  refine agrees_attempts (agrees_lift hx) fun r _ _ => ?_
  cases r <;> exact .pure trivial

theorem agrees_anyway {x y : Attempt α} (hx : AgreesOn stop T L x.run y.run) :
    AgreesOn stop T L (anyway x) (anyway y) :=
  hx.seq fun _ _ _ => .pure trivial

end

/-! ### A component and the component with a probe -/

theorem agrees_destroy :
    AgreesOn stop (Boarded s.definition.view) L s.destroy (s.probed p).destroy := by
  have hdetach : ∀ (c : Component) (L : List Label), AgreesOn stop (Boarded s.definition.view) L
      (match c.host with
        | none => pure ()
        | some host => Block.modifyDoc (·.detach host) : Run World Unit)
      (match c.host with
        | none => pure ()
        | some host => Block.modifyDoc (·.detach host)) := by
    intro c L
    cases c.host with
    | none => exact .pure trivial
    | some host => exact Block.agrees_detach host
  refine agrees_getOwn.bind fun c L₁ _ hroot => ?_
  cases hr : c.root with
  | none => exact hdetach c L₁
  | some root =>
    refine (Block.agrees_destroyPart (hroot root hr)).seq fun _ _ _ => ?_
    exact (agrees_modifyOwn fun _ _ h => by cases h).seq fun _ L' _ => hdetach c L'

/-- A probe that is sound to put in: it does what the component does where bindings stand.  Where a
derived value is computed it may stop the run. -/
structure Endures (stop : Halt → Prop) (s : Setting) (p : Probe) : Prop where
  sound : s.definition.Sound
  derived : ∀ h e m, (∃ halted, stop halted ∧ p.outcome h (.host .derived) [] e m = .error halted) ∨
    p.outcome h (.host .derived) [] e m = s.definition.outcome h (.host .derived) [] e m
  reads : ∀ h state frame b, Stands s.definition.view false b frame →
    p.outcome h (.snapshot state) frame (p.code b) =
      s.definition.outcome h (.snapshot state) frame b.expr
  handles : ∀ a event, Stands s.definition.view true a.handler.binding a.frame →
    p.handle a event = (s.probed p).handle a event

theorem Heeds.endures (hs : s.definition.Sound)
    (hp : s.Heeds p fun handler b frame => Stands s.definition.view handler b frame) :
    s.Endures stop p where
  sound := hs
  derived h e m := .inr (congrFun (hp.derived h e) m)
  reads := hp.reads
  handles := hp.handles

namespace Endures

variable (hp : s.Endures stop p)

include hp

/-! #### Updates -/

theorem spares {h h' : Host World} (hh : HostsAgree stop s.definition.view h h') :
    (s.site h).Spares stop Component.root s.definition.view p.code (p.outcome h') := by
  intro L state b frame hb
  rw [hp.reads h' state frame b hb, hp.sound.outcome]
  show AgreesOn stop _ L (s.definition.outcome h (.snapshot state) frame b.expr) _
  rw [hp.sound.outcome]
  exact hh.outcomeIn _ frame b.expr

/-- Derived values are brought up to date in the same way. -/
theorem agrees_recompute {h h' : Host World} (hh : HostsAgree stop s.definition.view h h')
    (seed : Option (List Text)) : AgreesOn stop (Boarded s.definition.view) L (s.recompute h seed)
      ((s.probed p).recompute h' seed) := by
  have hreport : ∀ n o L, AgreesOn stop (Boarded s.definition.view) L ((s.board h).report n o)
      (((s.probed p).board h').report n o) := by
    intro n o L
    cases o with
    | computed v changed => exact Agrees.trace _ _ _
    | failed e => exact Agrees.writeLog _ _
  -- Derived values stand outside the view: a probe has to leave their evaluation alone.
  have hcompute : ∀ d L, AgreesOn stop (Boarded s.definition.view) L ((s.board h).compute d)
      (((s.probed p).board h').compute d) := by
    intro d L
    show AgreesOn stop _ L (s.definition.outcome h (.host .derived) [] d.expr)
      (p.outcome h' (.host .derived) [] d.expr)
    intro m hm
    rcases hp.derived h' d.expr m with hstop | hrun
    · exact .inl hstop
    · rw [Run.Follows, hrun, hp.sound.outcome]
      exact hh.outcomeIn _ [] d.expr m hm
  have hrefresh : ∀ d L, AgreesOn stop (Boarded s.definition.view) L ((s.board h).refresh d)
      (((s.probed p).board h').refresh d) := by
    intro d L
    refine (hcompute d L).seq fun r L₁ _ => ?_
    cases r with
    | error e => exact (hreport _ _ _).seq fun _ _ _ => .pure trivial
    | ok v =>
      have hread : ∀ L, AgreesOn stop (Boarded s.definition.view) L ((s.board h).read d.name)
          (((s.probed p).board h').read d.name) := fun _ => .look fun _ => ⟨_, _, rfl, rfl⟩
      refine (hread _).seq fun old L₂ _ => .ite (fun _ => ?_) fun _ => ?_
      · exact (hreport _ _ _).seq fun _ _ _ => .pure trivial
      · have hwrite : ∀ L, AgreesOn stop (Boarded s.definition.view) L ((s.board h).write d.name v)
            (((s.probed p).board h').write d.name v) :=
          fun _ => agrees_touchOwn (f := fun c => c.put d.name v) fun _ => rfl
        refine (hwrite _).seq fun _ _ _ => ?_
        exact (hreport _ _ _).seq fun _ _ _ => .pure trivial
  have hall : ∀ names pending L, AgreesOn stop (Boarded s.definition.view) L
      (s.definition.schedule.refreshAll (s.board h) pending names)
      (s.definition.schedule.refreshAll ((s.probed p).board h') pending names) := by
    intro names
    induction names with
    | nil => exact fun _ _ => .pure trivial
    | cons n r ih =>
      intro pending L
      unfold Schedule.refreshAll
      refine .ite (fun _ => ?_) fun _ => ih pending L
      cases s.definition.schedule.find? n with
      | none => exact ih pending L
      | some d =>
        refine (hrefresh d L).seq fun changed L₁ _ => .ite (fun _ => ?_) fun _ => ih pending L₁
        exact (ih _ L₁).seq fun _ _ _ => .pure trivial
  exact hall _ _ L

theorem agrees_pass : AgreesOn stop (Boarded s.definition.view) L s.pass (s.probed p).pass := by
  refine agrees_getOwn.on.seq fun c _ _ => (agrees_touchOwn (by exact fun _ => rfl)).seq fun _ _ _ => ?_
  refine (hp.agrees_recompute hostsAgree_settling _).seq fun derived L₃ h₃ => ?_
  refine agrees_getOwn.bind fun c' L₄ h₄ hroot => ?_
  refine (agrees_touchOwn (by exact fun _ => rfl)).seq fun _ L₅ h₅ => ?_
  refine (Agrees.trace _ _ _).seq fun _ L₆ h₆ => ?_
  cases hr : c'.root with
  | none => exact .pure trivial
  | some root =>
    refine .ite (fun _ => agrees_getOwn.on.seq fun c'' L₇ h₇ => ?_) fun _ => .pure trivial
    exact Block.agrees_patchPart
      (Block.getElem?_grown (h₅.trans (h₆.trans h₇)) (hroot root hr)) (hp.spares hostsAgree_settling) _ _

theorem agrees_passes (n : Nat) :
    ∀ L, AgreesOn stop (Boarded s.definition.view) L (s.passes n) ((s.probed p).passes n) := by
  induction n with
  | zero =>
    refine fun L => agrees_getOwn.on.seq fun c _ _ => .ite (fun _ => .pure trivial) fun _ => ?_
    exact (Agrees.writeLog _ _).seq fun _ _ _ => agrees_touchOwn (by exact fun _ => rfl)
  | succ n ih =>
    refine fun L => agrees_getOwn.on.seq fun c _ _ => .ite (fun _ => .pure trivial) fun _ => ?_
    exact hp.agrees_pass.seq fun _ L' _ => ih L'

theorem agrees_flushOutside (L : List Label) :
    AgreesOn stop (Boarded s.definition.view) L s.flushOutside (s.probed p).flushOutside :=
  agrees_getOwn.on.seq fun _ L' _ => .ite (fun _ => hp.agrees_passes _ L') fun _ => .pure trivial

theorem live : HostsAgree stop s.definition.view s.live (s.probed p).live where
  read _ _ := rfl
  write _ name v := agrees_storeKey s.definition hp.agrees_flushOutside name v

theorem agrees_batch {α : Type} {x y : Run World α}
    (hxy : ∀ L', L <+: L' → AgreesOn stop (Boarded s.definition.view) L' x y) :
    AgreesOn stop (Boarded s.definition.view) L (s.batch x) ((s.probed p).batch y) := by
  refine (agrees_touchOwn (by exact fun _ => rfl)).seq fun _ L₁ h₁ => (hxy L₁ h₁).seq fun a _ _ => ?_
  refine (agrees_touchOwn (by exact fun _ => rfl)).seq fun _ L₃ _ => ?_
  exact (hp.agrees_flushOutside L₃).seq fun _ _ _ => .pure trivial

/-! #### Operations -/

theorem agrees_set (name : Text) (v : Value) : AgreesOn stop (Boarded s.definition.view) L
    (s.set name v).run ((s.probed p).set name v).run :=
  agrees_guardEval _ (hp.live.write L name v)

theorem agrees_setProp (name : Text) (v : Value) : AgreesOn stop (Boarded s.definition.view) L
    (s.setProp name v).run ((s.probed p).setProp name v).run := by
  have hset := hp.agrees_set (L := L) name v
  unfold setProp
  show AgreesOn stop _ L (if s.definition.hasProp name then s.set name v else _ : Attempt Unit).run
    (if s.definition.hasProp name then (s.probed p).set name v else _ : Attempt Unit).run
  split
  · exact hset
  · exact .pure trivial

/-- A prop that is written with a value that depends on the component. -/
theorem agrees_coerced (name : Text) (v : Value) : AgreesOn stop (Boarded s.definition.view) L
    (do if s.definition.hasProp name then s.set name v : Attempt Unit).run
    (do if s.definition.hasProp name then (s.probed p).set name v : Attempt Unit).run := by
  split
  · exact hp.agrees_set name v
  · exact .pure trivial

theorem agrees_setAttribute (attr value : Text) : AgreesOn stop (Boarded s.definition.view) L
    (s.setAttribute attr value).run ((s.probed p).setAttribute attr value).run := by
  refine agrees_attempts (agrees_lift agrees_getOwn.on) fun c L₁ _ => ?_
  cases c.host with
  | none => exact hp.agrees_coerced _ _
  | some h =>
    exact agrees_attempts (agrees_lift (Block.agrees_modifyAttrs h _)) fun _ _ _ =>
      hp.agrees_coerced _ _

theorem agrees_removeAttribute (attr : Text) : AgreesOn stop (Boarded s.definition.view) L
    (s.removeAttribute attr).run ((s.probed p).removeAttribute attr).run := by
  refine agrees_attempts (agrees_lift agrees_getOwn.on) fun c L₁ _ => ?_
  cases c.host with
  | none => exact hp.agrees_coerced _ _
  | some h =>
    exact agrees_attempts (agrees_lift (Block.agrees_modifyAttrs h _)) fun _ _ _ =>
      hp.agrees_coerced _ _

theorem agrees_call (name : Text) (args : List Value) : AgreesOn stop (Boarded s.definition.view) L
    (s.call name args).run ((s.probed p).call name args).run := by
  refine agrees_attempts (agrees_lift agrees_getOwn.on) fun c L₁ _ => ?_
  split
  · rename_i f _
    refine agrees_attempts (agrees_lift (hp.agrees_batch fun L' _ => hp.live.call L' f args))
      fun r _ _ => ?_
    cases r <;> exact .pure trivial
  · exact .pure trivial

theorem calls :
    (s.site s.live).Calls stop Component.root s.definition.view (s.probed p).live.caller where
  eval := hp.live.eval
  call := hp.live.call

/-- A handler of the view in a frame of its own loops. -/
theorem agrees_handled {L : List Label} (a : Action) (event : Value)
    (ha : Stands s.definition.view true a.handler.binding a.frame) :
    AgreesOn stop (Boarded s.definition.view) L (s.handle a event) (p.handle a event) := by
  rw [hp.handles a event ha]
  exact Block.agrees_handle hp.calls a event

theorem agrees_dispatch (target : Text) (index : Int) (type : Text) (detail : Value) :
    AgreesOn stop (Boarded s.definition.view) L (s.dispatch target index type detail).run
      ((s.probed p).dispatchBy p.handle target index type detail).run := by
  refine agrees_attempts (agrees_lift agrees_getOwn.on) fun c L₁ _ => ?_
  cases c.host with
  | none => exact .pure trivial
  | some host =>
    refine agrees_attempts (agrees_lift Agrees.getDoc) fun doc L₂ _ => ?_
    dsimp only
    cases (if index < 0 then none else (doc.findAll host target)[index.toNat]?) with
    | none => exact .pure trivial
    | some n =>
      have hsent : AgreesOn stop (Boarded s.definition.view) L₂
          ((s.site s.live).dispatch s.batch n type detail)
          (Block.dispatchBy p.handle (s.probed p).batch n type detail) := by
        rw [← Block.dispatchBy_handle]
        exact Block.agrees_dispatchBy (fun L a event ha => hp.agrees_handled a event ha)
          (fun L x y hxy => hp.agrees_batch hxy) n type detail
      refine agrees_attempts (agrees_lift hsent) fun handled _ _ => ?_
      exact agrees_attempts (agrees_lift (Agrees.trace _ _ _)) fun _ _ _ => .pure trivial

/-- The view of a component in its host element, which is put in its place. -/
theorem agrees_mountView (place : Option (Dom.NodeId × Option Dom.NodeId)) (host : Dom.NodeId) :
    AgreesOn stop (Boarded s.definition.view) L
      (do
        let state := (← Block.getOwn).snapshot
        let root ← s.definition.part.create []
        Block.modifyOwn fun c => { c with root := some root }
        s.definition.part.mount (s.site s.live) state root host none
        match place with
        | none => pure ()
        | some (parent, anchor) => Block.insertNode parent host anchor : Run World Unit)
      (do
        let state := (← Block.getOwn).snapshot
        let root ← (s.probed p).definition.part.create []
        Block.modifyOwn fun c => { c with root := some root }
        (s.probed p).definition.part.mount ((s.probed p).site (s.probed p).live) state root host none
        match place with
        | none => pure ()
        | some (parent, anchor) => Block.insertNode parent host anchor : Run World Unit) := by
  -- The view as a whole is in no loop, and its blocks start from the empty frame.
  have hwhole : Label.Inside s.definition.view ⟨s.definition.part, []⟩ := fun _ hu => hu
  refine agrees_getOwn.on.seq fun c L₁ _ => ?_
  refine (Block.agrees_createPart hwhole Frame.exact_nil).bind fun root L₂ _ hroot => ?_
  refine (agrees_modifyOwn fun c r hr => .inr ?_).seq fun _ L₃ h₃ => ?_
  · obtain rfl := Option.some.inj hr
    exact hroot
  refine (Block.agrees_mountPart (Block.getElem?_grown h₃ hroot) (hp.spares hp.live) _ _
    _).seq fun _ _ _ => ?_
  cases place with
  | none => exact .pure trivial
  | some q => exact Block.agrees_insertNode _ _ _

theorem agrees_mount (place : Option (Dom.NodeId × Option Dom.NodeId)) :
    AgreesOn stop (Boarded s.definition.view) L (s.mount place) ((s.probed p).mount place) := by
  have hdoc : ∀ {L : List Label} (c : Dom.Content), AgreesOn stop (Boarded s.definition.view) L
      (Block.onDoc fun d => d.create c) (Block.onDoc fun d => d.create c) :=
    fun c => Block.agrees_onDoc _ fun _ _ hx => .inl hx
  refine agrees_getOwn.on.seq fun c L₁ _ => .ite (fun _ => .pure trivial) fun _ => ?_
  refine (hdoc _).seq fun host L₂ _ => (agrees_touchOwn (by exact fun _ => rfl)).seq fun _ L₃ _ => ?_
  refine .ite (fun _ => hp.agrees_mountView place host) fun _ => ?_
  refine (hdoc _).seq fun style _ _ => (hdoc _).seq fun text _ _ => ?_
  exact (Block.agrees_insertNode _ _ _).seq fun _ _ _ =>
    (Block.agrees_insertNode _ _ _).seq fun _ _ _ => hp.agrees_mountView place host

end Endures

mutual

theorem Endures.agrees_perform (hp : s.Endures stop p) : ∀ (o : Operation) {L : List Label},
    AgreesOn stop (Boarded s.definition.view) L (s.perform o) ((s.probed p).performBy p.handle o)
  | .set name v, _ => agrees_anyway (hp.agrees_set name v)
  | .setProp name v, _ => agrees_anyway (hp.agrees_setProp name v)
  | .setAttribute attr value, _ => agrees_anyway (hp.agrees_setAttribute attr value)
  | .removeAttribute attr, _ => agrees_anyway (hp.agrees_removeAttribute attr)
  | .call name args, _ => agrees_anyway (hp.agrees_call name args)
  | .dispatch target index type detail, _ =>
    agrees_anyway (hp.agrees_dispatch target index type detail)
  | .batch ops, _ => hp.agrees_batch fun _ _ => Endures.agrees_performAll hp ops
  | .mount place, _ => hp.agrees_mount place
  | .destroy, _ => agrees_destroy

theorem Endures.agrees_performAll (hp : s.Endures stop p) :
    ∀ (ops : List Operation) {L : List Label}, AgreesOn stop (Boarded s.definition.view) L
      (s.performAll ops) ((s.probed p).performAllBy p.handle ops)
  | [], _ => .pure trivial
  | o :: r, _ => (Endures.agrees_perform hp o).seq fun _ _ _ => Endures.agrees_performAll hp r

end

/-! #### Creation -/

theorem agrees_bindMethods (env : Nat) (ms : List Method) :
    ∀ {L : List Label},
      AgreesOn stop (Boarded view) L (bindMethods env ms) (bindMethods env ms) := by
  induction ms with
  | nil => exact .pure trivial
  | cons x r ih =>
    refine .seq (.look fun _ => ⟨_, _, rfl, rfl⟩) fun f _ _ => ?_
    exact (agrees_touchOwn (by exact fun _ => rfl)).seq fun _ _ _ => ih

namespace Endures

variable (hp : s.Endures stop p)

include hp

theorem agrees_initProps (env : Nat) (given : Dict Value) (ps : List PropDecl) :
    ∀ {L : List Label}, AgreesOn stop (Boarded s.definition.view) L (s.initProps env given ps).run
      ((s.probed p).initProps env given ps).run := by
  induction ps with
  | nil => exact .pure trivial
  | cons x r ih =>
    intro L
    unfold initProps
    cases given.get? x.name with
    | some v =>
      exact agrees_attempts (agrees_lift (agrees_touchOwn (by exact fun _ => rfl))) fun _ _ _ => ih
    | none =>
      cases x.default with
      | none => exact ih
      | some e =>
        refine agrees_attempts (agrees_guardEval _ (hp.live.eval L env e)) fun v _ _ => ?_
        exact agrees_attempts (agrees_lift (agrees_touchOwn (by exact fun _ => rfl))) fun _ _ _ => ih

theorem agrees_initVars (env : Nat) (xs : List Variable) :
    ∀ {L : List Label}, AgreesOn stop (Boarded s.definition.view) L (s.initVars env xs).run
      ((s.probed p).initVars env xs).run := by
  induction xs with
  | nil => exact .pure trivial
  | cons x r ih =>
    intro L
    unfold initVars
    cases x.init with
    | none => exact ih
    | some e =>
      refine agrees_attempts (agrees_guardEval _ (hp.live.eval L env e)) fun v _ _ => ?_
      exact agrees_attempts (agrees_lift (agrees_touchOwn (by exact fun _ => rfl))) fun _ _ _ => ih

theorem agrees_create (given : Dict Value) : AgreesOn stop (Boarded s.definition.view) L
    (s.create given).run ((s.probed p).create given).run := by
  have hprop : (s.probed p).definition.hasProp = s.definition.hasProp := rfl
  unfold create
  rw [hprop]
  cases given.find? fun q => !s.definition.hasProp q.1 with
  | some q => exact .pure trivial
  | none =>
    refine agrees_attempts (agrees_lift (.look fun _ => ⟨_, _, rfl, rfl⟩)) fun env _ _ => ?_
    refine agrees_attempts (agrees_lift (agrees_bindMethods env _)) fun _ _ _ => ?_
    refine agrees_attempts (hp.agrees_initProps env given _) fun _ _ _ => ?_
    refine agrees_attempts (hp.agrees_initVars env _) fun _ _ _ => ?_
    exact agrees_attempts (agrees_lift (hp.agrees_recompute hp.live none)) fun _ _ _ => .pure trivial

end Endures

/-- Before a component is created there are no blocks. -/
theorem boarded_start (s : Setting) (logs : List LogEntry) : Boarded view [] (s.start logs).host where
  size := rfl
  inside _ hl := absurd hl List.not_mem_nil
  cell _ _ _ hl := by cases hl
  top _ hr := by cases hr
  listeners _ hx := absurd hx List.not_mem_nil

/-- A probe that changes nothing. -/
def idle (s : Setting) : Probe where
  code := View.Binding.expr
  outcome := s.definition.outcome
  handle := (s.probed ⟨View.Binding.expr, s.definition.outcome, s.handle⟩).handle

/-- Wherever its creation leads, the blocks of a component are what they stand for. -/
theorem boarded_of_create (hs : s.definition.Sound) {given : Dict Value} {logs : List LogEntry}
    {r : Except ComponentError Unit} {m : Machine World}
    (hr : (s.create given).run (s.start logs) = .ok (r, m)) :
    ∃ L, Boarded s.definition.view L m.host := by
  have hprobed :
      s.probed ⟨View.Binding.expr, s.definition.outcome, s.handle⟩ = s.probed s.idle := by
    unfold probed idle
    rfl
  have hidle : s.Endures (fun _ => False) s.idle :=
    ⟨hs, fun _ _ _ => .inr rfl, fun _ _ _ _ _ => rfl,
      fun a event _ => congrArg (fun t : Setting => t.handle a event) hprobed⟩
  have hafter := (hidle.agrees_create given _ (boarded_start s logs)).unstopped.2
  obtain ⟨L, -, hm, -⟩ := hafter.of_ok hr
  exact ⟨L, hm⟩

/-- A probe that does what a component does for every binding in the frames of its own loops is never
noticed. -/
theorem runs_probed (hp : s.Endures (fun _ => False) p) (given : Dict Value)
    (logs : List LogEntry) :
    ((s.probed p).create given).run (s.start logs) = (s.create given).run (s.start logs) ∧
    ∀ r m, (s.create given).run (s.start logs) = .ok (r, m) → ∀ ops,
      (s.probed p).performAllBy p.handle ops m = s.performAll ops m := by
  refine ⟨(hp.agrees_create given _ (boarded_start s logs)).unstopped.1, fun r m hr ops => ?_⟩
  obtain ⟨L, hm⟩ := boarded_of_create hp.sound hr
  exact (hp.agrees_performAll ops m hm).unstopped.1

end Setting

end Reactive
