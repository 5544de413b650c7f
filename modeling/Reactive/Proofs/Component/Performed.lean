/-
Whatever is done with a component keeps it in step.

A write marks its key and outside batches is followed by an update, so programs over
the live state keep the component in step, and so does whatever runs them from
outside: writes, changes of attributes, calls, events and batches of all that.  The
values that come in from outside may hold only functions that were made by then.

* `Setting.after_flush_inStep` — an update;
* `Setting.tends_live` — programs over the live state;
* `Operation.Made` — an operation that brings in only what was made;
* `Setting.after_performAll` — operations, one after another.
-/
import Reactive.Proofs.Component.InStep
import Reactive.Proofs.Eval.Agreed

namespace Reactive

/-! ### Operations with values that were made -/

mutual

/-- An operation on a machine, other than mounting and destroying, that brings in only what was
made. -/
def Operation.Made (s : Setting) : Operation → Machine World → Prop
  | .set _ v, m | .setProp _ v, m | .dispatch _ _ _ v, m => v.All m.Made
  | .call _ args, m => ∀ v ∈ args, v.All m.Made
  | .setAttribute .., _ | .removeAttribute .., _ => True
  | .batch ops, m => madeAll s ops (m.withOwn (m.host.own.deep (m.host.own.depth + 1)))
  | .mount .., _ | .destroy, _ => False

/-- Operations, one after another, that bring in only what was made by then. -/
def madeAll (s : Setting) : List Operation → Machine World → Prop
  | [], _ => True
  | o :: r, m => o.Made s m ∧ ∀ m', s.perform o m = .ok ((), m') → madeAll s r m'

end

open Block (Stage Action)

/-- A machine whose component is in another document. -/
def Machine.withDoc (m : Machine World) (d : Dom.Document Action) : Machine World :=
  { m with host := { m.host with doc := d } }

namespace Setting

variable {α : Type} {s : Setting} {me : Option Value} {created : Prop} {m m' m'' : Machine World}

/-- A machine some steps later, where the component is in step again. -/
structure Onward (s : Setting) (me : Option Value) (created : Prop) (m m' : Machine World) : Prop where
  grows : m.Grows m'
  whole : m'.Whole
  inStep : s.InStep me created m'

theorem Onward.trans (h : s.Onward me created m m') (h' : s.Onward me created m' m'') :
    s.Onward me created m m'' :=
  ⟨h.grows.trans h'.grows, h'.whole, h'.inStep⟩

section

variable (hd : s.definition.Discreet)

include hd

/-! ### Updates -/

/-- An update takes one pass. -/
theorem after_flush_inStep (hwhole : m.Whole) (h : s.InStep me created m) :
    Run.After Halt.Any s.flush (fun _ m' => s.Onward me created m m') m := by
  -- the first pass leaves nothing to do, so the second one is the last
  show Run.After Halt.Any (s.passes (15 + 1)) _ m
  by_cases hchanged : m.host.own.changed = []
  · exact (Run.after_of_ok (passes_unchanged hchanged _)).2 ⟨.refl m, hwhole, h⟩
  · rw [Run.After, passes_changed hchanged]
    refine (after_pass_inStep hd hwhole h hchanged).bind ?_
    rintro _ m₁ ⟨hgrow, hwhole₁, hstep, hnone⟩
    exact (Run.after_of_ok (passes_unchanged hnone _)).2 ⟨hgrow, hwhole₁, hstep⟩

theorem after_flushOutside_inStep (hwhole : m.Whole) (h : s.InStep me created m) :
    Run.After Halt.Any s.flushOutside (fun _ m' => s.Onward me created m m') m := by
  unfold flushOutside
  rw [Block.after_bindOwn]
  split
  · exact after_flush_inStep hd hwhole h
  · exact ⟨.refl m, hwhole, h⟩

/-- Programs over the live state keep the component in step. -/
theorem tends_live : s.live.Tends (s.InStep me created) where
  stable h hgrow hhost := h.grow hgrow hhost
  read h _ _ hv := h.made.read hv
  write {m} hwhole h name v hv := by
    refine after_storeKey (s := s) name v ⟨.refl m, hwhole, h⟩ fun old hold hderived _ => ?_
    have hmarked : (m.marked s.definition.bits name v).Whole := hwhole.congr rfl rfl
    refine (after_flushOutside_inStep hd hmarked (h.write hd hold hderived hv)).mono ?_
    rintro _ m' ⟨hgrow, hwhole', hstep⟩
    have hmark : m.Grows (m.marked s.definition.bits name v) := .of_same rfl rfl
    exact ⟨hmark.trans hgrow, hwhole', hstep⟩

omit hd in
/-- How many batches are open does not matter. -/
theorem InStep.deep (h : s.InStep me created m) (depth : Nat) :
    s.InStep me created (m.withOwn (m.host.own.deep depth)) where
  made := ⟨h.made.state, h.made.methods⟩
  keys := h.keys
  this := h.this
  cells := h.cells
  listeners := h.listeners
  dirty := h.dirty
  marked := h.marked
  place := h.place
  shown := h.shown
  current hcreated x hx :=
    (h.current hcreated x hx).imp_right fun hcur => hcur.congr rfl rfl rfl rfl
  view root hroot := by
    obtain ⟨st, hst, hdiff, hsame, hdisplays⟩ := h.view root hroot
    exact ⟨st, ⟨hst.this, hst.made⟩, hdiff, hsame, hdisplays.congr rfl rfl rfl⟩

/-- A batch of what keeps the component in step. -/
theorem after_batch {x : Run World α} (hwhole : m.Whole) (h : s.InStep me created m)
    (hx : ∀ m₁, m₁ = m.withOwn (m.host.own.deep (m.host.own.depth + 1)) → m₁.Whole →
      s.InStep me created m₁ → Run.After Halt.Any x (fun _ m' => s.Onward me created m₁ m') m₁) :
    Run.After Halt.Any (s.batch x) (fun _ m' => s.Onward me created m m') m := by
  let m₁ := m.withOwn (m.host.own.deep (m.host.own.depth + 1))
  have hopened : m.Grows m₁ := .of_same rfl rfl
  have hopen : Run.After Halt.Any (Block.modifyOwn fun c => { c with depth := c.depth + 1 })
      (fun _ m' => m' = m₁) m := rfl
  refine hopen.bind ?_
  rintro _ _ rfl
  refine (hx m₁ rfl (hwhole.congr rfl rfl) (h.deep _)).bind ?_
  rintro a m₂ ⟨hgrow₂, hwhole₂, hstep₂⟩
  let m₃ := m₂.withOwn (m₂.host.own.deep (m₂.host.own.depth - 1))
  have hclosed : m₂.Grows m₃ := .of_same rfl rfl
  have hwhole₃ : m₃.Whole := hwhole₂.congr rfl rfl
  have hclose : Run.After Halt.Any (Block.modifyOwn fun c => { c with depth := c.depth - 1 })
      (fun _ m' => m' = m₃) m₂ := rfl
  refine hclose.bind ?_
  rintro _ _ rfl
  refine (after_flushOutside_inStep hd hwhole₃ (hstep₂.deep _)).bind ?_
  rintro _ m₄ ⟨hgrow₄, hwhole₄, hstep₄⟩
  exact ⟨(hopened.trans hgrow₂).trans (hclosed.trans hgrow₄), hwhole₄, hstep₄⟩

/-! ### Writes and attributes -/

theorem after_set (hwhole : m.Whole) (h : s.InStep me created m) (name : Text) {v : Value}
    (hv : v.All m.Made) :
    Run.After Halt.Any (s.set name v).run (fun _ m' => s.Onward me created m m') m := by
  unfold set
  rw [run_guardEval]
  refine ((tends_live hd).write hwhole h name hv).bind ?_
  rintro r m' ⟨hgrow, hwhole', hstep⟩
  cases r <;> exact ⟨hgrow, hwhole', hstep⟩

theorem after_setProp (hwhole : m.Whole) (h : s.InStep me created m) (name : Text) {v : Value}
    (hv : v.All m.Made) :
    Run.After Halt.Any (s.setProp name v).run (fun _ m' => s.Onward me created m m') m := by
  unfold setProp
  split
  · exact after_set hd hwhole h name hv
  · exact ⟨.refl m, hwhole, h⟩

omit hd in
/-- The component is in step in another document if the view is shown there as well. -/
theorem InStep.onDoc (h : s.InStep me created m) {d : Dom.Document Action}
    (hlisteners : d.listeners = m.host.doc.listeners) (hdisplays : ∀ {st root},
      s.Displays me st root m → s.Displays me st root (m.withDoc d)) :
    s.InStep me created (m.withDoc d) where
  made := ⟨h.made.state, h.made.methods⟩
  keys := h.keys
  this := h.this
  cells := h.cells
  listeners l hl := h.listeners l (hlisteners ▸ hl)
  dirty := h.dirty
  marked := h.marked
  place := h.place
  shown := h.shown
  current hcreated x hx :=
    (h.current hcreated x hx).imp_right fun hcur => hcur.congr rfl rfl rfl rfl
  view root hroot := by
    obtain ⟨st, hst, hdiff, hsame, hdisplayed⟩ := h.view root hroot
    exact ⟨st, ⟨hst.this, hst.made⟩, hdiff, hsame, hdisplays hdisplayed⟩

omit hd in
/-- The view is shown in every document in which the host element has the same children and nothing
that is newer than it is different. -/
theorem Displays.onDoc {st : Dict Value} {root : Block.BlockId} (h : s.Displays me st root m)
    {host : Dom.NodeId} (hhost : m.host.own.host = some host) {d : Dom.Document Action}
    (hsize : m.host.doc.nodes.size ≤ d.nodes.size)
    (hnewer : ∀ n, host < n → d.nodes[n]? = m.host.doc.nodes[n]?)
    (hparent : ∀ x, m.host.doc.nodes[host]? = some x →
      ∃ y : Dom.Node, d.nodes[host]? = some { y with children := x.children, astray := x.astray }) :
    s.Displays me st root (m.withDoc d) := by
  obtain ⟨host', y, pre, ts, hown, hplaced, hstyled, hbelow, hstands⟩ := h
  obtain rfl := Option.some.inj (hhost.symm.trans hown)
  obtain ⟨y', hy'⟩ := hparent _ hplaced.parent
  refine ⟨host, { y' with astray := y.astray }, pre, ts, hhost, ⟨hy', hplaced.straight, ?_,
    hplaced.nodes, hplaced.blocks, hplaced.outside, hplaced.around, fun n hn => ?_⟩, ?_, hbelow,
    hstands⟩
  · exact hplaced.holds.congr (fun n hn => hnewer n (hbelow n hn)) fun _ _ => rfl
  · exact ⟨(hplaced.apart n hn).1, Nat.lt_of_lt_of_le (hplaced.apart n hn).2 hsize⟩
  · cases hstyled with
    | bare hcss => exact .bare hcss
    | @style n t hcss hn ht hnhost hthost hout =>
      exact .style hcss ((hnewer n hnhost).trans hn) ((hnewer t hthost).trans ht) hnhost hthost hout

omit hd in
/-- The attributes of the host element do not show in the component. -/
theorem InStep.withAttrs (h : s.InStep me created m) {host : Dom.NodeId}
    (hhost : m.host.own.host = some host) (f : List (Text × Text) → List (Text × Text)) :
    s.InStep me created (m.withAttrs host f) := by
  have hnode := fun n => m.host.doc.getElem?_modifyNode host n fun x => { x with attrs := f x.attrs }
  refine h.onDoc rfl fun hdisplays => hdisplays.onDoc hhost
    (Nat.le_of_eq (m.host.doc.size_modifyNode _ _).symm) (fun n hn => ?_) fun x hx => ?_
  · exact (hnode n).trans (if_neg (Nat.ne_of_lt hn))
  · refine ⟨{ x with attrs := f x.attrs }, (hnode host).trans ?_⟩
    rw [if_pos rfl, hx]
    rfl

/-- The attributes of the host element change, and then a prop may be written. -/
theorem after_hostAttrs (hwhole : m.Whole) (h : s.InStep me created m) {host : Dom.NodeId}
    (hhost : m.host.own.host = some host) (f : List (Text × Text) → List (Text × Text)) (name : Text)
    {v : Value} (hv : ∀ m' : Machine World, v.All m'.Made) :
    Run.After Halt.Any (ExceptT.lift (Block.modifyDoc fun d => d.modifyAttrs host f) >>= fun _ => do
      if s.definition.hasProp name then s.set name v : Attempt Unit).run
      (fun _ m' => s.Onward me created m m') m := by
  rw [ExceptT.run_bind_lift]
  have hwrite : Run.After Halt.Any (Block.modifyDoc fun d => d.modifyAttrs host f : Run World Unit)
      (fun _ m' => s.Onward me created m m') m :=
    ⟨.of_same rfl rfl, hwhole.congr rfl rfl, h.withAttrs hhost f⟩
  refine hwrite.bind fun _ m₁ h₁ => ?_
  split
  · exact (after_set hd h₁.whole h₁.inStep name (hv m₁)).mono fun _ _ h₂ => h₁.trans h₂
  · exact h₁

omit hd in
/-- The value of an attribute holds no function. -/
theorem all_coerceAttr (current : Value) (t : Text) (p : Func → Prop) :
    (coerceAttr current t).All p := by
  unfold coerceAttr
  split
  · split <;> trivial
  · trivial
  · trivial

theorem after_setAttribute (hwhole : m.Whole) (h : s.InStep me created m) (attr value : Text) :
    Run.After Halt.Any (s.setAttribute attr value).run (fun _ m' => s.Onward me created m m') m := by
  unfold setAttribute
  rw [after_liftOwn]
  cases hhost : m.host.own.host with
  | none =>
    show Run.After Halt.Any (do
      if s.definition.hasProp (propName attr) then
        s.set (propName attr) (coerceAttr (m.host.own.get (propName attr)) value) : Attempt Unit).run _ m
    split
    · exact after_set hd hwhole h _ (all_coerceAttr ..)
    · exact ⟨.refl m, hwhole, h⟩
  | some host => exact after_hostAttrs hd hwhole h hhost _ _ fun _ => all_coerceAttr ..

theorem after_removeAttribute (hwhole : m.Whole) (h : s.InStep me created m) (attr : Text) :
    Run.After Halt.Any (s.removeAttribute attr).run (fun _ m' => s.Onward me created m m') m := by
  unfold removeAttribute
  rw [after_liftOwn]
  cases hhost : m.host.own.host with
  | none =>
    show Run.After Halt.Any (do
      if s.definition.hasProp (propName attr) then
        s.set (propName attr) .undefined : Attempt Unit).run _ m
    split
    · exact after_set hd hwhole h _ trivial
    · exact ⟨.refl m, hwhole, h⟩
  | some host => exact after_hostAttrs hd hwhole h hhost _ _ fun _ => trivial

/-! ### Calls and events -/

omit hd in
/-- What a listener does about an event. -/
def act (s : Setting) (target : Dom.NodeId) (type : Text) (detail : Value) (a : Action) :
    Run World Bool := do
  s.batch do (s.site s.live).handle a (Block.eventValue (← Block.getDoc) target type detail)
  return false

/-- What the evaluator over the live state does keeps the component in step. -/
theorem after_evalLive (hwhole : m.Whole) (h : s.InStep me created m) {env : Nat}
    (henv : env < m.scopes.size) (e : Expr) :
    Run.After Halt.Any (eval s.live.caller env e).run (fun r m' => s.Onward me created m m' ∧
      ∀ v, r = .ok v → v.All m'.Made) m := by
  rw [← Host.callerUnless_none]
  refine ((tends_live hd).after_eval hwhole h _ henv e).mono ?_
  rintro r m' ⟨hgrow, hwhole', hstep, hmade⟩
  exact ⟨⟨hgrow, hwhole', hstep⟩, hmade⟩

theorem after_callLive (hwhole : m.Whole) (h : s.InStep me created m) {f : Func} (hf : f.All m.Made)
    {args : List Value} (hargs : ∀ v ∈ args, v.All m.Made) :
    Run.After Halt.Any (s.live.caller.call f args).run (fun _ m' => s.Onward me created m m') m := by
  rw [← Host.callerUnless_none]
  refine ((tends_live hd).after_call hwhole h _ hf hargs).mono ?_
  rintro r m' ⟨hgrow, hwhole', hstep, -⟩
  exact ⟨hgrow, hwhole', hstep⟩

theorem after_callMethod (hwhole : m.Whole) (h : s.InStep me created m) (name : Text) {args : List Value}
    (hargs : ∀ v ∈ args, v.All m.Made) :
    Run.After Halt.Any (s.call name args).run (fun _ m' => s.Onward me created m m') m := by
  unfold call
  rw [after_liftOwn]
  cases hmethod : m.host.own.methods.get? name with
  | none => exact ⟨.refl m, hwhole, h⟩
  | some v =>
    cases v with
    | func f =>
      dsimp only
      rw [ExceptT.run_bind_lift]
      refine (after_batch hd hwhole h fun m₁ hm₁ hwhole₁ h₁ => ?_).bind ?_
      · have hgrow : m.Grows m₁ := hm₁ ▸ .of_same rfl rfl
        have hf : Value.All m₁.Made (.func f) := hgrow.all (h.made.methods name _ hmethod)
        exact after_callLive hd hwhole₁ h₁ hf fun v hv => hgrow.all (hargs v hv)
      · rintro r m' h'
        cases r <;> exact h'
    | _ => exact ⟨.refl m, hwhole, h⟩

/-- What a handler evaluates to is called with the event if it is a function. -/
theorem after_answer (hwhole : m.Whole) (h : s.InStep me created m) {env : Nat}
    (henv : env < m.scopes.size) (e : Expr) {event : Value} (hevent : event.All m.Made) :
    Run.After Halt.Any (do
      match ← eval s.live.caller env e with
      | .func f => let _ ← s.live.caller.call f [event]
      | _ => pure () : Eval World Unit).run (fun _ m' => s.Onward me created m m') m := by
  rw [ExceptT.run_bind]
  refine (after_evalLive hd hwhole h henv e).bind ?_
  rintro r m₁ ⟨h₁, hmade⟩
  cases r with
  | error e => exact h₁
  | ok v =>
    cases v with
    | func f =>
      show Run.After Halt.Any
        (s.live.caller.call f [event] >>= fun _ => pure () : Eval World Unit).run _ m₁
      rw [ExceptT.run_bind]
      have hargs : ∀ w ∈ [event], w.All m₁.Made := fun w hw => by
        rw [List.mem_singleton.1 hw]
        exact h₁.grows.all hevent
      refine (after_callLive hd h₁.whole h₁.inStep (hmade _ rfl) hargs).bind ?_
      rintro r m₂ h₂
      cases r <;> exact h₁.trans h₂
    | _ => exact h₁

/-- A handler that runs in a frame that holds only what was made. -/
theorem after_handle (hwhole : m.Whole) (h : s.InStep me created m) {a : Action}
    (hframe : a.frame.Made m) {event : Value} (hevent : event.All m.Made) :
    Run.After Halt.Any ((s.site s.live).handle a event) (fun _ m' => s.Onward me created m m') m := by
  have hroot : m.Leads m.scopes.size (.store (.host .writable)) := trivial
  refine ((tends_live hd).after_frameScope hwhole h hroot hframe).bind ?_
  rintro outer m₁ ⟨hgrow₁, hwhole₁, hstep₁, houter⟩
  have hvars : ∀ p ∈ ([(eventName, event), (eventAlias, event)] : Dict Value), p.2.All m₁.Made := by
    intro p hp
    rcases List.mem_cons.1 hp with rfl | hp
    · exact hgrow₁.all hevent
    · rw [List.mem_singleton.1 hp]
      exact hgrow₁.all hevent
  have hleads : m₁.Leads m₁.scopes.size (.scope outer) := houter
  refine ((tends_live hd).after_newScope hwhole₁ hstep₁ hleads hvars).bind ?_
  rintro env m₂ ⟨hgrow₂, hwhole₂, hstep₂, henv⟩
  have h₂ : s.Onward me created m m₂ := ⟨hgrow₁.trans hgrow₂, hwhole₂, hstep₂⟩
  refine (after_answer hd hwhole₂ hstep₂ henv _ (h₂.grows.all hevent)).bind fun r m₃ h₃ => ?_
  have h₃ := h₂.trans h₃
  cases r with
  | ok _ => exact h₃
  | error e =>
    -- the failure is written to the log, which belongs to no component
    exact h₃.trans ⟨.of_same rfl rfl, h₃.whole.congr rfl rfl, h₃.inStep.grow (.of_same rfl rfl) rfl⟩

omit hd in
/-- An event is made of texts and its detail. -/
theorem all_eventValue {p : Func → Prop} (doc : Dom.Document Action) (target : Dom.NodeId) (type : Text)
    {detail : Value} (hdetail : detail.All p) : (Block.eventValue doc target type detail).All p := by
  have hpairs : ∀ {ps : List (Text × Value)}, (∀ e ∈ ps, e.2.All p) → (Value.ofPairs ps).All p :=
    fun hps => (Value.all_map _).2 fun e he => hps e (Dict.mem_ofPairs he)
  refine hpairs ?_
  simp only [List.forall_mem_cons]
  refine ⟨trivial, hdetail, hpairs ?_, fun _ h => absurd h List.not_mem_nil⟩
  rw [List.forall_mem_cons]
  refine ⟨trivial, fun e he => ?_⟩
  obtain ⟨a, -, rfl⟩ := List.mem_map.1 he
  trivial

/-- A listener acts. -/
theorem after_act (hwhole : m.Whole) (h : s.InStep me created m) (target : Dom.NodeId) (type : Text)
    {detail : Value} (hdetail : detail.All m.Made) {a : Action} (hframe : a.frame.Made m) :
    Run.After Halt.Any (s.act target type detail a) (fun _ m' => s.Onward me created m m') m := by
  have hhandle : ∀ m₁, m₁ = m.withOwn (m.host.own.deep (m.host.own.depth + 1)) → m₁.Whole →
      s.InStep me created m₁ → Run.After Halt.Any
        (do
          (s.site s.live).handle a (Block.eventValue (← Block.getDoc) target type detail) :
            Run World Unit)
        (fun _ m' => s.Onward me created m₁ m') m₁ := by
    intro m₁ hm₁ hwhole₁ h₁
    have hgrow : m.Grows m₁ := hm₁ ▸ .of_same rfl rfl
    refine Run.After.bind (Q := fun _ m' => m' = m₁) rfl ?_
    rintro doc _ rfl
    exact after_handle hd hwhole₁ h₁ (hframe.grow hgrow) (all_eventValue _ _ _ (hgrow.all hdetail))
  exact (after_batch hd hwhole h hhandle).bind fun _ _ h' => h'

/-- Listeners act, one after another. -/
theorem after_heard (target : Dom.NodeId) (type : Text) {detail : Value}
    (heard : List (Dom.Listener Action)) : ∀ {m : Machine World} (stopped : Bool), m.Whole →
    s.InStep me created m → detail.All m.Made → (∀ l ∈ heard, l.action.frame.Made m) →
    Run.After Halt.Any (forIn heard stopped fun l stopped => do
        if ← s.act target type detail l.action then pure (.yield true) else pure (.yield stopped))
      (fun _ m' => s.Onward me created m m') m := by
  induction heard with
  | nil => exact fun _ hwhole h _ _ => ⟨.refl _, hwhole, h⟩
  | cons l r ih =>
    intro m stopped hwhole h hdetail hframes
    obtain ⟨hframe, hrest⟩ := List.forall_mem_cons.1 hframes
    rw [List.forIn_cons]
    -- a listener never ends the loop, whatever it answers
    have hacts : Run.After Halt.Any (do
        if ← s.act target type detail l.action then pure (.yield true) else pure (.yield stopped) :
          Run World (ForInStep Bool))
        (fun step m' => s.Onward me created m m' ∧ ∃ b, step = .yield b) m := by
      refine (after_act hd hwhole h target type hdetail hframe).bind fun b m₁ h₁ => ?_
      cases b <;> exact ⟨h₁, _, rfl⟩
    refine hacts.bind ?_
    rintro _ m₁ ⟨h₁, b, rfl⟩
    exact (ih b h₁.whole h₁.inStep (h₁.grows.all hdetail) fun l hl =>
      (hrest l hl).grow h₁.grows).mono fun _ _ h₂ => h₁.trans h₂

/-- An event on its way up, with a detail that was made. -/
theorem after_bubble (target : Dom.NodeId) (type : Text) {detail : Value} (depth : Nat) :
    ∀ {m : Machine World} (id : Dom.NodeId), m.Whole → s.InStep me created m → detail.All m.Made →
    Run.After Halt.Any
      (Dom.Document.bubble Block.getDoc type (fun _ => s.act target type detail) depth id)
      (fun _ m' => s.Onward me created m m') m := by
  induction depth with
  | zero => exact fun _ hwhole h _ => ⟨.refl _, hwhole, h⟩
  | succ depth ih =>
    intro m id hwhole h hdetail
    have hframes : ∀ l ∈ m.host.doc.listenersAt id type, l.action.frame.Made m :=
      fun l hl => h.listeners l (List.mem_of_mem_filter hl)
    refine Run.After.bind (Q := fun doc m' => doc = m.host.doc ∧ m' = m) ⟨rfl, rfl⟩ ?_
    rintro _ m ⟨rfl, rfl⟩
    refine (after_heard hd target type _ false hwhole h hdetail hframes).bind fun stopped m₁ h₁ => ?_
    cases stopped with
    | true => exact h₁
    | false =>
      refine Run.After.bind (Q := fun doc m' => doc = m₁.host.doc ∧ m' = m₁) ⟨rfl, rfl⟩ ?_
      rintro _ m₁ ⟨rfl, rfl⟩
      cases (m₁.host.doc.node id).parent with
      | none => exact h₁
      | some p =>
        exact (ih p h₁.whole h₁.inStep (h₁.grows.all hdetail)).bind fun _ _ h₂ => h₁.trans h₂

theorem after_dispatch (hwhole : m.Whole) (h : s.InStep me created m) (target : Text) (index : Int)
    (type : Text) {detail : Value} (hdetail : detail.All m.Made) :
    Run.After Halt.Any (s.dispatch target index type detail).run
      (fun _ m' => s.Onward me created m m') m := by
  unfold dispatch
  rw [after_liftOwn]
  cases m.host.own.host with
  | none => exact ⟨.refl m, hwhole, h⟩
  | some host =>
    dsimp only
    rw [ExceptT.run_bind_lift]
    refine Run.After.bind (Q := fun _ m' => m' = m) rfl ?_
    rintro doc m rfl
    split
    · exact ⟨.refl _, hwhole, h⟩
    · rename_i n _
      have hsend : Run.After Halt.Any ((s.site s.live).dispatch s.batch n type detail)
          (fun _ m' => s.Onward me created m m') m := by
        refine Run.After.bind (Q := fun _ m' => m' = m) rfl ?_
        rintro doc m rfl
        exact after_bubble hd n type _ n hwhole h hdetail
      rw [ExceptT.run_bind_lift]
      refine hsend.bind fun handled m₁ h₁ => ?_
      rw [ExceptT.run_bind_lift]
      refine (after_traced s.tracing _ _ h₁.whole).bind ?_
      rintro _ m₂ ⟨hhost, hgrow, hwhole₂⟩
      exact h₁.trans ⟨hgrow, hwhole₂, h₁.inStep.grow hgrow hhost⟩

end

/-! ### Operations -/

mutual

/-- Whatever is done with a component keeps it in step. -/
theorem after_perform (hd : s.definition.Discreet) : ∀ (o : Operation) {m : Machine World}, m.Whole →
    s.InStep me created m → o.Made s m →
    Run.After Halt.Any (s.perform o) (fun _ m' => s.Onward me created m m') m
  | .set name _, _, hwhole, h, hv => (after_set hd hwhole h name hv).bind fun _ _ h' => h'
  | .setProp name _, _, hwhole, h, hv => (after_setProp hd hwhole h name hv).bind fun _ _ h' => h'
  | .setAttribute attr value, _, hwhole, h, _ =>
    (after_setAttribute hd hwhole h attr value).bind fun _ _ h' => h'
  | .removeAttribute attr, _, hwhole, h, _ =>
    (after_removeAttribute hd hwhole h attr).bind fun _ _ h' => h'
  | .call name _, _, hwhole, h, hargs =>
    (after_callMethod hd hwhole h name hargs).bind fun _ _ h' => h'
  | .dispatch target index type _, _, hwhole, h, hdetail =>
    (after_dispatch hd hwhole h target index type hdetail).bind fun _ _ h' => h'
  | .batch ops, _, hwhole, h, hops =>
    after_batch hd hwhole h fun _ hm₁ hwhole₁ h₁ => after_performAll hd ops hwhole₁ h₁ (hm₁ ▸ hops)

theorem after_performAll (hd : s.definition.Discreet) : ∀ (ops : List Operation) {m : Machine World},
    m.Whole → s.InStep me created m → madeAll s ops m →
    Run.After Halt.Any (s.performAll ops) (fun _ m' => s.Onward me created m m') m
  | [], _, hwhole, h, _ => ⟨.refl _, hwhole, h⟩
  | o :: r, m, hwhole, h, hops => by
    have hstep := after_perform hd o hwhole h hops.1
    rw [performAll, Run.After, Run.bind_apply]
    unfold Run.After at hstep
    cases hrun : s.perform o m with
    | error halted => trivial
    | ok p =>
      obtain ⟨_, m₁⟩ := p
      rw [hrun] at hstep
      -- what the other operations bring in was made on the machine that this one leaves
      refine (after_performAll hd r hstep.whole hstep.inStep (hops.2 m₁ hrun)).mono ?_
      exact fun _ _ h' => hstep.trans h'

end

end Setting

end Reactive
