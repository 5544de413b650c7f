/-
What runs of a component keep.

A component changes when a key is written and marked, when a derived value is
stored, when a batch opens or closes, and when its view is put in place.  A
relation between the machine before and the machine after that allows this is
kept by whatever is done with the component.

A run of a component is a list of operations.  An operation may fail; then it
has done what it did before it failed, and the run goes on.  Batches contain
operations and nest.

* `Operation`, `Setting.performAll` — what can be done with a component, as data;
* `storeKey_run` — what a write does;
* `Setting.keeping_recompute` — derived values brought up to date;
* `Setting.Settles.keeping_flushOutside` — flushes;
* `Setting.Bears.keeping_performAll` — runs of operations;
* `Setting.Begins.keeping_create` — the creation of a component.
-/
import Reactive.Component.Life
import Reactive.Proofs.Block.Permits
import Reactive.Proofs.Component.Sound

namespace Reactive

/-! ### Operations -/

/-- Something that is done with a live component from outside. -/
inductive Operation where
  | set (name : Text) (v : Value)
  | setProp (name : Text) (v : Value)
  | setAttribute (attr value : Text)
  | removeAttribute (attr : Text)
  | call (name : Text) (args : List Value)
  | dispatch (target : Text) (index : Int) (type : Text) (detail : Value)
  | batch (ops : List Operation)
  | mount (place : Option (Dom.NodeId × Option Dom.NodeId))
  | destroy

namespace Setting

/-- A step whose answer or failure does not matter to what comes after it. -/
def anyway {α : Type} (x : Attempt α) : Run World Unit := do
  let _ ← x.run

mutual

/-- Do one thing with a component. -/
def perform (s : Setting) : Operation → Run World Unit
  | .set name v => anyway (s.set name v)
  | .setProp name v => anyway (s.setProp name v)
  | .setAttribute attr value => anyway (s.setAttribute attr value)
  | .removeAttribute attr => anyway (s.removeAttribute attr)
  | .call name args => anyway (s.call name args)
  | .dispatch target index type detail => anyway (s.dispatch target index type detail)
  | .batch ops => s.batch (s.performAll ops)
  | .mount place => s.mount place
  | .destroy => s.destroy

/-- Do several things with a component, one after another. -/
def performAll (s : Setting) : List Operation → Run World Unit
  | [] => return
  | o :: r => do
    s.perform o
    s.performAll r

end

end Setting

/-! ### Machines whose component changed -/

open Block (Stage)

/-- A machine with a key of the component written. -/
def Machine.put (m : Machine World) (name : Text) (v : Value) : Machine World :=
  { m with host := { m.host with own := m.host.own.put name v } }

/-- A machine with a key of the component written and marked. -/
def Machine.marked (m : Machine World) (bits : Bits) (name : Text) (v : Value) : Machine World :=
  { m with host := { m.host with own := (m.host.own.put name v).mark bits name } }

/-- What is done with the component as it is. -/
theorem Block.after_bindOwn {σ α : Type} {E : Halt → Prop} {f : σ → Run (Stage σ) α}
    {Q : α → Machine (Stage σ) → Prop} {m : Machine (Stage σ)} :
    Run.After E (Block.getOwn >>= f) Q m ↔ Run.After E (f m.host.own) Q m := Iff.rfl

namespace Setting

variable {s : Setting} {m m' m'' : Machine World}

/-! ### Writes -/

/-- What a write does: it is refused, it is no change, or the key is written and marked and then
the change is dealt with. -/
theorem storeKey_run (d : Definition) (onChange : Run World Unit) (name : Text) (v : Value)
    (m : Machine World) :
    (storeKey d onChange name v).run m =
      if d.isDerived name then .ok (.error (.derivedAssigned name), m)
      else if d.isConst name then .ok (.error (.constantAssigned name), m)
      else match m.host.own.state.get? name with
        | none =>
          .ok (.error (if m.host.own.methods.has name then .methodAssigned name
            else .notDefined name), m)
        | some old =>
          if old.equal v then .ok (.ok (), m)
          else (Except.ok <$> onChange) (m.marked d.bits name v) := by
  unfold storeKey
  cases d.isDerived name with
  | true => rfl
  | false =>
    cases d.isConst name with
    | true => rfl
    | false =>
      show (match m.host.own.state.get? name with
        | none => throw (if m.host.own.methods.has name then .methodAssigned name
            else .notDefined name)
        | some old => do
          if old.equal v then return
          sure (Block.modifyOwn fun c => (c.put name v).mark d.bits name)
          sure onChange : Eval World Unit).run m = _
      cases m.host.own.state.get? name with
      | none => rfl
      | some old =>
        show (if old.equal v then pure () else do
          sure (Block.modifyOwn fun c => (c.put name v).mark d.bits name)
          sure onChange : Eval World Unit).run m = if old.equal v then _ else _
        cases old.equal v <;> rfl

/-- A write that is refused changes nothing. -/
theorem machine_of_refused {d : Definition} {onChange : Run World Unit} {name : Text} {v : Value}
    {e : EvalError} (h : (storeKey d onChange name v).run m = .ok (.error e, m')) : m' = m := by
  rw [storeKey_run] at h
  split at h
  · cases h
    rfl
  · split at h
    · cases h
      rfl
    · split at h
      · cases h
        rfl
      · split at h
        · cases h
        · rw [Run.map_apply] at h
          split at h <;> cases h

/-- What holds after a write: it changes nothing, or it writes and marks a key and deals with the
change. -/
theorem after_storeKey {P : Machine World → Prop} {onChange : Run World Unit} (name : Text)
    (v : Value) (hsame : P m)
    (hmark : ∀ old, m.host.own.state.get? name = some old → s.definition.isDerived name = false →
      s.definition.isConst name = false →
      Run.After Halt.Any onChange (fun _ m' => P m') (m.marked s.definition.bits name v)) :
    Run.After Halt.Any (storeKey s.definition onChange name v).run (fun _ m' => P m') m := by
  rw [Run.After, storeKey_run]
  cases hderived : s.definition.isDerived name with
  | true => exact hsame
  | false =>
    cases hconst : s.definition.isConst name with
    | true => exact hsame
    | false =>
      cases hname : m.host.own.state.get? name with
      | none => exact hsame
      | some old =>
        dsimp only
        cases old.equal v with
        | true => exact hsame
        | false =>
          exact (Run.after_map Except.ok onChange fun _ m' => P m').2 (hmark old hname hderived hconst)

/-- A write keeps a relation that allows writing and marking a key, if dealing with the change keeps
it. -/
theorem keeping_storeKey {K : Machine World → Machine World → Prop} (hsame : ∀ m, K m m)
    (hmark : ∀ {m : Machine World} {name : Text} {old : Value} (v : Value),
      m.host.own.state.get? name = some old → s.definition.isDerived name = false →
      s.definition.isConst name = false → K m (m.marked s.definition.bits name v))
    (htrans : ∀ {m m' m'' : Machine World}, K m m' → K m' m'' → K m m'')
    {onChange : Run World Unit} (hchange : Keeping Halt.Any K onChange) (name : Text) (v : Value) :
    Keeping Halt.Any K (storeKey s.definition onChange name v).run :=
  fun m => after_storeKey name v (hsame m) fun _ hname hderived hconst =>
    (hchange _).mono fun _ _ h => htrans (hmark v hname hderived hconst) h

theorem run_guardEval {α : Type} (wrap : EvalError → ComponentError) (x : Eval World α) :
    (guardEval wrap x).run = x.run >>= fun r => match r with
      | .ok a => pure (.ok a)
      | .error e => pure (.error (wrap e)) := by
  show (ExceptT.lift x.run >>= _ : Attempt α).run = _
  rw [ExceptT.run_bind_lift]
  rfl

theorem guardEval_run {α : Type} (wrap : EvalError → ComponentError) (x : Eval World α)
    (m : Machine World) :
    (guardEval wrap x).run m = match x.run m with
      | .ok (.ok a, m') => .ok (.ok a, m')
      | .ok (.error e, m') => .ok (.error (wrap e), m')
      | .error halted => .error halted := by
  rw [run_guardEval, Run.bind_apply]
  cases x.run m with
  | error halted => rfl
  | ok p =>
    obtain ⟨r, m'⟩ := p
    cases r <;> rfl

/-! ### Evaluations -/

/-- What an expression does over a host that keeps a relation. -/
theorem keeping_outcome (hs : s.definition.Sound) {h : Host World}
    {K : Machine World → Machine World → Prop} (hK : h.Allows Halt.Any K) (store : Store)
    (frame : Block.Frame) (e : Expr) :
    Keeping Halt.Any K (s.definition.outcome h store frame e) := by
  rw [hs.outcome]
  have hscope : Keeping Halt.Any K (Block.frameScope store frame : Run World Nat) := by
    induction frame with
    | nil => exact hK.newScope _ _
    | cons vars outer ih => exact hK.keeping_bind ih fun _ => hK.newScope _ _
  exact hK.keeping_bind hscope fun env => hK.keeping_eval env e

/-- The site of a component whose evaluations keep a relation. -/
theorem confines_of {h : Host World} {K : Machine World → Machine World → Prop}
    (hK : h.Allows Halt.Any K) (hown : ∀ {m m' : Machine World}, m'.host.own = m.host.own → K m m')
    (hrun : ∀ store frame e, Keeping Halt.Any K (s.definition.outcome h store frame e)) :
    (s.site h).Confines Halt.Any K where
  range := trivial
  same := hown
  trans := hK.trans
  outcome _ frame e := hrun _ frame e

/-- The site of a component over a host that keeps a relation. -/
theorem confines (hs : s.definition.Sound) {h : Host World}
    {K : Machine World → Machine World → Prop} (hK : h.Allows Halt.Any K)
    (hown : ∀ {m m' : Machine World}, m'.host.own = m.host.own → K m m') :
    (s.site h).Confines Halt.Any K :=
  confines_of hK hown (keeping_outcome hs hK)

/-! ### Attempts -/

section

variable {α β : Type} {site : Block.Site Component} {A : View.Element → Prop}
  {K : Machine World → Machine World → Prop}

/-- Attempts one after another. -/
theorem keeping_attempts (hp : site.Permits A Halt.Any K) {x : Attempt α} {f : α → Attempt β}
    (hx : Keeping Halt.Any K x.run) (hf : ∀ a, Keeping Halt.Any K (f a).run) :
    Keeping Halt.Any K (x >>= f).run := by
  rw [ExceptT.run_bind]
  refine hp.seq hx fun r => ?_
  cases r with
  | error e => exact hp.ret _
  | ok a => exact hf a

/-- A run as an attempt. -/
theorem keeping_lift (hp : site.Permits A Halt.Any K) {x : Run World α}
    (hx : Keeping Halt.Any K x) : Keeping Halt.Any K (ExceptT.lift x : Attempt α).run := by
  show Keeping Halt.Any K (Except.ok <$> x)
  rw [map_eq_pure_bind]
  exact hp.seq hx fun a => hp.ret _

/-- An evaluation as an attempt. -/
theorem keeping_guardEval (hp : site.Permits A Halt.Any K) {wrap : EvalError → ComponentError}
    {x : Eval World α} (hx : Keeping Halt.Any K x.run) :
    Keeping Halt.Any K (guardEval wrap x).run := by
  refine keeping_attempts hp (keeping_lift hp hx) fun r => ?_
  cases r <;> exact hp.ret _

/-- What is attempted with the component as it is. -/
theorem after_liftOwn {E : Halt → Prop} {f : Component → Attempt α}
    {Q : Except ComponentError α → Machine World → Prop} {m : Machine World} :
    Run.After E (ExceptT.lift Block.getOwn >>= f).run Q m ↔ Run.After E (f m.host.own).run Q m := by
  rw [ExceptT.run_bind_lift]
  exact Block.after_bindOwn

end

/-! ### Updates -/

/-- Derived values are brought up to date: what is kept by computing one and by storing what it is
computed to be is kept by this. -/
theorem keeping_recompute {h : Host World} {A : View.Element → Prop}
    {K : Machine World → Machine World → Prop} (hp : (s.site h).Permits A Halt.Any K)
    (hderived : ∀ x ∈ s.definition.schedule.derived, ∀ (m m' : Machine World)
      (r : Except EvalError Value), s.definition.outcome h (.host .derived) [] x.expr m = .ok (r, m') →
      K m m' ∧ ∀ v, r = .ok v → K m (m'.put x.name v)) (seed : Option (List Text)) :
    Keeping Halt.Any K (s.recompute h seed) := by
  have hreport : ∀ n o, Keeping Halt.Any K ((s.board h).report n o) := by
    intro n o
    cases o with
    | computed v changed => exact hp.trace _ _ _
    | failed e => exact hp.writeLog _ _
  have hrefresh : ∀ x ∈ s.definition.schedule.derived,
      Keeping Halt.Any K ((s.board h).refresh x) := by
    intro x hx m
    refine (Run.after_bind _ _ _).2 ?_
    show Run.After _ (s.definition.outcome h (.host .derived) [] x.expr) _ m
    rw [Run.After]
    cases hrun : s.definition.outcome h (.host .derived) [] x.expr m with
    | error e => trivial
    | ok p =>
      obtain ⟨r, m₁⟩ := p
      obtain ⟨hcomputed, hstored⟩ := hderived x hx m m₁ r hrun
      cases r with
      | error e =>
        have hfailed := hp.seq (hreport x.name (.failed e)) fun _ => hp.ret false
        exact (hfailed m₁).mono fun _ _ h' => hp.trans hcomputed h'
      | ok v =>
        have hsame := hp.seq (hreport x.name (.computed v false)) fun _ => hp.ret false
        have hnew := hp.seq (hreport x.name (.computed v true)) fun _ => hp.ret true
        have hanswer : ∀ same : Bool, Run.After Halt.Any (do
            if same then
              (s.board h).report x.name (.computed v false)
              return false
            else
              (s.board h).write x.name v
              (s.board h).report x.name (.computed v true)
              return true) (fun _ m' => K m m') m₁ := by
          intro same
          cases same with
          | true => exact (hsame m₁).mono fun _ _ h' => hp.trans hcomputed h'
          | false => exact (hnew (m₁.put x.name v)).mono fun _ _ h' => hp.trans (hstored v rfl) h'
        exact hanswer _
  have hall : ∀ names pending,
      Keeping Halt.Any K (s.definition.schedule.refreshAll (s.board h) pending names) := by
    intro names
    induction names with
    | nil => exact fun _ => hp.ret []
    | cons n r ih =>
      intro pending
      unfold Schedule.refreshAll
      split
      · cases hfind : s.definition.schedule.find? n with
        | none => exact ih pending
        | some x =>
          refine hp.seq (hrefresh x (List.mem_of_find?_eq_some hfind)) fun changed => ?_
          split
          · exact hp.seq (ih _) fun _ => hp.ret _
          · exact ih pending
      · exact ih pending
  exact hall _ _

/-- The elements of the view of a component. -/
def elements (s : Setting) : List View.Element := View.elementsAll s.definition.view

/-! ### Flushes -/

/-- A relation that a component keeps while it is flushed: derived values are brought up to date
within it, it permits what the elements of the view do to attributes, and it looks neither at what is
marked nor at how many batches are open. -/
structure Settles (s : Setting) (K : Machine World → Machine World → Prop) : Prop where
  permits : (s.site s.settling).Permits (· ∈ s.elements) Halt.Any K
  recompute : ∀ seed, Keeping Halt.Any K (s.recompute s.settling seed)
  marks : ∀ (m : Machine World) (changed : List Text) (dirty : Mask) (depth : Nat),
    K m { m with host := { m.host with own := { m.host.own with changed, dirty, depth } } }

namespace Settles

variable {K : Machine World → Machine World → Prop} (hS : s.Settles K)

include hS

theorem keeping_pass : Keeping Halt.Any K s.pass := by
  have hp := hS.permits
  refine hp.seq hp.getOwn fun c => hp.seq (fun m => hS.marks m _ _ _) fun _ => ?_
  refine hp.seq (hS.recompute _) fun derived => hp.seq hp.getOwn fun c' => ?_
  refine hp.seq (fun m => hS.marks m _ _ _) fun _ => hp.seq (hp.trace _ _ _) fun _ => ?_
  cases c'.root with
  | none => exact hp.ret ()
  | some root =>
    dsimp only
    split
    · exact hp.seq hp.getOwn fun c'' => hp.keeping_patchPart _ _ _ _ fun _ hel => hel
    · exact hp.ret ()

theorem keeping_passes (n : Nat) : Keeping Halt.Any K (s.passes n) := by
  have hp := hS.permits
  induction n with
  | zero =>
    refine hp.seq hp.getOwn fun c => ?_
    split
    · exact hp.ret ()
    · exact hp.seq (hp.writeLog _ _) fun _ m => hS.marks m _ _ _
  | succ n ih =>
    refine hp.seq hp.getOwn fun c => ?_
    split
    · exact hp.ret ()
    · exact hp.seq hS.keeping_pass fun _ => ih

theorem keeping_flushOutside : Keeping Halt.Any K s.flushOutside := by
  have hp := hS.permits
  refine hp.seq hp.getOwn fun c => ?_
  split
  · exact hS.keeping_passes _
  · exact hp.ret ()

theorem keeping_batch {α : Type} {x : Run World α} (hx : Keeping Halt.Any K x) :
    Keeping Halt.Any K (s.batch x) := by
  have hp := hS.permits
  refine hp.seq (fun m => hS.marks m _ _ _) fun _ => hp.seq hx fun a => ?_
  exact hp.seq (fun m => hS.marks m _ _ _) fun _ => hp.seq hS.keeping_flushOutside fun _ => hp.ret a

end Settles

/-! ### Operations -/

/-- A relation that a component keeps outside its flushes: its evaluations keep it and so do batches
of what keeps it, it permits what the elements of the view do to attributes and whatever is done to
those of the host element, and it does not look at the block of the view. -/
structure Bears (s : Setting) (K : Machine World → Machine World → Prop) : Prop where
  live : s.live.Allows Halt.Any K
  permits : (s.site s.live).Permits (· ∈ s.elements) Halt.Any K
  placed : ∀ (m : Machine World) (h : Dom.NodeId), m.host.own.host = none →
    K m { m with host := { m.host with own := { m.host.own with host := some h } } }
  shown : ∀ (m : Machine World) (root : Option Block.BlockId),
    K m { m with host := { m.host with own := { m.host.own with root } } }
  attrs : ∀ (m : Machine World) (h : Dom.NodeId) (f : List (Text × Text) → List (Text × Text)),
    m.host.own.host = some h → K m (m.withAttrs h f)
  batch : ∀ {α : Type} {x : Run World α}, Keeping Halt.Any K x → Keeping Halt.Any K (s.batch x)

namespace Bears

variable {K : Machine World → Machine World → Prop} (hB : s.Bears K)

include hB

theorem keeping_set (name : Text) (v : Value) : Keeping Halt.Any K (s.set name v).run :=
  keeping_guardEval hB.permits (hB.live.write name v)

theorem keeping_setProp (name : Text) (v : Value) :
    Keeping Halt.Any K (s.setProp name v).run := by
  unfold setProp
  split
  · exact hB.keeping_set name v
  · exact hB.permits.ret _

/-- The attributes of the host element change, and then something is attempted. -/
theorem after_hostAttrs {α : Type} {m : Machine World} {h : Dom.NodeId}
    (hhost : m.host.own.host = some h) (f : List (Text × Text) → List (Text × Text))
    {x : Attempt α} (hx : Keeping Halt.Any K x.run) :
    Run.After Halt.Any (ExceptT.lift (Block.modifyDoc fun d => d.modifyAttrs h f) >>= fun _ => x).run
      (fun _ m' => K m m') m := by
  rw [ExceptT.run_bind_lift]
  have hwrite : Run.After Halt.Any (Block.modifyDoc fun d => d.modifyAttrs h f : Run World Unit)
      (fun _ m' => K m m') m := hB.attrs m h f hhost
  exact hwrite.bind fun _ m' hm => (hx m').mono fun _ _ hm' => hB.permits.trans hm hm'

theorem keeping_setAttribute (attr value : Text) :
    Keeping Halt.Any K (s.setAttribute attr value).run := by
  have hset : ∀ c : Component, Keeping Halt.Any K (do
      if s.definition.hasProp (propName attr) then
        s.set (propName attr) (coerceAttr (c.get (propName attr)) value) : Attempt Unit).run := by
    intro c
    split
    · exact hB.keeping_set _ _
    · exact hB.permits.ret _
  intro m
  unfold setAttribute
  rw [after_liftOwn]
  cases hhost : m.host.own.host with
  | none => exact hset _ m
  | some h => exact hB.after_hostAttrs hhost _ (hset _)

theorem keeping_removeAttribute (attr : Text) :
    Keeping Halt.Any K (s.removeAttribute attr).run := by
  have hset : Keeping Halt.Any K (do
      if s.definition.hasProp (propName attr) then
        s.set (propName attr) .undefined : Attempt Unit).run := by
    split
    · exact hB.keeping_set _ _
    · exact hB.permits.ret _
  intro m
  unfold removeAttribute
  rw [after_liftOwn]
  cases hhost : m.host.own.host with
  | none => exact hset m
  | some h => exact hB.after_hostAttrs hhost _ hset

theorem keeping_call (name : Text) (args : List Value) :
    Keeping Halt.Any K (s.call name args).run := by
  have hp := hB.permits
  refine keeping_attempts hp (keeping_lift hp hp.getOwn) fun c => ?_
  split
  · rename_i f _
    refine keeping_attempts hp (keeping_lift hp (hB.batch ?_)) fun r => ?_
    · exact hB.live.keeping_call callDepth f args
    · cases r <;> exact hp.ret _
  · exact hp.ret _

theorem keeping_dispatch (target : Text) (index : Int) (type : Text) (detail : Value) :
    Keeping Halt.Any K (s.dispatch target index type detail).run := by
  have hp := hB.permits
  refine keeping_attempts hp (keeping_lift hp hp.getOwn) fun c => ?_
  cases c.host with
  | none => exact hp.ret _
  | some host =>
    refine keeping_attempts hp (keeping_lift hp hp.getDoc) fun doc => ?_
    dsimp only
    split
    · exact hp.ret _
    · refine keeping_attempts hp (keeping_lift hp ?_) fun handled => ?_
      · exact hp.keeping_dispatch hB.live.keeping_eval
          (hB.live.keeping_call callDepth) (fun _ => hB.batch) _ _ _
      · exact keeping_attempts hp (keeping_lift hp (hp.trace _ _ _)) fun _ => hp.ret _

/-- The host element is made and kept, where there is none yet, and then something is done. -/
theorem after_makeHost {m : Machine World} (hnone : m.host.own.host = none) (tag : Text)
    {rest : Dom.NodeId → Run World Unit} (hrest : ∀ host, Keeping Halt.Any K (rest host)) :
    Run.After Halt.Any (do
      let host ← Block.onDoc (·.createElement tag)
      Block.modifyOwn fun c => { c with host := some host }
      rest host) (fun _ m' => K m m') m := by
  have hp := hB.permits
  have hmade : Run.After Halt.Any (Block.onDoc (·.createElement tag) : Run World Dom.NodeId)
      (fun _ m' => K m m' ∧ m'.host.own.host = none) m :=
    ⟨hp.same rfl fun n => m.host.doc.attrs_create _ n, hnone⟩
  refine hmade.bind fun host m₁ h₁ => ?_
  have hkept : Run.After Halt.Any
      (Block.modifyOwn fun c => { c with host := some host } : Run World Unit)
      (fun _ m' => K m m') m₁ := hp.trans h₁.1 (hB.placed m₁ host h₁.2)
  exact hkept.bind fun _ m₂ h₂ => (hrest host m₂).mono fun _ _ h₃ => hp.trans h₂ h₃

/-- The view of a component in its host element, which is put in its place. -/
theorem keeping_mountView (place : Option (Dom.NodeId × Option Dom.NodeId)) (host : Dom.NodeId) :
    Keeping Halt.Any K (do
      let state := (← Block.getOwn).snapshot
      let root ← s.definition.part.create []
      Block.modifyOwn fun c => { c with root := some root }
      s.definition.part.mount (s.site s.live) state root host none
      match place with
      | none => pure ()
      | some (parent, anchor) => Block.insertNode parent host anchor : Run World Unit) := by
  have hp := hB.permits
  refine hp.seq hp.getOwn fun c => hp.seq (hp.keeping_createPart _ _) fun root => ?_
  refine hp.seq (fun m => hB.shown m _) fun _ => ?_
  refine hp.seq (hp.keeping_mountPart _ _ _ _ _ fun _ hel => hel) fun _ => ?_
  cases place with
  | none => exact hp.ret ()
  | some p => exact hp.keeping_insertNode _ _ _

theorem keeping_mount (place : Option (Dom.NodeId × Option Dom.NodeId)) :
    Keeping Halt.Any K (s.mount place) := by
  have hp := hB.permits
  have hinsert : ∀ parent n anchor, Keeping Halt.Any K
      (Block.insertNode parent n anchor : Run World Unit) := hp.keeping_insertNode
  have hview := hB.keeping_mountView place
  intro m
  unfold mount
  rw [Block.after_bindOwn]
  split
  · exact hp.ret () m
  · rename_i hnone
    refine hB.after_makeHost (by simpa using hnone) _ fun host => ?_
    dsimp only
    split
    · exact hview host
    · refine hp.seq (hp.onDoc fun d => d.attrs_create _) fun style => ?_
      refine hp.seq (hp.onDoc fun d => d.attrs_create _) fun text => ?_
      exact hp.seq (hinsert _ _ _) fun _ => hp.seq (hinsert _ _ _) fun _ => hview host

theorem keeping_detachHost (host : Option Dom.NodeId) : Keeping Halt.Any K (match host with
    | none => pure ()
    | some host => Block.modifyDoc (·.detach host) : Run World Unit) := by
  have hp := hB.permits
  cases host with
  | none => exact hp.ret ()
  | some host => exact hp.modifyDoc fun d => d.attrs_detach host

theorem keeping_destroy : Keeping Halt.Any K s.destroy := by
  have hp := hB.permits
  refine hp.seq hp.getOwn fun c => ?_
  cases c.root with
  | none => exact hB.keeping_detachHost c.host
  | some root =>
    refine hp.seq (hp.keeping_destroyPart _ _) fun _ => ?_
    exact hp.seq (fun m => hB.shown m _) fun _ => hB.keeping_detachHost c.host

theorem keeping_anyway {α : Type} {x : Attempt α} (hx : Keeping Halt.Any K x.run) :
    Keeping Halt.Any K (anyway x) :=
  hB.permits.seq hx fun _ => hB.permits.ret ()

mutual

/-- Whatever is done with a component keeps the relation. -/
theorem keeping_perform : ∀ o : Operation, Keeping Halt.Any K (s.perform o)
  | .set name v => hB.keeping_anyway (hB.keeping_set name v)
  | .setProp name v => hB.keeping_anyway (hB.keeping_setProp name v)
  | .setAttribute attr value => hB.keeping_anyway (hB.keeping_setAttribute attr value)
  | .removeAttribute attr => hB.keeping_anyway (hB.keeping_removeAttribute attr)
  | .call name args => hB.keeping_anyway (hB.keeping_call name args)
  | .dispatch target index type detail =>
    hB.keeping_anyway (hB.keeping_dispatch target index type detail)
  | .batch ops => hB.batch (keeping_performAll ops)
  | .mount place => hB.keeping_mount place
  | .destroy => hB.keeping_destroy

theorem keeping_performAll : ∀ ops : List Operation, Keeping Halt.Any K (s.performAll ops)
  | [] => hB.permits.ret ()
  | o :: r => hB.permits.seq (keeping_perform o) fun _ => keeping_performAll r

end

end Bears

/-- A relation that a component keeps outside its flushes and that looks neither at documents and
blocks nor at where the view is. -/
structure Tolerates (s : Setting) (K : Machine World → Machine World → Prop) : Prop where
  live : s.live.Allows Halt.Any K
  confines : (s.site s.live).Confines Halt.Any K
  shown : ∀ (m : Machine World) (host : Option Dom.NodeId) (root : Option Block.BlockId),
    K m { m with host := { m.host with own := { m.host.own with host, root } } }
  batch : ∀ {α : Type} {x : Run World α}, Keeping Halt.Any K x → Keeping Halt.Any K (s.batch x)

namespace Tolerates

variable {K : Machine World → Machine World → Prop} (hT : s.Tolerates K)

include hT

theorem bears : s.Bears K where
  live := hT.live
  permits := hT.confines.permits _
  placed m _ _ := hT.shown m _ _
  shown m _ := hT.shown m _ _
  attrs _ _ _ _ := hT.confines.same rfl
  batch := hT.batch

theorem keeping_performAll (ops : List Operation) : Keeping Halt.Any K (s.performAll ops) :=
  hT.bears.keeping_performAll ops

end Tolerates

/-! ### Creation -/

/-- A relation that a component keeps while it gets its first values: its evaluations keep it, and so
does storing a key or a method. -/
structure Begins (s : Setting) (K : Machine World → Machine World → Prop) : Prop where
  live : s.live.Allows Halt.Any K
  permits : (s.site s.live).Permits (· ∈ s.elements) Halt.Any K
  put : ∀ (m : Machine World) {name : Text}, name ∈ s.definition.keys → ∀ v, K m (m.put name v)
  methods : ∀ (m : Machine World) (ms : Dict Value),
    K m { m with host := { m.host with own := { m.host.own with methods := ms } } }

namespace Begins

variable {K : Machine World → Machine World → Prop} (hF : s.Begins K)

include hF

theorem keeping_bindMethods (env : Nat) (ms : List Method) :
    Keeping Halt.Any K (bindMethods env ms) := by
  have hp := hF.permits
  induction ms with
  | nil => exact hp.ret ()
  | cons x r ih =>
    refine hp.seq (hF.live.newFunc _ _) fun f => ?_
    exact hp.seq (fun m => hF.methods m _) fun _ => ih

theorem keeping_init (wrap : EvalError → ComponentError) (env : Nat) (e : Expr) {name : Text}
    (hname : name ∈ s.definition.keys) :
    Keeping Halt.Any K (do
      let v ← guardEval wrap (eval s.live.caller env e)
      ExceptT.lift (Block.modifyOwn fun c => c.put name v) : Attempt Unit).run := by
  have hp := hF.permits
  refine keeping_attempts hp (keeping_guardEval hp (hF.live.keeping_eval env e))
    fun v => keeping_lift hp ?_
  exact fun m => hF.put _ hname v

theorem keeping_initProps (env : Nat) (given : Dict Value) (ps : List PropDecl)
    (hps : ∀ p ∈ ps, p.name ∈ s.definition.keys) :
    Keeping Halt.Any K (s.initProps env given ps).run := by
  have hp := hF.permits
  induction ps with
  | nil => exact hp.ret _
  | cons p r ih =>
    have hrest := ih fun q hq => hps q (List.mem_cons_of_mem _ hq)
    have hname := hps p List.mem_cons_self
    unfold initProps
    cases given.get? p.name with
    | some v =>
      exact keeping_attempts hp (keeping_lift hp fun m => hF.put _ hname v) fun _ => hrest
    | none =>
      cases p.default with
      | none => exact keeping_attempts hp (hp.ret (Except.ok ())) fun _ => hrest
      | some e =>
        have hdefault := hF.keeping_init (.badDefault s.definition.tag p.name) env e hname
        have hall := keeping_attempts hp hdefault fun _ => hrest
        rw [bind_assoc] at hall
        exact hall

theorem keeping_initVars (env : Nat) (xs : List Variable)
    (hxs : ∀ x ∈ xs, x.name ∈ s.definition.keys) :
    Keeping Halt.Any K (s.initVars env xs).run := by
  have hp := hF.permits
  induction xs with
  | nil => exact hp.ret _
  | cons x r ih =>
    have hrest := ih fun y hy => hxs y (List.mem_cons_of_mem _ hy)
    unfold initVars
    cases x.init with
    | none => exact keeping_attempts hp (hp.ret (Except.ok ())) fun _ => hrest
    | some e =>
      have hinit := hF.keeping_init (.badInit s.definition.tag x.name) env e
        (hxs x List.mem_cons_self)
      have hall := keeping_attempts hp hinit fun _ => hrest
      rw [bind_assoc] at hall
      exact hall

theorem keeping_create (hs : s.definition.Sound) (given : Dict Value) :
    Keeping Halt.Any K (s.create given).run := by
  have hp := hF.permits
  have hprops : ∀ p ∈ s.definition.script.props, p.name ∈ s.definition.keys := fun p hp =>
    Definition.mem_keys.2 (.inl (List.mem_map_of_mem hp))
  have hvars : ∀ x ∈ s.definition.script.vars, x.name ∈ s.definition.keys := fun x hx =>
    Definition.mem_keys.2 (.inr (.inr (List.mem_map_of_mem hx)))
  have hderived : Keeping Halt.Any K (s.recompute s.live none) := by
    refine keeping_recompute hp (fun x hx m m' r hrun => ?_) none
    rw [hs.derived_schedule] at hx
    have hkeys : K m m' :=
      (keeping_outcome hs hF.live _ _ _ m).of_ok hrun
    have hname : x.name ∈ s.definition.keys :=
      Definition.mem_keys.2 (.inr (.inl (List.mem_map_of_mem hx)))
    exact ⟨hkeys, fun v _ => hp.trans hkeys (hF.put _ hname v)⟩
  unfold create
  split
  · exact hp.ret _
  · refine keeping_attempts hp (keeping_lift hp (hF.live.newScope _ _)) fun env => ?_
    refine keeping_attempts hp (keeping_lift hp (hF.keeping_bindMethods env _)) fun _ => ?_
    refine keeping_attempts hp (hF.keeping_initProps env given _ hprops) fun _ => ?_
    refine keeping_attempts hp (hF.keeping_initVars env _ hvars) fun _ => ?_
    exact keeping_attempts hp (keeping_lift hp hderived) fun _ => hp.ret _

end Begins

/-- The same for a relation that does not look at documents and blocks. -/
structure Founds (s : Setting) (K : Machine World → Machine World → Prop) : Prop where
  live : s.live.Allows Halt.Any K
  confines : (s.site s.live).Confines Halt.Any K
  put : ∀ (m : Machine World) {name : Text}, name ∈ s.definition.keys → ∀ v, K m (m.put name v)
  methods : ∀ (m : Machine World) (ms : Dict Value),
    K m { m with host := { m.host with own := { m.host.own with methods := ms } } }

theorem Founds.keeping_create {K : Machine World → Machine World → Prop} (hF : s.Founds K)
    (hs : s.definition.Sound) (given : Dict Value) : Keeping Halt.Any K (s.create given).run :=
  Begins.keeping_create ⟨hF.live, hF.confines.permits _, hF.put, hF.methods⟩ hs given

end Setting

end Reactive
