/-
A component comes into step.

While a component is created nothing is shown, and programs over the live state keep
it as it should be.  At the end all derived values are computed, and then the view
is rendered into a new host element.

* `Setting.after_create` — the creation of a component;
* `Setting.after_mount` — its view is rendered.
-/
import Reactive.Proofs.Component.Performed

namespace Reactive

namespace Dom.Document

variable {α : Type}

/-- A style put into an element. -/
def putStyle (d : Document α) (host : NodeId) (css : Text) : Document α :=
  let (style, d) := d.createElement "style"
  let (text, d) := d.create (.text css)
  (d.insert style text none).insert host style none

/-- What is there after a style was put into an empty element. -/
theorem getElem?_putStyle {d : Document α} {host : NodeId} {x : Node} (hhost : d.nodes[host]? = some x)
    (hx : x.children = []) (hstraight : x.astray = false) (css : Text) :
    (d.putStyle host css).nodes[host]? = some { x with children := [d.nodes.size] } ∧
      (d.putStyle host css).nodes[d.nodes.size]? = some
        { content := .element "style", parent := some host, children := [d.nodes.size + 1] } ∧
      (d.putStyle host css).nodes[d.nodes.size + 1]? =
        some { content := .text css, parent := some d.nodes.size } ∧
      (d.putStyle host css).listeners = d.listeners := by
  have hlt : host < d.nodes.size := (Array.getElem?_eq_some_iff.1 hhost).1
  have hstyle : host ≠ d.nodes.size := Nat.ne_of_lt hlt
  have htext : host ≠ d.nodes.size + 1 := Nat.ne_of_lt (Nat.lt_succ_of_lt hlt)
  have hnext : d.nodes.size ≠ d.nodes.size + 1 := Nat.ne_of_lt (Nat.lt_succ_self _)
  have hlower : Text.lower "style" = "style" := by decide +kernel
  let d₁ := (d.createElement "style").2
  let d₂ := (d₁.create (.text css)).2
  have hsize : d₁.nodes.size = d.nodes.size + 1 := Array.size_push _
  have hget : ∀ n, d₂.nodes[n]? = if n = d.nodes.size + 1 then some { content := .text css }
      else if n = d.nodes.size then some { content := .element "style" } else d.nodes[n]? := by
    intro n
    rw [getElem?_create, hsize, ← hlower]
    exact if_congr Iff.rfl rfl (getElem?_create ..)
  have hhost₂ : d₂.nodes[host]? = some x := by rw [hget, if_neg htext, if_neg hstyle, hhost]
  have hstyle₂ : d₂.nodes[d.nodes.size]? = some { content := .element "style" } := by
    rw [hget, if_neg hnext, if_pos rfl]
  have htext₂ : d₂.nodes[d.nodes.size + 1]? = some { content := .text css } := by
    rw [hget, if_pos rfl]
  obtain ⟨htext₃, hstyle₃, hother₃, -, hlisteners₃⟩ := insert_loose none hnext htext₂ rfl hstyle₂
  have hhost₃ := (hother₃ host hstyle htext).trans hhost₂
  obtain ⟨hstyle₄, hhost₄, hother₄, -, hlisteners₄⟩ := insert_loose none hstyle hstyle₃ rfl hhost₃
  have hput : d.putStyle host css =
      (d₂.insert d.nodes.size (d.nodes.size + 1) none).insert host d.nodes.size none := by
    show (d₂.insert d.nodes.size d₁.nodes.size none).insert host d.nodes.size none = _
    rw [hsize]
  rw [hput]
  refine ⟨?_, hstyle₄, (hother₄ _ htext.symm hnext.symm).trans htext₃, hlisteners₄.trans hlisteners₃⟩
  rw [hhost₄, Dom.Node.put, Dom.Node.append, hx, hstraight]
  rfl

end Dom.Document

open Dom (NodeId)
open Block (Stage Action Placed Moves BlockId)
open Block.Tree (nodesAll rootsAll)

namespace Setting

variable {s : Setting} {me : Option Value} {created : Prop} {m m' : Machine World}

/-! ### Creation -/

/-- A component that has no values yet. -/
theorem inStep_start (s : Setting) (logs : List LogEntry) :
    (s.start logs).Whole ∧ s.InStep none False (s.start logs) := by
  have hstate : ∀ n v, (Component.blank s.definition).state.get? n = some v → v = .undefined := by
    intro n v hv
    obtain ⟨k, -, hk⟩ := List.mem_map.1 (Dict.mem_of_get? hv)
    exact (Prod.mk.inj hk).2.symm
  have hkeys : (Component.blank s.definition).state.keys = s.definition.keys := by
    rw [Component.blank, Dict.keys, List.map_map]
    exact List.map_id _
  refine ⟨⟨fun i sc hs => ?_, fun i sc hs => ?_⟩, ⟨⟨⟨fun n v hv => ?_, fun n v hv => ?_⟩, hkeys, rfl⟩,
    fun c hc => ?_, fun l hl => ?_, rfl, fun n hn => absurd hn List.not_mem_nil, fun _ => ⟨rfl, rfl⟩,
    False.elim, False.elim, fun root hroot => ?_⟩⟩
  · cases hs
  · cases hs
  · rw [hstate n v hv]
    trivial
  · cases hv
  · exact absurd hc (Array.not_mem_empty _)
  · exact absurd hl List.not_mem_nil
  · cases hroot

/-- A component that is not mounted has other values for its keys and methods. -/
theorem InStep.assign (h : s.InStep me False m) {state methods : Dict Value}
    (hstate : ∀ n v, state.get? n = some v → v.All m.Made)
    (hmethods : ∀ n v, methods.get? n = some v → v.All m.Made)
    (hkeys : state.keys = s.definition.keys) :
    s.InStep (methods.get? "this") False (m.withOwn { m.host.own with state, methods }) where
  made := ⟨hstate, hmethods⟩
  keys := hkeys
  this := rfl
  cells := h.cells
  listeners := h.listeners
  dirty := h.dirty
  marked := h.marked
  place := h.place
  shown := False.elim
  current := False.elim
  view root hroot := by
    have hroot : m.host.own.root = some root := hroot
    rw [(h.place id).2] at hroot
    cases hroot

/-- A key gets its first value. -/
theorem InStep.put (h : s.InStep me False m) {name : Text} (hname : name ∈ s.definition.keys)
    {v : Value} (hv : v.All m.Made) : s.InStep me False (m.put name v) := by
  have hput := h.toKeyed.put hname hv
  have hassign := h.assign hput.made.state h.made.methods hput.keys
  rw [h.this] at hassign
  exact hassign

/-- A machine with one more function is whole. -/
theorem whole_of_grows (hm : m.Whole) (hscopes : m'.scopes = m.scopes) (hgrow : m.Grows m') :
    m'.Whole := by
  refine ⟨fun i sc hs => ?_, fun i sc hs p hp => hgrow.all (hm.vars i sc (hscopes ▸ hs) p hp)⟩
  have ho := hm.outer i sc (hscopes ▸ hs)
  cases hout : sc.outer with
  | scope p => rwa [hout] at ho
  | store st =>
    cases st with
    | snapshot values =>
      rw [hout] at ho
      exact fun n v hv => hgrow.all (ho n v hv)
    | _ => trivial

/-- The methods are made. -/
theorem after_bindMethods (env : Nat) (ms : List Method) : ∀ {m : Machine World} {me : Option Value},
    m.Whole → s.InStep me False m → env < m.scopes.size →
    Run.After Halt.Any (bindMethods env ms) (fun _ m' => ∃ me', s.Onward me' False m m') m := by
  induction ms with
  | nil => exact fun hwhole h _ => ⟨_, .refl _, hwhole, h⟩
  | cons x r ih =>
    intro m me hwhole h henv
    -- the method is made, and then it is there under its name
    let f : Func := .mk x.name m.funcs (.closure x.params (.block x.body) env)
    let m₁ : Machine World := { m with funcs := m.funcs + 1 }
    let m₂ := m₁.withOwn { m₁.host.own with methods := m₁.host.own.methods.insert x.name (.func f) }
    have hgrow : m.Grows m₁ := ⟨Nat.le_refl _, Nat.le_succ _, fun i sc hs => ⟨sc, hs, rfl, fun _ => id⟩⟩
    have hwhole₁ : m₁.Whole := whole_of_grows hwhole rfl hgrow
    have h₁ : s.InStep me False m₁ := h.grow hgrow rfl
    have hf : Value.All m₁.Made (.func f) := by
      refine ⟨⟨.inl (Nat.lt_succ_self _), ?_⟩, trivial⟩
      rintro params body scope ⟨⟩
      exact henv
    have hmethods : ∀ n v, (m₁.host.own.methods.insert x.name (.func f)).get? n = some v →
        v.All m₁.Made := by
      intro n v hv
      rw [Dict.get?_insert] at hv
      split at hv
      · rwa [← Option.some.inj hv]
      · exact h₁.made.methods n v hv
    have hrest := ih (m := m₂) (hwhole₁.congr rfl rfl) (h₁.assign h₁.made.state hmethods h₁.keys) henv
    refine Run.After.mono (Q := fun _ m' => ∃ me', s.Onward me' False m₂ m') hrest ?_
    rintro _ m' ⟨me', h'⟩
    have hnamed : m₁.Grows m₂ := .of_same rfl rfl
    exact ⟨me', hgrow.trans (hnamed.trans h'.grows), h'.whole, h'.inStep⟩

/-- Attempts one after another. -/
theorem after_attempts {α β : Type} {x : Attempt α} {f : α → Attempt β}
    (hx : Run.After Halt.Any x.run (fun _ m' => s.Onward me created m m') m)
    (hf : ∀ a m₁, s.Onward me created m m₁ →
      Run.After Halt.Any (f a).run (fun _ m' => s.Onward me created m₁ m') m₁) :
    Run.After Halt.Any (x >>= f).run (fun _ m' => s.Onward me created m m') m := by
  rw [ExceptT.run_bind]
  refine hx.bind fun r m₁ h₁ => ?_
  cases r with
  | error e => exact h₁
  | ok a => exact (hf a m₁ h₁).mono fun _ _ h₂ => h₁.trans h₂

section

variable (hd : s.definition.Discreet)

include hd

/-- A key gets the value of an expression. -/
theorem after_init (wrap : EvalError → ComponentError) {env : Nat} (e : Expr) {name : Text}
    (hname : name ∈ s.definition.keys) (hwhole : m.Whole) (h : s.InStep me False m)
    (henv : env < m.scopes.size) :
    Run.After Halt.Any (do
      let v ← guardEval wrap (eval s.live.caller env e)
      ExceptT.lift (Block.modifyOwn fun c => c.put name v) : Attempt Unit).run
      (fun _ m' => s.Onward me False m m') m := by
  rw [ExceptT.run_bind, run_guardEval, bind_assoc]
  refine (after_evalLive hd hwhole h henv e).bind ?_
  rintro r m₁ ⟨h₁, hmade⟩
  cases r with
  | error e => exact h₁
  | ok v =>
    have hput := h₁.inStep.put hname (hmade v rfl)
    exact ⟨h₁.grows.trans (.of_same rfl rfl), h₁.whole.congr rfl rfl, hput⟩

/-- The props get their values. -/
theorem after_initProps {env : Nat} {given : Dict Value} (ps : List PropDecl)
    (hps : ∀ p ∈ ps, p.name ∈ s.definition.keys) : ∀ {m : Machine World}, m.Whole →
    s.InStep me False m → env < m.scopes.size → (∀ n v, given.get? n = some v → v.All m.Made) →
    Run.After Halt.Any (s.initProps env given ps).run (fun _ m' => s.Onward me False m m') m := by
  induction ps with
  | nil => exact fun hwhole h _ _ => ⟨.refl _, hwhole, h⟩
  | cons p r ih =>
    intro m hwhole h henv hgiven
    obtain ⟨hname, hr⟩ := List.forall_mem_cons.1 hps
    have hrest : ∀ m₁, s.Onward me False m m₁ →
        Run.After Halt.Any (s.initProps env given r).run (fun _ m' => s.Onward me False m₁ m') m₁ :=
      fun m₁ h₁ => ih hr h₁.whole h₁.inStep (Nat.lt_of_lt_of_le henv h₁.grows.size)
        fun n v hv => h₁.grows.all (hgiven n v hv)
    unfold initProps
    cases hvalue : given.get? p.name with
    | some v =>
      refine after_attempts ?_ fun _ => hrest
      exact ⟨.of_same rfl rfl, hwhole.congr rfl rfl, h.put hname (hgiven _ v hvalue)⟩
    | none =>
      cases p.default with
      | none => exact after_attempts (x := pure ()) ⟨.refl m, hwhole, h⟩ fun _ => hrest
      | some e =>
        have hall := after_attempts
          (after_init hd (.badDefault s.definition.tag p.name) e hname hwhole h henv) fun _ => hrest
        rw [bind_assoc] at hall
        exact hall

/-- The variables get their first values. -/
theorem after_initVars {env : Nat} (xs : List Variable) (hxs : ∀ x ∈ xs, x.name ∈ s.definition.keys) :
    ∀ {m : Machine World}, m.Whole → s.InStep me False m → env < m.scopes.size →
    Run.After Halt.Any (s.initVars env xs).run (fun _ m' => s.Onward me False m m') m := by
  induction xs with
  | nil => exact fun hwhole h _ => ⟨.refl _, hwhole, h⟩
  | cons x r ih =>
    intro m hwhole h henv
    obtain ⟨hname, hr⟩ := List.forall_mem_cons.1 hxs
    have hrest : ∀ m₁, s.Onward me False m m₁ →
        Run.After Halt.Any (s.initVars env r).run (fun _ m' => s.Onward me False m₁ m') m₁ :=
      fun m₁ h₁ => ih hr h₁.whole h₁.inStep (Nat.lt_of_lt_of_le henv h₁.grows.size)
    unfold initVars
    cases x.init with
    | none => exact after_attempts (x := pure ()) ⟨.refl m, hwhole, h⟩ fun _ => hrest
    | some e =>
      have hall := after_attempts
        (after_init hd (.badInit s.definition.tag x.name) e hname hwhole h henv) fun _ => hrest
      rw [bind_assoc] at hall
      exact hall

/-- All derived values are computed. -/
theorem after_computeAll (hwhole : m.Whole) (h : s.InStep me False m) :
    Run.After Halt.Any (s.recompute s.live none) (fun _ m' => s.Onward me False m m' ∧
      ∀ x, s.Settled x → s.Current x m') m := by
  refine (after_recompute (fun _ _ => rfl) hd (h.kept hwhole) True
    fun _ _ hnone => by cases hnone).mono ?_
  rintro names m₁ ⟨hm₁, hrec, hcurrent⟩
  obtain ⟨state, hhost⟩ := hrec.host
  refine ⟨⟨hrec.grows, hm₁.whole, ⟨hm₁.toKeyed, fun c hc => ?_, fun l hl => ?_, ?_, ?_, ?_, False.elim,
    False.elim, fun root hroot => ?_⟩⟩, hcurrent trivial⟩
  · rw [hhost] at hc
    exact (h.cells c hc).grow hrec.grows
  · rw [hhost] at hl
    exact (h.listeners l hl).grow hrec.grows
  · rw [hhost]
    exact h.dirty
  · rw [hhost]
    exact h.marked
  · rw [hhost]
    exact h.place
  · rw [hhost] at hroot
    have hroot : m.host.own.root = some root := hroot
    rw [(h.place id).2] at hroot
    cases hroot

/-- A component is created with values that were made. -/
theorem after_create {given : Dict Value} {logs : List LogEntry}
    (hgiven : ∀ n v, given.get? n = some v → v.All (s.start logs).Made) :
    Run.After Halt.Any (s.create given).run (fun r m' => r = .ok () → ∃ me, m'.Whole ∧
      s.InStep me False m' ∧ ∀ x, s.Settled x → s.Current x m') (s.start logs) := by
  have hprops : ∀ p ∈ s.definition.script.props, p.name ∈ s.definition.keys := fun p hp =>
    Definition.mem_keys.2 (.inl (List.mem_map_of_mem hp))
  have hvars : ∀ x ∈ s.definition.script.vars, x.name ∈ s.definition.keys := fun x hx =>
    Definition.mem_keys.2 (.inr (.inr (List.mem_map_of_mem hx)))
  obtain ⟨hwhole, hstart⟩ := inStep_start s logs
  unfold create
  split
  · exact nofun
  · rw [ExceptT.run_bind_lift]
    have houter : (s.start logs).Leads (s.start logs).scopes.size (.store (.host .writable)) := trivial
    refine ((tends_live hd).after_newScope hwhole hstart houter
      fun _ hp => absurd hp List.not_mem_nil).bind ?_
    rintro env m₁ ⟨hgrow₁, hwhole₁, hstep₁, henv⟩
    rw [ExceptT.run_bind_lift]
    refine (after_bindMethods env _ hwhole₁ hstep₁ henv).bind ?_
    rintro _ m₂ ⟨me, h₂⟩
    have henv₂ := Nat.lt_of_lt_of_le henv h₂.grows.size
    have hgiven₂ : ∀ n v, given.get? n = some v → v.All m₂.Made :=
      fun n v hv => (hgrow₁.trans h₂.grows).all (hgiven n v hv)
    rw [ExceptT.run_bind]
    refine (after_initProps hd _ hprops h₂.whole h₂.inStep henv₂ hgiven₂).bind fun r m₃ h₃ => ?_
    cases r with
    | error e => exact nofun
    | ok _ =>
      show Run.After Halt.Any (s.initVars env s.definition.script.vars >>= _ : Attempt Unit).run _ m₃
      rw [ExceptT.run_bind]
      refine (after_initVars hd _ hvars h₃.whole h₃.inStep
        (Nat.lt_of_lt_of_le henv₂ h₃.grows.size)).bind fun r m₄ h₄ => ?_
      cases r with
      | error e => exact nofun
      | ok _ =>
        -- only now are derived values looked at
        show Run.After Halt.Any (ExceptT.lift (s.recompute s.live none) >>= fun _ => pure () :
          Attempt Unit).run _ m₄
        rw [ExceptT.run_bind_lift]
        refine (after_computeAll hd h₄.whole h₄.inStep).bind ?_
        rintro _ m₅ ⟨h₅, hcurrent⟩
        exact fun _ => ⟨me, h₅.whole, h₅.inStep, hcurrent⟩

end

/-! ### Mounting -/

/-- The host element is put into its place, if it gets one. -/
def settleIn (place : Option (NodeId × Option NodeId)) (host : NodeId) : Run World Unit :=
  match place with
  | none => pure ()
  | some (parent, anchor) => Block.insertNode parent host anchor

/-- A component stays in step when its host element is put under an older node. -/
theorem after_settleIn (hwhole : m.Whole) (h : s.InStep me True m) {host : NodeId} {x : Dom.Node}
    (hhost : m.host.own.host = some host) (hx : m.host.doc.nodes[host]? = some x)
    (hloose : x.parent = none) {place : Option (NodeId × Option NodeId)}
    (hplace : ∀ q ∈ place, q.1 < host) :
    Run.After Halt.Any (settleIn place host) (fun _ m' => m'.Whole ∧ s.InStep me True m') m := by
  cases place with
  | none => exact ⟨hwhole, h⟩
  | some q =>
    obtain ⟨parent, anchor⟩ := q
    have hlt : parent < host := hplace _ rfl
    have hparent : parent < m.host.doc.nodes.size :=
      Nat.lt_trans hlt (Array.getElem?_eq_some_iff.1 hx).1
    obtain ⟨hnode, -, hother, hsize, hlisteners⟩ := Dom.Document.insert_loose anchor
      (Nat.ne_of_lt hlt) hx hloose (Array.getElem?_eq_getElem hparent)
    refine ⟨hwhole.congr rfl rfl, h.onDoc hlisteners fun hdisplays =>
      hdisplays.onDoc hhost (Nat.le_of_eq hsize.symm) (fun n hn => ?_) fun z hz => ?_⟩
    · exact hother n (Nat.ne_of_gt (Nat.lt_trans hlt hn)) (Nat.ne_of_gt hn)
    · obtain rfl := Option.some.inj (hx.symm.trans hz)
      exact ⟨{ x with parent := some parent }, hnode⟩

/-- The view rendered into the host element, which is put into its place. -/
def renderInto (s : Setting) (place : Option (NodeId × Option NodeId)) (host : NodeId) :
    Run World Unit := do
  let state := (← Block.getOwn).snapshot
  let root ← s.definition.part.create []
  Block.modifyOwn fun c => { c with root := some root }
  s.definition.part.mount (s.site s.live) state root host none
  settleIn place host

/-- The machine whose component has a host element in some document. -/
def housed (m : Machine World) (host : NodeId) (d : Dom.Document Action) : Machine World :=
  { m with host := { m.host with doc := d, own := { m.host.own with host := some host } } }

/-- Derived values stay up to date while the view is rendered for the first time. -/
theorem Refreshed.rooted (h : s.Refreshed me True m) (hgrow : m.Grows m')
    (hfine : (Block.discreetReading (s.site s.live) me).Fine m') {root : BlockId}
    (hown : m'.host.own = { m.host.own with root := some root }) : s.Refreshed me True m' := by
  refine ⟨⟨?_, ?_, ?_⟩, hfine.sane, hfine.cells, hfine.listeners, ?_, ?_,
    fun hout => (hout trivial).elim, fun _ x hx => (h.current trivial x hx).keep hgrow ?_ ?_⟩
  all_goals rw [hown]
  · exact ⟨fun n v hv => hgrow.all (h.made.state n v hv),
      fun n v hv => hgrow.all (h.made.methods n v hv)⟩
  · exact h.keys
  · exact h.this
  · exact h.changed
  · exact h.dirty
  · exact fun _ _ => rfl

section

variable (hd : s.definition.Discreet)

include hd

/-- The view is rendered into the host element. -/
theorem after_renderInto (h : s.Refreshed me True m) {host : NodeId} {y : Dom.Node} {pre : List NodeId}
    {place : Option (NodeId × Option NodeId)} (hhost : m.host.own.host = some host)
    (hplaced : Placed m.host host y pre [] []) (hloose : y.parent = none)
    (hstyled : Styled s.definition.css m.host.doc host [] pre) (hplace : ∀ q ∈ place, q.1 < host) :
    Run.After Halt.Any (s.renderInto place host) (fun _ m' => m'.Whole ∧ s.InStep me True m') m := by
  have hR : (Block.discreetReading (s.site s.live) me).Lawful :=
    Block.lawful_discreet (h := s.live) (congrFun hd.outcome s.live)
  unfold renderInto
  rw [Block.after_bindOwn]
  have hfine : (Block.discreetReading (s.site s.live) me).Fine m := ⟨h.whole, h.cells, h.listeners⟩
  refine (Block.Reading.after_createPart hR hfine made_nil _).bind ?_
  rintro root m₁ ⟨bs, hmakes, hfresh⟩
  have hturns := hmakes.turns hplaced
  let m₂ := m₁.withOwn { m₁.host.own with root := some root }
  have hroot : Run.After Halt.Any
      (Block.modifyOwn fun c => { c with root := some root } : Run World Unit)
      (fun _ m' => m' = m₂) m₁ := rfl
  refine hroot.bind ?_
  rintro _ _ rfl
  obtain ⟨cs, hcs⟩ := hmakes.cells
  have hown₁ : m₁.host.own = m.host.own := by rw [hcs]
  have hdoc₁ : m₁.host.doc = m.host.doc := by rw [hcs]
  have hgrow₂ : m.Grows m₂ := hmakes.next.later.trans (.of_same rfl rfl)
  have hfine₁ := hmakes.next.fine
  have hst₂ : Block.Stored me m₂ m.host.own.snapshot := (h.stored hd).grow hgrow₂
  have hfine₂ : (Block.discreetReading (s.site s.live) me).Fine m₂ :=
    ⟨hfine₁.sane.congr rfl rfl, hfine₁.cells, hfine₁.listeners⟩
  have hplain : s.definition.part.Plain := hd.plain
  refine (Block.Reading.after_mountPart hR hplain hd.view hfine₂ made_nil
    (fun _ hn => absurd hn List.not_mem_nil) hst₂ hfresh hmakes.nodup
    (hturns.placed.congr rfl rfl)).bind ?_
  rintro _ m₃ ⟨ts, hturns₃, hstands⟩
  have hgrow₃ : m.Grows m₃ := hgrow₂.trans hturns₃.next.later
  have hown₃ : m₃.host.own = { m.host.own with root := some root } := by
    rw [hturns₃.becomes.moves.own, ← hown₁]
    rfl
  have hhost₃ : m₃.host.own.host = some host := by rw [hown₃]; exact hhost
  have hfine₃ := hturns₃.fine
  have hrefreshed : s.Refreshed me True m₃ := h.rooted hgrow₃ hfine₃ hown₃
  have hnewer : ∀ n ∈ nodesAll ts, host < n := by
    intro n hn
    refine (hturns₃.becomes.nodes n hn).elim (fun h => absurd h List.not_mem_nil) fun hle => ?_
    exact Nat.lt_of_lt_of_le (Array.getElem?_eq_some_iff.1 hturns.placed.parent).1 hle
  have hstyled₂ : Styled s.definition.css m₂.host.doc host [] pre := by
    show Styled s.definition.css m₁.host.doc host [] pre
    rw [hdoc₁]
    exact hstyled
  have hstyled₃ : Styled s.definition.css m₃.host.doc host ts pre := by
    refine hstyled₂.congr (fun _ _ => List.not_mem_nil) (fun n hn hne _ => ?_) hturns₃.becomes.nodes
    exact hturns₃.becomes.moves.node n hn fun hor => hor.elim hne List.not_mem_nil
  have hshown : m₃.host.own.root ≠ none := by
    rw [hown₃]
    exact Option.some_ne_none _
  have hinStep : s.InStep me True m₃ := by
    refine hrefreshed.inStep hd (fun _ => hshown) fun root' hroot' => ?_
    rw [hown₃] at hroot' ⊢
    obtain rfl := Option.some.inj hroot'
    -- the view was rendered over the live state; what it shows is the same over the settled one
    exact ⟨host, y, pre, ts, hhost₃, hturns₃.placed, hstyled₃, hnewer,
      (Block.Reading.agrees_discreet _ _ me).stands hstands⟩
  exact after_settleIn hfine₃.sane hinStep hhost₃ hturns₃.placed.parent hloose hplace

/-- The view is rendered into a host element in which nothing stands but a style. -/
theorem after_housed (h : s.Refreshed me True m) {host : NodeId} {y : Dom.Node}
    {d : Dom.Document Action} {pre : List NodeId} {place : Option (NodeId × Option NodeId)}
    (hlisteners : d.listeners = m.host.doc.listeners)
    (hparent : d.nodes[host]? = some { y with children := pre }) (hstraight : y.astray = false)
    (hloose : y.parent = none) (hnodup : pre.Nodup) (hbelow : ∀ n ∈ pre, n < d.nodes.size)
    (hstyled : Styled s.definition.css d host [] pre) (hplace : ∀ q ∈ place, q.1 < host) :
    Run.After Halt.Any (s.renderInto place host) (fun _ m' => m'.Whole ∧ s.InStep me True m')
      (housed m host d) := by
  have hgrow : m.Grows (housed m host d) := .of_same rfl rfl
  have hrefreshed : s.Refreshed me True (housed m host d) := by
    refine ⟨⟨⟨h.made.state, h.made.methods⟩, h.keys, h.this⟩, h.whole.congr rfl rfl, h.cells, ?_,
      h.changed, h.dirty, fun hout => (hout trivial).elim,
      fun _ x hx => (h.current trivial x hx).keep hgrow ?_ rfl⟩
    · intro l hl
      exact h.listeners l (hlisteners ▸ hl)
    · exact fun _ _ => rfl
  have hplaced : Placed (housed m host d).host host y pre [] [] := by
    refine ⟨?_, hstraight, trivial, List.nodup_nil, List.nodup_nil, List.not_mem_nil, ?_,
      fun n hn => ⟨List.not_mem_nil, ?_⟩⟩
    · show d.nodes[host]? = _
      rw [hparent, rootsAll, List.append_nil, List.append_nil]
    · rwa [List.append_nil]
    · exact hbelow n (by simpa using hn)
  exact after_renderInto hd hrefreshed rfl hplaced hloose hstyled hplace

/-- A component whose derived values are computed is mounted, on its own or under a node that is
there. -/
theorem after_mount (h : s.Refreshed me True m) (hhost : m.host.own.host = none)
    {place : Option (NodeId × Option NodeId)} (hplace : ∀ q ∈ place, q.1 < m.host.doc.nodes.size) :
    Run.After Halt.Any (s.mount place) (fun _ m' => m'.Whole ∧ s.InStep me True m') m := by
  let host := m.host.doc.nodes.size
  let d := (m.host.doc.createElement s.definition.tag).2
  let y : Dom.Node := { content := .element (Text.lower s.definition.tag) }
  have hnode : d.nodes[host]? = some y := (Dom.Document.getElem?_create ..).trans (if_pos rfl)
  unfold mount
  rw [Block.after_bindOwn, hhost]
  refine Run.After.bind (Q := fun n m' => n = host ∧ m' = { m with host := { m.host with doc := d } })
    ⟨rfl, rfl⟩ ?_
  rintro _ _ ⟨rfl, rfl⟩
  refine Run.After.bind (Q := fun _ m' => m' = housed m host d) rfl ?_
  rintro _ _ rfl
  dsimp only
  split
  · rename_i hempty
    have hbare : d.nodes[host]? = some { y with children := [] } := hnode
    exact after_housed hd h rfl hbare rfl rfl List.nodup_nil
      (fun _ hn => absurd hn List.not_mem_nil) (.bare (List.isEmpty_iff.1 hempty)) hplace
  · rename_i hsome
    obtain ⟨hhost', hstyle, htext, hlisteners⟩ :=
      Dom.Document.getElem?_putStyle hnode rfl rfl s.definition.css
    have hlt : host < d.nodes.size := (Array.getElem?_eq_some_iff.1 hnode).1
    have hbelow : ∀ n ∈ [d.nodes.size], n < (d.putStyle host s.definition.css).nodes.size := by
      intro n hn
      rw [List.mem_singleton.1 hn]
      exact (Array.getElem?_eq_some_iff.1 hstyle).1
    have hstyled : Styled s.definition.css (d.putStyle host s.definition.css) host [] [d.nodes.size] :=
      .style (fun h => hsome (List.isEmpty_iff.2 h)) hstyle htext hlt (Nat.lt_succ_of_lt hlt)
        List.not_mem_nil
    -- the document after each step of putting the style in
    let d₁ := (d.createElement "style").2
    let d₂ := (d₁.create (.text s.definition.css)).2
    let d₃ := d₂.insert d.nodes.size d₁.nodes.size none
    refine Run.After.bind
      (Q := fun style m' => style = d.nodes.size ∧ m' = housed m host d₁) ⟨rfl, rfl⟩ ?_
    rintro _ _ ⟨rfl, rfl⟩
    refine Run.After.bind
      (Q := fun text m' => text = d₁.nodes.size ∧ m' = housed m host d₂) ⟨rfl, rfl⟩ ?_
    rintro _ _ ⟨rfl, rfl⟩
    refine Run.After.bind (Q := fun _ m' => m' = housed m host d₃) rfl ?_
    rintro _ _ rfl
    refine Run.After.bind
      (Q := fun _ m' => m' = housed m host (d.putStyle host s.definition.css)) rfl ?_
    rintro _ _ rfl
    exact after_housed hd h hlisteners hhost' rfl rfl (List.nodup_singleton _) hbelow hstyled
      hplace

end

end Setting

end Reactive
