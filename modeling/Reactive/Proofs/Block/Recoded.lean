/-
Blocks evaluate a binding in the frames of its own loops, and nowhere else.

A site of the same view may evaluate other expressions in the place of those of
its bindings, with another evaluator.  If this makes no difference for a binding
in the frames of the loops around it, it makes no difference at all: whatever is
put in the place of a binding in any other frame, blocks are mounted, patched and
destroyed in the same way.  The other site may also stop the run where it
evaluates a binding.

* `Site.through`, `Site.Spares` — such a site, and that it makes no such difference;
* `agrees_mount`, `agrees_patch` — the life of a block;
* `agrees_dispatchBy` — events; a handler also runs in a frame of its own loops.
-/
import Reactive.Block.Event
import Reactive.Proofs.Block.Scopes

namespace Reactive.Block

variable {σ : Type}

/-- A site with another way to evaluate. -/
def Site.through (s : Site σ) (caller : Caller (Stage σ))
    (outcome : Store → Frame → Expr → Run (Stage σ) (Except EvalError Value)) : Site σ :=
  { s with caller, outcome }

/-- Other expressions, evaluated in another way, in the place of those of bindings: in the frames of
the loops around a binding this makes no difference, unless it stops the run. -/
def Site.Spares (stop : Halt → Prop) (s : Site σ) (root : σ → Option BlockId)
    (view : List View.Node) (code : View.Binding → Expr)
    (outcome : Store → Frame → Expr → Run (Stage σ) (Except EvalError Value)) : Prop :=
  ∀ (L : List Label) (state : Dict Value) (b : View.Binding) (frame : Frame),
    Stands view false b frame → AgreesOn stop (Labelled root view) L
      (s.outcome (.snapshot state) frame b.expr) (outcome (.snapshot state) frame (code b))

section

variable {stop : Halt → Prop} {s : Site σ} {root : σ → Option BlockId} {view : List View.Node}
  {code : View.Binding → Expr} {caller : Caller (Stage σ)}
  {outcome : Store → Frame → Expr → Run (Stage σ) (Except EvalError Value)} {L : List Label}
  (hs : s.Spares stop root view code outcome)

/-! ### Bindings -/

section

include hs

theorem agrees_evaluate {frame : Frame} (state : Dict Value) {b : View.Binding}
    (hb : Stands view false b frame) : AgreesOn stop (Labelled root view) L
      (s.evaluate frame state b)
      ((s.through caller outcome).evaluate frame state (b.recode code)) := by
  refine (hs L state b frame hb).seq fun r L' _ => ?_
  cases r with
  | ok v => exact .pure trivial
  | error e => exact (Agrees.writeLog _ _).seq fun _ _ _ => .pure trivial

theorem agrees_firstTrue {frame : Frame} (state : Dict Value) (tests : List View.Binding)
    (htests : ∀ t ∈ tests, Stands view false t frame) : ∀ (i : Nat) {L : List Label},
    AgreesOn stop (Labelled root view) L (firstTrue s frame state i tests)
      (firstTrue (s.through caller outcome) frame state i (tests.map (View.Binding.recode code))) := by
  induction tests with
  | nil => exact fun i _ => .pure trivial
  | cons t r ih =>
    intro i L
    rw [List.forall_mem_cons] at htests
    refine (agrees_evaluate hs state htests.1).seq fun v L' _ => .ite (fun _ => .pure trivial) fun _ => ?_
    exact ih htests.2 (i + 1)

theorem agrees_select {frame : Frame} (state : Dict Value) {branches : List View.Branch}
    (other : View.Otherwise) (htests : ∀ t ∈ View.testsOf branches, Stands view false t frame) :
    AgreesOn stop (Labelled root view) L (select s frame state branches other)
      (select (s.through caller outcome) frame state (View.recodeBranches code branches)
        (other.recode code)) := by
  unfold select
  rw [View.testsOf_recode, View.length_recodeBranches, hasBody_recode]
  exact (agrees_firstTrue hs state _ htests 0).seq fun _ _ _ => .pure trivial

theorem agrees_items {frame : Frame} (state : Dict Value) {list : View.Binding}
    (hlist : Stands view false list frame) : AgreesOn stop (Labelled root view) L
      (items s frame state list)
      (items (s.through caller outcome) frame state (list.recode code)) := by
  refine (agrees_evaluate hs state hlist).seq fun v L' _ => ?_
  cases v with
  | list vs => exact .pure trivial
  | null | undefined => exact .pure trivial
  | _ => exact (Agrees.writeLog _ _).seq fun _ _ _ => .pure trivial

end

/-! ### Parts of mounting -/

theorem agrees_ownNode (id : BlockId)
    (make : Dom.Document Action → Dom.NodeId × Dom.Document Action)
    (hmake : ∀ d, (make d).2.listeners = d.listeners) :
    AgreesOn stop (Labelled root view) L (ownNode id make) (ownNode id make) := by
  refine (agrees_onDoc _ fun d x hx => .inl (hmake d ▸ hx)).seq fun n _ _ => ?_
  exact (agrees_touchCell (by simp)).seq fun _ _ _ => .pure trivial

theorem agrees_insertNode (parent n : Dom.NodeId) (anchor : Option Dom.NodeId) :
    AgreesOn stop (Labelled root view) L (insertNode parent n anchor)
      (insertNode parent n anchor) := by
  refine agrees_modifyDoc _ fun d x hx => ?_
  have hdetach : (d.detach n).listeners = d.listeners := by
    unfold Dom.Document.detach
    split <;> rfl
  exact hdetach ▸ hx

theorem agrees_modifyAttrs (node : Dom.NodeId) (f : List (Text × Text) → List (Text × Text)) :
    AgreesOn stop (Labelled root view) L (modifyDoc fun d => d.modifyAttrs node f)
      (modifyDoc fun d => d.modifyAttrs node f) :=
  agrees_modifyDoc _ fun _ _ hx => hx

section

include hs

theorem agrees_mountAttrs {frame : Frame} (state : Dict Value) (id : BlockId) (node : Dom.NodeId)
    (bound : List (Text × View.Binding)) (hbound : ∀ a ∈ bound, Stands view false a.2 frame) :
    ∀ (i : Nat) {L : List Label}, AgreesOn stop (Labelled root view) L
      (mountAttrs s state id node frame i bound)
      (mountAttrs (s.through caller outcome) state id node frame i
        (bound.map fun a => (a.1, a.2.recode code))) := by
  induction bound with
  | nil => exact fun _ _ => .pure trivial
  | cons a r ih =>
    intro i L
    rw [List.forall_mem_cons] at hbound
    refine (agrees_evaluate hs state hbound.1).seq fun v _ _ => ?_
    refine (agrees_touchCell (by simp)).seq fun _ _ _ => ?_
    exact (agrees_modifyAttrs node _).seq fun _ _ _ => ih hbound.2 (i + 1)

theorem agrees_mountToggles {frame : Frame} (state : Dict Value) (id : BlockId) (node : Dom.NodeId)
    (toggles : List View.Toggle) (htoggles : ∀ t ∈ toggles, Stands view false t.binding frame) :
    ∀ (i : Nat) {L : List Label}, AgreesOn stop (Labelled root view) L
      (mountToggles s state id node frame i toggles)
      (mountToggles (s.through caller outcome) state id node frame i
        (toggles.map (View.Toggle.recode code))) := by
  induction toggles with
  | nil => exact fun _ _ => .pure trivial
  | cons t r ih =>
    intro i L
    rw [List.forall_mem_cons] at htoggles
    refine (agrees_evaluate hs state htoggles.1).seq fun v _ _ => ?_
    refine (agrees_touchCell (by simp)).seq fun _ _ _ => .ite (fun _ => ?_) fun _ => ?_
    · exact (agrees_modifyAttrs node _).seq fun _ _ _ => ih htoggles.2 (i + 1)
    · exact ih htoggles.2 (i + 1)

end

theorem agrees_mountHandlers {frame : Frame} (id : BlockId) (node : Dom.NodeId)
    (handlers : List View.Handler) (hhandlers : ∀ h ∈ handlers, Stands view true h.binding frame) :
    ∀ {L : List Label}, AgreesOn stop (Labelled root view) L (mountHandlers id node frame handlers)
      (mountHandlers id node frame handlers) := by
  induction handlers with
  | nil => exact .pure trivial
  | cons h r ih =>
    intro L
    rw [List.forall_mem_cons] at hhandlers
    refine (agrees_onDoc _ fun d x hx => ?_).seq fun l _ _ => ?_
    · rcases List.mem_append.1 hx with hx | hx
      · exact .inl hx
      · obtain rfl := List.mem_singleton.1 hx
        exact .inr hhandlers.1
    · exact (agrees_touchCell (by simp)).seq fun _ _ _ => ih hhandlers.2

theorem agrees_parentOf (anchor : Dom.NodeId) :
    AgreesOn stop (Labelled root view) L (parentOf anchor) (parentOf anchor) := by
  refine Agrees.getDoc.seq fun doc _ _ => ?_
  cases (doc.node anchor).parent with
  | none => exact .halt _
  | some p => exact .pure trivial

theorem agrees_clear {i : Nat} {branches : List View.Branch} {other : View.Otherwise}
    {locals : List Text} {id : BlockId} (h : L[id]? = some ⟨.node (.cond i branches other), locals⟩) :
    AgreesOn stop (Labelled root view) L (clear id branches other)
      (clear id (View.recodeBranches code branches) (other.recode code)) := by
  unfold clear
  refine (agrees_getCell h).bind fun cell L₁ h₁ hcell => ?_
  cases hshown : cell.shown with
  | none => exact .pure trivial
  | some p =>
    obtain ⟨key, b⟩ := p
    obtain ⟨n, hn, hb⟩ := hcell.1.below key b hshown
    have hhide : ∀ L₂, L₁ <+: L₂ → AgreesOn stop (Labelled root view) L₂
        (modifyCell id fun c => { c with shown := none })
        (modifyCell id fun c => { c with shown := none }) :=
      fun L₂ h₂ => agrees_hide (getElem?_grown (h₁.trans h₂) h)
    dsimp only
    rw [View.length_recodeBranches, destroyBranch_recode, destroyOtherwise_recode]
    refine .ite (fun hkey => ?_) fun hkey => ?_
    · exact (agrees_destroyBranch branches ((if_pos hkey).mp hn) hb).seq fun _ L₂ h₂ => hhide L₂ h₂
    · exact (agrees_destroyOtherwise other ((if_neg hkey).mp hn) hb).seq fun _ L₂ h₂ => hhide L₂ h₂

/-- The rounds of a loop get their blocks one after another. -/
theorem agrees_rounds (hs : s.Spares stop root view code outcome) {state : Dict Value} {i : Nat}
    {list : View.Binding} {item index : Text} {body : View.Node} {locals : List Text} {id : BlockId}
    {frame : Frame} (anchor : Dom.NodeId)
    (h : L[id]? = some ⟨.node (.each i list item index body), locals⟩)
    (hinside : Label.Inside view ⟨.node (.each i list item index body), locals⟩)
    (hframe : frame.Exact locals) {render render' : BlockId → Dom.NodeId → Run (Stage σ) Unit}
    (hrender : ∀ (L' : List Label) (child : BlockId) (p : Dom.NodeId),
      L'[child]? = some ⟨.node body, View.loopNames item index locals⟩ →
      AgreesOn stop (Labelled root view) L' (render child p) (render' child p)) :
    AgreesOn stop (Labelled root view) L
      (rounds s state id anchor frame list item index body render)
      (rounds (s.through caller outcome) state id anchor frame (list.recode code) item index
        (body.recode code) render') := by
  have hlist : Stands view false list frame := hinside.stands hframe List.mem_cons_self
  have hbody : ∀ u ∈ body.uses (View.loopNames item index locals), u ∈ View.usesAll [] view :=
    fun u hu => hinside u (List.mem_cons_of_mem _ hu)
  unfold rounds
  refine (agrees_items hs state hlist).seq fun vs L₁ h₁ => .loop _ fun p _ L₂ h₂ => ?_
  refine (agrees_parentOf anchor).seq fun parent L₃ h₃ => ?_
  rw [create_recode]
  refine (agrees_create (hframe.round item index p.2 p.1) body hbody).bind fun child L₄ h₄ hchild => ?_
  -- The label of the loop says of its rounds that they stand for the body inside the loop.
  refine (hrender L₄ child parent hchild).seq fun _ L₅ h₅ => agrees_modifyCell fun l c hl hc => ?_
  have hid := getElem?_grown (h₁.trans (h₂.trans (h₃.trans (h₄.trans h₅)))) h
  obtain rfl := Option.some.inj (hid.symm.trans hl)
  refine ⟨hc.frame, fun k hk => ?_⟩
  rcases List.mem_append.1 hk with hk | hk
  · exact hc.below k hk
  · rw [List.mem_singleton.1 hk]
    exact getElem?_grown h₅ hchild

/-! ### Mounting -/

/-- What a choice shows gets a block, which is mounted. -/
theorem agrees_showBody {state : Dict Value} {body : View.Node}
    (hmount : ∀ {L : List Label} {locals : List Text} {id : BlockId},
      L[id]? = some ⟨.node body, locals⟩ → ∀ (parent : Dom.NodeId) (anchor : Option Dom.NodeId),
      AgreesOn stop (Labelled root view) L (mount s state id parent anchor body)
        (mount (s.through caller outcome) state id parent anchor (body.recode code)))
    {i : Nat} {branches : List View.Branch} {other : View.Otherwise} {locals : List Text}
    {id : BlockId} {frame : Frame} (h : L[id]? = some ⟨.node (.cond i branches other), locals⟩)
    (hframe : frame.Exact locals) (hin : ∀ u ∈ body.uses locals, u ∈ View.usesAll [] view)
    (anchor : Dom.NodeId) {key : Nat} (hshown : ShownAt branches other key body) :
    AgreesOn stop (Labelled root view) L
      (do
        let b ← create frame body
        modifyCell id fun c => { c with shown := some (key, b) }
        mount s state b (← parentOf anchor) (some anchor) body)
      (do
        let b ← create frame (body.recode code)
        modifyCell id fun c => { c with shown := some (key, b) }
        mount (s.through caller outcome) state b (← parentOf anchor) (some anchor)
          (body.recode code)) := by
  rw [create_recode]
  refine (agrees_create hframe body hin).bind fun b L₁ h₁ hb => ?_
  refine .seq (agrees_modifyCell fun l c hl hc => ?_) fun _ L₂ h₂ => ?_
  · obtain rfl := Option.some.inj ((getElem?_grown h₁ h).symm.trans hl)
    refine ⟨hc.frame, fun key' b' hkey => ?_⟩
    obtain ⟨rfl, rfl⟩ := Prod.mk.inj (Option.some.inj hkey)
    exact ⟨body, hshown, hb⟩
  · exact (agrees_parentOf anchor).seq fun p L₃ h₃ =>
      hmount (getElem?_grown (h₂.trans h₃) hb) p (some anchor)

mutual

theorem agrees_mount (hs : s.Spares stop root view code outcome) (state : Dict Value) :
    ∀ (n : View.Node) {L : List Label} {locals : List Text} {id : BlockId},
    L[id]? = some ⟨.node n, locals⟩ → ∀ (parent : Dom.NodeId) (anchor : Option Dom.NodeId),
    AgreesOn stop (Labelled root view) L (mount s state id parent anchor n)
      (mount (s.through caller outcome) state id parent anchor (n.recode code))
  | .fixed _ value, _, _, id, h, parent, anchor => by
    refine (agrees_getCell h).bind fun cell L₁ _ _ => .ite (fun _ => .pure trivial) fun _ => ?_
    exact (agrees_ownNode id _ fun _ => rfl).seq fun _ _ _ => agrees_insertNode _ _ _
  | .text _ b, _, _, id, h, parent, anchor => by
    refine (agrees_getCell h).bind fun cell L₁ _ ⟨hcell, hin⟩ =>
      .ite (fun _ => .pure trivial) fun _ => ?_
    have hb : Stands view false b cell.frame := hin.stands hcell.frame List.mem_cons_self
    refine (agrees_evaluate hs state hb).seq fun v _ _ => ?_
    exact (agrees_ownNode id _ fun _ => rfl).seq fun _ _ _ => agrees_insertNode _ _ _
  | .elem _ tag attrs toggles handlers children, _, locals, id, h, parent, anchor => by
    refine (agrees_getCell h).bind fun cell L₁ _ ⟨hcell, hin⟩ =>
      .ite (fun _ => .pure trivial) fun _ => ?_
    have hattrs : ∀ a ∈ View.boundAttrs attrs, Stands view false a.2 cell.frame := fun a ha =>
      hin.stands hcell.frame (List.mem_append_left _ (List.mem_map_of_mem ha))
    have htoggles : ∀ t ∈ toggles, Stands view false t.binding cell.frame := fun t ht =>
      hin.stands hcell.frame
        (List.mem_append_right _ (List.mem_append_left _ (List.mem_map_of_mem ht)))
    have hhandlers : ∀ x ∈ handlers, Stands view true x.binding cell.frame := fun x hx =>
      hin.stands hcell.frame (List.mem_append_right _
        (List.mem_append_right _ (List.mem_append_left _ (List.mem_map_of_mem hx))))
    dsimp only
    rw [View.fixedAttrs_recode, View.boundAttrs_recode, List.map_map, List.map_map]
    refine (agrees_ownNode id _ fun _ => rfl).seq fun n L₂ h₂ => ?_
    refine (agrees_modifyAttrs n _).seq fun _ L₃ h₃ => ?_
    refine (agrees_touchCell (by simp)).seq fun _ L₄ h₄ => ?_
    refine (agrees_mountAttrs hs state id n _ hattrs 0).seq fun _ L₅ h₅ => ?_
    refine (agrees_touchCell (by simp)).seq fun _ L₆ h₆ => ?_
    refine (agrees_mountToggles hs state id n _ htoggles 0).seq fun _ L₇ h₇ => ?_
    refine (agrees_mountHandlers id n _ hhandlers).seq fun _ L₈ h₈ => ?_
    -- The children were labelled when their element was made, and labels do not change.
    have hkids := forall₂_mono (h₂.trans (h₃.trans (h₄.trans (h₅.trans (h₆.trans (h₇.trans h₈))))))
      hcell.below
    exact (agrees_mountAll hs state children hkids n none).seq fun _ _ _ => agrees_insertNode _ _ _
  | .cond _ branches other, _, locals, id, h, parent, anchor => by
    refine (agrees_getCell h).bind fun cell L₁ h₁ ⟨hcell, hin⟩ =>
      .ite (fun _ => .pure trivial) fun _ => ?_
    refine (agrees_ownNode id _ fun _ => rfl).seq fun n L₂ h₂ => ?_
    refine (agrees_insertNode _ _ _).seq fun _ L₃ h₃ => ?_
    refine (agrees_select hs state other (hin.tests hcell.frame)).seq fun key L₄ h₄ => ?_
    have hid := getElem?_grown (h₁.trans (h₂.trans (h₃.trans h₄))) h
    refine (agrees_clear hid).seq fun _ L₅ h₅ => ?_
    have hid := getElem?_grown h₅ hid
    cases key with
    | none => exact .pure trivial
    | some k =>
      dsimp only
      rw [View.length_recodeBranches]
      refine .ite (fun hk => ?_) fun hk => ?_
      · exact agrees_showBranch hs state branches hid hcell.frame
          (fun u hu => hin u (List.mem_append_left _ hu)) n fun m hm => (if_pos hk).mpr hm
      · exact agrees_showOtherwise hs state other hid hcell.frame
          (fun u hu => hin u (List.mem_append_right _ hu)) n fun m hm => (if_neg hk).mpr hm
  | .each _ list item index body, _, locals, id, h, parent, anchor => by
    refine (agrees_getCell h).bind fun cell L₁ h₁ ⟨hcell, hin⟩ =>
      .ite (fun _ => .pure trivial) fun _ => ?_
    refine (agrees_ownNode id _ fun _ => rfl).seq fun n L₂ h₂ => ?_
    refine (agrees_insertNode _ _ _).seq fun _ L₃ h₃ => ?_
    have hid := getElem?_grown (h₁.trans (h₂.trans h₃)) h
    exact agrees_rounds hs n hid hin hcell.frame fun L' child p hchild =>
      agrees_mount hs state body hchild p (some n)
  | .fragment _ children, _, locals, id, h, parent, anchor => by
    refine (agrees_getCell h).bind fun cell L₁ h₁ ⟨hcell, hin⟩ =>
      .ite (fun _ => .pure trivial) fun _ => ?_
    refine (agrees_touchCell (by simp)).seq fun _ L₂ h₂ => ?_
    refine (agrees_ownNode id _ fun _ => rfl).seq fun n L₃ h₃ => ?_
    refine (agrees_insertNode _ _ _).seq fun _ L₄ h₄ => ?_
    exact agrees_mountAll hs state children (forall₂_mono (h₂.trans (h₃.trans h₄)) hcell.below)
      parent (some n)

theorem agrees_mountAll (hs : s.Spares stop root view code outcome) (state : Dict Value) :
    ∀ (ns : List View.Node) {L : List Label} {locals : List Text} {ids : List BlockId},
    List.Forall₂ (fun id n => L[id]? = some ⟨.node n, locals⟩) ids ns →
    ∀ (parent : Dom.NodeId) (anchor : Option Dom.NodeId), AgreesOn stop (Labelled root view) L
      (mountAll s state ids parent anchor ns)
      (mountAll (s.through caller outcome) state ids parent anchor (View.recodeAll code ns))
  | [], _, _, _, _, _, _ => .pure trivial
  | n :: r, _, _, _, .cons hid hrest, parent, anchor =>
    (agrees_mount hs state n hid parent anchor).seq fun _ _ hL =>
      agrees_mountAll hs state r (forall₂_mono hL hrest) parent anchor

theorem agrees_showBranch (hs : s.Spares stop root view code outcome) (state : Dict Value) :
    ∀ (bs : List View.Branch) {L : List Label} {i : Nat} {branches : List View.Branch}
    {other : View.Otherwise} {locals : List Text} {id : BlockId} {frame : Frame},
    L[id]? = some ⟨.node (.cond i branches other), locals⟩ → frame.Exact locals →
    (∀ u ∈ View.usesBranches locals bs, u ∈ View.usesAll [] view) → ∀ (anchor : Dom.NodeId)
    {key k : Nat}, (∀ n, bs[k]?.map bodyOf = some n → ShownAt branches other key n) →
    AgreesOn stop (Labelled root view) L (showBranch s state id anchor frame key k bs)
      (showBranch (s.through caller outcome) state id anchor frame key k
        (View.recodeBranches code bs))
  | [], _, _, _, _, _, _, _, _, _, _, _, _, _, _ => .pure trivial
  | .mk _ body :: _, _, _, _, _, _, _, _, h, hframe, hin, anchor, _, 0, hshown =>
    agrees_showBody (agrees_mount hs state body) h hframe
      (fun u hu => hin u (List.mem_append_left _ (List.mem_cons_of_mem _ hu))) anchor
      (hshown body rfl)
  | _ :: r, _, _, _, _, _, _, _, h, hframe, hin, anchor, _, _ + 1, hshown =>
    agrees_showBranch hs state r h hframe (fun u hu => hin u (List.mem_append_right _ hu)) anchor
      hshown

theorem agrees_showOtherwise (hs : s.Spares stop root view code outcome) (state : Dict Value) :
    ∀ (o : View.Otherwise) {L : List Label} {i : Nat} {branches : List View.Branch}
    {other : View.Otherwise} {locals : List Text} {id : BlockId} {frame : Frame},
    L[id]? = some ⟨.node (.cond i branches other), locals⟩ → frame.Exact locals →
    (∀ u ∈ o.uses locals, u ∈ View.usesAll [] view) → ∀ (anchor : Dom.NodeId) {key : Nat},
    (∀ n, o = .body n → ShownAt branches other key n) → AgreesOn stop (Labelled root view) L
      (showOtherwise s state id anchor frame key o)
      (showOtherwise (s.through caller outcome) state id anchor frame key (o.recode code))
  | .nothing, _, _, _, _, _, _, _, _, _, _, _, _, _ => .pure trivial
  | .body n, _, _, _, _, _, _, _, h, hframe, hin, anchor, _, hshown =>
    agrees_showBody (agrees_mount hs state n) h hframe hin anchor (hshown n rfl)

end

/-! ### Patching -/

section

include hs

theorem agrees_swap (state : Dict Value) {i : Nat} {branches : List View.Branch}
    {other : View.Otherwise} {locals : List Text} {id : BlockId} {frame : Frame}
    (h : L[id]? = some ⟨.node (.cond i branches other), locals⟩) (hframe : frame.Exact locals)
    (hin : Label.Inside view ⟨.node (.cond i branches other), locals⟩) (anchor : Dom.NodeId)
    (key : Option Nat) : AgreesOn stop (Labelled root view) L
      (swap s state id anchor frame key branches other)
      (swap (s.through caller outcome) state id anchor frame key (View.recodeBranches code branches)
        (other.recode code)) := by
  refine (agrees_clear h).seq fun _ L₁ h₁ => ?_
  have hid := getElem?_grown h₁ h
  cases key with
  | none => exact .pure trivial
  | some k =>
    dsimp only
    rw [View.length_recodeBranches]
    refine .ite (fun hk => ?_) fun hk => ?_
    · exact agrees_showBranch hs state branches hid hframe
        (fun u hu => hin u (List.mem_append_left _ hu)) anchor fun n hn => (if_pos hk).mpr hn
    · exact agrees_showOtherwise hs state other hid hframe
        (fun u hu => hin u (List.mem_append_right _ hu)) anchor fun n hn => (if_neg hk).mpr hn

theorem agrees_patchAttrs (dirty : Mask) (state : Dict Value) {id : BlockId} {l : Label}
    (node : Dom.NodeId) {self self' : View.Node} (hself : self'.factoryName = self.factoryName)
    (bound : List (Text × View.Binding))
    (hbound : ∀ a ∈ bound, ⟨l.locals, false, a.2⟩ ∈ l.uses) :
    ∀ (i : Nat) {L : List Label}, L[id]? = some l → AgreesOn stop (Labelled root view) L
      (patchAttrs s dirty state id node self i bound)
      (patchAttrs (s.through caller outcome) dirty state id node self' i
        (bound.map fun a => (a.1, a.2.recode code))) := by
  induction bound with
  | nil => exact fun _ _ _ => .pure trivial
  | cons a r ih =>
    intro i L h
    rw [List.forall_mem_cons] at hbound
    have hrest : ∀ L', L <+: L' → AgreesOn stop (Labelled root view) L'
        (patchAttrs s dirty state id node self (i + 1) r)
        (patchAttrs (s.through caller outcome) dirty state id node self' (i + 1)
          (r.map fun a => (a.1, a.2.recode code))) :=
      fun L' hL => ih hbound.2 (i + 1) (getElem?_grown hL h)
    refine .ite (fun _ => ?_) fun _ => hrest L List.prefix_rfl
    refine (agrees_getCell h).bind fun cell L₁ h₁ ⟨hcell, hin⟩ => ?_
    refine (agrees_evaluate hs state (hin.stands hcell.frame hbound.1)).seq fun v L₂ h₂ => ?_
    have hid := getElem?_grown (h₁.trans h₂) h
    refine (agrees_getCell hid).bind fun cell' L₃ h₃ _ => .ite (fun _ => ?_) fun _ => ?_
    · exact hrest L₃ (h₁.trans (h₂.trans h₃))
    · refine (agrees_touchCell (by simp)).seq fun _ L₄ h₄ => ?_
      refine (agrees_modifyAttrs node _).seq fun _ L₅ h₅ => ?_
      have htrace : tracePatch (s.through caller outcome) self' dirty = tracePatch s self dirty := by
        unfold tracePatch
        rw [hself]
        rfl
      rw [htrace]
      exact (Agrees.trace _ _ _).seq fun _ L₆ h₆ =>
        hrest L₆ (h₁.trans (h₂.trans (h₃.trans (h₄.trans (h₅.trans h₆)))))

theorem agrees_patchToggles (dirty : Mask) (state : Dict Value) {id : BlockId} {l : Label}
    (node : Dom.NodeId) (toggles : List View.Toggle)
    (htoggles : ∀ t ∈ toggles, ⟨l.locals, false, t.binding⟩ ∈ l.uses) :
    ∀ (i : Nat) {L : List Label}, L[id]? = some l → AgreesOn stop (Labelled root view) L
      (patchToggles s dirty state id node i toggles)
      (patchToggles (s.through caller outcome) dirty state id node i
        (toggles.map (View.Toggle.recode code))) := by
  induction toggles with
  | nil => exact fun _ _ _ => .pure trivial
  | cons t r ih =>
    intro i L h
    rw [List.forall_mem_cons] at htoggles
    have hrest : ∀ L', L <+: L' → AgreesOn stop (Labelled root view) L'
        (patchToggles s dirty state id node (i + 1) r)
        (patchToggles (s.through caller outcome) dirty state id node (i + 1)
          (r.map (View.Toggle.recode code))) :=
      fun L' hL => ih htoggles.2 (i + 1) (getElem?_grown hL h)
    refine .ite (fun _ => ?_) fun _ => hrest L List.prefix_rfl
    refine (agrees_getCell h).bind fun cell L₁ h₁ ⟨hcell, hin⟩ => ?_
    refine (agrees_evaluate hs state (hin.stands hcell.frame htoggles.1)).seq fun v L₂ h₂ => ?_
    have hid := getElem?_grown (h₁.trans h₂) h
    refine (agrees_getCell hid).bind fun cell' L₃ h₃ _ => ?_
    cases cell'.toggles[i]? with
    -- A toggle that was never mounted stops the run, at either site.
    | none => exact .seq (.halt _) fun _ L₄ h₄ => hrest L₄ (h₁.trans (h₂.trans (h₃.trans h₄)))
    | some was =>
      refine .ite (fun _ => ?_) fun _ => hrest L₃ (h₁.trans (h₂.trans h₃))
      refine (agrees_touchCell (by simp)).seq fun _ L₄ h₄ => ?_
      exact (agrees_modifyAttrs node _).seq fun _ L₅ h₅ =>
        hrest L₅ (h₁.trans (h₂.trans (h₃.trans (h₄.trans h₅))))

end

mutual

theorem agrees_patch (hs : s.Spares stop root view code outcome) (dirty : Mask)
    (state : Dict Value) :
    ∀ (n : View.Node) {L : List Label} {locals : List Text} {id : BlockId},
    L[id]? = some ⟨.node n, locals⟩ → AgreesOn stop (Labelled root view) L
      (patch s dirty state id n)
      (patch (s.through caller outcome) dirty state id (n.recode code))
  | .fixed .., _, _, _, _ => .pure trivial
  | .text _ b, _, _, id, h => by
    refine (agrees_getCell h).bind fun cell L₁ _ ⟨hcell, hin⟩ => ?_
    have hb : Stands view false b cell.frame := hin.stands hcell.frame List.mem_cons_self
    cases cell.node with
    | none => exact .pure trivial
    | some n =>
      refine .ite (fun _ => .pure trivial) fun _ => ?_
      refine (agrees_evaluate hs state hb).seq fun v _ _ => Agrees.getDoc.seq fun doc _ _ => ?_
      refine .ite (fun _ => .pure trivial) fun _ => ?_
      exact (agrees_modifyDoc _ (by exact fun _ _ hx => hx)).seq fun _ _ _ => Agrees.trace _ _ _
  | .elem _ _ attrs toggles _ children, _, locals, id, h => by
    refine (agrees_getCell h).bind fun cell L₁ h₁ ⟨hcell, hin⟩ => ?_
    have hid := getElem?_grown h₁ h
    cases cell.node with
    | none => exact .pure trivial
    | some n =>
      refine .ite (fun _ => .pure trivial) fun _ => ?_
      rw [View.boundAttrs_recode]
      refine (agrees_patchAttrs hs dirty state n (by rfl) _ (fun a ha => ?_) 0 hid).seq
        fun _ L₂ h₂ => ?_
      · exact List.mem_append_left _ (List.mem_map_of_mem ha)
      refine (agrees_patchToggles hs dirty state n _ (fun t ht => ?_) 0
        (getElem?_grown h₂ hid)).seq fun _ L₃ h₃ => ?_
      · exact List.mem_append_right _ (List.mem_append_left _ (List.mem_map_of_mem ht))
      exact agrees_patchAll hs dirty state children (forall₂_mono (h₂.trans h₃) hcell.below)
  | .cond i branches other, L, locals, id, h => by
    -- What is shown is read again after the conditions, which may have made other blocks.
    have hshown : ∀ L', L <+: L' → AgreesOn stop (Labelled root view) L' (do
        match (← Block.getCell id).shown with
        | none => return
        | some (key, b) =>
          if key < branches.length then patchBranch s dirty state b key branches
          else patchOtherwise s dirty state b other)
        (do
        match (← Block.getCell id).shown with
        | none => return
        | some (key, b) =>
          if key < (View.recodeBranches code branches).length then
            patchBranch (s.through caller outcome) dirty state b key
              (View.recodeBranches code branches)
          else patchOtherwise (s.through caller outcome) dirty state b (other.recode code)) := by
      intro L' hL
      refine (agrees_getCell (getElem?_grown hL h)).bind fun cell L₁ _ ⟨hcell, _⟩ => ?_
      cases hcase : cell.shown with
      | none => exact .pure trivial
      | some p =>
        obtain ⟨key, b⟩ := p
        obtain ⟨n, hn, hb⟩ := hcell.below key b hcase
        dsimp only
        rw [View.length_recodeBranches]
        refine .ite (fun hkey => ?_) fun hkey => ?_
        · exact agrees_patchBranch hs dirty state branches ((if_pos hkey).mp hn) hb
        · exact agrees_patchOtherwise hs dirty state other ((if_neg hkey).mp hn) hb
    refine (agrees_getCell h).bind fun cell L₁ h₁ ⟨hcell, hin⟩ => ?_
    cases cell.node with
    | none => exact .pure trivial
    | some n =>
      refine .ite (fun _ => .pure trivial) fun _ => ?_
      have hany : (View.testsOf (View.recodeBranches code branches)).any
          ((s.through caller outcome).isDirty dirty) = (View.testsOf branches).any (s.isDirty dirty) := by
        rw [View.testsOf_recode, List.any_map]
        rfl
      dsimp only
      rw [hany]
      refine .ite (fun _ => ?_) fun _ => hshown L₁ h₁
      refine (agrees_select hs state other (hin.tests hcell.frame)).seq fun key L₂ h₂ => ?_
      have hid := getElem?_grown (h₁.trans h₂) h
      refine (agrees_getCell hid).bind fun cell' L₃ h₃ _ => ?_
      refine .ite (fun _ => hshown L₃ (h₁.trans (h₂.trans h₃))) fun _ => ?_
      refine (agrees_swap hs state (getElem?_grown h₃ hid) hcell.frame hin n key).seq
        fun _ _ _ => ?_
      exact (Agrees.trace _ _ _).seq fun _ _ _ => .pure trivial
  | .each _ list item index body, _, locals, id, h => by
    refine (agrees_getCell h).bind fun cell L₁ h₁ ⟨hcell, hin⟩ => ?_
    have hid := getElem?_grown h₁ h
    cases cell.node with
    | none => exact .pure trivial
    | some n =>
      refine .ite (fun _ => .pure trivial) fun _ => .ite (fun _ => ?_) fun _ => ?_
      · refine .seq (.loop _ fun child hchild L' h' => ?_) fun _ L₂ h₂ => ?_
        · rw [destroy_recode]
          exact agrees_destroy body (getElem?_grown h' (hcell.below child hchild))
        have hid := getElem?_grown h₂ hid
        refine (agrees_empty hid).seq fun _ L₃ h₃ => ?_
        have hid := getElem?_grown h₃ hid
        refine (agrees_rounds hs n hid hin hcell.frame fun L' child p hchild =>
          agrees_mount hs state body hchild p (some n)).seq fun _ _ _ => Agrees.trace _ _ _
      · exact .loop _ fun child hchild L' h' =>
          agrees_patch hs dirty state body (getElem?_grown h' (hcell.below child hchild))
  | .fragment _ children, _, locals, id, h => by
    refine (agrees_getCell h).bind fun cell L₁ h₁ ⟨hcell, _⟩ =>
      .ite (fun _ => .pure trivial) fun _ => ?_
    exact agrees_patchAll hs dirty state children hcell.below

theorem agrees_patchAll (hs : s.Spares stop root view code outcome) (dirty : Mask)
    (state : Dict Value) :
    ∀ (ns : List View.Node) {L : List Label} {locals : List Text} {ids : List BlockId},
    List.Forall₂ (fun id n => L[id]? = some ⟨.node n, locals⟩) ids ns →
    AgreesOn stop (Labelled root view) L (patchAll s dirty state ids ns)
      (patchAll (s.through caller outcome) dirty state ids (View.recodeAll code ns))
  | [], _, _, _, _ => .pure trivial
  | n :: r, _, _, _, .cons hid hrest =>
    (agrees_patch hs dirty state n hid).seq fun _ _ hL =>
      agrees_patchAll hs dirty state r (forall₂_mono hL hrest)

theorem agrees_patchBranch (hs : s.Spares stop root view code outcome) (dirty : Mask)
    (state : Dict Value) : ∀ (branches : List View.Branch) {L : List Label} {locals : List Text}
    {id : BlockId} {key : Nat} {n : View.Node}, branches[key]?.map bodyOf = some n →
    L[id]? = some ⟨.node n, locals⟩ → AgreesOn stop (Labelled root view) L
      (patchBranch s dirty state id key branches)
      (patchBranch (s.through caller outcome) dirty state id key (View.recodeBranches code branches))
  | [], _, _, _, _, _, _, _ => .pure trivial
  | .mk _ body :: _, _, _, _, 0, n, hn, h => by
    obtain rfl := Option.some.inj hn
    exact agrees_patch hs dirty state body h
  | _ :: r, _, _, _, _ + 1, _, hn, h => agrees_patchBranch hs dirty state r hn h

theorem agrees_patchOtherwise (hs : s.Spares stop root view code outcome) (dirty : Mask)
    (state : Dict Value) : ∀ (other : View.Otherwise) {L : List Label} {locals : List Text}
    {id : BlockId} {n : View.Node}, other = .body n → L[id]? = some ⟨.node n, locals⟩ →
    AgreesOn stop (Labelled root view) L (patchOtherwise s dirty state id other)
      (patchOtherwise (s.through caller outcome) dirty state id (other.recode code))
  | .nothing, _, _, _, _, hn, _ => by cases hn
  | .body body, _, _, _, _, hn, h => by
    obtain rfl := View.Otherwise.body.inj hn
    exact agrees_patch hs dirty state body h

end

/-! ### Whole views -/

theorem agrees_createPart {part : Part} {locals : List Text} (hin : Label.Inside view ⟨part, locals⟩)
    {frame : Frame} (hframe : frame.Exact locals) :
    Agrees stop (Labelled root view) L (fun L' id => L'[id]? = some ⟨part, locals⟩)
      (part.create frame)
      ((part.recode code).create frame) := by
  cases part with
  | node n =>
    unfold Part.recode Part.create
    dsimp only
    rw [create_recode]
    exact agrees_create hframe n hin
  | whole ns =>
    unfold Part.recode Part.create
    dsimp only
    rw [createAll_recode]
    exact (agrees_createAll hframe ns hin).bind fun ids L' _ hids => agrees_newCell ⟨hframe, hids⟩ hin

section

variable {part : Part} {locals : List Text} {id : BlockId} (h : L[id]? = some ⟨part, locals⟩)

include h

theorem agrees_mountPart (hs : s.Spares stop root view code outcome) (state : Dict Value)
    (parent : Dom.NodeId) (anchor : Option Dom.NodeId) :
    AgreesOn stop (Labelled root view) L (part.mount s state id parent anchor)
      ((part.recode code).mount (s.through caller outcome) state id parent anchor) := by
  cases part with
  | node n => exact agrees_mount hs state n h parent anchor
  | whole ns =>
    refine (agrees_getCell h).bind fun cell L₁ _ ⟨hcell, _⟩ => .ite (fun _ => .pure trivial) fun _ => ?_
    exact (agrees_touchCell (by simp)).seq fun _ L₂ h₂ =>
      agrees_mountAll hs state ns (forall₂_mono h₂ hcell.below) parent anchor

theorem agrees_patchPart (hs : s.Spares stop root view code outcome) (dirty : Mask)
    (state : Dict Value) : AgreesOn stop (Labelled root view) L (part.patch s dirty state id)
      ((part.recode code).patch (s.through caller outcome) dirty state id) := by
  cases part with
  | node n => exact agrees_patch hs dirty state n h
  | whole ns =>
    refine (agrees_getCell h).bind fun cell L₁ _ ⟨hcell, _⟩ => .ite (fun _ => .pure trivial) fun _ => ?_
    exact agrees_patchAll hs dirty state ns hcell.below

theorem agrees_destroyPart :
    AgreesOn stop (Labelled root view) L (part.destroy id) ((part.recode code).destroy id) := by
  cases part with
  | node n =>
    unfold Part.recode Part.destroy
    dsimp only
    rw [destroy_recode]
    exact agrees_destroy n h
  | whole ns =>
    refine (agrees_getCell h).bind fun cell L₁ _ ⟨hcell, _⟩ => .ite (fun _ => .pure trivial) fun _ => ?_
    refine (agrees_touchCell (by simp)).seq fun _ L₂ h₂ => ?_
    rw [destroyAll_recode]
    exact agrees_destroyAll ns (forall₂_mono h₂ hcell.below)

end

/-! ### Events -/

theorem Agrees.frameScope {stop : Halt → Prop} {T : List Label → Stage σ → Prop} (store : Store)
    (frame : Frame) : ∀ {L : List Label},
      AgreesOn stop T L (frameScope store frame) (frameScope store frame) := by
  induction frame with
  | nil => exact .look fun _ => ⟨_, _, rfl, rfl⟩
  | cons vars outer ih => exact ih.seq fun _ _ _ => .look fun _ => ⟨_, _, rfl, rfl⟩

/-- An evaluator that goes the same way as that of a site. -/
structure Site.Calls (stop : Halt → Prop) (s : Site σ) (root : σ → Option BlockId)
    (view : List View.Node) (caller : Caller (Stage σ)) : Prop where
  eval : ∀ L env e, AgreesOn stop (Labelled root view) L (eval s.caller env e).run
    (Reactive.eval caller env e).run
  call : ∀ L f args, AgreesOn stop (Labelled root view) L (s.caller.call f args).run
    (caller.call f args).run

/-- What a handler evaluates to is called with the event if it is a function. -/
theorem agrees_answer (hc : s.Calls stop root view caller) (env : Nat) (e : Expr) (event : Value) :
    AgreesOn stop (Labelled root view) L
      (do
        match ← eval s.caller env e with
        | .func f => let _ ← s.caller.call f [event]
        | _ => pure () : Eval (Stage σ) Unit).run
      (do
        match ← eval caller env e with
        | .func f => let _ ← caller.call f [event]
        | _ => pure () : Eval (Stage σ) Unit).run := by
  rw [ExceptT.run_bind, ExceptT.run_bind]
  refine (hc.eval L env _).seq fun r L' _ => ?_
  cases r with
  | error e => exact .pure trivial
  | ok v =>
    cases v with
    | func f =>
      show AgreesOn stop _ _
        (s.caller.call f [event] >>= fun _ => pure () : Eval (Stage σ) Unit).run
        (caller.call f [event] >>= fun _ => pure () : Eval (Stage σ) Unit).run
      rw [ExceptT.run_bind, ExceptT.run_bind]
      refine (hc.call L' f _).seq fun r _ _ => ?_
      cases r with
      | ok _ => exact .pure trivial
      | error e => exact .pure trivial
    | _ => exact .pure trivial

theorem agrees_handle (hc : s.Calls stop root view caller) (a : Action) (event : Value) :
    AgreesOn stop (Labelled root view) L (s.handle a event)
      ((s.through caller outcome).handle a event) := by
  refine (Agrees.frameScope _ _).seq fun outer _ _ => ?_
  refine .seq (.look fun _ => ⟨_, _, rfl, rfl⟩) fun env L' _ => ?_
  refine (agrees_answer hc env _ event).seq fun r _ _ => ?_
  cases r with
  | ok _ => exact .pure trivial
  | error e => exact Agrees.writeLog _ _

/-- An event that is sent to a node, with another way to handle it. -/
def dispatchBy (handle : Action → Value → Run (Stage σ) Unit)
    (batch : Run (Stage σ) Unit → Run (Stage σ) Unit) (target : Dom.NodeId) (type : Text)
    (detail : Value) : Run (Stage σ) Bool := do
  let act (_ : Dom.NodeId) (a : Action) : Run (Stage σ) Bool := do
    batch do handle a (eventValue (← getDoc) target type detail)
    return false
  Dom.Document.bubble getDoc type act (← getDoc).depth target

theorem dispatchBy_handle (s : Site σ) (batch : Run (Stage σ) Unit → Run (Stage σ) Unit)
    (target : Dom.NodeId) (type : Text) (detail : Value) :
    dispatchBy s.handle batch target type detail = s.dispatch batch target type detail := rfl

/-- The listeners of a document. -/
theorem agrees_getDoc : Agrees stop (Labelled root view) L
    (fun _ d => ∀ x ∈ d.listeners, Stands view true x.action.handler.binding x.action.frame)
    getDoc getDoc :=
  .step fun m hm => ⟨_, m, rfl, hm, hm.listeners⟩

/-- An event on its way up runs listeners in frames of their own loops. -/
theorem agrees_bubble (event : Text) {act act' : Dom.NodeId → Action → Run (Stage σ) Bool}
    (hact : ∀ L id a, Stands view true a.handler.binding a.frame →
      AgreesOn stop (Labelled root view) L (act id a) (act' id a)) :
    ∀ (depth : Nat) (id : Dom.NodeId) {L : List Label}, AgreesOn stop (Labelled root view) L
      (Dom.Document.bubble getDoc event act depth id)
      (Dom.Document.bubble getDoc event act' depth id) := by
  intro depth
  induction depth with
  | zero => exact fun _ _ => .pure trivial
  | succ depth ih =>
    intro id L
    refine agrees_getDoc.bind fun doc L₁ _ hdoc => ?_
    have hheard : ∀ (heard : List (Dom.Listener Action)),
        (∀ x ∈ heard, Stands view true x.action.handler.binding x.action.frame) →
        ∀ (stopped : Bool) {L : List Label}, AgreesOn stop (Labelled root view) L
          (forIn heard stopped fun l stopped => do
            if ← act id l.action then pure (.yield true) else pure (.yield stopped))
          (forIn heard stopped fun l stopped => do
            if ← act' id l.action then pure (.yield true) else pure (.yield stopped)) := by
      intro heard
      induction heard with
      | nil => exact fun _ stopped _ => .pure trivial
      | cons l r ihr =>
        intro hall stopped L
        rw [List.forall_mem_cons] at hall
        rw [List.forIn_cons, List.forIn_cons]
        refine .seq ((hact L id l.action hall.1).seq fun b _ _ => ?_) fun step _ _ => ?_
        · cases b <;> exact .pure trivial
        · cases step with
          | done b => exact .pure trivial
          | yield b => exact ihr hall.2 b
    have hlisteners : ∀ x ∈ doc.listenersAt id event,
        Stands view true x.action.handler.binding x.action.frame :=
      fun x hx => hdoc x (List.mem_filter.1 hx).1
    refine (hheard _ hlisteners false).seq fun stopped _ _ => .ite (fun _ => .pure trivial) fun _ => ?_
    refine Agrees.getDoc.seq fun doc' _ _ => ?_
    cases (doc'.node id).parent with
    | none => exact .pure trivial
    | some p => exact (ih p).seq fun _ _ _ => .pure trivial

/-- Events are handled in frames of the loops of their handlers. -/
theorem agrees_dispatchBy {handle handle' : Action → Value → Run (Stage σ) Unit}
    {batch batch' : Run (Stage σ) Unit → Run (Stage σ) Unit}
    (hhandle : ∀ L a event, Stands view true a.handler.binding a.frame →
      AgreesOn stop (Labelled root view) L (handle a event) (handle' a event))
    (hbatch : ∀ L x y, (∀ L', L <+: L' → AgreesOn stop (Labelled root view) L' x y) →
      AgreesOn stop (Labelled root view) L (batch x) (batch' y))
    (target : Dom.NodeId) (type : Text) (detail : Value) : AgreesOn stop (Labelled root view) L
      (dispatchBy handle batch target type detail) (dispatchBy handle' batch' target type detail) := by
  refine Agrees.getDoc.seq fun doc L₁ _ => agrees_bubble type (fun L' id a ha => ?_) _ _
  refine (hbatch L' _ _ fun L₂ _ => ?_).seq fun _ _ _ => .pure trivial
  exact Agrees.getDoc.seq fun doc L₃ _ => hhandle L₃ a _ ha

end

end Reactive.Block
