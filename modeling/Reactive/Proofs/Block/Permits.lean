/-
What the blocks of a view change.

A block writes attributes to nodes of the document only as the elements of its
view say: a fixed attribute, a value that a bound attribute has been evaluated
to, a class of a toggle.  Otherwise it changes blocks, and the places and texts
of nodes.  A relation between the machine before and after that permits this is
kept by the whole life of a block and by events.

* `Site.Shows` — a value that a binding can be evaluated to;
* `Site.Permits` — what a relation has to permit;
* `Site.Permits.keeping_mount`, `keeping_patch`, `keeping_destroy` — the life of
  a block;
* `Site.Permits.keeping_dispatch` — events;
* `Site.Confines` — what a relation has to allow that does not look at documents
  and blocks.
-/
import Reactive.Block.Event
import Reactive.Proofs.Eval.Keeps
import Reactive.Proofs.View.Every

namespace Reactive

section

variable {ω α β : Type} {E : Halt → Prop} {K : Machine ω → Machine ω → Prop}

/-! ### Computations one after another -/

theorem Keeping.bind (htrans : ∀ {m m' m'' : Machine ω}, K m m' → K m' m'' → K m m'')
    {x : Run ω α} {f : α → Run ω β} (hx : Keeping E K x) (hf : ∀ a, Keeping E K (f a)) :
    Keeping E K (x >>= f) := by
  intro m
  refine (hx m).bind fun a m' hm => ?_
  exact (hf a m').mono fun _ _ hm' => htrans hm hm'

end

/-! ### Attributes of nodes -/

namespace Dom.Node

@[simp] theorem attrs_put (y : Node) (n : NodeId) (anchor : Option NodeId) :
    (y.put n anchor).attrs = y.attrs := by
  cases anchor with
  | none => rfl
  | some a => grind [put, insertBefore]

@[simp] theorem attrs_drop (y : Node) (n : NodeId) : (y.drop n).attrs = y.attrs := by
  grind [drop]

end Dom.Node

namespace Dom.Document

variable {α : Type} (d : Document α)

theorem node_modifyNode (id n : NodeId) (f : Node → Node) :
    (d.modifyNode id f).node n = if id = n ∧ n < d.nodes.size then f (d.node n) else d.node n := by
  unfold node modifyNode
  simp only [Array.getD_eq_getD_getElem?, Array.getElem?_modify]
  by_cases hid : id = n
  · by_cases hn : n < d.nodes.size
    · simp [hid, hn]
    · simp [hid, hn]
  · simp [hid]

theorem attrs_modifyNode {f : Node → Node} (hf : ∀ x, (f x).attrs = x.attrs) (id n : NodeId) :
    ((d.modifyNode id f).node n).attrs = (d.node n).attrs := by
  rw [node_modifyNode]
  split
  · exact hf _
  · rfl

theorem attrs_modifyAttrs (id n : NodeId) (f : List (Text × Text) → List (Text × Text)) :
    ((d.modifyAttrs id f).node n).attrs =
      if id = n ∧ n < d.nodes.size then f (d.node n).attrs else (d.node n).attrs := by
  rw [modifyAttrs, node_modifyNode]
  split <;> rfl

/-- A new node has no attributes, like one that is not there. -/
theorem attrs_create (c : Content) (n : NodeId) :
    ((d.create c).2.node n).attrs = (d.node n).attrs := by
  unfold node create
  simp only [Array.getD_eq_getD_getElem?, Array.getElem?_push]
  split
  · rename_i hn
    rw [hn, Array.getElem?_eq_none (Nat.le_refl _)]
    rfl
  · rfl

theorem attrs_detach (id n : NodeId) : ((d.detach id).node n).attrs = (d.node n).attrs := by
  unfold detach
  split
  · rfl
  · exact (attrs_modifyNode _ (by simp) _ _).trans (attrs_modifyNode _ (by simp) _ _)

theorem attrs_insert (parent id : NodeId) (anchor : Option NodeId) (n : NodeId) :
    ((d.insert parent id anchor).node n).attrs = (d.node n).attrs := by
  unfold insert
  refine (attrs_modifyNode _ (by simp) _ _).trans ?_
  exact (attrs_modifyNode _ (by simp) _ _).trans (d.attrs_detach id n)

theorem attrs_setText (id : NodeId) (t : Text) (n : NodeId) :
    ((d.setText id t).node n).attrs = (d.node n).attrs := by
  unfold setText
  exact d.attrs_modifyNode (by simp) id n

theorem attrs_unlisten (ls : List Nat) (n : NodeId) :
    ((ls.foldl (fun d l => d.unlisten l) d).node n).attrs = (d.node n).attrs := by
  induction ls generalizing d with
  | nil => rfl
  | cons l r ih => exact ih (d.unlisten l)

theorem modifyAttrs_modifyAttrs (id : NodeId) (f g : List (Text × Text) → List (Text × Text)) :
    (d.modifyAttrs id f).modifyAttrs id g = d.modifyAttrs id fun as => g (f as) := by
  unfold modifyAttrs modifyNode
  simp only [Document.mk.injEq, and_true]
  ext1
  · simp
  · simp [Array.getElem_modify]
    split <;> rfl

end Dom.Document

variable {σ : Type}

/-- A machine with the attributes of a node of the document changed. -/
def Machine.withAttrs (m : Machine (Block.Stage σ)) (n : Dom.NodeId)
    (f : List (Text × Text) → List (Text × Text)) : Machine (Block.Stage σ) :=
  { m with host := { m.host with doc := m.host.doc.modifyAttrs n f } }

theorem Machine.withAttrs_withAttrs (m : Machine (Block.Stage σ)) (n : Dom.NodeId)
    (f g : List (Text × Text) → List (Text × Text)) :
    (m.withAttrs n f).withAttrs n g = m.withAttrs n fun as => g (f as) := by
  simp [withAttrs, Dom.Document.modifyAttrs_modifyAttrs]

namespace Block

variable {α β : Type} {A : View.Element → Prop} {E : Halt → Prop}
  {K : Machine (Stage σ) → Machine (Stage σ) → Prop}

/-- A value that a binding can be evaluated to. -/
def Site.Shows (s : Site σ) (b : View.Binding) (v : Value) : Prop :=
  ∃ (frame : Frame) (state : Dict Value) (m m' : Machine (Stage σ)),
    s.evaluate frame state b m = .ok (v, m')

/-- The elements of a part of a view. -/
def Part.elements : Part → List View.Element
  | .node n => n.elements
  | .whole ns => View.elementsAll ns

/-- A relation that looks at nothing but the attributes of nodes and what the owner keeps, that the
evaluations of a site keep, and that the attributes of some elements of views may change. -/
structure Site.Permits (s : Site σ) (A : View.Element → Prop) (E : Halt → Prop)
    (K : Machine (Stage σ) → Machine (Stage σ) → Prop) : Prop where
  range : E .outOfRange
  same : ∀ {m m' : Machine (Stage σ)}, m'.host.own = m.host.own →
    (∀ n, (m'.host.doc.node n).attrs = (m.host.doc.node n).attrs) → K m m'
  trans : ∀ {m m' m'' : Machine (Stage σ)}, K m m' → K m' m'' → K m m''
  outcome : ∀ state frame e, Keeping E K (s.outcome (.snapshot state) frame e)
  fixed : ∀ {el : View.Element}, A el → ∀ a ∈ View.fixedAttrs el.attrs, ∀ m n,
    K m (m.withAttrs n (Dom.setAttr a.1 a.2))
  bound : ∀ {el : View.Element}, A el → ∀ a ∈ View.boundAttrs el.attrs, ∀ v, s.Shows a.2 v →
    ∀ m n, K m (m.withAttrs n (applyAttr a.1 v))
  toggle : ∀ {el : View.Element}, A el → ∀ t ∈ el.toggles, ∀ m n on,
    K m (m.withAttrs n (Dom.toggleClass t.token on))

namespace Site.Permits

variable {s : Site σ}

theorem seq (hs : s.Permits A E K) {x : Run (Stage σ) α} {f : α → Run (Stage σ) β}
    (hx : Keeping E K x) (hf : ∀ a, Keeping E K (f a)) : Keeping E K (x >>= f) :=
  Keeping.bind (K := K) hs.trans hx hf

/-- A step that leaves the attributes and what the owner keeps alone. -/
theorem step (hs : s.Permits A E K) {x : Run (Stage σ) α}
    (hx : ∀ m, ∃ a m', x m = .ok (a, m') ∧ m'.host.own = m.host.own ∧
      ∀ n, (m'.host.doc.node n).attrs = (m.host.doc.node n).attrs) : Keeping E K x := by
  intro m
  obtain ⟨a, m', hrun, hown, hattrs⟩ := hx m
  exact (Run.after_of_ok hrun).2 (hs.same hown hattrs)

theorem ret (hs : s.Permits A E K) (a : α) : Keeping E K (pure a : Run (Stage σ) α) :=
  hs.step fun _ => ⟨_, _, rfl, rfl, fun _ => rfl⟩

theorem onDoc (hs : s.Permits A E K) {f : Dom.Document Action → α × Dom.Document Action}
    (hf : ∀ d n, ((f d).2.node n).attrs = (d.node n).attrs) :
    Keeping E K (onDoc f : Run (Stage σ) α) :=
  hs.step fun _ => ⟨_, _, rfl, rfl, fun n => hf _ n⟩

theorem modifyDoc (hs : s.Permits A E K) {f : Dom.Document Action → Dom.Document Action}
    (hf : ∀ d n, ((f d).node n).attrs = (d.node n).attrs) :
    Keeping E K (modifyDoc f : Run (Stage σ) Unit) :=
  hs.onDoc hf

theorem getDoc (hs : s.Permits A E K) : Keeping E K (getDoc : Run (Stage σ) _) :=
  hs.step fun _ => ⟨_, _, rfl, rfl, fun _ => rfl⟩

theorem getOwn (hs : s.Permits A E K) : Keeping E K (getOwn : Run (Stage σ) σ) :=
  hs.step fun _ => ⟨_, _, rfl, rfl, fun _ => rfl⟩

theorem getCell (hs : s.Permits A E K) (id : BlockId) :
    Keeping E K (getCell id : Run (Stage σ) Cell) :=
  hs.step fun _ => ⟨_, _, rfl, rfl, fun _ => rfl⟩

theorem modifyCell (hs : s.Permits A E K) (id : BlockId) (f : Cell → Cell) :
    Keeping E K (modifyCell id f : Run (Stage σ) Unit) :=
  hs.step fun _ => ⟨_, _, rfl, rfl, fun _ => rfl⟩

theorem newCell (hs : s.Permits A E K) (c : Cell) :
    Keeping E K (newCell c : Run (Stage σ) BlockId) :=
  hs.step fun _ => ⟨_, _, rfl, rfl, fun _ => rfl⟩

theorem writeLog (hs : s.Permits A E K) (voice : Voice) (t : Text) :
    Keeping E K (writeLog voice t : Run (Stage σ) Unit) :=
  hs.step fun _ => ⟨_, _, rfl, rfl, fun _ => rfl⟩

theorem trace (hs : s.Permits A E K) (t : Tracing) (tag detail : Text) :
    Keeping E K (t.write tag detail : Run (Stage σ) Unit) := by
  unfold Tracing.write
  split
  · exact hs.writeLog _ _
  · exact hs.ret ()

theorem stop (hs : s.Permits A E K) : Keeping E K (halt .outOfRange : Run (Stage σ) α) :=
  fun _ => hs.range

/-- The rounds of a loop over a list. -/
theorem loop (hs : s.Permits A E K) {f : β → Run (Stage σ) Unit} (xs : List β)
    (hf : ∀ x, Keeping E K (f x)) : Keeping E K (xs.forM f) := by
  induction xs with
  | nil => exact hs.ret ()
  | cons x r ih => exact hs.seq (hf x) fun _ => ih

/-! ### Creation and destruction -/

mutual

theorem keeping_create (hs : s.Permits A E K) (frame : Frame) :
    ∀ n : View.Node, Keeping E K (create frame n : Run (Stage σ) BlockId)
  | .elem _ _ _ _ _ children | .fragment _ children =>
    hs.seq (keeping_createAll hs frame children) fun _ => hs.newCell _
  | .fixed .. | .text .. | .cond .. | .each .. => hs.newCell _

theorem keeping_createAll (hs : s.Permits A E K) (frame : Frame) :
    ∀ ns : List View.Node, Keeping E K (createAll frame ns : Run (Stage σ) (List BlockId))
  | [] => hs.ret []
  | n :: r => hs.seq (keeping_create hs frame n) fun _ =>
    hs.seq (keeping_createAll hs frame r) fun _ => hs.ret _

end

theorem keeping_detachNode (hs : s.Permits A E K) (id : BlockId) :
    Keeping E K (detachNode id : Run (Stage σ) Unit) := by
  refine hs.seq (hs.getCell id) fun cell => ?_
  cases cell.node with
  | none => exact hs.ret ()
  | some n => exact hs.modifyDoc fun d i => d.attrs_detach n i

mutual

theorem keeping_destroy (hs : s.Permits A E K) :
    ∀ (n : View.Node) (id : BlockId), Keeping E K (destroy id n : Run (Stage σ) Unit)
  | .fixed .., id | .text .., id => by
    refine hs.seq (hs.getCell id) fun cell => ?_
    split
    · exact hs.ret ()
    · exact hs.seq (hs.modifyCell id _) fun _ => hs.keeping_detachNode id
  | .elem _ _ _ _ _ children, id => by
    refine hs.seq (hs.getCell id) fun cell => ?_
    split
    · exact hs.ret ()
    · refine hs.seq (hs.modifyCell id _) fun _ => ?_
      refine hs.seq (hs.modifyDoc fun d i => d.attrs_unlisten cell.listeners i) fun _ => ?_
      exact hs.seq (keeping_destroyAll hs children cell.children) fun _ => hs.keeping_detachNode id
  | .cond _ branches other, id => by
    have hforget : Keeping E K (do
        Block.modifyCell id fun c => { c with shown := none }
        detachNode id : Run (Stage σ) Unit) :=
      hs.seq (hs.modifyCell id _) fun _ => hs.keeping_detachNode id
    refine hs.seq (hs.getCell id) fun cell => ?_
    split
    · exact hs.ret ()
    · refine hs.seq (hs.modifyCell id _) fun _ => ?_
      cases cell.shown with
      | none => exact hs.keeping_detachNode id
      | some shown =>
        obtain ⟨key, b⟩ := shown
        dsimp only
        split
        · exact hs.seq (keeping_destroyBranch hs branches b key) fun _ => hforget
        · exact hs.seq (keeping_destroyOtherwise hs other b) fun _ => hforget
  | .each _ _ _ _ body, id => by
    refine hs.seq (hs.getCell id) fun cell => ?_
    split
    · exact hs.ret ()
    · refine hs.seq (hs.modifyCell id _) fun _ => ?_
      refine hs.seq (hs.loop _ fun child => keeping_destroy hs body child) fun _ => ?_
      exact hs.seq (hs.modifyCell id _) fun _ => hs.keeping_detachNode id
  | .fragment _ children, id => by
    refine hs.seq (hs.getCell id) fun cell => ?_
    split
    · exact hs.ret ()
    · refine hs.seq (hs.modifyCell id _) fun _ => ?_
      exact hs.seq (keeping_destroyAll hs children cell.children) fun _ => hs.keeping_detachNode id

theorem keeping_destroyAll (hs : s.Permits A E K) : ∀ (ns : List View.Node) (ids : List BlockId),
    Keeping E K (destroyAll ids ns : Run (Stage σ) Unit)
  | [], _ => hs.ret ()
  | _ :: _, [] => hs.ret ()
  | n :: r, id :: rest =>
    hs.seq (keeping_destroy hs n id) fun _ => keeping_destroyAll hs r rest

theorem keeping_destroyBranch (hs : s.Permits A E K) : ∀ (bs : List View.Branch) (id : BlockId)
    (key : Nat), Keeping E K (destroyBranch id key bs : Run (Stage σ) Unit)
  | [], _, _ => hs.ret ()
  | b :: _, id, 0 => keeping_destroyBody hs b id
  | _ :: r, id, k + 1 => keeping_destroyBranch hs r id k

theorem keeping_destroyBody (hs : s.Permits A E K) : ∀ (b : View.Branch) (id : BlockId),
    Keeping E K (destroyBody id b : Run (Stage σ) Unit)
  | .mk _ body, id => keeping_destroy hs body id

theorem keeping_destroyOtherwise (hs : s.Permits A E K) : ∀ (o : View.Otherwise) (id : BlockId),
    Keeping E K (destroyOtherwise id o : Run (Stage σ) Unit)
  | .nothing, _ => hs.ret ()
  | .body n, id => keeping_destroy hs n id

end

/-! ### Bindings -/

theorem keeping_evaluate (hs : s.Permits A E K) (frame : Frame) (state : Dict Value)
    (b : View.Binding) : Keeping E K (s.evaluate frame state b) := by
  refine hs.seq (hs.outcome state frame b.expr) fun r => ?_
  cases r with
  | ok v => exact hs.ret v
  | error e => exact hs.seq (hs.writeLog _ _) fun _ => hs.ret _

/-- A binding is evaluated, and what is done then keeps the relation for every value it can have. -/
theorem evaluating (hs : s.Permits A E K) (frame : Frame) (state : Dict Value) (b : View.Binding)
    {f : Value → Run (Stage σ) α} (hf : ∀ v, s.Shows b v → Keeping E K (f v)) :
    Keeping E K (s.evaluate frame state b >>= f) := by
  intro m
  rw [Run.after_bind, Run.After]
  have hkept := hs.keeping_evaluate frame state b m
  cases hrun : s.evaluate frame state b m with
  | error e =>
    rw [Run.After, hrun] at hkept
    exact hkept
  | ok p =>
    obtain ⟨v, m'⟩ := p
    exact (hf v ⟨frame, state, m, m', hrun⟩ m').mono fun _ _ h => hs.trans (hkept.of_ok hrun) h

theorem keeping_firstTrue (hs : s.Permits A E K) (frame : Frame) (state : Dict Value)
    (tests : List View.Binding) : ∀ i, Keeping E K (firstTrue s frame state i tests) := by
  induction tests with
  | nil => exact fun i => hs.ret i
  | cons t r ih =>
    intro i
    refine hs.seq (hs.keeping_evaluate frame state t) fun v => ?_
    split
    · exact hs.ret i
    · exact ih (i + 1)

theorem keeping_select (hs : s.Permits A E K) (frame : Frame) (state : Dict Value)
    (branches : List View.Branch) (other : View.Otherwise) :
    Keeping E K (select s frame state branches other) :=
  hs.seq (hs.keeping_firstTrue frame state _ 0) fun _ => hs.ret _

theorem keeping_items (hs : s.Permits A E K) (frame : Frame) (state : Dict Value)
    (list : View.Binding) : Keeping E K (items s frame state list) := by
  refine hs.seq (hs.keeping_evaluate frame state list) fun v => ?_
  cases v with
  | list vs => exact hs.ret vs
  | null | undefined => exact hs.ret []
  | _ => exact hs.seq (hs.writeLog _ _) fun _ => hs.ret []

/-! ### Mounting -/

theorem keeping_ownNode (hs : s.Permits A E K) (id : BlockId) (c : Dom.Document Action → Dom.Content) :
    Keeping E K (ownNode id fun d => d.create (c d) : Run (Stage σ) Dom.NodeId) :=
  hs.seq (hs.onDoc fun d i => d.attrs_create (c d) i) fun _ =>
    hs.seq (hs.modifyCell id _) fun _ => hs.ret _

theorem keeping_insertNode (hs : s.Permits A E K) (parent n : Dom.NodeId)
    (anchor : Option Dom.NodeId) : Keeping E K (insertNode parent n anchor : Run (Stage σ) Unit) :=
  hs.modifyDoc fun d i => d.attrs_insert parent n anchor i

/-- The fixed attributes of an element, one after another. -/
theorem keeping_fixed (hs : s.Permits A E K) {el : View.Element} (hel : A el) (n : Dom.NodeId)
    (as : List (Text × Text)) (has : ∀ a ∈ as, a ∈ View.fixedAttrs el.attrs) :
    Keeping E K (Block.modifyDoc fun d => d.modifyAttrs n fun old =>
      as.foldl (fun old a => Dom.setAttr a.1 a.2 old) old : Run (Stage σ) Unit) := by
  have hall : ∀ m : Machine (Stage σ), K m (m.withAttrs n fun old =>
      as.foldl (fun old a => Dom.setAttr a.1 a.2 old) old) := by
    induction as with
    | nil =>
      refine fun m => hs.same rfl fun i => ?_
      exact m.host.doc.attrs_modifyNode (f := fun x => { x with attrs := x.attrs }) (fun _ => rfl) n i
    | cons a r ih =>
      rw [List.forall_mem_cons] at has
      intro m
      refine hs.trans (hs.fixed hel a has.1 m n) ?_
      have hrest := ih has.2 (m.withAttrs n (Dom.setAttr a.1 a.2))
      rw [Machine.withAttrs_withAttrs] at hrest
      exact hrest
  exact fun m => hall m

theorem keeping_mountAttrs (hs : s.Permits A E K) {el : View.Element} (hel : A el)
    (state : Dict Value) (id : BlockId) (node : Dom.NodeId) (frame : Frame)
    (bound : List (Text × View.Binding)) (hbound : ∀ a ∈ bound, a ∈ View.boundAttrs el.attrs) :
    ∀ i, Keeping E K (mountAttrs s state id node frame i bound) := by
  induction bound with
  | nil => exact fun _ => hs.ret ()
  | cons a r ih =>
    rw [List.forall_mem_cons] at hbound
    intro i
    refine hs.evaluating frame state a.2 fun v hv => hs.seq (hs.modifyCell id _) fun _ => ?_
    exact hs.seq (fun m => hs.bound hel a hbound.1 v hv m node) fun _ => ih hbound.2 (i + 1)

theorem keeping_mountToggles (hs : s.Permits A E K) {el : View.Element} (hel : A el)
    (state : Dict Value) (id : BlockId) (node : Dom.NodeId) (frame : Frame)
    (toggles : List View.Toggle) (htoggles : ∀ t ∈ toggles, t ∈ el.toggles) :
    ∀ i, Keeping E K (mountToggles s state id node frame i toggles) := by
  induction toggles with
  | nil => exact fun _ => hs.ret ()
  | cons t r ih =>
    rw [List.forall_mem_cons] at htoggles
    intro i
    refine hs.seq (hs.keeping_evaluate frame state t.binding) fun v => ?_
    refine hs.seq (hs.modifyCell id _) fun _ => ?_
    split
    · exact hs.seq (fun m => hs.toggle hel t htoggles.1 m node true) fun _ => ih htoggles.2 (i + 1)
    · exact ih htoggles.2 (i + 1)

theorem keeping_mountHandlers (hs : s.Permits A E K) (id : BlockId) (node : Dom.NodeId)
    (frame : Frame) (handlers : List View.Handler) :
    Keeping E K (mountHandlers id node frame handlers : Run (Stage σ) Unit) := by
  induction handlers with
  | nil => exact hs.ret ()
  | cons h r ih =>
    exact hs.seq (hs.onDoc fun _ _ => rfl) fun _ => hs.seq (hs.modifyCell id _) fun _ => ih

theorem keeping_parentOf (hs : s.Permits A E K) (anchor : Dom.NodeId) :
    Keeping E K (parentOf anchor : Run (Stage σ) Dom.NodeId) := by
  refine hs.seq hs.getDoc fun doc => ?_
  split
  · exact hs.ret _
  · exact hs.stop

theorem keeping_clear (hs : s.Permits A E K) (id : BlockId) (branches : List View.Branch)
    (other : View.Otherwise) : Keeping E K (clear id branches other : Run (Stage σ) Unit) := by
  refine hs.seq (hs.getCell id) fun cell => ?_
  cases cell.shown with
  | none => exact hs.ret ()
  | some shown =>
    obtain ⟨key, b⟩ := shown
    dsimp only
    split
    · exact hs.seq (hs.keeping_destroyBranch branches b key) fun _ => hs.modifyCell id _
    · exact hs.seq (hs.keeping_destroyOtherwise other b) fun _ => hs.modifyCell id _

theorem keeping_rounds (hs : s.Permits A E K) (state : Dict Value) (id : BlockId)
    (anchor : Dom.NodeId) (frame : Frame) (list : View.Binding) (item index : Text)
    (body : View.Node) {render : BlockId → Dom.NodeId → Run (Stage σ) Unit}
    (hrender : ∀ child p, Keeping E K (render child p)) :
    Keeping E K (rounds s state id anchor frame list item index body render) := by
  refine hs.seq (hs.keeping_items frame state list) fun vs => hs.loop _ fun p => ?_
  refine hs.seq (hs.keeping_parentOf anchor) fun parent => ?_
  refine hs.seq (hs.keeping_create _ body) fun child => ?_
  exact hs.seq (hrender child parent) fun _ => hs.modifyCell id _

mutual

theorem keeping_mount (hs : s.Permits A E K) (state : Dict Value) : ∀ (n : View.Node),
    (∀ el ∈ n.elements, A el) → ∀ (id : BlockId) (parent : Dom.NodeId) (anchor : Option Dom.NodeId),
    Keeping E K (mount s state id parent anchor n)
  | .fixed _ value, _, id, parent, anchor => by
    refine hs.seq (hs.getCell id) fun cell => ?_
    split
    · exact hs.ret ()
    · exact hs.seq (hs.keeping_ownNode id _) fun _ => hs.keeping_insertNode _ _ _
  | .text _ b, _, id, parent, anchor => by
    refine hs.seq (hs.getCell id) fun cell => ?_
    split
    · exact hs.ret ()
    · refine hs.seq (hs.keeping_evaluate _ state b) fun v => ?_
      exact hs.seq (hs.keeping_ownNode id _) fun _ => hs.keeping_insertNode _ _ _
  | .elem _ tag attrs toggles handlers children, hA, id, parent, anchor => by
    obtain ⟨hel, hbelow⟩ := List.forall_mem_cons.1 hA
    refine hs.seq (hs.getCell id) fun cell => ?_
    split
    · exact hs.ret ()
    · refine hs.seq (hs.keeping_ownNode id _) fun n => ?_
      refine hs.seq (hs.keeping_fixed hel n _ fun _ h => h) fun _ => ?_
      refine hs.seq (hs.modifyCell id _) fun _ => ?_
      refine hs.seq (hs.keeping_mountAttrs hel state id n _ _ (fun _ h => h) 0) fun _ => ?_
      refine hs.seq (hs.modifyCell id _) fun _ => ?_
      refine hs.seq (hs.keeping_mountToggles hel state id n _ _ (fun _ h => h) 0) fun _ => ?_
      refine hs.seq (hs.keeping_mountHandlers id n _ _) fun _ => ?_
      refine hs.seq (keeping_mountAll hs state children hbelow _ n none) fun _ => ?_
      exact hs.keeping_insertNode _ _ _
  | .cond _ branches other, hA, id, parent, anchor => by
    obtain ⟨hbranches, hother⟩ := List.forall_mem_append.1 hA
    refine hs.seq (hs.getCell id) fun cell => ?_
    split
    · exact hs.ret ()
    · refine hs.seq (hs.keeping_ownNode id _) fun n => ?_
      refine hs.seq (hs.keeping_insertNode _ _ _) fun _ => ?_
      refine hs.seq (hs.keeping_select _ state branches other) fun key => ?_
      refine hs.seq (hs.keeping_clear id branches other) fun _ => ?_
      cases key with
      | none => exact hs.ret ()
      | some k =>
        dsimp only
        split
        · exact keeping_showBranch hs state branches hbranches id n _ k k
        · exact keeping_showOtherwise hs state other hother id n _ k
  | .each _ list item index body, hA, id, parent, anchor => by
    refine hs.seq (hs.getCell id) fun cell => ?_
    split
    · exact hs.ret ()
    · refine hs.seq (hs.keeping_ownNode id _) fun n => ?_
      refine hs.seq (hs.keeping_insertNode _ _ _) fun _ => ?_
      exact hs.keeping_rounds state id n _ list item index body fun child p =>
        keeping_mount hs state body hA child p (some n)
  | .fragment _ children, hA, id, parent, anchor => by
    refine hs.seq (hs.getCell id) fun cell => ?_
    split
    · exact hs.ret ()
    · refine hs.seq (hs.modifyCell id _) fun _ => hs.seq (hs.keeping_ownNode id _) fun n => ?_
      refine hs.seq (hs.keeping_insertNode _ _ _) fun _ => ?_
      exact keeping_mountAll hs state children hA _ parent (some n)

theorem keeping_mountAll (hs : s.Permits A E K) (state : Dict Value) : ∀ (ns : List View.Node),
    (∀ el ∈ View.elementsAll ns, A el) → ∀ (ids : List BlockId) (parent : Dom.NodeId)
    (anchor : Option Dom.NodeId), Keeping E K (mountAll s state ids parent anchor ns)
  | [], _, _, _, _ => hs.ret ()
  | _ :: _, _, [], _, _ => hs.ret ()
  | n :: r, hA, id :: rest, parent, anchor =>
    have hA' := List.forall_mem_append.1 hA
    hs.seq (keeping_mount hs state n hA'.1 id parent anchor) fun _ =>
      keeping_mountAll hs state r hA'.2 rest parent anchor

theorem keeping_showBranch (hs : s.Permits A E K) (state : Dict Value) : ∀ (bs : List View.Branch),
    (∀ el ∈ View.elementsBranches bs, A el) → ∀ (id : BlockId) (anchor : Dom.NodeId)
    (frame : Frame) (key k : Nat), Keeping E K (showBranch s state id anchor frame key k bs)
  | [], _, _, _, _, _, _ => hs.ret ()
  | b :: _, hA, id, anchor, frame, key, 0 =>
    keeping_showBody hs state b (List.forall_mem_append.1 hA).1 id anchor frame key
  | _ :: r, hA, id, anchor, frame, key, k + 1 =>
    keeping_showBranch hs state r (List.forall_mem_append.1 hA).2 id anchor frame key k

theorem keeping_showBody (hs : s.Permits A E K) (state : Dict Value) : ∀ (b : View.Branch),
    (∀ el ∈ b.elements, A el) → ∀ (id : BlockId) (anchor : Dom.NodeId) (frame : Frame) (key : Nat),
    Keeping E K (showBody s state id anchor frame key b)
  | .mk _ body, hA, id, anchor, frame, key => by
    refine hs.seq (hs.keeping_create frame body) fun b => hs.seq (hs.modifyCell id _) fun _ => ?_
    exact hs.seq (hs.keeping_parentOf anchor) fun p =>
      keeping_mount hs state body hA b p (some anchor)

theorem keeping_showOtherwise (hs : s.Permits A E K) (state : Dict Value) :
    ∀ (o : View.Otherwise), (∀ el ∈ o.elements, A el) → ∀ (id : BlockId) (anchor : Dom.NodeId)
    (frame : Frame) (key : Nat), Keeping E K (showOtherwise s state id anchor frame key o)
  | .nothing, _, _, _, _, _ => hs.ret ()
  | .body n, hA, id, anchor, frame, key => by
    refine hs.seq (hs.keeping_create frame n) fun b => hs.seq (hs.modifyCell id _) fun _ => ?_
    exact hs.seq (hs.keeping_parentOf anchor) fun p =>
      keeping_mount hs state n hA b p (some anchor)

end

/-! ### Patching -/

theorem keeping_swap (hs : s.Permits A E K) (state : Dict Value) (id : BlockId)
    (anchor : Dom.NodeId) (frame : Frame) (key : Option Nat) {branches : List View.Branch}
    {other : View.Otherwise} (hbranches : ∀ el ∈ View.elementsBranches branches, A el)
    (hother : ∀ el ∈ other.elements, A el) :
    Keeping E K (swap s state id anchor frame key branches other) := by
  refine hs.seq (hs.keeping_clear id branches other) fun _ => ?_
  cases key with
  | none => exact hs.ret ()
  | some k =>
    dsimp only
    split
    · exact hs.keeping_showBranch state branches hbranches id anchor frame k k
    · exact hs.keeping_showOtherwise state other hother id anchor frame k

theorem keeping_patchAttrs (hs : s.Permits A E K) {el : View.Element} (hel : A el) (dirty : Mask)
    (state : Dict Value) (id : BlockId) (node : Dom.NodeId) (self : View.Node)
    (bound : List (Text × View.Binding)) (hbound : ∀ a ∈ bound, a ∈ View.boundAttrs el.attrs) :
    ∀ i, Keeping E K (patchAttrs s dirty state id node self i bound) := by
  induction bound with
  | nil => exact fun _ => hs.ret ()
  | cons a r ih =>
    rw [List.forall_mem_cons] at hbound
    intro i
    unfold patchAttrs
    split
    · refine hs.seq (hs.getCell id) fun cell => ?_
      refine hs.evaluating cell.frame state a.2 fun v hv => ?_
      refine hs.seq (hs.getCell id) fun cell' => ?_
      split
      · exact ih hbound.2 (i + 1)
      · refine hs.seq (hs.modifyCell id _) fun _ => ?_
        refine hs.seq (fun m => hs.bound hel a hbound.1 v hv m node) fun _ => ?_
        exact hs.seq (hs.trace _ _ _) fun _ => ih hbound.2 (i + 1)
    · exact ih hbound.2 (i + 1)

theorem keeping_patchToggles (hs : s.Permits A E K) {el : View.Element} (hel : A el) (dirty : Mask)
    (state : Dict Value) (id : BlockId) (node : Dom.NodeId) (toggles : List View.Toggle)
    (htoggles : ∀ t ∈ toggles, t ∈ el.toggles) :
    ∀ i, Keeping E K (patchToggles s dirty state id node i toggles) := by
  induction toggles with
  | nil => exact fun _ => hs.ret ()
  | cons t r ih =>
    rw [List.forall_mem_cons] at htoggles
    intro i
    unfold patchToggles
    split
    · refine hs.seq (hs.getCell id) fun cell => ?_
      refine hs.seq (hs.keeping_evaluate cell.frame state t.binding) fun v => ?_
      refine hs.seq (hs.getCell id) fun cell' => ?_
      cases cell'.toggles[i]? with
      | none => exact hs.seq hs.stop fun _ => ih htoggles.2 (i + 1)
      | some was =>
        dsimp only
        split
        · refine hs.seq (hs.modifyCell id _) fun _ => ?_
          exact hs.seq (fun m => hs.toggle hel t htoggles.1 m node _) fun _ => ih htoggles.2 (i + 1)
        · exact ih htoggles.2 (i + 1)
    · exact ih htoggles.2 (i + 1)

mutual

theorem keeping_patch (hs : s.Permits A E K) (dirty : Mask) (state : Dict Value) :
    ∀ (n : View.Node), (∀ el ∈ n.elements, A el) → ∀ id : BlockId,
    Keeping E K (patch s dirty state id n)
  | .fixed .., _, _ => hs.ret ()
  | .text _ b, _, id => by
    refine hs.seq (hs.getCell id) fun cell => ?_
    cases cell.node with
    | none => exact hs.ret ()
    | some n =>
      dsimp only
      split
      · exact hs.ret ()
      · refine hs.seq (hs.keeping_evaluate _ state b) fun v => hs.seq hs.getDoc fun doc => ?_
        split
        · exact hs.ret ()
        · exact hs.seq (hs.modifyDoc fun d i => d.attrs_setText n _ i) fun _ => hs.trace _ _ _
  | .elem _ _ attrs toggles _ children, hA, id => by
    obtain ⟨hel, hbelow⟩ := List.forall_mem_cons.1 hA
    refine hs.seq (hs.getCell id) fun cell => ?_
    cases cell.node with
    | none => exact hs.ret ()
    | some n =>
      dsimp only
      split
      · exact hs.ret ()
      · refine hs.seq (hs.keeping_patchAttrs hel dirty state id n _ _ (fun _ h => h) 0) fun _ => ?_
        refine hs.seq (hs.keeping_patchToggles hel dirty state id n _ (fun _ h => h) 0) fun _ => ?_
        exact keeping_patchAll hs dirty state children hbelow cell.children
  | .cond _ branches other, hA, id => by
    obtain ⟨hbranches, hother⟩ := List.forall_mem_append.1 hA
    have hshown : Keeping E K (do
        match (← Block.getCell id).shown with
        | none => return
        | some (key, b) =>
          if key < branches.length then patchBranch s dirty state b key branches
          else patchOtherwise s dirty state b other : Run (Stage σ) Unit) := by
      refine hs.seq (hs.getCell id) fun cell => ?_
      cases cell.shown with
      | none => exact hs.ret ()
      | some shown =>
        obtain ⟨key, b⟩ := shown
        dsimp only
        split
        · exact keeping_patchBranch hs dirty state branches hbranches b key
        · exact keeping_patchOtherwise hs dirty state other hother b
    refine hs.seq (hs.getCell id) fun cell => ?_
    cases cell.node with
    | none => exact hs.ret ()
    | some n =>
      dsimp only
      split
      · exact hs.ret ()
      · split
        · refine hs.seq (hs.keeping_select _ state branches other) fun key => ?_
          refine hs.seq (hs.getCell id) fun cell' => ?_
          split
          · exact hshown
          · refine hs.seq (hs.keeping_swap state id n _ key hbranches hother) fun _ => ?_
            exact hs.seq (hs.trace _ _ _) fun _ => hs.ret ()
        · exact hshown
  | .each _ list item index body, hA, id => by
    refine hs.seq (hs.getCell id) fun cell => ?_
    cases cell.node with
    | none => exact hs.ret ()
    | some n =>
      dsimp only
      split
      · exact hs.ret ()
      · split
        · refine hs.seq (hs.loop _ fun child => hs.keeping_destroy body child) fun _ => ?_
          refine hs.seq (hs.modifyCell id _) fun _ => ?_
          refine hs.seq (hs.keeping_rounds state id n _ list item index body fun child p =>
            hs.keeping_mount state body hA child p (some n)) fun _ => ?_
          exact hs.trace _ _ _
        · exact hs.loop _ fun child => keeping_patch hs dirty state body hA child
  | .fragment _ children, hA, id => by
    refine hs.seq (hs.getCell id) fun cell => ?_
    split
    · exact hs.ret ()
    · exact keeping_patchAll hs dirty state children hA cell.children

theorem keeping_patchAll (hs : s.Permits A E K) (dirty : Mask) (state : Dict Value) :
    ∀ (ns : List View.Node), (∀ el ∈ View.elementsAll ns, A el) → ∀ ids : List BlockId,
    Keeping E K (patchAll s dirty state ids ns)
  | [], _, _ => hs.ret ()
  | _ :: _, _, [] => hs.ret ()
  | n :: r, hA, id :: rest =>
    have hA' := List.forall_mem_append.1 hA
    hs.seq (keeping_patch hs dirty state n hA'.1 id) fun _ =>
      keeping_patchAll hs dirty state r hA'.2 rest

theorem keeping_patchBranch (hs : s.Permits A E K) (dirty : Mask) (state : Dict Value) :
    ∀ (bs : List View.Branch), (∀ el ∈ View.elementsBranches bs, A el) → ∀ (id : BlockId)
    (key : Nat), Keeping E K (patchBranch s dirty state id key bs)
  | [], _, _, _ => hs.ret ()
  | b :: _, hA, id, 0 => keeping_patchBody hs dirty state b (List.forall_mem_append.1 hA).1 id
  | _ :: r, hA, id, k + 1 =>
    keeping_patchBranch hs dirty state r (List.forall_mem_append.1 hA).2 id k

theorem keeping_patchBody (hs : s.Permits A E K) (dirty : Mask) (state : Dict Value) :
    ∀ (b : View.Branch), (∀ el ∈ b.elements, A el) → ∀ id : BlockId,
    Keeping E K (patchBody s dirty state id b)
  | .mk _ body, hA, id => keeping_patch hs dirty state body hA id

theorem keeping_patchOtherwise (hs : s.Permits A E K) (dirty : Mask) (state : Dict Value) :
    ∀ (o : View.Otherwise), (∀ el ∈ o.elements, A el) → ∀ id : BlockId,
    Keeping E K (patchOtherwise s dirty state id o)
  | .nothing, _, _ => hs.ret ()
  | .body n, hA, id => keeping_patch hs dirty state n hA id

end

/-! ### Whole views -/

theorem keeping_createPart (hs : s.Permits A E K) (part : Part) (frame : Frame) :
    Keeping E K (part.create frame : Run (Stage σ) BlockId) := by
  cases part with
  | node n => exact hs.keeping_create frame n
  | whole ns => exact hs.seq (hs.keeping_createAll frame ns) fun _ => hs.newCell _

theorem keeping_mountPart (hs : s.Permits A E K) (part : Part) (state : Dict Value) (id : BlockId)
    (parent : Dom.NodeId) (anchor : Option Dom.NodeId) (hA : ∀ el ∈ part.elements, A el) :
    Keeping E K (part.mount s state id parent anchor) := by
  cases part with
  | node n => exact hs.keeping_mount state n hA id parent anchor
  | whole ns =>
    refine hs.seq (hs.getCell id) fun cell => ?_
    split
    · exact hs.ret ()
    · exact hs.seq (hs.modifyCell id _) fun _ => hs.keeping_mountAll state ns hA _ parent anchor

theorem keeping_patchPart (hs : s.Permits A E K) (part : Part) (dirty : Mask) (state : Dict Value)
    (id : BlockId) (hA : ∀ el ∈ part.elements, A el) :
    Keeping E K (part.patch s dirty state id) := by
  cases part with
  | node n => exact hs.keeping_patch dirty state n hA id
  | whole ns =>
    refine hs.seq (hs.getCell id) fun cell => ?_
    split
    · exact hs.ret ()
    · exact hs.keeping_patchAll dirty state ns hA _

theorem keeping_destroyPart (hs : s.Permits A E K) (part : Part) (id : BlockId) :
    Keeping E K (part.destroy id : Run (Stage σ) Unit) := by
  cases part with
  | node n => exact hs.keeping_destroy n id
  | whole ns =>
    refine hs.seq (hs.getCell id) fun cell => ?_
    split
    · exact hs.ret ()
    · exact hs.seq (hs.modifyCell id _) fun _ => hs.keeping_destroyAll ns _

/-! ### Events -/

theorem keeping_frameScope (hs : s.Permits A E K) (store : Store) (frame : Frame) :
    Keeping E K (frameScope store frame : Run (Stage σ) Nat) := by
  induction frame with
  | nil => exact hs.step fun _ => ⟨_, _, rfl, rfl, fun _ => rfl⟩
  | cons vars outer ih => exact hs.seq ih fun _ => hs.step fun _ => ⟨_, _, rfl, rfl, fun _ => rfl⟩

/-- What a handler evaluates to is called with the event if it is a function. -/
theorem keeping_answer (hs : s.Permits A E K)
    (heval : ∀ env e, Keeping E K (eval s.caller env e).run)
    (hcall : ∀ f args, Keeping E K (s.caller.call f args).run) (env : Nat) (e : Expr)
    (event : Value) :
    Keeping E K (do
      match ← eval s.caller env e with
      | .func f => let _ ← s.caller.call f [event]
      | _ => pure () : Eval (Stage σ) Unit).run := by
  rw [ExceptT.run_bind]
  refine hs.seq (heval env _) fun r => ?_
  cases r with
  | error e => exact hs.ret _
  | ok v =>
    cases v with
    | func f =>
      show Keeping E K (s.caller.call f [event] >>= fun _ => pure () : Eval (Stage σ) Unit).run
      rw [ExceptT.run_bind]
      refine hs.seq (hcall f _) fun r => ?_
      cases r with
      | ok _ => exact hs.ret _
      | error e => exact hs.ret _
    | _ => exact hs.ret _

/-- A handler that is run by an evaluator that keeps the relation. -/
theorem keeping_handle (hs : s.Permits A E K)
    (heval : ∀ env e, Keeping E K (eval s.caller env e).run)
    (hcall : ∀ f args, Keeping E K (s.caller.call f args).run) (a : Action) (event : Value) :
    Keeping E K (s.handle a event) := by
  refine hs.seq (hs.keeping_frameScope _ _) fun outer => ?_
  refine hs.seq (hs.step fun _ => ⟨_, _, rfl, rfl, fun _ => rfl⟩) fun env => ?_
  refine hs.seq (hs.keeping_answer heval hcall env _ event) fun r => ?_
  cases r with
  | ok _ => exact hs.ret ()
  | error e => exact hs.writeLog _ _

/-- An event on its way up: each listener acts. -/
theorem keeping_bubble (hs : s.Permits A E K) (event : Text)
    {act : Dom.NodeId → Action → Run (Stage σ) Bool} (hact : ∀ id a, Keeping E K (act id a)) :
    ∀ (depth : Nat) (id : Dom.NodeId),
      Keeping E K (Dom.Document.bubble Block.getDoc event act depth id) := by
  intro depth
  induction depth with
  | zero => exact fun _ => hs.ret false
  | succ depth ih =>
    intro id
    refine hs.seq hs.getDoc fun doc => ?_
    have hheard : ∀ (heard : List (Dom.Listener Action)) (stopped : Bool),
        Keeping E K (forIn heard stopped fun l stopped => do
          if ← act id l.action then pure (.yield true) else pure (.yield stopped)) := by
      intro heard
      induction heard with
      | nil => exact fun stopped => hs.ret stopped
      | cons l r ihr =>
        intro stopped
        rw [List.forIn_cons]
        refine hs.seq (hs.seq (hact id l.action) fun b => ?_) fun step => ?_
        · cases b <;> exact hs.ret _
        · cases step with
          | done b => exact hs.ret b
          | yield b => exact ihr b
    refine hs.seq (hheard _ false) fun stopped => ?_
    dsimp only
    split
    · exact hs.ret true
    · refine hs.seq hs.getDoc fun doc' => ?_
      cases (doc'.node id).parent with
      | none => exact hs.ret _
      | some p => exact hs.seq (ih p) fun _ => hs.ret _

/-- An event whose handlers run in a batch that keeps the relation. -/
theorem keeping_dispatch (hs : s.Permits A E K)
    (heval : ∀ env e, Keeping E K (eval s.caller env e).run)
    (hcall : ∀ f args, Keeping E K (s.caller.call f args).run)
    {batch : Run (Stage σ) Unit → Run (Stage σ) Unit}
    (hbatch : ∀ x, Keeping E K x → Keeping E K (batch x)) (target : Dom.NodeId) (type : Text)
    (detail : Value) : Keeping E K (s.dispatch batch target type detail) := by
  refine hs.seq hs.getDoc fun doc => hs.keeping_bubble type (fun _ a => ?_) _ target
  refine hs.seq (hbatch _ ?_) fun _ => hs.ret false
  exact hs.seq hs.getDoc fun doc => hs.keeping_handle heval hcall a _

end Site.Permits

end Block

/-! ### What blocks do to their owner

What the owner of blocks keeps changes only when a binding is evaluated, or when a handler runs. -/

namespace Block

variable {σ α β : Type} {E : Halt → Prop} {K : Machine (Stage σ) → Machine (Stage σ) → Prop}

/-- A relation that does not look at documents and blocks, and that the evaluations of a site
keep. -/
structure Site.Confines (s : Site σ) (E : Halt → Prop)
    (K : Machine (Stage σ) → Machine (Stage σ) → Prop) : Prop where
  range : E .outOfRange
  same : ∀ {m m' : Machine (Stage σ)}, m'.host.own = m.host.own → K m m'
  trans : ∀ {m m' m'' : Machine (Stage σ)}, K m m' → K m' m'' → K m m''
  outcome : ∀ state frame e, Keeping E K (s.outcome (.snapshot state) frame e)

namespace Site.Confines

variable {s : Site σ}

theorem seq (hs : s.Confines E K) {x : Run (Stage σ) α} {f : α → Run (Stage σ) β}
    (hx : Keeping E K x) (hf : ∀ a, Keeping E K (f a)) : Keeping E K (x >>= f) :=
  Keeping.bind (K := K) hs.trans hx hf

/-- A step that leaves what the owner keeps alone. -/
theorem step (hs : s.Confines E K) {x : Run (Stage σ) α}
    (hx : ∀ m, ∃ a m', x m = .ok (a, m') ∧ m'.host.own = m.host.own) : Keeping E K x := by
  intro m
  obtain ⟨a, m', hrun, hown⟩ := hx m
  exact (Run.after_of_ok hrun).2 (hs.same hown)

theorem ret (hs : s.Confines E K) (a : α) : Keeping E K (pure a : Run (Stage σ) α) :=
  hs.step fun _ => ⟨_, _, rfl, rfl⟩

theorem getOwn (hs : s.Confines E K) : Keeping E K (getOwn : Run (Stage σ) σ) :=
  hs.step fun _ => ⟨_, _, rfl, rfl⟩

theorem writeLog (hs : s.Confines E K) (voice : Voice) (t : Text) :
    Keeping E K (writeLog voice t : Run (Stage σ) Unit) :=
  hs.step fun _ => ⟨_, _, rfl, rfl⟩

theorem trace (hs : s.Confines E K) (t : Tracing) (tag detail : Text) :
    Keeping E K (t.write tag detail : Run (Stage σ) Unit) := by
  unfold Tracing.write
  split
  · exact hs.writeLog _ _
  · exact hs.ret ()

/-- Such a relation permits whatever blocks do to attributes. -/
theorem permits (hs : s.Confines E K) (A : View.Element → Prop) : s.Permits A E K where
  range := hs.range
  same hown _ := hs.same hown
  trans := hs.trans
  outcome := hs.outcome
  fixed _ _ _ _ _ := hs.same rfl
  bound _ _ _ _ _ _ _ := hs.same rfl
  toggle _ _ _ _ _ _ := hs.same rfl

theorem keeping_patchPart (hs : s.Confines E K) (part : Part) (dirty : Mask) (state : Dict Value)
    (id : BlockId) : Keeping E K (part.patch s dirty state id) :=
  (hs.permits fun _ => True).keeping_patchPart part dirty state id fun _ _ => trivial

end Site.Confines

end Block

end Reactive
