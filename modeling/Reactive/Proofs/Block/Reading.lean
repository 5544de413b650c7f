/-
How the bindings of a view are read.

What blocks do to a document is one thing, what a binding is worth is
another.  A `Reading` is all that the first has to know of the second: the
value of each binding in a frame and a state, up to a face of it that
rendering sees.  `Reading.Shows` says that a tree shows a view in a state, in
terms of these values.

* `Reading.after_evaluate`, `Reading.after_select`, `Reading.after_items` —
  what evaluation does to a machine;
* `Reading.Shows` — the specification of a mounted view.
-/
import Reactive.Proofs.Block.Outcome
import Reactive.Proofs.Block.Stage
import Reactive.Proofs.View.Every

namespace Reactive.Block

open Dom (NodeId)

variable {σ : Type}

/-- The items of a list; any other value has none. -/
def itemsOf : Value → List Value
  | .list vs => vs
  | _ => []

/-- The text of an attribute with this value; nothing if there is no attribute then. -/
def attrText : Value → Option Text
  | .bool true => some []
  | .bool false | .null | .undefined => none
  | v => some v.toText

/-- A frame that binds some names. -/
def Frame.Covers (f : Frame) (names : List Text) : Prop := ∀ n ∈ names, f.Binds n

theorem Frame.Covers.round {f : Frame} {locals : List Text} (h : f.Covers locals)
    (item index : Text) (i : Nat) (v : Value) :
    Frame.Covers (roundVars item index i v :: f) (View.loopNames item index locals) := by
  have hitem : Dict.has (roundVars item index i v) item = true := by
    unfold roundVars
    split
    · simp [Dict.has, Dict.get?]
    · exact Dict.has_insert (by simp [Dict.has, Dict.get?])
  have hindex : index.isEmpty = false → Dict.has (roundVars item index i v) index = true := by
    intro he
    rw [roundVars, if_neg (by simp [he]), Dict.has, Dict.get?_insert, if_pos rfl]
    rfl
  intro n hn
  rcases List.mem_append.1 hn with hn | hn
  · obtain ⟨hmem, hne⟩ := List.mem_filter.1 hn
    rcases List.mem_cons.1 hmem with rfl | hmem
    · exact ⟨_, List.mem_cons_self, hitem⟩
    · obtain rfl := List.mem_singleton.1 hmem
      exact ⟨_, List.mem_cons_self, hindex (by simpa using hne)⟩
  · obtain ⟨vars, hvars, hhas⟩ := h n hn
    exact ⟨vars, List.mem_cons_of_mem _ hvars, hhas⟩

/-- What is known of the evaluation of bindings at a site. -/
structure Reading (s : Site σ) where
  /-- The reasons for which an evaluation may stop without an answer. -/
  stops : Halt → Prop
  /-- What holds of the machine all the time. -/
  Sane : Machine (Stage σ) → Prop
  /-- How the machine goes on. -/
  Later : Machine (Stage σ) → Machine (Stage σ) → Prop
  /-- The frames that expressions can be evaluated in. -/
  Fits : Machine (Stage σ) → Frame → Prop
  /-- The states that expressions can be evaluated over. -/
  Known : Machine (Stage σ) → Dict Value → Prop
  /-- What rendering sees of a value. -/
  face : Value → Value
  /-- What is seen of the value of a binding. -/
  val : View.Binding → Frame → Dict Value → Value
  /-- A value that an attribute may still show. -/
  Near : View.Binding → Frame → Value → Dict Value → Prop
  /-- The bindings that can be evaluated where some names are bound. -/
  Reads : List Text → View.Binding → Prop
  /-- Those of them that can stand in an attribute. -/
  Attr : List Text → View.Binding → Prop

namespace Reading

variable {s : Site σ}

/-- What rendering sees of a frame. -/
def faces (R : Reading s) (f : Frame) : Frame :=
  f.map fun vars => vars.map fun p => (p.1, R.face p.2)

/-- What evaluation has to satisfy so that views can be mounted. -/
structure Lawful (R : Reading s) : Prop where
  sane_congr : ∀ {m m' : Machine (Stage σ)}, m'.scopes = m.scopes → m'.funcs = m.funcs →
    m'.host.own = m.host.own → R.Sane m → R.Sane m'
  later_congr : ∀ {m m' : Machine (Stage σ)}, m'.scopes = m.scopes → m'.funcs = m.funcs →
    R.Later m m'
  later_trans : ∀ {m m' m'' : Machine (Stage σ)}, R.Later m m' → R.Later m' m'' → R.Later m m''
  fits_later : ∀ {m m' : Machine (Stage σ)} {f : Frame}, R.Later m m' → R.Fits m f → R.Fits m' f
  known_later : ∀ {m m' : Machine (Stage σ)} {st : Dict Value}, R.Later m m' → R.Known m st →
    R.Known m' st
  reads_of_attr : ∀ {locals : List Text} {b : View.Binding}, R.Attr locals b → R.Reads locals b
  display : ∀ v, (R.face v).display = v.display
  truthy : ∀ v, (R.face v).truthy = v.truthy
  items : ∀ v, itemsOf (R.face v) = (itemsOf v).map R.face
  int : ∀ i, R.face (.int i) = .int i
  /-- Evaluation answers what it should, and leaves the host alone. -/
  eval : ∀ {locals : List Text} {b : View.Binding} {m : Machine (Stage σ)} {f : Frame}
    {st : Dict Value}, R.Reads locals b → f.Covers locals → R.Sane m → R.Fits m f → R.Known m st →
    Run.After R.stops (s.evaluate f st b)
      (fun v m' => R.face v = R.val b (R.faces f) st ∧ m'.host = m.host ∧ R.Sane m' ∧
        R.Later m m' ∧ ∀ x i item index, (x, i) ∈ (itemsOf v).zipIdx →
          R.Fits m' (roundVars item index i x :: f)) m
  near_new : ∀ {locals : List Text} {b : View.Binding} {m : Machine (Stage σ)} {f : Frame}
    {st : Dict Value} {v : Value}, R.Attr locals b → R.Fits m f → R.Known m st →
    R.face v = R.val b (R.faces f) st → R.Near b f v st

/-- What evaluation has to satisfy so that views can be patched. -/
structure Tracks (R : Reading s) : Prop where
  deps : ∀ {locals : List Text} {b : View.Binding} {m : Machine (Stage σ)} {f : Frame}
    {st st' : Dict Value}, R.Reads locals b → f.Covers locals → R.Fits m f → R.Known m st →
    R.Known m st' → (∀ n ∈ b.state, st.get? n = st'.get? n) →
    R.val b (R.faces f) st = R.val b (R.faces f) st'
  near_keep : ∀ {b : View.Binding} {f : Frame} {st st' : Dict Value} {w : Value},
    R.Near b f w st → R.val b (R.faces f) st = R.val b (R.faces f) st' → R.Near b f w st'
  near_equal : ∀ {locals : List Text} {b : View.Binding} {m : Machine (Stage σ)} {f : Frame}
    {st st' : Dict Value} {v w : Value}, R.Attr locals b → f.Covers locals → R.Fits m f →
    R.Known m st' → R.Near b f w st → R.face v = R.val b (R.faces f) st' → v.equal w = true →
    R.Near b f w st'

/-- A machine on which everything that is mounted can go on. -/
structure Fine (R : Reading s) (m : Machine (Stage σ)) : Prop where
  sane : R.Sane m
  cells : ∀ c ∈ m.host.cells, R.Fits m c.frame
  listeners : ∀ l ∈ m.host.doc.listeners, R.Fits m l.action.frame

/-- A machine on which everything can go on, some steps later. -/
structure Next (R : Reading s) (m m' : Machine (Stage σ)) : Prop where
  fine : R.Fine m'
  later : R.Later m m'

variable {R : Reading s} {m m' m'' : Machine (Stage σ)}

theorem Next.trans (hR : R.Lawful) (h : R.Next m m') (h' : R.Next m' m'') : R.Next m m'' :=
  ⟨h'.fine, hR.later_trans h.later h'.later⟩

theorem Fine.next (hR : R.Lawful) (h : R.Fine m) : R.Next m m := ⟨h, hR.later_congr rfl rfl⟩

/-- A step on the stage. -/
theorem Fine.onStage (hR : R.Lawful) (h : R.Fine m) {w : Stage σ} (hown : w.own = m.host.own)
    (hcells : ∀ c ∈ w.cells, R.Fits m c.frame)
    (hlisteners : ∀ l ∈ w.doc.listeners, R.Fits m l.action.frame) :
    R.Next m { m with host := w } := by
  have hlater : R.Later m { m with host := w } := hR.later_congr rfl rfl
  refine ⟨⟨hR.sane_congr (m := m) rfl rfl hown h.sane, fun c hc => ?_, fun l hl => ?_⟩, hlater⟩
  · exact hR.fits_later hlater (hcells c hc)
  · exact hR.fits_later hlater (hlisteners l hl)

/-- A step on the document that adds no listener. -/
theorem Fine.onDoc (hR : R.Lawful) (h : R.Fine m) {d : Dom.Document Action}
    (hlisteners : ∀ l ∈ d.listeners, l ∈ m.host.doc.listeners) :
    R.Next m { m with host := { m.host with doc := d } } :=
  h.onStage hR rfl h.cells fun l hl => h.listeners l (hlisteners l hl)

/-- A change of what a block remembers, but not of its frame. -/
theorem Fine.onCell (hR : R.Lawful) (h : R.Fine m) (i : BlockId) {f : Cell → Cell}
    (hf : ∀ c, (f c).frame = c.frame) :
    R.Next m { m with host := { m.host with cells := m.host.cells.modify i f } } := by
  refine h.onStage hR rfl (fun c hc => ?_) h.listeners
  obtain ⟨j, hj, rfl⟩ := Array.mem_iff_getElem.1 hc
  rw [Array.getElem_modify]
  have hj' : j < m.host.cells.size := by simpa using hj
  have hmem : m.host.cells[j] ∈ m.host.cells := Array.getElem_mem hj'
  split
  · rw [hf]
    exact h.cells _ hmem
  · exact h.cells _ hmem

/-- A new block. -/
theorem Fine.onNewCell (hR : R.Lawful) (h : R.Fine m) {c : Cell} (hc : R.Fits m c.frame) :
    R.Next m { m with host := { m.host with cells := m.host.cells.push c } } := by
  refine h.onStage hR rfl (fun c' hc' => ?_) h.listeners
  rcases Array.mem_push.1 hc' with hc' | rfl
  · exact h.cells c' hc'
  · exact hc

theorem Fine.onLogs (hR : R.Lawful) (h : R.Fine m) (logs : List LogEntry) :
    R.Next m { m with logs } := by
  have hlater : R.Later m { m with logs } := hR.later_congr rfl rfl
  refine ⟨⟨hR.sane_congr (m := m) rfl rfl rfl h.sane, fun c hc => ?_, fun l hl => ?_⟩, hlater⟩
  · exact hR.fits_later hlater (h.cells c hc)
  · exact hR.fits_later hlater (h.listeners l hl)

/-! ### Evaluation -/

section

variable {locals : List Text} {f : Frame} {st : Dict Value}

theorem after_evaluate (hR : R.Lawful) (h : R.Fine m) {b : View.Binding} (hb : R.Reads locals b)
    (hcov : f.Covers locals) (hf : R.Fits m f) (hst : R.Known m st) :
    Run.After R.stops (s.evaluate f st b)
      (fun v m' => R.face v = R.val b (R.faces f) st ∧ m'.host = m.host ∧ R.Next m m' ∧
        ∀ x i item index, (x, i) ∈ (itemsOf v).zipIdx →
          R.Fits m' (roundVars item index i x :: f)) m := by
  refine (hR.eval hb hcov h.sane hf hst).mono ?_
  rintro v m' ⟨hv, hhost, hsane, hlater, hrounds⟩
  refine ⟨hv, hhost, ⟨⟨hsane, fun c hc => ?_, fun l hl => ?_⟩, hlater⟩, hrounds⟩
  · exact hR.fits_later hlater (h.cells c (hhost ▸ hc))
  · exact hR.fits_later hlater (h.listeners l (hhost ▸ hl))

/-- The first branch whose condition is seen to be truthy. -/
def firstTrue (R : Reading s) (f : Frame) (st : Dict Value) (i : Nat) : List View.Binding → Nat
  | [] => i
  | t :: r => if (R.val t (R.faces f) st).truthy then i else R.firstTrue f st (i + 1) r

/-- The branch that should be shown, if any. -/
def choice (R : Reading s) (f : Frame) (st : Dict Value) (branches : List View.Branch)
    (other : View.Otherwise) : Option Nat :=
  let i := R.firstTrue f st 0 (View.testsOf branches)
  if i < branches.length || hasBody other then some i else none

theorem after_firstTrue (hR : R.Lawful) (hcov : f.Covers locals) (tests : List View.Binding) :
    ∀ {m : Machine (Stage σ)} (i : Nat), R.Fine m → R.Fits m f → R.Known m st →
    (∀ t ∈ tests, R.Reads locals t) →
    Run.After R.stops (Block.firstTrue s f st i tests)
      (fun k m' => k = R.firstTrue f st i tests ∧ m'.host = m.host ∧ R.Next m m') m := by
  induction tests with
  | nil =>
    intro m i h _ _ _
    exact ⟨rfl, rfl, h.next hR⟩
  | cons t r ih =>
    intro m i h hf hst htests
    obtain ⟨ht, hr⟩ := List.forall_mem_cons.1 htests
    refine (after_evaluate hR h ht hcov hf hst).bind ?_
    rintro v m' ⟨hv, hhost, hnext, -⟩
    rw [firstTrue, ← hv, hR.truthy]
    cases v.truthy with
    | true => exact ⟨rfl, hhost, hnext⟩
    | false =>
      refine (ih (i + 1) hnext.fine (hR.fits_later hnext.later hf) (hR.known_later hnext.later hst)
        hr).mono ?_
      rintro k m'' ⟨hk, hhost', hnext'⟩
      exact ⟨hk, hhost'.trans hhost, hnext.trans hR hnext'⟩

theorem after_select (hR : R.Lawful) (h : R.Fine m) (hcov : f.Covers locals) (hf : R.Fits m f)
    (hst : R.Known m st) {branches : List View.Branch} (other : View.Otherwise)
    (htests : ∀ t ∈ View.testsOf branches, R.Reads locals t) :
    Run.After R.stops (select s f st branches other)
      (fun key m' => key = R.choice f st branches other ∧ m'.host = m.host ∧ R.Next m m') m := by
  refine (after_firstTrue hR hcov _ 0 h hf hst htests).bind ?_
  rintro i m' ⟨rfl, hhost, hnext⟩
  exact ⟨rfl, hhost, hnext⟩

theorem after_log (hR : R.Lawful) (h : R.Fine m) (t : Text) :
    Run.After R.stops (s.log t) (fun _ m' => m'.host = m.host ∧ R.Next m m') m :=
  ⟨rfl, h.onLogs hR _⟩

theorem after_tracePatch (hR : R.Lawful) (h : R.Fine m) (n : View.Node) (dirty : Mask) :
    Run.After R.stops (tracePatch s n dirty) (fun _ m' => m'.host = m.host ∧ R.Next m m') m := by
  unfold tracePatch Tracing.write
  split
  · exact ⟨rfl, h.onLogs hR _⟩
  · exact ⟨rfl, h.next hR⟩

theorem after_items (hR : R.Lawful) (h : R.Fine m) {list : View.Binding}
    (hb : R.Reads locals list) (hcov : f.Covers locals) (hf : R.Fits m f) (hst : R.Known m st) :
    Run.After R.stops (items s f st list)
      (fun vs m' => vs.map R.face = itemsOf (R.val list (R.faces f) st) ∧ m'.host = m.host ∧
        R.Next m m' ∧ ∀ x i item index, (x, i) ∈ vs.zipIdx →
          R.Fits m' (roundVars item index i x :: f)) m := by
  refine (after_evaluate hR h hb hcov hf hst).bind ?_
  rintro v m' ⟨hv, hhost, hnext, hrounds⟩
  rw [← hv, hR.items]
  have hnone : ∀ t : Text, itemsOf v = [] →
      Run.After R.stops (do s.log t; return [])
        (fun vs m'' => vs.map R.face = (itemsOf v).map R.face ∧ m''.host = m.host ∧
          R.Next m m'' ∧ ∀ x i item index, (x, i) ∈ vs.zipIdx →
            R.Fits m'' (roundVars item index i x :: f)) m' := by
    intro t hv
    refine (after_log hR hnext.fine t).bind ?_
    rintro _ m'' ⟨hhost', hnext'⟩
    refine ⟨by rw [hv], hhost'.trans hhost, hnext.trans hR hnext', fun x i _ _ hmem => ?_⟩
    cases hmem
  cases v with
  | list vs => exact ⟨rfl, hhost, hnext, hrounds⟩
  | null => exact ⟨rfl, hhost, hnext, fun x i _ _ hmem => by cases hmem⟩
  | undefined => exact ⟨rfl, hhost, hnext, fun x i _ _ hmem => by cases hmem⟩
  | _ => exact hnone _ rfl

end

/-! ### What a tree should show -/

/-- The attributes that an element should have: each name with its text, or without one. -/
def attrSpec (attrs : List View.Attr) (ws : List Value) : Dict (Option Text) :=
  (View.fixedAttrs attrs).map (fun a => (a.1, some a.2)) ++
    ((View.boundAttrs attrs).zip ws).map fun p => (p.1.1, attrText p.2)

/-- Attributes are as they should be, in some order. -/
structure AttrsShow (as : List (Text × Text)) (spec : Dict (Option Text)) : Prop where
  nodup : (Dict.keys as).Nodup
  get : ∀ name, Dict.get? as name = (Dict.get? spec name).getD none

/-- What every block that is mounted in a frame at a node remembers. -/
structure Mounted (cell : Cell) (frame : Frame) (n : NodeId) : Prop where
  frame : cell.frame = frame
  alive : cell.done = false
  node : cell.node = some n

section

variable (R : Reading s) (st : Dict Value)

mutual

/-- A tree shows a node of a view in a frame. -/
def Shows (frame : Frame) : View.Node → Tree → Prop
  | .fixed _ value, t => ∃ i cell n, t = .leaf i cell n value ∧ Mounted cell frame n
  | .text _ b, t => ∃ i cell n, t = .leaf i cell n (R.val b (R.faces frame) st).display ∧
      Mounted cell frame n
  | .elem _ tag attrs _ _ children, t => ∃ i cell n as kids,
      t = .elem i cell n (Text.lower tag) as kids ∧ Mounted cell frame n ∧
      cell.children = kids.map Tree.id ∧
      List.Forall₂ (fun a w => R.Near a.2 frame w st) (View.boundAttrs attrs) cell.attrs ∧
      AttrsShow as (attrSpec attrs cell.attrs) ∧ showsAll frame children kids
  | .cond _ branches other, t => ∃ i cell a kids, t = .group i cell a kids ∧
      Mounted cell frame a ∧ cell.shown.map Prod.fst = R.choice frame st branches other ∧
      match cell.shown with
      | none => kids = []
      | some (key, b) => ∃ kid, kids = [kid] ∧ kid.id = b ∧
        if key < branches.length then showsBranch frame key branches kid
        else showsOtherwise frame other kid
  | .each _ list item index body, t => ∃ i cell a kids, t = .group i cell a kids ∧
      Mounted cell frame a ∧ cell.children = kids.map Tree.id ∧
      ∃ xs : List Value, xs.map R.face = itemsOf (R.val list (R.faces frame) st) ∧
        List.Forall₂ (fun x kid => Shows (roundVars item index x.2 x.1 :: frame) body kid)
          xs.zipIdx kids
  | .fragment _ children, t => ∃ i cell a kids, t = .group i cell a kids ∧
      Mounted cell frame a ∧ cell.mounted = true ∧ cell.children = kids.map Tree.id ∧
      showsAll frame children kids

/-- Trees show several nodes of a view. -/
def showsAll (frame : Frame) : List View.Node → List Tree → Prop
  | [], ts => ts = []
  | n :: r, ts => ∃ t rest, ts = t :: rest ∧ Shows frame n t ∧ showsAll frame r rest

/-- A tree shows a branch of a choice. -/
def showsBranch (frame : Frame) (k : Nat) : List View.Branch → Tree → Prop
  | [], _ => False
  | b :: r, t =>
    match k with
    | 0 => showsBody frame b t
    | k + 1 => showsBranch frame k r t

/-- A tree shows the body of a branch. -/
def showsBody (frame : Frame) : View.Branch → Tree → Prop
  | .mk _ body, t => Shows frame body t

/-- A tree shows what is rendered when no condition holds. -/
def showsOtherwise (frame : Frame) : View.Otherwise → Tree → Prop
  | .nothing, _ => False
  | .body n, t => Shows frame n t

end

end

end Reading

end Reactive.Block
