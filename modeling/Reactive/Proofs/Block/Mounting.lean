/-
Mounting renders a view.

Blocks that were just created are mounted in an empty place: they put their
nodes there, and the tree that stands there then shows the view.

* `Reading.Raises.shown`, `Reading.Raises.rounds` — a branch of a choice and the
  rounds of a loop, which come and go;
* `Reading.after_mount` — what is mounted shows the view in the state it was
  mounted with.
-/
import Reactive.Proofs.Block.Attrs

namespace Reactive.Block

open Dom (NodeId)
open Reactive.Block.Tree (rootsAll nodesAll blocksAll)

variable {σ : Type}

namespace Reading

variable {s : Site σ} {R : Reading s} {m m' m'' : Machine (Stage σ)} {st : Dict Value}
  {frame : Frame} {locals : List Text} {p : NodeId} {y : Dom.Node} {pre post : List NodeId}
  {bs : List BlockId} {id : BlockId} {cell : Cell} {n : NodeId}

/-! ### New nodes -/

/-- A run gave the block `id` a new node that has no place yet. -/
structure Owns (R : Reading s) (id : BlockId) (cell : Cell) (content : Dom.Content)
    (m : Machine (Stage σ)) (n : NodeId) (m' : Machine (Stage σ)) : Prop where
  next : R.Next m m'
  new : n = m.host.doc.nodes.size
  moves : Moves (fun _ => False) (· = id) m.host m'.host
  cell : m'.host.cells[id]? = some { cell with node := some n }
  node : m'.host.doc.nodes[n]? = some { content }

theorem after_ownNode (hR : R.Lawful) (h : R.Fine m) (hcell : m.host.cells[id]? = some cell)
    (content : Dom.Content) : Run.After R.stops (ownNode id fun d => d.create content)
      (fun n m' => R.Owns id cell content m n m') m := by
  simp only [ownNode, Run.after_bind, after_onDoc, after_modifyCell, Run.after_pure]
  have hdoc := h.onDoc hR (d := (m.host.doc.create content).2) fun _ hl => hl
  have hown := hdoc.fine.onCell hR id
    (f := fun c => { c with node := some (m.host.doc.create content).1 }) fun _ => rfl
  refine ⟨hdoc.trans hR hown, rfl, ?_, ?_, ?_⟩
  · have h₁ := Moves.onCreate (N := fun _ => False) (B := (· = id)) m.host content
    exact h₁.trans (Moves.onCell _ id _) (fun _ _ hk => hk) fun _ _ hk => hk
  · show (m.host.cells.modify id _)[id]? = _
    rw [Array.getElem?_modify, if_pos rfl, hcell]
    rfl
  · show (m.host.doc.create content).2.nodes[m.host.doc.nodes.size]? = _
    rw [Dom.Document.getElem?_create, if_pos rfl]

/-- A tree comes with a node that had no place. -/
theorem after_insertNode (hR : R.Lawful) {t : Tree} {x : Dom.Node}
    (hp : Placed m.host p y pre [] post) (hnext : R.Next m m')
    (hm : Moves (fun _ => False) (· ∈ bs) m.host m'.host) (hn : m'.host.doc.nodes[n]? = some x)
    (hx : x.parent = none) (hr : t.roots = [n]) (hnodes : t.nodes.Nodup) (hblocks : t.blocks.Nodup)
    (hnew : ∀ k ∈ t.nodes, m.host.doc.nodes.size ≤ k)
    (hbs : ∀ i ∈ t.blocks, i ∈ bs ∨ m.host.cells.size ≤ i)
    (ht : ∀ w' : Stage σ, w'.cells = m'.host.cells →
      w'.doc.nodes[n]? = some { x with parent := some p } →
      (∀ k, k ≠ p → k ≠ n → w'.doc.nodes[k]? = m'.host.doc.nodes[k]?) → t.Holds w' p) :
    Run.After R.stops (insertNode p n post.head?)
      (fun _ m'' => R.Turns p y pre post bs m [] m'' [t]) m' := by
  rw [insertNode, after_modifyDoc]
  refine ⟨hnext.trans hR (hnext.fine.onDoc hR fun l hl => ?_),
    .insert hp hm hn hx hr hnodes hblocks hnew hbs ht⟩
  have hd : (m'.host.doc.detach n) = m'.host.doc := by
    rw [Dom.Document.detach, Dom.Document.node_of_getElem? hn, hx]
  rw [Dom.Document.insert, hd] at hl
  exact hl

/-- A text comes to its place. -/
theorem Owns.leaf (hR : R.Lawful) {text : Text} (hp : Placed m.host p y pre [] post)
    (h : R.Owns id cell (.text text) m n m') :
    Run.After R.stops (insertNode p n post.head?) (fun _ m'' =>
      R.Turns p y pre post [id] m [] m'' [.leaf id { cell with node := some n } n text]) m' := by
  refine after_insertNode hR hp h.next (h.moves.mono (fun _ _ hk => hk) ?_) h.node rfl rfl
    (List.nodup_singleton n) (List.nodup_singleton id) ?_ ?_ ?_
  · rintro i _ rfl
    exact List.mem_cons_self
  · intro k hk
    rw [List.mem_singleton.1 hk, h.new]
  · exact fun i hi => Or.inl hi
  · intro w' hcells hnode _
    exact ⟨hcells ▸ h.cell, hnode⟩

/-- An anchor comes to its place. -/
theorem Owns.anchor (hR : R.Lawful) (hp : Placed m.host p y pre [] post)
    (h : R.Owns id cell .anchor m n m') :
    Run.After R.stops (insertNode p n post.head?) (fun _ m'' =>
      R.Turns p y pre post [id] m [] m'' [.group id { cell with node := some n } n []]) m' := by
  refine after_insertNode hR hp h.next (h.moves.mono (fun _ _ hk => hk) ?_) h.node rfl rfl
    (List.nodup_singleton n) (List.nodup_singleton id) ?_ ?_ ?_
  · rintro i _ rfl
    exact List.mem_cons_self
  · intro k hk
    rw [List.mem_singleton.1 hk, h.new]
  · exact fun i hi => Or.inl hi
  · intro w' hcells hnode _
    exact ⟨hcells ▸ h.cell, hnode, trivial⟩

theorem after_parentOf {a : NodeId} {kids : List Tree}
    (hp : Placed m.host p y pre [.group id cell a kids] post)
    (Q : NodeId → Machine (Stage σ) → Prop) :
    Run.After R.stops (parentOf a) Q m ↔ Q p m := by
  obtain ⟨-, ha, -⟩ := (Tree.holdsAll_singleton ..).1 hp.holds
  rw [parentOf, Run.after_bind, after_getDoc, Dom.Document.node_of_getElem? ha]
  rfl

/-! ### Branches and rounds -/

/-- What holds of mounting the blocks of a node. -/
def Raises (R : Reading s) (st : Dict Value) (locals : List Text) (v : View.Node) : Prop :=
  ∀ {m : Machine (Stage σ)} {frame : Frame} {id : BlockId} {bs : List BlockId} {p : NodeId}
    {y : Dom.Node} {pre post : List NodeId}, R.Fine m → R.Fits m frame → frame.Covers locals →
    R.Known m st → Fresh m.host.cells frame v id bs → bs.Nodup → Placed m.host p y pre [] post →
    Run.After R.stops (mount s st id p post.head? v)
      (fun _ m' => ∃ t, R.Turns p y pre post bs m [] m' [t] ∧ t.id = id ∧ R.Shows st frame v t) m

/-- Blocks that are made are mounted after other trees, before an anchor. -/
theorem Raises.before {v : View.Node} (hv : R.Raises st locals v) (h : R.Fine m)
    (hf : R.Fits m frame) (hcov : frame.Covers locals) (hst : R.Known m st) {i : BlockId}
    {a : NodeId} {kids : List Tree} (hp : Placed m.host p y pre [.group i cell a kids] post)
    {child : BlockId} (hfresh : Fresh m.host.cells frame v child bs) (hnodup : bs.Nodup)
    (hbs : ∀ k ∈ bs, k ∉ blocksAll [.group i cell a kids]) :
    Run.After R.stops (mount s st child p (some a) v)
      (fun _ m' => ∃ kid, R.Turns p y pre post bs m [.group i cell a kids] m'
        [.group i cell a (kids ++ [kid])] ∧ kid.id = child ∧ R.Shows st frame v kid) m := by
  rw [Tree.blocksAll_singleton, Tree.blocks] at hbs
  refine (hv h hf hcov hst hfresh hnodup hp.inGroup.snoc).mono ?_
  rintro _ m' ⟨kid, hturns, hid, hshows⟩
  refine ⟨kid, .inGroup hp (hturns.snoc hp.inGroup ?_) ?_, hid, hshows⟩
  · exact fun k hk hmem => hbs k hk (List.mem_cons_of_mem _ hmem)
  · rintro k hk rfl
    exact hbs k hk List.mem_cons_self

/-- A run that shows something where nothing was shown, under a key. -/
def Brings (R : Reading s) (p : NodeId) (y : Dom.Node) (pre post : List NodeId) (i : BlockId)
    (cell : Cell) (a : NodeId) (key : Nat) (x : Run (Stage σ) Unit) (shows : Tree → Prop)
    (m : Machine (Stage σ)) : Prop :=
  Run.After R.stops x (fun _ m' => ∃ kid, R.Turns p y pre post [] m [.group i cell a []] m'
    [.group i { cell with shown := some (key, kid.id) } a [kid]] ∧ shows kid) m

/-- A branch is shown where none was. -/
theorem Raises.shown (hR : R.Lawful) {v : View.Node} (hv : R.Raises st locals v) (h : R.Fine m)
    (hf : R.Fits m frame) (hcov : frame.Covers locals) (hst : R.Known m st) {i : BlockId}
    {a : NodeId} (key : Nat) (hp : Placed m.host p y pre [.group i cell a []] post) :
    R.Brings p y pre post i cell a key (do
        let b ← create frame v
        modifyCell i fun c => { c with shown := some (key, b) }
        mount s st b (← parentOf a) (some a) v) (R.Shows st frame v) m := by
  have hi := (Array.getElem?_eq_some_iff.1 hp.cell).1
  refine (after_create hR v h hf).bind ?_
  rintro b m₁ ⟨bs, hmakes, hfresh⟩
  have h₁ := hmakes.turns hp
  have hbs : ∀ k ∈ bs, k ≠ i := by
    rintro k hk rfl
    exact absurd hi (Nat.not_lt.2 (hmakes.new k hk))
  refine (after_remember (f := fun c => { c with shown := some (key, b) }) hR h₁.fine h₁.placed
    fun _ => rfl).bind ?_
  intro _ m₂ h₂
  have hlater := hR.later_trans h₁.next.later h₂.next.later
  rw [Run.after_bind, after_parentOf h₂.placed]
  refine (hv.before h₂.fine (hR.fits_later hlater hf) hcov (hR.known_later hlater hst)
    h₂.placed (hfresh.congr fun k hk => ?_) hmakes.nodup ?_).mono ?_
  · refine h₂.becomes.moves.block k (hfresh.lt k hk) ?_
    rintro (hmem | hmem)
    · exact hbs k hk (List.mem_singleton.1 hmem)
    · exact absurd hmem List.not_mem_nil
  · intro k hk hmem
    exact hbs k hk (List.mem_singleton.1 hmem)
  · rintro _ m₃ ⟨kid, h₃, rfl, hshows⟩
    refine ⟨kid, (h₁.trans_nil hR h₂).trans hR h₃ fun k hk => ?_, hshows⟩
    exact Or.inr (Or.inr (hmakes.new k hk))

/-- What a choice should show is shown. -/
theorem after_choice (hR : R.Lawful) (h : R.Fine m) {i : BlockId} {a : NodeId}
    (hcell : Mounted cell frame a) (hnone : cell.shown = none)
    (hp : Placed m.host p y pre [.group i cell a []] post) (num : Nat)
    {branches : List View.Branch} {other : View.Otherwise}
    (hbranch : ∀ k, k < branches.length → R.Brings p y pre post i cell a k
      (showBranch s st i a frame k k branches) (R.showsBranch st frame k branches) m)
    (hother : ∀ k, hasBody other = true → R.Brings p y pre post i cell a k
      (showOtherwise s st i a frame k other) (R.showsOtherwise st frame other) m) :
    Run.After R.stops (match R.choice frame st branches other with
      | none => pure ()
      | some k => if k < branches.length then showBranch s st i a frame k k branches
        else showOtherwise s st i a frame k other)
      (fun _ m' => ∃ t, R.Turns p y pre post [] m [.group i cell a []] m' [t] ∧ t.id = i ∧
        R.Shows st frame (.cond num branches other) t) m := by
  cases hchoice : R.choice frame st branches other with
  | none =>
    refine ⟨_, .refl hR h hp, rfl, i, cell, a, [], rfl, hcell, ?_, ?_⟩
    · rw [hnone, hchoice]
      rfl
    · rw [hnone]
  | some k =>
    have hk : k < branches.length ∨ hasBody other = true := by
      simp only [choice] at hchoice
      split at hchoice
      · rename_i hor
        rw [Bool.or_eq_true, decide_eq_true_eq, Option.some.inj hchoice] at hor
        exact hor
      · cases hchoice
    by_cases hlt : k < branches.length
    · simp only [if_pos hlt]
      refine (hbranch k hlt).mono ?_
      rintro _ m' ⟨kid, hturns, hkid⟩
      refine ⟨_, hturns, rfl, i, _, a, [kid], rfl, ⟨hcell.frame, hcell.alive, hcell.node⟩,
        hchoice.symm, kid, rfl, rfl, ?_⟩
      rw [if_pos hlt]
      exact hkid
    · simp only [if_neg hlt]
      refine (hother k (hk.resolve_left hlt)).mono ?_
      rintro _ m' ⟨kid, hturns, hkid⟩
      refine ⟨_, hturns, rfl, i, _, a, [kid], rfl, ⟨hcell.frame, hcell.alive, hcell.node⟩,
        hchoice.symm, kid, rfl, rfl, ?_⟩
      rw [if_neg hlt]
      exact hkid

/-- The rounds of a loop are mounted one after another. -/
theorem Raises.rounds (hR : R.Lawful) {body : View.Node} {item index : Text}
    (hbody : R.Raises st (View.loopNames item index locals) body) (hcov : frame.Covers locals)
    {i : BlockId} {a : NodeId} : ∀ (xs : List (Value × Nat)) {m : Machine (Stage σ)} {cell : Cell}
    {kids : List Tree}, R.Fine m → R.Known m st →
    (∀ x ∈ xs, R.Fits m (roundVars item index x.2 x.1 :: frame)) →
    cell.children = kids.map Tree.id → Placed m.host p y pre [.group i cell a kids] post →
    Run.After R.stops (xs.forM fun (v, j) => do
        let parent ← parentOf a
        let child ← create (roundVars item index j v :: frame) body
        mount s st child parent (some a) body
        modifyCell i fun c => { c with children := c.children ++ [child] })
      (fun _ m' => ∃ more, R.Turns p y pre post [] m [.group i cell a kids] m'
          [.group i { cell with children := (kids ++ more).map Tree.id } a (kids ++ more)] ∧
        List.Forall₂ (fun x kid => R.Shows st (roundVars item index x.2 x.1 :: frame) body kid)
          xs more) m
  | [], m, cell, kids, h, _, _, hids, hp => by
    refine ⟨[], ?_, .nil⟩
    rw [List.append_nil, ← hids]
    exact .refl hR h hp
  | (v, j) :: r, m, cell, kids, h, hst, hfits, hids, hp => by
    refine (Run.after_bind _ _ _).2 ((Run.after_bind _ _ _).2 ((after_parentOf hp _).2 ?_))
    have hf : R.Fits m (roundVars item index j v :: frame) := hfits (v, j) List.mem_cons_self
    refine (after_create hR body h hf).bind ?_
    rintro child m₁ ⟨bs, hmakes, hfresh⟩
    have h₁ := hmakes.turns hp
    have hbs : ∀ k ∈ bs, k ∉ blocksAll [.group i cell a kids] := by
      intro k hk hmem
      exact absurd (hp.holds.block_lt k hmem) (Nat.not_lt.2 (hmakes.new k hk))
    refine (hbody.before h₁.fine (hR.fits_later h₁.next.later hf) (hcov.round item index j v)
      (hR.known_later h₁.next.later hst) h₁.placed hfresh hmakes.nodup hbs).bind ?_
    rintro _ m₂ ⟨kid, h₂, rfl, hshows⟩
    refine (after_remember (f := fun c => { c with children := c.children ++ [kid.id] }) hR h₂.fine
      h₂.placed fun _ => rfl).mono ?_
    intro _ m₃ h₃
    have h₃' : R.Turns p y pre post [] m [.group i cell a kids] m₃
        [.group i { cell with children := cell.children ++ [kid.id] } a (kids ++ [kid])] := by
      refine (h₁.trans hR h₂ fun k hk => ?_).trans_nil hR h₃
      exact Or.inr (Or.inr (hmakes.new k hk))
    refine (Raises.rounds hR hbody hcov r h₃.fine (hR.known_later h₃'.next.later hst) ?_ ?_
      h₃'.placed).mono ?_
    · exact fun x hx => hR.fits_later h₃'.next.later (hfits x (List.mem_cons_of_mem _ hx))
    · rw [hids, List.map_append]
      rfl
    · rintro _ m₄ ⟨more, h₄, hmore⟩
      refine ⟨kid :: more, ?_, .cons hshows hmore⟩
      rw [List.append_cons]
      exact h₃'.trans_nil hR h₄

/-- The list of a loop is evaluated and its rounds are mounted. -/
theorem after_rounds (hR : R.Lawful) {body : View.Node} {list : View.Binding} {item index : Text}
    (hbody : R.Raises st (View.loopNames item index locals) body) (hlist : R.Reads locals list)
    (h : R.Fine m) (hf : R.Fits m frame) (hcov : frame.Covers locals) (hst : R.Known m st)
    {i : BlockId} {a : NodeId} (hcell : Mounted cell frame a) (hnone : cell.children = [])
    (hp : Placed m.host p y pre [.group i cell a []] post) (num : Nat) :
    Run.After R.stops (rounds s st i a frame list item index body fun child parent =>
        mount s st child parent (some a) body)
      (fun _ m' => ∃ t, R.Turns p y pre post [] m [.group i cell a []] m' [t] ∧ t.id = i ∧
        R.Shows st frame (.each num list item index body) t) m := by
  refine (after_items hR h hlist hcov hf hst).bind ?_
  rintro xs m₁ ⟨hxs, hhost, hnext, hfits⟩
  have h₁ : R.Turns p y pre post [] m _ m₁ _ := .of_host hp hhost hnext
  refine (hbody.rounds hR hcov xs.zipIdx h₁.fine (hR.known_later hnext.later hst)
    (fun x hx => hfits x.1 x.2 item index hx) hnone h₁.placed).mono ?_
  rintro _ m₂ ⟨kids, h₂, hkids⟩
  exact ⟨_, h₁.trans_nil hR h₂, rfl, i, _, a, kids, rfl, ⟨hcell.frame, hcell.alive, hcell.node⟩, rfl,
    xs, hxs, hkids⟩

/-! ### Elements -/

theorem after_onBlock (hR : R.Lawful) (h : R.Fine m) (hcell : m.host.cells[id]? = some cell)
    {f : Cell → Cell} (hf : ∀ c, (f c).frame = c.frame) :
    Run.After R.stops (modifyCell id f) (fun _ m' => R.Next m m' ∧
      Moves (fun _ => False) (· = id) m.host m'.host ∧ m'.host.doc = m.host.doc ∧
      m'.host.cells[id]? = some (f cell)) m := by
  rw [after_modifyCell]
  refine ⟨h.onCell hR id hf, .onCell m.host id f, rfl, ?_⟩
  show (m.host.cells.modify id f)[id]? = _
  rw [Array.getElem?_modify, if_pos rfl, hcell]
  rfl

theorem after_listen (hR : R.Lawful) (h : R.Fine m) (hf : R.Fits m frame) (a : View.Handler) :
    Run.After R.stops (onDoc fun d => d.listen n a.event ⟨a, frame⟩) (fun _ m' => R.Next m m' ∧
      m'.host.doc.nodes = m.host.doc.nodes ∧ m'.host.cells = m.host.cells ∧
      m'.host.own = m.host.own) m := by
  rw [after_onDoc]
  refine ⟨h.onStage hR rfl h.cells fun l hl => ?_, rfl, rfl, rfl⟩
  rcases List.mem_append.1 hl with hl | hl
  · exact h.listeners l hl
  · rw [List.mem_singleton.1 hl]
    exact hf

/-- The listeners of an element are added. -/
theorem after_mountHandlers (hR : R.Lawful) : ∀ (hs : List View.Handler) {m : Machine (Stage σ)}
    {cell : Cell}, R.Fine m → R.Fits m frame → m.host.cells[id]? = some cell →
    Run.After R.stops (mountHandlers id n frame hs) (fun _ m' => R.Next m m' ∧
      Moves (fun _ => False) (· = id) m.host m'.host ∧ m'.host.doc.nodes = m.host.doc.nodes ∧
      ∃ ls, m'.host.cells[id]? = some { cell with listeners := ls }) m
  | [], m, cell, h, _, hcell => ⟨h.next hR, .refl _, rfl, cell.listeners, hcell⟩
  | a :: r, m, cell, h, hf, hcell => by
    rw [mountHandlers]
    refine (after_listen hR h hf a).bind ?_
    rintro l m₁ ⟨hnext₁, hnodes₁, hcells₁, hown₁⟩
    have hmoves₁ : Moves (fun _ => False) (· = id) m.host m₁.host :=
      ⟨Nat.le_of_eq (by rw [hnodes₁]), Nat.le_of_eq (by rw [hcells₁]),
        fun _ _ _ => by rw [hnodes₁], fun _ _ _ => by rw [hcells₁], hown₁⟩
    rw [← hcells₁] at hcell
    refine (after_onBlock (f := fun c => { c with listeners := c.listeners ++ [l] }) hR hnext₁.fine
      hcell fun _ => rfl).bind ?_
    rintro _ m₂ ⟨hnext₂, hmoves₂, hdoc₂, hcell₂⟩
    have hnext := hnext₁.trans hR hnext₂
    refine (after_mountHandlers hR r hnext.fine (hR.fits_later hnext.later hf) hcell₂).mono ?_
    rintro _ m₃ ⟨hnext₃, hmoves₃, hnodes₃, ls, hcell₃⟩
    refine ⟨hnext.trans hR hnext₃, ?_, ?_, ls, hcell₃⟩
    · exact (hmoves₁.trans hmoves₂ (fun _ _ hk => hk) fun _ _ hk => hk).trans hmoves₃
        (fun _ _ hk => hk) fun _ _ hk => hk
    · rw [hnodes₃, hdoc₂, hnodes₁]

/-- An element with all of its own on it, but nothing in it and without a place. -/
structure Bare (R : Reading s) (st : Dict Value) (frame : Frame) (attrs : List View.Attr)
    (tag : Text) (id : BlockId) (cell : Cell) (m : Machine (Stage σ)) (n : NodeId)
    (as : List (Text × Text)) (cell' : Cell) (m' : Machine (Stage σ)) : Prop where
  next : R.Next m m'
  new : n = m.host.doc.nodes.size
  moves : Moves (fun _ => False) (· = id) m.host m'.host
  node : m'.host.doc.nodes[n]? = some { content := .element tag, attrs := as }
  block : m'.host.cells[id]? = some cell'
  mounted : Mounted cell' frame n
  children : cell'.children = cell.children
  near : List.Forall₂ (fun a w => R.Near a.2 frame w st) (View.boundAttrs attrs) cell'.attrs
  shows : AttrsShow as (attrSpec attrs cell'.attrs)

/-- An element is made: its attributes are written and its listeners added. -/
theorem after_bare (hR : R.Lawful) (h : R.Fine m) (hf : R.Fits m frame) (hst : R.Known m st)
    (hcov : frame.Covers locals) (hcell : m.host.cells[id]? = some cell)
    (hframe : cell.frame = frame) (halive : cell.done = false) {attrs : List View.Attr}
    (hnames : (attrs.map View.Attr.name).Nodup)
    (hattr : ∀ a ∈ View.boundAttrs attrs, R.Attr locals a.2) (tag : Text)
    (handlers : List View.Handler) {Q : Unit → Machine (Stage σ) → Prop}
    {rest : NodeId → Run (Stage σ) Unit}
    (hQ : ∀ {n as cell' m'}, R.Bare st frame attrs (Text.lower tag) id cell m n as cell' m' →
      Run.After R.stops (rest n) Q m') :
    Run.After R.stops (do
      let n ← ownNode id fun d => d.createElement tag
      modifyDoc fun d => d.modifyAttrs n fun as =>
        (View.fixedAttrs attrs).foldl (fun as a => Dom.setAttr a.1 a.2 as) as
      modifyCell id fun c => { c with attrs := (View.boundAttrs attrs).map fun _ => .undefined }
      mountAttrs s st id n frame 0 (View.boundAttrs attrs)
      modifyCell id fun c => { c with toggles := [] }
      mountHandlers id n frame handlers
      rest n) Q m := by
  refine (after_ownNode hR h hcell (.element (Text.lower tag))).bind ?_
  intro n m₁ h₁
  have hnew : ∀ k, k < m.host.doc.nodes.size → k = n → False := by
    rintro k hk rfl
    exact Nat.lt_irrefl _ (h₁.new ▸ hk)
  -- The fixed attributes; the bound ones have no values yet.
  have h₂ : Run.After R.stops (modifyDoc fun d => d.modifyAttrs n fun as =>
        (View.fixedAttrs attrs).foldl (fun as a => Dom.setAttr a.1 a.2 as) as)
      (fun _ m₂ => R.Next m m₂ ∧ Moves (fun _ => False) (· = id) m.host m₂.host ∧
        m₂.host.cells = m₁.host.cells ∧ m₂.host.doc.nodes[n]? = some
          { content := .element (Text.lower tag), attrs :=
            (View.fixedAttrs attrs).foldl (fun as a => Dom.setAttr a.1 a.2 as) [] }) m₁ := by
    rw [after_modifyDoc]
    refine ⟨h₁.next.trans hR (h₁.next.fine.onDoc hR fun _ hl => hl), ?_, rfl, ?_⟩
    · exact h₁.moves.trans (Moves.onNode m₁.host n _) hnew fun _ _ hk => hk
    · show (m₁.host.doc.modifyNode n _).nodes[n]? = _
      rw [Dom.Document.getElem?_modifyNode, if_pos rfl, h₁.node]
      rfl
  refine h₂.bind ?_
  rintro _ m₂ ⟨hnext₂, hmoves₂, hcells₂, hnode₂⟩
  refine (after_onBlock (f := fun c =>
    { c with attrs := (View.boundAttrs attrs).map fun _ => .undefined }) hR hnext₂.fine
    (hcells₂ ▸ h₁.cell) fun _ => rfl).bind ?_
  rintro _ m₃ ⟨hnext₃, hmoves₃, hdoc₃, hcell₃⟩
  have hnext := hnext₂.trans hR hnext₃
  have hmoves := hmoves₂.trans hmoves₃ (fun _ _ hk => hk) fun _ _ hk => hk
  have hwears : Wears attrs m₃.host id n { cell with node := some n }
      { content := .element (Text.lower tag) }
      ([] ++ (View.boundAttrs attrs).map fun _ => Value.undefined) :=
    ⟨hcell₃, _, hdoc₃ ▸ hnode₂, .start hnames⟩
  refine (after_mountAttrs hR hnames hcov _ hnext.fine (hR.fits_later hnext.later hf)
    (hR.known_later hnext.later hst) (List.nil_append _).symm hattr .nil (List.length_map _)
    hwears).bind ?_
  rintro _ m₄ ⟨ws, h₄, hnear⟩
  obtain ⟨as, hnode₄, has⟩ := h₄.wears.node
  refine (after_onBlock (f := fun c => { c with toggles := [] }) hR h₄.next.fine h₄.wears.cell
    fun _ => rfl).bind ?_
  rintro _ m₅ ⟨hnext₅, hmoves₅, hdoc₅, hcell₅⟩
  have hnext' := (hnext.trans hR h₄.next).trans hR hnext₅
  refine (after_mountHandlers hR handlers hnext'.fine (hR.fits_later hnext'.later hf)
    hcell₅).bind ?_
  rintro _ m₆ ⟨hnext₆, hmoves₆, hnodes₆, ls, hcell₆⟩
  refine hQ ⟨hnext'.trans hR hnext₆, h₁.new, ?_, ?_, hcell₆, ⟨hframe, halive, rfl⟩, rfl, hnear, has⟩
  · exact ((hmoves.trans h₄.moves hnew fun _ _ hk => hk).trans hmoves₅ (fun _ _ hk => hk)
      fun _ _ hk => hk).trans hmoves₆ (fun _ _ hk => hk) fun _ _ hk => hk
  · rw [hnodes₆, hdoc₅]
    exact hnode₄

/-! ### Whole views -/

mutual

/-- What is mounted shows the view. -/
theorem after_mount (hR : R.Lawful) : ∀ (v : View.Node) {locals : List Text}, v.Plain →
    v.Every R.Reads R.Attr locals → R.Raises st locals v
  | .fixed _ value, locals, _, _, m, frame, id, bs, p, y, pre, post, h, hf, hcov, hst, hfresh,
      hnodup, hp => by
    obtain ⟨rfl, hcell⟩ := hfresh
    rw [mount, Run.after_bind, after_getCell, getD_of_getElem? hcell]
    refine (after_ownNode hR h hcell (.text value)).bind ?_
    intro n m₁ h₁
    refine (h₁.leaf hR hp).mono ?_
    intro _ m₂ h₂
    exact ⟨_, h₂, rfl, id, _, n, rfl, rfl, rfl, rfl⟩
  | .text _ b, locals, _, hev, m, frame, id, bs, p, y, pre, post, h, hf, hcov, hst, hfresh,
      hnodup, hp => by
    obtain ⟨rfl, hcell⟩ := hfresh
    rw [mount, Run.after_bind, after_getCell, getD_of_getElem? hcell]
    refine (after_evaluate hR h hev hcov hf hst).bind ?_
    rintro v m₁ ⟨hv, hhost, hnext, -⟩
    have hp₁ : Placed m₁.host p y pre [] post := by rwa [hhost]
    have h₁ : R.Turns p y pre post [id] m [] m₁ [] := .of_host hp hhost hnext
    refine (after_ownNode hR hnext.fine (hhost ▸ hcell) (.text v.display)).bind ?_
    intro n m₂ h₂
    refine (h₂.leaf hR hp₁).mono ?_
    intro _ m₃ h₃
    refine ⟨_, h₁.trans hR h₃ fun i hi => Or.inr (Or.inl hi), rfl, id, { frame, node := some n }, n,
      ?_, rfl, rfl, rfl⟩
    rw [← hv, hR.display]
  | .elem _ tag attrs toggles handlers children, locals, hplain, hev, m, frame, id, bs, p, y, pre,
      post, h, hf, hcov, hst, hfresh, hnodup, hp => by
    obtain ⟨ids, cs, rfl, hcell, hkids⟩ := hfresh
    obtain ⟨rfl, hnames, hplain⟩ := hplain
    obtain ⟨hattr, hev⟩ := hev
    rw [List.nodup_cons] at hnodup
    rw [mount, Run.after_bind, after_getCell, getD_of_getElem? hcell]
    refine after_bare hR h hf hst hcov hcell rfl rfl hnames hattr tag handlers ?_
    intro n as cell' m₁ h₁
    have hlater := h₁.next.later
    -- The element is a place of its own for what is mounted in it.
    have hinner : Placed m₁.host n { content := .element (Text.lower tag), attrs := as } [] [] [] :=
      ⟨h₁.node, rfl, trivial, List.nodup_nil, List.nodup_nil, List.not_mem_nil, List.nodup_nil,
        fun _ hk => absurd hk List.not_mem_nil⟩
    have hfresh₁ : freshAll m₁.host.cells frame children ids cs := by
      refine hkids.congr fun i hi => h₁.moves.block i (hkids.lt i hi) ?_
      rintro rfl
      exact hnodup.1 hi
    refine (after_mountAll hR children hplain hev h₁.next.fine (hR.fits_later hlater hf) hcov
      (hR.known_later hlater hst) hfresh₁ hnodup.2 hinner).bind ?_
    rintro _ m₂ ⟨kids, h₂, hids, hshows⟩
    have hid : id < m₁.host.cells.size := (Array.getElem?_eq_some_iff.1 h₁.block).1
    have hcell₂ : m₂.host.cells[id]? = some cell' := by
      refine (h₂.becomes.moves.block id hid ?_).trans h₁.block
      rintro (hmem | hmem)
      · exact absurd hmem List.not_mem_nil
      · exact hnodup.1 hmem
    have hnew : ∀ k ∈ nodesAll kids, m.host.doc.nodes.size ≤ k := by
      intro k hk
      refine (h₂.becomes.nodes k hk).elim (fun hmem => absurd hmem List.not_mem_nil) ?_
      exact Nat.le_trans h₁.moves.size
    have hblocks : ∀ i ∈ blocksAll kids, i ∈ cs ∨ m₁.host.cells.size ≤ i := by
      intro i hi
      exact (h₂.becomes.blocks i hi).resolve_left List.not_mem_nil
    have hmoves : Moves (fun _ => False) (· ∈ id :: cs) m.host m₂.host := by
      refine (h₁.moves.mono (fun _ _ hk => hk) ?_).trans h₂.becomes.moves ?_ ?_
      · rintro i _ rfl
        exact List.mem_cons_self
      · rintro k hk (rfl | hmem)
        · exact Nat.lt_irrefl _ (h₁.new ▸ hk)
        · exact absurd hmem List.not_mem_nil
      · rintro i _ (hmem | hmem)
        · exact absurd hmem List.not_mem_nil
        · exact List.mem_cons_of_mem _ hmem
    refine (after_insertNode (t := .elem id cell' n (Text.lower tag) as kids) hR hp
      (h₁.next.trans hR h₂.next) hmoves h₂.placed.parent rfl rfl ?_ ?_ ?_ ?_ ?_).mono ?_
    · rw [Tree.nodes, List.nodup_cons]
      exact ⟨h₂.placed.outside, h₂.placed.nodes⟩
    · rw [Tree.blocks, List.nodup_cons]
      refine ⟨fun hmem => ?_, h₂.placed.blocks⟩
      rcases hblocks id hmem with hmem | hmem
      · exact hnodup.1 hmem
      · exact absurd hid (Nat.not_lt.2 hmem)
    · intro k hk
      rcases List.mem_cons.1 hk with rfl | hk
      · exact Nat.le_of_eq h₁.new.symm
      · exact hnew k hk
    · intro i hi
      rcases List.mem_cons.1 hi with rfl | hi
      · exact Or.inl List.mem_cons_self
      · exact (hblocks i hi).imp (List.mem_cons_of_mem _) (Nat.le_trans h₁.moves.count)
    · intro w' hcells hnode hother
      refine ⟨hcells ▸ hcell₂, ?_, h₂.placed.holds.congr (fun k hk => hother k ?_ ?_)
        fun i _ => by rw [hcells]⟩
      · rw [hnode, List.nil_append, List.append_nil]
      · rintro rfl
        exact absurd hp.parent_lt (Nat.not_lt.2 (hnew k hk))
      · rintro rfl
        exact h₂.placed.outside hk
    · intro _ m₃ h₃
      exact ⟨_, h₃, rfl, id, cell', n, as, kids, rfl, h₁.mounted, h₁.children.trans hids.symm,
        h₁.near, h₁.shows, hshows⟩
  | .cond num branches other, locals, hplain, hev, m, frame, id, bs, p, y, pre, post, h, hf, hcov,
      hst, hfresh, hnodup, hp => by
    obtain ⟨rfl, hcell⟩ := hfresh
    rw [mount, Run.after_bind, after_getCell, getD_of_getElem? hcell]
    refine (after_ownNode hR h hcell .anchor).bind ?_
    intro n m₁ h₁
    refine (h₁.anchor hR hp).bind ?_
    intro _ m₂ h₂
    have hlater := h₂.next.later
    refine (after_select hR h₂.fine hcov (hR.fits_later hlater hf) (hR.known_later hlater hst) other
      hev.1.tests).bind ?_
    rintro key m₃ ⟨rfl, hhost, hnext⟩
    have h₃ : R.Turns p y pre post [] m₂ _ m₃ _ := .of_host h₂.placed hhost hnext
    have h₃' := h₂.trans_nil hR h₃
    have hlater' := h₃'.next.later
    refine (after_clear hR st frame h₃.fine h₃.placed rfl).bind ?_
    intro _ m₄ h₄
    have hlater' := hR.later_trans h₃'.next.later h₄.next.later
    refine (after_choice hR h₄.fine ⟨rfl, rfl, rfl⟩ rfl h₄.placed num (fun k hk => ?_)
      fun k hk => ?_).mono ?_
    · exact after_showBranch hR branches hplain.1 hev.1 h₄.fine (hR.fits_later hlater' hf) hcov
        (hR.known_later hlater' hst) hk h₄.placed
    · exact after_showOtherwise hR other hplain.2 hev.2 h₄.fine (hR.fits_later hlater' hf) hcov
        (hR.known_later hlater' hst) hk h₄.placed
    · rintro _ m₅ ⟨t, h₅, hid, hshows⟩
      exact ⟨t, (h₃'.trans_nil hR h₄).trans_nil hR h₅, hid, hshows⟩
  | .each num list item index body, locals, hplain, hev, m, frame, id, bs, p, y, pre, post, h, hf,
      hcov, hst, hfresh, hnodup, hp => by
    obtain ⟨rfl, hcell⟩ := hfresh
    rw [mount, Run.after_bind, after_getCell, getD_of_getElem? hcell]
    refine (after_ownNode hR h hcell .anchor).bind ?_
    intro n m₁ h₁
    refine (h₁.anchor hR hp).bind ?_
    intro _ m₂ h₂
    have hlater := h₂.next.later
    refine (after_rounds hR (after_mount hR body hplain hev.2) hev.1 h₂.fine (hR.fits_later hlater hf)
      hcov (hR.known_later hlater hst) ⟨rfl, rfl, rfl⟩ rfl h₂.placed num).mono ?_
    rintro _ m₃ ⟨t, h₃, hid, hshows⟩
    exact ⟨t, h₂.trans_nil hR h₃, hid, hshows⟩
  | .fragment _ children, locals, hplain, hev, m, frame, id, bs, p, y, pre, post, h, hf, hcov,
      hst, hfresh, hnodup, hp => by
    obtain ⟨ids, cs, rfl, hcell, hkids⟩ := hfresh
    rw [List.nodup_cons] at hnodup
    rw [mount, Run.after_bind, after_getCell, getD_of_getElem? hcell]
    refine (after_onBlock (f := fun c => { c with mounted := true }) hR h hcell
      fun _ => rfl).bind ?_
    rintro _ m₁ ⟨hnext₁, hmoves₁, hdoc₁, hcell₁⟩
    have hp₁ := hp.moves hmoves₁ not_false
    refine (after_ownNode hR hnext₁.fine hcell₁ .anchor).bind ?_
    intro n m₂ h₂
    refine (h₂.anchor hR hp₁).bind ?_
    intro _ m₃ h₃
    have h₁ : R.Turns p y pre post [id] m [] m₁ [] := by
      refine ⟨hnext₁, hmoves₁.mono (fun _ _ hk => hk.elim) ?_, hp₁,
        fun _ hk => absurd hk List.not_mem_nil, fun _ hk => absurd hk List.not_mem_nil⟩
      rintro i _ rfl
      exact Or.inr List.mem_cons_self
    have h₃' : R.Turns p y pre post [id] m [] m₃ _ :=
      h₁.trans hR h₃ fun i hi => Or.inr (Or.inl hi)
    have hlater := h₃'.next.later
    have hfresh₃ : freshAll m₃.host.cells frame children ids cs := by
      refine hkids.congr fun i hi => h₃'.becomes.moves.block i (hkids.lt i hi) ?_
      rintro (hmem | hmem)
      · exact absurd hmem List.not_mem_nil
      · obtain rfl := List.mem_singleton.1 hmem
        exact hnodup.1 hi
    refine (after_mountAll hR children hplain hev h₃.fine (hR.fits_later hlater hf) hcov
      (hR.known_later hlater hst) hfresh₃ hnodup.2 h₃.placed.inGroup).mono ?_
    rintro _ m₄ ⟨kids, h₄, hids, hshows⟩
    have h₄' := h₄.inGroup h₃.placed fun i hi => by
      rintro rfl
      exact hnodup.1 hi
    refine ⟨_, (h₃'.mono fun i hi => ?_).trans hR h₄' fun i hi => ?_, rfl, id, _, n, kids, rfl,
      ⟨rfl, rfl, rfl⟩, rfl, hids.symm, hshows⟩
    · rw [List.mem_singleton.1 hi]
      exact List.mem_cons_self
    · exact Or.inr (Or.inl (List.mem_cons_of_mem _ hi))

theorem after_mountAll (hR : R.Lawful) : ∀ (vs : List View.Node) {locals : List Text},
    View.plainAll vs → View.everyAll R.Reads R.Attr locals vs → ∀ {m : Machine (Stage σ)}
    {frame : Frame} {ids bs : List BlockId} {p : NodeId} {y : Dom.Node} {pre post : List NodeId},
    R.Fine m → R.Fits m frame → frame.Covers locals → R.Known m st →
    freshAll m.host.cells frame vs ids bs → bs.Nodup → Placed m.host p y pre [] post →
    Run.After R.stops (mountAll s st ids p post.head? vs)
      (fun _ m' => ∃ ts, R.Turns p y pre post bs m [] m' ts ∧ ts.map Tree.id = ids ∧
        R.showsAll st frame vs ts) m
  | [], locals, _, _, m, frame, ids, bs, p, y, pre, post, h, _, _, _, hfresh, _, hp => by
    obtain ⟨rfl, rfl⟩ := hfresh
    rw [mountAll]
    exact ⟨[], .refl hR h hp, rfl, rfl⟩
  | v :: r, locals, hplain, hev, m, frame, ids, bs, p, y, pre, post, h, hf, hcov, hst, hfresh,
      hnodup, hp => by
    obtain ⟨id, rest, b, c, rfl, rfl, hv, hr⟩ := hfresh
    obtain ⟨hb, hc, hdisj⟩ := List.nodup_append.1 hnodup
    rw [mountAll]
    refine (after_mount hR v hplain.1 hev.1 h hf hcov hst hv hb hp).bind ?_
    rintro _ m₁ ⟨t, h₁, rfl, ht⟩
    have hlater := h₁.next.later
    -- The blocks of the other nodes are not touched.
    have hr₁ : freshAll m₁.host.cells frame r rest c := by
      refine hr.congr fun i hi => h₁.becomes.moves.block i (hr.lt i hi) ?_
      rintro (hmem | hmem)
      · exact absurd hmem List.not_mem_nil
      · exact hdisj i hmem i hi rfl
    refine (after_mountAll hR r hplain.2 hev.2 h₁.fine (hR.fits_later hlater hf) hcov
      (hR.known_later hlater hst) hr₁ hc h₁.placed.snoc).mono ?_
    rintro _ m₂ ⟨ts, h₂, rfl, hts⟩
    refine ⟨t :: ts, ?_, rfl, t, ts, rfl, ht, hts⟩
    have h₂' := h₂.snoc h₁.placed fun i hi hmem => by
      rcases h₁.becomes.blocks i hmem with hmem | hmem | hmem
      · exact absurd hmem List.not_mem_nil
      · exact hdisj i hmem i hi rfl
      · exact absurd (hr.lt i hi) (Nat.not_lt.2 hmem)
    refine (h₁.mono fun i hi => List.mem_append.2 (Or.inl hi)).trans hR h₂' fun i hi => ?_
    exact Or.inr (Or.inl (List.mem_append.2 (Or.inr hi)))

theorem after_showBranch (hR : R.Lawful) : ∀ (branches : List View.Branch) {locals : List Text},
    View.plainBranches branches → View.everyBranch R.Reads R.Attr locals branches →
    ∀ {m : Machine (Stage σ)} {frame : Frame} {i : BlockId} {cell : Cell} {a : NodeId}
    {key k : Nat} {p : NodeId} {y : Dom.Node} {pre post : List NodeId},
    R.Fine m → R.Fits m frame → frame.Covers locals → R.Known m st → k < branches.length →
    Placed m.host p y pre [.group i cell a []] post →
    Run.After R.stops (showBranch s st i a frame key k branches)
      (fun _ m' => ∃ kid, R.Turns p y pre post [] m [.group i cell a []] m'
        [.group i { cell with shown := some (key, kid.id) } a [kid]] ∧
        R.showsBranch st frame k branches kid) m
  | .mk _ body :: _, _, hplain, hev, _, _, _, _, _, key, 0, _, _, _, _, h, hf, hcov, hst, _, hp =>
    Raises.shown hR (after_mount hR body hplain.1 hev.1.2) h hf hcov hst key hp
  | _ :: r, _, hplain, hev, _, _, _, _, _, _, _ + 1, _, _, _, _, h, hf, hcov, hst, hk, hp =>
    after_showBranch hR r hplain.2 hev.2 h hf hcov hst (Nat.lt_of_succ_lt_succ hk) hp

theorem after_showOtherwise (hR : R.Lawful) : ∀ (o : View.Otherwise) {locals : List Text},
    o.Plain → o.Every R.Reads R.Attr locals →
    ∀ {m : Machine (Stage σ)} {frame : Frame} {i : BlockId} {cell : Cell} {a : NodeId}
    {key : Nat} {p : NodeId} {y : Dom.Node} {pre post : List NodeId},
    R.Fine m → R.Fits m frame → frame.Covers locals → R.Known m st → hasBody o = true →
    Placed m.host p y pre [.group i cell a []] post →
    Run.After R.stops (showOtherwise s st i a frame key o)
      (fun _ m' => ∃ kid, R.Turns p y pre post [] m [.group i cell a []] m'
        [.group i { cell with shown := some (key, kid.id) } a [kid]] ∧
        R.showsOtherwise st frame o kid) m
  | .body n, _, hplain, hev, _, _, _, _, _, key, _, _, _, _, h, hf, hcov, hst, _, hp =>
    Raises.shown hR (after_mount hR n hplain hev) h hf hcov hst key hp

end

end Reading

end Reactive.Block
