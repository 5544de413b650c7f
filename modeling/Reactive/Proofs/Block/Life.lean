/-
How blocks are created and destroyed.

A run of blocks turns trees into trees and leaves a machine on which
everything can go on: `Reading.Turns`.  The steps of blocks are read in this
form, and so is what they do together.

* `Reading.after_create` — new blocks that are not mounted;
* `Reading.after_destroy` — a mounted block takes everything back.
-/
import Reactive.Proofs.Block.Change
import Reactive.Proofs.Block.Reading

namespace Reactive.Block

open Dom (NodeId)
open Reactive.Block.Tree (rootsAll nodesAll blocksAll)

variable {σ : Type}

/-! ### Blocks that are not mounted -/

mutual

/-- Blocks as they are created for a node in a frame: the block of the node and all of them. -/
def Fresh (cells : Array Cell) (frame : Frame) : View.Node → BlockId → List BlockId → Prop
  | .fixed .., id, bs | .text .., id, bs | .cond .., id, bs | .each .., id, bs =>
    bs = [id] ∧ cells[id]? = some { frame }
  | .elem _ _ _ _ _ children, id, bs | .fragment _ children, id, bs =>
    ∃ ids cs, bs = id :: cs ∧ cells[id]? = some { frame, children := ids } ∧
      freshAll cells frame children ids cs

/-- Blocks as they are created for several nodes. -/
def freshAll (cells : Array Cell) (frame : Frame) :
    List View.Node → List BlockId → List BlockId → Prop
  | [], ids, bs => ids = [] ∧ bs = []
  | n :: r, ids, bs => ∃ id rest b c, ids = id :: rest ∧ bs = b ++ c ∧
      Fresh cells frame n id b ∧ freshAll cells frame r rest c

end

section

variable {cells cells' : Array Cell} {frame : Frame}

/-- The block of the node is one of the blocks, and remembers its frame only. -/
theorem Fresh.root {n : View.Node} {id : BlockId} {bs : List BlockId}
    (h : Fresh cells frame n id bs) : id ∈ bs ∧ ∃ ids,
      cells[id]? = some { frame, children := ids } := by
  cases n with
  | elem | fragment =>
    obtain ⟨ids, cs, rfl, hcell, -⟩ := h
    exact ⟨List.mem_cons_self, ids, hcell⟩
  | _ =>
    obtain ⟨rfl, hcell⟩ := h
    exact ⟨List.mem_cons_self, [], hcell⟩

mutual

theorem Fresh.congr : ∀ {n : View.Node} {id : BlockId} {bs : List BlockId},
    Fresh cells frame n id bs → (∀ i ∈ bs, cells'[i]? = cells[i]?) → Fresh cells' frame n id bs
  | .fixed .., id, bs, h, hc | .text .., id, bs, h, hc | .cond .., id, bs, h, hc
  | .each .., id, bs, h, hc => by
    obtain ⟨rfl, hcell⟩ := h
    exact ⟨rfl, (hc id List.mem_cons_self).trans hcell⟩
  | .elem _ _ _ _ _ children, id, bs, h, hc | .fragment _ children, id, bs, h, hc => by
    obtain ⟨ids, cs, rfl, hcell, hkids⟩ := h
    refine ⟨ids, cs, rfl, (hc id List.mem_cons_self).trans hcell, ?_⟩
    exact freshAll.congr hkids fun i hi => hc i (List.mem_cons_of_mem _ hi)

theorem freshAll.congr : ∀ {ns : List View.Node} {ids bs : List BlockId},
    freshAll cells frame ns ids bs → (∀ i ∈ bs, cells'[i]? = cells[i]?) →
    freshAll cells' frame ns ids bs
  | [], _, _, h, _ => h
  | n :: r, _, _, h, hc => by
    obtain ⟨id, rest, b, c, rfl, rfl, hn, hr⟩ := h
    exact ⟨id, rest, b, c, rfl, rfl, hn.congr fun i hi => hc i (List.mem_append.2 (Or.inl hi)),
      hr.congr fun i hi => hc i (List.mem_append.2 (Or.inr hi))⟩

end

mutual

theorem Fresh.lt : ∀ {n : View.Node} {id : BlockId} {bs : List BlockId},
    Fresh cells frame n id bs → ∀ i ∈ bs, i < cells.size
  | .fixed .., id, bs, h, i, hi | .text .., id, bs, h, i, hi | .cond .., id, bs, h, i, hi
  | .each .., id, bs, h, i, hi => by
    obtain ⟨rfl, hcell⟩ := h
    rw [List.mem_singleton.1 hi]
    exact (Array.getElem?_eq_some_iff.1 hcell).1
  | .elem _ _ _ _ _ children, id, bs, h, i, hi | .fragment _ children, id, bs, h, i, hi => by
    obtain ⟨ids, cs, rfl, hcell, hkids⟩ := h
    rcases List.mem_cons.1 hi with rfl | hi
    · exact (Array.getElem?_eq_some_iff.1 hcell).1
    · exact hkids.lt i hi

theorem freshAll.lt : ∀ {ns : List View.Node} {ids bs : List BlockId},
    freshAll cells frame ns ids bs → ∀ i ∈ bs, i < cells.size
  | [], _, _, h, i, hi => by
    rw [h.2] at hi
    cases hi
  | n :: r, _, _, h, i, hi => by
    obtain ⟨id, rest, b, c, rfl, rfl, hn, hr⟩ := h
    rcases List.mem_append.1 hi with hi | hi
    · exact hn.lt i hi
    · exact hr.lt i hi

end

end

namespace Reading

variable {s : Site σ} {R : Reading s} {m m' m'' : Machine (Stage σ)} {st : Dict Value}
  {frame : Frame} {p : NodeId} {y : Dom.Node} {pre post : List NodeId} {t : Tree}
  {ts ts' ts'' : List Tree} {bs bs' : List BlockId}

/-- A run turned trees, and blocks that were not mounted, into other trees. -/
structure Turns (R : Reading s) (p : NodeId) (y : Dom.Node) (pre post : List NodeId)
    (bs : List BlockId) (m : Machine (Stage σ)) (ts : List Tree) (m' : Machine (Stage σ))
    (ts' : List Tree) : Prop where
  next : R.Next m m'
  becomes : Becomes p y pre post bs m.host ts m'.host ts'

namespace Turns

theorem fine (h : R.Turns p y pre post bs m ts m' ts') : R.Fine m' := h.next.fine

theorem placed (h : R.Turns p y pre post bs m ts m' ts') : Placed m'.host p y pre ts' post :=
  h.becomes.placed

theorem refl (hR : R.Lawful) (h : R.Fine m) (hp : Placed m.host p y pre ts post) :
    R.Turns p y pre post bs m ts m ts :=
  ⟨h.next hR, .refl hp⟩

/-- A run that leaves the stage alone. -/
theorem of_host (hp : Placed m.host p y pre ts post) (hhost : m'.host = m.host)
    (hnext : R.Next m m') : R.Turns p y pre post bs m ts m' ts := by
  refine ⟨hnext, ?_⟩
  rw [hhost]
  exact .refl hp

theorem trans (hR : R.Lawful) (h : R.Turns p y pre post bs m ts m' ts')
    (h' : R.Turns p y pre post bs' m' ts' m'' ts'')
    (hbs : ∀ i ∈ bs', i ∈ blocksAll ts ∨ i ∈ bs ∨ m.host.cells.size ≤ i) :
    R.Turns p y pre post bs m ts m'' ts'' :=
  ⟨h.next.trans hR h'.next, h.becomes.trans h'.becomes hbs⟩

theorem trans_nil (hR : R.Lawful) (h : R.Turns p y pre post bs m ts m' ts')
    (h' : R.Turns p y pre post [] m' ts' m'' ts'') : R.Turns p y pre post bs m ts m'' ts'' :=
  h.trans hR h' fun _ hi => absurd hi List.not_mem_nil

/-- A change of the first tree. -/
theorem head {r : List Tree} (hp : Placed m.host p y pre (t :: r) post)
    (h : R.Turns p y pre (rootsAll r ++ post) bs m [t] m' ts')
    (hbs : ∀ i ∈ bs, i ∉ blocksAll r) : R.Turns p y pre post bs m (t :: r) m' (ts' ++ r) := by
  refine ⟨h.next, ?_⟩
  have hp' : Placed m.host p y pre ([] ++ ([t] ++ r)) post := hp
  refine Becomes.among hp' ?_ fun i hi => ⟨List.not_mem_nil, hbs i hi⟩
  rw [rootsAll, List.append_nil]
  exact h.becomes

/-- A change of all trees but the first. -/
theorem tail {r : List Tree} (hp : Placed m.host p y pre (t :: r) post)
    (h : R.Turns p y (pre ++ t.roots) post bs m r m' ts')
    (hbs : ∀ i ∈ bs, i ∉ t.blocks) : R.Turns p y pre post bs m (t :: r) m' (t :: ts') := by
  have hr : t :: r = [t] ++ (r ++ []) := by rw [List.append_nil]; rfl
  have hr' : t :: ts' = [t] ++ (ts' ++ []) := by rw [List.append_nil]; rfl
  refine ⟨h.next, ?_⟩
  rw [hr, hr']
  refine Becomes.among (hr ▸ hp) ?_ fun i hi => ⟨?_, List.not_mem_nil⟩
  · rw [Tree.rootsAll_singleton, rootsAll, List.nil_append]
    exact h.becomes
  · rw [Tree.blocksAll_singleton]
    exact hbs i hi

/-- New trees after the others. -/
theorem snoc (hp : Placed m.host p y pre ts post)
    (h : R.Turns p y (pre ++ rootsAll ts) post bs m [] m' ts')
    (hbs : ∀ i ∈ bs, i ∉ blocksAll ts) : R.Turns p y pre post bs m ts m' (ts ++ ts') := by
  have hp' : Placed m.host p y pre (ts ++ ([] ++ [])) post := by
    rwa [List.append_nil, List.append_nil]
  have hall := Becomes.among hp' h.becomes fun i hi => ⟨hbs i hi, List.not_mem_nil⟩
  rw [List.append_nil, List.append_nil, List.append_nil] at hall
  exact ⟨h.next, hall⟩

/-- More blocks may be among those that were not mounted. -/
theorem mono (h : R.Turns p y pre post bs m ts m' ts') (hbs : ∀ i ∈ bs, i ∈ bs') :
    R.Turns p y pre post bs' m ts m' ts' := by
  refine ⟨h.next, h.becomes.moves.mono (fun _ _ hn => hn) fun i _ hi => hi.imp_right (hbs i),
    h.placed, h.becomes.nodes, fun i hi => ?_⟩
  exact (h.becomes.blocks i hi).imp_right fun hi => hi.imp_left (hbs i)

/-- A change of what is mounted in an element. -/
theorem inElem {i : BlockId} {cell : Cell} {n : NodeId} {tag : Text} {attrs : List (Text × Text)}
    (hp : Placed m.host p y pre [.elem i cell n tag attrs ts] post)
    (h : R.Turns n { content := .element tag, attrs, parent := some p } [] [] bs m ts m' ts')
    (hbs : ∀ k ∈ bs, k ≠ i) :
    R.Turns p y pre post bs m [.elem i cell n tag attrs ts] m' [.elem i cell n tag attrs ts'] :=
  ⟨h.next, .inElem hp h.becomes hbs⟩

/-- A change of what is mounted before an anchor. -/
theorem inGroup {i : BlockId} {cell : Cell} {a : NodeId}
    (hp : Placed m.host p y pre [.group i cell a ts] post)
    (h : R.Turns p y pre (a :: post) bs m ts m' ts') (hbs : ∀ k ∈ bs, k ≠ i) :
    R.Turns p y pre post bs m [.group i cell a ts] m' [.group i cell a ts'] :=
  ⟨h.next, .inGroup hp h.becomes hbs⟩

end Turns

/-! ### Steps -/

theorem after_cell (h : Placed m.host p y pre [t] post) (Q : Cell → Machine (Stage σ) → Prop) :
    Run.After R.stops (getCell t.id) Q m ↔ Q t.cell m := by
  rw [after_getCell, getD_of_getElem? h.cell]

theorem after_remember (hR : R.Lawful) (h : R.Fine m) (hp : Placed m.host p y pre [t] post)
    {f : Cell → Cell} (hf : ∀ c, (f c).frame = c.frame) :
    Run.After R.stops (modifyCell t.id f)
      (fun _ m' => R.Turns p y pre post [] m [t] m' [t.mapCell f]) m := by
  rw [after_modifyCell]
  exact ⟨h.onCell hR t.id hf, .onCell hp f⟩

theorem after_detachNode (hR : R.Lawful) (h : R.Fine m) (hp : Placed m.host p y pre [t] post)
    {n : NodeId} (hn : t.cell.node = some n) (hr : t.roots = [n]) :
    Run.After R.stops (detachNode t.id) (fun _ m' => R.Turns p y pre post [] m [t] m' []) m := by
  rw [detachNode, Run.after_bind, after_cell hp, hn, after_modifyDoc]
  refine ⟨h.onDoc hR fun l hl => ?_, .detach hp hr⟩
  rw [Dom.Document.detach] at hl
  split at hl <;> exact hl

/-! ### Creation -/

/-- A run that made new blocks and did nothing else. -/
structure Makes (R : Reading s) (m m' : Machine (Stage σ)) (bs : List BlockId) : Prop where
  next : R.Next m m'
  cells : ∃ cs, m'.host = { m.host with cells := m.host.cells ++ cs }
  nodup : bs.Nodup
  new : ∀ i ∈ bs, m.host.cells.size ≤ i

theorem Makes.moves {N : NodeId → Prop} {B : BlockId → Prop} (h : R.Makes m m' bs) :
    Moves N B m.host m'.host := by
  obtain ⟨cs, hcs⟩ := h.cells
  rw [hcs]
  exact .onCells m.host cs

/-- Trees stay in their place while blocks are made. -/
theorem Makes.turns (h : R.Makes m m' bs) (hp : Placed m.host p y pre ts post) :
    R.Turns p y pre post [] m ts m' ts := by
  have hm : ∀ {N : NodeId → Prop} {B : BlockId → Prop}, Moves N B m.host m'.host := h.moves
  obtain ⟨cs, hcs⟩ := h.cells
  refine ⟨h.next, hm, ⟨?_, hp.straight, ?_, hp.nodes, hp.blocks, hp.outside, hp.around,
    fun n hn => ?_⟩, fun _ hn => Or.inl hn, fun _ hi => Or.inl hi⟩
  · rw [hcs]
    exact hp.parent
  · exact (hm (N := fun _ => False) (B := fun _ => False)).holdsAll hp.holds
      (fun _ _ => not_false) fun _ _ => not_false
  · rw [hcs]
    exact hp.apart n hn

/-- Two lots of blocks made one after the other. -/
theorem Makes.append (hR : R.Lawful) (h : R.Makes m m' bs) (h' : R.Makes m' m'' bs')
    (hlt : ∀ i ∈ bs, i < m'.host.cells.size) : R.Makes m m'' (bs ++ bs') := by
  have hsize := (h.moves (N := fun _ => False) (B := fun _ => False)).count
  obtain ⟨cs, hcs⟩ := h.cells
  obtain ⟨cs', hcs'⟩ := h'.cells
  refine ⟨h.next.trans hR h'.next, ⟨cs ++ cs', ?_⟩, ?_, ?_⟩
  · rw [hcs', hcs]
    simp only [Array.append_assoc]
  · refine List.nodup_append.2 ⟨h.nodup, h'.nodup, ?_⟩
    rintro i hi j hj rfl
    exact absurd (hlt i hi) (Nat.not_lt.2 (h'.new i hj))
  · intro i hi
    rcases List.mem_append.1 hi with hi | hi
    · exact h.new i hi
    · exact Nat.le_trans hsize (h'.new i hi)

theorem after_newCell_makes (hR : R.Lawful) (h : R.Fine m) {c : Cell} (hc : R.Fits m c.frame) :
    Run.After R.stops (newCell c)
      (fun id m' => R.Makes m m' [id] ∧ m'.host.cells[id]? = some c) m := by
  rw [after_newCell]
  refine ⟨⟨h.onNewCell hR hc, ⟨#[c], ?_⟩, List.nodup_singleton _, fun i hi => ?_⟩, ?_⟩
  · rw [Array.push_eq_append]
  · rw [List.mem_singleton.1 hi]
  · simp

mutual

/-- Creation makes blocks that are not mounted. -/
theorem after_create (hR : R.Lawful) : ∀ (n : View.Node) {m : Machine (Stage σ)}, R.Fine m →
    R.Fits m frame → Run.After R.stops (create frame n)
      (fun id m' => ∃ bs, R.Makes m m' bs ∧ Fresh m'.host.cells frame n id bs) m
  | .fixed .., m, h, hf | .text .., m, h, hf | .cond .., m, h, hf | .each .., m, h, hf => by
    show Run.After R.stops (newCell { frame }) _ m
    refine (after_newCell_makes hR h hf).mono ?_
    rintro id m' ⟨hmakes, hcell⟩
    exact ⟨[id], hmakes, rfl, hcell⟩
  | .elem _ _ _ _ _ children, m, h, hf | .fragment _ children, m, h, hf => by
    rw [create]
    refine (after_createAll hR children h hf).bind ?_
    rintro ids m' ⟨bs, hmakes, hfresh⟩
    refine (after_newCell_makes hR hmakes.next.fine (hR.fits_later hmakes.next.later hf)).mono ?_
    rintro id m'' ⟨hmakes', hcell⟩
    refine ⟨id :: bs, ?_, ids, bs, rfl, hcell, hfresh.congr fun i hi => ?_⟩
    · have happend := hmakes.append hR hmakes' hfresh.lt
      refine ⟨happend.next, happend.cells, ?_, fun i hi => happend.new i ?_⟩
      · exact (List.perm_append_singleton id bs).nodup_iff.1 happend.nodup
      · exact (List.perm_append_singleton id bs).mem_iff.2 hi
    · exact (hmakes'.moves (N := fun _ => False) (B := fun _ => False)).block i (hfresh.lt i hi)
        not_false

theorem after_createAll (hR : R.Lawful) : ∀ (ns : List View.Node) {m : Machine (Stage σ)},
    R.Fine m → R.Fits m frame → Run.After R.stops (createAll frame ns)
      (fun ids m' => ∃ bs, R.Makes m m' bs ∧ freshAll m'.host.cells frame ns ids bs) m
  | [], m, h, hf => by
    rw [createAll]
    refine ⟨[], ⟨h.next hR, ⟨#[], ?_⟩, List.nodup_nil, fun _ hi => absurd hi List.not_mem_nil⟩,
      rfl, rfl⟩
    simp
  | n :: r, m, h, hf => by
    rw [createAll]
    refine (after_create hR n h hf).bind ?_
    rintro id m' ⟨bs, hmakes, hfresh⟩
    refine (after_createAll hR r hmakes.next.fine (hR.fits_later hmakes.next.later hf)).bind ?_
    rintro ids m'' ⟨bs', hmakes', hfresh'⟩
    refine ⟨bs ++ bs', hmakes.append hR hmakes' hfresh.lt, id, ids, bs, bs', rfl, rfl, ?_, hfresh'⟩
    exact hfresh.congr fun i hi =>
      (hmakes'.moves (N := fun _ => False) (B := fun _ => False)).block i (hfresh.lt i hi) not_false

end

/-! ### Destruction -/

theorem unlisten_foldl (ls : List Nat) (d : Dom.Document Action) :
    (ls.foldl (fun d l => d.unlisten l) d).nodes = d.nodes ∧
      ∀ l ∈ (ls.foldl (fun d l => d.unlisten l) d).listeners, l ∈ d.listeners := by
  induction ls generalizing d with
  | nil => exact ⟨rfl, fun _ hl => hl⟩
  | cons k r ih =>
    obtain ⟨hnodes, hlisteners⟩ := ih (d.unlisten k)
    exact ⟨hnodes, fun l hl => List.mem_of_mem_filter (hlisteners l hl)⟩

theorem exists_of_forall₂_right {α β : Type} {r : α → β → Prop} {xs : List α} {ys : List β}
    (h : List.Forall₂ r xs ys) : ∀ y ∈ ys, ∃ x, r x y := by
  induction h with
  | nil => exact fun _ hy => absurd hy List.not_mem_nil
  | cons hxy _ ih =>
    intro y hy
    rcases List.mem_cons.1 hy with rfl | hy
    · exact ⟨_, hxy⟩
    · exact ih y hy

/-- What holds of the destruction of the blocks of a node. -/
def Clears (R : Reading s) (st : Dict Value) (n : View.Node) : Prop :=
  ∀ {m : Machine (Stage σ)} {frame : Frame} {t : Tree} {p : NodeId} {y : Dom.Node}
    {pre post : List NodeId}, R.Fine m → R.Shows st frame n t → Placed m.host p y pre [t] post →
    Run.After R.stops (destroy t.id n) (fun _ m' => R.Turns p y pre post [] m [t] m' []) m

/-- All rounds of a loop are destroyed. -/
theorem Clears.rounds (hR : R.Lawful) {body : View.Node} (hbody : R.Clears st body) :
    ∀ (kids : List Tree) {m : Machine (Stage σ)}, R.Fine m →
    (∀ kid ∈ kids, ∃ frame, R.Shows st frame body kid) → Placed m.host p y pre kids post →
    Run.After R.stops ((kids.map Tree.id).forM fun child => destroy child body)
      (fun _ m' => R.Turns p y pre post [] m kids m' []) m
  | [], m, h, _, hp => .refl hR h hp
  | kid :: r, m, h, hs, hp => by
    obtain ⟨frame, hkid⟩ := hs kid List.mem_cons_self
    show Run.After R.stops (destroy kid.id body >>= fun _ =>
      (r.map Tree.id).forM fun child => destroy child body) _ m
    refine (hbody h hkid hp.head).bind ?_
    intro _ m' h'
    have hall := h'.head hp fun i hi => absurd hi List.not_mem_nil
    refine (Clears.rounds hR hbody r h'.fine (fun k hk => hs k (List.mem_cons_of_mem _ hk))
      hall.placed).mono ?_
    intro _ m'' h''
    exact hall.trans_nil hR h''

/-- A leaf is destroyed. -/
theorem after_destroy_leaf (hR : R.Lawful) {i : BlockId} {cell : Cell} {n : NodeId} {text : Text}
    (h : R.Fine m) (hcell : Mounted cell frame n)
    (hp : Placed m.host p y pre [.leaf i cell n text] post) :
    Run.After R.stops (do
        if (← getCell i).done then return
        modifyCell i fun c => { c with done := true }
        detachNode i)
      (fun _ m' => R.Turns p y pre post [] m [.leaf i cell n text] m' []) m := by
  refine (Run.after_bind _ _ _).2 ((after_cell hp _).2 ?_)
  rw [Tree.cell, hcell.alive]
  refine (after_remember (f := fun c => { c with done := true }) hR h hp fun _ => rfl).bind ?_
  intro _ m' h'
  refine (after_detachNode hR h'.fine h'.placed hcell.node rfl).mono ?_
  intro _ m'' h''
  exact h'.trans_nil hR h''

mutual

/-- Destruction takes back what is mounted. -/
theorem after_destroy (hR : R.Lawful) : ∀ n : View.Node, R.Clears st n
  | .fixed _ value, m, frame, t, p, y, pre, post, h, hs, hp => by
    obtain ⟨i, cell, n, rfl, hcell⟩ := hs
    rw [destroy]
    exact after_destroy_leaf hR h hcell hp
  | .text _ b, m, frame, t, p, y, pre, post, h, hs, hp => by
    obtain ⟨i, cell, n, rfl, hcell⟩ := hs
    rw [destroy]
    exact after_destroy_leaf hR h hcell hp
  | .elem _ tag attrs _ _ children, m, frame, t, p, y, pre, post, h, hs, hp => by
    obtain ⟨i, cell, n, as, kids, rfl, hcell, hids, -, -, hkids⟩ := hs
    rw [destroy, Run.after_bind, after_cell hp, Tree.cell, hcell.alive]
    refine (after_remember (f := fun c => { c with done := true, listeners := [] }) hR h hp
      fun _ => rfl).bind ?_
    intro _ m₁ h₁
    rw [Run.after_bind, after_modifyDoc]
    obtain ⟨hnodes, hlisteners⟩ := unlisten_foldl cell.listeners m₁.host.doc
    have h₂ : R.Turns p y pre post [] m₁ _ _ _ :=
      ⟨h₁.fine.onDoc hR hlisteners, .onListeners h₁.placed hnodes⟩
    rw [hids]
    refine (after_destroyAll hR children h₂.fine hkids h₂.placed.inElem).bind ?_
    intro _ m₃ h₃
    have h₃' := h₃.inElem h₂.placed fun _ hi => absurd hi List.not_mem_nil
    refine (after_detachNode hR h₃.fine h₃'.placed hcell.node rfl).mono ?_
    intro _ m₄ h₄
    exact ((h₁.trans_nil hR h₂).trans_nil hR h₃').trans_nil hR h₄
  | .cond _ branches other, m, frame, t, p, y, pre, post, h, hs, hp => by
    obtain ⟨i, cell, a, kids, rfl, hcell, -, hkids⟩ := hs
    rw [destroy, Run.after_bind, after_cell hp, Tree.cell, hcell.alive]
    refine (after_remember (f := fun c => { c with done := true }) hR h hp fun _ => rfl).bind ?_
    intro _ m₁ h₁
    cases hshown : cell.shown with
    | none =>
      rw [hshown] at hkids
      subst hkids
      refine (after_detachNode hR h₁.fine h₁.placed hcell.node rfl).mono ?_
      intro _ m₂ h₂
      exact h₁.trans_nil hR h₂
    | some x =>
      obtain ⟨key, b⟩ := x
      rw [hshown] at hkids
      obtain ⟨kid, rfl, rfl, hkid⟩ := hkids
      -- The branch goes, then the block forgets it, then the anchor goes.
      have hrest : ∀ {m₂}, R.Turns p y pre (a :: post) [] m₁ [kid] m₂ [] →
          Run.After R.stops (do
              modifyCell i fun c => { c with shown := none }
              detachNode i)
            (fun _ m' => R.Turns p y pre post [] m [.group i cell a [kid]] m' []) m₂ := by
        intro m₂ h₂
        have h₂' := h₂.inGroup h₁.placed fun _ hi => absurd hi List.not_mem_nil
        refine (after_remember (f := fun c => { c with shown := none }) hR h₂.fine h₂'.placed
          fun _ => rfl).bind ?_
        intro _ m₃ h₃
        refine (after_detachNode hR h₃.fine h₃.placed hcell.node rfl).mono ?_
        intro _ m₄ h₄
        exact ((h₁.trans_nil hR h₂').trans_nil hR h₃).trans_nil hR h₄
      by_cases hkey : key < branches.length
      · rw [if_pos hkey] at hkid
        simp only [if_pos hkey]
        exact (after_destroyBranch hR branches h₁.fine hkid h₁.placed.inGroup).bind
          fun _ _ h₂ => hrest h₂
      · rw [if_neg hkey] at hkid
        simp only [if_neg hkey]
        exact (after_destroyOtherwise hR other h₁.fine hkid h₁.placed.inGroup).bind
          fun _ _ h₂ => hrest h₂
  | .each _ list item index body, m, frame, t, p, y, pre, post, h, hs, hp => by
    obtain ⟨i, cell, a, kids, rfl, hcell, hids, xs, -, hkids⟩ := hs
    rw [destroy, Run.after_bind, after_cell hp, Tree.cell, hcell.alive]
    refine (after_remember (f := fun c => { c with done := true }) hR h hp fun _ => rfl).bind ?_
    intro _ m₁ h₁
    rw [hids]
    refine (Clears.rounds hR (after_destroy hR body) kids h₁.fine ?_ h₁.placed.inGroup).bind ?_
    · intro kid hkid
      obtain ⟨x, hx⟩ := exists_of_forall₂_right hkids kid hkid
      exact ⟨_, hx⟩
    intro _ m₂ h₂
    have h₂' := h₂.inGroup h₁.placed fun _ hi => absurd hi List.not_mem_nil
    refine (after_remember (f := fun c => { c with children := [] }) hR h₂.fine h₂'.placed
      fun _ => rfl).bind ?_
    intro _ m₃ h₃
    refine (after_detachNode hR h₃.fine h₃.placed hcell.node rfl).mono ?_
    intro _ m₄ h₄
    exact ((h₁.trans_nil hR h₂').trans_nil hR h₃).trans_nil hR h₄
  | .fragment _ children, m, frame, t, p, y, pre, post, h, hs, hp => by
    obtain ⟨i, cell, a, kids, rfl, hcell, -, hids, hkids⟩ := hs
    rw [destroy, Run.after_bind, after_cell hp, Tree.cell, hcell.alive]
    refine (after_remember (f := fun c => { c with done := true }) hR h hp fun _ => rfl).bind ?_
    intro _ m₁ h₁
    rw [hids]
    refine (after_destroyAll hR children h₁.fine hkids h₁.placed.inGroup).bind ?_
    intro _ m₂ h₂
    have h₂' := h₂.inGroup h₁.placed fun _ hi => absurd hi List.not_mem_nil
    refine (after_detachNode hR h₂.fine h₂'.placed hcell.node rfl).mono ?_
    intro _ m₃ h₃
    exact (h₁.trans_nil hR h₂').trans_nil hR h₃

theorem after_destroyAll (hR : R.Lawful) : ∀ (ns : List View.Node) {m : Machine (Stage σ)}
    {frame : Frame} {ts : List Tree} {p : NodeId} {y : Dom.Node} {pre post : List NodeId},
    R.Fine m → R.showsAll st frame ns ts → Placed m.host p y pre ts post →
    Run.After R.stops (destroyAll (ts.map Tree.id) ns)
      (fun _ m' => R.Turns p y pre post [] m ts m' []) m
  | [], m, frame, ts, p, y, pre, post, h, hs, hp => by
    obtain rfl := hs
    rw [destroyAll]
    exact .refl hR h hp
  | n :: r, m, frame, ts, p, y, pre, post, h, hs, hp => by
    obtain ⟨t, rest, rfl, ht, hrest⟩ := hs
    rw [List.map_cons, destroyAll]
    refine (after_destroy hR n h ht hp.head).bind ?_
    intro _ m₁ h₁
    have h₁' := h₁.head hp fun i hi => absurd hi List.not_mem_nil
    refine (after_destroyAll hR r h₁.fine hrest h₁'.placed).mono ?_
    intro _ m₂ h₂
    exact h₁'.trans_nil hR h₂

theorem after_destroyBranch (hR : R.Lawful) : ∀ (bs : List View.Branch) {k : Nat}
    {m : Machine (Stage σ)} {frame : Frame} {t : Tree} {p : NodeId} {y : Dom.Node}
    {pre post : List NodeId}, R.Fine m → R.showsBranch st frame k bs t →
    Placed m.host p y pre [t] post → Run.After R.stops (destroyBranch t.id k bs)
      (fun _ m' => R.Turns p y pre post [] m [t] m' []) m
  | .mk _ body :: _, 0, _, _, _, _, _, _, _, h, hs, hp => after_destroy hR body h hs hp
  | _ :: r, _ + 1, _, _, _, _, _, _, _, h, hs, hp => after_destroyBranch hR r h hs hp

theorem after_destroyOtherwise (hR : R.Lawful) : ∀ (o : View.Otherwise) {m : Machine (Stage σ)}
    {frame : Frame} {t : Tree} {p : NodeId} {y : Dom.Node} {pre post : List NodeId}, R.Fine m →
    R.showsOtherwise st frame o t → Placed m.host p y pre [t] post →
    Run.After R.stops (destroyOtherwise t.id o)
      (fun _ m' => R.Turns p y pre post [] m [t] m' []) m
  | .body n, _, _, _, _, _, _, _, h, hs, hp => after_destroy hR n h hs hp

end

/-- What a choice shows is destroyed, and the block of the choice forgets it. -/
theorem after_clear (hR : R.Lawful) (st : Dict Value) (frame : Frame) (h : R.Fine m) {i : BlockId} {cell : Cell} {a : NodeId}
    {kids : List Tree} {branches : List View.Branch} {other : View.Otherwise}
    (hp : Placed m.host p y pre [.group i cell a kids] post)
    (hkids : match cell.shown with
      | none => kids = []
      | some (key, b) => ∃ kid, kids = [kid] ∧ kid.id = b ∧
        if key < branches.length then R.showsBranch st frame key branches kid
        else R.showsOtherwise st frame other kid) :
    Run.After R.stops (clear i branches other) (fun _ m' => R.Turns p y pre post [] m
      [.group i cell a kids] m' [.group i { cell with shown := none } a []]) m := by
  refine (Run.after_bind _ _ _).2 ((after_cell hp _).2 ?_)
  rw [Tree.cell]
  cases hshown : cell.shown with
  | none =>
    rw [hshown] at hkids
    subst hkids
    have hsame : { cell with shown := none } = cell := by rw [← hshown]
    rw [hsame]
    exact Turns.refl hR h hp
  | some x =>
    obtain ⟨key, b⟩ := x
    rw [hshown] at hkids
    obtain ⟨kid, rfl, rfl, hkid⟩ := hkids
    have hrest : ∀ {m₁}, R.Turns p y pre (a :: post) [] m [kid] m₁ [] →
        Run.After R.stops (modifyCell i fun c => { c with shown := none }) (fun _ m' =>
          R.Turns p y pre post [] m [.group i cell a [kid]] m'
            [.group i { cell with shown := none } a []]) m₁ := by
      intro m₁ h₁
      have h₁' := h₁.inGroup hp fun _ hi => absurd hi List.not_mem_nil
      refine (after_remember (f := fun c => { c with shown := none }) hR h₁.fine h₁'.placed
        fun _ => rfl).mono ?_
      intro _ m₂ h₂
      exact h₁'.trans_nil hR h₂
    by_cases hkey : key < branches.length
    · rw [if_pos hkey] at hkid
      simp only [if_pos hkey]
      exact (after_destroyBranch hR branches h hkid hp.inGroup).bind fun _ _ h₁ => hrest h₁
    · rw [if_neg hkey] at hkid
      simp only [if_neg hkey]
      exact (after_destroyOtherwise hR other h hkid hp.inGroup).bind fun _ _ h₁ => hrest h₁

end Reading

end Reactive.Block
