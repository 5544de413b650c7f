/-
A block owns its region of the document, and nothing else.

The operations of a block can be called in any order and any number of times.
The first mounting takes a region between the other children of a parent,
patches keep it, the first destruction gives it back, and all calls that come
too early or too late do nothing.

* `Phase` — how far the life of a block has gone;
* `Part.after_call` — what one call does to a region;
* `Part.owns_region` — what any sequence of calls does.
-/
import Reactive.Block.Session
import Reactive.Proofs.Block.Rerender
import Reactive.Proofs.Block.Settling
import Reactive.Proofs.Eval.Keeps

namespace Reactive.Block

open Dom (NodeId)
open Reactive.Block.Tree (rootsAll nodesAll blocksAll heardAll hearsAll)

variable {σ : Type}

/-! ### Hosts that keep away from the document -/

/-- The writes of a host leave the document and the blocks alone.  During a flush the host of a
component does; while its view is mounted a write flushes, which patches blocks that are half
mounted. -/
def KeepsAway (h : Host (Stage σ)) : Prop :=
  ∀ name v, Keeping (· = .outOfFuel) (fun m m' => m'.host.bare = m.host.bare) (h.write name v).run

theorem KeepsAway.allows {h : Host (Stage σ)} (hh : KeepsAway h) :
    h.Allows (· = .outOfFuel) fun m m' => m'.host.bare = m.host.bare where
  fuel := rfl
  same hhost := by rw [hhost]
  trans h h' := h'.trans h
  write := hh

theorem after_frameScope {E : Halt → Prop} (store : Store) (frame : Frame) :
    ∀ m : Machine (Stage σ), Run.After E (frameScope store frame) (fun _ m' => m'.host = m.host) m := by
  induction frame with
  | nil => exact fun m => rfl
  | cons vars outer ih =>
    intro m
    refine (ih m).bind ?_
    intro inner m' hm
    exact hm

/-- Whatever is evaluated over such a host, the document and the blocks are left alone. -/
theorem KeepsAway.calm {h : Host (Stage σ)} (hh : KeepsAway h) {s : Site σ}
    (hs : s.outcome = outcomeIn h.caller) : s.Calm (· = .outOfFuel) := by
  intro store frame e m
  rw [hs]
  refine (after_frameScope store frame m).bind ?_
  intro env m' hm
  refine (hh.allows.keeping_eval env e m').mono ?_
  intro _ m'' hm'
  rw [hm', hm]

/-! ### Blocks that are destroyed before they are mounted -/

section

variable {E : Halt → Prop} {m : Machine (Stage σ)} {frame : Frame}

/-- A run that touched only some blocks that are not mounted. -/
structure Touches (bs : List BlockId) (m m' : Machine (Stage σ)) : Prop where
  doc : m'.host.doc = m.host.doc
  moves : Moves (fun _ => False) (· ∈ bs) m.host.bare m'.host.bare

namespace Touches

variable {bs bs' : List BlockId} {m' m'' : Machine (Stage σ)}

theorem trans (h : Touches bs m m') (h' : Touches bs m' m'') : Touches bs m m'' :=
  ⟨h'.doc.trans h.doc, h.moves.trans h'.moves (fun _ _ hk => hk) fun _ _ hi => hi⟩

theorem mono (h : Touches bs m m') (hbs : ∀ i ∈ bs, i ∈ bs') : Touches bs' m m' :=
  ⟨h.doc, h.moves.mono (fun _ _ hk => hk) fun i _ hi => hbs i hi⟩

/-- Another block is what it was. -/
theorem kept (h : Touches bs m m') {id : BlockId} {cell : Cell}
    (hcell : m.host.cells[id]? = some cell) (hid : id ∉ bs) : m'.host.cells[id]? = some cell :=
  (h.moves.block id (Array.getElem?_eq_some_iff.1 hcell).1 hid).trans hcell

/-- Other blocks that are not mounted are what they were. -/
theorem fresh (h : Touches bs m m') {vs : List View.Node} {ids cs : List BlockId}
    (hvs : freshAll m.host.cells frame vs ids cs) (hcs : ∀ i ∈ cs, i ∉ bs) :
    freshAll m'.host.cells frame vs ids cs :=
  hvs.congr fun i hi => h.moves.block i (hvs.lt i hi) (hcs i hi)

/-- Trees with other blocks stay in their place. -/
theorem replaces {p : NodeId} {y : Dom.Node} {pre post : List NodeId} {ts : List Tree}
    (h : Touches bs m m') (hc : m.host.doc.Counted) (hp : Placed m.host.bare p y pre ts post)
    (hbs : ∀ i ∈ blocksAll ts, i ∉ bs) : Replaces p y pre post bs m ts m' ts := by
  refine .of_same ⟨h.moves.mono (fun _ _ hk => hk.elim) fun _ _ hi => Or.inr hi, ⟨?_, hp.straight,
    ?_, hp.nodes, hp.blocks, hp.outside, hp.around, fun n hn => ?_⟩, fun _ hk => Or.inl hk,
    fun _ hi => Or.inl hi⟩ hc (by rw [h.doc]) (by rw [h.doc]) rfl fun hears => hears
  · exact (h.moves.node p hp.parent_lt not_false).trans hp.parent
  · exact h.moves.holdsAll hp.holds (fun _ _ => not_false) hbs
  · exact ⟨(hp.apart n hn).1, Nat.lt_of_lt_of_le (hp.apart n hn).2 h.moves.size⟩

end Touches

/-- A block that has no node yet remembers something else. -/
theorem after_mark {id : BlockId} {cell : Cell} (hcell : m.host.cells[id]? = some cell)
    (f : Cell → Cell) : Run.After E (modifyCell id f)
      (fun _ m' => Touches [id] m m' ∧ m'.host.cells[id]? = some (f cell)) m := by
  refine (after_onBlock hcell f).mono ?_
  rintro _ m' ⟨hmoves, hdoc, hcell'⟩
  refine ⟨⟨hdoc, hmoves.mono (fun _ _ hk => hk) ?_⟩, hcell'⟩
  rintro i _ rfl
  exact List.mem_cons_self

theorem after_detachNone {id : BlockId} {cell : Cell} (hcell : m.host.cells[id]? = some cell)
    (hnode : cell.node = none) : Run.After E (detachNode id) (fun _ m' => m' = m) m := by
  rw [detachNode, Run.after_bind, after_getCell, getD_of_getElem? hcell, hnode]
  rfl

/-- The blocks below a block that is marked as done are destroyed. -/
theorem after_discardBelow {id : BlockId} {ids cs : List BlockId} {children : List View.Node}
    (hcell : m.host.cells[id]? = some { frame, children := ids }) {f : Cell → Cell}
    (hdone : ∀ c, (f c).done = true) (hnode : ∀ c, (f c).node = c.node)
    (hkids : freshAll m.host.cells frame children ids cs) (hid : id ∉ cs)
    (hall : ∀ {m₁ : Machine (Stage σ)}, freshAll m₁.host.cells frame children ids cs →
      Run.After E (destroyAll ids children) (fun _ m' => Touches cs m₁ m') m₁) :
    Run.After E (do
        modifyCell id f
        destroyAll ids children
        detachNode id)
      (fun _ m' => Touches (id :: cs) m m' ∧ Done m'.host id) m := by
  refine (after_mark hcell f).bind ?_
  rintro _ m₁ ⟨h₁, hcell₁⟩
  have hfresh : freshAll m₁.host.cells frame children ids cs := by
    refine h₁.fresh hkids fun i hi hmem => ?_
    rw [List.mem_singleton.1 hmem] at hi
    exact hid hi
  refine (hall hfresh).bind ?_
  intro _ m₂ h₂
  have hcell₂ := h₂.kept hcell₁ hid
  refine (after_detachNone hcell₂ (hnode _)).mono ?_
  rintro _ _ rfl
  refine ⟨(h₁.mono fun i hi => ?_).trans (h₂.mono fun i hi => ?_), _, hcell₂, hdone _⟩
  · rw [List.mem_singleton.1 hi]
    exact List.mem_cons_self
  · exact List.mem_cons_of_mem _ hi

mutual

/-- A block that was not mounted is destroyed: the document stays what it is. -/
theorem after_discard : ∀ (v : View.Node) {m : Machine (Stage σ)} {id : BlockId}
    {bs : List BlockId}, Fresh m.host.cells frame v id bs → bs.Nodup →
    Run.After E (destroy id v) (fun _ m' => Touches bs m m' ∧ Done m'.host id) m
  | .fixed .., m, id, bs, hfresh, _ | .text .., m, id, bs, hfresh, _
  | .cond .., m, id, bs, hfresh, _ => by
    obtain ⟨rfl, hcell⟩ := hfresh
    rw [destroy, Run.after_bind, after_getCell, getD_of_getElem? hcell]
    refine (after_mark hcell fun c => { c with done := true }).bind ?_
    rintro _ m₁ ⟨h₁, hcell₁⟩
    refine (after_detachNone hcell₁ rfl).mono ?_
    rintro _ _ rfl
    exact ⟨h₁, _, hcell₁, rfl⟩
  | .each .., m, id, bs, hfresh, _ => by
    obtain ⟨rfl, hcell⟩ := hfresh
    rw [destroy, Run.after_bind, after_getCell, getD_of_getElem? hcell]
    refine (after_mark hcell fun c => { c with done := true }).bind ?_
    rintro _ m₁ ⟨h₁, hcell₁⟩
    refine Run.After.bind (Q := fun _ m' => m' = m₁) rfl ?_
    rintro _ _ rfl
    refine (after_mark hcell₁ fun c => { c with children := [] }).bind ?_
    rintro _ m₂ ⟨h₂, hcell₂⟩
    refine (after_detachNone hcell₂ rfl).mono ?_
    rintro _ _ rfl
    exact ⟨h₁.trans h₂, _, hcell₂, rfl⟩
  | .elem _ _ _ _ _ children, m, id, bs, hfresh, hnodup => by
    obtain ⟨ids, cs, rfl, hcell, hkids⟩ := hfresh
    rw [List.nodup_cons] at hnodup
    rw [destroy, Run.after_bind, after_getCell, getD_of_getElem? hcell]
    exact after_discardBelow hcell (fun _ => rfl) (fun _ => rfl) hkids hnodup.1
      fun hfresh => after_discardAll children hfresh hnodup.2
  | .fragment _ children, m, id, bs, hfresh, hnodup => by
    obtain ⟨ids, cs, rfl, hcell, hkids⟩ := hfresh
    rw [List.nodup_cons] at hnodup
    rw [destroy, Run.after_bind, after_getCell, getD_of_getElem? hcell]
    exact after_discardBelow hcell (fun _ => rfl) (fun _ => rfl) hkids hnodup.1
      fun hfresh => after_discardAll children hfresh hnodup.2

theorem after_discardAll : ∀ (vs : List View.Node) {m : Machine (Stage σ)} {ids bs : List BlockId},
    freshAll m.host.cells frame vs ids bs → bs.Nodup →
    Run.After E (destroyAll ids vs) (fun _ m' => Touches bs m m') m
  | [], m, ids, bs, hfresh, _ => by
    obtain ⟨rfl, rfl⟩ := hfresh
    rw [destroyAll]
    exact ⟨rfl, .refl _⟩
  | v :: r, m, ids, bs, hfresh, hnodup => by
    obtain ⟨id, rest, b, c, rfl, rfl, hv, hr⟩ := hfresh
    obtain ⟨hb, hc, hdisj⟩ := List.nodup_append.1 hnodup
    rw [destroyAll]
    refine (after_discard v hv hb).bind ?_
    rintro _ m₁ ⟨h₁, -⟩
    have hr₁ := h₁.fresh hr fun i hi hmem => hdisj i hmem i hi rfl
    refine (after_discardAll r hr₁ hc).mono ?_
    intro _ m₂ h₂
    exact (h₁.mono fun i hi => List.mem_append.2 (Or.inl hi)).trans
      (h₂.mono fun i hi => List.mem_append.2 (Or.inr hi))

end

end

/-! ### Calls that do nothing -/

section

variable {m : Machine (Stage σ)} {s : Site σ} {id : BlockId}

/-- A run that does nothing at all. -/
def Idle (x : Run (Stage σ) Unit) (m : Machine (Stage σ)) : Prop := x m = .ok ((), m)

theorem idle_of_after {x : Run (Stage σ) Unit}
    (h : Run.After (fun _ => False) x (fun _ m' => m' = m) m) : Idle x m := by
  obtain ⟨_, m', hx, rfl⟩ := h.exists_ok
  exact hx

/-- Nothing happens to a block that is done. -/
theorem Done.idle_mount (h : Done m.host id) (part : Part) (st : Dict Value) (parent : NodeId)
    (anchor : Option NodeId) : Idle (part.mount s st id parent anchor) m := by
  obtain ⟨cell, hcell, hdone⟩ := h
  refine idle_of_after ?_
  cases part with
  | node v =>
    cases v <;>
      rw [Part.mount, mount, Run.after_bind, after_getCell, getD_of_getElem? hcell, hdone] <;> rfl
  | whole vs =>
    rw [Part.mount, Run.after_bind, after_getCell, getD_of_getElem? hcell, hdone]
    rfl

theorem Done.idle_patch (h : Done m.host id) (part : Part) (dirty : Mask) (st : Dict Value) :
    Idle (part.patch s dirty st id) m := by
  obtain ⟨cell, hcell, hdone⟩ := h
  refine idle_of_after ?_
  cases part with
  | node v =>
    cases v with
    | fixed => rfl
    | fragment =>
      rw [Part.patch, patch, Run.after_bind, after_getCell, getD_of_getElem? hcell, hdone]
      rfl
    | _ =>
      rw [Part.patch, patch, Run.after_bind, after_getCell, getD_of_getElem? hcell, hdone]
      cases cell.node <;> rfl
  | whole vs =>
    rw [Part.patch, Run.after_bind, after_getCell, getD_of_getElem? hcell, hdone]
    rfl

theorem Done.idle_destroy (h : Done m.host id) (part : Part) : Idle (part.destroy id) m := by
  obtain ⟨cell, hcell, hdone⟩ := h
  refine idle_of_after ?_
  cases part with
  | node v =>
    cases v <;>
      rw [Part.destroy, destroy, Run.after_bind, after_getCell, getD_of_getElem? hcell, hdone] <;>
      rfl
  | whole vs =>
    rw [Part.destroy, Run.after_bind, after_getCell, getD_of_getElem? hcell, hdone]
    rfl

/-- Nothing is patched before it is mounted. -/
theorem Part.Fresh.idle_patch {part : Part} {frame : Frame} {bs : List BlockId}
    (h : part.Fresh m.host.cells frame id bs) (dirty : Mask) (st : Dict Value) :
    Idle (part.patch s dirty st id) m := by
  refine idle_of_after ?_
  cases part with
  | node v =>
    obtain ⟨-, ids, hcell⟩ := Block.Fresh.root h
    cases v with
    | fixed => rfl
    | _ =>
      rw [Part.patch, Block.patch, Run.after_bind, after_getCell, getD_of_getElem? hcell]
      rfl
  | whole vs =>
    obtain ⟨ids, cs, -, hcell, -⟩ := h
    rw [Part.patch, Run.after_bind, after_getCell, getD_of_getElem? hcell]
    rfl

/-- A part is mounted as some trees. -/
def Part.Stands (id : BlockId) (w : Stage σ) (ts : List Tree) : Part → Prop
  | .node v => ∃ t, ts = [t] ∧ t.id = id ∧ Shaped v t
  | .whole vs => (∃ cell, w.cells[id]? = some cell ∧ cell.done = false ∧ cell.mounted = true ∧
      cell.children = ts.map Tree.id) ∧ id ∉ blocksAll ts ∧ shapedAll vs ts

/-- Nothing is mounted twice. -/
theorem Part.Stands.idle_mount {part : Part} {ts : List Tree} {p : NodeId} {y : Dom.Node}
    {pre post : List NodeId} (h : part.Stands id m.host ts)
    (hp : Placed m.host.bare p y pre ts post) (st : Dict Value) (parent : NodeId)
    (anchor : Option NodeId) : Idle (part.mount s st id parent anchor) m := by
  refine idle_of_after ?_
  cases part with
  | node v =>
    obtain ⟨t, rfl, rfl, hshaped⟩ := h
    cases v with
    | fixed | text =>
      obtain ⟨i, cell, n, text, rfl, hcell⟩ := hshaped
      rw [Part.mount, Block.mount, Run.after_bind, after_cellOf hp, Tree.cell, hcell.alive, hcell.node]
      rfl
    | elem =>
      obtain ⟨i, cell, n, tag, as, kids, rfl, hcell, -⟩ := hshaped
      rw [Part.mount, Block.mount, Run.after_bind, after_cellOf hp, Tree.cell, hcell.alive, hcell.node]
      rfl
    | cond | each =>
      obtain ⟨i, cell, a, kids, rfl, hcell, -⟩ := hshaped
      rw [Part.mount, Block.mount, Run.after_bind, after_cellOf hp, Tree.cell, hcell.alive, hcell.node]
      rfl
    | fragment =>
      obtain ⟨i, cell, a, kids, rfl, hcell, hmounted, -⟩ := hshaped
      rw [Part.mount, Block.mount, Run.after_bind, after_cellOf hp, Tree.cell, hcell.alive, hmounted]
      rfl
  | whole vs =>
    obtain ⟨⟨cell, hcell, halive, hmounted, -⟩, -⟩ := h
    rw [Part.mount, Run.after_bind, after_getCell, getD_of_getElem? hcell, halive, hmounted]
    rfl

end

/-! ### Parts -/

section

variable {E : Halt → Prop} {m m' : Machine (Stage σ)} {s : Site σ} {st : Dict Value}
  {dirty : Mask} {frame : Frame} {id : BlockId} {bs : List BlockId} {p : NodeId} {y : Dom.Node}
  {pre post : List NodeId} {ts ts' : List Tree} {part : Part}

theorem Part.after_creation (part : Part) (frame : Frame) (m : Machine (Stage σ)) :
    Run.After E (part.create frame)
      (fun id m' => ∃ bs, Makes m m' bs ∧ part.Fresh m'.host.cells frame id bs) m := by
  cases part with
  | node v => exact Block.after_creation frame v m
  | whole vs =>
    refine (after_creationAll frame vs m).bind ?_
    rintro ids m₁ ⟨cs, hmakes, hfresh⟩
    refine (after_newBlock _ m₁).mono ?_
    rintro id m₂ ⟨hmakes', hcell⟩
    exact ⟨id :: cs, hmakes.cons hmakes' hfresh.lt, ids, cs, rfl, hcell,
      hfresh.congr fun i hi => hmakes'.old (hfresh.lt i hi)⟩

/-- The block of a whole view is none of the blocks below it, and stays what it is. -/
theorem Replaces.outside {cell : Cell} (h : Replaces p y pre post bs m ts m' ts')
    (hcell : m.host.cells[id]? = some cell) (hts : id ∉ blocksAll ts) (hbs : id ∉ bs) :
    m'.host.cells[id]? = some cell ∧ id ∉ blocksAll ts' := by
  have hid : id < m.host.cells.size := (Array.getElem?_eq_some_iff.1 hcell).1
  refine ⟨(h.becomes.moves.block id hid ?_).trans hcell, fun hmem => ?_⟩
  · rintro (hmem | hmem)
    · exact hts hmem
    · exact hbs hmem
  · rcases h.becomes.blocks id hmem with hmem | hmem | hmem
    · exact hts hmem
    · exact hbs hmem
    · exact absurd hid (Nat.not_lt.2 hmem)

/-- A part that is mounted takes a region. -/
theorem Part.after_mounting (hs : s.Calm E) (hc : m.host.doc.Counted)
    (hfresh : part.Fresh m.host.cells frame id bs) (hnodup : bs.Nodup)
    (hp : Placed m.host.bare p y pre [] post) :
    Run.After E (part.mount s st id p post.head?)
      (fun _ m' => ∃ ts, Replaces p y pre post bs m [] m' ts ∧ part.Stands id m'.host ts) m := by
  cases part with
  | node v =>
    refine (hs.after_mounting v hc hfresh hnodup hp).mono ?_
    rintro _ m' ⟨t, h, hid, hshaped⟩
    exact ⟨[t], h, t, rfl, hid, hshaped⟩
  | whole vs =>
    obtain ⟨ids, cs, rfl, hcell, hkids⟩ := hfresh
    rw [List.nodup_cons] at hnodup
    rw [Part.mount, Run.after_bind, after_getCell, getD_of_getElem? hcell]
    refine (after_mark hcell fun c => { c with mounted := true }).bind ?_
    rintro _ m₁ ⟨h₁, hcell₁⟩
    have hkids₁ := h₁.fresh hkids fun i hi hmem => by
      rw [List.mem_singleton.1 hmem] at hi
      exact hnodup.1 hi
    have h₁' := h₁.replaces hc hp fun _ hi => absurd hi List.not_mem_nil
    refine (hs.after_mountingAll vs h₁'.counted hkids₁ hnodup.2 h₁'.placed).mono ?_
    rintro _ m₂ ⟨ts, h₂, hids, hshaped⟩
    obtain ⟨hcell₂, hout⟩ := h₂.outside hcell₁ List.not_mem_nil hnodup.1
    refine ⟨ts, (h₁'.mono fun i hi => ?_).trans h₂ fun i hi => ?_,
      ⟨_, hcell₂, rfl, rfl, hids.symm⟩, hout, hshaped⟩
    · rw [List.mem_singleton.1 hi]
      exact List.mem_cons_self
    · exact Or.inr (Or.inl (List.mem_cons_of_mem _ hi))

/-- The steady blocks of a part that is mounted as some trees. -/
def Part.spots (s : Site σ) (dirty : Mask) (p : NodeId) (ts : List Tree) : Part → List Spot
  | .node v => ts.flatMap (Tree.steady s dirty p v)
  | .whole vs => Tree.steadyAll s dirty p vs ts

/-- A part that is patched keeps its region, and what is steady in it. -/
theorem Part.after_patching (hs : s.Calm E) (hc : m.host.doc.Counted)
    (hears : hearsAll m.host.doc ts) (hstands : part.Stands id m.host ts)
    (hp : Placed m.host.bare p y pre ts post) :
    Run.After E (part.patch s dirty st id)
      (fun _ m' => ∃ ts', Replaces p y pre post [] m ts m' ts' ∧ part.Stands id m'.host ts' ∧
        Keeps s dirty m m' (part.spots s dirty p ts) (part.spots s dirty p ts')) m := by
  cases part with
  | node v =>
    obtain ⟨t, rfl, rfl, hshaped⟩ := hstands
    refine (hs.after_patching v hc hears.1 hshaped hp).mono ?_
    rintro _ m' ⟨t', h, hid, hshaped', hkeeps⟩
    refine ⟨[t'], h, ⟨t', rfl, hid, hshaped'⟩, ?_⟩
    rwa [Part.spots, Part.spots, List.flatMap_singleton, List.flatMap_singleton]
  | whole vs =>
    obtain ⟨⟨cell, hcell, halive, hmounted, hids⟩, hout, hshaped⟩ := hstands
    rw [Part.patch, Run.after_bind, after_getCell, getD_of_getElem? hcell, halive, hmounted, hids]
    refine (hs.after_patchingAll vs hc hears hshaped hp).mono ?_
    rintro _ m' ⟨ts', h, hids', hshaped', hkeeps⟩
    obtain ⟨hcell', hout'⟩ := h.outside hcell hout List.not_mem_nil
    exact ⟨ts', h, ⟨⟨cell, hcell', halive, hmounted, hids.trans hids'.symm⟩, hout', hshaped'⟩, hkeeps⟩

/-- A part that is destroyed gives its region back. -/
theorem Part.after_destruction (hc : m.host.doc.Counted) (hstands : part.Stands id m.host ts)
    (hp : Placed m.host.bare p y pre ts post) :
    Run.After E (part.destroy id)
      (fun _ m' => Replaces p y pre post [id] m ts m' [] ∧ Done m'.host id) m := by
  cases part with
  | node v =>
    obtain ⟨t, rfl, rfl, hshaped⟩ := hstands
    refine (Block.after_destruction v hc hshaped hp).mono ?_
    rintro _ m' ⟨h, hdone⟩
    exact ⟨h.mono fun i hi => absurd hi List.not_mem_nil, hdone⟩
  | whole vs =>
    obtain ⟨⟨cell, hcell, halive, hmounted, hids⟩, hout, hshaped⟩ := hstands
    rw [Part.destroy, Run.after_bind, after_getCell, getD_of_getElem? hcell, halive, hids]
    refine (after_mark hcell fun c => { c with done := true }).bind ?_
    rintro _ m₁ ⟨h₁, hcell₁⟩
    have h₁' := h₁.replaces hc hp fun i hi hmem => by
      rw [List.mem_singleton.1 hmem] at hi
      exact hout hi
    refine (after_destructionAll vs h₁'.counted hshaped h₁'.placed).mono ?_
    intro _ m₂ h₂
    exact ⟨h₁'.trans_nil h₂, _, (h₂.outside hcell₁ hout List.not_mem_nil).1, rfl⟩

/-- A part that was not mounted is destroyed. -/
theorem Part.after_discard (hfresh : part.Fresh m.host.cells frame id bs) (hnodup : bs.Nodup) :
    Run.After E (part.destroy id) (fun _ m' => Touches bs m m' ∧ Done m'.host id) m := by
  cases part with
  | node v => exact Block.after_discard v hfresh hnodup
  | whole vs =>
    obtain ⟨ids, cs, rfl, hcell, hkids⟩ := hfresh
    rw [List.nodup_cons] at hnodup
    rw [Part.destroy, Run.after_bind, after_getCell, getD_of_getElem? hcell]
    refine (after_mark hcell fun c => { c with done := true }).bind ?_
    rintro _ m₁ ⟨h₁, hcell₁⟩
    have hkids₁ := h₁.fresh hkids fun i hi hmem => by
      rw [List.mem_singleton.1 hmem] at hi
      exact hnodup.1 hi
    refine (after_discardAll vs hkids₁ hnodup.2).mono ?_
    intro _ m₂ h₂
    refine ⟨(h₁.mono fun i hi => ?_).trans (h₂.mono fun i hi => ?_), _, h₂.kept hcell₁ hnodup.1, rfl⟩
    · rw [List.mem_singleton.1 hi]
      exact List.mem_cons_self
    · exact List.mem_cons_of_mem _ hi

end

/-! ### The life of a block -/

/-- A call of one of the operations of a block. -/
inductive Call where
  | mount (state : Dict Value)
  | patch (dirty : Mask) (state : Dict Value)
  | destroy

/-- A call is performed; a block is mounted under `parent`, before `anchor` or at the end. -/
def Call.perform (s : Site σ) (part : Part) (id : BlockId) (parent : NodeId)
    (anchor : Option NodeId) : Call → Run (Stage σ) Unit
  | .mount state => part.mount s state id parent anchor
  | .patch dirty state => part.patch s dirty state id
  | .destroy => part.destroy id

/-- How far the life of a block has gone. -/
inductive Phase where
  | created
  | mounted
  | destroyed
deriving DecidableEq

/-- The phase after a call. -/
def Phase.next : Phase → Call → Phase
  | .created, .mount _ => .mounted
  | _, .destroy => .destroyed
  | phase, _ => phase

/-- The phase after some calls. -/
def Phase.after (calls : List Call) : Phase := calls.foldl Phase.next .created

/-- The calls that come too early or too late. -/
def Phase.Ignores : Phase → Call → Prop
  | .created, .patch .. => True
  | .mounted, .mount _ => True
  | .destroyed, _ => True
  | _, _ => False

section

variable {s : Site σ} {E : Halt → Prop} {part : Part} {id : BlockId} {m₀ m : Machine (Stage σ)}
  {frame : Frame} {p : NodeId} {y : Dom.Node} {pre post : List NodeId} {phase : Phase}

/-- What a block has made of its place since it was created. -/
def Part.Lives (part : Part) (frame : Frame) (id : BlockId) (p : NodeId) (y : Dom.Node)
    (pre post : List NodeId) (m₀ m : Machine (Stage σ)) : Phase → Prop
  | .created => Replaces p y pre post [] m₀ [] m [] ∧ ∃ bs, part.Fresh m.host.cells frame id bs ∧
      bs.Nodup ∧ ∀ i ∈ bs, m₀.host.cells.size ≤ i
  | .mounted => m₀.host.cells.size ≤ id ∧ ∃ ts, Replaces p y pre post [] m₀ [] m ts ∧
      part.Stands id m.host ts
  | .destroyed => Replaces p y pre post [] m₀ [] m [] ∧ Done m.host id

theorem Part.Fresh.mem {bs : List BlockId} {cells : Array Cell}
    (h : part.Fresh cells frame id bs) : id ∈ bs := by
  cases part with
  | node v => exact (Block.Fresh.root h).1
  | whole vs =>
    obtain ⟨ids, cs, rfl, -⟩ := h
    exact List.mem_cons_self

/-- A call that comes too early or too late does nothing. -/
theorem Part.Lives.idle (h : part.Lives frame id p y pre post m₀ m phase) {call : Call}
    (hcall : phase.Ignores call) (parent : NodeId) (anchor : Option NodeId) :
    Idle (call.perform s part id parent anchor) m := by
  cases phase with
  | created =>
    obtain ⟨-, bs, hfresh, -⟩ := h
    cases call with
    | patch dirty state => exact hfresh.idle_patch dirty state
    | mount | destroy => exact hcall.elim
  | mounted =>
    obtain ⟨-, ts, hturns, hstands⟩ := h
    cases call with
    | mount state => exact hstands.idle_mount hturns.placed state parent anchor
    | patch | destroy => exact hcall.elim
  | destroyed =>
    cases call with
    | mount state => exact h.2.idle_mount part state parent anchor
    | patch dirty state => exact h.2.idle_patch part dirty state
    | destroy => exact h.2.idle_destroy part

/-- What one call does to a region. -/
theorem Part.after_call (hs : s.Calm E) (h : part.Lives frame id p y pre post m₀ m phase)
    (call : Call) : Run.After E (call.perform s part id p post.head?)
      (fun _ m' => part.Lives frame id p y pre post m₀ m' (phase.next call)) m := by
  have hidle : phase.Ignores call → phase.next call = phase →
      Run.After E (call.perform s part id p post.head?)
        (fun _ m' => part.Lives frame id p y pre post m₀ m' (phase.next call)) m := by
    intro hcall hnext
    rw [hnext]
    exact (Run.after_of_ok (h.idle hcall p post.head?)).2 h
  cases phase with
  | created =>
    obtain ⟨h₀, bs, hfresh, hnodup, hnew⟩ := h
    have hold : ∀ i ∈ bs, i ∈ blocksAll [] ∨ i ∈ [] ∨ m₀.host.cells.size ≤ i :=
      fun i hi => Or.inr (Or.inr (hnew i hi))
    cases call with
    | mount state =>
      refine (Part.after_mounting hs h₀.counted hfresh hnodup h₀.placed).mono ?_
      rintro _ m' ⟨ts, h₁, hstands⟩
      exact ⟨hnew id hfresh.mem, ts, h₀.trans h₁ hold, hstands⟩
    | patch dirty state => exact hidle trivial rfl
    | destroy =>
      refine (Part.after_discard hfresh hnodup).mono ?_
      rintro _ m' ⟨h₁, hdone⟩
      have h₁' := h₁.replaces h₀.counted h₀.placed fun _ hi => absurd hi List.not_mem_nil
      exact ⟨h₀.trans h₁' hold, hdone⟩
  | mounted =>
    obtain ⟨hnew, ts, h₀, hstands⟩ := h
    cases call with
    | mount state => exact hidle trivial rfl
    | patch dirty state =>
      refine (Part.after_patching hs h₀.counted (h₀.hears trivial) hstands h₀.placed).mono ?_
      rintro _ m' ⟨ts', h₁, hstands', -⟩
      exact ⟨hnew, ts', h₀.trans_nil h₁, hstands'⟩
    | destroy =>
      refine (Part.after_destruction h₀.counted hstands h₀.placed).mono ?_
      rintro _ m' ⟨h₁, hdone⟩
      refine ⟨h₀.trans h₁ fun i hi => Or.inr (Or.inr ?_), hdone⟩
      rw [List.mem_singleton.1 hi]
      exact hnew
  | destroyed =>
    cases call with
    | mount | patch | destroy => exact hidle trivial rfl

/-- What any sequence of calls does to a region. -/
theorem Part.after_calls (hs : s.Calm E) : ∀ (calls : List Call) {m : Machine (Stage σ)}
    {phase : Phase}, part.Lives frame id p y pre post m₀ m phase →
    Run.After E (calls.forM (Call.perform s part id p post.head?))
      (fun _ m' => part.Lives frame id p y pre post m₀ m' (calls.foldl Phase.next phase)) m
  | [], _, _, h => h
  | call :: r, m, phase, h => by
    show Run.After E (call.perform s part id p post.head? >>= fun _ =>
      r.forM (Call.perform s part id p post.head?)) _ m
    refine (Part.after_call hs h call).bind ?_
    intro _ m' h'
    exact Part.after_calls hs r h'

/-- The place before an anchor, with nothing in it yet. -/
theorem placed_nil {x : Dom.Node} (hx : m.host.doc.nodes[p]? = some x)
    (hstraight : x.astray = false) (hchildren : x.children = pre ++ post)
    (hnodup : (pre ++ post).Nodup) (hlt : ∀ n ∈ pre ++ post, n < m.host.doc.nodes.size) :
    Placed m.host.bare p x pre [] post where
  parent := by
    have hself : ({ x with children := pre ++ post } : Dom.Node) = x := by rw [← hchildren]
    show m.host.doc.nodes[p]? = some { x with children := pre ++ post }
    rw [hself]
    exact hx
  straight := hstraight
  holds := trivial
  nodes := List.nodup_nil
  blocks := List.nodup_nil
  outside := List.not_mem_nil
  around := hnodup
  apart n hn := ⟨List.not_mem_nil, hlt n hn⟩

end

/-- A block owns exactly its region of the document.  It is created for any part of a view, with the
place before an anchor, or at the end, under a parent with other children, and then its operations
are called in any order.  The document is what it was but for the parent, which has the nodes of the
block together in that place, and for nodes and listeners of the block; nothing of them is left
after it is destroyed.  Calls that come too early or too late do nothing.  The host has to keep
away: where a function of the view writes during a mounting, a node may be left over. -/
theorem Part.owns_region {h : Host (Stage σ)} (hh : KeepsAway h) {s : Site σ}
    (hs : s.outcome = outcomeIn h.caller) (part : Part) (frame : Frame) {m : Machine (Stage σ)}
    (hcounted : m.host.doc.Counted) {p : NodeId} {x : Dom.Node} {pre post : List NodeId}
    (hx : m.host.doc.nodes[p]? = some x) (hstraight : x.astray = false)
    (hchildren : x.children = pre ++ post) (hnodup : (pre ++ post).Nodup)
    (hlt : ∀ n ∈ pre ++ post, n < m.host.doc.nodes.size)
    (calls : List Call) :
    Run.After (· = .outOfFuel) (do
        let id ← part.create frame
        calls.forM (Call.perform s part id p post.head?)
        return id)
      (fun id m' =>
        (∀ n, n < m.host.doc.nodes.size → n ≠ p →
          m'.host.doc.nodes[n]? = m.host.doc.nodes[n]?) ∧
        (match Phase.after calls with
          | .created | .destroyed => m'.host.doc.nodes[p]? = some x ∧
            m'.host.doc.listeners = m.host.doc.listeners
          | .mounted => ∃ ts, part.Stands id m'.host ts ∧ Tree.holdsAll m'.host.bare p ts ∧
            m'.host.doc.nodes[p]? = some { x with children := pre ++ (rootsAll ts ++ post) } ∧
            (∀ n ∈ nodesAll ts, m.host.doc.nodes.size ≤ n) ∧
            m'.host.doc.listenersBut (heardAll ts) = m.host.doc.listeners) ∧
        ∀ call, (Phase.after calls).Ignores call → ∀ parent anchor,
          call.perform s part id parent anchor m' = .ok ((), m')) m := by
  have hp := placed_nil hx hstraight hchildren hnodup hlt
  have hself : ({ x with children := pre ++ post } : Dom.Node) = x := by rw [← hchildren]
  refine (part.after_creation frame m).bind ?_
  rintro id m₁ ⟨bs, hmakes, hfresh⟩
  have hlives : part.Lives frame id p x pre post m m₁ .created :=
    ⟨hmakes.replaces hcounted hp, bs, hfresh, hmakes.nodup, hmakes.new⟩
  refine (Part.after_calls (hh.calm hs) calls hlives).bind ?_
  intro _ m₂ h₂
  -- In every phase the place was turned into some trees, which may be none.
  have hall : ∀ {ts}, Replaces p x pre post [] m [] m₂ ts →
      ∀ n, n < m.host.doc.nodes.size → n ≠ p → m₂.host.doc.nodes[n]? = m.host.doc.nodes[n]? := by
    intro ts h n hn hne
    refine h.becomes.moves.node n hn ?_
    rintro (hnp | hmem)
    · exact hne hnp
    · exact absurd hmem List.not_mem_nil
  have hnone : Replaces p x pre post [] m [] m₂ [] → m₂.host.doc.nodes[p]? = some x ∧
      m₂.host.doc.listeners = m.host.doc.listeners := by
    intro h
    have hothers := h.others
    rw [heardAll, Dom.Document.listenersBut_nil, Dom.Document.listenersBut_nil] at hothers
    refine ⟨?_, hothers⟩
    rw [← hself]
    exact h.placed.parent
  refine ⟨?_, ?_, fun call hcall parent anchor => h₂.idle hcall parent anchor⟩
  · cases hphase : Phase.after calls with
    | created => exact hall (hphase ▸ h₂ : part.Lives frame id p x pre post m m₂ .created).1
    | mounted =>
      obtain ⟨-, ts, h, -⟩ := (hphase ▸ h₂ : part.Lives frame id p x pre post m m₂ .mounted)
      exact hall h
    | destroyed => exact hall (hphase ▸ h₂ : part.Lives frame id p x pre post m m₂ .destroyed).1
  · cases hphase : Phase.after calls with
    | created => exact hnone (hphase ▸ h₂ : part.Lives frame id p x pre post m m₂ .created).1
    | mounted =>
      obtain ⟨-, ts, h, hstands⟩ := (hphase ▸ h₂ : part.Lives frame id p x pre post m m₂ .mounted)
      have hothers := h.others
      rw [heardAll, Dom.Document.listenersBut_nil] at hothers
      refine ⟨ts, hstands, h.placed.holds, h.placed.parent, fun n hn => ?_, hothers⟩
      exact (h.becomes.nodes n hn).resolve_left List.not_mem_nil
    | destroyed => exact hnone (hphase ▸ h₂ : part.Lives frame id p x pre post m m₂ .destroyed).1

theorem keepsAway_sandboxHost : KeepsAway sandboxHost := fun _ _ _ => rfl

/-- A button that is there while something is open, and lists what is in it. -/
def notice : Part :=
  .whole [.cond 0 [.mk (stateName "open") (.elem 1 "button" [] [⟨"hot", stateName "hot"⟩]
    [⟨"click", stateName "close"⟩]
    [.each 2 (stateName "items") "item" "" (.text 3 (stateName "hot"))])] .nothing]

/-- A `div` with a listener, between whose children `p` and `hr` a notice has its place. -/
def noticeBoard : Machine (Stage Sandbox) where
  host := {
    doc := {
      nodes := #[{ content := .element "div", children := [1, 2] },
        { content := .element "p", parent := some 0 },
        { content := .element "hr", parent := some 0 }]
      listeners := [⟨0, 0, "click", ⟨⟨"click", stateName "close"⟩, []⟩⟩]
      added := 1 }
    own := { state := [] } }

/-- A notice is mounted and mounted again, patched, destroyed, and patched once more. -/
def noticeCalls : List Call :=
  let opened : Dict Value := [("open", .bool true), ("items", .list [.str "x", .str "y"])]
  [.patch 1 opened, .mount opened, .mount [], .patch 7 (opened.insert "hot" (.bool true)),
    .patch 1 [], .patch 1 opened, .destroy, .patch 1 []]

theorem Part.owns_region_notice :
    Phase.after noticeCalls = .destroyed ∧
    Run.After (· = .outOfFuel) (do
        let id ← notice.create []
        noticeCalls.forM (Call.perform (sandboxSite {} (.ofNames ["open", "items", "hot"])) notice id
          0 (some 2))
        return id)
      (fun _ m' => m'.host.doc.nodes[0]? = noticeBoard.host.doc.nodes[0]? ∧
        m'.host.doc.listeners = noticeBoard.host.doc.listeners) noticeBoard := by
  have hcounted : noticeBoard.host.doc.Counted := by
    intro l hl
    rw [List.mem_singleton.1 hl]
    exact Nat.one_pos
  have hdiv : noticeBoard.host.doc.nodes[0]? =
      some { content := .element "div", children := [1, 2] } := rfl
  have hchildren : ({ content := .element "div", children := [1, 2] } : Dom.Node).children =
      [1] ++ [2] := rfl
  have hregion := Part.owns_region keepsAway_sandboxHost
    (s := sandboxSite {} (.ofNames ["open", "items", "hot"])) rfl notice [] hcounted hdiv rfl
    hchildren (by decide) (by decide) noticeCalls
  refine ⟨rfl, hregion.mono ?_⟩
  rintro id m' ⟨-, hphase, -⟩
  exact hphase

end Reactive.Block
