/-
Blocks settle in their region.

However often a view is patched, with whatever masks and states, its nodes
stay in the place where it was mounted.  All that is needed of a site is that
its evaluations leave the document and the blocks alone; what they answer does
not matter.

* `Site.Calm` — such a site;
* `Site.Calm.after_mounting`, `Site.Calm.after_patching` — a block that is
  mounted takes a region, and keeps it when it is patched.
-/
import Reactive.Proofs.Block.Steady

namespace Reactive.Block

open Dom (NodeId)
open Reactive.Block.Tree (rootsAll nodesAll blocksAll heardAll hearsAll)

variable {σ : Type} {E : Halt → Prop} {m m' m'' : Machine (Stage σ)} {p : NodeId} {y : Dom.Node}
  {pre post : List NodeId} {bs : List BlockId} {id : BlockId} {cell : Cell} {n : NodeId}
  {s : Site σ} {st : Dict Value} {frame : Frame} {dirty : Mask}

/-- The evaluations of a site leave the document and the blocks alone, and stop without an answer
only for a reason that `E` allows. -/
def Site.Calm (s : Site σ) (E : Halt → Prop) : Prop :=
  ∀ store frame e m, Run.After E (s.outcome store frame e)
    (fun _ m' => m'.host.bare = m.host.bare) m

namespace Site.Calm

/-! ### Evaluation -/

theorem after_evaluate (hs : s.Calm E) (frame : Frame) (st : Dict Value) (b : View.Binding)
    (m : Machine (Stage σ)) :
    Run.After E (s.evaluate frame st b) (fun _ m' => m'.host.bare = m.host.bare) m := by
  refine (hs (.snapshot st) frame b.expr m).bind ?_
  intro r m' hm
  cases r with
  | ok v => exact hm
  | error e => exact hm

theorem after_firstTrue (hs : s.Calm E) (frame : Frame) (st : Dict Value)
    (tests : List View.Binding) : ∀ (i : Nat) (m : Machine (Stage σ)),
    Run.After E (firstTrue s frame st i tests) (fun _ m' => m'.host.bare = m.host.bare) m := by
  induction tests with
  | nil => exact fun i m => rfl
  | cons t r ih =>
    intro i m
    refine (hs.after_evaluate frame st t m).bind ?_
    intro v m' hm
    cases v.truthy with
    | true => exact hm
    | false => exact (ih (i + 1) m').mono fun _ _ hm' => hm'.trans hm

/-- A branch is selected only if there is something to show. -/
theorem after_select (hs : s.Calm E) (frame : Frame) (st : Dict Value)
    (branches : List View.Branch) (other : View.Otherwise) (m : Machine (Stage σ)) :
    Run.After E (select s frame st branches other)
      (fun key m' => m'.host.bare = m.host.bare ∧
        ∀ k ∈ key, k < branches.length ∨ hasBody other = true) m := by
  refine (hs.after_firstTrue frame st _ 0 m).bind ?_
  intro i m' hm
  refine ⟨hm, fun k hk => ?_⟩
  split at hk
  · rename_i hor
    obtain rfl := Option.some.inj hk
    rwa [Bool.or_eq_true, decide_eq_true_eq] at hor
  · cases hk

theorem after_items (hs : s.Calm E) (frame : Frame) (st : Dict Value) (list : View.Binding)
    (m : Machine (Stage σ)) :
    Run.After E (items s frame st list) (fun _ m' => m'.host.bare = m.host.bare) m := by
  refine (hs.after_evaluate frame st list m).bind ?_
  intro v m' hm
  cases v <;> exact hm

end Site.Calm

theorem after_trace (s : Site σ) (v : View.Node) (dirty : Mask) (m : Machine (Stage σ)) :
    Run.After E (tracePatch s v dirty) (fun _ m' => m'.host = m.host) m := by
  unfold tracePatch Tracing.write
  split
  · exact rfl
  · exact rfl

/-! ### New nodes -/

/-- A run gave the block `id` a new node that has no place yet. -/
structure Owns (id : BlockId) (cell : Cell) (content : Dom.Content) (m : Machine (Stage σ))
    (n : NodeId) (m' : Machine (Stage σ)) : Prop where
  new : n = m.host.doc.nodes.size
  moves : Moves (fun _ => False) (· = id) m.host.bare m'.host.bare
  cell : m'.host.cells[id]? = some { cell with node := some n }
  node : m'.host.doc.nodes[n]? = some { content }
  listeners : m'.host.doc.listeners = m.host.doc.listeners
  added : m'.host.doc.added = m.host.doc.added

theorem after_owning (hcell : m.host.cells[id]? = some cell) (content : Dom.Content) :
    Run.After E (ownNode id fun d => d.create content)
      (fun n m' => Owns id cell content m n m') m := by
  simp only [ownNode, Run.after_bind, after_onDoc, after_modifyCell, Run.after_pure]
  refine ⟨rfl, ?_, ?_, ?_, rfl, rfl⟩
  · have h₁ := Moves.onCreate (N := fun _ => False) (B := (· = id)) m.host.bare content
    have h₂ := Moves.onCell (N := fun _ => False)
      { m.host.bare with doc := (m.host.doc.create content).2 } id
      fun c => { c with node := some m.host.doc.nodes.size }
    exact h₁.trans h₂ (fun _ _ hk => hk) fun _ _ hk => hk
  · show (m.host.cells.modify id _)[id]? = _
    rw [Array.getElem?_modify, if_pos rfl, hcell]
    rfl
  · show (m.host.doc.create content).2.nodes[m.host.doc.nodes.size]? = _
    rw [Dom.Document.getElem?_create, if_pos rfl]

/-- A tree comes with a node that had no place.  Its listeners were added before. -/
theorem after_inserting {t : Tree} {x : Dom.Node} (hp : Placed m.host.bare p y pre [] post)
    (hm : Moves (fun _ => False) (· ∈ bs) m.host.bare m'.host.bare)
    (hn : m'.host.doc.nodes[n]? = some x) (hx : x.parent = none) (hr : t.roots = [n])
    (hnodes : t.nodes.Nodup) (hblocks : t.blocks.Nodup)
    (hnew : ∀ k ∈ t.nodes, m.host.doc.nodes.size ≤ k)
    (hbs : ∀ i ∈ t.blocks, i ∈ bs ∨ m.host.cells.size ≤ i)
    (hothers : m'.host.doc.listenersBut t.heard = m.host.doc.listeners)
    (hcounted : m'.host.doc.Counted) (hlater : m.host.doc.Later m'.host.doc)
    (hhears : t.Hears m'.host.doc)
    (ht : ∀ w' : Stage Unit, w'.cells = m'.host.cells →
      w'.doc.nodes[n]? = some { x with parent := some p } →
      (∀ k, k ≠ p → k ≠ n → w'.doc.nodes[k]? = m'.host.doc.nodes[k]?) → t.Holds w' p) :
    Run.After E (insertNode p n post.head?)
      (fun _ m'' => Replaces p y pre post bs m [] m'' [t]) m' := by
  obtain ⟨hlisteners, hadded⟩ := m'.host.doc.insert_listeners p n post.head?
  have hbecomes := Becomes.insert hp hm hn hx hr hnodes hblocks hnew hbs ht
  rw [insertNode, after_modifyDoc]
  have hlater' : m'.host.doc.Later (m'.host.doc.insert p n post.head?) := .of_same hlisteners hadded
  refine ⟨hbecomes, ?_, ?_, hlater.trans hlater',
    fun _ => (Tree.hearsAll_singleton ..).2 (hhears.later hlater')⟩
  · rw [Tree.heardAll_singleton, heardAll, Dom.Document.listenersBut_nil, ← hothers,
      Dom.Document.listenersBut, hlisteners]
    rfl
  · intro l hl
    show l.id < (m'.host.doc.insert p n post.head?).added
    rw [hadded]
    rw [hlisteners] at hl
    exact hcounted l hl

namespace Owns

variable {content : Dom.Content}

theorem counted (h : Owns id cell content m n m') (hc : m.host.doc.Counted) :
    m'.host.doc.Counted := by
  intro l hl
  rw [h.added]
  exact hc l (h.listeners ▸ hl)

/-- A node that is not an element comes to its place. -/
theorem place {t : Tree} (h : Owns id cell content m n m') (hc : m.host.doc.Counted)
    (hp : Placed m.host.bare p y pre [] post) (hr : t.roots = [n]) (hnodes : t.nodes = [n])
    (hblocks : t.blocks = [id]) (hheard : t.heard = []) (hhears : ∀ d, t.Hears d)
    (ht : ∀ w' : Stage Unit, w'.cells[id]? = some { cell with node := some n } →
      w'.doc.nodes[n]? = some { content, parent := some p } → t.Holds w' p) :
    Run.After E (insertNode p n post.head?)
      (fun _ m'' => Replaces p y pre post [id] m [] m'' [t]) m' := by
  refine after_inserting hp (h.moves.mono (fun _ _ hk => hk) ?_) h.node rfl hr ?_ ?_ ?_ ?_ ?_
    (h.counted hc) (.of_same h.listeners h.added) (hhears _) ?_
  · rintro i _ rfl
    exact List.mem_cons_self
  · rw [hnodes]
    exact List.nodup_singleton n
  · rw [hblocks]
    exact List.nodup_singleton id
  · intro k hk
    rw [hnodes] at hk
    rw [List.mem_singleton.1 hk, h.new]
  · intro i hi
    rw [hblocks] at hi
    exact Or.inl hi
  · rw [hheard, Dom.Document.listenersBut_nil, h.listeners]
  · intro w' hcells hnode _
    exact ht w' (hcells ▸ h.cell) hnode

theorem leaf {text : Text} (h : Owns id cell (.text text) m n m') (hc : m.host.doc.Counted)
    (hp : Placed m.host.bare p y pre [] post) :
    Run.After E (insertNode p n post.head?) (fun _ m'' =>
      Replaces p y pre post [id] m [] m'' [.leaf id { cell with node := some n } n text]) m' :=
  h.place hc hp rfl rfl rfl rfl (fun _ => trivial) fun _ hcell hnode => ⟨hcell, hnode⟩

theorem anchor (h : Owns id cell .anchor m n m') (hc : m.host.doc.Counted)
    (hp : Placed m.host.bare p y pre [] post) :
    Run.After E (insertNode p n post.head?) (fun _ m'' =>
      Replaces p y pre post [id] m [] m'' [.group id { cell with node := some n } n []]) m' :=
  h.place hc hp rfl rfl rfl rfl (fun _ => trivial) fun _ hcell hnode => ⟨hcell, hnode, trivial⟩

end Owns

theorem after_parent {a : NodeId} {kids : List Tree}
    (hp : Placed m.host.bare p y pre [.group id cell a kids] post)
    (Q : NodeId → Machine (Stage σ) → Prop) : Run.After E (parentOf a) Q m ↔ Q p m := by
  obtain ⟨-, ha, -⟩ := (Tree.holdsAll_singleton ..).1 hp.holds
  have hnode : m.host.doc.node a = { content := .anchor, parent := some p } :=
    Dom.Document.node_of_getElem? ha
  rw [parentOf, Run.after_bind, after_getDoc, hnode]
  rfl

/-! ### Branches and rounds -/

/-- What holds of mounting the blocks of a node: they take a region. -/
def Takes (s : Site σ) (E : Halt → Prop) (st : Dict Value) (v : View.Node) : Prop :=
  ∀ {m : Machine (Stage σ)} {frame : Frame} {id : BlockId} {bs : List BlockId} {p : NodeId}
    {y : Dom.Node} {pre post : List NodeId}, m.host.doc.Counted →
    Fresh m.host.cells frame v id bs → bs.Nodup → Placed m.host.bare p y pre [] post →
    Run.After E (mount s st id p post.head? v)
      (fun _ m' => ∃ t, Replaces p y pre post bs m [] m' [t] ∧ t.id = id ∧ Shaped v t) m

/-- Blocks that are made are mounted after other trees, before an anchor. -/
theorem Takes.before {v : View.Node} (hv : Takes s E st v) (hc : m.host.doc.Counted) {i : BlockId}
    {a : NodeId} {kids : List Tree} (hp : Placed m.host.bare p y pre [.group i cell a kids] post)
    {child : BlockId} (hfresh : Fresh m.host.cells frame v child bs) (hnodup : bs.Nodup)
    (hbs : ∀ k ∈ bs, k ∉ blocksAll [.group i cell a kids]) :
    Run.After E (mount s st child p (some a) v)
      (fun _ m' => ∃ kid, Replaces p y pre post bs m [.group i cell a kids] m'
        [.group i cell a (kids ++ [kid])] ∧ kid.id = child ∧ Shaped v kid) m := by
  rw [Tree.blocksAll_singleton, Tree.blocks] at hbs
  refine (hv hc hfresh hnodup hp.inGroup.snoc).mono ?_
  rintro _ m' ⟨kid, hkid, hid, hshaped⟩
  refine ⟨kid, .inGroup hp (hkid.snoc hp.inGroup ?_) ?_, hid, hshaped⟩
  · exact fun k hk hmem => hbs k hk (List.mem_cons_of_mem _ hmem)
  · rintro k hk rfl
    exact hbs k hk List.mem_cons_self

/-- A run that shows something where nothing was shown, under a key. -/
def Brings (E : Halt → Prop) (p : NodeId) (y : Dom.Node) (pre post : List NodeId) (i : BlockId)
    (cell : Cell) (a : NodeId) (key : Nat) (x : Run (Stage σ) Unit) (shaped : Tree → Prop)
    (m : Machine (Stage σ)) : Prop :=
  Run.After E x (fun _ m' => ∃ kid, Replaces p y pre post [] m [.group i cell a []] m'
    [.group i { cell with shown := some (key, kid.id) } a [kid]] ∧ shaped kid) m

/-- A branch is shown where none was. -/
theorem Takes.shown {v : View.Node} (hv : Takes s E st v) (hc : m.host.doc.Counted) {i : BlockId}
    {a : NodeId} (key : Nat) (hp : Placed m.host.bare p y pre [.group i cell a []] post) :
    Brings E p y pre post i cell a key (do
        let b ← create frame v
        modifyCell i fun c => { c with shown := some (key, b) }
        mount s st b (← parentOf a) (some a) v) (Shaped v) m := by
  have hi : i < m.host.cells.size := (Array.getElem?_eq_some_iff.1 hp.cell).1
  refine (after_creation frame v m).bind ?_
  rintro b m₁ ⟨bs, hmakes, hfresh⟩
  have h₁ := hmakes.replaces hc hp
  have hbs : ∀ k ∈ bs, k ≠ i := by
    rintro k hk rfl
    exact absurd hi (Nat.not_lt.2 (hmakes.new k hk))
  refine (after_rewrite (f := fun c => { c with shown := some (key, b) }) h₁.counted h₁.placed
    fun _ => rfl).bind ?_
  intro _ m₂ h₂
  rw [Run.after_bind, after_parent h₂.placed]
  refine (hv.before h₂.counted h₂.placed (hfresh.congr fun k hk => ?_) hmakes.nodup ?_).mono ?_
  · refine h₂.becomes.moves.block k (hfresh.lt k hk) ?_
    rintro (hmem | hmem)
    · exact hbs k hk (List.mem_singleton.1 hmem)
    · exact absurd hmem List.not_mem_nil
  · intro k hk hmem
    exact hbs k hk (List.mem_singleton.1 hmem)
  · rintro _ m₃ ⟨kid, h₃, rfl, hshaped⟩
    refine ⟨kid, (h₁.trans_nil h₂).trans h₃ fun k hk => ?_, hshaped⟩
    exact Or.inr (Or.inr (hmakes.new k hk))

/-- What a choice selected is shown. -/
theorem after_chosen (hc : m.host.doc.Counted) {i : BlockId} {a : NodeId} (hcell : Live cell a)
    (hnone : cell.shown = none) (hp : Placed m.host.bare p y pre [.group i cell a []] post)
    (num : Nat) {branches : List View.Branch} {other : View.Otherwise} {key : Option Nat}
    (hkey : ∀ k ∈ key, k < branches.length ∨ hasBody other = true)
    (hbranch : ∀ k, k < branches.length → Brings E p y pre post i cell a k
      (showBranch s st i a frame k k branches) (shapedBranch k branches) m)
    (hother : ∀ k, hasBody other = true → Brings E p y pre post i cell a k
      (showOtherwise s st i a frame k other) (shapedOtherwise other) m) :
    Run.After E (match key with
      | none => pure ()
      | some k => if k < branches.length then showBranch s st i a frame k k branches
        else showOtherwise s st i a frame k other)
      (fun _ m' => ∃ cell' kids, Replaces p y pre post [] m [.group i cell a []] m'
          [.group i cell' a kids] ∧ Shaped (.cond num branches other) (.group i cell' a kids)) m := by
  cases key with
  | none =>
    refine ⟨cell, [], .refl hc hp, i, cell, a, [], rfl, hcell, ?_⟩
    rw [hnone]
  | some k =>
    by_cases hlt : k < branches.length
    · simp only [if_pos hlt]
      refine (hbranch k hlt).mono ?_
      rintro _ m' ⟨kid, h, hkid⟩
      refine ⟨_, [kid], h, i, _, a, [kid], rfl, ⟨hcell.alive, hcell.node⟩, kid, rfl, rfl, ?_⟩
      rwa [if_pos hlt]
    · simp only [if_neg hlt]
      refine (hother k ((hkey k rfl).resolve_left hlt)).mono ?_
      rintro _ m' ⟨kid, h, hkid⟩
      refine ⟨_, [kid], h, i, _, a, [kid], rfl, ⟨hcell.alive, hcell.node⟩, kid, rfl, rfl, ?_⟩
      rwa [if_neg hlt]

/-- The rounds of a loop are mounted one after another. -/
theorem Takes.rounds {body : View.Node} (hbody : Takes s E st body) {item index : Text}
    {i : BlockId} {a : NodeId} : ∀ (xs : List (Value × Nat)) {m : Machine (Stage σ)} {cell : Cell}
    {kids : List Tree}, m.host.doc.Counted → Live cell a → cell.children = kids.map Tree.id →
    (∀ kid ∈ kids, Shaped body kid) → Placed m.host.bare p y pre [.group i cell a kids] post →
    Run.After E (xs.forM fun (v, j) => do
        let parent ← parentOf a
        let child ← create (roundVars item index j v :: frame) body
        mount s st child parent (some a) body
        modifyCell i fun c => { c with children := c.children ++ [child] })
      (fun _ m' => ∃ cell' kids', Replaces p y pre post [] m [.group i cell a kids] m'
          [.group i cell' a kids'] ∧ Live cell' a ∧ cell'.children = kids'.map Tree.id ∧
        ∀ kid ∈ kids', Shaped body kid) m
  | [], m, cell, kids, hc, hcell, hids, hs, hp => ⟨cell, kids, .refl hc hp, hcell, hids, hs⟩
  | (v, j) :: r, m, cell, kids, hc, hcell, hids, hs, hp => by
    refine (Run.after_bind _ _ _).2 ((Run.after_bind _ _ _).2 ((after_parent hp _).2 ?_))
    refine (after_creation (roundVars item index j v :: frame) body m).bind ?_
    rintro child m₁ ⟨bs, hmakes, hfresh⟩
    have h₁ := hmakes.replaces hc hp
    have hbs : ∀ k ∈ bs, k ∉ blocksAll [.group i cell a kids] := by
      intro k hk hmem
      exact absurd (hp.holds.block_lt k hmem) (Nat.not_lt.2 (hmakes.new k hk))
    refine (hbody.before h₁.counted h₁.placed hfresh hmakes.nodup hbs).bind ?_
    rintro _ m₂ ⟨kid, h₂, rfl, hshaped⟩
    refine (after_rewrite (f := fun c => { c with children := c.children ++ [kid.id] }) h₂.counted
      h₂.placed fun _ => rfl).mono ?_
    intro _ m₃ h₃
    have h₃' : Replaces p y pre post [] m [.group i cell a kids] m₃
        [.group i { cell with children := cell.children ++ [kid.id] } a (kids ++ [kid])] := by
      refine (h₁.trans h₂ fun k hk => ?_).trans_nil h₃
      exact Or.inr (Or.inr (hmakes.new k hk))
    have hcell' : Live { cell with children := cell.children ++ [kid.id] } a :=
      ⟨hcell.alive, hcell.node⟩
    refine (Takes.rounds hbody r h₃.counted hcell' ?_ ?_ h₃'.placed).mono ?_
    · rw [hids, List.map_append]
      rfl
    · intro k hk
      rcases List.mem_append.1 hk with hk | hk
      · exact hs k hk
      · rwa [List.mem_singleton.1 hk]
    · rintro _ m₄ ⟨cell', kids', h₄, hrest⟩
      exact ⟨cell', kids', h₃'.trans_nil h₄, hrest⟩

/-- The list of a loop is evaluated and its rounds are mounted. -/
theorem Takes.loop (hs : s.Calm E) {body : View.Node} (hbody : Takes s E st body)
    (list : View.Binding) (item index : Text) (hc : m.host.doc.Counted) {i : BlockId} {a : NodeId}
    (hcell : Live cell a) (hnone : cell.children = [])
    (hp : Placed m.host.bare p y pre [.group i cell a []] post) (num : Nat) :
    Run.After E (Block.rounds s st i a frame list item index body fun child parent =>
        mount s st child parent (some a) body)
      (fun _ m' => ∃ cell' kids, Replaces p y pre post [] m [.group i cell a []] m'
          [.group i cell' a kids] ∧
        Shaped (.each num list item index body) (.group i cell' a kids)) m := by
  refine (hs.after_items frame st list m).bind ?_
  intro xs m₁ hbare
  have h₁ : Replaces p y pre post [] m _ m₁ _ := .of_bare hc hp hbare
  have hids : cell.children = ([] : List Tree).map Tree.id := hnone
  refine (hbody.rounds xs.zipIdx h₁.counted hcell hids (fun _ hk => absurd hk List.not_mem_nil)
    h₁.placed).mono ?_
  rintro _ m₂ ⟨cell', kids, h₂, hcell', hids, hkids⟩
  exact ⟨cell', kids, h₁.trans_nil h₂, i, cell', a, kids, rfl, hcell', hids, hkids⟩

/-! ### Elements -/

/-- A run that wrote the attributes of an element and what its block remembers of them.  The
attributes whose names satisfy `q` are what they were. -/
structure Paints (q : Text → Bool) (id : BlockId) (n : NodeId) (m m' : Machine (Stage σ)) : Prop where
  moves : Moves (· = n) (· = id) m.host.bare m'.host.bare
  listeners : m'.host.doc.listeners = m.host.doc.listeners
  added : m'.host.doc.added = m.host.doc.added
  cell : ∀ c, m.host.cells[id]? = some c → ∃ vs ts, ts.length = c.toggles.length ∧
    m'.host.cells[id]? = some { c with attrs := vs, toggles := ts }
  node : ∀ x, m.host.doc.nodes[n]? = some x → ∃ as, m'.host.doc.nodes[n]? = some { x with attrs := as } ∧
    as.filter (fun a => q a.1) = x.attrs.filter fun a => q a.1

namespace Paints

variable {q : Text → Bool}

theorem of_bare (hbare : m'.host.bare = m.host.bare) : Paints q id n m m' := by
  have hdoc : m'.host.doc = m.host.doc := congrArg (Stage.doc (σ := Unit)) hbare
  have hcells : m'.host.cells = m.host.cells := congrArg (Stage.cells (σ := Unit)) hbare
  refine ⟨?_, by rw [hdoc], by rw [hdoc], fun c hc => ⟨c.attrs, c.toggles, rfl, ?_⟩,
    fun x hx => ⟨x.attrs, ?_, rfl⟩⟩
  · rw [hbare]
    exact .refl _
  · rw [hcells]
    exact hc
  · rw [hdoc]
    exact hx

theorem trans (h : Paints q id n m m') (h' : Paints q id n m' m'') : Paints q id n m m'' := by
  refine ⟨h.moves.trans h'.moves (fun _ _ hk => hk) fun _ _ hk => hk,
    h'.listeners.trans h.listeners, h'.added.trans h.added, fun c hc => ?_, fun x hx => ?_⟩
  · obtain ⟨vs, ts, hlen, hcell⟩ := h.cell c hc
    obtain ⟨vs', ts', hlen', hcell'⟩ := h'.cell _ hcell
    exact ⟨vs', ts', hlen'.trans hlen, hcell'⟩
  · obtain ⟨as, hnode, hsame⟩ := h.node x hx
    obtain ⟨as', hnode', hsame'⟩ := h'.node _ hnode
    exact ⟨as', hnode', hsame'.trans hsame⟩

theorem onAttrs (m : Machine (Stage σ)) {f : List (Text × Text) → List (Text × Text)}
    (hf : ∀ as, (f as).filter (fun a => q a.1) = as.filter fun a => q a.1) :
    Paints q id n m { m with host := { m.host with doc := m.host.doc.modifyAttrs n f } } := by
  refine ⟨.onNode m.host.bare n _, rfl, rfl, fun c hc => ⟨c.attrs, c.toggles, rfl, hc⟩,
    fun x hx => ⟨f x.attrs, ?_, hf x.attrs⟩⟩
  show (m.host.doc.modifyNode n _).nodes[n]? = _
  rw [Dom.Document.getElem?_modifyNode, if_pos rfl, hx]
  rfl

theorem onCell (m : Machine (Stage σ)) {f : Cell → Cell}
    (hf : ∀ c, ∃ vs ts, ts.length = c.toggles.length ∧ f c = { c with attrs := vs, toggles := ts }) :
    Paints q id n m { m with host := { m.host with cells := m.host.cells.modify id f } } := by
  refine ⟨.onCell m.host.bare id f, rfl, rfl, fun c hc => ?_, fun x hx => ⟨x.attrs, hx, rfl⟩⟩
  obtain ⟨vs, ts, hlen, hfc⟩ := hf c
  refine ⟨vs, ts, hlen, ?_⟩
  show (m.host.cells.modify id f)[id]? = _
  rw [Array.getElem?_modify, if_pos rfl, hc, ← hfc]
  rfl

/-- The values of attributes that a block remembers. -/
theorem onValues (m : Machine (Stage σ)) (f : List Value → List Value) : Paints q id n m
    { m with host := { m.host with
      cells := m.host.cells.modify id fun c => { c with attrs := f c.attrs } } } :=
  onCell m fun c => ⟨f c.attrs, c.toggles, rfl, rfl⟩

/-- One of the switches that a block remembers. -/
theorem onSwitch (m : Machine (Stage σ)) (i : Nat) (on : Bool) : Paints q id n m
    { m with host := { m.host with
      cells := m.host.cells.modify id fun c => { c with toggles := c.toggles.set i on } } } :=
  onCell m fun c => ⟨c.attrs, c.toggles.set i on, List.length_set, rfl⟩

theorem counted (h : Paints q id n m m') (hc : m.host.doc.Counted) : m'.host.doc.Counted := by
  intro l hl
  rw [h.added]
  exact hc l (h.listeners ▸ hl)

/-- An element in its place gets other attributes. -/
theorem replaces (h : Paints q id n m m') {tag : Text} {as : List (Text × Text)} {kids : List Tree}
    (hc : m.host.doc.Counted) (hp : Placed m.host.bare p y pre [.elem id cell n tag as kids] post) :
    ∃ vs ts as', ts.length = cell.toggles.length ∧
      as'.filter (fun a => q a.1) = as.filter (fun a => q a.1) ∧
      Replaces p y pre post [] m [.elem id cell n tag as kids] m'
        [.elem id { cell with attrs := vs, toggles := ts } n tag as' kids] := by
  obtain ⟨hcell, hn, hkids⟩ := (Tree.holdsAll_singleton ..).1 hp.holds
  have hnodes := hp.nodes
  have hblocks := hp.blocks
  rw [Tree.nodesAll_singleton, Tree.nodes, List.nodup_cons] at hnodes
  rw [Tree.blocksAll_singleton, Tree.blocks, List.nodup_cons] at hblocks
  obtain ⟨vs, ts, hlen, hcell'⟩ := h.cell cell hcell
  obtain ⟨as', hn', hsame⟩ := h.node _ hn
  refine ⟨vs, ts, as', hlen, hsame, .of_same (.inPlace hp (h.moves.mono ?_ ?_) ⟨hcell', hn', ?_⟩ rfl rfl rfl)
    hc h.listeners h.added rfl fun hears => hears⟩
  · rintro k _ rfl
    exact List.mem_cons_self
  · rintro k _ rfl
    exact List.mem_cons_self
  · refine h.moves.holdsAll hkids ?_ ?_
    · rintro k hk rfl
      exact hnodes.1 hk
    · rintro k hk rfl
      exact hblocks.1 hk

end Paints

theorem filter_none (as as' : List (Text × Text)) :
    as.filter (fun _ => false) = as'.filter fun _ => false := by
  rw [List.filter_false, List.filter_false]

namespace Site.Calm

/-- The bound attributes are evaluated for the first time. -/
theorem after_mountAttrs (hs : s.Calm E) : ∀ (as : List (Text × View.Binding)) (i : Nat)
    (m : Machine (Stage σ)), Run.After E (mountAttrs s st id n frame i as)
      (fun _ m' => Paints (fun _ => false) id n m m') m
  | [], _, _ => .of_bare rfl
  | (name, b) :: r, i, m => by
    rw [mountAttrs]
    refine (hs.after_evaluate frame st b m).bind ?_
    intro v m₁ hbare
    simp only [Run.after_bind, after_modifyCell, after_modifyDoc]
    refine (hs.after_mountAttrs r (i + 1) _).mono ?_
    intro _ m₂ h₂
    exact (Paints.of_bare hbare).trans
      ((Paints.onValues m₁ (·.set i v)).trans ((Paints.onAttrs _ fun _ => filter_none _ _).trans h₂))

/-- The class toggles are evaluated for the first time. -/
theorem after_mountToggles (hs : s.Calm E) : ∀ (toggles : List View.Toggle) (i : Nat)
    (m : Machine (Stage σ)), Run.After E (mountToggles s st id n frame i toggles)
      (fun _ m' => Paints (fun _ => false) id n m m') m
  | [], _, _ => .of_bare rfl
  | t :: r, i, m => by
    rw [mountToggles]
    refine (hs.after_evaluate frame st t.binding m).bind ?_
    intro v m₁ hbare
    have h₁ : ∀ on, Paints (fun _ => false) id n m _ :=
      fun on => (Paints.of_bare hbare).trans (.onSwitch m₁ i on)
    rw [Run.after_bind, after_modifyCell]
    cases v.truthy with
    | true =>
      rw [if_pos rfl, Run.after_bind, after_modifyDoc]
      refine (hs.after_mountToggles r (i + 1) _).mono ?_
      intro _ m₂ h₂
      exact (h₁ true).trans ((Paints.onAttrs _ fun _ => filter_none _ _).trans h₂)
    | false =>
      refine (hs.after_mountToggles r (i + 1) _).mono ?_
      intro _ m₂ h₂
      exact (h₁ false).trans h₂

/-- The stale attributes are evaluated again, and no others are written. -/
theorem after_patchAttrs (hs : s.Calm E) (self : View.Node) {q : Text → Bool} :
    ∀ (as : List (Text × View.Binding)) (i : Nat) (m : Machine (Stage σ)),
    (∀ a ∈ as, s.isStale dirty a.2 = true → q a.1 = false) →
    Run.After E (patchAttrs s dirty st id n self i as) (fun _ m' => Paints q id n m m') m
  | [], _, _, _ => .of_bare rfl
  | (name, b) :: r, i, m, hq => by
    obtain ⟨hname, hr⟩ := List.forall_mem_cons.1 hq
    have hrest : ∀ {m₁}, Paints q id n m m₁ → Run.After E
        (patchAttrs s dirty st id n self (i + 1) r) (fun _ m' => Paints q id n m m') m₁ :=
      fun h₁ => (hs.after_patchAttrs self r (i + 1) _ hr).mono fun _ _ h₂ => h₁.trans h₂
    rw [patchAttrs]
    by_cases hstale : s.isStale dirty b = true
    · rw [if_pos hstale, Run.after_bind, after_getCell]
      refine (hs.after_evaluate _ st b m).bind ?_
      intro v m₁ hbare
      rw [Run.after_bind, after_getCell]
      by_cases hsame : v.equal ((m₁.host.cells.getD id default).attrs.getD i .undefined) = true
      · rw [if_pos hsame]
        exact hrest (.of_bare hbare)
      · rw [if_neg hsame]
        simp only [Run.after_bind, after_modifyCell, after_modifyDoc]
        refine (after_trace s self dirty _).mono ?_
        intro _ m₂ hhost
        have h₁ : Paints q id n m₁ _ :=
          (Paints.onValues m₁ (·.set i v)).trans (.onAttrs _ (filter_applyAttr (hname hstale) v))
        refine hrest (((Paints.of_bare hbare).trans h₁).trans (.of_bare ?_))
        rw [hhost]
    · rw [if_neg hstale]
      exact hrest (.of_bare rfl)

/-- The stale class toggles are evaluated again.  The block remembers a switch for each. -/
theorem after_patchToggles (hs : s.Calm E) {q : Text → Bool} : ∀ (toggles : List View.Toggle)
    {i : Nat} {cell : Cell} {m : Machine (Stage σ)}, m.host.cells[id]? = some cell →
    i + toggles.length ≤ cell.toggles.length →
    (∀ t ∈ toggles, s.isStale dirty t.binding = true → q "class" = false) →
    Run.After E (patchToggles s dirty st id n i toggles) (fun _ m' => Paints q id n m m') m
  | [], _, _, _, _, _, _ => .of_bare rfl
  | t :: r, i, cell, m, hcell, hlen, hq => by
    obtain ⟨hclass, hr⟩ := List.forall_mem_cons.1 hq
    rw [List.length_cons] at hlen
    have hrest : ∀ {m₁}, Paints q id n m m₁ → Run.After E
        (patchToggles s dirty st id n (i + 1) r) (fun _ m' => Paints q id n m m') m₁ := by
      intro m₁ h₁
      obtain ⟨vs, ts, hts, hcell₁⟩ := h₁.cell cell hcell
      refine (hs.after_patchToggles r hcell₁ ?_ hr).mono fun _ _ h₂ => h₁.trans h₂
      show i + 1 + r.length ≤ ts.length
      omega
    rw [patchToggles]
    by_cases hstale : s.isStale dirty t.binding = true
    · rw [if_pos hstale, Run.after_bind, after_getCell]
      refine (hs.after_evaluate _ st t.binding m).bind ?_
      intro v m₁ hbare
      have h₁ : Paints q id n m m₁ := .of_bare hbare
      obtain ⟨vs, ts, hts, hcell₁⟩ := h₁.cell cell hcell
      have hi : i < ts.length := by omega
      rw [Run.after_bind, after_getCell, getD_of_getElem? hcell₁]
      simp only [List.getElem?_eq_getElem hi]
      by_cases hon : (v.truthy != ts[i]) = true
      · rw [if_pos hon]
        simp only [Run.after_bind, after_modifyCell, after_modifyDoc]
        exact hrest (h₁.trans ((Paints.onSwitch m₁ i v.truthy).trans
          (.onAttrs _ (Dom.filter_toggleClass (hclass hstale) t.token v.truthy))))
      · rw [if_neg hon]
        exact hrest h₁
    · rw [if_neg hstale]
      exact hrest (.of_bare rfl)

end Site.Calm

theorem after_onBlock (hcell : m.host.cells[id]? = some cell) (f : Cell → Cell) :
    Run.After E (modifyCell id f) (fun _ m' =>
      Moves (fun _ => False) (· = id) m.host.bare m'.host.bare ∧ m'.host.doc = m.host.doc ∧
      m'.host.cells[id]? = some (f cell)) m := by
  rw [after_modifyCell]
  refine ⟨.onCell m.host.bare id f, rfl, ?_⟩
  show (m.host.cells.modify id f)[id]? = _
  rw [Array.getElem?_modify, if_pos rfl, hcell]
  rfl

/-- The listeners of an element are added, and its block keeps their numbers. -/
theorem after_listening : ∀ (hs : List View.Handler) {m : Machine (Stage σ)} {cell : Cell},
    m.host.doc.Counted → m.host.cells[id]? = some cell →
    Run.After E (mountHandlers id n frame hs) (fun _ m' =>
      Moves (fun _ => False) (· = id) m.host.bare m'.host.bare ∧
      m'.host.doc.nodes = m.host.doc.nodes ∧ m'.host.doc.Counted ∧
      m.host.doc.Later m'.host.doc ∧
      ∃ ls, m'.host.cells[id]? = some { cell with listeners := ls } ∧
        m'.host.doc.listenersBut ls = m.host.doc.listenersBut cell.listeners ∧
        (m.host.doc.Serves cell.listeners n → m'.host.doc.Serves ls n)) m
  | [], m, cell, hc, hcell =>
    ⟨.refl _, rfl, hc, .of_same rfl rfl, cell.listeners, hcell, rfl, fun h => h⟩
  | a :: r, m, cell, hc, hcell => by
    rw [mountHandlers, Run.after_bind, after_onDoc, Run.after_bind, after_modifyCell]
    have hbut := Dom.Document.listenersBut_listen hc n a.event (⟨a, frame⟩ : Action) cell.listeners
    have hmoves₁ := Moves.onCell (N := fun _ => False) m.host.bare id
      fun c => { c with listeners := c.listeners ++ [m.host.doc.added] }
    have hcell₁ : (m.host.cells.modify id
        fun c => { c with listeners := c.listeners ++ [m.host.doc.added] })[id]? =
        some { cell with listeners := cell.listeners ++ [m.host.doc.added] } := by
      rw [Array.getElem?_modify, if_pos rfl, hcell]
      rfl
    refine (after_listening r (hc.listen n a.event ⟨a, frame⟩) hcell₁).mono ?_
    rintro _ m₂ ⟨hmoves₂, hnodes₂, hc₂, hlater₂, ls, hcell₂, hls, hserves⟩
    refine ⟨?_, hnodes₂, hc₂, (Dom.Document.Later.listen ..).trans hlater₂, ls, hcell₂,
      hls.trans hbut, fun h => hserves (h.listen hc a.event ⟨a, frame⟩)⟩
    have hmoves : Moves (fun _ => False) (· = id) m.host.bare
        { doc := (m.host.doc.listen n a.event ⟨a, frame⟩).2, cells := m.host.cells.modify id
            fun c => { c with listeners := c.listeners ++ [m.host.doc.added] }, own := () } :=
      ⟨hmoves₁.size, hmoves₁.count, hmoves₁.node, hmoves₁.block, rfl⟩
    exact hmoves.trans hmoves₂ (fun _ _ hk => hk) fun _ _ hk => hk

/-- An element with all of its own on it, but nothing in it and without a place. -/
structure Stripped (toggles : List View.Toggle) (tag : Text) (id : BlockId) (cell : Cell)
    (m : Machine (Stage σ)) (n : NodeId) (as : List (Text × Text)) (cell' : Cell)
    (m' : Machine (Stage σ)) : Prop where
  new : n = m.host.doc.nodes.size
  moves : Moves (fun _ => False) (· = id) m.host.bare m'.host.bare
  node : m'.host.doc.nodes[n]? = some { content := .element tag, attrs := as }
  block : m'.host.cells[id]? = some cell'
  live : Live cell' n
  children : cell'.children = cell.children
  toggles : cell'.toggles.length = toggles.length
  others : m'.host.doc.listenersBut cell'.listeners = m.host.doc.listeners
  counted : m'.host.doc.Counted
  later : m.host.doc.Later m'.host.doc
  serves : m'.host.doc.Serves cell'.listeners n

/-- An element is made: its attributes are written and its listeners added. -/
theorem Site.Calm.after_making (hs : s.Calm E) (hc : m.host.doc.Counted)
    (hcell : m.host.cells[id]? = some cell) (halive : cell.done = false)
    (hnone : cell.listeners = []) (attrs : List View.Attr) (toggles : List View.Toggle)
    (handlers : List View.Handler) (tag : Text) {Q : Unit → Machine (Stage σ) → Prop}
    {rest : NodeId → Run (Stage σ) Unit}
    (hQ : ∀ {n as cell' m'}, Stripped toggles (Text.lower tag) id cell m n as cell' m' →
      Run.After E (rest n) Q m') :
    Run.After E (do
      let n ← ownNode id fun d => d.createElement tag
      modifyDoc fun d => d.modifyAttrs n fun as =>
        (View.fixedAttrs attrs).foldl (fun as a => Dom.setAttr a.1 a.2 as) as
      modifyCell id fun c => { c with attrs := (View.boundAttrs attrs).map fun _ => .undefined }
      mountAttrs s st id n frame 0 (View.boundAttrs attrs)
      modifyCell id fun c => { c with toggles := toggles.map fun _ => false }
      mountToggles s st id n frame 0 toggles
      mountHandlers id n frame handlers
      rest n) Q m := by
  refine (after_owning hcell (.element (Text.lower tag))).bind ?_
  intro n m₁ h₁
  have hnew : ∀ k, k < m.host.doc.nodes.size → k = n → False := by
    rintro k hk rfl
    exact Nat.lt_irrefl _ (h₁.new ▸ hk)
  rw [Run.after_bind, after_modifyDoc, Run.after_bind, after_modifyCell]
  refine (hs.after_mountAttrs _ 0 _).bind ?_
  intro _ m₂ h₂
  have h₂' : Paints (fun _ => false) id n m₁ m₂ :=
    (Paints.onAttrs m₁ fun _ => filter_none _ _).trans ((Paints.onValues _ fun _ => _).trans h₂)
  obtain ⟨vs, ts, -, hcell₂⟩ := h₂'.cell _ h₁.cell
  obtain ⟨as, hnode₂, -⟩ := h₂'.node _ h₁.node
  -- The block remembers a switch for every toggle from here on.
  refine (after_onBlock hcell₂ fun c => { c with toggles := toggles.map fun _ => false }).bind ?_
  rintro _ m₃ ⟨hmoves₃, hdoc₃, hcell₃⟩
  refine (hs.after_mountToggles toggles 0 m₃).bind ?_
  intro _ m₄ h₄
  obtain ⟨vs', ts', hts', hcell₄⟩ := h₄.cell _ hcell₃
  obtain ⟨as', hnode₄, -⟩ := h₄.node _ (hdoc₃ ▸ hnode₂)
  have hc₃ : m₃.host.doc.Counted := hdoc₃ ▸ h₂'.counted (h₁.counted hc)
  refine (after_listening handlers (h₄.counted hc₃) hcell₄).bind ?_
  rintro _ m₅ ⟨hmoves₅, hnodes₅, hc₅, hlater₅, ls, hcell₅, hls, hserves⟩
  have hlater₄ : m.host.doc.Later m₄.host.doc := by
    refine .of_same ?_ ?_
    · rw [h₄.listeners, hdoc₃, h₂'.listeners, h₁.listeners]
    · rw [h₄.added, hdoc₃, h₂'.added, h₁.added]
  refine hQ ⟨h₁.new, ?_, hnodes₅ ▸ hnode₄, hcell₅, ⟨halive, rfl⟩, rfl, ?_, ?_, hc₅,
    hlater₄.trans hlater₅, hserves ?_⟩
  · have hmoves₂ := h₁.moves.trans h₂'.moves hnew fun _ _ hk => hk
    have hmoves₃ := hmoves₂.trans hmoves₃ (fun _ _ hk => hk) fun _ _ hk => hk
    have hmoves₄ := hmoves₃.trans h₄.moves hnew fun _ _ hk => hk
    exact hmoves₄.trans hmoves₅ (fun _ _ hk => hk) fun _ _ hk => hk
  · rw [hts']
    exact List.length_map _
  · refine hls.trans ?_
    show m₄.host.doc.listenersBut cell.listeners = _
    rw [hnone, Dom.Document.listenersBut_nil, h₄.listeners, hdoc₃, h₂'.listeners, h₁.listeners]
  · show m₄.host.doc.Serves cell.listeners n
    rw [hnone]
    exact .nil _ n

/-! ### Mounting -/

namespace Site.Calm

mutual

/-- Blocks that are mounted take a region. -/
theorem after_mounting (hs : s.Calm E) : ∀ v : View.Node, Takes s E st v
  | .fixed _ value, m, frame, id, bs, p, y, pre, post, hc, hfresh, hnodup, hp => by
    obtain ⟨rfl, hcell⟩ := hfresh
    rw [mount, Run.after_bind, after_getCell, getD_of_getElem? hcell]
    refine (after_owning hcell (.text value)).bind ?_
    intro n m₁ h₁
    refine (h₁.leaf hc hp).mono ?_
    intro _ m₂ h₂
    exact ⟨_, h₂, rfl, id, _, n, value, rfl, rfl, rfl⟩
  | .text _ b, m, frame, id, bs, p, y, pre, post, hc, hfresh, hnodup, hp => by
    obtain ⟨rfl, hcell⟩ := hfresh
    rw [mount, Run.after_bind, after_getCell, getD_of_getElem? hcell]
    refine (hs.after_evaluate frame st b m).bind ?_
    intro v m₁ hbare
    have h₁ : Replaces p y pre post [id] m [] m₁ [] := .of_bare hc hp hbare
    have hcells : m₁.host.cells = m.host.cells := congrArg (Stage.cells (σ := Unit)) hbare
    refine (after_owning (hcells ▸ hcell) (.text v.display)).bind ?_
    intro n m₂ h₂
    refine (h₂.leaf h₁.counted h₁.placed).mono ?_
    intro _ m₃ h₃
    exact ⟨_, h₁.trans h₃ fun i hi => Or.inr (Or.inl hi), rfl, id, _, n, v.display, rfl, rfl, rfl⟩
  | .elem _ tag attrs toggles handlers children, m, frame, id, bs, p, y, pre, post, hc, hfresh,
      hnodup, hp => by
    obtain ⟨ids, cs, rfl, hcell, hkids⟩ := hfresh
    rw [List.nodup_cons] at hnodup
    rw [mount, Run.after_bind, after_getCell, getD_of_getElem? hcell]
    refine hs.after_making hc hcell rfl rfl attrs toggles handlers tag ?_
    intro n as cell' m₁ h₁
    -- The element is a place of its own for what is mounted in it.
    have hinner : Placed m₁.host.bare n { content := .element (Text.lower tag), attrs := as }
        [] [] [] :=
      ⟨h₁.node, rfl, trivial, List.nodup_nil, List.nodup_nil, List.not_mem_nil, List.nodup_nil,
        fun _ hk => absurd hk List.not_mem_nil⟩
    have hfresh₁ : freshAll m₁.host.cells frame children ids cs := by
      refine hkids.congr fun i hi => h₁.moves.block i (hkids.lt i hi) ?_
      rintro rfl
      exact hnodup.1 hi
    refine (hs.after_mountingAll children h₁.counted hfresh₁ hnodup.2 hinner).bind ?_
    rintro _ m₂ ⟨kids, h₂, hids, hshaped⟩
    have hid : id < m₁.host.cells.size := (Array.getElem?_eq_some_iff.1 h₁.block).1
    have hcell₂ : m₂.host.cells[id]? = some cell' := by
      refine (h₂.becomes.moves.block id hid ?_).trans h₁.block
      rintro (hmem | hmem)
      · exact absurd hmem List.not_mem_nil
      · exact hnodup.1 hmem
    have hnew : ∀ k ∈ nodesAll kids, m.host.doc.nodes.size ≤ k := by
      intro k hk
      refine (h₂.becomes.nodes k hk).elim (fun hmem => absurd hmem List.not_mem_nil) ?_
      exact Nat.le_trans h₁.moves.size
    have hblocks : ∀ i ∈ blocksAll kids, i ∈ cs ∨ m₁.host.cells.size ≤ i := by
      intro i hi
      exact (h₂.becomes.blocks i hi).resolve_left List.not_mem_nil
    have hmoves : Moves (fun _ => False) (· ∈ id :: cs) m.host.bare m₂.host.bare := by
      refine (h₁.moves.mono (fun _ _ hk => hk) ?_).trans h₂.becomes.moves ?_ ?_
      · rintro i _ rfl
        exact List.mem_cons_self
      · rintro k hk (rfl | hmem)
        · exact Nat.lt_irrefl _ (h₁.new ▸ hk)
        · exact absurd hmem List.not_mem_nil
      · rintro i _ (hmem | hmem)
        · exact absurd hmem List.not_mem_nil
        · exact List.mem_cons_of_mem _ hmem
    have hothers : m₂.host.doc.listenersBut (cell'.listeners ++ heardAll kids) =
        m.host.doc.listeners := by
      have hall := Dom.Document.listenersBut_congr h₂.others cell'.listeners []
      simp only [heardAll, List.append_nil] at hall
      rw [hall, h₁.others]
    refine (after_inserting (t := .elem id cell' n (Text.lower tag) as kids) hp hmoves
      h₂.placed.parent rfl rfl ?_ ?_ ?_ ?_ hothers h₂.counted (h₁.later.trans h₂.later)
      ⟨h₁.serves.later h₂.later, h₂.hears trivial⟩ ?_).mono ?_
    · rw [Tree.nodes, List.nodup_cons]
      exact ⟨h₂.placed.outside, h₂.placed.nodes⟩
    · rw [Tree.blocks, List.nodup_cons]
      refine ⟨fun hmem => ?_, h₂.placed.blocks⟩
      rcases hblocks id hmem with hmem | hmem
      · exact hnodup.1 hmem
      · exact absurd hid (Nat.not_lt.2 hmem)
    · intro k hk
      rcases List.mem_cons.1 hk with rfl | hk
      · exact Nat.le_of_eq h₁.new.symm
      · exact hnew k hk
    · intro i hi
      rcases List.mem_cons.1 hi with rfl | hi
      · exact Or.inl List.mem_cons_self
      · exact (hblocks i hi).imp (List.mem_cons_of_mem _) (Nat.le_trans h₁.moves.count)
    · intro w' hcells hnode hother
      refine ⟨hcells ▸ hcell₂, ?_, h₂.placed.holds.congr (fun k hk => hother k ?_ ?_)
        fun i _ => by rw [hcells]⟩
      · rw [hnode, List.nil_append, List.append_nil]
      · rintro rfl
        exact absurd hp.parent_lt (Nat.not_lt.2 (hnew k hk))
      · rintro rfl
        exact h₂.placed.outside hk
    · intro _ m₃ h₃
      exact ⟨_, h₃, rfl, id, cell', n, _, as, kids, rfl, h₁.live, h₁.children.trans hids.symm,
        h₁.toggles, hshaped⟩
  | .cond num branches other, m, frame, id, bs, p, y, pre, post, hc, hfresh, hnodup, hp => by
    obtain ⟨rfl, hcell⟩ := hfresh
    rw [mount, Run.after_bind, after_getCell, getD_of_getElem? hcell]
    refine (after_owning hcell .anchor).bind ?_
    intro n m₁ h₁
    refine (h₁.anchor hc hp).bind ?_
    intro _ m₂ h₂
    refine (hs.after_select frame st branches other m₂).bind ?_
    rintro key m₃ ⟨hbare, hkey⟩
    have h₃ : Replaces p y pre post [] m₂ _ m₃ _ := .of_bare h₂.counted h₂.placed hbare
    refine (after_emptied h₃.counted h₃.placed rfl).bind ?_
    intro _ m₄ h₄
    refine (after_chosen h₄.counted ⟨rfl, rfl⟩ rfl h₄.placed num hkey (fun k hk => ?_)
      fun k hk => ?_).mono ?_
    · exact hs.after_showingBranch branches h₄.counted hk h₄.placed
    · exact hs.after_showingOtherwise other h₄.counted hk h₄.placed
    · rintro _ m₅ ⟨cell', kids, h₅, hshaped⟩
      exact ⟨_, ((h₂.trans_nil h₃).trans_nil h₄).trans_nil h₅, rfl, hshaped⟩
  | .each num list item index body, m, frame, id, bs, p, y, pre, post, hc, hfresh, hnodup, hp => by
    obtain ⟨rfl, hcell⟩ := hfresh
    rw [mount, Run.after_bind, after_getCell, getD_of_getElem? hcell]
    refine (after_owning hcell .anchor).bind ?_
    intro n m₁ h₁
    refine (h₁.anchor hc hp).bind ?_
    intro _ m₂ h₂
    refine (Takes.loop hs (hs.after_mounting body) list item index h₂.counted ⟨rfl, rfl⟩ rfl
      h₂.placed num).mono ?_
    rintro _ m₃ ⟨cell', kids, h₃, hshaped⟩
    exact ⟨_, h₂.trans_nil h₃, rfl, hshaped⟩
  | .fragment _ children, m, frame, id, bs, p, y, pre, post, hc, hfresh, hnodup, hp => by
    obtain ⟨ids, cs, rfl, hcell, hkids⟩ := hfresh
    rw [List.nodup_cons] at hnodup
    rw [mount, Run.after_bind, after_getCell, getD_of_getElem? hcell]
    refine (after_onBlock hcell fun c => { c with mounted := true }).bind ?_
    rintro _ m₁ ⟨hmoves₁, hdoc₁, hcell₁⟩
    have h₁ : Replaces p y pre post [id] m [] m₁ [] := by
      refine .of_same ⟨hmoves₁.mono (fun _ _ hk => hk.elim) ?_, hp.moves hmoves₁ not_false,
        fun _ hk => absurd hk List.not_mem_nil, fun _ hk => absurd hk List.not_mem_nil⟩ hc
        (by rw [hdoc₁]) (by rw [hdoc₁]) rfl fun hears => hears
      rintro i _ rfl
      exact Or.inr List.mem_cons_self
    refine (after_owning hcell₁ .anchor).bind ?_
    intro n m₂ h₂
    refine (h₂.anchor h₁.counted h₁.placed).bind ?_
    intro _ m₃ h₃
    have h₃' : Replaces p y pre post [id] m [] m₃ _ := h₁.trans h₃ fun i hi => Or.inr (Or.inl hi)
    have hfresh₃ : freshAll m₃.host.cells frame children ids cs := by
      refine hkids.congr fun i hi => h₃'.becomes.moves.block i (hkids.lt i hi) ?_
      rintro (hmem | hmem)
      · exact absurd hmem List.not_mem_nil
      · obtain rfl := List.mem_singleton.1 hmem
        exact hnodup.1 hi
    refine (hs.after_mountingAll children h₃.counted hfresh₃ hnodup.2 h₃.placed.inGroup).mono ?_
    rintro _ m₄ ⟨kids, h₄, hids, hshaped⟩
    have h₄' := h₄.inGroup h₃.placed fun i hi => by
      rintro rfl
      exact hnodup.1 hi
    refine ⟨_, (h₃'.mono fun i hi => ?_).trans h₄' fun i hi => ?_, rfl, id, _, n, kids, rfl,
      ⟨rfl, rfl⟩, rfl, hids.symm, hshaped⟩
    · rw [List.mem_singleton.1 hi]
      exact List.mem_cons_self
    · exact Or.inr (Or.inl (List.mem_cons_of_mem _ hi))

theorem after_mountingAll (hs : s.Calm E) : ∀ (vs : List View.Node) {m : Machine (Stage σ)}
    {frame : Frame} {ids bs : List BlockId} {p : NodeId} {y : Dom.Node} {pre post : List NodeId},
    m.host.doc.Counted → freshAll m.host.cells frame vs ids bs → bs.Nodup →
    Placed m.host.bare p y pre [] post →
    Run.After E (mountAll s st ids p post.head? vs)
      (fun _ m' => ∃ ts, Replaces p y pre post bs m [] m' ts ∧ ts.map Tree.id = ids ∧
        shapedAll vs ts) m
  | [], m, frame, ids, bs, p, y, pre, post, hc, hfresh, _, hp => by
    obtain ⟨rfl, rfl⟩ := hfresh
    rw [mountAll]
    exact ⟨[], .refl hc hp, rfl, rfl⟩
  | v :: r, m, frame, ids, bs, p, y, pre, post, hc, hfresh, hnodup, hp => by
    obtain ⟨id, rest, b, c, rfl, rfl, hv, hr⟩ := hfresh
    obtain ⟨hb, hcs, hdisj⟩ := List.nodup_append.1 hnodup
    rw [mountAll]
    refine (hs.after_mounting v hc hv hb hp).bind ?_
    rintro _ m₁ ⟨t, h₁, rfl, ht⟩
    -- The blocks of the other nodes are not touched.
    have hr₁ : freshAll m₁.host.cells frame r rest c := by
      refine hr.congr fun i hi => h₁.becomes.moves.block i (hr.lt i hi) ?_
      rintro (hmem | hmem)
      · exact absurd hmem List.not_mem_nil
      · exact hdisj i hmem i hi rfl
    refine (hs.after_mountingAll r h₁.counted hr₁ hcs h₁.placed.snoc).mono ?_
    rintro _ m₂ ⟨ts, h₂, rfl, hts⟩
    refine ⟨t :: ts, ?_, rfl, t, ts, rfl, ht, hts⟩
    have h₂' := h₂.snoc h₁.placed fun i hi hmem => by
      rcases h₁.becomes.blocks i hmem with hmem | hmem | hmem
      · exact absurd hmem List.not_mem_nil
      · exact hdisj i hmem i hi rfl
      · exact absurd (hr.lt i hi) (Nat.not_lt.2 hmem)
    refine (h₁.mono fun i hi => List.mem_append.2 (Or.inl hi)).trans h₂' fun i hi => ?_
    exact Or.inr (Or.inl (List.mem_append.2 (Or.inr hi)))

theorem after_showingBranch (hs : s.Calm E) : ∀ (branches : List View.Branch)
    {m : Machine (Stage σ)} {frame : Frame} {i : BlockId} {cell : Cell} {a : NodeId}
    {key k : Nat} {p : NodeId} {y : Dom.Node} {pre post : List NodeId},
    m.host.doc.Counted → k < branches.length →
    Placed m.host.bare p y pre [.group i cell a []] post →
    Brings E p y pre post i cell a key (showBranch s st i a frame key k branches)
      (shapedBranch k branches) m
  | .mk _ body :: _, _, _, _, _, _, key, 0, _, _, _, _, hc, _, hp =>
    Takes.shown (hs.after_mounting body) hc key hp
  | _ :: r, _, _, _, _, _, _, _ + 1, _, _, _, _, hc, hk, hp =>
    hs.after_showingBranch r hc (Nat.lt_of_succ_lt_succ hk) hp

theorem after_showingOtherwise (hs : s.Calm E) : ∀ (o : View.Otherwise) {m : Machine (Stage σ)}
    {frame : Frame} {i : BlockId} {cell : Cell} {a : NodeId} {key : Nat} {p : NodeId}
    {y : Dom.Node} {pre post : List NodeId}, m.host.doc.Counted → hasBody o = true →
    Placed m.host.bare p y pre [.group i cell a []] post →
    Brings E p y pre post i cell a key (showOtherwise s st i a frame key o) (shapedOtherwise o) m
  | .body v, _, _, _, _, _, key, _, _, _, _, hc, _, hp =>
    Takes.shown (hs.after_mounting v) hc key hp

end

end Site.Calm

/-! ### Patching -/

/-- What holds of patching the blocks of a node: they keep their region, and what is steady in it. -/
def Stays (s : Site σ) (E : Halt → Prop) (dirty : Mask) (st : Dict Value) (v : View.Node) : Prop :=
  ∀ {m : Machine (Stage σ)} {t : Tree} {p : NodeId} {y : Dom.Node} {pre post : List NodeId},
    m.host.doc.Counted → t.Hears m.host.doc → Shaped v t → Placed m.host.bare p y pre [t] post →
    Run.After E (patch s dirty st t.id v)
      (fun _ m' => ∃ t', Replaces p y pre post [] m [t] m' [t'] ∧ t'.id = t.id ∧ Shaped v t' ∧
        Keeps s dirty m m' (t.steady s dirty p v) (t'.steady s dirty p v)) m

/-- The rounds of a loop are patched one after another. -/
theorem Stays.rounds {body : View.Node} (hbody : Stays s E dirty st body) : ∀ (kids : List Tree)
    {m : Machine (Stage σ)} {pre : List NodeId}, m.host.doc.Counted → hearsAll m.host.doc kids →
    (∀ kid ∈ kids, Shaped body kid) → Placed m.host.bare p y pre kids post →
    Run.After E ((kids.map Tree.id).forM fun child => patch s dirty st child body)
      (fun _ m' => ∃ kids', Replaces p y pre post [] m kids m' kids' ∧
        kids'.map Tree.id = kids.map Tree.id ∧ (∀ kid ∈ kids', Shaped body kid) ∧
        Keeps s dirty m m' (kids.flatMap (Tree.steady s dirty p body))
          (kids'.flatMap (Tree.steady s dirty p body))) m
  | [], m, pre, hc, _, hs, hp => ⟨[], .refl hc hp, rfl, hs, .nil⟩
  | kid :: r, m, pre, hc, hears, hs, hp => by
    obtain ⟨hkid, hr⟩ := List.forall_mem_cons.1 hs
    show Run.After E (patch s dirty st kid.id body >>= fun _ =>
      (r.map Tree.id).forM fun child => patch s dirty st child body) _ m
    refine (hbody hc hears.1 hkid hp.head).bind ?_
    rintro _ m₁ ⟨kid', h₁, hid, hkid', hkeeps₁⟩
    have h₁' := h₁.head hp
    refine (Stays.rounds hbody r h₁.counted (hears.2.later h₁.later) hr (Placed.tail h₁'.placed)).mono ?_
    rintro _ m₂ ⟨kids', h₂, hids, hkids', hkeeps₂⟩
    refine ⟨kid' :: kids', h₁'.trans_nil (h₂.tail h₁'.placed), ?_, ?_, ?_⟩
    · rw [List.map_cons, List.map_cons, hid, hids]
    · exact List.forall_mem_cons.2 ⟨hkid', hkids'⟩
    · refine .cons hp hears h₁ h₂ (fun x hx => ?_) (fun x hx => ?_) hkeeps₁ hkeeps₂
      · exact (steady_sublist p body hkid).subset (List.mem_map_of_mem hx)
      · exact (sublist_flatMap fun k hk => steady_sublist p body (hr k hk)).subset
          (List.mem_map_of_mem hx)

namespace Site.Calm

mutual

/-- Blocks that are patched keep their region. -/
theorem after_patching (hs : s.Calm E) : ∀ v : View.Node, Stays s E dirty st v
  | .fixed _ value, m, t, p, y, pre, post, hc, hears, hshaped, hp => by
    obtain ⟨i, cell, n, text, rfl, hcell⟩ := hshaped
    rw [patch]
    exact ⟨_, .refl hc hp, rfl, ⟨i, cell, n, text, rfl, hcell⟩, .single (.leaf (Or.inl rfl)) rfl⟩
  | .text num b, m, t, p, y, pre, post, hc, hears, hshaped, hp => by
    obtain ⟨i, cell, n, text, rfl, hcell⟩ := hshaped
    rw [patch, Run.after_bind, after_cellOf hp, Tree.cell, hcell.node, hcell.alive]
    cases hdirty : s.isDirty dirty b with
    | false =>
      exact ⟨_, .refl hc hp, rfl, ⟨i, cell, n, text, rfl, hcell⟩, .single (.leaf (Or.inl rfl)) rfl⟩
    | true =>
      refine (hs.after_evaluate cell.frame st b m).bind ?_
      intro v m₁ hbare
      have h₁ : Replaces p y pre post [] m _ m₁ _ := .of_bare hc hp hbare
      have hdoc : m₁.host.doc = m.host.doc := congrArg (Stage.doc (σ := Unit)) hbare
      rw [Run.after_bind, after_getDoc]
      by_cases hsame : (m₁.host.doc.node n).content = .text v.display
      · rw [if_pos hsame]
        exact ⟨_, h₁, rfl, ⟨i, cell, n, text, rfl, hcell⟩, .single (.leaf (Or.inl rfl)) (by rw [hdoc])⟩
      · rw [if_neg hsame, Run.after_bind, after_modifyDoc]
        refine (after_trace s _ dirty _).mono ?_
        intro _ m₂ hhost
        have h₂ : Replaces p y pre post [] m₁ [.leaf i cell n text] m₂
            [.leaf i cell n v.display] := by
          refine .of_same ?_ h₁.counted (by rw [hhost]; rfl) (by rw [hhost]; rfl) rfl fun _ => ?_
          · rw [hhost]
            exact .onText h₁.placed v.display
          · exact ⟨trivial, trivial⟩
        refine ⟨_, h₁.trans_nil h₂, rfl, ⟨i, cell, n, v.display, rfl, hcell⟩,
          .single (.leaf (Or.inr ⟨num, b, rfl, hdirty⟩)) ?_⟩
        rw [hhost, ← hdoc]
        rfl
  | .elem num tag attrs toggles handlers children, m, t, p, y, pre, post, hc, hears, hshaped, hp => by
    obtain ⟨i, cell, n, tag', as, kids, rfl, hcell, hids, htoggles, hkids⟩ := hshaped
    rw [patch, Run.after_bind, after_cellOf hp, Tree.cell, hcell.node, hcell.alive, hids]
    -- the attributes without a stale binding are not written
    obtain ⟨q, hq⟩ : ∃ q : Text → Bool,
      q = fun name => !s.writes dirty (.elem num tag attrs toggles handlers children) name := ⟨_, rfl⟩
    have hattrs : ∀ a ∈ View.boundAttrs attrs, s.isStale dirty a.2 = true → q a.1 = false := by
      intro a ha hstale
      simp only [hq, Site.writes_attr ha hstale, Bool.not_true]
    have hclass : ∀ t ∈ toggles, s.isStale dirty t.binding = true → q "class" = false := by
      intro t ht hstale
      simp only [hq, Site.writes_class ht hstale, Bool.not_true]
    refine (hs.after_patchAttrs _ _ 0 m hattrs).bind ?_
    intro _ m₁ h₁
    obtain ⟨vs, ts, hts, hcell₁⟩ := h₁.cell cell hp.cell
    refine (hs.after_patchToggles toggles hcell₁ ?_ hclass).bind ?_
    · show 0 + toggles.length ≤ ts.length
      omega
    intro _ m₂ h₂
    have h₁₂ := h₁.trans h₂
    obtain ⟨vs', ts', as', hts', hsame, h₂'⟩ := h₁₂.replaces hc hp
    rw [hq] at hsame
    have hears' : hearsAll m₂.host.doc kids :=
      ((Tree.hearsAll_singleton ..).1 (h₂'.hears ((Tree.hearsAll_singleton ..).2 hears))).2
    refine (hs.after_patchingAll children h₂'.counted hears' hkids h₂'.placed.inElem).mono ?_
    rintro _ m₃ ⟨kids', h₃, hids', hkids', hkeeps⟩
    -- the listeners were left alone before the children were patched, and the element is none of them
    have hbefore : ∀ k, m₂.host.doc.listenersOf k = m.host.doc.listenersOf k := by
      intro k
      rw [Dom.Document.listenersOf, h₁₂.listeners]
      rfl
    have hinner := h₂'.placed.inElem
    refine ⟨_, h₂'.trans_nil (h₃.inElem h₂'.placed), rfl, ⟨i, _, n, tag', as', kids', rfl,
      ⟨hcell.alive, hcell.node⟩, hids.trans hids'.symm, hts'.trans htoggles, hkids'⟩, ?_⟩
    have hself := (h₃.quiet hears' hinner.parent_lt hinner.outside).trans (hbefore n)
    exact (Keeps.single (.elem hsame) hself).append
      (hkeeps.within (fun x _ => hbefore _) fun _ _ => rfl)
  | .cond num branches other, m, t, p, y, pre, post, hc, hears, hshaped, hp => by
    obtain ⟨i, cell, a, kids, rfl, hcell, hkids⟩ := hshaped
    -- The branch stays: it is patched.
    have hstay : ∀ {m₁ : Machine (Stage σ)}, m₁.host.doc = m.host.doc →
        Replaces p y pre post [] m [.group i cell a kids] m₁ [.group i cell a kids] →
        Run.After E (do
            match (← getCell i).shown with
            | none => return
            | some (key, b) =>
              if key < branches.length then patchBranch s dirty st b key branches
              else patchOtherwise s dirty st b other)
          (fun _ m' => ∃ t', Replaces p y pre post [] m [.group i cell a kids] m' [t'] ∧
            t'.id = i ∧ Shaped (.cond num branches other) t' ∧
            Keeps s dirty m m' (Tree.steady s dirty p (.cond num branches other) (.group i cell a kids))
              (Tree.steady s dirty p (.cond num branches other) t')) m₁ := by
      intro m₁ hdoc h₁
      refine (Run.after_bind _ _ _).2 ((after_cellOf h₁.placed _).2 ?_)
      rw [Tree.cell]
      cases hshown : cell.shown with
      | none =>
        rw [hshown] at hkids
        subst hkids
        refine ⟨_, h₁, rfl, ⟨i, cell, a, [], rfl, hcell, ?_⟩, ?_⟩
        · rw [hshown]
        · simp only [Tree.steady, Tree.cell, hshown, ite_self]
          exact .group hp hears h₁ (Or.inl rfl) .nil
      | some x =>
        obtain ⟨key, b⟩ := x
        rw [hshown] at hkids
        obtain ⟨kid, rfl, rfl, hkid⟩ := hkids
        -- what a patch of the body means for the whole choice, whichever body is shown
        have hdone : ∀ {m₂ kid'}, Replaces p y pre (a :: post) [] m₁ [kid] m₂ [kid'] →
            kid'.id = kid.id → (if key < branches.length then shapedBranch key branches kid'
              else shapedOtherwise other kid') →
            Keeps s dirty m₁ m₂
              (if key < branches.length then Tree.steadyBranch s dirty p key branches kid
                else Tree.steadyOtherwise s dirty p other kid)
              (if key < branches.length then Tree.steadyBranch s dirty p key branches kid'
                else Tree.steadyOtherwise s dirty p other kid') →
            ∃ t', Replaces p y pre post [] m [.group i cell a [kid]] m₂ [t'] ∧ t'.id = i ∧
              Shaped (.cond num branches other) t' ∧ Keeps s dirty m m₂
                (Tree.steady s dirty p (.cond num branches other) (.group i cell a [kid]))
                (Tree.steady s dirty p (.cond num branches other) t') := by
          intro m₂ kid' h₂ hid hkid' hkeeps
          have h₂' := h₁.trans_nil (h₂.inGroup_nil h₁.placed)
          refine ⟨_, h₂', rfl, ⟨i, cell, a, [kid'], rfl, hcell, ?_⟩, ?_⟩
          · rw [hshown]
            exact ⟨kid', rfl, hid, hkid'⟩
          · simp only [Tree.steady, Tree.cell, Tree.kids, hshown, List.flatMap_singleton]
            refine .group hp hears h₂' (Or.inl rfl) ?_
            split
            · exact .nil
            · exact hkeeps.within (fun _ _ => by rw [hdoc]) fun _ _ => rfl
        have hears₁ : kid.Hears m₁.host.doc := by
          rw [hdoc]
          exact hears.1
        by_cases hkey : key < branches.length
        · simp only [if_pos hkey] at hkid hdone ⊢
          refine (hs.after_patchingBranch branches h₁.counted hears₁ hkid h₁.placed.inGroup).mono ?_
          rintro _ m₂ ⟨kid', h₂, hid, hkid', hkeeps⟩
          exact hdone h₂ hid hkid' hkeeps
        · simp only [if_neg hkey] at hkid hdone ⊢
          refine (hs.after_patchingOtherwise other h₁.counted hears₁ hkid h₁.placed.inGroup).mono ?_
          rintro _ m₂ ⟨kid', h₂, hid, hkid', hkeeps⟩
          exact hdone h₂ hid hkid' hkeeps
    rw [patch, Run.after_bind, after_cellOf hp, Tree.cell, hcell.node, hcell.alive]
    by_cases hany : (View.testsOf branches).any (s.isDirty dirty) = true
    · simp only [hany, if_true, Bool.false_eq_true, if_false]
      refine (hs.after_select cell.frame st branches other m).bind ?_
      rintro key m₁ ⟨hbare, hkey⟩
      have h₁ : Replaces p y pre post [] m _ m₁ _ := .of_bare hc hp hbare
      refine (Run.after_bind _ _ _).2 ((after_cellOf h₁.placed _).2 ?_)
      rw [Tree.cell]
      by_cases hsame : key = cell.shown.map Prod.fst
      · rw [if_pos hsame]
        exact hstay (congrArg (Stage.doc (σ := Unit)) hbare) h₁
      · -- Another branch comes in its place.
        rw [if_neg hsame]
        refine Run.After.bind (Q := fun _ m' => ∃ cell' kids', Replaces p y pre post [] m
            [.group i cell a kids] m' [.group i cell' a kids'] ∧
            Shaped (.cond num branches other) (.group i cell' a kids')) ?_ ?_
        · refine (after_emptied h₁.counted h₁.placed hkids).bind ?_
          intro _ m₂ h₂
          have hempty : Live { cell with shown := none } a := ⟨hcell.alive, hcell.node⟩
          refine (after_chosen h₂.counted hempty rfl h₂.placed num hkey (fun k hk => ?_)
            fun k hk => ?_).mono ?_
          · exact hs.after_showingBranch branches h₂.counted hk h₂.placed
          · exact hs.after_showingOtherwise other h₂.counted hk h₂.placed
          · rintro _ m₃ ⟨cell', kids', h₃, hshaped⟩
            exact ⟨cell', kids', (h₁.trans_nil h₂).trans_nil h₃, hshaped⟩
        · rintro _ m₂ ⟨cell', kids', h₂, hshaped⟩
          refine (after_trace s _ dirty m₂).bind ?_
          intro _ m₃ hhost
          have h₃ : Replaces p y pre post [] m _ m₃ [.group i cell' a kids'] :=
            h₂.trans_nil (.of_bare h₂.counted h₂.placed (by rw [hhost]))
          refine ⟨_, h₃, rfl, hshaped, ?_⟩
          simp only [Tree.steady, hany, if_true]
          exact .group hp hears h₃ (Or.inr hany) .nil
    · simp only [hany, Bool.false_eq_true, if_false]
      exact hstay rfl (.refl hc hp)
  | .each num list item index body, m, t, p, y, pre, post, hc, hears, hshaped, hp => by
    obtain ⟨i, cell, a, kids, rfl, hcell, hids, hkids⟩ := hshaped
    rw [patch, Run.after_bind, after_cellOf hp, Tree.cell, hcell.node, hcell.alive, hids]
    cases hdirty : s.isDirty dirty list with
    | true =>
      refine (GivesBack.rounds (after_destruction body) kids hc hkids hp.inGroup).bind ?_
      intro _ m₁ h₁
      have h₁' := h₁.inGroup_nil hp
      refine (after_rewrite (f := fun c => { c with children := [] }) h₁.counted h₁'.placed
        fun _ => rfl).bind ?_
      intro _ m₂ h₂
      have hempty : Live { cell with children := [] } a := ⟨hcell.alive, hcell.node⟩
      refine (Takes.loop hs (hs.after_mounting body) list item index h₂.counted hempty rfl h₂.placed
        num).bind ?_
      rintro _ m₃ ⟨cell', kids', h₃, hshaped⟩
      refine (after_trace s _ dirty m₃).mono ?_
      intro _ m₄ hhost
      have h₄ : Replaces p y pre post [] m _ m₄ [.group i cell' a kids'] :=
        ((h₁'.trans_nil h₂).trans_nil h₃).trans_nil (.of_bare h₃.counted h₃.placed (by rw [hhost]))
      refine ⟨_, h₄, rfl, hshaped, ?_⟩
      simp only [Tree.steady, hdirty, if_true]
      exact .group hp hears h₄ (Or.inr hdirty) .nil
    | false =>
      refine (Stays.rounds (hs.after_patching body) kids hc hears hkids hp.inGroup).mono ?_
      rintro _ m₁ ⟨kids', h₁, hids', hkids', hkeeps⟩
      have h₁' := h₁.inGroup_nil hp
      refine ⟨_, h₁', rfl, ⟨i, cell, a, kids', rfl, hcell, hids.trans hids'.symm, hkids'⟩, ?_⟩
      simp only [Tree.steady, hdirty, Bool.false_eq_true, if_false]
      exact .group hp hears h₁' (Or.inl rfl) hkeeps
  | .fragment num children, m, t, p, y, pre, post, hc, hears, hshaped, hp => by
    obtain ⟨i, cell, a, kids, rfl, hcell, hmounted, hids, hkids⟩ := hshaped
    rw [patch, Run.after_bind, after_cellOf hp, Tree.cell, hcell.alive, hmounted, hids]
    refine (hs.after_patchingAll children hc hears hkids hp.inGroup).mono ?_
    rintro _ m₁ ⟨kids', h₁, hids', hkids', hkeeps⟩
    have h₁' := h₁.inGroup_nil hp
    exact ⟨_, h₁', rfl, ⟨i, cell, a, kids', rfl, hcell, hmounted, hids.trans hids'.symm, hkids'⟩,
      .group hp hears h₁' (Or.inl rfl) hkeeps⟩

theorem after_patchingAll (hs : s.Calm E) : ∀ (vs : List View.Node) {m : Machine (Stage σ)}
    {ts : List Tree} {p : NodeId} {y : Dom.Node} {pre post : List NodeId}, m.host.doc.Counted →
    hearsAll m.host.doc ts → shapedAll vs ts → Placed m.host.bare p y pre ts post →
    Run.After E (patchAll s dirty st (ts.map Tree.id) vs)
      (fun _ m' => ∃ ts', Replaces p y pre post [] m ts m' ts' ∧
        ts'.map Tree.id = ts.map Tree.id ∧ shapedAll vs ts' ∧
        Keeps s dirty m m' (Tree.steadyAll s dirty p vs ts) (Tree.steadyAll s dirty p vs ts')) m
  | [], m, ts, p, y, pre, post, hc, _, hshaped, hp => by
    obtain rfl := hshaped
    rw [patchAll]
    exact ⟨[], .refl hc hp, rfl, rfl, .nil⟩
  | v :: r, m, ts, p, y, pre, post, hc, hears, hshaped, hp => by
    obtain ⟨t, rest, rfl, ht, hrest⟩ := hshaped
    rw [List.map_cons, patchAll]
    refine (hs.after_patching v hc hears.1 ht hp.head).bind ?_
    rintro _ m₁ ⟨t', h₁, hid, ht', hkeeps₁⟩
    have h₁' := h₁.head hp
    refine (hs.after_patchingAll r h₁.counted (hears.2.later h₁.later) hrest
      (Placed.tail h₁'.placed)).mono ?_
    rintro _ m₂ ⟨ts', h₂, hids, hts', hkeeps₂⟩
    refine ⟨t' :: ts', h₁'.trans_nil (h₂.tail h₁'.placed), ?_, ⟨t', ts', rfl, ht', hts'⟩, ?_⟩
    · rw [List.map_cons, hid, hids]
    · refine .cons hp hears h₁ h₂ (fun x hx => ?_) (fun x hx => ?_) hkeeps₁ hkeeps₂
      · exact (steady_sublist p v ht).subset (List.mem_map_of_mem hx)
      · exact (steadyAll_sublist p r hrest).subset (List.mem_map_of_mem hx)

theorem after_patchingBranch (hs : s.Calm E) : ∀ (branches : List View.Branch) {k : Nat}
    {m : Machine (Stage σ)} {t : Tree} {p : NodeId} {y : Dom.Node} {pre post : List NodeId},
    m.host.doc.Counted → t.Hears m.host.doc → shapedBranch k branches t →
    Placed m.host.bare p y pre [t] post →
    Run.After E (patchBranch s dirty st t.id k branches)
      (fun _ m' => ∃ t', Replaces p y pre post [] m [t] m' [t'] ∧ t'.id = t.id ∧
        shapedBranch k branches t' ∧ Keeps s dirty m m' (Tree.steadyBranch s dirty p k branches t)
          (Tree.steadyBranch s dirty p k branches t')) m
  | .mk _ body :: _, 0, _, _, _, _, _, _, hc, hears, hshaped, hp =>
    hs.after_patching body hc hears hshaped hp
  | _ :: r, _ + 1, _, _, _, _, _, _, hc, hears, hshaped, hp =>
    hs.after_patchingBranch r hc hears hshaped hp

theorem after_patchingOtherwise (hs : s.Calm E) : ∀ (o : View.Otherwise) {m : Machine (Stage σ)}
    {t : Tree} {p : NodeId} {y : Dom.Node} {pre post : List NodeId}, m.host.doc.Counted →
    t.Hears m.host.doc → shapedOtherwise o t → Placed m.host.bare p y pre [t] post →
    Run.After E (patchOtherwise s dirty st t.id o)
      (fun _ m' => ∃ t', Replaces p y pre post [] m [t] m' [t'] ∧ t'.id = t.id ∧
        shapedOtherwise o t' ∧ Keeps s dirty m m' (Tree.steadyOtherwise s dirty p o t)
          (Tree.steadyOtherwise s dirty p o t')) m
  | .body v, _, _, _, _, _, _, hc, hears, hshaped, hp => hs.after_patching v hc hears hshaped hp

end

end Site.Calm

end Reactive.Block
