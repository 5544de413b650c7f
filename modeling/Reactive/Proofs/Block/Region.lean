/-
The region of a block.

A block owns the nodes that it put in the document and the listeners that it
added, and it touches no other.  `Replaces` says so of a run that turned the
trees in a place into other trees: besides the nodes and blocks, the
listeners of all other elements are what they were.

* `Shaped` — a tree is built like a node of a view;
* `Tree.Hears` — the listeners of a tree are at its elements;
* `Replaces` — trees become other trees in the same place, and nothing else
  changes;
* `Site.Calm.after_create`, `after_destroy` — how a region comes to be and how
  it is given back.
-/
import Reactive.Proofs.Block.Change
import Reactive.Proofs.Block.Life

namespace Reactive

/-! ### Listeners -/

namespace Dom.Document

variable {α : Type} {d d' : Document α}

/-- The listeners of a document but those with some numbers. -/
def listenersBut (d : Document α) (ls : List Nat) : List (Listener α) :=
  d.listeners.filter fun l => l.id ∉ ls

/-- The numbers of the listeners are below the number of the next one. -/
def Counted (d : Document α) : Prop := ∀ l ∈ d.listeners, l.id < d.added

theorem listenersBut_nil (d : Document α) : d.listenersBut [] = d.listeners :=
  List.filter_eq_self.2 fun _ _ => by simp

/-- What is said of the listeners but some is also said with more left out. -/
theorem listenersBut_congr {ls ls' : List Nat} (h : d'.listenersBut ls' = d.listenersBut ls)
    (before after : List Nat) :
    d'.listenersBut (before ++ (ls' ++ after)) = d.listenersBut (before ++ (ls ++ after)) := by
  have hsplit : ∀ (e : Document α) (ks : List Nat), e.listenersBut (before ++ (ks ++ after)) =
      (e.listenersBut ks).filter fun l => l.id ∉ before ++ after := by
    intro e ks
    rw [listenersBut, listenersBut, List.filter_filter]
    refine List.filter_congr fun l _ => ?_
    rw [← Bool.decide_and, decide_eq_decide]
    simp only [List.mem_append]
    tauto
  rw [hsplit, hsplit, h]

theorem listenersBut_unlisten (d : Document α) (k : Nat) (ls : List Nat) :
    (d.unlisten k).listenersBut ls = d.listenersBut (k :: ls) := by
  rw [listenersBut, listenersBut, unlisten, List.filter_filter]
  refine List.filter_congr fun l _ => ?_
  rw [Bool.eq_iff_iff]
  simp only [Bool.and_eq_true, decide_eq_true_eq, bne_iff_ne, List.mem_cons]
  tauto

/-- Without some listeners. -/
theorem unlisten_all (ks : List Nat) (d : Document α) :
    (ks.foldl (fun d l => d.unlisten l) d).nodes = d.nodes ∧
      (d.Counted → (ks.foldl (fun d l => d.unlisten l) d).Counted) ∧
      ∀ ls, (ks.foldl (fun d l => d.unlisten l) d).listenersBut ls = d.listenersBut (ks ++ ls) := by
  induction ks generalizing d with
  | nil => exact ⟨rfl, fun h => h, fun _ => rfl⟩
  | cons k r ih =>
    obtain ⟨hnodes, hcounted, hbut⟩ := ih (d.unlisten k)
    refine ⟨hnodes, fun h => hcounted fun l hl => h l (List.mem_of_mem_filter hl), fun ls => ?_⟩
    rw [List.foldl_cons, hbut, listenersBut_unlisten]
    rfl

/-- One more listener. -/
theorem listenersBut_listen (h : d.Counted) (n : NodeId) (event : Text) (a : α) (ls : List Nat) :
    (d.listen n event a).2.listenersBut (ls ++ [(d.listen n event a).1]) = d.listenersBut ls := by
  rw [listenersBut, listenersBut]
  show List.filter _ (d.listeners ++ [⟨d.added, n, event, a⟩]) = _
  rw [List.filter_append, List.filter_eq_nil_iff (l := [_]).2, List.append_nil]
  swap
  · intro l hl
    rw [List.mem_singleton.1 hl]
    simp [listen]
  refine List.filter_congr fun l hl => ?_
  have hne : l.id ≠ d.added := Nat.ne_of_lt (h l hl)
  simp [listen, hne]

theorem Counted.listen (h : d.Counted) (n : NodeId) (event : Text) (a : α) :
    (d.listen n event a).2.Counted := by
  intro l hl
  show l.id < d.added + 1
  rcases List.mem_append.1 hl with hl | hl
  · exact Nat.lt_succ_of_lt (h l hl)
  · rw [List.mem_singleton.1 hl]
    exact Nat.lt_succ_self _

theorem detach_listeners (d : Document α) (n : NodeId) :
    (d.detach n).listeners = d.listeners ∧ (d.detach n).added = d.added := by
  rw [detach]
  split <;> exact ⟨rfl, rfl⟩

theorem insert_listeners (d : Document α) (p n : NodeId) (anchor : Option NodeId) :
    (d.insert p n anchor).listeners = d.listeners ∧ (d.insert p n anchor).added = d.added :=
  d.detach_listeners n

/-- The listeners at a node. -/
def listenersOf (d : Document α) (n : NodeId) : List (Listener α) :=
  d.listeners.filter fun l => l.node = n

/-- If only listeners at other nodes differ, a node has the listeners that it had. -/
theorem listenersOf_congr {ls ls' : List Nat} {n : NodeId}
    (h : d'.listenersBut ls' = d.listenersBut ls) (hn : ∀ l ∈ d.listeners, l.id ∈ ls → l.node ≠ n)
    (hn' : ∀ l ∈ d'.listeners, l.id ∈ ls' → l.node ≠ n) : d'.listenersOf n = d.listenersOf n := by
  have hsplit : ∀ {e : Document α} {ks : List Nat}, (∀ l ∈ e.listeners, l.id ∈ ks → l.node ≠ n) →
      e.listenersOf n = (e.listenersBut ks).filter fun l => l.node = n := by
    intro e ks hks
    rw [listenersOf, listenersBut, List.filter_filter]
    refine List.filter_congr fun l hl => ?_
    rw [← Bool.decide_and, decide_eq_decide]
    exact ⟨fun hnode => ⟨hnode, fun hk => hks l hl hk hnode⟩, fun hboth => hboth.1⟩
  rw [hsplit hn', hsplit hn, h]

/-- A document after some steps: the listeners that came have new numbers. -/
structure Later (d d' : Document α) : Prop where
  added : d.added ≤ d'.added
  new : ∀ l ∈ d'.listeners, l ∈ d.listeners ∨ d.added ≤ l.id

theorem Later.of_same (hlisteners : d'.listeners = d.listeners) (hadded : d'.added = d.added) :
    d.Later d' :=
  ⟨Nat.le_of_eq hadded.symm, fun _ hl => Or.inl (hlisteners ▸ hl)⟩

theorem Later.trans {d'' : Document α} (h : d.Later d') (h' : d'.Later d'') : d.Later d'' := by
  refine ⟨Nat.le_trans h.added h'.added, fun l hl => ?_⟩
  rcases h'.new l hl with hl | hl
  · exact h.new l hl
  · exact Or.inr (Nat.le_trans h.added hl)

theorem Later.unlisten (ks : List Nat) (d : Document α) :
    d.Later (ks.foldl (fun d l => d.unlisten l) d) := by
  induction ks generalizing d with
  | nil => exact .of_same rfl rfl
  | cons k r ih =>
    have hk : d.Later (d.unlisten k) := ⟨Nat.le_refl _, fun _ hl => Or.inl (List.mem_of_mem_filter hl)⟩
    exact hk.trans (ih (d.unlisten k))

theorem Later.listen (d : Document α) (n : NodeId) (event : Text) (a : α) :
    d.Later (d.listen n event a).2 := by
  refine ⟨Nat.le_succ _, fun l hl => ?_⟩
  rcases List.mem_append.1 hl with hl | hl
  · exact Or.inl hl
  · rw [List.mem_singleton.1 hl]
    exact Or.inr (Nat.le_refl _)

/-- Some numbers were given to listeners, and those that are left of them are at a node. -/
structure Serves (d : Document α) (ls : List Nat) (n : NodeId) : Prop where
  added : ∀ k ∈ ls, k < d.added
  node : ∀ l ∈ d.listeners, l.id ∈ ls → l.node = n

theorem Serves.nil (d : Document α) (n : NodeId) : d.Serves [] n :=
  ⟨fun _ hk => absurd hk List.not_mem_nil, fun _ _ hk => absurd hk List.not_mem_nil⟩

/-- No number is given twice, so listeners that come later are none of these. -/
theorem Serves.later {ls : List Nat} {n : NodeId} (h : d.Serves ls n) (hd : d.Later d') :
    d'.Serves ls n := by
  refine ⟨fun k hk => Nat.lt_of_lt_of_le (h.added k hk) hd.added, fun l hl hk => ?_⟩
  rcases hd.new l hl with hl | hl
  · exact h.node l hl hk
  · exact absurd (h.added l.id hk) (Nat.not_lt.2 hl)

/-- One more listener at the node. -/
theorem Serves.listen {ls : List Nat} {n : NodeId} (h : d.Serves ls n) (hc : d.Counted)
    (event : Text) (a : α) : (d.listen n event a).2.Serves (ls ++ [(d.listen n event a).1]) n := by
  refine ⟨fun k hk => ?_, fun l hl hk => ?_⟩
  · show k < d.added + 1
    rcases List.mem_append.1 hk with hk | hk
    · exact Nat.lt_succ_of_lt (h.added k hk)
    · rw [List.mem_singleton.1 hk]
      exact Nat.lt_succ_self _
  · rcases List.mem_append.1 hl with hl | hl
    · rcases List.mem_append.1 hk with hk | hk
      · exact h.node l hl hk
      · exact absurd (hc l hl) (Nat.not_lt.2 (Nat.le_of_eq (List.mem_singleton.1 hk).symm))
    · rw [List.mem_singleton.1 hl]

end Dom.Document

namespace Block

open Dom (NodeId)
open Reactive.Block.Tree (rootsAll nodesAll blocksAll)

variable {σ : Type}

/-- A stage without what its owner keeps. -/
abbrev Stage.bare (w : Stage σ) : Stage Unit := { doc := w.doc, cells := w.cells, own := () }

namespace Tree

mutual

/-- The numbers of the listeners of a tree. -/
def heard : Tree → List Nat
  | leaf .. => []
  | elem _ cell _ _ _ kids => cell.listeners ++ heardAll kids
  | group _ _ _ kids => heardAll kids

/-- The numbers of the listeners of several trees. -/
def heardAll : List Tree → List Nat
  | [] => []
  | t :: r => heard t ++ heardAll r

end

theorem heardAll_append (ts us : List Tree) : heardAll (ts ++ us) = heardAll ts ++ heardAll us := by
  induction ts with
  | nil => rfl
  | cons t r ih => rw [List.cons_append, heardAll, heardAll, ih, List.append_assoc]

@[simp] theorem heardAll_singleton (t : Tree) : heardAll [t] = t.heard := by
  rw [heardAll, heardAll, List.append_nil]

mutual

/-- The listeners of a tree that are left are at its elements. -/
def Hears (d : Dom.Document Action) : Tree → Prop
  | leaf .. => True
  | elem _ cell n _ _ kids => d.Serves cell.listeners n ∧ hearsAll d kids
  | group _ _ _ kids => hearsAll d kids

/-- The listeners of several trees that are left are at their elements. -/
def hearsAll (d : Dom.Document Action) : List Tree → Prop
  | [] => True
  | t :: r => Hears d t ∧ hearsAll d r

end

theorem hearsAll_append (d : Dom.Document Action) (ts us : List Tree) :
    hearsAll d (ts ++ us) ↔ hearsAll d ts ∧ hearsAll d us := by
  induction ts with
  | nil => simp [hearsAll]
  | cons t r ih => rw [List.cons_append, hearsAll, hearsAll, ih, and_assoc]

@[simp] theorem hearsAll_singleton (d : Dom.Document Action) (t : Tree) :
    hearsAll d [t] ↔ t.Hears d := by
  rw [hearsAll, hearsAll, and_true]

mutual

theorem Hears.later {d d' : Dom.Document Action} (hd : d.Later d') : ∀ {t : Tree}, t.Hears d →
    t.Hears d'
  | leaf .., _ => trivial
  | elem .., h => ⟨h.1.later hd, hearsAll.later hd h.2⟩
  | group .., h => hearsAll.later hd h

theorem hearsAll.later {d d' : Dom.Document Action} (hd : d.Later d') : ∀ {ts : List Tree},
    hearsAll d ts → hearsAll d' ts
  | [], _ => trivial
  | _ :: _, h => ⟨Hears.later hd h.1, hearsAll.later hd h.2⟩

end

mutual

theorem Hears.mem_nodes {d : Dom.Document Action} {l : Dom.Listener Action} (hl : l ∈ d.listeners) :
    ∀ {t : Tree}, t.Hears d → l.id ∈ t.heard → l.node ∈ t.nodes
  | elem _ cell n _ _ kids, h, hk => by
    rw [nodes]
    rcases List.mem_append.1 hk with hk | hk
    · rw [h.1.node l hl hk]
      exact List.mem_cons_self
    · exact List.mem_cons_of_mem _ (hearsAll.mem_nodes hl h.2 hk)
  | group _ _ _ kids, h, hk => List.mem_append.2 (Or.inl (hearsAll.mem_nodes hl h hk))

theorem hearsAll.mem_nodes {d : Dom.Document Action} {l : Dom.Listener Action}
    (hl : l ∈ d.listeners) : ∀ {ts : List Tree}, hearsAll d ts → l.id ∈ heardAll ts →
    l.node ∈ nodesAll ts
  | _ :: _, h, hk => by
    rcases List.mem_append.1 hk with hk | hk
    · exact List.mem_append.2 (Or.inl (Hears.mem_nodes hl h.1 hk))
    · exact List.mem_append.2 (Or.inr (hearsAll.mem_nodes hl h.2 hk))

end

end Tree

open Reactive.Block.Tree (heardAll hearsAll)

/-! ### The shape of what is mounted -/

/-- A block that is alive and owns a node. -/
structure Live (cell : Cell) (n : NodeId) : Prop where
  alive : cell.done = false
  node : cell.node = some n

mutual

/-- A tree is built like a node of a view. -/
def Shaped : View.Node → Tree → Prop
  | .fixed .., t | .text .., t => ∃ i cell n text, t = .leaf i cell n text ∧ Live cell n
  | .elem _ _ _ toggles _ children, t => ∃ i cell n tag as kids, t = .elem i cell n tag as kids ∧
      Live cell n ∧ cell.children = kids.map Tree.id ∧ cell.toggles.length = toggles.length ∧
      shapedAll children kids
  | .cond _ branches other, t => ∃ i cell a kids, t = .group i cell a kids ∧ Live cell a ∧
      match cell.shown with
      | none => kids = []
      | some (key, b) => ∃ kid, kids = [kid] ∧ kid.id = b ∧
        if key < branches.length then shapedBranch key branches kid else shapedOtherwise other kid
  | .each _ _ _ _ body, t => ∃ i cell a kids, t = .group i cell a kids ∧ Live cell a ∧
      cell.children = kids.map Tree.id ∧ ∀ kid ∈ kids, Shaped body kid
  | .fragment _ children, t => ∃ i cell a kids, t = .group i cell a kids ∧ Live cell a ∧
      cell.mounted = true ∧ cell.children = kids.map Tree.id ∧ shapedAll children kids

/-- Trees are built like several nodes. -/
def shapedAll : List View.Node → List Tree → Prop
  | [], ts => ts = []
  | v :: r, ts => ∃ t rest, ts = t :: rest ∧ Shaped v t ∧ shapedAll r rest

/-- A tree is built like the branch that is `k` places further on. -/
def shapedBranch (k : Nat) : List View.Branch → Tree → Prop
  | [], _ => False
  | b :: r, t =>
    match k with
    | 0 => shapedBody b t
    | k + 1 => shapedBranch k r t

/-- A tree is built like the body of a branch. -/
def shapedBody : View.Branch → Tree → Prop
  | .mk _ body, t => Shaped body t

/-- A tree is built like what is shown when no condition holds. -/
def shapedOtherwise : View.Otherwise → Tree → Prop
  | .nothing, _ => False
  | .body v, t => Shaped v t

end

/-! ### Trees that become others -/

/-- A run turned trees, and blocks that were not mounted, into other trees in the same place.  The
listeners that are not theirs are what they were. -/
structure Replaces (p : NodeId) (y : Dom.Node) (pre post : List NodeId) (bs : List BlockId)
    (m : Machine (Stage σ)) (ts : List Tree) (m' : Machine (Stage σ)) (ts' : List Tree) : Prop where
  becomes : Becomes p y pre post bs m.host.bare ts m'.host.bare ts'
  others : m'.host.doc.listenersBut (heardAll ts') = m.host.doc.listenersBut (heardAll ts)
  counted : m'.host.doc.Counted
  later : m.host.doc.Later m'.host.doc
  hears : hearsAll m.host.doc ts → hearsAll m'.host.doc ts'

variable {m m' m'' : Machine (Stage σ)} {p : NodeId} {y : Dom.Node} {pre post : List NodeId}
  {t : Tree} {ts ts' ts'' : List Tree} {bs bs' : List BlockId} {E : Halt → Prop}

namespace Replaces

theorem placed (h : Replaces p y pre post bs m ts m' ts') : Placed m'.host.bare p y pre ts' post :=
  h.becomes.placed

/-- A run that leaves the listeners alone. -/
theorem of_same (hb : Becomes p y pre post bs m.host.bare ts m'.host.bare ts')
    (hc : m.host.doc.Counted) (hlisteners : m'.host.doc.listeners = m.host.doc.listeners)
    (hadded : m'.host.doc.added = m.host.doc.added) (hheard : heardAll ts' = heardAll ts)
    (hhears : hearsAll m.host.doc ts → hearsAll m.host.doc ts') :
    Replaces p y pre post bs m ts m' ts' := by
  have hlater : m.host.doc.Later m'.host.doc := .of_same hlisteners hadded
  refine ⟨hb, ?_, fun l hl => ?_, hlater, fun h => (hhears h).later hlater⟩
  · rw [Dom.Document.listenersBut, hlisteners, hheard]
    rfl
  · rw [hadded]
    exact hc l (hlisteners ▸ hl)

theorem refl (hc : m.host.doc.Counted) (hp : Placed m.host.bare p y pre ts post) :
    Replaces p y pre post bs m ts m ts :=
  .of_same (.refl hp) hc rfl rfl rfl id

/-- A run that leaves the document and the blocks alone. -/
theorem of_bare (hc : m.host.doc.Counted) (hp : Placed m.host.bare p y pre ts post)
    (hbare : m'.host.bare = m.host.bare) : Replaces p y pre post bs m ts m' ts := by
  have hdoc : m'.host.doc = m.host.doc := congrArg (Stage.doc (σ := Unit)) hbare
  refine .of_same ?_ hc (by rw [hdoc]) (by rw [hdoc]) rfl id
  rw [hbare]
  exact .refl hp

theorem trans (h : Replaces p y pre post bs m ts m' ts')
    (h' : Replaces p y pre post bs' m' ts' m'' ts'')
    (hbs : ∀ i ∈ bs', i ∈ blocksAll ts ∨ i ∈ bs ∨ m.host.cells.size ≤ i) :
    Replaces p y pre post bs m ts m'' ts'' :=
  ⟨h.becomes.trans h'.becomes hbs, h'.others.trans h.others, h'.counted, h.later.trans h'.later,
    fun hears => h'.hears (h.hears hears)⟩

theorem trans_nil (h : Replaces p y pre post bs m ts m' ts')
    (h' : Replaces p y pre post [] m' ts' m'' ts'') : Replaces p y pre post bs m ts m'' ts'' :=
  h.trans h' fun _ hi => absurd hi List.not_mem_nil

/-- More blocks may be among those that were not mounted. -/
theorem mono (h : Replaces p y pre post bs m ts m' ts') (hbs : ∀ i ∈ bs, i ∈ bs') :
    Replaces p y pre post bs' m ts m' ts' := by
  refine ⟨⟨h.becomes.moves.mono (fun _ _ hn => hn) fun i _ hi => hi.imp_right (hbs i), h.placed,
    h.becomes.nodes, fun i hi => ?_⟩, h.others, h.counted, h.later, h.hears⟩
  exact (h.becomes.blocks i hi).imp_right fun hi => hi.imp_left (hbs i)

/-- A change of some of the trees in a place. -/
theorem among {xs zs : List Tree} (hp : Placed m.host.bare p y pre (xs ++ (ts ++ zs)) post)
    (h : Replaces p y (pre ++ rootsAll xs) (rootsAll zs ++ post) bs m ts m' ts')
    (hbs : ∀ i ∈ bs, i ∉ blocksAll xs ∧ i ∉ blocksAll zs) :
    Replaces p y pre post bs m (xs ++ (ts ++ zs)) m' (xs ++ (ts' ++ zs)) := by
  refine ⟨.among hp h.becomes hbs, ?_, h.counted, h.later, fun hears => ?_⟩
  · simp only [Tree.heardAll_append]
    exact Dom.Document.listenersBut_congr h.others _ _
  · simp only [Tree.hearsAll_append] at hears ⊢
    exact ⟨hears.1.later h.later, h.hears hears.2.1, hears.2.2.later h.later⟩

/-- A change of the first tree. -/
theorem head {r : List Tree} (hp : Placed m.host.bare p y pre (t :: r) post)
    (h : Replaces p y pre (rootsAll r ++ post) [] m [t] m' ts') :
    Replaces p y pre post [] m (t :: r) m' (ts' ++ r) := by
  have hp' : Placed m.host.bare p y pre ([] ++ ([t] ++ r)) post := hp
  refine among hp' ?_ fun i hi => absurd hi List.not_mem_nil
  rwa [rootsAll, List.append_nil]

/-- A change of all trees but the first. -/
theorem tail {r : List Tree} (hp : Placed m.host.bare p y pre (t :: r) post)
    (h : Replaces p y (pre ++ t.roots) post [] m r m' ts') :
    Replaces p y pre post [] m (t :: r) m' (t :: ts') := by
  have hr : ∀ us : List Tree, t :: us = [t] ++ (us ++ []) := by
    intro us
    rw [List.append_nil]
    rfl
  rw [hr r, hr ts']
  refine among (hr r ▸ hp) ?_ fun i hi => absurd hi List.not_mem_nil
  rwa [Tree.rootsAll_singleton, rootsAll, List.nil_append]

/-- New trees after the others. -/
theorem snoc (hp : Placed m.host.bare p y pre ts post)
    (h : Replaces p y (pre ++ rootsAll ts) post bs m [] m' ts')
    (hbs : ∀ i ∈ bs, i ∉ blocksAll ts) : Replaces p y pre post bs m ts m' (ts ++ ts') := by
  have hp' : Placed m.host.bare p y pre (ts ++ ([] ++ [])) post := by
    rwa [List.append_nil, List.append_nil]
  have hall := among hp' h fun i hi => ⟨hbs i hi, List.not_mem_nil⟩
  rwa [List.append_nil, List.append_nil, List.append_nil] at hall

/-- A change of what is mounted in an element. -/
theorem inElem {i : BlockId} {cell : Cell} {n : NodeId} {tag : Text} {attrs : List (Text × Text)}
    (hp : Placed m.host.bare p y pre [.elem i cell n tag attrs ts] post)
    (h : Replaces n { content := .element tag, attrs, parent := some p } [] [] [] m ts m' ts') :
    Replaces p y pre post [] m [.elem i cell n tag attrs ts] m' [.elem i cell n tag attrs ts'] := by
  refine ⟨.inElem hp h.becomes fun _ hi => absurd hi List.not_mem_nil, ?_, h.counted, h.later,
    fun hears => ?_⟩
  · have hall := Dom.Document.listenersBut_congr h.others cell.listeners []
    rw [List.append_nil, List.append_nil] at hall
    rwa [Tree.heardAll_singleton, Tree.heardAll_singleton]
  · rw [Tree.hearsAll_singleton] at hears ⊢
    exact ⟨hears.1.later h.later, h.hears hears.2⟩

/-- A change of what is mounted before an anchor. -/
theorem inGroup {i : BlockId} {cell : Cell} {a : NodeId}
    (hp : Placed m.host.bare p y pre [.group i cell a ts] post)
    (h : Replaces p y pre (a :: post) bs m ts m' ts') (hbs : ∀ k ∈ bs, k ≠ i) :
    Replaces p y pre post bs m [.group i cell a ts] m' [.group i cell a ts'] := by
  refine ⟨.inGroup hp h.becomes hbs, ?_, h.counted, h.later, fun hears => ?_⟩
  · rw [Tree.heardAll_singleton, Tree.heardAll_singleton]
    exact h.others
  · rw [Tree.hearsAll_singleton] at hears ⊢
    exact h.hears hears

theorem inGroup_nil {i : BlockId} {cell : Cell} {a : NodeId}
    (hp : Placed m.host.bare p y pre [.group i cell a ts] post)
    (h : Replaces p y pre (a :: post) [] m ts m' ts') :
    Replaces p y pre post [] m [.group i cell a ts] m' [.group i cell a ts'] :=
  h.inGroup hp fun _ hi => absurd hi List.not_mem_nil

/-- Nodes that are not in the trees keep their listeners. -/
theorem quiet (h : Replaces p y pre post bs m ts m' ts') (hears : hearsAll m.host.doc ts) {n : NodeId}
    (hlt : n < m.host.doc.nodes.size) (hn : n ∉ nodesAll ts) :
    m'.host.doc.listenersOf n = m.host.doc.listenersOf n := by
  have hn' : n ∉ nodesAll ts' := by
    intro hmem
    rcases h.becomes.nodes n hmem with hmem | hmem
    · exact hn hmem
    · exact absurd hlt (Nat.not_lt.2 hmem)
  refine Dom.Document.listenersOf_congr h.others (fun l hl hk hnode => ?_) fun l hl hk hnode => ?_
  · exact hn (hnode ▸ hears.mem_nodes hl hk)
  · exact hn' (hnode ▸ (h.hears hears).mem_nodes hl hk)

/-- So does an anchor. -/
theorem quiet_anchor {i : BlockId} {cell cell' : Cell} {a : NodeId} {kids kids' : List Tree}
    (hp : Placed m.host.bare p y pre [.group i cell a kids] post)
    (h : Replaces p y pre post bs m [.group i cell a kids] m' [.group i cell' a kids'])
    (hears : hearsAll m.host.doc kids) :
    m'.host.doc.listenersOf a = m.host.doc.listenersOf a := by
  have hnot : ∀ {w : Stage Unit} {c : Cell} {us : List Tree},
      Placed w p y pre [.group i c a us] post → a ∉ nodesAll us := by
    intro w c us hus hmem
    have hnodup := hus.nodes
    rw [Tree.nodesAll_singleton, Tree.nodes] at hnodup
    exact (List.nodup_append.1 hnodup).2.2 a hmem a List.mem_cons_self rfl
  have hothers := h.others
  rw [Tree.heardAll_singleton, Tree.heardAll_singleton] at hothers
  have hears' : hearsAll m'.host.doc kids' :=
    (Tree.hearsAll_singleton ..).1 (h.hears ((Tree.hearsAll_singleton ..).2 hears))
  refine Dom.Document.listenersOf_congr hothers (fun l hl hk hnode => ?_) fun l hl hk hnode => ?_
  · exact hnot hp (hnode ▸ hears.mem_nodes hl hk)
  · exact hnot h.placed (hnode ▸ hears'.mem_nodes hl hk)

end Replaces

/-! ### Steps -/

theorem after_cellOf (h : Placed m.host.bare p y pre [t] post)
    (Q : Cell → Machine (Stage σ) → Prop) :
    Run.After E (getCell t.id) Q m ↔ Q t.cell m := by
  have hcell : m.host.cells.getD t.id default = t.cell := getD_of_getElem? h.cell
  rw [after_getCell, hcell]

/-- The outermost block of a tree remembers something else, but the same listeners. -/
theorem after_rewrite (hc : m.host.doc.Counted) (hp : Placed m.host.bare p y pre [t] post)
    {f : Cell → Cell} (hf : ∀ c, (f c).listeners = c.listeners) :
    Run.After E (modifyCell t.id f)
      (fun _ m' => Replaces p y pre post [] m [t] m' [t.mapCell f]) m := by
  rw [after_modifyCell]
  refine .of_same (.onCell hp f) hc rfl rfl ?_ fun hears => ?_
  · rw [Tree.heardAll_singleton, Tree.heardAll_singleton]
    cases t with
    | leaf => rfl
    | elem i cell n tag as kids => rw [Tree.mapCell, Tree.heard, Tree.heard, hf]
    | group => rfl
  · rw [Tree.hearsAll_singleton] at hears ⊢
    cases t with
    | leaf => trivial
    | elem i cell n tag as kids =>
      rw [Tree.mapCell, Tree.Hears, hf]
      exact hears
    | group => exact hears

/-- A block is done for good. -/
def Done (w : Stage σ) (id : BlockId) : Prop := ∃ cell, w.cells[id]? = some cell ∧ cell.done = true

/-- The node of a block that has nothing below it any more leaves its place. -/
theorem after_leave (hc : m.host.doc.Counted) (hp : Placed m.host.bare p y pre [t] post)
    {n : NodeId} (hn : t.cell.node = some n) (hdone : t.cell.done = true) (hr : t.roots = [n])
    (hheard : t.heard = []) :
    Run.After E (detachNode t.id)
      (fun _ m' => Replaces p y pre post [] m [t] m' [] ∧ Done m'.host t.id) m := by
  obtain ⟨hlisteners, hadded⟩ := m.host.doc.detach_listeners n
  rw [detachNode, Run.after_bind, after_cellOf hp, hn, after_modifyDoc]
  refine ⟨.of_same (.detach hp hr) hc hlisteners hadded ?_ fun _ => trivial, t.cell, hp.cell, hdone⟩
  rw [Tree.heardAll_singleton, hheard]
  rfl

/-! ### Creation -/

/-- A run that made new blocks and did nothing else. -/
structure Makes (m m' : Machine (Stage σ)) (bs : List BlockId) : Prop where
  doc : m'.host.doc = m.host.doc
  cells : ∃ cs, m'.host.cells = m.host.cells ++ cs
  nodup : bs.Nodup
  new : ∀ i ∈ bs, m.host.cells.size ≤ i

namespace Makes

theorem moves {N : NodeId → Prop} {B : BlockId → Prop} (h : Makes m m' bs) :
    Moves N B m.host.bare m'.host.bare := by
  obtain ⟨cs, hcs⟩ := h.cells
  have hbare : m'.host.bare = { m.host.bare with cells := m.host.cells ++ cs } := by
    rw [Stage.bare, h.doc, hcs]
  rw [hbare]
  exact .onCells m.host.bare cs

/-- Trees stay in their place while blocks are made. -/
theorem replaces (h : Makes m m' bs) (hc : m.host.doc.Counted)
    (hp : Placed m.host.bare p y pre ts post) : Replaces p y pre post [] m ts m' ts := by
  have hm : ∀ {N : NodeId → Prop} {B : BlockId → Prop}, Moves N B m.host.bare m'.host.bare := h.moves
  refine .of_same ⟨hm, ⟨?_, hp.straight, ?_, hp.nodes, hp.blocks, hp.outside, hp.around,
    fun n hn => ?_⟩, fun _ hn => Or.inl hn, fun _ hi => Or.inl hi⟩ hc (by rw [h.doc])
    (by rw [h.doc]) rfl id
  · exact (congrArg (fun d : Dom.Document Action => d.nodes[p]?) h.doc).trans hp.parent
  · exact (hm (N := fun _ => False) (B := fun _ => False)).holdsAll hp.holds
      (fun _ _ => not_false) fun _ _ => not_false
  · exact ⟨(hp.apart n hn).1, Nat.lt_of_lt_of_le (hp.apart n hn).2
      (hm (N := fun _ => False) (B := fun _ => False)).size⟩

/-- Two lots of blocks made one after the other. -/
theorem append (h : Makes m m' bs) (h' : Makes m' m'' bs')
    (hlt : ∀ i ∈ bs, i < m'.host.cells.size) : Makes m m'' (bs ++ bs') := by
  have hsize := (h.moves (N := fun _ => False) (B := fun _ => False)).count
  obtain ⟨cs, hcs⟩ := h.cells
  obtain ⟨cs', hcs'⟩ := h'.cells
  refine ⟨h'.doc.trans h.doc, ⟨cs ++ cs', ?_⟩, ?_, ?_⟩
  · rw [hcs', hcs, Array.append_assoc]
  · refine List.nodup_append.2 ⟨h.nodup, h'.nodup, ?_⟩
    rintro i hi j hj rfl
    exact absurd (hlt i hi) (Nat.not_lt.2 (h'.new i hj))
  · intro i hi
    rcases List.mem_append.1 hi with hi | hi
    · exact h.new i hi
    · exact Nat.le_trans hsize (h'.new i hi)

/-- A block for a node on top of the blocks of its children. -/
theorem cons {id : BlockId} (h : Makes m m' bs) (h' : Makes m' m'' [id])
    (hlt : ∀ i ∈ bs, i < m'.host.cells.size) : Makes m m'' (id :: bs) := by
  have happend := h.append h' hlt
  refine ⟨happend.doc, happend.cells, ?_, fun i hi => happend.new i ?_⟩
  · exact (List.perm_append_singleton id bs).nodup_iff.1 happend.nodup
  · exact (List.perm_append_singleton id bs).mem_iff.2 hi

/-- Blocks that were there are what they were. -/
theorem old (h : Makes m m' bs) {i : BlockId} (hi : i < m.host.cells.size) :
    m'.host.cells[i]? = m.host.cells[i]? :=
  (h.moves (N := fun _ => False) (B := fun _ => False)).block i hi not_false

end Makes

theorem after_newBlock (c : Cell) (m : Machine (Stage σ)) : Run.After E (newCell c)
    (fun id m' => Makes m m' [id] ∧ m'.host.cells[id]? = some c) m := by
  rw [after_newCell]
  refine ⟨⟨rfl, ⟨#[c], ?_⟩, List.nodup_singleton _, fun i hi => ?_⟩, ?_⟩
  · rw [Array.push_eq_append]
  · rw [List.mem_singleton.1 hi]
  · simp

mutual

/-- Creation makes blocks that are not mounted. -/
theorem after_creation (frame : Frame) : ∀ (v : View.Node) (m : Machine (Stage σ)),
    Run.After E (create frame v)
      (fun id m' => ∃ bs, Makes m m' bs ∧ Fresh m'.host.cells frame v id bs) m
  | .fixed .., m | .text .., m | .cond .., m | .each .., m => by
    show Run.After E (newCell { frame }) _ m
    refine (after_newBlock _ m).mono ?_
    rintro id m' ⟨hmakes, hcell⟩
    exact ⟨[id], hmakes, rfl, hcell⟩
  | .elem _ _ _ _ _ children, m | .fragment _ children, m => by
    rw [create]
    refine (after_creationAll frame children m).bind ?_
    rintro ids m' ⟨bs, hmakes, hfresh⟩
    refine (after_newBlock _ m').mono ?_
    rintro id m'' ⟨hmakes', hcell⟩
    exact ⟨id :: bs, hmakes.cons hmakes' hfresh.lt, ids, bs, rfl, hcell,
      hfresh.congr fun i hi => hmakes'.old (hfresh.lt i hi)⟩

theorem after_creationAll (frame : Frame) : ∀ (vs : List View.Node) (m : Machine (Stage σ)),
    Run.After E (createAll frame vs)
      (fun ids m' => ∃ bs, Makes m m' bs ∧ freshAll m'.host.cells frame vs ids bs) m
  | [], m => by
    rw [createAll]
    refine ⟨[], ⟨rfl, ⟨#[], ?_⟩, List.nodup_nil, fun _ hi => absurd hi List.not_mem_nil⟩, rfl, rfl⟩
    simp
  | v :: r, m => by
    rw [createAll]
    refine (after_creation frame v m).bind ?_
    rintro id m' ⟨bs, hmakes, hfresh⟩
    refine (after_creationAll frame r m').bind ?_
    rintro ids m'' ⟨bs', hmakes', hfresh'⟩
    exact ⟨bs ++ bs', hmakes.append hmakes' hfresh.lt, id, ids, bs, bs', rfl, rfl,
      hfresh.congr fun i hi => hmakes'.old (hfresh.lt i hi), hfresh'⟩

end

/-! ### Destruction -/

/-- What holds of the destruction of the blocks of a node: its place is empty then, and its block
is done for good. -/
def GivesBack (σ : Type) (E : Halt → Prop) (v : View.Node) : Prop :=
  ∀ {m : Machine (Stage σ)} {t : Tree} {p : NodeId} {y : Dom.Node} {pre post : List NodeId},
    m.host.doc.Counted → Shaped v t → Placed m.host.bare p y pre [t] post →
    Run.After E (destroy t.id v)
      (fun _ m' => Replaces p y pre post [] m [t] m' [] ∧ Done m'.host t.id) m

/-- All rounds of a loop are destroyed. -/
theorem GivesBack.rounds {body : View.Node} (hbody : GivesBack σ E body) : ∀ (kids : List Tree)
    {m : Machine (Stage σ)}, m.host.doc.Counted → (∀ kid ∈ kids, Shaped body kid) →
    Placed m.host.bare p y pre kids post →
    Run.After E ((kids.map Tree.id).forM fun child => destroy child body)
      (fun _ m' => Replaces p y pre post [] m kids m' []) m
  | [], m, hc, _, hp => .refl hc hp
  | kid :: r, m, hc, hs, hp => by
    show Run.After E (destroy kid.id body >>= fun _ =>
      (r.map Tree.id).forM fun child => destroy child body) _ m
    refine (hbody hc (hs kid List.mem_cons_self) hp.head).bind ?_
    rintro _ m₁ ⟨h₁, -⟩
    have hall := h₁.head hp
    refine (GivesBack.rounds hbody r h₁.counted (fun k hk => hs k (List.mem_cons_of_mem _ hk))
      hall.placed).mono ?_
    intro _ m₂ h₂
    exact hall.trans_nil h₂

/-- A leaf is destroyed. -/
theorem after_destroyLeaf {i : BlockId} {cell : Cell} {n : NodeId} {text : Text}
    (hc : m.host.doc.Counted) (hcell : Live cell n)
    (hp : Placed m.host.bare p y pre [.leaf i cell n text] post) :
    Run.After E (do
        if (← getCell i).done then return
        modifyCell i fun c => { c with done := true }
        detachNode i)
      (fun _ m' => Replaces p y pre post [] m [.leaf i cell n text] m' [] ∧ Done m'.host i) m := by
  refine (Run.after_bind _ _ _).2 ((after_cellOf hp _).2 ?_)
  rw [Tree.cell, hcell.alive]
  refine (after_rewrite (f := fun c => { c with done := true }) hc hp fun _ => rfl).bind ?_
  intro _ m₁ h₁
  refine (after_leave h₁.counted h₁.placed hcell.node rfl rfl rfl).mono ?_
  rintro _ m₂ ⟨h₂, hdone⟩
  exact ⟨h₁.trans_nil h₂, hdone⟩

/-- An element forgets its listeners, and so does the document. -/
theorem after_unlisten {i : BlockId} {cell : Cell} {n : NodeId} {tag : Text}
    {as : List (Text × Text)} {kids : List Tree} (hc : m.host.doc.Counted)
    (hp : Placed m.host.bare p y pre [.elem i cell n tag as kids] post) :
    Run.After E (do
        modifyCell i fun c => { c with done := true, listeners := [] }
        modifyDoc fun d => cell.listeners.foldl (fun d l => d.unlisten l) d)
      (fun _ m' => Replaces p y pre post [] m [.elem i cell n tag as kids] m'
        [.elem i { cell with done := true, listeners := [] } n tag as kids]) m := by
  rw [Run.after_bind, after_modifyCell, after_modifyDoc]
  have h₁ : Becomes p y pre post [] m.host.bare _ _ _ :=
    .onCell hp fun c => { c with done := true, listeners := [] }
  obtain ⟨hnodes, hcounted, hbut⟩ := Dom.Document.unlisten_all cell.listeners m.host.doc
  have hlater := Dom.Document.Later.unlisten cell.listeners m.host.doc
  refine ⟨h₁.trans (Becomes.onListeners h₁.placed hnodes) fun _ hi => absurd hi List.not_mem_nil, ?_,
    hcounted hc, hlater, fun hears => ?_⟩
  · rw [Tree.heardAll_singleton, Tree.heardAll_singleton]
    exact hbut _
  · rw [Tree.hearsAll_singleton] at hears ⊢
    exact ⟨.nil _ n, hears.2.later hlater⟩

mutual

/-- Destruction gives a region back. -/
theorem after_destruction : ∀ v : View.Node, GivesBack σ E v
  | .fixed _ value, m, t, p, y, pre, post, hc, hs, hp
  | .text _ b, m, t, p, y, pre, post, hc, hs, hp => by
    obtain ⟨i, cell, n, text, rfl, hcell⟩ := hs
    rw [destroy]
    exact after_destroyLeaf hc hcell hp
  | .elem _ _ _ _ _ children, m, t, p, y, pre, post, hc, hs, hp => by
    obtain ⟨i, cell, n, tag, as, kids, rfl, hcell, hids, -, hkids⟩ := hs
    rw [destroy, Run.after_bind, after_cellOf hp, Tree.cell, hcell.alive, hids]
    have h₁ := (Run.after_bind _ _ _).1 (after_unlisten (E := E) hc hp)
    refine (Run.after_bind _ _ _).2 (h₁.mono fun _ m₀ h₀ => (Run.after_bind _ _ _).2 (h₀.mono ?_))
    intro _ m₁ h₁
    refine (after_destructionAll children h₁.counted hkids h₁.placed.inElem).bind ?_
    intro _ m₂ h₂
    have h₂' := h₂.inElem h₁.placed
    refine (after_leave h₂.counted h₂'.placed hcell.node rfl rfl rfl).mono ?_
    rintro _ m₃ ⟨h₃, hdone⟩
    exact ⟨(h₁.trans_nil h₂').trans_nil h₃, hdone⟩
  | .cond _ branches other, m, t, p, y, pre, post, hc, hs, hp => by
    obtain ⟨i, cell, a, kids, rfl, hcell, hkids⟩ := hs
    rw [destroy, Run.after_bind, after_cellOf hp, Tree.cell, hcell.alive]
    refine (after_rewrite (f := fun c => { c with done := true }) hc hp fun _ => rfl).bind ?_
    intro _ m₁ h₁
    cases hshown : cell.shown with
    | none =>
      rw [hshown] at hkids
      subst hkids
      refine (after_leave h₁.counted h₁.placed hcell.node rfl rfl rfl).mono ?_
      rintro _ m₂ ⟨h₂, hdone⟩
      exact ⟨h₁.trans_nil h₂, hdone⟩
    | some x =>
      obtain ⟨key, b⟩ := x
      rw [hshown] at hkids
      obtain ⟨kid, rfl, rfl, hkid⟩ := hkids
      -- The branch goes, then the block forgets it, then the anchor goes.
      have hrest : ∀ {m₂}, Replaces p y pre (a :: post) [] m₁ [kid] m₂ [] →
          Run.After E (do
              modifyCell i fun c => { c with shown := none }
              detachNode i)
            (fun _ m' => Replaces p y pre post [] m [.group i cell a [kid]] m' [] ∧
              Done m'.host i) m₂ := by
        intro m₂ h₂
        have h₂' := h₂.inGroup_nil h₁.placed
        refine (after_rewrite (f := fun c => { c with shown := none }) h₂.counted h₂'.placed
          fun _ => rfl).bind ?_
        intro _ m₃ h₃
        refine (after_leave h₃.counted h₃.placed hcell.node rfl rfl rfl).mono ?_
        rintro _ m₄ ⟨h₄, hdone⟩
        exact ⟨((h₁.trans_nil h₂').trans_nil h₃).trans_nil h₄, hdone⟩
      by_cases hkey : key < branches.length
      · rw [if_pos hkey] at hkid
        simp only [if_pos hkey]
        exact (after_destructionBranch branches h₁.counted hkid h₁.placed.inGroup).bind
          fun _ _ h₂ => hrest h₂
      · rw [if_neg hkey] at hkid
        simp only [if_neg hkey]
        exact (after_destructionOtherwise other h₁.counted hkid h₁.placed.inGroup).bind
          fun _ _ h₂ => hrest h₂
  | .each _ list item index body, m, t, p, y, pre, post, hc, hs, hp => by
    obtain ⟨i, cell, a, kids, rfl, hcell, hids, hkids⟩ := hs
    rw [destroy, Run.after_bind, after_cellOf hp, Tree.cell, hcell.alive]
    refine (after_rewrite (f := fun c => { c with done := true }) hc hp fun _ => rfl).bind ?_
    intro _ m₁ h₁
    rw [hids]
    refine (GivesBack.rounds (after_destruction body) kids h₁.counted hkids h₁.placed.inGroup).bind ?_
    intro _ m₂ h₂
    have h₂' := h₂.inGroup_nil h₁.placed
    refine (after_rewrite (f := fun c => { c with children := [] }) h₂.counted h₂'.placed
      fun _ => rfl).bind ?_
    intro _ m₃ h₃
    refine (after_leave h₃.counted h₃.placed hcell.node rfl rfl rfl).mono ?_
    rintro _ m₄ ⟨h₄, hdone⟩
    exact ⟨((h₁.trans_nil h₂').trans_nil h₃).trans_nil h₄, hdone⟩
  | .fragment _ children, m, t, p, y, pre, post, hc, hs, hp => by
    obtain ⟨i, cell, a, kids, rfl, hcell, -, hids, hkids⟩ := hs
    rw [destroy, Run.after_bind, after_cellOf hp, Tree.cell, hcell.alive]
    refine (after_rewrite (f := fun c => { c with done := true }) hc hp fun _ => rfl).bind ?_
    intro _ m₁ h₁
    rw [hids]
    refine (after_destructionAll children h₁.counted hkids h₁.placed.inGroup).bind ?_
    intro _ m₂ h₂
    have h₂' := h₂.inGroup_nil h₁.placed
    refine (after_leave h₂.counted h₂'.placed hcell.node rfl rfl rfl).mono ?_
    rintro _ m₃ ⟨h₃, hdone⟩
    exact ⟨(h₁.trans_nil h₂').trans_nil h₃, hdone⟩

theorem after_destructionAll : ∀ (vs : List View.Node) {m : Machine (Stage σ)} {ts : List Tree}
    {p : NodeId} {y : Dom.Node} {pre post : List NodeId}, m.host.doc.Counted → shapedAll vs ts →
    Placed m.host.bare p y pre ts post → Run.After E (destroyAll (ts.map Tree.id) vs)
      (fun _ m' => Replaces p y pre post [] m ts m' []) m
  | [], m, ts, p, y, pre, post, hc, hs, hp => by
    obtain rfl := hs
    rw [destroyAll]
    exact .refl hc hp
  | v :: r, m, ts, p, y, pre, post, hc, hs, hp => by
    obtain ⟨t, rest, rfl, ht, hrest⟩ := hs
    rw [List.map_cons, destroyAll]
    refine (after_destruction v hc ht hp.head).bind ?_
    rintro _ m₁ ⟨h₁, -⟩
    have h₁' := h₁.head hp
    refine (after_destructionAll r h₁.counted hrest h₁'.placed).mono ?_
    intro _ m₂ h₂
    exact h₁'.trans_nil h₂

theorem after_destructionBranch : ∀ (branches : List View.Branch) {k : Nat}
    {m : Machine (Stage σ)} {t : Tree} {p : NodeId} {y : Dom.Node} {pre post : List NodeId},
    m.host.doc.Counted → shapedBranch k branches t → Placed m.host.bare p y pre [t] post →
    Run.After E (destroyBranch t.id k branches)
      (fun _ m' => Replaces p y pre post [] m [t] m' []) m
  | .mk _ body :: _, 0, _, _, _, _, _, _, hc, hs, hp =>
    (after_destruction body hc hs hp).mono fun _ _ h => h.1
  | _ :: r, _ + 1, _, _, _, _, _, _, hc, hs, hp => after_destructionBranch r hc hs hp

theorem after_destructionOtherwise : ∀ (o : View.Otherwise) {m : Machine (Stage σ)} {t : Tree}
    {p : NodeId} {y : Dom.Node} {pre post : List NodeId}, m.host.doc.Counted →
    shapedOtherwise o t → Placed m.host.bare p y pre [t] post →
    Run.After E (destroyOtherwise t.id o)
      (fun _ m' => Replaces p y pre post [] m [t] m' []) m
  | .body v, _, _, _, _, _, _, hc, hs, hp => (after_destruction v hc hs hp).mono fun _ _ h => h.1

end

/-- What a choice shows is destroyed, and the block of the choice forgets it. -/
theorem after_emptied (hc : m.host.doc.Counted) {i : BlockId} {cell : Cell} {a : NodeId}
    {kids : List Tree} {branches : List View.Branch} {other : View.Otherwise}
    (hp : Placed m.host.bare p y pre [.group i cell a kids] post)
    (hkids : match cell.shown with
      | none => kids = []
      | some (key, b) => ∃ kid, kids = [kid] ∧ kid.id = b ∧
        if key < branches.length then shapedBranch key branches kid
        else shapedOtherwise other kid) :
    Run.After E (clear i branches other) (fun _ m' => Replaces p y pre post [] m
      [.group i cell a kids] m' [.group i { cell with shown := none } a []]) m := by
  refine (Run.after_bind _ _ _).2 ((after_cellOf hp _).2 ?_)
  rw [Tree.cell]
  cases hshown : cell.shown with
  | none =>
    rw [hshown] at hkids
    subst hkids
    have hsame : { cell with shown := none } = cell := by rw [← hshown]
    rw [hsame]
    exact Replaces.refl hc hp
  | some x =>
    obtain ⟨key, b⟩ := x
    rw [hshown] at hkids
    obtain ⟨kid, rfl, rfl, hkid⟩ := hkids
    have hrest : ∀ {m₁}, Replaces p y pre (a :: post) [] m [kid] m₁ [] →
        Run.After E (modifyCell i fun c => { c with shown := none }) (fun _ m' =>
          Replaces p y pre post [] m [.group i cell a [kid]] m'
            [.group i { cell with shown := none } a []]) m₁ := by
      intro m₁ h₁
      have h₁' := h₁.inGroup_nil hp
      refine (after_rewrite (f := fun c => { c with shown := none }) h₁.counted h₁'.placed
        fun _ => rfl).mono ?_
      intro _ m₂ h₂
      exact h₁'.trans_nil h₂
    by_cases hkey : key < branches.length
    · rw [if_pos hkey] at hkid
      simp only [if_pos hkey]
      exact (after_destructionBranch branches hc hkid hp.inGroup).bind fun _ _ h₁ => hrest h₁
    · rw [if_neg hkey] at hkid
      simp only [if_neg hkey]
      exact (after_destructionOtherwise other hc hkid hp.inGroup).bind fun _ _ h₁ => hrest h₁

end Block

end Reactive
