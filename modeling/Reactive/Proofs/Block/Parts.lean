/-
Parts of a view, mounted and patched.

A part is a node or a whole view.  The block of a whole view has no node of
its own; apart from that the two live in the same way.

* `Reading.after_createPart`, `Reading.after_mountPart`,
  `Reading.after_patchPart` — the life of a part;
* `Reading.alike_of_stands` — two parts that show one view in one state.
-/
import Reactive.Proofs.Block.Alike
import Reactive.Proofs.Block.Patching

namespace Reactive.Block

open Dom (NodeId)
open Reactive.Block.Tree (rootsAll nodesAll blocksAll htmlAll)

variable {σ : Type}

/-- No element of a part has class toggles or two attributes of one name. -/
def Part.Plain : Part → Prop
  | .node v => v.Plain
  | .whole vs => View.plainAll vs

/-- Every binding of an attribute satisfies `A` and every other binding `T`. -/
def Part.Every (T A : List Text → View.Binding → Prop) (locals : List Text) : Part → Prop
  | .node v => v.Every T A locals
  | .whole vs => View.everyAll T A locals vs

/-- Blocks as they are created for a part. -/
def Part.Fresh (cells : Array Cell) (frame : Frame) (id : BlockId) (bs : List BlockId) :
    Part → Prop
  | .node v => Block.Fresh cells frame v id bs
  | .whole vs => ∃ ids cs, bs = id :: cs ∧ cells[id]? = some { frame, children := ids } ∧
      freshAll cells frame vs ids cs

namespace Reading

variable {s : Site σ} {R : Reading s} {m m' : Machine (Stage σ)} {st st' : Dict Value}
  {dirty : Mask} {frame : Frame} {locals : List Text} {p : NodeId} {y : Dom.Node}
  {pre post : List NodeId} {id : BlockId} {bs : List BlockId} {ts : List Tree}

/-- A part stands on a stage as some trees, and shows its view. -/
def Stands (R : Reading s) (st : Dict Value) (frame : Frame) (id : BlockId) (w : Stage σ)
    (ts : List Tree) : Part → Prop
  | .node v => ∃ t, ts = [t] ∧ t.id = id ∧ R.Shows st frame v t
  | .whole vs => (∃ cell, w.cells[id]? = some cell ∧ cell.done = false ∧ cell.mounted = true ∧
      cell.children = ts.map Tree.id) ∧ id ∉ blocksAll ts ∧ R.showsAll st frame vs ts

theorem after_createPart (hR : R.Lawful) (h : R.Fine m) (hf : R.Fits m frame) (part : Part) :
    Run.After R.stops (part.create frame)
      (fun id m' => ∃ bs, R.Makes m m' bs ∧ part.Fresh m'.host.cells frame id bs) m := by
  cases part with
  | node v => exact after_create hR v h hf
  | whole vs =>
    refine (after_createAll hR vs h hf).bind ?_
    rintro ids m₁ ⟨cs, hmakes, hfresh⟩
    refine (after_newCell_makes hR hmakes.next.fine (hR.fits_later hmakes.next.later hf)).mono ?_
    rintro id m₂ ⟨hmakes', hcell⟩
    have happend := hmakes.append hR hmakes' hfresh.lt
    refine ⟨id :: cs, ⟨happend.next, happend.cells, ?_, fun i hi => happend.new i ?_⟩, ids, cs, rfl,
      hcell, hfresh.congr fun i hi => ?_⟩
    · exact (List.perm_append_singleton id cs).nodup_iff.1 happend.nodup
    · exact (List.perm_append_singleton id cs).mem_iff.2 hi
    · exact (hmakes'.moves (N := fun _ => False) (B := fun _ => False)).block i (hfresh.lt i hi)
        not_false

/-- A part that is mounted shows its view. -/
theorem after_mountPart (hR : R.Lawful) {part : Part} (hplain : part.Plain)
    (hev : part.Every R.Reads R.Attr locals) (h : R.Fine m) (hf : R.Fits m frame)
    (hcov : frame.Covers locals) (hst : R.Known m st) (hfresh : part.Fresh m.host.cells frame id bs)
    (hnodup : bs.Nodup) (hp : Placed m.host p y pre [] post) :
    Run.After R.stops (part.mount s st id p post.head?)
      (fun _ m' => ∃ ts, R.Turns p y pre post bs m [] m' ts ∧
        R.Stands st frame id m'.host ts part) m := by
  cases part with
  | node v =>
    refine (after_mount hR v hplain hev h hf hcov hst hfresh hnodup hp).mono ?_
    rintro _ m' ⟨t, hturns, hid, hshows⟩
    exact ⟨[t], hturns, t, rfl, hid, hshows⟩
  | whole vs =>
    obtain ⟨ids, cs, rfl, hcell, hkids⟩ := hfresh
    rw [List.nodup_cons] at hnodup
    show Run.After R.stops (getCell id >>= _) _ m
    rw [Run.after_bind, after_getCell, getD_of_getElem? hcell]
    refine (after_onBlock (f := fun c => { c with mounted := true }) hR h hcell
      fun _ => rfl).bind ?_
    rintro _ m₁ ⟨hnext₁, hmoves₁, -, hcell₁⟩
    have hlater := hnext₁.later
    have hfresh₁ : freshAll m₁.host.cells frame vs ids cs := by
      refine hkids.congr fun i hi => hmoves₁.block i (hkids.lt i hi) ?_
      rintro rfl
      exact hnodup.1 hi
    have hid : id < m₁.host.cells.size := (Array.getElem?_eq_some_iff.1 hcell₁).1
    refine (after_mountAll hR vs hplain hev hnext₁.fine (hR.fits_later hlater hf) hcov
      (hR.known_later hlater hst) hfresh₁ hnodup.2 (hp.moves hmoves₁ not_false)).mono ?_
    rintro _ m₂ ⟨ts, h₂, hids, hshows⟩
    have h₁ : R.Turns p y pre post (id :: cs) m [] m₁ [] := by
      refine ⟨hnext₁, hmoves₁.mono (fun _ _ hk => hk.elim) ?_, hp.moves hmoves₁ not_false,
        fun _ hk => absurd hk List.not_mem_nil, fun _ hk => absurd hk List.not_mem_nil⟩
      rintro i _ rfl
      exact Or.inr List.mem_cons_self
    refine ⟨ts, h₁.trans hR h₂ fun i hi => Or.inr (Or.inl (List.mem_cons_of_mem _ hi)),
      ⟨{ frame, children := ids, mounted := true }, ?_, rfl, rfl, hids.symm⟩, ?_, hshows⟩
    · refine (h₂.becomes.moves.block id hid ?_).trans hcell₁
      rintro (hmem | hmem)
      · exact absurd hmem List.not_mem_nil
      · exact hnodup.1 hmem
    · intro hmem
      rcases h₂.becomes.blocks id hmem with hmem | hmem | hmem
      · exact absurd hmem List.not_mem_nil
      · exact hnodup.1 hmem
      · exact absurd hid (Nat.not_lt.2 hmem)

/-- A part that is patched shows its view in the new state. -/
theorem after_patchPart (hR : R.Lawful) (hT : R.Tracks) (htells : Tells s dirty st st')
    {part : Part} (hplain : part.Plain) (hev : part.Every R.Reads R.Attr locals) (h : R.Fine m)
    (hcov : frame.Covers locals) (hst : R.Known m st) (hst' : R.Known m st')
    (hstands : R.Stands st frame id m.host ts part) (hp : Placed m.host p y pre ts post) :
    Run.After R.stops (part.patch s dirty st' id)
      (fun _ m' => ∃ ts', R.Turns p y pre post [] m ts m' ts' ∧
        R.Stands st' frame id m'.host ts' part) m := by
  cases part with
  | node v =>
    obtain ⟨t, rfl, rfl, hshows⟩ := hstands
    refine (after_patch hR hT htells v hplain hev h hcov hst hst' hshows hp).mono ?_
    rintro _ m' ⟨t', hturns, hid, hshows'⟩
    exact ⟨[t'], hturns, t', rfl, hid, hshows'⟩
  | whole vs =>
    obtain ⟨⟨cell, hcell, halive, hmounted, hids⟩, hout, hshows⟩ := hstands
    have hid : id < m.host.cells.size := (Array.getElem?_eq_some_iff.1 hcell).1
    show Run.After R.stops (getCell id >>= _) _ m
    rw [Run.after_bind, after_getCell, getD_of_getElem? hcell, halive, hmounted, hids]
    refine (after_patchAll hR hT htells vs hplain hev h hcov hst hst' hshows hp).mono ?_
    rintro _ m' ⟨ts', hturns, hids', hshows'⟩
    refine ⟨ts', hturns, ⟨cell, ?_, halive, hmounted, hids.trans hids'.symm⟩, ?_, hshows'⟩
    · refine (hturns.becomes.moves.block id hid ?_).trans hcell
      rintro (hmem | hmem)
      · exact hout hmem
      · exact absurd hmem List.not_mem_nil
    · intro hmem
      rcases hturns.becomes.blocks id hmem with hmem | hmem | hmem
      · exact hout hmem
      · exact absurd hmem List.not_mem_nil
      · exact absurd hid (Nat.not_lt.2 hmem)

/-- Two parts that show one view in one state have markup that is alike. -/
theorem alike_of_stands (hR : R.Lawful) {r : List (Text × Text) → List (Text × Text) → Prop}
    (hr : R.Matches st r) {part : Part} {f f' : Frame} {id id' : BlockId} {w w' : Stage σ}
    {ts ts' : List Tree} (hff : R.faces f = R.faces f') (h : R.Stands st f id w ts part)
    (h' : R.Stands st f' id' w' ts' part) : Html.alikeAll r (htmlAll ts) (htmlAll ts') := by
  cases part with
  | node v =>
    obtain ⟨t, rfl, -, ht⟩ := h
    obtain ⟨t', rfl, -, ht'⟩ := h'
    have hone : ∀ t : Tree, htmlAll [t] = t.html := fun t => List.append_nil _
    rw [hone, hone]
    exact alike_of_shows hR hr v hff ht ht'
  | whole vs => exact alike_of_showsAll hR hr vs hff h.2.2 h'.2.2

end Reading

end Reactive.Block
