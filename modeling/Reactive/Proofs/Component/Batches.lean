/-
Batches.

A batch of writes is one update.  While it is open the writes change the
component only; when the outermost batch ends, the view is patched once, with
the bits of all that changed, or not at all if nothing did.  In which order
different keys were written makes no difference.

* `Block.host_of_sealed` — an evaluation that calls no function over live state
  leaves the host alone;
* `Definition.writes_perm` — writes in another order;
* `Setting.flush_reordered` — an update does not look at the order of changes;
* `Setting.flush_settles` — an update that calls no function over live state is
  one pass;
* `Setting.batch_coalesces` — what a batch of writes does.
-/
import Mathlib
import Reactive.Block.Basic
import Reactive.Proofs.Block.Rerender
import Reactive.Proofs.Component.Protection
import Reactive.Proofs.Component.Rest
import Reactive.Proofs.Component.Writes
import Reactive.Proofs.Eval.Together

namespace Reactive

/-! ### Evaluations that cannot write to live state

A program writes to the live state of its host through a scope over that state.  A program over frozen
values, or over state that it may only read, has such a scope in its reach only through a function
that it is handed. -/

section

variable {ω σ : Type}

/-- Whether a function was made in a scope over live state that may be written. -/
def Machine.overLive (m : Machine ω) (f : Func) : Bool :=
  match f.code with
  | .closure _ _ scope =>
    match m.outermost scope with
    | some (.host .writable) => true
    | _ => false
  | _ => false

/-- The evaluator over a host, where functions made over live state cannot be called. -/
def Host.sealed (h : Host ω) : Caller ω := h.callerUnless Machine.overLive

/-- A store that programs cannot write to. -/
def Store.Closed (st : Store) : Prop := st ≠ .host .writable

/-- A run over closed stores that calls no function made over live state, and the run itself: both
leave the host as it is. -/
def Pair.held (h : Host ω) (m : Machine ω) : Pair ω where
  loose := False
  first := h
  second := h
  hosts a b := a = m.host ∧ b = m.host
  refused := Machine.overLive
  lax := Halt.Any
  base := m.scopes.size
  roots := m.outermost
  fits := Store.Closed

namespace Pair

variable {P : Pair ω} {h : Host ω} {m : Machine ω}

theorem held_refl (h : Host ω) (m : Machine ω) : (held h m).Rel m m where
  base_le := Nat.le_refl _
  size := rfl
  funcs := rfl
  logs := rfl
  scope _ _ _ := .refl _ _
  hosts := ⟨rfl, rfl⟩
  roots _ _ := rfl
  fresh i hi st hst := by
    rw [Machine.outermost, Array.getElem?_eq_none hi] at hst
    cases hst

theorem held_lawful (h : Host ω) (m : Machine ω) : (held h m).Lawful where
  read a b hab n := by
    obtain ⟨rfl, rfl⟩ := hab
    exact .refl _
  write hclosed := absurd rfl hclosed
  closure m₁ _ hrel f params body scope hcode hcalled hscope st hst := by
    rintro rfl
    have hlive : m₁.outermost scope = some (.host .writable) := (hrel.roots scope hscope).trans hst
    have hrefused : m₁.overLive f = true := by
      rw [Machine.overLive, hcode]
      dsimp only
      rw [hlive]
    rw [show m₁.overLive f = false from hcalled] at hrefused
    cases hrefused
  lists hloose := hloose.elim
  refused _ _ _ := trivial

/-- The scope of a frame over a store that fits. -/
theorem sim_frameScope {P : Pair (Block.Stage σ)} {st : Store} (hst : Stores P.loose st st)
    (hfits : P.fits st) (frame : Block.Frame) :
    P.Sim (fun i j => j = i ∧ P.Fits i) (Block.frameScope st frame) (Block.frameScope st frame) := by
  induction frame with
  | nil => exact sim_rootScope hst hfits
  | cons vars outer ih =>
    refine ih.bind fun i j hij => ?_
    obtain ⟨rfl, hi⟩ := hij
    exact sim_innerScope hi (.refl vars)

end Pair

/-- An expression over a closed store, evaluated without calling functions made over live state,
leaves the host alone. -/
theorem Block.host_of_sealed {h : Host (Stage σ)} {st : Store} (hst : st.Closed) {frame : Frame}
    {e : Expr} {m m' : Machine (Stage σ)} {r : Except EvalError Value}
    (hrun : outcomeIn h.sealed st frame e m = .ok (r, m')) : m'.host = m.host := by
  have hsame : Pair.Stores False st st := by
    cases st with
    | snapshot a => exact ⟨a, rfl, .refl a⟩
    | empty | host => rfl
  have hsim : (Pair.held h m).Sim (Outcomes (Value.Akin False)) (outcomeIn h.sealed st frame e)
      (outcomeIn h.caller st frame e) := by
    refine Pair.Sim.bind (Pair.sim_frameScope (P := Pair.held h m) hsame hst frame) fun i j hij => ?_
    obtain ⟨rfl, hi⟩ := hij
    exact Pair.SimE.attempt (Pair.sim_eval (Pair.held_lawful h m) hi e)
  have hanswer := hsim m m (Pair.held_refl h m)
  rw [hrun] at hanswer
  obtain ⟨_, _, _, hrel, _⟩ := hanswer
  exact hrel.hosts.1

end

/-! ### The order of writes -/

/-- Writes to different names, the first of which is there, in one order or the other. -/
theorem Dict.insert_comm {α : Type} {d : Dict α} {k n : Text} (hkn : k ≠ n) (hk : d.has k = true)
    (a b : α) : (d.insert k a).insert n b = (d.insert n b).insert k a := by
  induction d with
  | nil => cases hk
  | cons p r ih =>
    obtain ⟨j, v⟩ := p
    by_cases hj : j = k
    · simp [insert, hj, hkn]
    · by_cases hn : j = n
      · simp [insert, hn, hkn.symm]
      · have hr : has r k = true := by
          rw [has, get?, if_neg hj] at hk
          exact hk
        simp [insert, hj, hn, ih hr]

/-- A component with its changes listed in another order. -/
structure Component.Reordered (c c' : Component) : Prop where
  changed : c'.changed.Perm c.changed
  rest : c' = { c with changed := c'.changed }

namespace Component.Reordered

variable {c c' c'' : Component}

theorem refl (c : Component) : c.Reordered c := ⟨.refl _, rfl⟩

theorem trans (h : c.Reordered c') (h' : c'.Reordered c'') : c.Reordered c'' := by
  refine ⟨h'.changed.trans h.changed, ?_⟩
  rw [h'.rest, h.rest]

theorem changed_eq_nil (h : c.Reordered c') : c'.changed = [] ↔ c.changed = [] := by
  rw [← List.length_eq_zero_iff, h.changed.length_eq, List.length_eq_zero_iff]

end Component.Reordered

namespace Definition

variable (d : Definition) {c c' : Component}

theorem write_reordered (h : c.Reordered c') (p : Text × Value) :
    (d.write c p).Reordered (d.write c' p) := by
  obtain ⟨hchanged, hrest⟩ := h
  rw [hrest]
  unfold write
  rw [show d.takes { c with changed := c'.changed } p = d.takes c p from rfl]
  split
  · exact ⟨hchanged.append_right _, rfl⟩
  · exact ⟨hchanged, rfl⟩

theorem writes_reordered (ps : List (Text × Value)) (h : c.Reordered c') :
    (ps.foldl d.write c).Reordered (ps.foldl d.write c') := by
  induction ps generalizing c c' with
  | nil => exact h
  | cons p r ih => exact ih (d.write_reordered h p)

/-- A write to another key does not decide whether a write takes. -/
theorem takes_write {p q : Text × Value} (hpq : p.1 ≠ q.1) :
    d.takes (d.write c p) q = d.takes c q := by
  unfold write
  split
  · unfold takes
    rw [show ((c.put p.1 p.2).mark d.bits p.1).state.get? q.1 = c.state.get? q.1 by
      show (c.state.insert p.1 p.2).get? q.1 = _
      rw [Dict.get?_insert, if_neg hpq]]
  · rfl

/-- Writes to different keys, in one order or the other. -/
theorem write_comm (c : Component) {p q : Text × Value} (hpq : p.1 ≠ q.1) :
    (d.write (d.write c p) q).Reordered (d.write (d.write c q) p) := by
  rw [write, d.takes_write hpq, write.eq_1 d (d.write c q), d.takes_write hpq.symm]
  unfold write
  cases hp : d.takes c p with
  | false => exact .refl _
  | true =>
    cases hq : d.takes c q with
    | false => exact .refl _
    | true =>
      have hstate := Dict.insert_comm hpq (d.has_of_takes hp) p.2 q.2
      refine ⟨?_, ?_⟩
      · show (c.changed ++ [q.1] ++ [p.1]).Perm (c.changed ++ [p.1] ++ [q.1])
        rw [List.append_assoc, List.append_assoc]
        exact (List.Perm.swap ..).append_left _
      · simp only [if_true, Component.mark, Component.put, hstate]
        rw [UInt32.or_assoc, UInt32.or_comm (d.bits.bit q.1), ← UInt32.or_assoc]

/-- Writes to different keys in another order: all is the same but the order in which the keys are
listed. -/
theorem writes_perm {ps qs : List (Text × Value)} (hperm : ps.Perm qs)
    (hkeys : (ps.map Prod.fst).Nodup) (c : Component) :
    (ps.foldl d.write c).Reordered (qs.foldl d.write c) := by
  induction hperm generalizing c with
  | nil => exact .refl c
  | cons p _ ih => exact ih (List.nodup_cons.1 hkeys).2 _
  | swap p q r =>
    refine d.writes_reordered r (d.write_comm c ?_)
    rintro hpq
    exact (List.nodup_cons.1 hkeys).1 (hpq ▸ List.mem_cons_self ..)
  | trans h _ ih ih' => exact (ih hkeys c).trans (ih' ((h.map _).nodup_iff.1 hkeys) c)

end Definition

namespace Schedule

variable {ε : Type} {m : Type → Type} [Monad m]

/-- A recompute does not look at the order or the number of the names that are pending. -/
theorem refreshAll_congr (s : Schedule) (b : Board ε m) {names pending pending' : List Text}
    (h : ∀ n, n ∈ pending' ↔ n ∈ pending) :
    s.refreshAll b pending' names = s.refreshAll b pending names := by
  induction names generalizing pending pending' with
  | nil => rfl
  | cons n r ih =>
    have hmore : ∀ n', n' ∈ pending' ++ s.affected n ↔ n' ∈ pending ++ s.affected n := by
      simp [h]
    have hcontains : pending'.contains n = pending.contains n :=
      Bool.eq_iff_iff.2 (by simpa using h n)
    unfold refreshAll
    rw [hcontains]
    split
    · cases s.find? n with
      | none => exact ih h
      | some d =>
        dsimp only
        rw [ih h, ih hmore]
    · exact ih h

theorem recompute_congr (s : Schedule) (b : Board ε m) {keys keys' : List Text}
    (h : ∀ k, k ∈ keys' ↔ k ∈ keys) : s.recompute b (some keys') = s.recompute b (some keys) :=
  s.refreshAll_congr b fun n => by simp [h]

end Schedule

namespace Setting

variable {s : Setting} {m m' : Machine World} {c c' : Component}

/-! ### Updates and the order of changes -/

theorem pass_reordered (h : c.Reordered c') (m : Machine World) :
    s.pass (m.withOwn c') = s.pass (m.withOwn c) := by
  have hpass : ∀ c, s.pass (m.withOwn c) = (do
      let derived ← s.recompute s.settling (some c.changed)
      let c' ← Block.getOwn
      Block.modifyOwn fun c => { c with dirty := 0 }
      s.render (c'.dirty ||| s.definition.bits.mask derived) c'.root : Run World Unit)
        (m.withOwn { c with changed := [] }) := fun _ => rfl
  have hrecompute : s.recompute s.settling (some c'.changed) =
      s.recompute s.settling (some c.changed) :=
    s.definition.schedule.recompute_congr _ fun _ => h.changed.mem_iff
  rw [hpass, hpass, hrecompute, h.rest]

/-- Where nothing has changed there is nothing to do. -/
theorem passes_unchanged (h : m.host.own.changed = []) (n : Nat) : s.passes n m = .ok ((), m) := by
  have hempty : m.host.own.changed.isEmpty = true := by rw [h]; rfl
  cases n with
  | zero =>
    show (if m.host.own.changed.isEmpty then pure () else _ : Run World Unit) m = _
    rw [if_pos hempty]
    rfl
  | succ n =>
    show (if m.host.own.changed.isEmpty then pure () else _ : Run World Unit) m = _
    rw [if_pos hempty]
    rfl

/-- Where something has changed there is a pass. -/
theorem passes_changed (h : m.host.own.changed ≠ []) (n : Nat) :
    s.passes (n + 1) m = (s.pass >>= fun _ => s.passes n) m := by
  have hempty : m.host.own.changed.isEmpty = false := by simpa using h
  show (if m.host.own.changed.isEmpty then pure () else
    (s.pass >>= fun _ => s.passes n) : Run World Unit) m = _
  rw [hempty, if_neg Bool.false_ne_true]

/-- An update does not look at the order of changes. -/
theorem flush_reordered (h : c.Reordered c') (m : Machine World) :
    s.flush (m.withOwn c') = s.flush (m.withOwn c) := by
  by_cases hnone : c.changed = []
  · have hnone' := h.changed_eq_nil.2 hnone
    rw [h.rest, hnone', ← hnone]
  · have hsome : c'.changed ≠ [] := mt h.changed_eq_nil.1 hnone
    show s.passes (15 + 1) (m.withOwn c') = s.passes (15 + 1) (m.withOwn c)
    rw [passes_changed hsome, passes_changed hnone, Run.bind_apply, Run.bind_apply,
      pass_reordered h]

/-! ### Updates that call no function over live state -/

/-- A component whose view and derived values are evaluated without calling functions made over live
state. -/
def sealed (s : Setting) : Setting :=
  { s with definition := { s.definition with outcome := fun h => Block.outcomeIn h.sealed } }

/-- The view is patched once. -/
def repaint (s : Setting) (root : Block.BlockId) (dirty : Mask) : Run World Unit := do
  s.tracing.write s.definition.tag (Tracing.flush dirty (s.definition.bits.names dirty))
  s.definition.part.patch (s.site s.settling) dirty (← Block.getOwn).snapshot root

/-- The bits of keys that changed and of derived values that did. -/
def dirtied (s : Setting) (changed derived : List Text) : Mask :=
  s.definition.bits.mask changed ||| s.definition.bits.mask derived

/-- An update as one pass: derived values first, then the view is patched once, with the bits of the
keys that changed and of the derived values that did. -/
def update (s : Setting) (changed : List Text) (root : Block.BlockId) : Run World Unit := do
  Block.modifyOwn fun c => { c with changed := [] }
  let derived ← s.recompute s.settling (some changed)
  Block.modifyOwn fun c => { c with dirty := 0 }
  s.repaint root (s.dirtied changed derived)

/-- An update calls no function made over live state: it goes the same way where such calls are
refused, while derived values are computed and while the view is patched. -/
structure CallsNoLive (s : Setting) (changed : List Text) (root : Block.BlockId)
    (m : Machine World) : Prop where
  derived : s.sealed.recompute s.settling (some changed) (m.withOwn { m.host.own with changed := [] }) =
    s.recompute s.settling (some changed) (m.withOwn { m.host.own with changed := [] })
  view : ∀ derived m', s.recompute s.settling (some changed)
      (m.withOwn { m.host.own with changed := [] }) = .ok (derived, m') →
    s.sealed.repaint root (s.dirtied changed derived) (m'.withOwn { m'.host.own with dirty := 0 }) =
      s.repaint root (s.dirtied changed derived) (m'.withOwn { m'.host.own with dirty := 0 })

/-- An evaluation that calls no function made over live state leaves the host alone. -/
theorem host_of_outcome {st : Store} (hst : st.Closed) {frame : Block.Frame} {e : Expr}
    {r : Except EvalError Value}
    (hrun : s.sealed.definition.outcome s.settling st frame e m = .ok (r, m')) :
    m'.host = m.host :=
  Block.host_of_sealed hst hrun

/-- A relation that the evaluations of a flush keep if they call no function made over live state: it
does not look at documents and blocks. -/
theorem sealed_confines {K : Machine World → Machine World → Prop}
    (hsame : ∀ {m m' : Machine World}, m'.host.own = m.host.own → K m m')
    (htrans : ∀ {m m' m'' : Machine World}, K m m' → K m' m'' → K m m'') :
    (s.sealed.site s.settling).Confines Halt.Any K where
  range := trivial
  same := hsame
  trans := htrans
  outcome state frame e m := by
    rw [Run.After]
    split
    · rename_i r m' hrun
      have hclosed : Store.Closed (.snapshot state) := fun h => by cases h
      exact hsame (congrArg Block.Stage.own (host_of_outcome hclosed hrun))
    · trivial

/-- A recompute that calls no function made over live state writes derived values and nothing
else. -/
theorem own_of_recompute {seed : Option (List Text)} {derived : List Text}
    (hrun : s.sealed.recompute s.settling seed m = .ok (derived, m')) :
    ∃ state, m'.host.own = { m.host.own with state } := by
  have hc : (s.sealed.site s.settling).Confines Halt.Any fun m m' =>
      ∃ state, m'.host.own = { m.host.own with state } :=
    sealed_confines (fun h => ⟨_, h⟩) fun ⟨_, h⟩ ⟨state, h'⟩ => ⟨state, by rw [h', h]⟩
  refine (keeping_recompute (hc.permits fun _ => True) (fun x _ m m' r hx => ?_) seed m).of_ok hrun
  have hclosed : Store.Closed (.host .derived) := nofun
  have hhost := host_of_outcome hclosed hx
  refine ⟨⟨_, congrArg Block.Stage.own hhost⟩, fun v _ => ⟨m'.host.own.state.insert x.name v, ?_⟩⟩
  show { m'.host.own with state := m'.host.own.state.insert x.name v } = _
  rw [hhost]

/-- A patch that calls no function made over live state leaves the component alone. -/
theorem own_of_repaint {root : Block.BlockId} {dirty : Mask}
    (hrun : s.sealed.repaint root dirty m = .ok ((), m')) : m'.host.own = m.host.own := by
  have hc : (s.sealed.site s.settling).Confines Halt.Any fun m m' =>
      m'.host.own = m.host.own :=
    sealed_confines id fun h h' => h'.trans h
  have hkeeps := hc.seq (hc.trace s.tracing s.definition.tag
      (Tracing.flush dirty (s.definition.bits.names dirty))) fun _ =>
    hc.seq hc.getOwn fun c => hc.keeping_patchPart s.definition.part dirty c.snapshot root
  exact (hkeeps m).of_ok hrun

/-- Where a bit is dirty the view is patched. -/
theorem render_of_dirty {dirty : Mask} (hdirty : dirty ≠ 0) (root : Block.BlockId) :
    s.render dirty (some root) = s.repaint root dirty := by
  have hbne : (dirty != 0) = true := bne_iff_ne.2 hdirty
  unfold render repaint
  simp only [hbne, if_true]

/-- An update that calls no function made over live state is one pass. -/
theorem flush_settles {root : Block.BlockId} (hchanged : m.host.own.changed ≠ [])
    (hdirty : m.host.own.dirty = s.definition.bits.mask m.host.own.changed)
    (hmask : s.definition.bits.mask m.host.own.changed ≠ 0) (hroot : m.host.own.root = some root)
    (hcalls : s.CallsNoLive m.host.own.changed root m) :
    s.flush m = s.update m.host.own.changed root m := by
  have hpass : s.pass m = (do
      let derived ← s.recompute s.settling (some m.host.own.changed)
      let c' ← Block.getOwn
      Block.modifyOwn fun c => { c with dirty := 0 }
      s.render (c'.dirty ||| s.definition.bits.mask derived) c'.root : Run World Unit)
        (m.withOwn { m.host.own with changed := [] }) := rfl
  have hupdate : s.update m.host.own.changed root m = (do
      let derived ← s.recompute s.settling (some m.host.own.changed)
      Block.modifyOwn fun c => { c with dirty := 0 }
      s.repaint root (s.dirtied m.host.own.changed derived) : Run World Unit)
        (m.withOwn { m.host.own with changed := [] }) := rfl
  show s.passes (15 + 1) m = _
  rw [passes_changed hchanged, Run.bind_apply, hpass, hupdate]
  cases hrun : s.recompute s.settling (some m.host.own.changed)
      (m.withOwn { m.host.own with changed := [] }) with
  | error e => rw [Run.bind_error hrun, Run.bind_error hrun]
  | ok p =>
    obtain ⟨derived, m₁⟩ := p
    rw [Run.bind_ok hrun, Run.bind_ok hrun]
    obtain ⟨state, hown⟩ := own_of_recompute (hcalls.derived.trans hrun)
    rw [Machine.own_withOwn] at hown
    let m₂ := m₁.withOwn { m₁.host.own with dirty := 0 }
    have hrender : s.render (m₁.host.own.dirty ||| s.definition.bits.mask derived)
        m₁.host.own.root = s.repaint root (s.dirtied m.host.own.changed derived) := by
      rw [hown, hroot, hdirty]
      exact render_of_dirty (fun h => hmask (UInt32.or_eq_zero_iff.1 h).1) root
    have hclean : ∀ f : Component → Component, (Block.modifyOwn f : Run World Unit) m₁ =
        .ok ((), m₁.withOwn (f m₁.host.own)) := fun _ => rfl
    rw [Run.bind_ok (show Block.getOwn m₁ = .ok (m₁.host.own, m₁) from rfl),
      Run.bind_ok (hclean _), Run.bind_ok (hclean _)]
    rw [hrender]
    cases hpaint : s.repaint root (s.dirtied m.host.own.changed derived) m₂ with
    | error e => rfl
    | ok q =>
      obtain ⟨_, m₃⟩ := q
      -- nothing is listed as changed after the patch, so there is no second pass
      have hkept := own_of_repaint ((hcalls.view derived m₁ hrun).trans hpaint)
      refine passes_unchanged ?_ 15
      rw [hkept, Machine.own_withOwn, hown]

/-! ### Masks of writes -/

end Setting

namespace Bits

/-- A key that has a bit shows in the mask of names among which it is. -/
theorem mask_ne_zero {bits : Bits} {names : List Text} {n : Text} (hn : n ∈ names)
    (hbit : bits.bit n ≠ 0) : bits.mask names ≠ 0 := by
  obtain ⟨i, hi⟩ := ne_zero_iff.1 hbit
  exact ne_zero_iff.2 ⟨i, hasPlace_mask.2 ⟨n, hn, hi⟩⟩

/-- Each of at most thirty-one keys has a bit. -/
theorem bit_ofNames_ne_zero {names : List Text} (hlen : names.length ≤ maxKeys) {n : Text}
    (hn : n ∈ names) : (ofNames names).bit n ≠ 0 := by
  have hrank : rank names n < maxKeys := (rank_lt_length hn).trans_le hlen
  exact ne_zero_iff.2 ⟨rank names n, hasPlace_bit_ofNames.2 ⟨⟨hn, hrank⟩, rfl⟩⟩

end Bits

namespace Definition

variable {d : Definition} {c : Component}

/-- Writes to a component at rest: the dirty bits are those of the keys that changed. -/
theorem dirty_of_writes (hrest : c.AtRest) (ps : List (Text × Value)) :
    (ps.foldl d.write c).dirty = d.bits.mask (ps.foldl d.write c).changed := by
  refine d.writes_induction (P := fun c' => c'.dirty = d.bits.mask c'.changed) ps ?_ ?_
  · rw [hrest.dirty, hrest.changed]
    rfl
  · intro c' name v _ h
    show c'.dirty ||| d.bits.bit name = d.bits.mask (c'.changed ++ [name])
    have hname : d.bits.mask [name] = d.bits.bit name := UInt32.zero_or
    rw [h, Bits.mask_append_eq_or, hname]

/-- The keys that writes change are keys of the component. -/
theorem changed_of_writes (hrest : c.AtRest) (hkeys : c.state.keys = d.keys)
    (ps : List (Text × Value)) : ∀ n ∈ (ps.foldl d.write c).changed, n ∈ d.keys := by
  refine (d.writes_induction (P := fun c' => c'.state.keys = d.keys ∧ ∀ n ∈ c'.changed, n ∈ d.keys)
    ps ⟨hkeys, ?_⟩ ?_).2
  · rw [hrest.changed]
    exact fun _ h => absurd h List.not_mem_nil
  · rintro c' name v hname ⟨hkeys', hchanged⟩
    refine ⟨?_, fun n hn => ?_⟩
    · show (c'.state.insert name v).keys = d.keys
      rw [Dict.keys_insert, if_pos hname, hkeys']
    · rcases List.mem_append.1 hn with h | h
      · exact hchanged n h
      · rw [List.mem_singleton.1 h, ← hkeys']
        exact Dict.has_iff_mem_keys.1 hname

end Definition

namespace Setting

variable {s : Setting} {m : Machine World}

/-! ### Batches of writes -/

/-- A batch of writes that is not inside another one: the writes, then the update. -/
theorem batch_writes (hdepth : m.host.own.depth = 0) {ops : List Operation}
    (hops : onlyWritesAll ops) : s.perform (.batch ops) m =
      s.flush (m.withOwn ((writesAll ops).foldl s.definition.write m.host.own)) := by
  have hopen : (m.withOwn (m.host.own.deep (m.host.own.depth + 1))).host.own.depth ≠ 0 :=
    Nat.succ_ne_zero _
  have hinside := performAll_inside (s := s) ops hops hopen
  rw [Machine.own_withOwn, Machine.withOwn_withOwn, Definition.writes_deep] at hinside
  have hclosed : ((writesAll ops).foldl s.definition.write m.host.own).depth = 0 := by
    rw [Definition.depth_writes, hdepth]
  show s.batch (s.performAll ops) m = _
  rw [batch_of_run hinside, Machine.own_withOwn, Machine.withOwn_withOwn, Component.deep_deep,
    Component.depth_deep, Nat.add_sub_cancel, ← Definition.depth_writes s.definition,
    Component.deep_depth]
  show (s.flushOutside >>= fun _ => pure ()) _ = _
  rw [bind_pure_unit]
  show (if Component.depth _ = 0 then s.flush else pure ()) _ = _
  rw [Machine.own_withOwn, if_pos hclosed]

/-- Batches coalesce, and the order of writes in them does not matter.  Of a mounted component with at
most thirty-one keys, whatever was done with it before: while a batch is open, writes change the
component only; a batch that changes nothing does nothing; a batch that changes keys is one update,
which patches the view once with their bits and those of the derived values that changed, unless
functions made over live state are called; and a batch with the same writes to different keys in
another order, however nested, does the same. -/
theorem batch_coalesces (hs : s.definition.Sound)
    (hkeys : s.definition.keys.length ≤ Bits.maxKeys) {given : Dict Value} {logs : List LogEntry}
    {m₀ : Machine World} (hnew : (s.create given).run (s.start logs) = .ok (.ok (), m₀))
    {prior : List Operation} (hrun : s.performAll prior m₀ = .ok ((), m)) {root : Block.BlockId}
    (hroot : m.host.own.root = some root) {ops : List Operation} (hops : onlyWritesAll ops) :
    (∀ (inner : List Operation) (m' : Machine World), onlyWritesAll inner →
      m'.host.own.depth ≠ 0 → s.performAll inner m' =
        .ok ((), m'.withOwn ((writesAll inner).foldl s.definition.write m'.host.own))) ∧
    (∀ c, c = (writesAll ops).foldl s.definition.write m.host.own →
      (c.changed = [] → s.perform (.batch ops) m = .ok ((), m)) ∧
      (c.changed ≠ [] → s.CallsNoLive c.changed root (m.withOwn c) →
        s.perform (.batch ops) m = s.update c.changed root (m.withOwn c))) ∧
    ∀ ops', onlyWritesAll ops' → (writesAll ops').Perm (writesAll ops) →
      ((writesAll ops).map Prod.fst).Nodup →
      s.perform (.batch ops') m = s.perform (.batch ops) m := by
  have hrest := atRest_of_run hs hnew hrun
  have hstate : m.host.own.state.keys = s.definition.keys :=
    (((steps_tolerates (contained hs)).keeping_performAll prior m₀).of_ok hrun).keys
      (keys_of_create hs hnew)
  refine ⟨fun inner m' hinner hopen => performAll_inside inner hinner hopen, ?_, ?_⟩
  · rintro c rfl
    rw [batch_writes hrest.depth hops]
    refine ⟨fun hnone => ?_, fun hsome hcalls => ?_⟩
    · rw [Definition.writes_of_changed _ _ hnone, Machine.withOwn_own]
      exact passes_unchanged hrest.changed _
    · obtain ⟨n, hn⟩ := List.exists_mem_of_ne_nil _ hsome
      refine flush_settles hsome (Definition.dirty_of_writes hrest _) ?_ ?_ hcalls
      · refine Bits.mask_ne_zero hn ?_
        rw [hs.bits]
        exact Bits.bit_ofNames_ne_zero hkeys (Definition.changed_of_writes hrest hstate _ n hn)
      · rw [Machine.own_withOwn, Definition.root_writes]
        exact hroot
  · intro ops' hops' hperm hnodup
    rw [batch_writes hrest.depth hops', batch_writes hrest.depth hops]
    exact flush_reordered (s.definition.writes_perm hperm.symm hnodup _) m

/-- A component that shows what it derives, and one of its props. -/
def ledger : Setting where
  definition :=
    { account with
      view := [.text 1 ⟨"total", .ident 0 "total", ["total"], []⟩,
        .text 2 ⟨"amount", .ident 0 "amount", ["amount"], []⟩] }

theorem sound_ledger : ledger.definition.Sound where
  schedule := sound_account.schedule
  bits := sound_account.bits
  outcome := rfl
  apart := sound_account.apart

theorem batch_coalesces_ledger : ∃ (m₀ m : Machine World) (c : Component),
    (ledger.create []).run (ledger.start []) = .ok (.ok (), m₀) ∧
    ledger.performAll [.mount none] m₀ = .ok ((), m) ∧ c.changed = ["amount"] ∧
    ledger.perform (.batch [.set "amount" (.int 4), .batch [.set "rate" (.int 1)]]) m =
      ledger.update c.changed 2 (m.withOwn c) ∧
    ledger.perform (.batch [.batch [.set "rate" (.int 1)], .set "amount" (.int 4)]) m =
      ledger.update c.changed 2 (m.withOwn c) := by
  let ops : List Operation := [.set "amount" (.int 4), .batch [.set "rate" (.int 1)]]
  let ops' : List Operation := [.batch [.set "rate" (.int 1)], .set "amount" (.int 4)]
  obtain ⟨m₀, m, c, hnew, hrun, hroot, hc, hchanged, hcalls⟩ : ∃ m₀ m c,
      (ledger.create []).run (ledger.start []) = .ok (.ok (), m₀) ∧
      ledger.performAll [.mount none] m₀ = .ok ((), m) ∧ m.host.own.root = some 2 ∧
      (writesAll ops).foldl ledger.definition.write m.host.own = c ∧ c.changed = ["amount"] ∧
      ledger.CallsNoLive c.changed 2 (m.withOwn c) := by
    -- each run is evaluated once, and what it gives is the machine that the next one starts on
    apply Exists.intro
    apply Exists.intro
    apply Exists.intro
    refine ⟨?_, ?_, ?_, ?_, ?_, ⟨?_, fun derived m' hderived => ?_⟩⟩
    · conv => lhs; cbv
    · conv => lhs; cbv
    · rfl
    · conv => lhs; cbv
    · rfl
    · cbv
    · conv at hderived => lhs; cbv
      cases hderived
      cbv
  have hops : onlyWritesAll ops := ⟨trivial, ⟨trivial, trivial⟩, trivial⟩
  have hops' : onlyWritesAll ops' := ⟨⟨trivial, trivial⟩, trivial, trivial⟩
  have hperm : (writesAll ops').Perm (writesAll ops) := .swap ..
  obtain ⟨-, hbatch, hreordered⟩ :=
    batch_coalesces sound_ledger (by decide) hnew hrun hroot hops
  have hupdate := (hbatch c hc.symm).2 (by rw [hchanged]; exact List.cons_ne_nil _ _) hcalls
  exact ⟨m₀, m, c, hnew, hrun, hchanged, hupdate,
    (hreordered ops' hops' hperm (by decide)).trans hupdate⟩

end Setting

end Reactive
