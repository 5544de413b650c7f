/-
Between two updates nothing is left to do.

A flush goes on until no key is listed as changed, and then no bit is dirty
either.  So outside its batches a component is at rest, whatever was done with
it before.

* `Setting.Marks` — what the evaluations of a flush keep;
* `Setting.after_passes` — where a flush ends;
* `Setting.atRest_of_run` — every run ends at rest.
-/
import Reactive.Proofs.Component.Keeps

namespace Reactive

/-- Every dirty bit is that of a key that is listed as changed; at least, without such keys no bit is
dirty. -/
def Component.Marked (c : Component) : Prop := c.changed = [] → c.dirty = 0

/-- No batch is open, no key is listed as changed, and no bit is dirty. -/
structure Component.AtRest (c : Component) : Prop where
  depth : c.depth = 0
  changed : c.changed = []
  dirty : c.dirty = 0

namespace Setting

variable {s : Setting} {m m' m'' : Machine World}

/-! ### Flushes -/

/-- A change that opens no batch and closes none. -/
def SameDepth (m m' : Machine World) : Prop := m'.host.own.depth = m.host.own.depth

/-- A change that opens no batch and closes none, and marks keys properly. -/
structure Marks (m m' : Machine World) : Prop where
  depth : m'.host.own.depth = m.host.own.depth
  marked : m.host.own.Marked → m'.host.own.Marked

theorem Marks.of_own (h : m'.host.own = m.host.own) : Marks m m' := by
  constructor <;> rw [h]
  exact id

theorem Marks.trans (h : Marks m m') (h' : Marks m' m'') : Marks m m'' :=
  ⟨h'.depth.trans h.depth, fun hm => h'.marked (h.marked hm)⟩

/-- A key that is marked is listed as changed. -/
theorem marked_marked (m : Machine World) (bits : Bits) (name : Text) (v : Value) :
    (m.marked bits name v).host.own.Marked :=
  fun h => absurd h (by simp [Machine.marked, Component.mark])

theorem settling_allows_sameDepth (s : Setting) : s.settling.Allows Halt.Any SameDepth where
  fuel := trivial
  same h := congrArg (fun w : World => w.own.depth) h
  trans h h' := h'.trans h
  write := keeping_storeKey (K := SameDepth) (fun _ => rfl) (fun _ _ _ _ => rfl)
    (fun h h' => Eq.trans h' h) fun _ => rfl

theorem settling_allows_marks (s : Setting) : s.settling.Allows Halt.Any Marks where
  fuel := trivial
  same h := .of_own (congrArg _ h)
  trans := .trans
  write := keeping_storeKey (fun _ => .of_own rfl)
    (fun _ _ _ _ => ⟨rfl, fun _ => marked_marked _ _ _ _⟩) .trans fun _ => .of_own rfl

/-- The view brought up to date with a mask, which is told to the trace. -/
def render (s : Setting) (dirty : Mask) (root : Option Block.BlockId) : Run World Unit := do
  s.tracing.write s.definition.tag (Tracing.flush dirty (s.definition.bits.names dirty))
  match root with
  | none => pure ()
  | some root =>
    if dirty != 0 then
      s.definition.part.patch (s.site s.settling) dirty (← Block.getOwn).snapshot root

/-- A pass: the derived values first, then the view. -/
theorem pass_eq (s : Setting) : s.pass = (do
    let c ← Block.getOwn
    Block.modifyOwn fun c => { c with changed := [] }
    let derived ← s.recompute s.settling (some c.changed)
    let c' ← Block.getOwn
    Block.modifyOwn fun c => { c with dirty := 0 }
    s.render (c'.dirty ||| s.definition.bits.mask derived) c'.root) := rfl

/-- The view is brought up to date: what evaluations keep is kept by this. -/
theorem keeping_render {K : Machine World → Machine World → Prop}
    (hc : (s.site s.settling).Confines Halt.Any K) (dirty : Mask) (root : Option Block.BlockId) :
    Keeping Halt.Any K (s.render dirty root) := by
  refine hc.seq (hc.trace _ _ _) fun _ => ?_
  cases root with
  | none => exact hc.ret ()
  | some root =>
    dsimp only
    split
    · exact hc.seq hc.getOwn fun c => hc.keeping_patchPart _ _ _ _
    · exact hc.ret ()

section

variable (hs : s.definition.Sound)

include hs

theorem settling_confines_sameDepth : (s.site s.settling).Confines Halt.Any SameDepth :=
  confines hs s.settling_allows_sameDepth fun h => congrArg Component.depth h

theorem settling_confines_marks : (s.site s.settling).Confines Halt.Any Marks :=
  confines hs s.settling_allows_marks .of_own

/-- After a pass the keys are marked properly. -/
theorem after_pass (m : Machine World) :
    Run.After Halt.Any s.pass (fun _ m' => SameDepth m m' ∧ m'.host.own.Marked) m := by
  have hd := settling_confines_sameDepth hs
  have hrecompute : ∀ seed, Keeping Halt.Any SameDepth (s.recompute s.settling seed) :=
    keeping_recompute (hd.permits fun _ => True) fun x _ m m' r hrun => by
      have hsame : SameDepth m m' := (keeping_outcome hs s.settling_allows_sameDepth _ _ _ m).of_ok hrun
      exact ⟨hsame, fun _ _ => hsame⟩
  rw [pass_eq]
  refine (hd.getOwn m).bind fun c m₁ h₁ => ?_
  have hclear : Keeping Halt.Any SameDepth
      (Block.modifyOwn fun c => { c with changed := [] } : Run World Unit) := fun _ => rfl
  refine (hclear m₁).bind fun _ m₂ h₂ => (hrecompute _ m₂).bind fun derived m₃ h₃ => ?_
  refine (hd.getOwn m₃).bind fun c' m₄ h₄ => ?_
  -- from where no bit is dirty on, keys are marked properly
  have hclean : Run.After Halt.Any (Block.modifyOwn fun c => { c with dirty := 0 } : Run World Unit)
      (fun _ m' => SameDepth m₄ m' ∧ m'.host.own.Marked) m₄ := ⟨rfl, fun _ => rfl⟩
  refine hclean.bind fun _ m₅ h₅ => (keeping_render (settling_confines_marks hs) _ _ m₅).mono fun _ m₆ h₆ => ?_
  exact ⟨hd.trans h₁ (hd.trans h₂ (hd.trans h₃ (hd.trans h₄ (hd.trans h₅.1 h₆.depth)))),
    h₆.marked h₅.2⟩

/-- Passes end when no key is listed as changed. -/
theorem after_passes (n : Nat) : ∀ m, Run.After Halt.Any (s.passes n) (fun _ m' =>
    Marks m m' ∧ m'.host.own.changed = []) m := by
  have hc := settling_confines_marks hs
  have hdone : ∀ {m : Machine World}, m.host.own.changed.isEmpty = true →
      m.host.own.changed = [] := fun h => List.isEmpty_iff.1 h
  induction n with
  | zero =>
    intro m
    unfold passes
    rw [Block.after_bindOwn]
    split
    · exact ⟨.of_own rfl, hdone ‹_›⟩
    · exact ⟨⟨rfl, fun _ _ => rfl⟩, rfl⟩
  | succ n ih =>
    intro m
    unfold passes
    rw [Block.after_bindOwn]
    split
    · exact ⟨.of_own rfl, hdone ‹_›⟩
    · refine (after_pass hs m).bind fun _ m₁ h₁ => (ih m₁).mono fun _ m₂ h₂ => ?_
      exact ⟨⟨h₂.1.depth.trans h₁.1, fun _ => h₂.1.marked h₁.2⟩, h₂.2⟩

end

/-! ### Outside flushes -/

/-- A change that opens no batch and closes none, marks keys properly, and outside batches leaves no
key listed as changed that was not. -/
structure Rests (m m' : Machine World) : Prop extends Marks m m' where
  rest : m.host.own.depth = 0 → m.host.own.changed = [] → m'.host.own.changed = []

theorem Rests.of_own (h : m'.host.own = m.host.own) : Rests m m' :=
  ⟨.of_own h, fun _ hm => by rw [h, hm]⟩

theorem Rests.trans (h : Rests m m') (h' : Rests m' m'') : Rests m m'' :=
  ⟨h.toMarks.trans h'.toMarks, fun hd hm => h'.rest (h.depth.trans hd) (h.rest hd hm)⟩

section

variable (hs : s.definition.Sound)

include hs

/-- Outside batches nothing is listed as changed after the flush. -/
theorem after_flushOutside (m : Machine World) : Run.After Halt.Any s.flushOutside (fun _ m' =>
    Marks m m' ∧ (m.host.own.depth = 0 → m'.host.own.changed = [])) m := by
  unfold flushOutside
  rw [Block.after_bindOwn]
  split
  · exact (after_passes hs maxPasses m).mono fun _ _ h => ⟨h.1, fun _ => h.2⟩
  · exact ⟨.of_own rfl, fun h => absurd h ‹_›⟩

theorem live_allows_rests : s.live.Allows Halt.Any Rests where
  fuel := trivial
  same h := .of_own (congrArg _ h)
  trans := .trans
  write name v m := after_storeKey (P := Rests m) name v (.of_own rfl) fun _ _ _ _ =>
    (after_flushOutside hs _).mono fun _ _ h =>
      ⟨⟨h.1.depth, fun _ => h.1.marked (marked_marked _ _ _ _)⟩, fun hd _ => h.2 hd⟩

theorem live_confines_rests : (s.site s.live).Confines Halt.Any Rests :=
  confines hs (live_allows_rests hs) .of_own

theorem keeping_batch_rests {α : Type} {x : Run World α} (hx : Keeping Halt.Any Rests x) :
    Keeping Halt.Any Rests (s.batch x) := by
  intro m
  have hopen : Run.After Halt.Any (Block.modifyOwn fun c => { c with depth := c.depth + 1 })
      (fun _ m₁ => m₁.host.own.depth = m.host.own.depth + 1 ∧
        (m.host.own.Marked → m₁.host.own.Marked)) m := ⟨rfl, id⟩
  refine hopen.bind fun _ m₁ h₁ => (hx m₁).bind fun a m₂ h₂ => ?_
  have hclose : Run.After Halt.Any (Block.modifyOwn fun c => { c with depth := c.depth - 1 })
      (fun _ m₃ => Marks m m₃) m₂ := by
    refine ⟨?_, fun h => h₂.marked (h₁.2 h)⟩
    show m₂.host.own.depth - 1 = m.host.own.depth
    rw [h₂.depth, h₁.1, Nat.add_sub_cancel]
  refine hclose.bind fun _ m₃ h₃ => (after_flushOutside hs m₃).bind fun _ m₄ h₄ => ?_
  exact ⟨h₃.trans h₄.1, fun hd _ => h₄.2 (h₃.depth.trans hd)⟩

/-- Whatever is done with a component leaves it at rest. -/
theorem rests_tolerates : s.Tolerates Rests where
  live := live_allows_rests hs
  confines := live_confines_rests hs
  shown _ _ _ := ⟨⟨rfl, id⟩, fun _ h => h⟩
  batch := keeping_batch_rests hs

theorem rests_founds : s.Founds Rests where
  live := live_allows_rests hs
  confines := live_confines_rests hs
  put _ _ _ _ := ⟨⟨rfl, id⟩, fun _ h => h⟩
  methods _ _ := ⟨⟨rfl, id⟩, fun _ h => h⟩

/-- Every run ends at rest, from the creation of the component on. -/
theorem atRest_of_run {given : Dict Value} {logs : List LogEntry} {m₀ : Machine World}
    {r : Except ComponentError Unit} (hnew : (s.create given).run (s.start logs) = .ok (r, m₀))
    {ops : List Operation} (hrun : s.performAll ops m₀ = .ok ((), m)) : m.host.own.AtRest := by
  have hcreated : Rests (s.start logs) m₀ :=
    ((rests_founds hs).keeping_create hs given (s.start logs)).of_ok hnew
  have hrests := hcreated.trans (((rests_tolerates hs).keeping_performAll ops m₀).of_ok hrun)
  have hchanged := hrests.rest rfl rfl
  exact ⟨hrests.depth, hchanged, hrests.marked (fun _ => rfl) hchanged⟩

end

end Setting

end Reactive
