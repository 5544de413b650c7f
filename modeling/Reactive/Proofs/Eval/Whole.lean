/-
Machines that hold only what was made.

The functions inside values were made at some time, and those of the source
close over scopes that are there.  An evaluation keeps this up, if the writes of
its host do, and so what it answers was made as well.  The proof runs the
evaluation beside itself.

* `Machine.Whole` — a machine that holds only what was made;
* `Host.Tends` — a host whose writes keep that up, and something else;
* `Host.Tends.after_eval`, `Host.Tends.after_call` — what evaluations keep up;
* `Host.Tends.after_outcomeIn` — the same for an expression in a frame.
-/
import Reactive.Proofs.Block.Outcome
import Reactive.Proofs.Eval.Pair

namespace Reactive

variable {ω σ α : Type}

/-! ### Calls that are refused -/

namespace Twin

variable {T : Twin ω}

/-- Calls go the same way if both runs refuse the same functions, the inert ones among them. -/
theorem calls_callUnless (hlaw : T.Lawful) {refused₁ refused₂ : Machine ω → Func → Bool}
    (hsame : ∀ m₁ m₂ f, T.Rel m₁ m₂ → T.Knows m₁ (.func f) →
      refused₂ m₂ (f.shift T.shift) = refused₁ m₁ f)
    (hinert : ∀ m f, T.inert f → refused₁ m f = true) (depth : Nat) :
    T.Calls (callUnless T.first refused₁ depth) (callUnless T.second refused₂ depth) := by
  induction depth with
  | zero =>
    intro m₁ m₂ f args h _ _
    exact Or.inr rfl
  | succ depth ih =>
    intro m₁ m₂ f args h hf hargs
    have hrun : ∀ (g : Host ω) (refused : Machine ω → Func → Bool) (f : Func) (args : List Value)
        (m : Machine ω), (callUnless g refused (depth + 1) f args).run m =
          (if refused m f then sure (halt .outOfRange)
            else callWith g (callUnless g refused depth) f args).run m := fun _ _ _ _ _ => rfl
    refine SimE.congr (hrun ..) (hrun ..) ?_
    rw [hsame m₁ m₂ f h hf]
    split
    · exact Or.inr rfl
    · rename_i hcalled
      exact sim_callWith hlaw ih h hf (fun hi => hcalled (hinert m₁ f hi)) hargs

end Twin

/-! ### Whole machines -/

/-- A function that was made; one of the source closes over a scope that is there. -/
abbrev Machine.Made (m : Machine ω) (f : Func) : Prop := m.Holds (· < m.scopes.size) f

/-- What surrounds a scope is an earlier one, or a store that holds only what was made. -/
def Machine.Leads (m : Machine ω) (i : Nat) : Outer → Prop
  | .scope p => p < i
  | .store (.snapshot values) => ∀ n v, values.get? n = some v → v.All m.Made
  | .store _ => True

/-- A machine whose scopes hold only what was made. -/
structure Machine.Whole (m : Machine ω) : Prop where
  outer : ∀ (i : Nat) (s : Scope), m.scopes[i]? = some s → m.Leads i s.outer
  vars : ∀ (i : Nat) (s : Scope), m.scopes[i]? = some s → ∀ p ∈ s.vars, p.2.All m.Made

section

variable {m m' : Machine ω}

/-- A machine with the same scopes and functions. -/
theorem Machine.Grows.of_same (hscopes : m'.scopes = m.scopes) (hfuncs : m'.funcs = m.funcs) :
    m.Grows m' := by
  refine ⟨by rw [hscopes], by rw [hfuncs], fun i s hs => ⟨s, ?_, rfl, fun _ hn => hn⟩⟩
  rw [hscopes]
  exact hs

theorem Machine.Grows.made (h : m.Grows m') {f : Func} (hf : m.Made f) : m'.Made f :=
  ⟨hf.1.imp_left fun hid => Nat.lt_of_lt_of_le hid h.funcs,
    fun params body scope hc => Nat.lt_of_lt_of_le (hf.2 params body scope hc) h.size⟩

theorem Machine.Grows.all (h : m.Grows m') {v : Value} (hv : v.All m.Made) : v.All m'.Made :=
  Value.All.mono (fun _ => h.made) hv

theorem Machine.Whole.congr (h : m.Whole) (hscopes : m'.scopes = m.scopes)
    (hfuncs : m'.funcs = m.funcs) : m'.Whole := by
  have hmade : m'.Made = m.Made := by
    funext f
    rw [Machine.Made, Machine.Made, Machine.Holds, Machine.Holds, hscopes, hfuncs]
  refine ⟨fun i s hs => ?_, fun i s hs => ?_⟩
  · have ho := h.outer i s (hscopes ▸ hs)
    cases hout : s.outer with
    | scope p => rwa [hout] at ho
    | store st =>
      cases st with
      | snapshot values =>
        rw [hout] at ho
        unfold Machine.Leads at ho ⊢
        rwa [hmade]
      | _ => trivial
  · rw [hmade]
    exact h.vars i s (hscopes ▸ hs)

end

/-! ### An evaluation beside itself -/

/-- What a program may do with a host: what it reads was made, and writes of what was made keep the
machine whole, and something else that is true of it. -/
structure Host.Tends (h : Host ω) (J : Machine ω → Prop) : Prop where
  stable : ∀ {m m' : Machine ω}, J m → m.Grows m' → m'.host = m.host → J m'
  read : ∀ {m : Machine ω}, J m → ∀ {n : Text} {v : Value}, h.read m.host n = some v → v.All m.Made
  write : ∀ {m : Machine ω}, m.Whole → J m → ∀ (name : Text) {v : Value}, v.All m.Made →
    Run.After Halt.Any (h.write name v).run (fun _ m' => m.Grows m' ∧ m'.Whole ∧ J m') m

/-- A run beside itself. -/
def Host.solo (h : Host ω) (J : Machine ω → Prop) : Twin ω where
  shift := ⟨0, 0, 0, 0⟩
  shared := fun _ => False
  agreed := fun _ => True
  inert := fun _ => False
  excused := fun _ => False
  reads := True
  writes := True
  alone := True
  hosts := fun _ a b => b = a ∧ J a
  first := h
  second := h

section

variable {h : Host ω} {J : Machine ω → Prop} {m : Machine ω}

@[simp] theorem shift_solo (v : Value) : v.shift (h.solo J).shift = v :=
  Value.shift_of_noGap rfl rfl v

theorem Machine.Whole.clear (hm : m.Whole) {i : Nat} (hi : i < m.scopes.size) (n : Text) :
    (h.solo J).Clear m i n := by
  -- what surrounds a scope is older, so the way out ends
  induction i using Nat.strongRecOn with
  | _ i ih =>
    have hs : m.scopes[i]? = some m.scopes[i] := Array.getElem?_eq_getElem hi
    have ho := hm.outer i _ hs
    cases hout : m.scopes[i].outer with
    | scope p =>
      rw [hout] at ho
      exact .outer hs hout (ih p ho (Nat.lt_trans ho hi))
    | store st => exact .root hs hout trivial

theorem Machine.Whole.knowsFunc (hm : m.Whole) {f : Func} (hf : m.Made f) :
    (h.solo J).KnowsFunc m f := by
  refine ⟨hf.1, fun _ _ _ hid => absurd hid (Nat.not_lt_zero _), fun params body scope hc => ?_⟩
  have hscope := hf.2 params body scope hc
  refine Or.inr ⟨Or.inl (Nat.zero_le _), hscope, fun hid => absurd hid (Nat.not_lt_zero _), ?_⟩
  exact Body.uses_any trivial body.hoisted fun n => Or.inr (hm.clear hscope n)

theorem Machine.Whole.knows (hm : m.Whole) {v : Value} (hv : v.All m.Made) :
    (h.solo J).Knows m v :=
  Value.All.mono (fun _ => hm.knowsFunc) hv

theorem made_of_knows {v : Value} (hv : (h.solo J).Knows m v) : v.All m.Made := by
  refine Value.All.mono (fun f hf => ⟨hf.made, fun params body scope hc => ?_⟩) hv
  rcases hf.closure params body scope hc with hi | ⟨-, hscope, -⟩
  · exact hi.elim
  · exact hscope

theorem map_snd_solo (vars : Dict Value) :
    (vars.map fun p => (p.1, p.2.shift (h.solo J).shift)) = vars := by
  simp only [shift_solo]
  exact List.map_id vars

theorem Machine.Whole.outers (hm : m.Whole) {i : Nat} {o : Outer} (ho : m.Leads i o) :
    (h.solo J).Outers m i o o := by
  cases o with
  | scope p => exact ⟨(Shift.scope_of_noGap rfl p).symm, Or.inl (Nat.zero_le _), ho⟩
  | store st =>
    cases st with
    | empty => trivial
    | snapshot values =>
      refine ⟨fun _ => rfl, fun n _ => ⟨?_, fun v hv => hm.knows (ho n v hv)⟩⟩
      cases values.get? n with
      | none => rfl
      | some v => exact congrArg some (shift_solo v).symm
    | host access =>
      exact ⟨rfl, trivial, fun _ => trivial, fun hi => absurd hi (Nat.not_lt_zero _)⟩

theorem Machine.Whole.rel (hm : m.Whole) (hJ : J m) : (h.solo J).Rel m m where
  size_le := Nat.zero_le _
  size_eq := rfl
  funcs_le := Nat.zero_le _
  funcs_eq := rfl
  hosts := ⟨rfl, hJ⟩
  scope := by
    intro i s _ hs
    have hlt : i < m.scopes.size := (Array.getElem?_eq_some_iff.1 hs).1
    refine ⟨s, by rw [Shift.scope_of_noGap rfl]; exact hs, ?_, rfl, ?_,
      fun p hp => hm.knows (hm.vars i s hs p hp)⟩
    · exact (map_snd_solo s.vars).symm
    · exact hm.outers (hm.outer i s hs)

theorem whole_of_rel {m₂ : Machine ω} (hrel : (h.solo J).Rel m m₂) : m₂ = m ∧ m.Whole ∧ J m := by
  obtain ⟨hsame, hJ⟩ := hrel.hosts
  refine ⟨hsame, ⟨fun i s hs => ?_, fun i s hs p hp => ?_⟩, hJ⟩
  · obtain ⟨s', hs', -, -, hout, -⟩ := hrel.scope i s (Or.inl (Nat.zero_le _)) hs
    cases ho : s.outer with
    | scope p => exact (hrel.scope_of_scope (Or.inl (Nat.zero_le _)) hs ho).choose_spec.2.2.2.2.2
    | store st =>
      cases st with
      | snapshot values =>
        rw [ho] at hout
        cases ho' : s'.outer with
        | scope q =>
          rw [ho'] at hout
          exact hout.elim
        | store st' =>
          rw [ho'] at hout
          cases st' with
          | snapshot values' => exact fun n v hv => made_of_knows ((hout.2 n (Or.inr trivial)).2 v hv)
          | _ => exact hout.elim
      | _ => trivial
  · obtain ⟨-, -, -, -, -, hknown⟩ := hrel.scope i s (Or.inl (Nat.zero_le _)) hs
    exact made_of_knows (hknown p hp)

/-- What a run beside itself keeps up. -/
theorem Twin.Sim.after_solo {g : α → α} {P : Machine ω → α → Prop} {x : Run ω α}
    (hx : (h.solo J).Sim g P x x m m) :
    Run.After Halt.Any x (fun a m' => m.Grows m' ∧ m'.Whole ∧ J m' ∧ P m' a) m := by
  unfold Twin.Sim at hx
  unfold Run.After
  split
  · rename_i a m' hrun
    rw [hrun] at hx
    obtain ⟨m₂, -, hrel, hgrow, ha⟩ := hx
    obtain ⟨-, hwhole, hJ⟩ := whole_of_rel hrel
    exact ⟨hgrow, hwhole, hJ, ha⟩
  · trivial

/-- A run that keeps this up goes the same way beside itself. -/
theorem Twin.Sim.of_after {g : α → α} {x : Run ω α} (hg : ∀ a, g a = a)
    (hx : Run.After Halt.Any x (fun _ m' => m.Grows m' ∧ m'.Whole ∧ J m') m) :
    (h.solo J).Sim g (fun _ _ => True) x x m m := by
  unfold Twin.Sim
  unfold Run.After at hx
  cases hrun : x m with
  | error e => exact Or.inr rfl
  | ok p =>
    obtain ⟨a, m'⟩ := p
    rw [hrun] at hx
    obtain ⟨hgrow, hwhole, hJ⟩ := hx
    exact ⟨m', congrArg (fun b => Except.ok (b, m')) (hg a).symm, hwhole.rel hJ, hgrow, trivial⟩

namespace Host.Tends

variable (ht : h.Tends J)

include ht

theorem lawful : (h.solo J).Lawful where
  stable := by
    rintro m₁ m₂ m₁' m₂' ⟨hsame, hJ⟩ hgrow hhost - halone
    exact ⟨halone trivial hsame, ht.stable hJ hgrow hhost⟩
  still _ := ⟨rfl, rfl⟩
  read := by
    intro _ m₁ m₂ hrel n _
    obtain ⟨rfl, hwhole, hJ⟩ := whole_of_rel hrel
    refine ⟨?_, fun v hv => hwhole.knows (ht.read hJ hv)⟩
    show h.read m₂.host n = (h.read m₂.host n).map _
    cases h.read m₂.host n with
    | none => rfl
    | some v => exact congrArg some (shift_solo v).symm
  write := by
    intro _ m₁ m₂ name v _ hrel hv
    obtain ⟨rfl, hwhole, hJ⟩ := whole_of_rel hrel
    rw [shift_solo]
    refine (Twin.Sim.of_after (g := Except.map id) (fun r => ?_)
      (ht.write hwhole hJ name (made_of_knows hv))).mono fun _ _ _ _ _ => trivial
    cases r <;> rfl

theorem callers (refused : Machine ω → Func → Bool) :
    (h.solo J).Callers (h.callerUnless refused) (h.callerUnless refused) where
  first := rfl
  second := rfl
  call := by
    refine Twin.calls_callUnless ht.lawful (fun m₁ m₂ f hrel _ => ?_) (fun _ _ hi => hi.elim) callDepth
    obtain ⟨rfl, -⟩ := whole_of_rel hrel
    rw [Value.func.inj (shift_solo (h := h) (J := J) (.func f))]

/-- Evaluations keep this up, and what they answer was made. -/
theorem after_eval (hm : m.Whole) (hJ : J m) (refused : Machine ω → Func → Bool) {env : Nat}
    (henv : env < m.scopes.size) (e : Expr) :
    Run.After Halt.Any (eval (h.callerUnless refused) env e).run (fun r m' =>
      m.Grows m' ∧ m'.Whole ∧ J m' ∧ ∀ v, r = .ok v → v.All m'.Made) m := by
  -- both runs of the twin are this run, so what it says about the second one says nothing new
  have hready : (h.solo J).Ready m m env := ⟨hm.rel hJ, Or.inl (Nat.zero_le _), henv⟩
  have hsim := Twin.sim_eval ht.lawful (ht.callers refused) hready
    (Expr.uses_any trivial e.hoisted fun n => hm.clear henv n)
  rw [Shift.scope_of_noGap rfl] at hsim
  refine (Twin.Sim.after_solo hsim).mono ?_
  rintro r m' ⟨hgrow, hwhole, hJ', hr⟩
  exact ⟨hgrow, hwhole, hJ', fun v hv => made_of_knows (hr v hv)⟩

/-- So do calls. -/
theorem after_call (hm : m.Whole) (hJ : J m) (refused : Machine ω → Func → Bool) {f : Func}
    (hf : f.All m.Made) {args : List Value} (hargs : ∀ v ∈ args, v.All m.Made) :
    Run.After Halt.Any ((h.callerUnless refused).call f args).run (fun r m' =>
      m.Grows m' ∧ m'.Whole ∧ J m' ∧ ∀ v, r = .ok v → v.All m'.Made) m := by
  have hsim := (ht.callers refused).call m m f args (hm.rel hJ) (hm.knows (v := .func f) hf)
    fun v hv => hm.knows (hargs v hv)
  rw [Value.func.inj (shift_solo (h := h) (J := J) (.func f)),
    List.map_congr_left fun v _ => shift_solo (h := h) (J := J) v, List.map_id'] at hsim
  refine (Twin.Sim.after_solo hsim).mono ?_
  rintro r m' ⟨hgrow, hwhole, hJ', hr⟩
  exact ⟨hgrow, hwhole, hJ', fun v hv => made_of_knows (hr v hv)⟩

/-- A new scope keeps the machine whole. -/
theorem after_newScope (hm : m.Whole) (hJ : J m) {outer : Outer} (ho : m.Leads m.scopes.size outer)
    {vars : Dict Value} (hvars : ∀ p ∈ vars, p.2.All m.Made) :
    Run.After Halt.Any (newScope outer vars) (fun i m' =>
      m.Grows m' ∧ m'.Whole ∧ J m' ∧ i < m'.scopes.size) m := by
  have hsim := Twin.sim_newScope ht.lawful (hm.rel hJ) (hm.outers ho) fun p hp => hm.knows (hvars p hp)
  rw [map_snd_solo] at hsim
  refine (Twin.Sim.after_solo hsim).mono ?_
  rintro i m' ⟨hgrow, hwhole, hJ', rfl, rfl⟩
  exact ⟨hgrow, hwhole, hJ', by simp⟩

end Host.Tends

end

/-! ### Expressions in frames -/

/-- A frame that holds only what was made. -/
def Block.Frame.Made {σ : Type} (m : Machine (Block.Stage σ)) (frame : Block.Frame) : Prop :=
  ∀ vars ∈ frame, ∀ p ∈ vars, p.2.All m.Made

theorem Block.Frame.Made.grow {σ : Type} {m m' : Machine (Block.Stage σ)} {frame : Block.Frame}
    (h : frame.Made m) (hgrow : m.Grows m') : frame.Made m' :=
  fun vars hv p hp => hgrow.all (h vars hv p hp)

namespace Host.Tends

open Block (Stage Frame frameScope outcomeIn)

variable {h : Host (Stage σ)} {J : Machine (Stage σ) → Prop} {m : Machine (Stage σ)}
  (ht : h.Tends J)

include ht

theorem after_frameScope (hm : m.Whole) (hJ : J m) {st : Store} (hst : m.Leads m.scopes.size (.store st))
    {frame : Frame} (hframe : frame.Made m) :
    Run.After Halt.Any (frameScope st frame) (fun i m' =>
      m.Grows m' ∧ m'.Whole ∧ J m' ∧ i < m'.scopes.size) m := by
  induction frame with
  | nil => exact ht.after_newScope hm hJ hst fun p hp => absurd hp List.not_mem_nil
  | cons vars outer ih =>
    obtain ⟨hvars, houter⟩ := List.forall_mem_cons.1 hframe
    refine (ih houter).bind ?_
    rintro i m' ⟨hgrow, hwhole, hJ', hi⟩
    have hlead : m'.Leads m'.scopes.size (.scope i) := hi
    refine (ht.after_newScope hwhole hJ' hlead fun p hp => hgrow.all (hvars p hp)).mono ?_
    rintro j m'' ⟨hgrow', hwhole', hJ'', hj⟩
    exact ⟨hgrow.trans hgrow', hwhole', hJ'', hj⟩

/-- An expression in a frame over a store keeps this up. -/
theorem after_outcomeIn (hm : m.Whole) (hJ : J m) (refused : Machine (Stage σ) → Func → Bool)
    {st : Store} (hst : m.Leads m.scopes.size (.store st)) {frame : Frame} (hframe : frame.Made m)
    (e : Expr) : Run.After Halt.Any (outcomeIn (h.callerUnless refused) st frame e) (fun r m' =>
      m.Grows m' ∧ m'.Whole ∧ J m' ∧ ∀ v, r = .ok v → v.All m'.Made) m := by
  refine (ht.after_frameScope hm hJ hst hframe).bind ?_
  rintro i m' ⟨hgrow, hwhole, hJ', hi⟩
  refine (ht.after_eval hwhole hJ' refused hi e).mono ?_
  rintro r m'' ⟨hgrow', hrest⟩
  exact ⟨hgrow.trans hgrow', hrest⟩

end Host.Tends

end Reactive
