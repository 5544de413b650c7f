/-
Assignments, taken apart.

A target names a place: the name at its root and the steps from the value of
that name to the part that is written.  The index expressions of the target
are evaluated first, and after that the place is fixed (`Expr.place`).  A
write reads the root, walks along the steps, replaces the part at their end
and assigns the rebuilt root.

* `update_eq` — what an assignment does, step by step; each index expression
  runs once, before the root is read;
* `set_writes`, `step_writes` — plain assignments, increments and decrements
  go through their target once;
* `compound_writes` — so does a compound assignment, but it reads the root
  before its right side runs, and writes that root back: what the right side
  assigned to other parts of it is gone;
* `compound_keeps` — if the right side left the root as it was, nothing is
  lost;
* `shortCircuit_writes` — a short-circuit assignment that assigns goes through
  its target twice, so its index expressions run twice.
-/
import Reactive.Eval.Interp
import Reactive.Proofs.Run

namespace Reactive

variable {ω : Type}

/-! ### Parts of values -/

/-- A step from a value to a part of it. -/
inductive Value.Step where
  | member (name : Text)
  | item (key : Value)

namespace Value

/-- The property that a write would replace. -/
def propertyOf (v : Value) (name : Text) : Except EvalError Value :=
  match v with
  | .map es => .ok ((Dict.get? es name).getD .undefined)
  | .null | .undefined => .error (.writeOfNullish name v.text)
  | _ => .error (.writeOfOther name v.typeName)

/-- A value with one property replaced. -/
def withProperty (v : Value) (name : Text) (new : Value) : Value :=
  match v with
  | .map es => .map (Dict.insert es name new)
  | v => v

/-- The part that a write would replace. -/
def Step.part (v : Value) : Step → Except EvalError Value
  | .member name => v.propertyOf name
  | .item key =>
    match v with
    | .list vs =>
      match indexOf? key with
      | some i => .ok (Value.item vs i)
      | none => .error (.badIndex key.toText)
    | _ => v.propertyOf key.toText

/-- A value with one part replaced. -/
def Step.withPart (v new : Value) : Step → Value
  | .member name => v.withProperty name new
  | .item key =>
    match v with
    | .list vs =>
      match indexOf? key with
      | some i => .list (Value.setItem vs i new)
      | none => v
    | _ => v.withProperty key.toText new

/-- What stands at the end of some steps. -/
def partAt (v : Value) : List Step → Except EvalError Value
  | [] => .ok v
  | s :: r => do partAt (← s.part v) r

/-- A value with the part at the end of some steps replaced. -/
def withPartAt (v new : Value) : List Step → Value
  | [] => new
  | s :: r =>
    match s.part v with
    | .ok w => s.withPart v (withPartAt w new r)
    | .error _ => v

end Value

open Value (Step)

/-- A part of a value replaced by what `f` makes of it; also what `f` answers. -/
def Value.Step.replace (v : Value) (f : Value → Eval ω (Value × Value)) :
    Step → Eval ω (Value × Value)
  | .member name => setMember v name f
  | .item key => setItemAt v key f

/-- The part at the end of some steps replaced by what `f` makes of it. -/
def replaceAt (f : Value → Eval ω (Value × Value)) : List Step → Value → Eval ω (Value × Value)
  | [], v => f v
  | s :: r, v => s.replace v (replaceAt f r)

theorem setMember_eq (v : Value) (name : Text) (f : Value → Eval ω (Value × Value)) :
    setMember v name f = do
      let old ← ofOutcome (v.propertyOf name)
      let (new, answer) ← f old
      return (v.withProperty name new, answer) := by
  cases v <;> rfl

theorem Value.Step.replace_eq (v : Value) (f : Value → Eval ω (Value × Value)) (s : Step) :
    s.replace v f = do
      let old ← ofOutcome (s.part v)
      let (new, answer) ← f old
      return (s.withPart v new, answer) := by
  cases s with
  | member name => exact setMember_eq v name f
  | item key =>
    show setItemAt v key f = _
    unfold setItemAt Step.part Step.withPart
    cases v with
    | list vs =>
      dsimp only
      cases indexOf? key <;> rfl
    | _ =>
      dsimp only
      exact setMember_eq _ key.toText f

/-- Replacing the part at the end of some steps: the walk there, the replacement, the way back. -/
theorem replaceAt_eq (f : Value → Eval ω (Value × Value)) (path : List Step) (v : Value) :
    replaceAt f path v = do
      let old ← ofOutcome (v.partAt path)
      let (new, answer) ← f old
      return (v.withPartAt new path, answer) := by
  induction path generalizing v with
  | nil => exact (bind_pure _).symm
  | cons s r ih =>
    rw [replaceAt, s.replace_eq, Value.partAt]
    cases hpart : s.part v with
    | error e => rfl
    | ok w =>
      show (replaceAt f r w >>= _) = (ofOutcome (w.partAt r) >>= _)
      simp only [ih, bind_assoc, pure_bind, Value.withPartAt, hpart]

/-! ### Targets -/

/-- The place that a target names: the name at its root, and the steps from there, before the
steps that follow.  The outermost index expression is evaluated first. -/
def Expr.place (c : Caller ω) (env : Nat) : Expr → List Step → Eval ω (Text × List Step)
  | .ident _ name, path => return (name, path)
  | .member _ o name _, path => o.place c env (.member name :: path)
  | .index _ o k _, path => do
    let key ← eval c env k
    o.place c env (.item key :: path)
  | other, _ => throw (.badTarget other.text)

/-- The value that a write to a name starts from. -/
def Machine.root (c : Caller ω) (m : Machine ω) (env : Nat) (name : Text) : Value :=
  (m.lookup c.host env name).getD .undefined

theorem update_replaceAt (c : Caller ω) (env : Nat) (f : Value → Eval ω (Value × Value))
    (target : Expr) (path : List Step) :
    update c env target (replaceAt f path) = do
      let (name, path) ← target.place c env path
      let root := (← get).root c env name
      let (new, answer) ← replaceAt f path root
      assign c.host env name new
      return answer := by
  fun_induction Expr.place c env target path with
  | case1 p name path => rw [update, pure_bind]; rfl
  | case2 path p o name opt ih => rw [update, ← ih]; rfl
  | case3 path p o k opt ih =>
    rw [update, bind_assoc]
    refine bind_congr fun key => ?_
    rw [← ih key]
    rfl
  | case4 target path hident hmember hindex =>
    cases target with
    | ident p name => exact absurd rfl (hident p name)
    | member p o name opt => exact absurd rfl (hmember p o name opt)
    | index p o k opt => exact absurd rfl (hindex p o k opt)
    | _ => rfl

/-- **What an assignment does.**  The index expressions of the target run once each; then the root
is read, `f` says what to put in place of the part, and the root is assigned with that part
replaced. -/
theorem update_eq (c : Caller ω) (env : Nat) (target : Expr) (f : Value → Eval ω (Value × Value)) :
    update c env target f = do
      let (name, path) ← target.place c env []
      let root := (← get).root c env name
      let old ← ofOutcome (root.partAt path)
      let (new, answer) ← f old
      assign c.host env name (root.withPartAt new path)
      return answer := by
  have hwhole := update_replaceAt c env f target []
  simp only [replaceAt_eq, bind_assoc, pure_bind] at hwhole
  exact hwhole

/-! ### The kinds of assignments -/

@[simp] theorem answers_ofOutcome {α : Type} {m m' : Machine ω} (r : Except EvalError α) (a : α) :
    (ofOutcome r : Eval ω α).Answers m a m' ↔ r = .ok a ∧ m = m' := by
  cases r with
  | error e => simp [ofOutcome]
  | ok b => simp [ofOutcome]

section

variable {c : Caller ω} {env p : Nat} {t e : Expr} {op : BinaryOp} {a : Value} {m m' : Machine ω}

/-- What a successful assignment did. -/
theorem answers_update {f : Value → Eval ω (Value × Value)} :
    (update c env t f).Answers m a m' ↔ ∃ name path m₁ old new m₂,
      (t.place c env []).Answers m (name, path) m₁ ∧
      (m₁.root c env name).partAt path = .ok old ∧ (f old).Answers m₁ (new, a) m₂ ∧
      (assign c.host env name ((m₁.root c env name).withPartAt new path)).Answers m₂ () m' := by
  rw [update_eq]
  simp only [Eval.answers_bind, Eval.answers_get, answers_ofOutcome, Eval.answers_pure]
  constructor
  · rintro ⟨⟨name, path⟩, m₁, hplace, _, _, ⟨rfl, rfl⟩, old, _, ⟨hold, rfl⟩, ⟨new, _⟩, m₂, hf, _, _,
      hassign, rfl, rfl⟩
    exact ⟨name, path, m₁, old, new, m₂, hplace, hold, hf, hassign⟩
  · rintro ⟨name, path, m₁, old, new, m₂, hplace, hold, hf, hassign⟩
    exact ⟨(name, path), m₁, hplace, m₁, m₁, ⟨rfl, rfl⟩, old, m₁, ⟨hold, rfl⟩, (new, a), m₂, hf, (), m',
      hassign, rfl, rfl⟩

/-- A plain assignment evaluates its right side first, then its target, once. -/
theorem set_writes (h : (link c env (.assign p .set t e)).Answers m (some a) m') :
    ∃ m₁ name path m₂ old, (eval c env e).Answers m a m₁ ∧
      (t.place c env []).Answers m₁ (name, path) m₂ ∧
      (m₂.root c env name).partAt path = .ok old ∧
      (assign c.host env name ((m₂.root c env name).withPartAt a path)).Answers m₂ () m' := by
  simp only [link, Eval.answers_bind, Eval.answers_map, answers_update, Eval.answers_pure] at h
  obtain ⟨new, m₁, hvalue, _, ⟨name, path, m₂, old, _, _, hplace, hold, ⟨hnew, rfl⟩, hassign⟩,
    hanswer⟩ := h
  cases hnew
  cases hanswer
  exact ⟨m₁, name, path, m₂, old, hvalue, hplace, hold, hassign⟩

/-- **A compound assignment writes back the root as it was before its right side ran**, with the
part at the end of the path replaced by the result.  The target runs once. -/
theorem compound_writes (hop : op.isShortCircuit = false)
    (h : (link c env (.assign p (.update op) t e)).Answers m (some a) m') :
    ∃ name path m₁ old right m₂, (t.place c env []).Answers m (name, path) m₁ ∧
      (m₁.root c env name).partAt path = .ok old ∧ (eval c env e).Answers m₁ right m₂ ∧
      op.apply old right = .ok a ∧
      (assign c.host env name ((m₁.root c env name).withPartAt a path)).Answers m₂ () m' := by
  simp only [link, hop, Bool.false_eq_true, if_false, Eval.answers_bind, Eval.answers_map,
    answers_update, answers_ofOutcome, Eval.answers_pure] at h
  obtain ⟨_, ⟨name, path, m₁, old, _, _, hplace, hold, ⟨right, m₂, hright, new, _, ⟨hnew, rfl⟩,
    hpair, rfl⟩, hassign⟩, hanswer⟩ := h
  cases hpair
  cases hanswer
  exact ⟨name, path, m₁, old, right, m₂, hplace, hold, hright, hnew, hassign⟩

/-- **A compound assignment loses nothing if its right side leaves the root as it was**: then the
root that is written is the one that the right side left, with one part replaced. -/
theorem compound_keeps (hop : op.isShortCircuit = false)
    (h : (link c env (.assign p (.update op) t e)).Answers m (some a) m')
    (hroot : ∀ name path m₁ right m₂, (t.place c env []).Answers m (name, path) m₁ →
      (eval c env e).Answers m₁ right m₂ → path ≠ [] → m₂.root c env name = m₁.root c env name) :
    ∃ name path m₁ old right m₂, (t.place c env []).Answers m (name, path) m₁ ∧
      (m₁.root c env name).partAt path = .ok old ∧ (eval c env e).Answers m₁ right m₂ ∧
      op.apply old right = .ok a ∧
      (assign c.host env name ((m₂.root c env name).withPartAt a path)).Answers m₂ () m' := by
  obtain ⟨name, path, m₁, old, right, m₂, hplace, hold, hright, hnew, hassign⟩ :=
    compound_writes hop h
  refine ⟨name, path, m₁, old, right, m₂, hplace, hold, hright, hnew, ?_⟩
  by_cases hpath : path = []
  · -- nothing is kept of the root of a plain name
    subst hpath
    exact hassign
  · rwa [hroot name path m₁ right m₂ hplace hright hpath]

/-- An increment or a decrement evaluates its target once. -/
theorem step_writes {sop : StepOp} {before : Bool}
    (h : (link c env (.step p sop before t)).Answers m (some a) m') :
    ∃ name path m₁ old, (t.place c env []).Answers m (name, path) m₁ ∧
      (m₁.root c env name).partAt path = .ok old ∧
      a = (if before then (sop.apply old).2 else (sop.apply old).1) ∧
      (assign c.host env name
        ((m₁.root c env name).withPartAt (sop.apply old).2 path)).Answers m₁ () m' := by
  simp only [link, Eval.answers_map, answers_update, Eval.answers_pure] at h
  obtain ⟨_, ⟨name, path, m₁, old, _, _, hplace, hold, ⟨hpair, rfl⟩, hassign⟩, hanswer⟩ := h
  cases hpair
  cases hanswer
  exact ⟨name, path, m₁, old, hplace, hold, rfl, hassign⟩

/-- **A short-circuit assignment that assigns goes through its target twice**: to read it, and
again, after the right side ran, to find the place that is written. -/
theorem shortCircuit_writes (hop : op.isShortCircuit = true)
    (h : (link c env (.assign p (.update op) t e)).Answers m (some a) m') :
    ∃ old m₁, (eval c env t).Answers m old m₁ ∧
      (op.needsRight old = false ∧ a = old ∧ m₁ = m' ∨
        op.needsRight old = true ∧ ∃ m₂ name path m₃ overwritten, (eval c env e).Answers m₁ a m₂ ∧
          (t.place c env []).Answers m₂ (name, path) m₃ ∧
          (m₃.root c env name).partAt path = .ok overwritten ∧
          (assign c.host env name ((m₃.root c env name).withPartAt a path)).Answers m₃ () m') := by
  simp only [link, hop, if_true, Eval.answers_bind] at h
  obtain ⟨old, m₁, hread, h⟩ := h
  refine ⟨old, m₁, hread, ?_⟩
  by_cases hneeds : op.needsRight old = true
  · simp only [hneeds, if_true, Eval.answers_bind, Eval.answers_map, answers_update,
      Eval.answers_pure] at h
    obtain ⟨new, m₂, hright, _, ⟨name, path, m₃, overwritten, _, _, hplace, hold, ⟨hpair, rfl⟩,
      hassign⟩, hanswer⟩ := h
    cases hpair
    cases hanswer
    exact .inr ⟨hneeds, m₂, name, path, m₃, overwritten, hright, hplace, hold, hassign⟩
  · have hneeds : op.needsRight old = false := by simpa using hneeds
    simp only [hneeds, Bool.false_eq_true, if_false, Eval.answers_pure] at h
    obtain ⟨hanswer, hm⟩ := h
    exact .inl ⟨hneeds, (Option.some.inj hanswer).symm, hm⟩

end

end Reactive
