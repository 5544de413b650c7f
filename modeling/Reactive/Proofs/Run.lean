/-
Reasoning about runs.

`Run.After E x Q m` says what holds after `x` ran on the machine `m`: it
stopped without an answer for a reason that `E` allows, or it answered and
`Q` holds of the answer and of the machine then.  With no reason allowed
this is total correctness.

* `Run.After.bind`, `Run.after_pure`, … — a run is taken apart step by step;
* `Run.After.mono` — the use of what is known of a step;
* `Run.Follows` — a run that goes the way of another one, unless it is stopped;
* `Eval.Answers` — a computation that can fail, and what it answers.
-/
import Reactive.Eval.Interp

namespace Reactive

variable {ω α β : Type}

/-- No reason to stop is excluded. -/
abbrev Halt.Any : Halt → Prop := fun _ => True

namespace Run

theorem pure_apply (a : α) (m : Machine ω) : (pure a : Run ω α) m = .ok (a, m) := rfl

theorem bind_apply (x : Run ω α) (f : α → Run ω β) (m : Machine ω) :
    (x >>= f) m = match x m with
      | .ok (a, m') => f a m'
      | .error h => .error h := by
  show (x m >>= fun p => f p.1 p.2) = _
  cases x m with
  | error h => rfl
  | ok p => rfl

theorem map_apply (f : α → β) (x : Run ω α) (m : Machine ω) :
    (f <$> x) m = match x m with
      | .ok (a, m') => .ok (f a, m')
      | .error h => .error h := by
  rw [map_eq_pure_bind, bind_apply]
  rfl

theorem bind_ok {x : Run ω α} {f : α → Run ω β} {m m' : Machine ω} {a : α}
    (h : x m = .ok (a, m')) : (x >>= f) m = f a m' := by
  rw [bind_apply, h]

theorem bind_error {x : Run ω α} {f : α → Run ω β} {m : Machine ω} {e : Halt}
    (h : x m = .error e) : (x >>= f) m = .error e := by
  rw [bind_apply, h]

/-- What holds after a run: it stopped for an allowed reason, or it answered and `Q` holds. -/
def After (E : Halt → Prop) (x : Run ω α) (Q : α → Machine ω → Prop) (m : Machine ω) : Prop :=
  match x m with
  | .ok (a, m') => Q a m'
  | .error e => E e

variable {E : Halt → Prop} {m : Machine ω}

theorem after_of_ok {x : Run ω α} {Q : α → Machine ω → Prop} {a : α} {m' : Machine ω}
    (h : x m = .ok (a, m')) : After E x Q m ↔ Q a m' := by
  rw [After, h]

@[simp] theorem after_pure (a : α) (Q : α → Machine ω → Prop) :
    After E (pure a) Q m ↔ Q a m := Iff.rfl

@[simp] theorem after_bind (x : Run ω α) (f : α → Run ω β) (Q : β → Machine ω → Prop) :
    After E (x >>= f) Q m ↔ After E x (fun a => After E (f a) Q) m := by
  rw [After, bind_apply, After]
  cases x m with
  | error e => rfl
  | ok p => rfl

@[simp] theorem after_get (Q : Machine ω → Machine ω → Prop) :
    After E (get : Run ω (Machine ω)) Q m ↔ Q m m := Iff.rfl

@[simp] theorem after_set (m' : Machine ω) (Q : PUnit → Machine ω → Prop) :
    After E (set m' : Run ω PUnit) Q m ↔ Q ⟨⟩ m' := Iff.rfl

@[simp] theorem after_modify (f : Machine ω → Machine ω) (Q : PUnit → Machine ω → Prop) :
    After E (modify f : Run ω PUnit) Q m ↔ Q ⟨⟩ (f m) := Iff.rfl

@[simp] theorem after_map (g : α → β) (x : Run ω α) (Q : β → Machine ω → Prop) :
    After E (g <$> x) Q m ↔ After E x (fun a => Q (g a)) m := by
  rw [map_eq_pure_bind]
  exact after_bind x _ Q

/-- Weaker things hold after a run as well. -/
theorem After.mono {x : Run ω α} {Q Q' : α → Machine ω → Prop} (h : After E x Q m)
    (hQ : ∀ a m', Q a m' → Q' a m') : After E x Q' m := by
  unfold After at *
  split at h
  · exact hQ _ _ h
  · exact h

theorem After.bind {x : Run ω α} {f : α → Run ω β} {Q : α → Machine ω → Prop}
    {Q' : β → Machine ω → Prop} (h : After E x Q m)
    (hf : ∀ a m', Q a m' → After E (f a) Q' m') : After E (x >>= f) Q' m :=
  (after_bind x f Q').2 (h.mono hf)

/-- What holds after a run that answered. -/
theorem After.of_ok {x : Run ω α} {Q : α → Machine ω → Prop} {a : α} {m' : Machine ω}
    (h : After E x Q m) (hx : x m = .ok (a, m')) : Q a m' :=
  (after_of_ok hx).1 h

/-- Where no reason to stop is allowed, a run answers. -/
theorem After.exists_ok {x : Run ω α} {Q : α → Machine ω → Prop}
    (h : After (fun _ => False) x Q m) : ∃ a m', x m = .ok (a, m') ∧ Q a m' := by
  unfold After at h
  split at h
  · exact ⟨_, _, by assumption, h⟩
  · exact h.elim

/-- The run `y` goes the way of `x`, after which `Q` holds, unless it is stopped for a reason that
`stop` allows. -/
def Follows (stop : Halt → Prop) (x y : Run ω α) (Q : α → Machine ω → Prop) (m : Machine ω) :
    Prop :=
  (∃ e, stop e ∧ y m = .error e) ∨ y m = x m ∧ After Halt.Any x Q m

namespace Follows

variable {stop : Halt → Prop} {x y : Run ω α} {Q Q' : α → Machine ω → Prop}

theorem mono (h : Follows stop x y Q m) (hQ : ∀ a m', Q a m' → Q' a m') : Follows stop x y Q' m :=
  h.imp_right fun ⟨hrun, hafter⟩ => ⟨hrun, hafter.mono hQ⟩

theorem same (h : After Halt.Any x Q m) : Follows stop x x Q m := .inr ⟨rfl, h⟩

theorem bind {f g : α → Run ω β} {R : β → Machine ω → Prop} (h : Follows stop x y Q m)
    (hf : ∀ a m', Q a m' → Follows stop (f a) (g a) R m') :
    Follows stop (x >>= f) (y >>= g) R m := by
  rcases h with ⟨e, he, hy⟩ | ⟨hrun, hafter⟩
  · exact .inl ⟨e, he, bind_error hy⟩
  · cases hx : x m with
    -- Where the first step of `x` stops, that of `y` stops too, and neither goes on.
    | error e =>
      have hxf : (x >>= f) m = .error e := bind_error hx
      refine .inr ⟨(bind_error (hrun.trans hx)).trans hxf.symm, ?_⟩
      rw [After, hxf]
      trivial
    | ok p =>
      obtain ⟨a, m'⟩ := p
      have hrest := hf a m' (hafter.of_ok hx)
      unfold Follows After
      rw [bind_ok hx, bind_ok (hrun.trans hx)]
      exact hrest

/-- A run that nothing stops goes all the way of the run it follows. -/
theorem unstopped (h : Follows (fun _ => False) x y Q m) : y m = x m ∧ After Halt.Any x Q m :=
  h.resolve_left fun ⟨_, hstop, _⟩ => hstop

end Follows

end Run

namespace Eval

/-- A computation that answers: its answer and the machine then. -/
def Answers (x : Eval ω α) (m : Machine ω) (a : α) (m' : Machine ω) : Prop :=
  x.run m = .ok (.ok a, m')

variable {m m' : Machine ω} {b : β}

@[simp] theorem answers_pure (a a' : α) : Answers (pure a : Eval ω α) m a' m' ↔ a = a' ∧ m = m' := by
  show (Except.ok (Except.ok a, m) = Except.ok (Except.ok a', m')) ↔ _
  simp

@[simp] theorem answers_throw (e : EvalError) (a : α) :
    ¬ Answers (throw e : Eval ω α) m a m' := by
  show ¬ (Except.ok (Except.error e, m) = Except.ok (Except.ok a, m'))
  simp

@[simp] theorem answers_bind (x : Eval ω α) (f : α → Eval ω β) :
    Answers (x >>= f) m b m' ↔ ∃ a m₁, Answers x m a m₁ ∧ Answers (f a) m₁ b m' := by
  unfold Answers
  rw [ExceptT.run_bind, Run.bind_apply]
  rcases hx : x.run m with e | ⟨_ | a, m₁⟩
  · simp
  · simp [Run.pure_apply]
  · simp only [Except.ok.injEq, Prod.mk.injEq]
    constructor
    · intro h
      exact ⟨a, m₁, ⟨rfl, rfl⟩, h⟩
    · rintro ⟨_, _, ⟨rfl, rfl⟩, h⟩
      exact h

@[simp] theorem answers_map (g : α → β) (x : Eval ω α) :
    Answers (g <$> x) m b m' ↔ ∃ a, Answers x m a m' ∧ g a = b := by
  rw [map_eq_pure_bind, answers_bind]
  simp

@[simp] theorem answers_get (a : Machine ω) :
    Answers (get : Eval ω (Machine ω)) m a m' ↔ m = a ∧ m = m' := by
  show (Except.ok (Except.ok m, m) = Except.ok (Except.ok a, m')) ↔ _
  simp

end Eval

/-! ### Names and global functions -/

theorem resolve_run (h : Host ω) (env : Nat) (name : Text) (m : Machine ω) :
    (resolve h env name).run m =
      (match m.lookup h env name with
        | some v => pure v
        | none => if name = "this" then pure .undefined else throw (.notDefined name) :
          Eval ω Value).run m := rfl

theorem Builtin.apply_eq (b : Builtin) (args : List Value) : (b.apply args : Eval ω Value) = (do
    if b = .log then
      sure (writeLog .program ("console: " ++ Text.join " " (args.map Value.toText)))
    ofOutcome (b.result args)) := by
  unfold Builtin.apply
  cases b.result args <;> rfl

end Reactive
