/-
Evaluations over hosts that agree.

Two hosts may be different programs and still do the same as long as their state
is good, and keep it good; the second of them may also stop.  Then evaluations
over one and over the other do the same, unless the second one is stopped.

* `Host.AgreesWith` — hosts that do the same on good states;
* `Host.AgreesWith.eval`, `Host.AgreesWith.call` — what evaluations over them do.
-/
import Reactive.Proofs.Eval.Together

namespace Reactive

variable {ω α : Type} {stop : Halt → Prop} {h h' : Host ω} {Good : ω → Prop}

/-- Hosts that do the same while their state is good, which it stays; a write to the second one may
also stop for a reason that `stop` allows. -/
structure Host.AgreesWith (stop : Halt → Prop) (h h' : Host ω) (Good : ω → Prop) : Prop where
  read : ∀ a, Good a → ∀ n, h'.read a n = h.read a n
  write : ∀ name v (m : Machine ω), Good m.host →
    Run.Follows stop (h.write name v).run (h'.write name v).run (fun _ m' => Good m'.host) m

/-- Calls none of which is refused. -/
theorem callUnless_none (h : Host ω) (depth : Nat) :
    callUnless h (fun _ _ => false) depth = call h depth := by
  induction depth with
  | zero => rfl
  | succ depth ih =>
    funext f args
    show callWith h (callUnless h (fun _ _ => false) depth) f args = callWith h (call h depth) f args
    rw [ih]

theorem Host.callerUnless_none (h : Host ω) : h.callerUnless (fun _ _ => false) = h.caller := by
  rw [callerUnless, caller, callUnless_none]

/-- Runs over two hosts that are the same at every moment.  The run that may be stopped comes
first. -/
def Pair.agreed (stop : Halt → Prop) (h h' : Host ω) (Good : ω → Prop) : Pair ω where
  loose := False
  first := h'
  second := h
  hosts a b := b = a ∧ Good a
  refused := fun _ _ => false
  lax := stop
  base := 0
  roots := fun _ => none
  fits := fun _ => True

namespace Pair

theorem agreed_refl {m : Machine ω} (hm : Good m.host) : (agreed stop h h' Good).Rel m m where
  base_le := Nat.zero_le _
  size := rfl
  funcs := rfl
  logs := rfl
  scope _ _ _ := .refl _ _
  hosts := ⟨rfl, hm⟩
  roots i hi := absurd hi (Nat.not_lt_zero i)
  fresh _ _ _ _ := trivial

theorem agreed_eq {m m' : Machine ω} (hrel : (agreed stop h h' Good).Rel m m') : m' = m :=
  hrel.eq id hrel.hosts.1

/-- Computations that do the same on good states go the same way. -/
theorem sim_agreed {Q : α → α → Prop} (hQ : ∀ a, Q a a) {x y : Run ω α}
    (hxy : ∀ m, Good m.host → Run.Follows stop x y (fun _ m' => Good m'.host) m) :
    (agreed stop h h' Good).Sim Q y x := by
  intro m m' hrel
  obtain rfl := agreed_eq hrel
  obtain ⟨e, he, hy⟩ | ⟨hrun, hafter⟩ := hxy m' hrel.hosts.2
  · rw [hy]
    exact .inl he
  rw [hrun]
  unfold Run.After at hafter
  cases hx : x m' with
  | error e => exact .inr rfl
  | ok p =>
    rw [hx] at hafter
    exact ⟨p.1, p.2, rfl, agreed_refl hafter, hQ p.1⟩

/-- Computations that go the same way do the same on good states. -/
theorem Sim.agreed {Q : α → α → Prop} (hQ : ∀ a b, Q a b → b = a) {x y : Run ω α}
    (hsim : (agreed stop h h' Good).Sim Q y x) (m : Machine ω) (hm : Good m.host) :
    Run.Follows stop x y (fun _ m' => Good m'.host) m := by
  have hm := hsim m m (agreed_refl hm)
  cases hy : y m with
  | error e =>
    rw [hy] at hm
    refine hm.imp (fun he => ⟨e, he, hy⟩) fun hx => ⟨hy.trans hx.symm, ?_⟩
    rw [Run.After, hx]
    trivial
  | ok p =>
    obtain ⟨a, m₁⟩ := p
    rw [hy] at hm
    obtain ⟨b, m₂, hx, hrel, hab⟩ := hm
    obtain rfl := hQ a b hab
    obtain rfl := agreed_eq hrel
    exact .inr ⟨hy.trans hx.symm, (Run.after_of_ok hx).2 hrel.hosts.2⟩

end Pair

namespace Host.AgreesWith

variable (hh : h.AgreesWith stop h' Good)

include hh

theorem lawful : (Pair.agreed stop h h' Good).Lawful where
  read a b hab n := by
    obtain ⟨hb, ha⟩ := hab
    show OptionsAkin False (h'.read a n) (h.read b n)
    rw [hb, hh.read a ha n]
    exact .refl _
  write _ name v w hvw := by
    obtain rfl := Value.akin_strict id hvw
    refine Pair.sim_agreed (fun r => ?_) (hh.write name w)
    cases r with
    | error e => rfl
    | ok u => exact ⟨u, rfl, trivial⟩
  closure _ _ _ _ _ _ scope _ _ hlt := absurd hlt (Nat.not_lt_zero scope)
  lists hloose := hloose.elim
  refused _ _ h := by cases h

omit hh in
theorem eq_of_akin (r r' : Except EvalError Value) (h : Outcomes (Value.Akin False) r r') :
    r' = r := by
  cases r with
  | error e => exact h
  | ok v =>
    obtain ⟨w, rfl, hvw⟩ := h
    rw [Value.akin_strict id hvw]

theorem eval (env : Nat) (e : Expr) (m : Machine ω) (hm : Good m.host) :
    Run.Follows stop (Reactive.eval h.caller env e).run (Reactive.eval h'.caller env e).run
      (fun _ m' => Good m'.host) m := by
  have hsim := Pair.sim_eval hh.lawful (fun hlt => absurd hlt (Nat.not_lt_zero env)) e
  rw [show (Pair.agreed stop h h' Good).first.callerUnless (Pair.agreed stop h h' Good).refused =
    h'.caller from h'.callerUnless_none] at hsim
  exact Pair.Sim.agreed eq_of_akin hsim m hm

theorem call (f : Func) (args : List Value) (m : Machine ω) (hm : Good m.host) :
    Run.Follows stop (h.caller.call f args).run (h'.caller.call f args).run
      (fun _ m' => Good m'.host) m := by
  have hsim := Pair.sim_call hh.lawful callDepth f f (.refl f) args args (.refl args)
  rw [show callUnless (Pair.agreed stop h h' Good).first (Pair.agreed stop h h' Good).refused
    callDepth = Reactive.call h' callDepth from callUnless_none h' callDepth] at hsim
  exact Pair.Sim.agreed eq_of_akin hsim m hm

end Host.AgreesWith

end Reactive
