/-
Recomputing what changed agrees with recomputing everything.

A board answers from its values (`Answers`) if its evaluators do, if what is
written to it arrives, and if nothing else changes them.  On such a board a
recompute is a pass over the order that can be written down without effects
(`pass`), and everything is proved about that pass.  Which values are computed
is not seen on a board, so books are kept beside it; a recompute is the same
with books and without.

* `Board.erases_refreshAll` — a recompute with books, without its books;
* `Answers.refreshAll` — a recompute is a pass;
* `Midway.pass_agrees` — a pass from the keys that changed ends with the
  same values as a pass over everything, and every derived value is up to
  date;
* `recompute_seed_agrees` — the same for the boards;
* `ledgerBoard_answers` — the board of a ledger.
-/
import Reactive.Eval.Interp
import Reactive.Schedule
import Reactive.Proofs.Eval.Chain
import Reactive.Proofs.Eval.Keeps
import Reactive.Proofs.Schedule.Order

namespace Reactive.Schedule

variable {ω ε : Type}

/-- The evaluators of some derived values as functions of all values. -/
abbrev Evaluators (ε : Type) := Derived → Dict Value → Except ε Value

/-- What becomes of a derived value that is computed on some values. -/
def outcomeOn (ev : Evaluators ε) (d : Derived) (v : Dict Value) : Outcome ε :=
  match ev d v with
  | .error e => .failed e
  | .ok x =>
    .computed x (match v.get? d.name with
      | some old => !old.equal x
      | none => true)

section

variable {ev : Evaluators ε} {d : Derived} {v : Dict Value} {x : Value}

theorem outcomeOn_error {e : ε} (h : ev d v = .error e) : outcomeOn ev d v = .failed e := by
  rw [outcomeOn, h]

theorem outcomeOn_same {old : Value} (h : ev d v = .ok x) (ho : v.get? d.name = some old)
    (hx : old.equal x = true) : outcomeOn ev d v = .computed x false := by
  simp [outcomeOn, h, ho, hx]

theorem outcomeOn_new (h : ev d v = .ok x)
    (hx : ¬∃ old, v.get? d.name = some old ∧ old.equal x = true) :
    outcomeOn ev d v = .computed x true := by
  rw [outcomeOn, h]
  cases ho : v.get? d.name with
  | none => rfl
  | some old =>
    have : old.equal x = false := by simpa using fun hx' => hx ⟨old, ho, hx'⟩
    simp [this]

end

namespace Outcome

/-- Whether a derived value has a new value. -/
def isChange : Outcome ε → Bool
  | .computed _ changed => changed
  | .failed _ => false

/-- The values with the new one. -/
def store (o : Outcome ε) (name : Text) (v : Dict Value) : Dict Value :=
  match o with
  | .computed x true => v.insert name x
  | _ => v

end Outcome

/-! ### Books beside a board -/

/-- The names that were computed and what was reported of them, both in order. -/
structure Books (ε : Type) where
  calls : List Text := []
  reports : List (Text × Outcome ε) := []

section

variable {κ α β : Type} {m : Type → Type} [Monad m]

/-- A board with books: what is computed, and what is reported, is also written down. -/
def Board.recorded (b : Board ε m) : Board ε (StateT (Books ε) m) where
  compute d := do
    modify fun k => { k with calls := k.calls ++ [d.name] }
    b.compute d
  read name := b.read name
  write name v := b.write name v
  report name o := do
    modify fun k => { k with reports := k.reports ++ [(name, o)] }
    b.report name o

variable [LawfulMonad m]

/-- A computation with books that does what another one does without. -/
def Erases (x : StateT κ m α) (y : m α) : Prop := ∀ k, Prod.fst <$> x.run k = y

theorem erases_pure (a : α) : Erases (pure a : StateT κ m α) (pure a) := fun k => by simp

theorem erases_lift (y : m α) : Erases (liftM y : StateT κ m α) y := fun k => by simp

theorem Erases.bind {x : StateT κ m α} {y : m α} {f : α → StateT κ m β} {g : α → m β}
    (hx : Erases x y) (hf : ∀ a, Erases (f a) (g a)) : Erases (x >>= f) (y >>= g) := by
  intro k
  rw [StateT.run_bind, map_bind, ← hx k, bind_map_left]
  exact bind_congr fun a => hf a.1 a.2

theorem Erases.after_modify {x : StateT κ m α} {y : m α} (hx : Erases x y) (f : κ → κ) :
    Erases (do modify f; x) y := fun k => by
  rw [StateT.run_bind, StateT.run_modify, pure_bind]
  exact hx (f k)

namespace Board

theorem erases_refresh (b : Board ε m) (d : Derived) :
    Erases (b.recorded.refresh d) (b.refresh d) := by
  have hreport : ∀ name o, Erases (b.recorded.report name o) (b.report name o) := fun name o =>
    (erases_lift _).after_modify _
  refine ((erases_lift (b.compute d)).after_modify _).bind fun r => ?_
  cases r with
  | error e => exact (hreport _ _).bind fun _ => erases_pure _
  | ok v =>
    refine (erases_lift (b.read d.name)).bind fun old => ?_
    have hstore : ∀ same : Bool, Erases
        (if same then do b.recorded.report d.name (.computed v false); return false
          else do
            b.recorded.write d.name v
            b.recorded.report d.name (.computed v true)
            return true)
        (if same then do b.report d.name (.computed v false); return false
          else do
            b.write d.name v
            b.report d.name (.computed v true)
            return true) := by
      intro same
      cases same with
      | true => exact (hreport _ _).bind fun _ => erases_pure _
      | false =>
        exact (erases_lift (b.write d.name v)).bind fun _ =>
          (hreport _ _).bind fun _ => erases_pure _
    exact hstore _

/-- A recompute is the same with books and without. -/
theorem erases_refreshAll (b : Board ε m) (s : Schedule) (names : List Text) :
    ∀ pending, Erases (s.refreshAll b.recorded pending names) (s.refreshAll b pending names) := by
  induction names with
  | nil => exact fun pending => erases_pure []
  | cons name r ih =>
    intro pending
    rw [Schedule.refreshAll, Schedule.refreshAll]
    split
    · cases s.find? name with
      | none => exact ih pending
      | some d =>
        refine (b.erases_refresh d).bind fun changed => ?_
        cases changed with
        | true => exact (ih _).bind fun _ => erases_pure _
        | false => exact ih pending
    · exact ih pending

end Board

end

/-- A board whose evaluators answer from the values it holds. -/
structure Answers (ds : List Derived) (b : Board ε (Run ω)) (ev : Evaluators ε)
    (values : Machine ω → Dict Value) : Prop where
  compute : ∀ d ∈ ds, ∀ m, ∃ m', b.compute d m = .ok (ev d (values m), m') ∧ values m' = values m
  read : ∀ name m, b.read name m = .ok ((values m).get? name, m)
  write : ∀ name x m, ∃ m', b.write name x m = .ok ((), m') ∧
    values m' = (values m).insert name x
  report : ∀ name o m, ∃ m', b.report name o m = .ok ((), m') ∧ values m' = values m

section

variable {ds : List Derived} {b : Board ε (Run ω)} {ev : Evaluators ε}
  {values : Machine ω → Dict Value}

section

variable {κ α β : Type} {k k' : κ} {m m' : Machine ω} {a : α}

theorem bind_books {x : StateT κ (Run ω) α} {f : α → StateT κ (Run ω) β}
    (h : x k m = .ok ((a, k'), m')) : (x >>= f) k m = f a k' m' := by
  show (x k >>= fun p => f p.1 p.2) m = _
  rw [Run.bind_ok h]

theorem lift_books {y : Run ω α} (h : y m = .ok (a, m')) (k : κ) :
    (liftM y : StateT κ (Run ω) α) k m = .ok ((a, k), m') := by
  show (y >>= fun a => pure (a, k)) m = _
  rw [Run.bind_ok h]
  rfl

end

/-- One derived value on a board that answers from its values. -/
theorem Answers.refresh (h : Answers ds b ev values) {d : Derived} (hd : d ∈ ds) (k : Books ε)
    (m : Machine ω) : ∃ m', b.recorded.refresh d k m =
        .ok (((outcomeOn ev d (values m)).isChange,
          ⟨k.calls ++ [d.name], k.reports ++ [(d.name, outcomeOn ev d (values m))]⟩), m') ∧
      values m' = (outcomeOn ev d (values m)).store d.name (values m) := by
  obtain ⟨m₁, hc, hv₁⟩ := h.compute d hd m
  have hcompute : b.recorded.compute d k m =
      .ok ((ev d (values m), { k with calls := k.calls ++ [d.name] }), m₁) :=
    (bind_books rfl).trans (lift_books hc _)
  have hreport : ∀ (o : Outcome ε) (k : Books ε) (m : Machine ω), ∃ m',
      b.recorded.report d.name o k m =
        .ok (((), { k with reports := k.reports ++ [(d.name, o)] }), m') ∧
      values m' = values m := fun o k m => by
    obtain ⟨m', hr, hv⟩ := h.report d.name o m
    exact ⟨m', (bind_books rfl).trans (lift_books hr _), hv⟩
  rw [Board.refresh, bind_books hcompute]
  cases hev : ev d (values m) with
  | error e =>
    obtain ⟨m₂, hrep, hv₂⟩ := hreport (.failed e) { k with calls := k.calls ++ [d.name] } m₁
    rw [outcomeOn_error hev]
    exact ⟨m₂, bind_books hrep, hv₂.trans hv₁⟩
  | ok x =>
    have hread : ∀ k : Books ε,
        b.recorded.read d.name k m₁ = .ok (((values m).get? d.name, k), m₁) := fun k =>
      lift_books (hv₁ ▸ h.read d.name m₁) k
    by_cases hs : ∃ old, (values m).get? d.name = some old ∧ old.equal x = true
    · obtain ⟨old, ho, hx⟩ := hs
      obtain ⟨m₂, hrep, hv₂⟩ :=
        hreport (.computed x false) { k with calls := k.calls ++ [d.name] } m₁
      rw [outcomeOn_same hev ho hx]
      refine ⟨m₂, ?_, hv₂.trans hv₁⟩
      simp only [bind_books (hread _), ho, hx, if_true]
      exact bind_books hrep
    · obtain ⟨m₂, hw, hv₂⟩ := h.write d.name x m₁
      obtain ⟨m₃, hrep, hv₃⟩ :=
        hreport (.computed x true) { k with calls := k.calls ++ [d.name] } m₂
      have hwrite : b.recorded.write d.name x { k with calls := k.calls ++ [d.name] } m₁ =
          .ok (((), { k with calls := k.calls ++ [d.name] }), m₂) := lift_books hw _
      have hrest : (do
          b.recorded.write d.name x
          b.recorded.report d.name (.computed x true)
          return true) { k with calls := k.calls ++ [d.name] } m₁ =
          .ok ((true, ⟨k.calls ++ [d.name], k.reports ++ [(d.name, .computed x true)]⟩), m₃) :=
        (bind_books hwrite).trans (bind_books hrep)
      rw [outcomeOn_new hev hs]
      refine ⟨m₃, ?_, hv₃.trans (hv₂.trans (congrArg (Dict.insert · d.name x) hv₁))⟩
      cases ho : (values m).get? d.name with
      | none =>
        simp only [bind_books (hread _), ho, Bool.false_eq_true, if_false]
        exact hrest
      | some old =>
        have hx : old.equal x = false := by simpa using fun hx => hs ⟨old, ho, hx⟩
        simp only [bind_books (hread _), ho, hx, Bool.false_eq_true, if_false]
        exact hrest

/-- A run over some names, pending ones computed, as a function: what became of each derived value
that was computed, in order, and the values then. -/
def pass (s : Schedule) (ev : Evaluators ε) (pending : List Text) (v : Dict Value) :
    List Text → List (Text × Outcome ε) × Dict Value
  | [] => ([], v)
  | name :: r =>
    if pending.contains name then
      match s.find? name with
      | none => pass s ev pending v r
      | some d =>
        let o := outcomeOn ev d v
        let next := pass s ev (if o.isChange then pending ++ s.affected name else pending)
          (o.store name v) r
        ((name, o) :: next.1, next.2)
    else pass s ev pending v r

/-- The names whose values changed. -/
def changedIn (log : List (Text × Outcome ε)) : List Text :=
  (log.filter fun p => p.2.isChange).map Prod.fst

theorem find?_spec {s : Schedule} {name : Text} {d : Derived} (h : s.find? name = some d) :
    d ∈ s.derived ∧ d.name = name :=
  ⟨List.mem_of_find?_eq_some h, by simpa using List.find?_some h⟩

/-- A recompute of some names is a pass. -/
theorem Answers.refreshAll {s : Schedule} (h : Answers s.derived b ev values)
    (names : List Text) : ∀ (pending : List Text) (k : Books ε) (m : Machine ω),
      ∃ m', s.refreshAll b.recorded pending names k m =
          .ok ((changedIn (pass s ev pending (values m) names).1,
            ⟨k.calls ++ (pass s ev pending (values m) names).1.map Prod.fst,
              k.reports ++ (pass s ev pending (values m) names).1⟩), m') ∧
        values m' = (pass s ev pending (values m) names).2 := by
  induction names with
  | nil =>
    intro pending k m
    refine ⟨m, ?_, rfl⟩
    simp only [pass, List.map_nil, List.append_nil]
    rfl
  | cons name r ih =>
    intro pending k m
    rw [Schedule.refreshAll, pass]
    split
    · cases hf : s.find? name with
      | none => exact ih pending k m
      | some d =>
        obtain ⟨hd, rfl⟩ := find?_spec hf
        obtain ⟨m₁, hrun, hv⟩ := h.refresh hd k m
        simp only
        rw [bind_books hrun]
        cases ho : (outcomeOn ev d (values m)).isChange with
        | true =>
          obtain ⟨m₂, hrun₂, hv₂⟩ := ih (pending ++ s.affected d.name) _ m₁
          rw [hv] at hrun₂ hv₂
          refine ⟨m₂, ?_, hv₂⟩
          simp only [if_true]
          rw [bind_books hrun₂]
          simp only [changedIn, List.filter_cons, ho, if_true, List.map_cons, List.append_assoc,
            List.singleton_append]
          rfl
        | false =>
          obtain ⟨m₂, hrun₂, hv₂⟩ := ih pending _ m₁
          rw [hv] at hrun₂ hv₂
          refine ⟨m₂, ?_, hv₂⟩
          simp only [Bool.false_eq_true, if_false]
          rw [hrun₂]
          simp only [changedIn, List.filter_cons, ho, Bool.false_eq_true, if_false, List.map_cons,
            List.append_assoc, List.singleton_append]
    · exact ih pending k m

end

/-! ### What a pass does -/

/-- The values that one derived value is computed from decide what it is. -/
def Determined (ds : List Derived) (ev : Evaluators ε) : Prop :=
  ∀ d ∈ ds, ∀ v w : Dict Value, (∀ k ∈ d.deps, v.get? k = w.get? k) → ev d v = ev d w

/-- A derived value is up to date: it cannot be computed, or what it holds is what would be
computed, or equal to it. -/
def UpToDate (ev : Evaluators ε) (v : Dict Value) (d : Derived) : Prop :=
  ∀ x, ev d v = .ok x → ∃ held, v.get? d.name = some held ∧ (held = x ∨ held.equal x = true)

/-- Every derived value is up to date. -/
def Consistent (ds : List Derived) (ev : Evaluators ε) (v : Dict Value) : Prop :=
  ∀ d ∈ ds, UpToDate ev v d

section

variable {s : Schedule} {ev : Evaluators ε}

/-- Storing an outcome touches the name it is stored under and no other. -/
theorem Outcome.get?_store_of_ne (o : Outcome ε) {name k : Text} (h : name ≠ k) (v : Dict Value) :
    (o.store name v).get? k = v.get? k := by
  unfold Outcome.store
  split
  · rw [Dict.get?_insert, if_neg h]
  · rfl

/-- A derived value that is up to date is computed without effect. -/
theorem store_of_upToDate {d : Derived} {v : Dict Value} (h : UpToDate ev v d) :
    (outcomeOn ev d v).store d.name v = v := by
  cases hev : ev d v with
  | error e =>
    rw [outcomeOn_error hev]
    rfl
  | ok x =>
    by_cases hs : ∃ old, v.get? d.name = some old ∧ old.equal x = true
    · obtain ⟨old, ho, hx⟩ := hs
      rw [outcomeOn_same hev ho hx]
      rfl
    · rw [outcomeOn_new hev hs]
      obtain ⟨held, hheld, hx⟩ := h x hev
      rcases hx with rfl | hx
      · exact Dict.insert_same hheld
      · exact absurd ⟨held, hheld, hx⟩ hs

/-- What a derived value is computed from is not touched by storing it, unless it reads itself. -/
theorem upToDate_store {ds : List Derived} (hdet : Determined ds ev) {d : Derived} (hd : d ∈ ds)
    (hself : d.name ∉ d.deps) (v : Dict Value) :
    UpToDate ev ((outcomeOn ev d v).store d.name v) d := by
  have hev : ev d ((outcomeOn ev d v).store d.name v) = ev d v :=
    hdet d hd _ _ fun k hk => Outcome.get?_store_of_ne _ (ne_of_mem_of_not_mem hk hself).symm v
  intro x hx
  rw [hev] at hx
  by_cases hs : ∃ old, v.get? d.name = some old ∧ old.equal x = true
  · obtain ⟨old, ho, heq⟩ := hs
    rw [outcomeOn_same hx ho heq]
    exact ⟨old, ho, Or.inr heq⟩
  · rw [outcomeOn_new hx hs]
    refine ⟨x, ?_, Or.inl rfl⟩
    rw [Outcome.store, Dict.get?_insert, if_pos rfl]

/-- A derived value stays up to date when a name is stored that it neither is nor reads. -/
theorem UpToDate.store {ds : List Derived} (hdet : Determined ds ev) {d : Derived} (hd : d ∈ ds)
    {v : Dict Value} (h : UpToDate ev v d) (o : Outcome ε) {name : Text} (hne : name ≠ d.name)
    (hdep : name ∉ d.deps) : UpToDate ev (o.store name v) d := by
  have hev : ev d (o.store name v) = ev d v :=
    hdet d hd _ _ fun k hk => Outcome.get?_store_of_ne o (ne_of_mem_of_not_mem hk hdep).symm v
  intro x hx
  rw [Outcome.get?_store_of_ne o hne]
  exact h x (hev ▸ hx)

/-- The derived values computed in a pass are among its names, in order. -/
theorem pass_sublist (names : List Text) : ∀ (pending : List Text) (v : Dict Value),
    ((pass s ev pending v names).1.map Prod.fst).Sublist names := by
  induction names with
  | nil => intro pending v; exact List.Sublist.refl _
  | cons name r ih =>
    intro pending v
    rw [pass]
    split
    · split
      · exact (ih _ _).cons _
      · exact (ih _ _).cons_cons _
    · exact (ih _ _).cons _

/-- A pass touches the names it goes over only. -/
theorem get?_pass_of_notMem (names : List Text) {k : Text} (hk : k ∉ names) :
    ∀ (pending : List Text) (v : Dict Value), (pass s ev pending v names).2.get? k = v.get? k := by
  induction names with
  | nil => intro pending v; rfl
  | cons name r ih =>
    obtain ⟨hne, hr⟩ := not_or.1 (fun h => hk (List.mem_cons.2 h))
    intro pending v
    rw [pass]
    split
    · split
      · exact ih hr _ _
      · exact (ih hr _ _).trans (Outcome.get?_store_of_ne _ (fun e => hne e.symm) v)
    · exact ih hr _ _

/-- A derived value that cannot be computed keeps what it holds. -/
theorem get?_pass_of_failed (names : List Text) (hnd : names.Nodup) {n : Text} {e : ε} :
    ∀ (pending : List Text) (v : Dict Value), (n, .failed e) ∈ (pass s ev pending v names).1 →
      (pass s ev pending v names).2.get? n = v.get? n := by
  induction names with
  | nil => intro pending v h; simp [pass] at h
  | cons name r ih =>
    obtain ⟨hname, hnd⟩ := List.nodup_cons.1 hnd
    intro pending v h
    rw [pass] at h ⊢
    split at h
    · rename_i hp
      rw [if_pos hp]
      cases hf : s.find? name with
      | none =>
        simp only [hf] at h
        exact ih hnd _ _ h
      | some d =>
        simp only [hf, List.mem_cons, Prod.mk.injEq] at h
        simp only
        rcases h with ⟨rfl, ho⟩ | h
        · rw [get?_pass_of_notMem r hname, ← ho]
          rfl
        · -- the name stands later in the pass, so what is stored now is another one
          have hmem : n ∈ r :=
            (pass_sublist r _ _).subset (List.mem_map.2 ⟨_, h, rfl⟩)
          have hne : name ≠ n := fun e => hname (e ▸ hmem)
          rw [ih hnd _ _ h, Outcome.get?_store_of_ne _ hne]
    · rename_i hp
      rw [if_neg hp]
      exact ih hnd _ _ h

/-- A derived value is computed in a pass for a reason: it was pending, or it reads a name that
changed before. -/
theorem cause_of_pass (names : List Text) : ∀ (pending : List Text) (v : Dict Value)
    (before after : List (Text × Outcome ε)) (n : Text) (o : Outcome ε),
      (pass s ev pending v names).1 = before ++ (n, o) :: after →
      n ∈ pending ∨ ∃ k ∈ changedIn before, n ∈ s.affected k := by
  induction names with
  | nil => intro pending v before after n o h; simp [pass] at h
  | cons name r ih =>
    intro pending v before after n o h
    rw [pass] at h
    split at h
    · rename_i hp
      cases hf : s.find? name with
      | none =>
        simp only [hf] at h
        exact ih _ _ _ _ _ _ h
      | some d =>
        simp only [hf] at h
        cases before with
        | nil =>
          obtain ⟨h₁, -⟩ := List.cons.inj h
          cases h₁
          exact Or.inl (by simpa using hp)
        | cons b before =>
          obtain ⟨h₁, h₂⟩ := List.cons.inj h
          subst h₁
          rcases ih _ _ _ _ _ _ h₂ with hn | ⟨k, hk, hn⟩
          · split at hn
            · rename_i hc
              rcases List.mem_append.1 hn with hn | hn
              · exact Or.inl hn
              · exact Or.inr ⟨name, by simp [changedIn, hc], hn⟩
            · exact Or.inl hn
          · refine Or.inr ⟨k, ?_, hn⟩
            rw [changedIn, List.filter_cons]
            split
            · exact List.mem_cons_of_mem _ hk
            · exact hk
    · exact ih _ _ _ _ _ _ h

/-! ### The pass from what changed and the pass over everything -/

/-- A pass midway: `done` was gone over, `rest` was not, `v` are the values now, and `old` the
values at which every derived value was up to date. -/
structure Midway (s : Schedule) (ev : Evaluators ε) (old : Dict Value) (pending done : List Text)
    (rest : List Text) (v : Dict Value) : Prop where
  kept : ∀ n ∈ rest, v.get? n = old.get? n
  marked : ∀ k, v.get? k ≠ old.get? k → ∀ n ∈ s.affected k, n ∈ rest → n ∈ pending
  current : ∀ d ∈ s.derived, d.name ∈ done → UpToDate ev v d

variable {old v : Dict Value} {pending done rest : List Text} {name : Text} {d : Derived}

/-- What is not pending is up to date. -/
theorem Midway.upToDate (h : Midway s ev old pending done (name :: rest) v)
    (hdet : Determined s.derived ev) (hold : Consistent s.derived ev old) (hd : d ∈ s.derived)
    (hname : d.name = name) (hp : name ∉ pending) : UpToDate ev v d := by
  have hdeps : ∀ k ∈ d.deps, v.get? k = old.get? k := by
    intro k hk
    by_contra hne
    exact hp (h.marked k hne name (mem_readers.2 ⟨d, hd, hname, hk⟩) List.mem_cons_self)
  intro x hx
  rw [h.kept d.name (hname ▸ List.mem_cons_self)]
  exact hold d hd x (hdet d hd v old hdeps ▸ hx)

/-- Going over a name that is up to date. -/
theorem Midway.skip (h : Midway s ev old pending done (name :: rest) v)
    (hds : (namesOf s.derived).Nodup) (hd : d ∈ s.derived) (hname : d.name = name)
    (hup : UpToDate ev v d) : Midway s ev old pending (done ++ [name]) rest v where
  kept := fun n hn => h.kept n (List.mem_cons_of_mem _ hn)
  marked := fun k hk n hn hr => h.marked k hk n hn (List.mem_cons_of_mem _ hr)
  current := by
    intro e he hmem
    rcases List.mem_append.1 hmem with hmem | hmem
    · exact h.current e he hmem
    · have : e = d := eq_of_name hds he hd ((List.mem_singleton.1 hmem).trans hname.symm)
      exact this ▸ hup

/-- In a topological order, a name that was not gone over is read by nothing that was. -/
theorem notMem_deps_of_sorted {order : List Text} (hsorted : Sorted s.derived order)
    (hnd : order.Nodup) (horder : order = done ++ name :: rest) (hname : name ∈ namesOf s.derived)
    (hd : d ∈ s.derived) (hdone : d.name ∈ done ++ [name]) : name ∉ d.deps := by
  intro hdep
  obtain ⟨pre, post, hsplit⟩ := List.append_of_mem hdone
  have hpre : name ∈ pre := by
    refine hsorted pre d.name (post ++ rest) ?_ d hd rfl name hdep hname
    calc order = (done ++ [name]) ++ rest := by simp [horder]
      _ = pre ++ d.name :: (post ++ rest) := by simp [hsplit]
  -- the name would stand twice, once before the value that reads it
  have hlen : pre.length ≤ done.length := by
    have := congrArg List.length hsplit
    simp at this
    omega
  have hpre' : pre <+: done := by
    have h₁ : pre <+: done ++ [name] := ⟨d.name :: post, hsplit.symm⟩
    exact List.prefix_of_prefix_length_le h₁ (List.prefix_append _ _) hlen
  have hnd' : (done ++ name :: rest).Nodup := horder ▸ hnd
  exact List.disjoint_of_nodup_append hnd' (hpre'.subset hpre) List.mem_cons_self

/-- Going over a name that is pending. -/
theorem Midway.step (h : Midway s ev old pending done (name :: rest) v)
    (hdet : Determined s.derived ev) (hds : (namesOf s.derived).Nodup) {order : List Text}
    (hsorted : Sorted s.derived order) (hnd : order.Nodup) (horder : order = done ++ name :: rest)
    (hd : d ∈ s.derived) (hname : d.name = name) :
    Midway s ev old
      (if (outcomeOn ev d v).isChange then pending ++ s.affected name else pending)
      (done ++ [name]) rest ((outcomeOn ev d v).store name v) where
  kept := by
    intro n hn
    have hnd' : (name :: rest).Nodup := (List.nodup_append.1 (horder ▸ hnd)).2.1
    have hne : name ≠ n := fun e => (List.nodup_cons.1 hnd').1 (e ▸ hn)
    rw [Outcome.get?_store_of_ne _ hne, h.kept n (List.mem_cons_of_mem _ hn)]
  marked := by
    intro k hk n hn hr
    by_cases hkn : name = k
    · cases hc : (outcomeOn ev d v).isChange with
      | true =>
        rw [if_pos rfl]
        exact List.mem_append.2 (Or.inr (hkn ▸ hn))
      | false =>
        -- nothing was stored, so the key differed before
        have hstore : (outcomeOn ev d v).store name v = v := by
          unfold Outcome.isChange at hc
          unfold Outcome.store
          split at hc <;> simp_all
        rw [hstore] at hk
        simpa using h.marked k hk n hn (List.mem_cons_of_mem _ hr)
    · rw [Outcome.get?_store_of_ne _ hkn] at hk
      have hmem := h.marked k hk n hn (List.mem_cons_of_mem _ hr)
      split
      · exact List.mem_append.2 (Or.inl hmem)
      · exact hmem
  current := by
    intro e he hmem
    have hmem' : name ∈ namesOf s.derived := hname ▸ List.mem_map_of_mem hd
    have hdep : name ∉ e.deps := notMem_deps_of_sorted hsorted hnd horder hmem' he hmem
    by_cases hen : e.name = name
    · have hed : e = d := eq_of_name hds he hd (hen.trans hname.symm)
      subst hed
      rw [← hname] at hdep ⊢
      exact upToDate_store hdet he hdep v
    · have hdone : e.name ∈ done := by
        rcases List.mem_append.1 hmem with h | h
        · exact h
        · exact absurd (List.mem_singleton.1 h) hen
      exact (h.current e he hdone).store hdet he _ (fun e => hen e.symm) hdep

theorem exists_find? (hname : name ∈ namesOf s.derived) :
    ∃ d ∈ s.derived, d.name = name ∧ s.find? name = some d := by
  obtain ⟨e, he, hen⟩ := List.mem_map.1 hname
  obtain ⟨d, hd⟩ : ∃ d, s.find? name = some d := by
    rw [← Option.isSome_iff_exists, find?, List.find?_isSome]
    exact ⟨e, he, by simpa using hen⟩
  exact ⟨d, (find?_spec hd).1, (find?_spec hd).2, hd⟩

/-- A pass over the rest of the order from what is pending ends with the values of a pass that
computes everything there, and with every derived value up to date. -/
theorem Midway.pass_agrees (hdet : Determined s.derived ev) (hold : Consistent s.derived ev old)
    (hds : (namesOf s.derived).Nodup) {order : List Text} (hsorted : Sorted s.derived order)
    (hnd : order.Nodup) (hmem : ∀ n ∈ order, n ∈ namesOf s.derived) :
    ∀ (rest done pending all : List Text) (v : Dict Value), order = done ++ rest →
      Midway s ev old pending done rest v → (∀ n ∈ rest, n ∈ all) →
      (pass s ev pending v rest).2 = (pass s ev all v rest).2 ∧
        ∀ d ∈ s.derived, d.name ∈ order → UpToDate ev (pass s ev pending v rest).2 d := by
  intro rest
  induction rest with
  | nil =>
    intro done pending all v horder h hall
    refine ⟨rfl, fun d hd hn => h.current d hd ?_⟩
    simpa [horder] using hn
  | cons name rest ih =>
    intro done pending all v horder h hall
    have hin : name ∈ order := by simp [horder]
    have horder' : order = (done ++ [name]) ++ rest := by simp [horder]
    obtain ⟨d, hd, hname, hfind⟩ := exists_find? (hmem name hin)
    have hall' : ∀ n ∈ rest,
        n ∈ if (outcomeOn ev d v).isChange then all ++ s.affected name else all := by
      intro n hn
      have := hall n (List.mem_cons_of_mem _ hn)
      split
      · exact List.mem_append.2 (Or.inl this)
      · exact this
    have hname_all : all.contains name := by simpa using hall name List.mem_cons_self
    by_cases hp : name ∈ pending
    · have hstep := h.step hdet hds hsorted hnd horder hd hname
      obtain ⟨h₁, h₂⟩ := ih (done ++ [name]) _ _ _ horder' hstep hall'
      have hp' : pending.contains name := by simpa using hp
      simp only [pass, if_pos hp', if_pos hname_all, hfind]
      exact ⟨h₁, h₂⟩
    · have hup := h.upToDate hdet hold hd hname hp
      have hstore : (outcomeOn ev d v).store name v = v := hname ▸ store_of_upToDate hup
      obtain ⟨h₁, h₂⟩ := ih (done ++ [name]) pending _ v horder' (h.skip hds hd hname hup) hall'
      have hp' : ¬pending.contains name := by simpa using hp
      simp only [pass, if_neg hp', if_pos hname_all, hfind, hstore]
      exact ⟨h₁, h₂⟩

end

/-- Bringing up to date what depends on the keys that changed ends with the same values as
computing everything.  Derived values end up to date.  By the books, each is computed at most once,
and only if it reads a key of the seed or one that changed before; one that cannot be computed keeps
its value, and nothing but derived values is touched. -/
theorem recompute_seed_agrees {ds : List Derived} {strict : Bool} {s : Schedule}
    {b : Board ε (Run ω)} {ev : Evaluators ε} {values : Machine ω → Dict Value}
    (hbuild : build ds strict = .ok s) (hcycle : s.cycle = [])
    (hanswers : Answers ds b ev values) (hdet : Determined ds ev)
    {old : Dict Value} (hold : Consistent ds ev old) (m : Machine ω) (seed : List Text)
    (hseed : ∀ k, (values m).get? k ≠ old.get? k → k ∈ seed ∧ k ∉ namesOf ds) :
    ∃ changed changedFull log logFull m₁ m₂,
      s.recompute b (some seed) m = .ok (changed, m₁) ∧
      s.recompute b none m = .ok (changedFull, m₂) ∧
      values m₁ = values m₂ ∧
      Consistent ds ev (values m₁) ∧
      (s.recompute b.recorded (some seed) {} m = .ok ((changed, ⟨log.map Prod.fst, log⟩), m₁) ∧
        changed = changedIn log ∧ (log.map Prod.fst).Nodup) ∧
      (s.recompute b.recorded none {} m =
          .ok ((changedFull, ⟨logFull.map Prod.fst, logFull⟩), m₂) ∧
        changedFull = changedIn logFull ∧ (logFull.map Prod.fst).Nodup) ∧
      (∀ before name o after, log = before ++ (name, o) :: after →
        ∃ d ∈ ds, d.name = name ∧ ∃ dep ∈ d.deps, dep ∈ seed ∨ dep ∈ changedIn before) ∧
      (∀ name e, (name, .failed e) ∈ log → (values m₁).get? name = (values m).get? name) ∧
      ∀ k, k ∉ namesOf ds → (values m₁).get? k = (values m).get? k := by
  obtain ⟨hds, rfl, first, horder, hnd, hmem, hsorted⟩ := build_spec hbuild
  rw [hcycle, List.append_nil] at horder hnd hmem
  subst horder
  -- The passes are run with books; without them they do the same.
  have herased : ∀ {pending names : List Text} {changed : List Text} {k : Books ε} {m' : Machine ω},
      s.refreshAll b.recorded pending names {} m = .ok ((changed, k), m') →
        s.refreshAll b pending names m = .ok (changed, m') := by
    intro pending names changed k m' hrun
    have herase := congrFun (b.erases_refreshAll s names pending {}) m
    rw [← herase, Run.map_apply, StateT.run, hrun]
  obtain ⟨m₁, hrun₁, hv₁⟩ := hanswers.refreshAll s.order (seed.flatMap s.affected) {} m
  obtain ⟨m₂, hrun₂, hv₂⟩ := hanswers.refreshAll s.order s.order {} m
  have hmid : Midway s ev old (seed.flatMap s.affected) [] s.order (values m) := by
    refine ⟨fun n hn => ?_, fun k hk n hn _ => ?_, fun d _ hn => absurd hn List.not_mem_nil⟩
    · by_contra hne
      exact (hseed n hne).2 ((hmem n).1 hn)
    · exact List.mem_flatMap.2 ⟨k, (hseed k hk).1, hn⟩
  obtain ⟨hagree, hup⟩ := Midway.pass_agrees hdet hold hds hsorted hnd (fun n => (hmem n).1)
    s.order [] _ s.order (values m) rfl hmid (fun n hn => hn)
  refine ⟨_, _, _, _, m₁, m₂, herased hrun₁, herased hrun₂, ?_, ?_, ⟨hrun₁, rfl, ?_⟩,
    ⟨hrun₂, rfl, ?_⟩, ?_, ?_, ?_⟩
  · rw [hv₁, hv₂, hagree]
  · intro d hd
    rw [hv₁]
    exact hup d hd ((hmem _).2 (List.mem_map_of_mem hd))
  · exact hnd.sublist (pass_sublist s.order _ _)
  · exact hnd.sublist (pass_sublist s.order _ _)
  · intro before name o after hlog
    rcases cause_of_pass s.order _ _ before after name o hlog with hp | ⟨k, hk, hn⟩
    · obtain ⟨k, hk, hn⟩ := List.mem_flatMap.1 hp
      obtain ⟨d, hd, hname, hdep⟩ := mem_readers.1 hn
      exact ⟨d, hd, hname, k, hdep, Or.inl hk⟩
    · obtain ⟨d, hd, hname, hdep⟩ := mem_readers.1 hn
      exact ⟨d, hd, hname, k, hdep, Or.inr hk⟩
  · intro name e hlog
    rw [hv₁]
    exact get?_pass_of_failed s.order hnd _ _ hlog
  · intro k hk
    rw [hv₁]
    exact get?_pass_of_notMem s.order (fun h => hk ((hmem k).1 h)) _ _

/-! ### Boards that answer from their values -/

/-- Evaluators that are functions of the values, over the values alone. -/
def sheetBoard (ev : Evaluators ε) : Board ε (Run (Dict Value)) where
  compute d := do return ev d (← get).host
  read name := do return (← get).host.get? name
  write name x := modify fun m => { m with host := m.host.insert name x }
  report _ _ := pure ()

theorem sheetBoard_answers (ds : List Derived) (ev : Evaluators ε) :
    Answers ds (sheetBoard ev) ev fun m => m.host where
  compute := fun _ _ _ => ⟨_, rfl, rfl⟩
  read := fun _ _ => rfl
  write := fun _ _ _ => ⟨_, rfl, rfl⟩
  report := fun _ _ _ => ⟨_, rfl, rfl⟩

/-- A program over a ledger cannot write to it. -/
theorem ledgerHost_allows : ledgerHost.Allows Halt.Any fun m m' => m'.host = m.host where
  fuel := trivial
  same := fun h => h
  trans := fun h h' => h'.trans h
  write := fun _ _ _ => rfl

/-- Over a ledger expressions are computed from copies of the values, so that its board answers from
them if the outcomes do not depend on anything else. -/
theorem ledgerBoard_answers {ds : List Derived} {ev : Evaluators EvalError}
    (h : ∀ d ∈ ds, ∀ m, ∃ m', ledgerBoard.compute d m = .ok (ev d m.host.values, m')) :
    Answers ds ledgerBoard ev fun m => m.host.values where
  compute := by
    intro d hd m
    obtain ⟨m', hrun⟩ := h d hd m
    have hkeeping : Keeping Halt.Any (fun m m' => m'.host = m.host) (ledgerBoard.compute d) := by
      intro m
      exact (ledgerHost_allows.newScope _ _ m).bind fun env m' hm' =>
        (ledgerHost_allows.keeping_eval env d.expr m').mono fun _ _ h => h.trans hm'
    exact ⟨m', hrun, congrArg Ledger.values ((hkeeping m).of_ok hrun)⟩
  read := fun _ _ => rfl
  write := fun _ _ _ => ⟨_, rfl, rfl⟩
  report := fun _ _ _ => ⟨_, rfl, rfl⟩

/-- A derived value that is another name, computed on some values: what the name stands for there,
else among the global functions. -/
def named : Evaluators EvalError := fun d v =>
  match d.expr with
  | .ident _ n =>
    match (v.get? n).or (Globals.get? n) with
    | some x => .ok x
    | none => if n = "this" then .ok .undefined else .error (.notDefined n)
  | _ => .ok .undefined

theorem compute_ident {d : Derived} {p : Nat} {n : Text} (hd : d.expr = .ident p n)
    (m : Machine Ledger) : ∃ m', ledgerBoard.compute d m = .ok (named d m.host.values, m') := by
  let scope : Scope := { outer := .store (.snapshot m.host.values) }
  let m' : Machine Ledger := { m with scopes := m.scopes.push scope }
  have hlookup : m'.lookup ledgerHost m.scopes.size n =
      (m.host.values.get? n).or (Globals.get? n) := by
    have hscope : m'.scopes[m.scopes.size]? = some scope := Array.getElem?_push_size
    rw [Machine.lookup, hscope]
    show (match m.host.values.get? n with
      | some v => some v
      | none => Globals.get? n) = _
    cases m.host.values.get? n <;> rfl
  have hrun : ledgerBoard.compute d m = (resolve ledgerHost m.scopes.size n).run m' := by
    have heval : eval ledgerHost.caller m.scopes.size d.expr =
        resolve ledgerHost m.scopes.size n := by
      rw [hd, eval, link, chainValue_some]
      rfl
    rw [← heval]
    rfl
  refine ⟨m', ?_⟩
  rw [hrun, named, hd]
  dsimp only
  rw [← hlookup]
  show (match m'.lookup ledgerHost m.scopes.size n with
    | some v => pure v
    | none => if n = "this" then pure .undefined else throw (.notDefined n) : Eval Ledger Value).run
      m' = _
  cases m'.lookup ledgerHost m.scopes.size n with
  | some v => rfl
  | none =>
    by_cases hthis : n = "this"
    · simp only [if_pos hthis]
      rfl
    · simp only [if_neg hthis]
      rfl

/-- Three derived values: a copy of `x`, a copy of that copy, and one of a key that is missing. -/
def copies : List Derived :=
  [.ofExpr "b" (.ident 0 "a"), .ofExpr "a" (.ident 0 "x"), .ofExpr "c" (.ident 0 "y")]

theorem copies_ident {d : Derived} (hd : d ∈ copies) :
    ∃ n, d.expr = .ident 0 n ∧ d.deps = [n] := by
  simp only [copies, List.mem_cons, List.not_mem_nil, or_false] at hd
  rcases hd with rfl | rfl | rfl
  · exact ⟨"a", rfl, by decide⟩
  · exact ⟨"x", rfl, by decide⟩
  · exact ⟨"y", rfl, by decide⟩

theorem determined_copies : Determined copies named := by
  intro d hd v w h
  obtain ⟨n, hexpr, hdeps⟩ := copies_ident hd
  rw [named, named, hexpr]
  dsimp only
  rw [h n (hdeps ▸ List.mem_singleton_self n)]

/-- The values of the copies before `x` changes. -/
def copied : Dict Value := [("x", .str "p"), ("b", .str "p"), ("a", .str "p")]

theorem consistent_copied : Consistent copies named copied := by
  intro d hd x hx
  simp only [copies, List.mem_cons, List.not_mem_nil, or_false] at hd
  rcases hd with rfl | rfl | rfl
  · cases hx
    exact ⟨_, rfl, Or.inl rfl⟩
  · cases hx
    exact ⟨_, rfl, Or.inl rfl⟩
  · cases hx

theorem recompute_seed_agrees_copies :
    ∃ s, build copies true = .ok s ∧ s.cycle = [] ∧ Consistent copies named copied ∧
      (∃ changed changedFull m₁ m₂,
        s.recompute ledgerBoard (some ["x", "x"])
          { host := { values := copied.insert "x" (.str "q") } } = .ok (changed, m₁) ∧
        s.recompute ledgerBoard none
          { host := { values := copied.insert "x" (.str "q") } } = .ok (changedFull, m₂) ∧
        m₁.host.values = m₂.host.values ∧ Consistent copies named m₁.host.values) ∧
      ∃ changed changedFull m₁ m₂,
        s.recompute (sheetBoard named) (some ["x", "x"])
          { host := copied.insert "x" (.str "q") } = .ok (changed, m₁) ∧
        s.recompute (sheetBoard named) none
          { host := copied.insert "x" (.str "q") } = .ok (changedFull, m₂) ∧
        m₁.host = m₂.host ∧ Consistent copies named m₁.host := by
  obtain ⟨s, hs, hc⟩ : ∃ s, build copies true = .ok s ∧ s.cycle = [] := ⟨_, rfl, rfl⟩
  have hseed : ∀ k, (copied.insert "x" (.str "q")).get? k ≠ copied.get? k →
      k ∈ (["x", "x"] : List Text) ∧ k ∉ namesOf copies := by
    intro k hk
    rw [Dict.get?_insert] at hk
    by_cases hx : "x" = k
    · subst hx
      exact ⟨List.mem_cons_self, by decide⟩
    · rw [if_neg hx] at hk
      exact absurd rfl hk
  have hledger : Answers copies ledgerBoard named fun m => m.host.values :=
    ledgerBoard_answers fun d hd m => by
      obtain ⟨n, hexpr, -⟩ := copies_ident hd
      exact compute_ident hexpr m
  obtain ⟨changed, changedFull, -, -, m₁, m₂, h₁, h₂, hv, hcons, -⟩ :=
    recompute_seed_agrees hs hc hledger determined_copies consistent_copied
      { host := { values := copied.insert "x" (.str "q") } } ["x", "x"] hseed
  obtain ⟨changed', changedFull', -, -, m₃, m₄, h₃, h₄, hv', hcons', -⟩ :=
    recompute_seed_agrees hs hc (sheetBoard_answers copies named) determined_copies
      consistent_copied { host := copied.insert "x" (.str "q") } ["x", "x"] hseed
  exact ⟨s, hs, hc, consistent_copied, ⟨changed, changedFull, m₁, m₂, h₁, h₂, hv, hcons⟩,
    changed', changedFull', m₃, m₄, h₃, h₄, hv', hcons'⟩

end Reactive.Schedule
