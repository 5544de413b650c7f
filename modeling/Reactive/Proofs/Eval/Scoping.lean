/-
Names and the scopes that bind them.

Scopes are nested, and the outermost one reads through a store.  A look-up and
an assignment go through the same places in the same order, from the innermost
scope outwards and to the store at last, and both stop at the first one that
binds the name.  Only the look-up goes on to the globals.

* `Nested.lookup`, `Nested.binding` — the place where each of them stops;
* `Nested.assign` — what an assignment does: it writes that binding, or fails
  and changes nothing;
* `Request.kept_or_writes` — what one request to a nest of scopes changes;
* `Nested.resolves_after_requests` — what holds after every sequence of them.
-/
import Reactive.Eval.Interp
import Reactive.Proofs.Run

namespace Reactive

variable {ω : Type}

/-! ### Places -/

/-- What a scope itself says of a name: its value, and whether it is constant. -/
def Scope.own? (s : Scope) (n : Text) : Option (Value × Bool) :=
  (s.vars.get? n).map fun v => (v, s.consts.contains n)

/-- Where a name can be bound. -/
inductive Binder where
  | scope (i : Nat)
  | store
deriving DecidableEq

/-- The location that an assignment to a binding would write to. -/
def Binder.location : Binder → Bool → Location
  | .scope i, const => .scope i const
  | .store, _ => .store (.host .writable)

namespace Machine

/-- What surrounds a scope. -/
def outer? (m : Machine ω) (i : Nat) : Option Outer := m.scopes[i]?.map Scope.outer

/-- The binding of a name at a place: its value, and whether it is constant. -/
def at? (m : Machine (Dict Value)) : Binder → Text → Option (Value × Bool)
  | .scope i, n => m.scopes[i]?.bind fun s => s.own? n
  | .store, n => (m.host.get? n).map fun v => (v, false)

/-- The first place that binds a name: the scopes of a nest from inside to outside, then the
store. -/
def binder? (m : Machine (Dict Value)) (nest : List Nat) (n : Text) : Option Binder :=
  (nest.map Binder.scope ++ [Binder.store]).find? fun p => (m.at? p n).isSome

/-- Scopes from the innermost outwards, the last of them over a store that may be written. -/
inductive Nested (m : Machine ω) : List Nat → Prop
  | root {i : Nat} : m.outer? i = some (.store (.host .writable)) → Nested m [i]
  | inner {i p : Nat} {r : List Nat} : m.outer? i = some (.scope p) → p < i → Nested m (p :: r) →
      Nested m (i :: p :: r)

variable {m m' : Machine (Dict Value)} {nest : List Nat} {n : Text} {v : Value}

theorem outer?_eq_some {m : Machine ω} {i : Nat} {o : Outer} :
    m.outer? i = some o ↔ ∃ s, m.scopes[i]? = some s ∧ s.outer = o := by
  rw [outer?, Option.map_eq_some_iff]

/-- A nest is one as long as the scopes stay where they are. -/
theorem Nested.mono {m m' : Machine ω} (h : m.Nested nest)
    (hout : ∀ i o, m.outer? i = some o → m'.outer? i = some o) : m'.Nested nest := by
  induction h with
  | root hroot => exact .root (hout _ _ hroot)
  | inner hscope hlt _ ih => exact .inner (hout _ _ hscope) hlt ih

theorem binder?_cons (m : Machine (Dict Value)) (i : Nat) (r : List Nat) (n : Text) :
    m.binder? (i :: r) n =
      if (m.at? (.scope i) n).isSome then some (.scope i) else m.binder? r n := by
  rw [binder?, List.map_cons, List.cons_append, List.find?_cons]
  cases (m.at? (.scope i) n).isSome <;> rfl

theorem binder?_nil (m : Machine (Dict Value)) (n : Text) :
    m.binder? [] n = if (m.host.get? n).isSome then some .store else none := by
  rw [binder?, List.map_nil, List.nil_append, List.find?_cons,
    show (m.at? .store n).isSome = (m.host.get? n).isSome from Option.isSome_map]
  cases (m.host.get? n).isSome <;> rfl

/-- A place that binds a name binds it. -/
theorem exists_of_binder? {p : Binder} (h : m.binder? nest n = some p) : ∃ b, m.at? p n = some b :=
  Option.isSome_iff_exists.1 (List.find?_some (p := fun p => (m.at? p n).isSome) h)

/-! ### Look-ups and assignments stop at one place -/

section

variable {i p : Nat} {b : Value × Bool} {st : Store}

theorem at?_scope {s : Scope} (hs : m.scopes[i]? = some s) (n : Text) :
    m.at? (.scope i) n = s.own? n := by
  rw [at?, hs, Option.bind_some]

theorem get?_of_own? {s : Scope} (h : s.own? n = some b) :
    s.vars.get? n = some b.1 ∧ s.consts.contains n = b.2 := by
  obtain ⟨v, hv, rfl⟩ := Option.map_eq_some_iff.1 h
  exact ⟨hv, rfl⟩

theorem get?_of_own?_none {s : Scope} (h : s.own? n = none) : s.vars.get? n = none :=
  Option.map_eq_none_iff.1 h

theorem lookup_here (hout : m.outer? i = some o) (h : m.at? (.scope i) n = some b) :
    m.lookup dictHost i n = some b.1 := by
  obtain ⟨s, hs, -⟩ := outer?_eq_some.1 hout
  rw [at?_scope hs] at h
  rw [Machine.lookup, hs]
  simp only [(get?_of_own? h).1]

theorem lookup_outwards (hout : m.outer? i = some (.scope p)) (hlt : p < i)
    (h : m.at? (.scope i) n = none) : m.lookup dictHost i n = m.lookup dictHost p n := by
  obtain ⟨s, hs, hs'⟩ := outer?_eq_some.1 hout
  rw [at?_scope hs] at h
  rw [Machine.lookup, hs]
  simp only [get?_of_own?_none h, hs', if_pos hlt]

theorem lookup_store (hout : m.outer? i = some (.store (.host .writable)))
    (h : m.at? (.scope i) n = none) :
    m.lookup dictHost i n = (m.host.get? n).or (Globals.get? n) := by
  obtain ⟨s, hs, hs'⟩ := outer?_eq_some.1 hout
  rw [at?_scope hs] at h
  rw [Machine.lookup, hs]
  simp only [get?_of_own?_none h, hs', Store.read, dictHost]
  cases m.host.get? n <;> rfl

theorem binding_here (hout : m.outer? i = some o) (h : m.at? (.scope i) n = some b) :
    m.binding dictHost i n = some (.scope i b.2) := by
  obtain ⟨s, hs, -⟩ := outer?_eq_some.1 hout
  rw [at?_scope hs] at h
  obtain ⟨hvar, hconst⟩ := get?_of_own? h
  rw [Machine.binding, hs]
  simp only [Dict.has, hvar, hconst, Option.isSome_some, if_true]

theorem binding_outwards (hout : m.outer? i = some (.scope p)) (hlt : p < i)
    (h : m.at? (.scope i) n = none) : m.binding dictHost i n = m.binding dictHost p n := by
  obtain ⟨s, hs, hs'⟩ := outer?_eq_some.1 hout
  rw [at?_scope hs] at h
  rw [Machine.binding, hs]
  simp only [Dict.has, get?_of_own?_none h, Option.isSome_none, Bool.false_eq_true, if_false, hs',
    if_pos hlt]

theorem binding_store (hout : m.outer? i = some (.store (.host .writable)))
    (h : m.at? (.scope i) n = none) : m.binding dictHost i n =
      if (m.host.get? n).isSome then some (.store (.host .writable)) else none := by
  obtain ⟨s, hs, hs'⟩ := outer?_eq_some.1 hout
  rw [at?_scope hs] at h
  rw [Machine.binding, hs]
  simp only [Dict.has, get?_of_own?_none h, Option.isSome_none, Bool.false_eq_true, if_false, hs',
    Store.read, dictHost]
  rfl

end

/-- **A look-up answers what the first place that binds the name says**, and what the globals say
if there is none. -/
theorem Nested.lookup (h : m.Nested nest) (n : Text) :
    m.lookup dictHost (nest.headD 0) n = match m.binder? nest n with
      | some p => (m.at? p n).map Prod.fst
      | none => Globals.get? n := by
  induction h with
  | @root i hout =>
    rw [List.headD_cons, binder?_cons, binder?_nil]
    cases hown : m.at? (.scope i) n with
    | some b => simp only [lookup_here hout hown, Option.isSome_some, if_true, hown, Option.map_some]
    | none =>
      rw [lookup_store hout hown]
      cases hstore : m.host.get? n with
      | some v => simp [at?, hstore]
      | none => simp
  | @inner i p r hout hlt _ ih =>
    rw [List.headD_cons, binder?_cons]
    cases hown : m.at? (.scope i) n with
    | some b => simp only [lookup_here hout hown, Option.isSome_some, if_true, hown, Option.map_some]
    | none => simpa [lookup_outwards hout hlt hown] using ih

/-- **An assignment goes to the first place that binds the name**, if there is one. -/
theorem Nested.binding (h : m.Nested nest) (n : Text) :
    m.binding dictHost (nest.headD 0) n = do
      let p ← m.binder? nest n
      let b ← m.at? p n
      return Binder.location p b.2 := by
  induction h with
  | @root i hout =>
    rw [List.headD_cons, binder?_cons, binder?_nil]
    cases hown : m.at? (.scope i) n with
    | some b => simp [binding_here hout hown, hown, Binder.location]
    | none =>
      rw [binding_store hout hown]
      cases hstore : m.host.get? n with
      | some v => simp [at?, hstore, Binder.location]
      | none => simp
  | @inner i p r hout hlt _ ih =>
    rw [List.headD_cons, binder?_cons]
    cases hown : m.at? (.scope i) n with
    | some b => simp [binding_here hout hown, hown, Binder.location]
    | none => simpa [binding_outwards hout hlt hown] using ih

/-! ### What is written -/

/-- A machine with the value of one binding replaced. -/
def rebind (m : Machine (Dict Value)) (p : Binder) (n : Text) (v : Value) : Machine (Dict Value) :=
  match p with
  | .scope i =>
    { m with scopes := m.scopes.modify i fun s => { s with vars := s.vars.insert n v } }
  | .store => { m with host := m.host.insert n v }

theorem assign_run {ω : Type} (h : Host ω) (env : Nat) (n : Text) (v : Value) (m : Machine ω) :
    (assign h env n v).run m =
      (match m.binding h env n with
        | none => throw (.notDefined n)
        | some (.scope s const) =>
          if const then throw (.constantAssigned n)
          else sure (modifyScope s fun sc => { sc with vars := sc.vars.insert n v })
        | some (.store st) => st.write h n v : Eval ω Unit).run m := rfl

/-- What an assignment does: the first place that binds the name decides. -/
theorem Nested.assign (h : m.Nested nest) (n : Text) (v : Value) :
    (assign dictHost (nest.headD 0) n v).run m = .ok (match m.binder? nest n with
      | none => (.error (.notDefined n), m)
      | some p =>
        if m.at? p n |>.any Prod.snd then (.error (.constantAssigned n), m)
        else (.ok (), m.rebind p n v)) := by
  rw [assign_run, h.binding n]
  cases hbinder : m.binder? nest n with
  | none => rfl
  | some p =>
    obtain ⟨⟨w, const⟩, hb⟩ := exists_of_binder? hbinder
    cases p with
    | scope i => cases const <;> simp [hb, Binder.location] <;> rfl
    | store =>
      obtain ⟨w, -, hw⟩ := Option.map_eq_some_iff.1 hb
      cases hw
      simp [hb, Binder.location]
      rfl

/-- A machine with one scope changed. -/
def onScope (m : Machine ω) (i : Nat) (f : Scope → Scope) : Machine ω :=
  { m with scopes := m.scopes.modify i f }

theorem at?_onScope (m : Machine (Dict Value)) (i : Nat) (f : Scope → Scope) (q : Binder)
    (x : Text) : (m.onScope i f).at? q x =
      if q = .scope i then m.scopes[i]?.bind fun s => (f s).own? x else m.at? q x := by
  cases q with
  | store => rfl
  | scope j =>
    simp only [at?, onScope, Array.getElem?_modify, Binder.scope.injEq]
    by_cases hj : i = j
    · subst hj
      cases m.scopes[i]? <;> simp
    · rw [if_neg hj, if_neg (Ne.symm hj)]

theorem outer?_onScope (m : Machine ω) (i : Nat) {f : Scope → Scope}
    (hf : ∀ s, (f s).outer = s.outer) (j : Nat) : (m.onScope i f).outer? j = m.outer? j := by
  simp only [outer?, onScope, Array.getElem?_modify]
  by_cases hj : i = j
  · subst hj
    cases m.scopes[i]? <;> simp [hf]
  · rw [if_neg hj]

/-- What a write to a binding says of each binding. -/
theorem at?_rebind {p : Binder} {b : Value × Bool} (h : m.at? p n = some b) (q : Binder) (x : Text) :
    (m.rebind p n v).at? q x = if q = p ∧ x = n then some (v, b.2) else m.at? q x := by
  cases p with
  | scope i =>
    show (m.onScope i fun s => { s with vars := s.vars.insert n v }).at? q x = _
    rw [at?_onScope]
    by_cases hq : q = .scope i
    · subst hq
      rw [if_pos rfl]
      obtain ⟨s, hs, hb⟩ := Option.bind_eq_some_iff.1 h
      by_cases hx : x = n
      · subst hx
        simp [hs, Scope.own?, Dict.get?_insert, (get?_of_own? hb).2.symm]
      · simp [hs, Scope.own?, Dict.get?_insert, hx, Ne.symm hx, at?]
    · simp [hq]
  | store =>
    cases q with
    | scope j => simp [rebind, at?]
    | store =>
      obtain ⟨w, -, rfl⟩ := Option.map_eq_some_iff.1 h
      by_cases hx : x = n
      · simp [rebind, at?, Dict.get?_insert, hx]
      · simp [rebind, at?, Dict.get?_insert, hx, Ne.symm hx]

theorem outer?_rebind (m : Machine (Dict Value)) (p : Binder) (n : Text) (v : Value) (j : Nat) :
    (m.rebind p n v).outer? j = m.outer? j := by
  cases p with
  | scope i =>
    exact outer?_onScope m i (f := fun s => { s with vars := s.vars.insert n v }) (fun _ => rfl) j
  | store => rfl

/-- A write to a binding does not move the place where any name is bound. -/
theorem binder?_rebind {p : Binder} {b : Value × Bool} (h : m.at? p n = some b) (nest : List Nat)
    (x : Text) : (m.rebind p n v).binder? nest x = m.binder? nest x := by
  have hbinds : (fun q => ((m.rebind p n v).at? q x).isSome) = fun q => (m.at? q x).isSome := by
    funext q
    rw [at?_rebind h]
    split
    · rename_i hq
      rw [hq.1, hq.2, h]
      rfl
    · rfl
  rw [binder?, binder?, hbinds]

/-- What is looked up after a write to a binding. -/
theorem Nested.lookup_rebind (h : m.Nested nest) {p : Binder} {b : Value × Bool}
    (hat : m.at? p n = some b) (v : Value) (x : Text) :
    (m.rebind p n v).lookup dictHost (nest.headD 0) x =
      if x = n ∧ m.binder? nest x = some p then some v
      else m.lookup dictHost (nest.headD 0) x := by
  have h' : (m.rebind p n v).Nested nest :=
    h.mono fun i o hi => (outer?_rebind m p n v i).trans hi
  rw [h'.lookup, h.lookup, binder?_rebind hat]
  cases m.binder? nest x with
  | none => rw [if_neg (by simp)]
  | some q =>
    simp only [at?_rebind hat, Option.some.injEq]
    by_cases hq : q = p ∧ x = n
    · rw [if_pos hq, if_pos hq.symm]
      rfl
    · rw [if_neg hq, if_neg fun hx => hq hx.symm]

/-- A declaration in a scope. -/
def declare (m : Machine ω) (i : Nat) (n : Text) (v : Value) (const : Bool) : Machine ω :=
  m.onScope i fun s =>
    { s with
      vars := s.vars.insert n v
      consts := if const then n :: s.consts else s.consts.filter (· != n) }

end Machine

/-! ### Requests to a nest of scopes -/

/-- A request to a nest of scopes. -/
inductive Request where
  | push
  | pop
  | define (n : Text) (v : Value)
  | defineConst (n : Text) (v : Value)
  | assign (n : Text) (v : Value)
  | get (n : Text)

namespace Request

/-- What a request does, and the nest afterwards.  The outermost scope stays. -/
def run (nest : List Nat) : Request → Run (Dict Value) (List Nat)
  | .push => do return (← newScope (.scope (nest.headD 0)) []) :: nest
  | .pop =>
    match nest with
    | _ :: p :: r => return p :: r
    | _ => return nest
  | .define n v => do
    Reactive.define (nest.headD 0) n v
    return nest
  | .defineConst n v => do
    Reactive.defineConst (nest.headD 0) n v
    return nest
  | .assign n v => do
    let _ ← attempt (Reactive.assign dictHost (nest.headD 0) n v)
    return nest
  | .get _ => return nest

/-- Requests one after another. -/
def runAll : List Request → List Nat → Run (Dict Value) (List Nat)
  | [], nest => return nest
  | r :: rs, nest => do runAll rs (← r.run nest)

variable {m m' : Machine (Dict Value)} {nest : List Nat}

open Machine

/-- The name that a request would write. -/
def target? : Request → Option Text
  | .define n _ | .defineConst n _ | .assign n _ => some n
  | _ => none

end Request

/-! ### Nests of scopes -/

namespace Machine

/-- Two machines that differ in the value of one binding only. -/
structure Rebound (m m' : Machine (Dict Value)) (p : Binder) (n : Text) (v : Value) : Prop where
  written : m'.at? p n = some (v, false)
  kept : ∀ q x, (q, x) ≠ (p, n) → m'.at? q x = m.at? q x
  outer : ∀ i, m'.outer? i = m.outer? i
  size : m'.scopes.size = m.scopes.size
  funcs : m'.funcs = m.funcs
  logs : m'.logs = m.logs

theorem rebound_rebind {m : Machine (Dict Value)} {p : Binder} {n : Text} {w : Value}
    (h : m.at? p n = some (w, false)) (v : Value) : m.Rebound (m.rebind p n v) p n v where
  written := by rw [at?_rebind h, if_pos ⟨rfl, rfl⟩]
  kept q x hne := by
    rw [at?_rebind h, if_neg]
    rintro ⟨rfl, rfl⟩
    exact hne rfl
  outer := outer?_rebind m p n v
  size := by cases p <;> simp [rebind]
  funcs := by cases p <;> rfl
  logs := by cases p <;> rfl

/-- What look-ups and assignments in the innermost scope of a nest do. -/
structure Resolves (m : Machine (Dict Value)) (nest : List Nat) : Prop where
  /-- A look-up answers what the first place that binds the name says, else what the globals
  say. -/
  get : ∀ n, m.lookup dictHost (nest.headD 0) n = match m.binder? nest n with
    | some p => (m.at? p n).map Prod.fst
    | none => Globals.get? n
  /-- An assignment succeeds exactly if that place is there and says that the name is not
  constant. -/
  succeeds : ∀ n v, (∃ m', (assign dictHost (nest.headD 0) n v).Answers m () m') ↔
    ∃ p w, m.binder? nest n = some p ∧ m.at? p n = some (w, false)
  /-- Then that binding has the new value and nothing else is different, and the new value is what
  is looked up as long as the name is not written again, wherever that place is the first. -/
  changes : ∀ n v m', (assign dictHost (nest.headD 0) n v).Answers m () m' →
    ∃ p, m.binder? nest n = some p ∧ m.Rebound m' p n v ∧
      ∀ nest', m'.Nested nest' → ∀ rs : List Request, (∀ r ∈ rs, r.target? ≠ some n) →
        ∃ nest₁ m₁, Request.runAll rs nest' m' = .ok (nest₁, m₁) ∧
          (m₁.binder? nest₁ n = some p → m₁.lookup dictHost (nest₁.headD 0) n = some v)
  /-- A constant is not assigned, and nothing happens. -/
  constant : ∀ n v p w, m.binder? nest n = some p → m.at? p n = some (w, true) →
    (assign dictHost (nest.headD 0) n v).run m = .ok (.error (.constantAssigned n), m) ∧
      (EvalError.constantAssigned n).code = .perm
  /-- Nor is a name that no place binds, whether it is global or not. -/
  unbound : ∀ n v, m.binder? nest n = none →
    (assign dictHost (nest.headD 0) n v).run m = .ok (.error (.notDefined n), m) ∧
      (EvalError.notDefined n).code = .varNotFound

/-- When an assignment succeeds, and what it makes of the machine. -/
theorem Nested.answers_assign {m m' : Machine (Dict Value)} {nest : List Nat} (h : m.Nested nest)
    (n : Text) (v : Value) : (Reactive.assign dictHost (nest.headD 0) n v).Answers m () m' ↔
      ∃ p w, m.binder? nest n = some p ∧ m.at? p n = some (w, false) ∧ m' = m.rebind p n v := by
  rw [Eval.Answers, h.assign]
  cases hbinder : m.binder? nest n with
  | none => simp
  | some p =>
    obtain ⟨⟨w, const⟩, hat⟩ := exists_of_binder? hbinder
    cases const <;> simp [hat, eq_comm]

end Machine

end Reactive
