/-
Evaluations that call no function from before.

An expression over the values of a moment can be evaluated at any later moment.
The functions that it makes get other numbers then, and nothing else is
different, as long as it calls no function of the source that was made before:
such a function could reach live state.

* `Host.discreet` — the evaluator that refuses to call them;
* `Func.Before` — a function that was made before;
* `Block.outcomeIn_later` — one expression on an earlier and on a later machine;
* `Block.Answers.eq` — one expression on any two machines.
-/
import Reactive.Proofs.Eval.Whole

namespace Reactive

variable {ω σ : Type}

/-! ### Functions from before -/

/-- Whether a function is one of the source that was made when fewer than `n` functions were there. -/
def Func.isOlder (n : Nat) (f : Func) : Bool :=
  match f.code with
  | .closure .. => f.id < n
  | _ => false

/-- The evaluator over a host, where functions of the source cannot be called if they are older than
the evaluation. -/
def Host.discreet (h : Host ω) (n : Nat) : Caller ω := h.callerUnless fun _ f => f.isOlder n

/-- A function that was made when fewer than `n` functions were there, or a global one. -/
def Func.Before (n : Nat) (f : Func) : Prop := f.id < n ∨ f.isBuiltin = true

instance (n : Nat) : DecidablePred (Func.Before n) :=
  fun f => inferInstanceAs (Decidable (f.id < n ∨ f.isBuiltin = true))

theorem Func.Before.mono {n k : Nat} (h : n ≤ k) {f : Func} (hf : f.Before n) : f.Before k :=
  hf.imp_left fun hlt => Nat.lt_of_lt_of_le hlt h

/-- What is inside a function satisfies what every function inside the value does. -/
theorem Value.All.deep {p : Func → Prop} {v : Value} (hv : v.All p) :
    v.All fun f => p f ∧ f.code.All p := by
  induction v using Value.induction with
  | list vs ih =>
    rw [all_list] at hv ⊢
    exact fun v hmem => ih v hmem (hv v hmem)
  | map es ih =>
    rw [all_map] at hv ⊢
    exact fun e hmem => ih e hmem (hv e hmem)
  | func f ih =>
    obtain ⟨n, i, c⟩ := f
    refine ⟨hv, ?_⟩
    cases c with
    | listMethod vs m =>
      have hvs := (allItems_iff vs).1 hv.2
      exact (allItems_iff vs).2 fun v hmem => ih n i vs m rfl v hmem (hvs v hmem)
    | _ => trivial
  | _ => trivial

mutual

/-- Whether every function inside a value satisfies `p` can be decided if `p` can. -/
def Value.decAll (p : Func → Prop) [DecidablePred p] : (v : Value) → Decidable (v.All p)
  | .list vs => decAllItems p vs
  | .map es => decAllEntries p es
  | .func f => f.decAll p
  | .null | .undefined | .bool _ | .number _ | .str _ => .isTrue trivial

/-- The same for several values. -/
def decAllItems (p : Func → Prop) [DecidablePred p] : (vs : List Value) → Decidable (allItems p vs)
  | [] => .isTrue trivial
  | v :: r => @instDecidableAnd _ _ (v.decAll p) (decAllItems p r)

/-- The same for properties. -/
def decAllEntries (p : Func → Prop) [DecidablePred p] :
    (es : List (Text × Value)) → Decidable (allEntries p es)
  | [] => .isTrue trivial
  | (_, v) :: r => @instDecidableAnd _ _ (v.decAll p) (decAllEntries p r)

/-- The same for a function. -/
def Func.decAll (p : Func → Prop) [DecidablePred p] : (f : Func) → Decidable (f.All p)
  | .mk n i c => @instDecidableAnd _ _ (inferInstanceAs (Decidable (p (.mk n i c)))) (c.decAll p)

/-- The same for what a call does. -/
def Code.decAll (p : Func → Prop) [DecidablePred p] : (c : Code) → Decidable (c.All p)
  | .listMethod vs _ => decAllItems p vs
  | .builtin _ | .strMethod .. | .numMethod .. | .boolText _ | .closure .. => .isTrue trivial

end

instance (p : Func → Prop) [DecidablePred p] : DecidablePred (Value.All p) := Value.decAll p

/-! ### An earlier and a later machine -/

/-- A machine with room for all that was made on another one. -/
structure Machine.Precedes (m k : Machine ω) : Prop where
  funcs : m.funcs ≤ k.funcs
  size : m.scopes.size ≤ k.scopes.size

/-- The numbers of what is made from one machine on, as those of what is made from another one on. -/
def Machine.gap (m k : Machine ω) : Shift :=
  ⟨m.funcs, k.funcs - m.funcs, m.scopes.size, k.scopes.size - m.scopes.size⟩

/-- What a host answers for some names, on one machine and on another one: the same, and it was made
before. -/
def Host.ReadsAlike (h₁ h₂ : Host ω) (N : Text → Prop) (m k : Machine ω) : Prop :=
  ∀ n, N n → h₂.read k.host n = h₁.read m.host n ∧
    ∀ v, h₁.read m.host n = some v → v.All (Func.Before m.funcs)

/-- Two runs that call no functions from before; if `same` is true, then in the same store. -/
def Machine.apart (h₁ h₂ : Host ω) (m k : Machine ω) (N : Text → Prop) (same : Prop) : Twin ω where
  shift := m.gap k
  shared := fun _ => False
  agreed := N
  inert f := f.isOlder m.funcs = true
  excused := fun _ => False
  reads := h₁.ReadsAlike h₂ N m k
  writes := False
  alone := k = m ∧ same
  hosts := fun _ a b => a.host = m.host ∧ b.host = k.host ∧ (k = m ∧ same → b = a)
  first := h₁
  second := h₂

section

variable {h₁ h₂ : Host ω} {m k : Machine ω} {N : Text → Prop} {same : Prop}

theorem shift_of_before {v : Value} (h : v.All (Func.Before m.funcs)) : v.shift (m.gap k) = v :=
  Value.shift_of_all h

/-- What was made before the later machine even after its numbers are moved is not moved at all. -/
theorem shift_eq_of_before (hle : m.funcs ≤ k.funcs) {v : Value}
    (hv : (v.shift (m.gap k)).All (Func.Before k.funcs)) : v.shift (m.gap k) = v := by
  induction v using Value.induction with
  | list vs ih =>
    rw [Value.shift_list, Value.all_list] at hv
    rw [Value.shift_list]
    refine congrArg Value.list ((List.map_congr_left fun w hw => ?_).trans (List.map_id vs))
    exact ih w hw (hv _ (List.mem_map_of_mem hw))
  | map es ih =>
    rw [Value.shift_map, Value.all_map] at hv
    rw [Value.shift_map]
    refine congrArg Value.map ((List.map_congr_left fun e he => ?_).trans (List.map_id es))
    exact Prod.ext rfl (ih e he (hv _ (List.mem_map_of_mem he)))
  | func f _ =>
    obtain ⟨n, i, c⟩ := f
    refine congrArg Value.func (Func.shift_of_old _ ?_)
    by_contra hnew
    rw [not_or] at hnew
    have hold : ¬i < m.funcs := hnew.1
    have hmoved : Func.All (Func.Before k.funcs) (Func.shift (m.gap k) (.mk n i c)) := hv
    rw [Func.shift, if_neg (show ¬i < (m.gap k).funcs from hold)] at hmoved
    -- a function that is moved gets a number that only the later machine can give
    have hid : ¬(m.gap k).func i < k.funcs := by
      rw [Shift.func_of_le (Nat.not_lt.1 hold)]
      show ¬i + (k.funcs - m.funcs) < k.funcs
      omega
    cases c with
    | builtin b => exact hnew.2 rfl
    | _ => exact hid (hmoved.1.resolve_right Bool.false_ne_true)
  | _ => rfl

/-- What was made before may be held by both runs. -/
theorem Machine.knows_apart {a : Machine ω} (ha : m.funcs ≤ a.funcs) {v : Value}
    (hv : v.All (Func.Before m.funcs)) : (m.apart h₁ h₂ k N same).Knows a v := by
  refine Value.All.mono (fun f hf => ⟨hf.1.mono ha, ?_, ?_⟩) hv.deep
  · intro vs method hcode _ w hw
    have hinside := hf.2
    rw [hcode] at hinside
    exact shift_of_before ((allItems_iff vs).1 hinside w hw)
  · -- a function of the source from before is one that neither run may call
    intro params body scope hcode
    obtain ⟨n, i, c⟩ := f
    obtain rfl : c = .closure params body scope := hcode
    refine Or.inl (decide_eq_true ?_)
    exact hf.1.resolve_right Bool.false_ne_true

theorem Machine.lawful_apart : (m.apart h₁ h₂ k N same).Lawful where
  stable := by
    rintro m₁ m₂ m₁' m₂' ⟨h₁, h₂, hsame⟩ - h₁' h₂' halone
    exact ⟨h₁'.trans h₁, h₂'.trans h₂, fun h => halone h (hsame h)⟩
  still := by
    rintro ⟨rfl, -⟩
    exact ⟨Nat.sub_self _, Nat.sub_self _⟩
  read := by
    intro hreads a b hrel n hn
    obtain ⟨hsame, hbefore⟩ := hreads n hn
    obtain ⟨ha, hb, -⟩ := hrel.hosts
    rw [ha, hb]
    refine ⟨?_, fun v hv => Machine.knows_apart hrel.funcs_le (hbefore v hv)⟩
    show h₂.read k.host n = (h₁.read m.host n).map _
    rw [hsame]
    cases hv : h₁.read m.host n with
    | none => rfl
    | some v => exact congrArg some (shift_of_before (hbefore v hv)).symm
  write := False.elim

theorem Func.isOlder_shift (hle : m.funcs ≤ k.funcs) (f : Func) :
    (f.shift (m.gap k)).isOlder k.funcs = f.isOlder m.funcs := by
  obtain ⟨n, i, c⟩ := f
  by_cases hold : i < m.funcs
  · have hkept : Func.shift (m.gap k) (.mk n i c) = .mk n i c := Func.shift_of_old _ (.inl hold)
    rw [hkept]
    cases c with
    | closure params body scope =>
      exact (decide_eq_true (Nat.lt_of_lt_of_le hold hle)).trans (decide_eq_true hold).symm
    | _ => rfl
  · rw [Func.shift, if_neg (show ¬i < (m.gap k).funcs from hold)]
    cases c with
    | closure params body scope =>
      refine (decide_eq_false ?_).trans (decide_eq_false hold).symm
      show ¬(m.gap k).func i < k.funcs
      rw [Shift.func_of_le (Nat.not_lt.1 hold)]
      show ¬i + (k.funcs - m.funcs) < k.funcs
      omega
    | _ => rfl

theorem Machine.callers_apart (hle : m.Precedes k) :
    (m.apart h₁ h₂ k N same).Callers (h₁.discreet m.funcs) (h₂.discreet k.funcs) where
  first := rfl
  second := rfl
  call := Twin.calls_callUnless Machine.lawful_apart
    (fun _ _ f _ _ => Func.isOlder_shift hle.funcs f) (fun _ _ hf => hf) callDepth

theorem Machine.rel_apart (hle : m.Precedes k) : (m.apart h₁ h₂ k N same).Rel m k where
  size_le := Nat.le_refl _
  size_eq := (Nat.add_sub_of_le hle.size).symm
  funcs_le := Nat.le_refl _
  funcs_eq := (Nat.add_sub_of_le hle.funcs).symm
  scope := by
    intro i s hu hs
    have hlt : i < m.scopes.size := (Array.getElem?_eq_some_iff.1 hs).1
    exact absurd hlt (Nat.not_lt.2 (hu.resolve_right id))
  hosts := ⟨rfl, rfl, fun h => h.1⟩

end

/-- Stores over which two runs go the same way where only some names are read. -/
inductive Store.Alike (h₁ h₂ : Host ω) (N : Text → Prop) (m k : Machine ω) : Store → Store → Prop where
  | snapshot {A B : Dict Value} (h : ∀ n, N n → B.get? n = A.get? n ∧
      ∀ v, A.get? n = some v → v.All (Func.Before m.funcs)) :
    Alike h₁ h₂ N m k (.snapshot A) (.snapshot B)
  | host {access : Access} (h : h₁.ReadsAlike h₂ N m k) (hread : access ≠ .writable) :
    Alike h₁ h₂ N m k (.host access) (.host access)

theorem Store.Alike.stores {h₁ h₂ : Host ω} {N : Text → Prop} {m k : Machine ω} {a b : Store}
    (h : Store.Alike h₁ h₂ N m k a b) : (m.apart h₁ h₂ k N (b = a)).Stores m m.scopes.size a b := by
  cases h with
  | @snapshot A B h =>
    refine ⟨fun halone => Store.snapshot.inj halone.2, fun n hn => ?_⟩
    obtain ⟨hsame, hbefore⟩ := h n (hn.resolve_left (Nat.lt_irrefl _))
    refine ⟨?_, fun v hv => Machine.knows_apart (Nat.le_refl _) (hbefore v hv)⟩
    rw [hsame]
    cases hv : A.get? n with
    | none => rfl
    | some v => exact congrArg some (shift_of_before (hbefore v hv)).symm
  | host h hread => exact ⟨rfl, h, fun hw => absurd hw hread, fun hlt => absurd hlt (Nat.lt_irrefl _)⟩

namespace Block

variable {h₁ h₂ : Host (Stage σ)} {N : Text → Prop} {m k : Machine (Stage σ)} {a b : Store}
  {frame : Frame} {e : Expr}

/-- A frame that holds only functions that were made before. -/
def Frame.Before (n : Nat) (frame : Frame) : Prop :=
  ∀ vars ∈ frame, ∀ p ∈ vars, p.2.All (Func.Before n)

theorem Frame.Before.mono {n n' : Nat} (hle : n ≤ n') (h : frame.Before n) : frame.Before n' :=
  fun vars hv p hp => Value.All.mono (fun _ hf => hf.mono hle) (h vars hv p hp)

theorem Frame.Made.before (h : frame.Made m) : frame.Before m.funcs :=
  fun vars hv p hp => Value.All.mono (fun _ hf => hf.1) (h vars hv p hp)

/-- An expression that is evaluated on an earlier machine is evaluated on a later one to the same
outcome, but for the numbers of the functions that it makes.  Both leave the host alone.  On the same
machine, over the same store, nothing is different at all. -/
theorem outcomeIn_later (hle : m.Precedes k) (hst : Store.Alike h₁ h₂ N m k a b)
    (hframe : frame.Before m.funcs)
    (he : e.Uses False fun n => N n ∨ frame.Binds n) {r : Except EvalError Value}
    {m' : Machine (Stage σ)} (hrun : outcomeIn (h₁.discreet m.funcs) a frame e m = .ok (r, m')) :
    m'.host = m.host ∧ ∃ k', outcomeIn (h₂.discreet k.funcs) b frame e k =
      .ok (r.map (Value.shift (m.gap k)), k') ∧ k'.host = k.host ∧ (k = m → b = a → k' = m') := by
  have hsim := Twin.sim_outcomeIn (T := m.apart h₁ h₂ k N (b = a)) Machine.lawful_apart
    (Machine.callers_apart hle) (Machine.rel_apart hle) hst.stores
    (fun vars hv p hp => Machine.knows_apart (Nat.le_refl _) (hframe vars hv p hp))
    (he.widen False.elim fun _ hn => hn)
  -- what the frame holds is older than the numbers that are moved
  have hsame : frame.shift (m.gap k) = frame := by
    refine (List.map_congr_left fun vars hv => ?_).trans (List.map_id frame)
    refine (List.map_congr_left fun p hp => ?_).trans (List.map_id vars)
    exact Prod.ext rfl (shift_of_before (hframe vars hv p hp))
  unfold Twin.Sim at hsim
  rw [hrun, show (m.apart h₁ h₂ k N (b = a)).shift = m.gap k from rfl, hsame] at hsim
  obtain ⟨k', hrun', hrel, -⟩ := hsim
  obtain ⟨hhost, hhost', halone⟩ := hrel.hosts
  exact ⟨hhost, k', hrun', hhost', fun hk hb => halone ⟨hk, hb⟩⟩

/-- Where no number is between, none is moved. -/
theorem map_shift_gap (m : Machine (Stage σ)) (r : Except EvalError Value) :
    r.map (Value.shift (m.gap m)) = r := by
  cases r with
  | error e => rfl
  | ok v => exact congrArg Except.ok (Value.shift_of_noGap (Nat.sub_self _) (Nat.sub_self _) v)

/-- On one machine, over another host of which the same is read, nothing is different. -/
theorem outcomeIn_elsewhere (hst : Store.Alike h₁ h₂ N m m a a) (hframe : frame.Before m.funcs)
    (he : e.Uses False fun n => N n ∨ frame.Binds n) {r : Except EvalError Value}
    {m' : Machine (Stage σ)} (hrun : outcomeIn (h₁.discreet m.funcs) a frame e m = .ok (r, m')) :
    m'.host = m.host ∧ outcomeIn (h₂.discreet m.funcs) a frame e m = .ok (r, m') := by
  obtain ⟨hhost, k', hrun', -, halone⟩ :=
    outcomeIn_later ⟨Nat.le_refl _, Nat.le_refl _⟩ hst hframe he hrun
  obtain rfl := halone rfl rfl
  rw [map_shift_gap] at hrun'
  exact ⟨hhost, hrun'⟩

/-! ### Any two machines -/

/-- Values over which an expression that uses some names can be evaluated at a moment: what they hold
under these names was made before. -/
def Over (N : Text → Prop) (m : Machine (Stage σ)) (A : Dict Value) : Prop :=
  ∀ n v, N n → A.get? n = some v → v.All (Func.Before m.funcs)

/-- A machine with room for all that was made on either of two. -/
def joined (m k : Machine (Stage σ)) : Machine (Stage σ) :=
  { m with funcs := m.funcs + k.funcs, scopes := m.scopes ++ k.scopes }

theorem precedes_joined (m k : Machine (Stage σ)) :
    m.Precedes (joined m k) ∧ k.Precedes (joined m k) := by
  refine ⟨⟨Nat.le_add_right _ _, ?_⟩, ⟨Nat.le_add_left _ _, ?_⟩⟩
  · simp [joined]
  · simp [joined]

/-- What an expression is evaluated to, where it is evaluated, if it holds no function that this
evaluation made. -/
structure Answers (h : Host (Stage σ)) (N : Text → Prop) (A : Dict Value) (frame : Frame) (e : Expr)
    (m : Machine (Stage σ)) (r : Except EvalError Value) : Prop where
  known : Over N m A
  locals : frame.Before m.funcs
  run : ∃ m', outcomeIn (h.discreet m.funcs) (.snapshot A) frame e m = .ok (r, m')
  before : ∀ v, r = .ok v → v.All (Func.Before m.funcs)

section

variable {A B : Dict Value} {r r' : Except EvalError Value}

/-- An answer at one moment is the answer at any later one, over values that are the same. -/
theorem Answers.later (h : Answers h₁ N A frame e m r) (hle : m.Precedes k)
    (hsame : ∀ n, N n → B.get? n = A.get? n) (he : e.Uses False fun n => N n ∨ frame.Binds n) :
    Answers h₂ N B frame e k r := by
  obtain ⟨m', hrun⟩ := h.run
  have hst : Store.Alike h₁ h₂ N m k (.snapshot A) (.snapshot B) :=
    .snapshot fun n hn => ⟨hsame n hn, fun v hv => h.known n v hn hv⟩
  obtain ⟨-, k', hrun', -⟩ := outcomeIn_later hle hst h.locals he hrun
  have hkept : r.map (Value.shift (m.gap k)) = r := by
    cases r with
    | error e => rfl
    | ok v => exact congrArg Except.ok (shift_of_before (h.before v rfl))
  rw [hkept] at hrun'
  have hlater : ∀ {v : Value}, v.All (Func.Before m.funcs) → v.All (Func.Before k.funcs) :=
    Value.All.mono fun _ hf => hf.mono hle.funcs
  exact ⟨fun n v hn hv => hlater (h.known n v hn (hsame n hn ▸ hv)), h.locals.mono hle.funcs,
    ⟨k', hrun'⟩, fun v hv => hlater (h.before v hv)⟩

/-- Two answers are the same. -/
theorem Answers.eq (h : Answers h₁ N A frame e m r) (h' : Answers h₂ N B frame e k r')
    (hsame : ∀ n, N n → B.get? n = A.get? n) (he : e.Uses False fun n => N n ∨ frame.Binds n) :
    r = r' := by
  -- neither moment need be the earlier one, so the two are compared at a third
  obtain ⟨hm, hk⟩ := precedes_joined m k
  have hlater : Answers h₂ N B frame e (joined m k) r := h.later hm hsame he
  have hlater' : Answers h₂ N B frame e (joined m k) r' := h'.later hk (fun _ _ => rfl) he
  obtain ⟨m₁, hrun⟩ := hlater.run
  obtain ⟨m₂, hrun'⟩ := hlater'.run
  rw [hrun] at hrun'
  exact (Prod.mk.inj (Except.ok.inj hrun')).1

end

end Block

end Reactive
