/-
Equal values in the place of each other.

Objects are equal whatever the order of their properties, so a program that
lists the properties of an object can tell equal objects apart.  Nothing else
can: an evaluation that lists no properties goes the same way whichever of two
values that differ in that order it reads.

* `Value.akin_of_equal` — equal data differ in the order of properties only;
* `listed_order_shows` — an expression tells equal objects apart;
* `display_of_akin` — an expression that lists no properties does not.
-/
import Reactive.Eval.Interp
import Reactive.Proofs.Eval.Held
import Reactive.Proofs.Eval.Together

namespace Reactive

variable {ω : Type}

/-- Data whose numbers are integers and whose objects name no property twice. -/
inductive Value.Exact : Value → Prop where
  | null : Exact .null
  | undefined : Exact .undefined
  | bool (b : Bool) : Exact (.bool b)
  | int (i : Int64) : Exact (.number (.int i))
  | str (t : Text) : Exact (.str t)
  | list {vs : List Value} (h : ∀ v ∈ vs, Exact v) : Exact (.list vs)
  | map {es : List (Text × Value)} (hkeys : (Dict.keys es).Nodup) (h : ∀ p ∈ es, Exact p.2) :
    Exact (.map es)

/-- Objects with the same properties, each with a value akin to the other, are akin. -/
theorem ObjectsAkin.of_get? {es gs : Dict Value} (hes : es.keys.Nodup)
    (hlen : es.length = gs.length)
    (h : ∀ p ∈ es, ∃ w, Dict.get? gs p.1 = some w ∧ p.2.Akin True w) : ObjectsAkin True es gs := by
  -- the properties of the second object in the order of the first
  let fs : Dict Value := es.map fun p => (p.1, (Dict.get? gs p.1).getD .undefined)
  have hkeys : fs.keys = es.keys := by
    simp only [fs, Dict.keys, List.map_map]
    rfl
  have hfs : DictsAkin True es fs := by
    refine List.forall₂_map_right_iff.2 (List.forall₂_same.2 fun p hp => ⟨rfl, ?_⟩)
    obtain ⟨w, hw, hpw⟩ := h p hp
    rw [hw]
    exact hpw
  have hmem : ∀ q ∈ fs, q ∈ gs := by
    intro q hq
    obtain ⟨p, hp, rfl⟩ := List.mem_map.1 hq
    obtain ⟨w, hw, -⟩ := h p hp
    rw [hw]
    exact Dict.mem_of_get? hw
  have hnodup : fs.Nodup := .of_map Prod.fst (hkeys ▸ hes : fs.keys.Nodup)
  have hperm : fs.Perm gs := by
    refine (List.subperm_of_subset hnodup hmem).perm_of_length_le ?_
    rw [List.length_map, hlen]
  exact ⟨fs, hfs, Or.inr ⟨trivial, hkeys ▸ hes, hperm⟩⟩

namespace Value

/-- Data with integers for numbers that are equal differ at most in the order of properties. -/
theorem akin_of_equal {v w : Value} (hv : v.Exact) (hw : w.Exact) (h : v.equal w = true) :
    v.Akin True w := by
  induction hv generalizing w with
  | null | undefined => cases hw <;> first | rfl | cases h
  | bool b =>
    cases hw with
    | bool c =>
      rw [eq_of_beq (show (b == c) = true from h)]
    | _ => cases h
  | int i =>
    cases hw with
    | int j =>
      rw [eq_of_beq (show (i == j) = true from h)]
    | _ => cases h
  | str t =>
    cases hw with
    | str u =>
      rw [eq_of_beq (show (t == u) = true from h)]
    | _ => cases h
  | @list vs hvs ih =>
    cases hw with
    | @list ws hws =>
      replace h : equalItems vs ws = true := h
      refine (akin_list _ _).2 ⟨ws, rfl, ?_⟩
      induction vs generalizing ws with
      | nil =>
        cases ws with
        | nil => exact .nil
        | cons _ _ => cases h
      | cons v r ihr =>
        cases ws with
        | nil => cases h
        | cons w s =>
          rw [equalItems, Bool.and_eq_true] at h
          rw [List.forall_mem_cons] at hws
          exact .cons (ih v (List.mem_cons_self ..) hws.1 h.1)
            (ihr (fun u hu => hvs u (List.mem_cons_of_mem _ hu))
              (fun u hu => ih u (List.mem_cons_of_mem _ hu)) hws.2 h.2)
    | _ => cases h
  | @map es hkeys _ ih =>
    cases hw with
    | @map gs _ hgs =>
      rw [equal, Bool.and_eq_true, equalEntries_eq_all, List.all_eq_true] at h
      refine (akin_object _ _).2 (.of_get? hkeys (eq_of_beq h.1) fun p hp => ?_)
      have hentry := h.2 p hp
      cases hg : Dict.get? gs p.1 with
      | none =>
        rw [hg] at hentry
        cases hentry
      | some w =>
        rw [hg] at hentry
        exact ⟨w, rfl, ih p hp (hgs _ (Dict.mem_of_get? hg)) hentry⟩
    | _ => cases h

end Value

/-! ### Expressions over values frozen at some moment -/

/-- An expression evaluated over values frozen at some moment. -/
def evalOver (c : Caller ω) (values : Dict Value) (e : Expr) : Run ω (Except EvalError Value) := do
  let env ← newScope (.store (.snapshot values)) []
  attempt (eval c env e)

/-- The text that an expression shows over frozen values, in a session over an empty dictionary. -/
def shownOver (values : Dict Value) (e : Expr) : Except Halt (Except EvalError Text) :=
  (evalOver dictHost.caller values e { host := [] }).map fun p => p.1.map Value.display

/-- Equal values without functions that an expression tells apart: an object lists its properties in
the order in which they were written. -/
theorem listed_order_shows : ∃ (values : Dict Value) (k : Text) (v w : Value) (e : Expr),
    v.equal w = true ∧ v.All (fun _ => False) ∧ w.All (fun _ => False) ∧
      shownOver (values.insert k v) e ≠ shownOver (values.insert k w) e := by
  let v : Value := .map [("a", .int 1), ("b", .int 2)]
  let w : Value := .map [("b", .int 2), ("a", .int 1)]
  let e : Expr := .call 0 (.member 0 (.ident 0 "Object") "keys" false) [.ident 0 "k"] false
  have hv : shownOver [("k", v)] e = .ok (.ok "a,b") := by with_unfolding_all rfl
  have hw : shownOver [("k", w)] e = .ok (.ok "b,a") := by with_unfolding_all rfl
  refine ⟨[], "k", v, w, e, rfl, ⟨trivial, trivial, trivial⟩, ⟨trivial, trivial, trivial⟩, ?_⟩
  show shownOver [("k", v)] e ≠ shownOver [("k", w)] e
  rw [hv, hw]
  exact nofun

/-- A function that lists the properties of an object in their order. -/
def Func.listsProperties (f : Func) : Bool :=
  match f.code with
  | .builtin b => b.listsProperties
  | _ => false

/-- The evaluator over a host, where functions that list properties cannot be called. -/
def Host.unlisting (h : Host ω) : Caller ω := h.callerUnless fun _ f => f.listsProperties

/-- Runs over one host that differ in the order of properties. -/
def Pair.reordered (h : Host ω) (R : ω → ω → Prop) : Pair ω where
  loose := True
  first := h
  second := h
  hosts := R
  refused := fun _ f => f.listsProperties
  lax := Halt.Any
  base := 0
  roots := fun _ => none
  fits := fun _ => True

/-- A host does the same with values that differ in the order of properties; `R` relates the states
it may be in then. -/
structure Host.Regards (h : Host ω) (R : ω → ω → Prop) : Prop where
  same : ∀ a, R a a
  read : ∀ a b, R a b → ∀ n, OptionsAkin True (h.read a n) (h.read b n)
  write : ∀ name v w, v.Akin True w →
    (Pair.reordered h R).SimE (fun _ _ => True) (h.write name v) (h.write name w)

/-- A dictionary does the same with values that differ in the order of properties. -/
theorem dictHost_regards : dictHost.Regards (DictsAkin True) where
  same := .refl
  read _ _ h n := h.get? n
  write name v w hvw := by
    refine Pair.Sim.step fun m₁ m₂ h => ⟨_, _, _, _, rfl, rfl, ?_, ⟨(), rfl, trivial⟩⟩
    exact h.of_scopes rfl rfl (h.hosts.insert name hvw) h.funcs h.logs

namespace Host.Regards

variable {h : Host ω} {R : ω → ω → Prop}

theorem lawful (hR : h.Regards R) : (Pair.reordered h R).Lawful where
  read := hR.read
  write _ := hR.write
  closure _ _ _ _ _ _ scope _ _ hlt := absurd hlt (Nat.not_lt_zero scope)
  lists _ _ f b hf hb := by
    show f.listsProperties = true
    rw [Func.listsProperties, hf]
    exact hb
  refused _ _ _ := trivial

theorem rel_refl (hR : h.Regards R) (m : Machine ω) : (Pair.reordered h R).Rel m m where
  base_le := Nat.zero_le _
  size := rfl
  funcs := rfl
  logs := rfl
  scope _ _ _ := .refl _ _
  hosts := hR.same _
  roots i hi := absurd hi (Nat.not_lt_zero i)
  fresh _ _ _ _ := trivial

/-- An evaluation that lists no properties, over values that are akin. -/
theorem sim_evalOver (hR : h.Regards R) {values values' : Dict Value}
    (hvalues : DictsAkin True values values') (e : Expr) :
    (Pair.reordered h R).Sim (OutcomesAkin True) (evalOver h.unlisting values e)
      (evalOver h.caller values' e) := by
  have hst : Pair.Stores True (.snapshot values) (.snapshot values') := ⟨values', rfl, hvalues⟩
  refine Pair.Sim.bind (Pair.sim_rootScope (P := Pair.reordered h R) hst trivial)
    fun env env' henv => ?_
  obtain ⟨rfl, hfits⟩ := henv
  exact Pair.SimE.attempt (Pair.sim_eval hR.lawful hfits e)

end Host.Regards

/-- An evaluation that lists no properties is the same where properties may be listed. -/
theorem evalOver_of_unlisting {h : Host ω} {values : Dict Value} {e : Expr} {m m' : Machine ω}
    {r : Except EvalError Value} (hrun : evalOver h.unlisting values e m = .ok (r, m')) :
    evalOver h.caller values e m = .ok (r, m') :=
  h.eval_of_callerUnless hrun

/-- Values that differ at most in the order of properties, in the place of each other: an expression
that lists no properties shows one text with both, or fails with one error, and writes the same lines
to the log. -/
theorem display_of_akin {h : Host ω} {R : ω → ω → Prop} (hR : h.Regards R) (m : Machine ω)
    (values : Dict Value) (k : Text) {v w : Value} (hvw : v.Akin True w) (e : Expr)
    {r : Except EvalError Value} {m₁ : Machine ω}
    (hrun : evalOver h.unlisting (values.insert k v) e m = .ok (r, m₁)) :
    evalOver h.caller (values.insert k v) e m = .ok (r, m₁) ∧
      ∃ r' m₂, evalOver h.caller (values.insert k w) e m = .ok (r', m₂) ∧
        r'.map Value.display = r.map Value.display ∧ m₂.logs = m₁.logs ∧ R m₁.host m₂.host := by
  refine ⟨evalOver_of_unlisting hrun, ?_⟩
  have hvalues : DictsAkin True (values.insert k v) (values.insert k w) :=
    (DictsAkin.refl values).insert k hvw
  have hsim := hR.sim_evalOver hvalues e m m (hR.rel_refl m)
  rw [hrun] at hsim
  obtain ⟨r', m₂, hrun', hrel, hout⟩ := hsim
  refine ⟨r', m₂, hrun', ?_, hrel.logs, hrel.hosts⟩
  cases r with
  | error e =>
    obtain rfl := hout
    rfl
  | ok a =>
    obtain ⟨b, rfl, hab⟩ := hout
    exact congrArg Except.ok hab.display

/-- A property of an object behind the text of the object, over a dictionary: the text is the same
whatever the order of the properties. -/
theorem display_of_akin_member : ∃ (e : Expr) (v w : Value) (r r' : Except EvalError Value)
    (m₁ m₂ : Machine (Dict Value)), v.equal w = true ∧ v ≠ w ∧
      evalOver dictHost.caller [("k", v)] e { host := [] } = .ok (r, m₁) ∧
      evalOver dictHost.caller [("k", w)] e { host := [] } = .ok (r', m₂) ∧
      r'.map Value.display = r.map Value.display := by
  let v : Value := .map [("a", .int 1), ("b", .int 2)]
  let w : Value := .map [("b", .int 2), ("a", .int 1)]
  let e : Expr := .binary 0 .add (.ident 0 "k") (.member 0 (.ident 0 "k") "b" false)
  have hvw : v.Akin True w := by
    refine Value.akin_of_equal (.map (by decide) fun p hp => ?_) (.map (by decide) fun p hp => ?_) rfl
    · rcases hp with _ | ⟨_, _ | ⟨_, ⟨⟩⟩⟩ <;> exact .int _
    · rcases hp with _ | ⟨_, _ | ⟨_, ⟨⟩⟩⟩ <;> exact .int _
  have hne : v ≠ w := by
    intro h
    injection h with h
    injection h with h
    exact absurd (congrArg Prod.fst h) (by decide)
  have hrun : evalOver dictHost.unlisting (Dict.insert [] "k" v) e { host := [] } =
      .ok (.ok (.str "[object Object]2"),
        { scopes := #[⟨[], [], .store (.snapshot [("k", v)])⟩], host := [] }) := by
    with_unfolding_all rfl
  obtain ⟨hv, r', m₂, hw, hdisplay, -⟩ := display_of_akin dictHost_regards _ [] "k" hvw e hrun
  exact ⟨e, v, w, _, r', _, m₂, rfl, hne, hv, hw, hdisplay⟩

end Reactive
