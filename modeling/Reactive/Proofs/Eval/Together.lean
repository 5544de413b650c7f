/-
Evaluations side by side.

Two evaluations of one expression on related machines go the same way: the
values they answer are akin, or they fail with one error.  The recursion
follows the evaluator, and a call inside an evaluation goes the same way
because the bodies of functions do, one level of nesting less.

* `Pair.sim_link`, `Pair.sim_statements` — expressions and statements, given
  calls that go the same way;
* `Pair.sim_call` — calls;
* `Pair.sim_eval`, `Pair.sim_exec` — evaluations, the first of which may
  refuse calls.
-/
import Reactive.Proofs.Eval.Calls
import Reactive.Proofs.Eval.Pair

namespace Reactive

namespace Pair

variable {ω α β : Type} {P : Pair ω} {m₁ m₂ : Machine ω}

/-! ### Parts of expressions -/

/-- Two values that are akin to two others. -/
def Twos (loose : Prop) (p q : Value × Value) : Prop := p.1.Akin loose q.1 ∧ p.2.Akin loose q.2

variable (P) in
/-- Two ways to change a value that go the same way. -/
def Changes (f g : Value → Eval ω (Value × Value)) : Prop :=
  ∀ v w, v.Akin P.loose w → P.SimE (Twos P.loose) (f v) (g w)

theorem sim_resolve (hlaw : P.Lawful) (env : Nat) (name : Text) :
    P.SimE (Value.Akin P.loose) (resolve P.first env name) (resolve P.second env name) := by
  refine SimE.look fun m₁ m₂ h => ?_
  have hname := h.lookup hlaw env name
  cases hv : m₁.lookup P.first env name with
  | none =>
    rw [hv] at hname
    rw [show m₂.lookup P.second env name = none from hname]
    dsimp only
    split
    · exact SimE.pure (.refl _)
    · exact SimE.throw _
  | some v =>
    rw [hv] at hname
    obtain ⟨w, hw, hvw⟩ := hname
    rw [hw]
    exact SimE.pure hvw

theorem sim_chain {x y : Eval ω (Option Value)} (h : P.SimE (OptionsAkin P.loose) x y) :
    P.SimE (Value.Akin P.loose) (chainValue x) (chainValue y) :=
  SimE.bind h fun _ _ hab => SimE.pure hab.getD

/-- The value of a computation as a link. -/
theorem sim_some {x y : Eval ω Value} (h : P.SimE (Value.Akin P.loose) x y) :
    P.SimE (OptionsAkin P.loose) (some <$> x) (some <$> y) :=
  SimE.map h fun _ b hab => ⟨b, rfl, hab⟩

theorem sim_guarded (optional : Bool) {v w : Value} (h : v.Akin P.loose w) {x y : Eval ω Value}
    (hrest : P.SimE (Value.Akin P.loose) x y) :
    P.SimE (OptionsAkin P.loose) (guarded optional v x) (guarded optional w y) := by
  unfold guarded
  rw [h.isNullish]
  split
  · exact SimE.pure rfl
  · exact sim_some hrest

theorem sim_asFunction (source : Text) {v w : Value} (h : v.Akin P.loose w) :
    P.SimE (Func.Akin P.loose) (asFunction source v) (asFunction source w) := by
  cases v with
  | func f =>
    obtain ⟨g, rfl, hfg⟩ := (Value.akin_func f w).1 h
    exact SimE.pure hfg
  | list vs =>
    obtain ⟨ws, rfl, -⟩ := (Value.akin_list vs w).1 h
    exact SimE.throw _
  | map es =>
    obtain ⟨_, gs, rfl, -⟩ := (Value.akin_map es w).1 h
    exact SimE.throw _
  | _ =>
    obtain rfl := h.eq_of_not_composite rfl
    exact SimE.throw _

theorem sim_setMember {v w : Value} (h : v.Akin P.loose w) (name : Text)
    {f g : Value → Eval ω (Value × Value)} (hf : P.Changes f g) :
    P.SimE (Twos P.loose) (setMember v name f) (setMember w name g) := by
  cases v with
  | map es =>
    obtain ⟨fs, gs, rfl, hobj⟩ := (Value.akin_map es w).1 h
    have hobj : ObjectsAkin P.loose es gs := ⟨fs, hobj⟩
    refine SimE.bind (hf _ _ (hobj.get? name).getD) fun p q hpq => SimE.pure ⟨?_, hpq.2⟩
    exact (Value.akin_object _ _).2 (hobj.insert name hpq.1)
  | list vs =>
    obtain ⟨ws, rfl, -⟩ := (Value.akin_list vs w).1 h
    exact SimE.throw _
  | func f =>
    obtain ⟨g, rfl, -⟩ := (Value.akin_func f w).1 h
    exact SimE.throw _
  | _ =>
    obtain rfl := h.eq_of_not_composite rfl
    exact SimE.throw _

theorem sim_setItemAt {v w : Value} (h : v.Akin P.loose w) {key key' : Value}
    (hkey : key.Akin P.loose key') {f g : Value → Eval ω (Value × Value)} (hf : P.Changes f g) :
    P.SimE (Twos P.loose) (setItemAt v key f) (setItemAt w key' g) := by
  have hmember := sim_setMember h key.toText hf
  unfold setItemAt
  rw [indexOf?_akin hkey, hkey.toText]
  cases v with
  | list vs =>
    obtain ⟨ws, rfl, hitems⟩ := (Value.akin_list vs w).1 h
    dsimp only
    cases indexOf? key with
    | none => exact SimE.throw _
    | some i =>
      refine SimE.bind (hf _ _ (hitems.item i)) fun p q hpq => SimE.pure ⟨?_, hpq.2⟩
      exact (Value.akin_list _ _).2 ⟨_, rfl, hitems.setItem i hpq.1⟩
  | map es =>
    obtain ⟨_, gs, rfl, -⟩ := (Value.akin_map es w).1 h
    exact hmember
  | func f =>
    obtain ⟨g, rfl, -⟩ := (Value.akin_func f w).1 h
    exact hmember
  | _ =>
    obtain rfl := h.eq_of_not_composite rfl
    exact hmember

theorem sim_member {v w : Value} (h : v.Akin P.loose w) (name : Text) :
    P.SimE (Value.Akin P.loose) (member v name : Eval ω Value) (member w name) := by
  have hbound : ∀ {c d : Code}, c.Akin P.loose d → P.SimE (Value.Akin P.loose)
      (do return .func (← sure (newFunc name c)) : Eval ω Value)
      (do return .func (← sure (newFunc name d))) :=
    fun hcode => SimE.bind (Sim.sure (sim_newFunc name hcode)) fun f g hfg =>
      SimE.pure ((Value.akin_func _ _).2 ⟨g, rfl, hfg⟩)
  unfold member
  cases v with
  | map es =>
    obtain ⟨fs, gs, rfl, hobj⟩ := (Value.akin_map es w).1 h
    exact SimE.pure (ObjectsAkin.get? ⟨fs, hobj⟩ name).getD
  | list vs =>
    obtain ⟨ws, rfl, hitems⟩ := (Value.akin_list vs w).1 h
    dsimp only
    rw [hitems.length_eq]
    split
    · exact SimE.pure (.refl _)
    · split
      · exact hbound ((Code.akin_listMethod _ _ _).2 ⟨ws, rfl, hitems⟩)
      · exact SimE.pure (.refl _)
  | func f =>
    obtain ⟨g, rfl, hfg⟩ := (Value.akin_func f w).1 h
    dsimp only
    rw [hfg.name]
    exact SimE.pure (.refl _)
  | str s =>
    obtain rfl := h.eq_of_not_composite rfl
    dsimp only
    split
    · exact SimE.pure (.refl _)
    · split
      · exact hbound rfl
      · exact SimE.pure (.refl _)
  | number n =>
    obtain rfl := h.eq_of_not_composite rfl
    dsimp only
    split
    · exact hbound rfl
    · split
      · exact hbound rfl
      · exact SimE.pure (.refl _)
  | bool b =>
    obtain rfl := h.eq_of_not_composite rfl
    dsimp only
    split
    · exact hbound rfl
    · exact SimE.pure (.refl _)
  | _ =>
    obtain rfl := h.eq_of_not_composite rfl
    exact SimE.throw _

theorem sim_itemAt {v w key key' : Value} (h : v.Akin P.loose w) (hkey : key.Akin P.loose key') :
    P.SimE (Value.Akin P.loose) (itemAt v key : Eval ω Value) (itemAt w key') := by
  have hmember := sim_member (ω := ω) (P := P) h key.toText
  unfold itemAt
  rw [indexOf?_akin hkey, hkey.toText]
  cases v with
  | list vs =>
    obtain ⟨ws, rfl, hitems⟩ := (Value.akin_list vs w).1 h
    cases indexOf? key with
    | none => exact hmember
    | some i => exact SimE.pure (hitems.item i)
  | str s =>
    obtain rfl := h.eq_of_not_composite rfl
    cases indexOf? key with
    | none => exact hmember
    | some i => exact SimE.pure (.refl _)
  | map es =>
    obtain ⟨_, gs, rfl, -⟩ := (Value.akin_map es w).1 h
    exact hmember
  | func f =>
    obtain ⟨g, rfl, -⟩ := (Value.akin_func f w).1 h
    exact hmember
  | _ =>
    obtain rfl := h.eq_of_not_composite rfl
    exact hmember

theorem sim_hoist (env : Nat) (ss : List Stmt) :
    P.Sim (fun _ _ => True) (hoist env ss) (hoist env ss) := by
  induction ss with
  | nil => exact Sim.pure trivial
  | cons s r ih =>
    cases s with
    | func _ name params body _ _ =>
      refine Sim.bind (sim_newFunc name (d := .closure params (.block body) env) rfl)
        fun f g hfg => ?_
      refine Sim.bind (sim_define env name ?_) fun _ _ _ => ih
      exact (Value.akin_func _ _).2 ⟨g, rfl, hfg⟩
    | _ => exact ih

/-! ### Functions of lists -/

variable (P) in
/-- Calls that go the same way. -/
def Calls (call call' : Func → List Value → Eval ω Value) : Prop :=
  ∀ f g, f.Akin P.loose g → ∀ vs ws, ItemsAkin P.loose vs ws →
    P.SimE (Value.Akin P.loose) (call f vs) (call' g ws)

section

variable {call call' : Func → List Value → Eval ω Value}

/-- A call on an item and its place. -/
theorem Calls.at (hc : P.Calls call call') {f g : Func} (hfg : f.Akin P.loose g) {v w : Value}
    (hvw : v.Akin P.loose w) (i : Nat) :
    P.SimE (Value.Akin P.loose) (call f [v, .int i]) (call' g [w, .int i]) :=
  hc f g hfg _ _ (.cons hvw (.cons (.refl _) .nil))

theorem sim_callbackMap (hc : P.Calls call call') {f g : Func} (hfg : f.Akin P.loose g)
    {vs ws : List Value} (h : ItemsAkin P.loose vs ws) : ∀ i : Nat,
      P.SimE (ItemsAkin P.loose) (Callback.map call f i vs) (Callback.map call' g i ws) := by
  induction h with
  | nil => exact fun i => SimE.pure .nil
  | cons hvw _ ih =>
    exact fun i => SimE.bind (hc.at hfg hvw i) fun a b hab =>
      SimE.bind (ih (i + 1)) fun as bs habs => SimE.pure (.cons hab habs)

theorem sim_callbackFilter (hc : P.Calls call call') {f g : Func} (hfg : f.Akin P.loose g)
    {vs ws : List Value} (h : ItemsAkin P.loose vs ws) : ∀ i : Nat,
      P.SimE (ItemsAkin P.loose) (Callback.filter call f i vs) (Callback.filter call' g i ws) := by
  induction h with
  | nil => exact fun i => SimE.pure .nil
  | cons hvw _ ih =>
    refine fun i => SimE.bind (hc.at hfg hvw i) fun a b hab =>
      SimE.bind (ih (i + 1)) fun as bs habs => SimE.pure ?_
    rw [hab.truthy]
    split
    · exact .cons hvw habs
    · exact habs

/-- What was found, and where. -/
def Founds (loose : Prop) : Option (Nat × Value) → Option (Nat × Value) → Prop
  | none, b => b = none
  | some (i, v), b => ∃ w, b = some (i, w) ∧ v.Akin loose w

theorem sim_callbackFind (hc : P.Calls call call') {f g : Func} (hfg : f.Akin P.loose g)
    {vs ws : List Value} (h : ItemsAkin P.loose vs ws) : ∀ i : Nat,
      P.SimE (Founds P.loose) (Callback.find? call f i vs) (Callback.find? call' g i ws) := by
  induction h with
  | nil => exact fun i => SimE.pure rfl
  | @cons v w r s hvw _ ih =>
    refine fun i => SimE.bind (hc.at hfg hvw i) fun a b hab => ?_
    rw [hab.truthy]
    cases a.truthy with
    | true => exact SimE.pure ⟨w, rfl, hvw⟩
    | false => exact ih (i + 1)

theorem sim_callbackAll (hc : P.Calls call call') {f g : Func} (hfg : f.Akin P.loose g)
    {vs ws : List Value} (h : ItemsAkin P.loose vs ws) : ∀ i : Nat,
      P.SimE Eq (Callback.all call f i vs) (Callback.all call' g i ws) := by
  induction h with
  | nil => exact fun i => SimE.pure rfl
  | cons hvw _ ih =>
    refine fun i => SimE.bind (hc.at hfg hvw i) fun a b hab => ?_
    rw [hab.truthy]
    cases a.truthy with
    | true => exact ih (i + 1)
    | false => exact SimE.pure rfl

theorem sim_callbackFold (hc : P.Calls call call') {f g : Func} (hfg : f.Akin P.loose g)
    {vs ws : List Value} (h : ItemsAkin P.loose vs ws) : ∀ (a b : Value), a.Akin P.loose b →
      ∀ i : Nat, P.SimE (Value.Akin P.loose) (Callback.fold call f a i vs)
        (Callback.fold call' g b i ws) := by
  induction h with
  | nil => exact fun a b hab i => SimE.pure hab
  | cons hvw _ ih =>
    refine fun a b hab i => SimE.bind (hc f g hfg _ _ ?_) fun a' b' hab' => ih a' b' hab' (i + 1)
    exact .cons hab (.cons hvw (.cons (.refl _) .nil))

/-- The items folded from the first one on. -/
theorem sim_foldFront (hc : P.Calls call call') {f g : Func} (hfg : f.Akin P.loose g) :
    ∀ {vs ws : List Value}, ItemsAkin P.loose vs ws → P.SimE (Value.Akin P.loose)
      (match vs with
        | [] => throw .emptyReduce
        | v :: r => Callback.fold call f v 1 r)
      (match ws with
        | [] => throw .emptyReduce
        | v :: r => Callback.fold call' g v 1 r)
  | _, _, .nil => SimE.throw _
  | _, _, .cons hvw hr => sim_callbackFold hc hfg hr _ _ hvw 1

variable (P) in
/-- Comparisons that go the same way, with the first failure of each run on the side. -/
def comparisons : MonadRel (StateT (Option EvalError) (Run ω)) (StateT (Option EvalError) (Run ω))
    where
  rel Q x y := ∀ seen, P.Sim (fun p q => Q p.1 q.1 ∧ q.2 = p.2) (x.run seen) (y.run seen)
  pure hab _ := Sim.pure ⟨hab, rfl⟩
  bind := by
    intro α β Q Q' x y f f' hx hf seen
    show P.Sim _ (x.run seen >>= fun p => (f p.1).run p.2) (y.run seen >>= fun p => (f' p.1).run p.2)
    refine Sim.bind (hx seen) ?_
    rintro ⟨a, s⟩ ⟨b, t⟩ ⟨hab, rfl⟩
    exact hf a b hab t

theorem sim_less (hc : P.Calls call call') {f g : Func} (hfg : f.Akin P.loose g) {a b a' b' : Value}
    (ha : a.Akin P.loose a') (hb : b.Akin P.loose b') :
    (comparisons P).rel Eq (Callback.less call f a b) (Callback.less call' g a' b') := by
  intro seen m₁ m₂ hrel
  have hsim := hc f g hfg _ _ (.cons ha (.cons hb .nil)) m₁ m₂ hrel
  unfold StateT.run
  rw [Twin.less_apply, Twin.less_apply]
  cases hr : (call f [a, b]).run m₁ with
  | error e =>
    rw [hr] at hsim
    exact hsim.imp_right fun hr' => by rw [hr']
  | ok p =>
    obtain ⟨r, m₁'⟩ := p
    rw [hr] at hsim
    obtain ⟨r', m₂', hr', hrel', hout⟩ := hsim
    rw [hr']
    cases r with
    | error e =>
      obtain rfl := hout
      exact ⟨_, m₂', rfl, hrel', rfl, rfl⟩
    | ok v =>
      obtain ⟨w, rfl, hvw⟩ := hout
      refine ⟨_, m₂', rfl, hrel', ?_, rfl⟩
      rw [hvw.toNumber]

/-- Items sorted without a callback. -/
theorem sim_sortBy {less : Value → Value → Id Bool}
    (hless : ∀ v w v' w', v.Akin P.loose v' → w.Akin P.loose w' → less v w = less v' w')
    {vs ws : List Value} (h : ItemsAkin P.loose vs ws) :
    P.SimE (ItemsAkin P.loose) (pure (Id.run (Sort.sort less vs)))
      (pure (Id.run (Sort.sort less ws))) := by
  let R : MonadRel Id Id := ⟨fun Q x y => Q x y, fun h => h, fun hx hf => hf _ _ hx⟩
  have hsort : R.rel (ItemsAkin P.loose) (Sort.sort less vs) (Sort.sort less ws) :=
    Sort.sort_forall₂ (q := Value.Akin P.loose) hless (fun _ _ h => h) h
  exact SimE.pure hsort

theorem sim_callbackSort (hc : P.Calls call call') {cmp cmp' : Value}
    (hcmp : cmp.Akin P.loose cmp') {vs ws : List Value} (h : ItemsAkin P.loose vs ws) :
    P.SimE (ItemsAkin P.loose) (Callback.sort call cmp vs) (Callback.sort call' cmp' ws) := by
  have htext := sim_sortBy (P := P) (fun v w v' w' hv hw =>
    show (Text.lt v.toText w.toText : Id Bool) = Text.lt v'.toText w'.toText by
      rw [hv.toText, hw.toText]) h
  unfold Callback.sort
  cases cmp with
  | func f =>
    obtain ⟨g, rfl, hfg⟩ := (Value.akin_func f cmp').1 hcmp
    have hless : ∀ v w v' w', v.Akin P.loose v' → w.Akin P.loose w' → (comparisons P).rel Eq
        (Callback.less call f v w) (Callback.less call' g v' w') :=
      fun v w v' w' hv hw => sim_less hc hfg hv hw
    have hsort : (comparisons P).rel (ItemsAkin P.loose) (Sort.sort (Callback.less call f) vs)
        (Sort.sort (Callback.less call' g) ws) :=
      Sort.sort_forall₂ (q := Value.Akin P.loose) hless (fun _ _ hab => hab) h
    have hsort : P.Sim (fun p q => ItemsAkin P.loose p.1 q.1 ∧ q.2 = p.2)
        ((Sort.sort (Callback.less call f) vs).run none)
        ((Sort.sort (Callback.less call' g) ws).run none) := hsort none
    refine SimE.bind (Sim.sure hsort) ?_
    rintro ⟨as, seen⟩ ⟨bs, seen'⟩ ⟨habs, hseen⟩
    obtain rfl : seen' = seen := hseen
    cases seen' with
    | none => exact SimE.pure habs
    | some e => exact SimE.throw e
  | list us =>
    obtain ⟨ts, rfl, -⟩ := (Value.akin_list us cmp').1 hcmp
    exact htext
  | map es =>
    obtain ⟨_, gs, rfl, -⟩ := (Value.akin_map es cmp').1 hcmp
    exact htext
  | _ =>
    obtain rfl := hcmp.eq_of_not_composite rfl
    exact htext

/-- The callback among the arguments of a list method. -/
theorem sim_callback (method : ListMethod) {as bs : List Value} (h : ItemsAkin P.loose as bs) :
    P.SimE (Func.Akin P.loose)
      (match argument as 0 with
        | .func f => pure f
        | _ => throw (EvalError.badCallback method.name) : Eval ω Func)
      (match argument bs 0 with
        | .func f => pure f
        | _ => throw (EvalError.badCallback method.name)) := by
  have hcallback := h.argument 0
  revert hcallback
  generalize argument as 0 = v, argument bs 0 = w
  intro hcallback
  cases v with
  | func f =>
    obtain ⟨g, rfl, hfg⟩ := (Value.akin_func f w).1 hcallback
    exact SimE.pure hfg
  | list vs =>
    obtain ⟨ws, rfl, -⟩ := (Value.akin_list vs w).1 hcallback
    exact SimE.throw _
  | map es =>
    obtain ⟨_, gs, rfl, -⟩ := (Value.akin_map es w).1 hcallback
    exact SimE.throw _
  | _ =>
    obtain rfl := hcallback.eq_of_not_composite rfl
    exact SimE.throw _

theorem sim_listMethod (hc : P.Calls call call') (method : ListMethod) {vs ws as bs : List Value}
    (h : ItemsAkin P.loose vs ws) (hargs : ItemsAkin P.loose as bs) :
    P.SimE (Value.Akin P.loose) (method.apply call vs as) (method.apply call' ws bs) := by
  have hlist : ∀ {x y : Eval ω (List Value)}, P.SimE (ItemsAkin P.loose) x y →
      P.SimE (Value.Akin P.loose) (do return .list (← x)) (do return .list (← y)) :=
    fun hxy => SimE.bind hxy fun _ bs hab =>
      SimE.pure ((Value.akin_list _ _).2 ⟨bs, rfl, hab⟩)
  have hitems : ∀ {us ts : List Value}, ItemsAkin P.loose us ts →
      P.SimE (ω := ω) (Value.Akin P.loose) (pure (.list us)) (pure (.list ts)) :=
    fun hus => SimE.pure ((Value.akin_list _ _).2 ⟨_, rfl, hus⟩)
  have hcallback := sim_callback (P := P) method hargs
  unfold ListMethod.apply
  cases method with
  | map => exact SimE.bind hcallback fun f g hfg => hlist (sim_callbackMap hc hfg h 0)
  | filter => exact SimE.bind hcallback fun f g hfg => hlist (sim_callbackFilter hc hfg h 0)
  | find =>
    refine SimE.bind hcallback fun f g hfg =>
      SimE.bind (sim_callbackFind hc hfg h 0) fun r r' hr => ?_
    cases r with
    | none =>
      obtain rfl := hr
      exact SimE.pure (.refl _)
    | some p =>
      obtain ⟨w, rfl, hvw⟩ := hr
      exact SimE.pure hvw
  | findIndex =>
    refine SimE.bind hcallback fun f g hfg =>
      SimE.bind (sim_callbackFind hc hfg h 0) fun r r' hr => ?_
    cases r with
    | none =>
      obtain rfl := hr
      exact SimE.pure (.refl _)
    | some p =>
      obtain ⟨w, rfl, hvw⟩ := hr
      exact SimE.pure (.refl _)
  | any =>
    refine SimE.bind hcallback fun f g hfg =>
      SimE.bind (sim_callbackFind hc hfg h 0) fun r r' hr => ?_
    cases r with
    | none =>
      obtain rfl := hr
      exact SimE.pure (.refl _)
    | some p =>
      obtain ⟨w, rfl, hvw⟩ := hr
      exact SimE.pure (.refl _)
  | every =>
    refine SimE.bind hcallback fun f g hfg =>
      SimE.bind (sim_callbackAll hc hfg h 0) fun a b hab => ?_
    subst hab
    exact SimE.pure (.refl _)
  | forEach =>
    exact SimE.bind hcallback fun f g hfg =>
      SimE.bind (sim_callbackMap hc hfg h 0) fun _ _ _ => SimE.pure (.refl _)
  | reduce =>
    refine SimE.bind hcallback fun f g hfg => ?_
    have hfront := sim_foldFront hc hfg h
    cases hargs with
    | nil => exact hfront
    | cons _ hrest =>
      cases hrest with
      | nil => exact hfront
      | cons hstart _ => exact sim_callbackFold hc hfg h _ _ hstart 0
  | sort => exact hlist (sim_callbackSort hc (hargs.argument 0) h)
  | join =>
    dsimp only
    rw [(hargs.argument 0).isNullish, (hargs.argument 0).toText, h.itemTexts]
    exact SimE.pure (.refl _)
  | includes | indexOf =>
    dsimp only
    rw [h.indexOfValue (hargs.argument 0)]
    exact SimE.pure (.refl _)
  | «at» =>
    dsimp only
    rw [hargs.intArgument, h.length_eq]
    exact SimE.pure (h.item _)
  | slice =>
    dsimp only
    rw [hargs.intArgument, hargs.intArgument, h.length_eq]
    exact hitems (h.slice _ _)
  | concat => exact hitems (h.concatValues hargs)
  | reverse => exact hitems h.reverse

/-! ### Expressions and statements -/

mutual

theorem sim_link (hlaw : P.Lawful) (hc : P.Calls call call') : ∀ (e : Expr) (env : Nat),
    P.Fits env → P.SimE (OptionsAkin P.loose) (link ⟨P.first, call⟩ env e)
      (link ⟨P.second, call'⟩ env e)
  | .literal _ v, env, _ => SimE.pure (.refl _)
  | .ident _ n, env, _ => sim_some (sim_resolve hlaw env n)
  | .template _ quasis es, env, henv =>
    SimE.bind (sim_templateText hlaw hc es env henv quasis) fun t u htu => by
      subst htu
      exact SimE.pure (.refl _)
  | .array _ es, env, henv =>
    SimE.bind (sim_elements hlaw hc es env henv) fun vs ws h =>
      SimE.pure ⟨_, rfl, (Value.akin_list _ _).2 ⟨ws, rfl, h⟩⟩
  | .object _ ps, env, henv =>
    SimE.bind (sim_properties hlaw hc ps env henv (.nil)) fun es fs h =>
      SimE.pure ⟨_, rfl, (Value.akin_object _ _).2 (.of_dicts h)⟩
  | .spread _ _, env, _ => SimE.throw _
  | .member _ o name opt, env, henv => by
    refine SimE.bind (sim_link hlaw hc o env henv) fun r r' hr => ?_
    cases r with
    | none =>
      obtain rfl := hr
      exact SimE.pure rfl
    | some v =>
      obtain ⟨w, rfl, hvw⟩ := hr
      exact sim_guarded opt hvw (sim_member hvw name)
  | .index _ o k opt, env, henv => by
    refine SimE.bind (sim_link hlaw hc o env henv) fun r r' hr => ?_
    cases r with
    | none =>
      obtain rfl := hr
      exact SimE.pure rfl
    | some v =>
      obtain ⟨w, rfl, hvw⟩ := hr
      refine sim_guarded opt hvw ?_
      exact SimE.bind (sim_chain (sim_link hlaw hc k env henv)) fun key key' hkey =>
        sim_itemAt hvw hkey
  | .call _ f args opt, env, henv => by
    refine SimE.bind (sim_link hlaw hc f env henv) fun r r' hr => ?_
    cases r with
    | none =>
      obtain rfl := hr
      exact SimE.pure rfl
    | some v =>
      obtain ⟨w, rfl, hvw⟩ := hr
      refine sim_guarded opt hvw ?_
      refine SimE.bind (sim_asFunction f.text hvw) fun fn gn hfn => ?_
      exact SimE.bind (sim_elements hlaw hc args env henv) fun vs ws h => hc fn gn hfn vs ws h
  | .unary _ op e, env, henv => by
    refine SimE.bind (Sim.sure (SimE.attempt (sim_chain (sim_link hlaw hc e env henv))))
      fun r r' hr => ?_
    cases r with
    | ok v =>
      obtain ⟨w, rfl, hvw⟩ := hr
      dsimp only
      rw [op.apply_akin hvw]
      exact SimE.pure (.refl _)
    | error err =>
      obtain rfl := hr
      dsimp only
      split
      · exact SimE.pure (.refl _)
      · exact SimE.throw err
  | .binary _ op l r, env, henv => by
    refine SimE.bind (sim_chain (sim_link hlaw hc l env henv)) fun a a' ha => ?_
    rw [op.needsRight_akin ha]
    split
    · refine SimE.bind (sim_chain (sim_link hlaw hc r env henv)) fun b b' hb => ?_
      exact sim_some (SimE.ofOutcome (op.apply_akin ha hb))
    · exact SimE.pure ⟨a', rfl, ha⟩
  | .conditional _ t y n, env, henv => by
    refine SimE.bind (sim_chain (sim_link hlaw hc t env henv)) fun a a' ha => ?_
    rw [ha.truthy]
    split
    · exact sim_some (sim_chain (sim_link hlaw hc y env henv))
    · exact sim_some (sim_chain (sim_link hlaw hc n env henv))
  | .arrow _ params body, env, _ =>
    SimE.bind (Sim.sure (sim_newFunc [] (d := .closure params body env) rfl)) fun f g hfg =>
      SimE.pure ⟨_, rfl, (Value.akin_func _ _).2 ⟨g, rfl, hfg⟩⟩
  | .assign _ op t v, env, henv => by
    have hset : P.SimE (OptionsAkin P.loose) (do
        let new ← chainValue (link ⟨P.first, call⟩ env v)
        some <$> update ⟨P.first, call⟩ env t fun _ => return (new, new)) (do
        let new ← chainValue (link ⟨P.second, call'⟩ env v)
        some <$> update ⟨P.second, call'⟩ env t fun _ => return (new, new)) :=
      SimE.bind (sim_chain (sim_link hlaw hc v env henv)) fun new new' hnew =>
        sim_some (sim_update hlaw hc t env henv fun _ _ _ => SimE.pure ⟨hnew, hnew⟩)
    cases op with
    | set => exact hset
    | update bop =>
      rw [link, link]
      split
      · refine SimE.bind (sim_chain (sim_link hlaw hc t env henv)) fun old old' hold => ?_
        rw [bop.needsRight_akin hold]
        split
        · exact hset
        · exact SimE.pure ⟨old', rfl, hold⟩
      · refine sim_some (sim_update hlaw hc t env henv fun old old' hold => ?_)
        refine SimE.bind (sim_chain (sim_link hlaw hc v env henv)) fun right right' hright => ?_
        exact SimE.bind (SimE.ofOutcome (bop.apply_akin hold hright)) fun new new' hnew =>
          SimE.pure ⟨hnew, hnew⟩
  | .step _ op before t, env, henv => by
    refine sim_some (sim_update hlaw hc t env henv fun old old' hold => ?_)
    rw [op.apply_akin hold]
    exact SimE.pure ⟨.refl _, .refl _⟩

theorem sim_update (hlaw : P.Lawful) (hc : P.Calls call call') : ∀ (t : Expr) (env : Nat),
    P.Fits env → ∀ {f g : Value → Eval ω (Value × Value)}, P.Changes f g →
      P.SimE (Value.Akin P.loose) (update ⟨P.first, call⟩ env t f)
        (update ⟨P.second, call'⟩ env t g)
  | .ident _ name, env, henv, _, _, hf =>
    SimE.look fun _ _ h => SimE.bind (hf _ _ (h.lookup hlaw env name).getD) fun _ _ hpq =>
      SimE.bind (sim_assign hlaw henv name hpq.1) fun _ _ _ => SimE.pure hpq.2
  | .member _ o name _, env, henv, _, _, hf =>
    sim_update hlaw hc o env henv fun _ _ h => sim_setMember h name hf
  | .index _ o k _, env, henv, _, _, hf =>
    SimE.bind (sim_chain (sim_link hlaw hc k env henv)) fun _ _ hkey =>
      sim_update hlaw hc o env henv fun _ _ h => sim_setItemAt h hkey hf
  | .literal .., _, _, _, _, _ | .template .., _, _, _, _, _ | .array .., _, _, _, _, _
  | .object .., _, _, _, _, _ | .spread .., _, _, _, _, _ | .call .., _, _, _, _, _
  | .unary .., _, _, _, _, _ | .binary .., _, _, _, _, _ | .conditional .., _, _, _, _, _
  | .arrow .., _, _, _, _, _ | .assign .., _, _, _, _, _ | .step .., _, _, _, _, _ => SimE.throw _

theorem sim_templateText (hlaw : P.Lawful) (hc : P.Calls call call') :
    ∀ (es : List Expr) (env : Nat), P.Fits env → ∀ quasis : List Text,
      P.SimE Eq (templateText ⟨P.first, call⟩ env quasis es)
        (templateText ⟨P.second, call'⟩ env quasis es)
  | [], env, _, quasis => SimE.pure rfl
  | e :: r, env, henv, quasis => by
    cases quasis with
    | nil => exact SimE.pure rfl
    | cons q qs =>
      refine SimE.bind (sim_chain (sim_link hlaw hc e env henv)) fun v w hvw => ?_
      refine SimE.bind (sim_templateText hlaw hc r env henv qs) fun t u htu => SimE.pure ?_
      rw [hvw.toText, htu]

theorem sim_elements (hlaw : P.Lawful) (hc : P.Calls call call') :
    ∀ (es : List Expr) (env : Nat), P.Fits env →
      P.SimE (ItemsAkin P.loose) (elements ⟨P.first, call⟩ env es)
        (elements ⟨P.second, call'⟩ env es)
  | [], env, _ => SimE.pure .nil
  | e :: r, env, henv => by
    have hplain : P.SimE (ItemsAkin P.loose) (do
        let v ← chainValue (link ⟨P.first, call⟩ env e)
        return v :: (← elements ⟨P.first, call⟩ env r)) (do
        let v ← chainValue (link ⟨P.second, call'⟩ env e)
        return v :: (← elements ⟨P.second, call'⟩ env r)) :=
      SimE.bind (sim_chain (sim_link hlaw hc e env henv)) fun _ _ hvw =>
        SimE.bind (sim_elements hlaw hc r env henv) fun _ _ h => SimE.pure (.cons hvw h)
    cases e with
    | spread _ a =>
      refine SimE.bind (sim_chain (sim_link hlaw hc a env henv)) fun v w hvw => ?_
      cases v with
      | list vs =>
        obtain ⟨ws, rfl, hitems⟩ := (Value.akin_list vs w).1 hvw
        exact SimE.bind (sim_elements hlaw hc r env henv) fun _ _ h => SimE.pure (hitems.append h)
      | func f =>
        obtain ⟨g, rfl, -⟩ := (Value.akin_func f w).1 hvw
        exact SimE.throw _
      | map es =>
        obtain ⟨_, gs, rfl, -⟩ := (Value.akin_map es w).1 hvw
        exact SimE.throw _
      | _ =>
        obtain rfl := hvw.eq_of_not_composite rfl
        exact SimE.throw _
    | _ => exact hplain

theorem sim_properties (hlaw : P.Lawful) (hc : P.Calls call call') :
    ∀ (ps : List Property) (env : Nat), P.Fits env → ∀ {es fs : Dict Value},
      DictsAkin P.loose es fs → P.SimE (DictsAkin P.loose)
        (properties ⟨P.first, call⟩ env es ps) (properties ⟨P.second, call'⟩ env fs ps)
  | [], _, _, _, _, h => SimE.pure h
  | .mk k e _ :: r, env, henv, _, _, h =>
    SimE.bind (sim_chain (sim_link hlaw hc e env henv)) fun _ _ hvw =>
      sim_properties hlaw hc r env henv (h.insert k hvw)

theorem sim_statements (hlaw : P.Lawful) (hc : P.Calls call call') :
    ∀ (ss : List Stmt) (env : Nat), P.Fits env →
      P.SimE (OptionsAkin P.loose) (statements ⟨P.first, call⟩ env ss)
        (statements ⟨P.second, call'⟩ env ss)
  | [], env, _ => SimE.pure rfl
  | s :: r, env, henv => by
    have hplain : P.SimE (OptionsAkin P.loose) (do
        match ← statement ⟨P.first, call⟩ env s with
        | some v => return some v
        | none => statements ⟨P.first, call⟩ env r) (do
        match ← statement ⟨P.second, call'⟩ env s with
        | some v => return some v
        | none => statements ⟨P.second, call'⟩ env r) := by
      refine SimE.bind (sim_statement hlaw hc s env henv) fun v w hvw => ?_
      cases v with
      | some v =>
        obtain ⟨w, rfl, hvw⟩ := hvw
        exact SimE.pure ⟨w, rfl, hvw⟩
      | none =>
        obtain rfl := hvw
        exact sim_statements hlaw hc r env henv
    cases s with
    | func => exact sim_statements hlaw hc r env henv
    | _ => exact hplain

theorem sim_statement (hlaw : P.Lawful) (hc : P.Calls call call') :
    ∀ (s : Stmt) (env : Nat), P.Fits env →
      P.SimE (OptionsAkin P.loose) (statement ⟨P.first, call⟩ env s)
        (statement ⟨P.second, call'⟩ env s)
  | .expr _ e, env, henv => SimE.bind (sim_link hlaw hc e env henv) fun _ _ _ => SimE.pure rfl
  | .decl _ kind name init _, env, henv => by
    have hrest : ∀ v w : Value, v.Akin P.loose w → P.SimE (OptionsAkin P.loose) (do
        if kind = .const then sure (defineConst env name v)
        else sure (define env name v)
        return none : Eval ω (Option Value)) (do
        if kind = .const then sure (defineConst env name w)
        else sure (define env name w)
        return none) := by
      intro v w hvw
      split
      · exact SimE.bind (Sim.sure (sim_defineConst env name hvw)) fun _ _ _ => SimE.pure rfl
      · exact SimE.bind (Sim.sure (sim_define env name hvw)) fun _ _ _ => SimE.pure rfl
    cases init with
    | none => exact SimE.bind (SimE.pure (.refl _)) hrest
    | some e => exact SimE.bind (sim_chain (sim_link hlaw hc e env henv)) hrest
  | .cond _ test yes no, env, henv => by
    refine SimE.bind (sim_chain (sim_link hlaw hc test env henv)) fun t t' ht => ?_
    refine SimE.bind (Sim.sure (sim_innerScope henv .nil)) fun inner inner' hinner => ?_
    obtain ⟨rfl, hfits⟩ := hinner
    rw [ht.truthy]
    split
    · exact SimE.bind (Sim.sure (sim_hoist inner' yes)) fun _ _ _ =>
        sim_statements hlaw hc yes inner' hfits
    · exact SimE.bind (Sim.sure (sim_hoist inner' no)) fun _ _ _ =>
        sim_statements hlaw hc no inner' hfits
  | .ret _ none, env, _ => SimE.pure (.refl _)
  | .ret _ (some e), env, henv => sim_some (sim_chain (sim_link hlaw hc e env henv))
  | .func _ name params body _ _, env, _ => by
    refine SimE.bind (Sim.sure (sim_newFunc name (d := .closure params (.block body) env) rfl))
      fun f g hfg => ?_
    refine SimE.bind (Sim.sure (sim_define env name ?_)) fun _ _ _ => SimE.pure rfl
    exact (Value.akin_func _ _).2 ⟨g, rfl, hfg⟩
  | .labeled _ _ s, env, henv => sim_statement hlaw hc s env henv

end

end

/-! ### Calls -/

theorem sim_builtin (b : Builtin) (hb : P.loose → b.listsProperties = false) {vs ws : List Value}
    (h : ItemsAkin P.loose vs ws) :
    P.SimE (Value.Akin P.loose) (b.apply vs : Eval ω Value) (b.apply ws) := by
  have hresult : P.SimE (Value.Akin P.loose) (ofOutcome (b.result vs) : Eval ω Value)
      (ofOutcome (b.result ws)) := by
    have hout := b.result_akin hb h
    cases hr : b.result vs with
    | error e =>
      rw [hr] at hout
      rw [show b.result ws = .error e from hout]
      exact SimE.throw e
    | ok v =>
      rw [hr] at hout
      obtain ⟨w, hw, hvw⟩ := hout
      rw [hw]
      exact SimE.pure hvw
  rw [b.apply_eq, b.apply_eq, h.toTexts]
  by_cases hlog : b = .log
  · rw [if_pos hlog, if_pos hlog]
    exact SimE.bind (Sim.sure (sim_writeLog _ _)) fun _ _ _ => hresult
  · rw [if_neg hlog, if_neg hlog]
    exact hresult

/-- The parameters of a function and what they stand for. -/
theorem parameters_akin (params : List Text) {vs ws : List Value} (h : ItemsAkin P.loose vs ws) :
    DictsAkin P.loose (Dict.ofPairs (params.mapIdx fun i p => (p, argument vs i)))
      (Dict.ofPairs (params.mapIdx fun i p => (p, argument ws i))) := by
  refine DictsAkin.ofPairs (List.forall₂_iff_get.2 ⟨by simp, fun i hi hj => ?_⟩)
  simp only [List.get_eq_getElem, List.getElem_mapIdx]
  exact ⟨trivial, h.argument i⟩

/-- A function that is not refused and its twin, when called, go the same way. -/
theorem sim_callWith (hlaw : P.Lawful) {call call' : Func → List Value → Eval ω Value}
    (hc : P.Calls call call') {f g : Func} (hfg : f.Akin P.loose g) {vs ws : List Value}
    (h : ItemsAkin P.loose vs ws)
    (hlists : ∀ b, f.code = .builtin b → P.loose → b.listsProperties = false)
    (hclosure : ∀ params body scope, f.code = .closure params body scope → P.Fits scope) :
    P.SimE (Value.Akin P.loose) (callWith P.first call f vs) (callWith P.second call' g ws) := by
  obtain ⟨n, i, code⟩ := f
  obtain ⟨d, rfl, hcode⟩ := (Func.akin_mk n i code g).1 hfg
  unfold callWith
  cases code with
  | listMethod us method =>
    obtain ⟨ts, rfl, hitems⟩ := (Code.akin_listMethod _ _ _).1 hcode
    exact sim_listMethod hc method hitems h
  | builtin b =>
    obtain rfl := hcode
    exact sim_builtin b (hlists b rfl) h
  | strMethod t method =>
    obtain rfl := hcode
    exact SimE.ofOutcome (OutcomesAkin.of_eq (method.apply_akin t h))
  | numMethod x method =>
    obtain rfl := hcode
    exact SimE.ofOutcome (OutcomesAkin.of_eq (method.apply_akin x h))
  | boolText b =>
    obtain rfl := hcode
    exact SimE.pure (.refl _)
  | closure params body scope =>
    obtain rfl := hcode
    refine SimE.bind (Sim.sure (sim_innerScope (hclosure _ _ _ rfl) (parameters_akin params h)))
      fun env env' henv => ?_
    obtain ⟨rfl, hfits⟩ := henv
    cases body with
    | expr e => exact sim_chain (sim_link hlaw hc e env' hfits)
    | block ss =>
      refine SimE.bind (Sim.sure (sim_hoist env' ss)) fun _ _ _ => ?_
      exact SimE.bind (sim_statements hlaw hc ss env' hfits) fun _ _ hr => SimE.pure hr.getD

/-- Calls go the same way, when the first run does not refuse them. -/
theorem sim_call (hlaw : P.Lawful) (depth : Nat) :
    P.Calls (callUnless P.first P.refused depth) (call P.second depth) := by
  induction depth with
  | zero => exact fun _ _ _ _ _ _ => Sim.sure (Sim.halt .outOfFuel)
  | succ depth ih =>
    intro f g hfg vs ws h m₁ m₂ hrel
    have hrun : (callUnless P.first P.refused (depth + 1) f vs).run m₁ =
        (if P.refused m₁ f then sure (halt .outOfRange)
          else callWith P.first (callUnless P.first P.refused depth) f vs : Eval ω Value).run m₁ :=
      rfl
    rw [hrun]
    cases hrefused : P.refused m₁ f with
    | true => exact .inl (hlaw.refused m₁ f hrefused)
    | false =>
      refine sim_callWith hlaw ih hfg h (fun b hb hloose => ?_)
        (fun params body scope hcode => hlaw.closure m₁ m₂ hrel f params body scope hcode hrefused)
        m₁ m₂ hrel
      cases hl : b.listsProperties with
      | false => rfl
      | true => exact absurd (hlaw.lists hloose m₁ f b hb hl) (by rw [hrefused]; exact nofun)

/-- Evaluations of an expression go the same way. -/
theorem sim_eval (hlaw : P.Lawful) {env : Nat} (henv : P.Fits env) (e : Expr) :
    P.SimE (Value.Akin P.loose) (eval (P.first.callerUnless P.refused) env e)
      (eval P.second.caller env e) :=
  sim_chain (sim_link hlaw (sim_call hlaw callDepth) e env henv)

/-! ### A run and itself -/

/-- A scope is in one relation to itself, whatever may be reordered. -/
theorem Scopes.refl (loose : Prop) (s : Scope) : Scopes loose s s := by
  refine ⟨.refl _, rfl, ?_⟩
  cases s.outer with
  | scope p => rfl
  | store st =>
    refine ⟨st, rfl, ?_⟩
    cases st with
    | snapshot a => exact ⟨a, rfl, .refl a⟩
    | _ => rfl

theorem Scopes.eq {loose : Prop} (hloose : ¬loose) {s s' : Scope} (h : Scopes loose s s') :
    s' = s := by
  obtain ⟨vars, consts, outer⟩ := s
  obtain ⟨vars', consts', outer'⟩ := s'
  obtain ⟨hvars, rfl : consts' = consts, houter⟩ := h
  obtain rfl : vars' = vars := DictsAkin.strict hloose hvars
  cases outer with
  | scope p => rw [show outer' = .scope p from houter]
  | store st =>
    obtain ⟨st', rfl, hst⟩ := houter
    cases st with
    | snapshot a =>
      obtain ⟨b, rfl, hab⟩ := hst
      rw [DictsAkin.strict hloose hab]
    | _ => rw [show st' = _ from hst]

/-- Machines at the same moment of runs that differ in nothing. -/
theorem Rel.eq (hloose : ¬P.loose) (h : P.Rel m₁ m₂) (hhosts : m₂.host = m₁.host) : m₂ = m₁ := by
  have hscopes : m₂.scopes = m₁.scopes :=
    Array.ext h.size fun i hj hi => (h.scope i hi hj).eq hloose
  obtain ⟨scopes, funcs, logs, host⟩ := m₂
  obtain rfl := hscopes
  obtain rfl := h.funcs
  obtain rfl := h.logs
  obtain rfl := hhosts
  rfl

/-- A computation goes the same way as itself from one machine. -/
theorem Sim.same {Q : α → α → Prop} (heq : ∀ m₁ m₂, P.Rel m₁ m₂ → m₂ = m₁)
    (hrefl : ∀ m, P.Rel m m) (hQ : ∀ a, Q a a) {x : Run ω α} : P.Sim Q x x := by
  intro m₁ m₂ hrel
  obtain rfl := heq m₁ m₂ hrel
  cases hx : x m₂ with
  | error e => exact .inr rfl
  | ok p => exact ⟨p.1, p.2, rfl, hrefl _, hQ _⟩

/-- A run that refuses some calls, and the run itself. -/
def itself (h : Host ω) (refused : Machine ω → Func → Bool) : Pair ω where
  loose := False
  first := h
  second := h
  hosts a b := b = a
  refused := refused
  lax := Halt.Any
  base := 0
  roots := fun _ => none
  fits := fun _ => True

section

variable {h : Host ω} {refused : Machine ω → Func → Bool}

theorem itself_refl (m : Machine ω) : (itself h refused).Rel m m where
  base_le := Nat.zero_le _
  size := rfl
  funcs := rfl
  logs := rfl
  scope _ _ _ := .refl _ _
  hosts := rfl
  roots _ hi := absurd hi (Nat.not_lt_zero _)
  fresh _ _ _ _ := trivial

theorem itself_lawful : (itself h refused).Lawful where
  read a b hab n := by
    obtain rfl : b = a := hab
    exact .refl _
  write _ name v w hvw := by
    obtain rfl := Value.akin_strict id hvw
    refine Sim.same (fun _ _ hrel => hrel.eq id hrel.hosts) itself_refl fun r => ?_
    cases r with
    | error e => rfl
    | ok u => exact ⟨u, rfl, trivial⟩
  closure _ _ _ _ _ _ scope _ _ hlt := absurd hlt (Nat.not_lt_zero scope)
  lists hloose := hloose.elim
  refused _ _ _ := trivial

end

end Pair

/-- An evaluation that makes no refused call is the same where none is refused. -/
theorem Host.eval_of_callerUnless {h : Host ω} {refused : Machine ω → Func → Bool} {env : Nat}
    {e : Expr} {m m' : Machine ω} {r : Except EvalError Value}
    (hrun : (eval (h.callerUnless refused) env e).run m = .ok (r, m')) :
    (eval h.caller env e).run m = .ok (r, m') := by
  have hfits : (Pair.itself h refused).Fits env := fun hlt => absurd hlt (Nat.not_lt_zero env)
  have hsim := Pair.sim_eval Pair.itself_lawful hfits e m m (Pair.itself_refl m)
  rw [show (eval ((Pair.itself h refused).first.callerUnless (Pair.itself h refused).refused)
    env e).run m = _ from hrun] at hsim
  obtain ⟨r', m'', hrun', hrel, hout⟩ := hsim
  obtain rfl := hrel.eq id hrel.hosts
  cases r with
  | error e =>
    obtain rfl := hout
    exact hrun'
  | ok v =>
    obtain ⟨w, rfl, hvw⟩ := hout
    obtain rfl := Value.akin_strict id hvw
    exact hrun'

end Reactive
