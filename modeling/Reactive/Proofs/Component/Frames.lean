/-
The names of a binding, at build time and at run time.

The view of a template tells the names of each binding apart when it is built:
those of the component's state, and those of the loops around the binding.  Which
names the loops around a block have values for is known only when blocks are
made.  The two agree: a component evaluates a binding only in frames whose loops
have a value for its loop names and for none of its other names.

* `Binding.Suits` — a frame in which the names of a binding mean what they were
  taken for;
* `lookup_of_suits` — what its names stand for in such a frame;
* `Setting.alarm` — a probe that stops the run in any other frame;
* `Setting.runs_in_suiting_frames` — such a probe is never noticed.
-/
import Mathlib
import Reactive.Proofs.Block.Rerender
import Reactive.Proofs.Component.Probed

namespace Reactive

open Block (Frame Stage Action)

variable {σ : Type}

/-! ### Names in frames -/

/-- The value that the loops around a block give to a name: that of the innermost one that has it. -/
def Block.Frame.local? (f : Frame) (n : Text) : Option Value := f.findSome? fun vars => vars.get? n

theorem Block.Frame.isSome_local? (f : Frame) (n : Text) : (f.local? n).isSome = true ↔ f.Binds n := by
  simp [local?, Binds, Dict.has]

/-- A name stands for the value that a loop gives to it.  In a handler the names of the event stand
for the event, whatever the loops around it are called. -/
def Block.Frame.Resolves (handler : Bool) (f : Frame) (n : Text) : Prop :=
  n ∉ View.Use.skip handler ∧ (f.local? n).isSome = true

instance (handler : Bool) (f : Frame) (n : Text) : Decidable (f.Resolves handler n) :=
  inferInstanceAs (Decidable (_ ∧ _))

/-- A frame in which the names of a binding mean what they were taken for: the loops around a block
give a value to its loop names, and to no other free name of its expression. -/
def View.Binding.Suits (handler : Bool) (b : View.Binding) (f : Frame) : Prop :=
  ∀ n ∈ b.expr.freeNames, (f.Resolves handler n ↔ n ∈ b.loc)

instance (handler : Bool) (b : View.Binding) (f : Frame) : Decidable (b.Suits handler f) :=
  inferInstanceAs (Decidable (∀ n ∈ b.expr.freeNames, (f.Resolves handler n ↔ n ∈ b.loc)))

/-- The names of a binding that are told apart mean what they were taken for in the frames of its own
loops. -/
theorem View.Use.Classified.suits {u : View.Use} (h : u.Classified) {f : Frame}
    (hf : f.Exact u.locals) : u.binding.Suits u.handler f := by
  -- The empty text, which an exact frame may bind or not, is no identifier.
  have hempty : isIdentifier [] = false := by decide +kernel
  intro n hn
  have hname : n ≠ [] := by
    rintro rfl
    have hident := h.identifiers [] hn
    rw [hempty] at hident
    cases hident
  rw [Block.Frame.Resolves, f.isSome_local?, hf n hname, View.Use.mem_skip]
  constructor
  · rintro ⟨hskip, hlocal⟩
    exact ((h.names n).2 ⟨hn, hskip⟩).resolve_left fun hstate => h.outside n hstate hlocal
  · exact fun hloc => ⟨((h.names n).1 (.inr hloc)).2, h.scope n hloc⟩

/-- The scope in which an expression of a view runs: that of its frame, and for a handler one in it
with the event. -/
def Block.runScope (handler : Bool) (store : Store) (f : Frame) (event : Value) :
    Run (Stage σ) Nat := do
  let outer ← frameScope store f
  if handler then newScope (.scope outer) [(eventName, event), (eventAlias, event)] else return outer

/-- What a name stands for in the scope of a frame. -/
theorem Block.lookup_frameScope (h : Host (Stage σ)) (store : Store) (m : Machine (Stage σ)) :
    ∀ f : Frame, ∃ env m', frameScope store f m = .ok (env, m') ∧ env < m'.scopes.size ∧
      m'.host = m.host ∧
      ∀ n, m'.lookup h env n = (f.local? n).or ((store.read h m n).or (Globals.get? n))
  | [] => by
    refine ⟨_, _, rfl, by simp, rfl, fun n => ?_⟩
    rw [Machine.lookup]
    simp only [Array.getElem?_push_size, Dict.get?_nil]
    have hread : ∀ sc : Scope, store.read h { m with scopes := m.scopes.push sc } n =
        store.read h m n := fun _ => by cases store <;> rfl
    rw [hread]
    cases store.read h m n <;> rfl
  | vars :: outer => by
    obtain ⟨env, m₁, hrun, hlt, hhost, hlookup⟩ := lookup_frameScope h store m outer
    refine ⟨m₁.scopes.size, { m₁ with scopes := m₁.scopes.push ⟨vars, [], .scope env⟩ }, ?_, by simp,
      hhost, fun n => ?_⟩
    · rw [frameScope, Run.bind_ok hrun]
      rfl
    · have hlocal : Frame.local? (vars :: outer) n = (vars.get? n).or (Frame.local? outer n) := by
        rw [Frame.local?, List.findSome?_cons]
        cases vars.get? n <;> rfl
      rw [Machine.lookup, hlocal, Option.or_assoc, ← hlookup]
      simp only [Array.getElem?_push_size, if_pos hlt]
      rw [lookup_push h m₁ _ n env hlt]
      cases vars.get? n <;> rfl

/-- What a name stands for where an expression of a view runs. -/
theorem Block.lookup_runScope (h : Host (Stage σ)) (handler : Bool) (store : Store) (f : Frame)
    (event : Value) (m : Machine (Stage σ)) :
    ∃ env m', runScope handler store f event m = .ok (env, m') ∧ ∀ n, m'.lookup h env n =
      if n ∈ View.Use.skip handler then some event
      else (f.local? n).or ((store.read h m n).or (Globals.get? n)) := by
  obtain ⟨outer, m₁, hrun, hlt, -, hlookup⟩ := lookup_frameScope h store m f
  unfold runScope
  rw [Run.bind_ok hrun]
  cases handler with
  | false => exact ⟨outer, m₁, rfl, hlookup⟩
  | true =>
    refine ⟨_, _, rfl, fun n => ?_⟩
    rw [Machine.lookup, ← hlookup]
    simp only [Array.getElem?_push_size, if_pos hlt, View.Use.skip, if_true, Dict.get?,
      List.mem_cons, List.not_mem_nil, or_false]
    rw [lookup_push h m₁ _ n outer hlt]
    -- The event has two names, and either hides what the loops and the state have under it.
    by_cases hevent : eventName = n
    · rw [if_pos hevent, if_pos (.inl hevent.symm)]
    · by_cases halias : eventAlias = n
      · rw [if_neg hevent, if_pos halias, if_pos (.inr halias.symm)]
      · rw [if_neg hevent, if_neg halias, if_neg]
        exact fun hn => hn.elim (fun hn => hevent hn.symm) fun hn => halias hn.symm

/-- What the free names of a binding stand for where it runs in a frame that suits it, whatever the
state is: its loop names for values of loops, and any other for the event of a handler, for what the
state has under the name, or for a global function. -/
theorem lookup_of_suits {handler : Bool} {b : View.Binding} {f : Frame} (hb : b.Suits handler f)
    (h : Host (Stage σ)) (store : Store) (event : Value) (m : Machine (Stage σ)) :
    ∃ env m', Block.runScope handler store f event m = .ok (env, m') ∧
      ∀ n ∈ b.expr.freeNames, m'.lookup h env n =
        if n ∈ b.loc then f.local? n
        else if n ∈ View.Use.skip handler then some event
        else (store.read h m n).or (Globals.get? n) := by
  obtain ⟨env, m', hrun, hlookup⟩ := Block.lookup_runScope h handler store f event m
  refine ⟨env, m', hrun, fun n hn => ?_⟩
  rw [hlookup]
  by_cases hloc : n ∈ b.loc
  · obtain ⟨hskip, hlocal⟩ := (hb n hn).2 hloc
    obtain ⟨v, hv⟩ := Option.isSome_iff_exists.1 hlocal
    rw [if_neg hskip, if_pos hloc, hv]
    rfl
  · rw [if_neg hloc]
    split
    · rfl
    · rename_i hskip
      have hnone : f.local? n = none := by
        rw [← Option.not_isSome_iff_eq_none]
        exact fun hlocal => hloc ((hb n hn).1 ⟨hskip, hlocal⟩)
      rw [hnone]
      rfl

/-! ### A probe that stops the run -/

/-- An expression that tells a binding from any other. -/
def View.Binding.tagged (b : View.Binding) : Expr :=
  .array 0 [b.expr, .literal 0 (.str b.source), .array 0 (b.state.map (.ident 0)),
    .array 0 (b.loc.map (.ident 0))]

/-- The names among some expressions. -/
def namesAmong (es : List Expr) : List Text :=
  es.filterMap fun e => match e with
    | .ident _ n => some n
    | _ => none

theorem namesAmong_map (ns : List Text) : namesAmong (ns.map (.ident 0)) = ns := by
  induction ns with
  | nil => rfl
  | cons n r ih => exact congrArg (n :: ·) ih

/-- The binding that an expression stands for. -/
def Expr.untagged : Expr → Option View.Binding
  | .array _ [e, .literal _ (.str source), .array _ state, .array _ loc] =>
    some ⟨source, e, namesAmong state, namesAmong loc⟩
  | _ => none

theorem untagged_tagged (b : View.Binding) : b.tagged.untagged = some b := by
  rw [View.Binding.tagged, Expr.untagged, namesAmong_map, namesAmong_map]

namespace Setting

/-- A probe that stops the run when a binding is evaluated in a frame that does not suit it, and
otherwise does what the component does. -/
def alarm (s : Setting) : Probe :=
  let outcome (h : Host World) (st : Store) (f : Frame) (e : Expr) :
      Run World (Except EvalError Value) :=
    match st, e.untagged with
    | .snapshot state, some b =>
      if b.Suits false f then s.definition.outcome h (.snapshot state) f b.expr else halt .outOfRange
    | st, _ => s.definition.outcome h st f e
  { code := View.Binding.tagged
    outcome
    handle a event :=
      if a.handler.binding.Suits true a.frame then
        (s.probed ⟨View.Binding.tagged, outcome, s.handle⟩).handle a event
      else halt .outOfRange }

theorem heeds_alarm (s : Setting) : s.Heeds s.alarm fun handler b f => b.Suits handler f where
  derived _ _ := rfl
  reads h state f b hb := by
    show (match (Store.snapshot state), b.tagged.untagged with
      | .snapshot state, some b =>
        if b.Suits false f then s.definition.outcome h (.snapshot state) f b.expr else halt .outOfRange
      | st, _ => s.definition.outcome h st f b.tagged) = _
    rw [untagged_tagged]
    exact if_pos hb
  handles _ _ ha := if_pos ha

/-- A component evaluates bindings only in frames that suit them.  In the view of a template the names
of every binding are told apart; and in any run of a component with this view, whatever a probe does
with bindings and handlers in frames that do not suit them is not noticed. -/
theorem runs_in_suiting_frames {ns : List Template.Node} {v : View} (hbuild : View.build ns = .ok v) :
    (∀ u ∈ View.usesAll [] v.nodes, u.Classified) ∧
    ∀ (s : Setting) (p : Probe), s.definition.Sound → s.definition.view = v.nodes →
      (s.Heeds p fun handler b f => b.Suits handler f) → ∀ (given : Dict Value) (logs : List LogEntry),
      ((s.probed p).create given).run (s.start logs) = (s.create given).run (s.start logs) ∧
      ∀ r m, (s.create given).run (s.start logs) = .ok (r, m) → ∀ ops,
        (s.probed p).performAllBy p.handle ops m = s.performAll ops m := by
  have hall := View.classified_of_build hbuild
  refine ⟨hall, fun s p hs hview hp given logs => runs_probed ((hp.mono ?_).endures hs) given logs⟩
  intro handler b f hstands
  obtain ⟨u, hu, rfl, rfl, hf⟩ := hstands
  rw [hview] at hu
  exact (hall u hu).suits hf

/-- A template with two loops, the inner one over a row of the outer one.  The name `i` is that of a
key, of the outer index, and of an inner item. -/
def gridTemplate : List Template.Node :=
  [.each 0 "rows" 0 "row" "i"
    [.element 0 "li" [⟨0, "on:click", .dynamic, "n = i", 0⟩]
      [.each 0 "row" 0 "i" "" [.mustache 0 "i" 0], .mustache 0 "i" 0]],
    .mustache 0 "i" 0, .mustache 0 "n" 0]

/-- Its view: the text in the inner loop takes `i` for the item, the one after that loop for the index,
and the one after both loops for the key. -/
def gridView : List View.Node :=
  [.each 1 ⟨"rows", .ident 0 "rows", ["rows"], []⟩ "row" "i"
    (.elem 2 "li" [] [] [⟨"click", ⟨"n = i", .assign 0 .set (.ident 0 "n") (.ident 4 "i"), ["n"], ["i"]⟩⟩]
      [.each 3 ⟨"row", .ident 0 "row", [], ["row"]⟩ "i" ""
        (.text 4 ⟨"i", .ident 0 "i", [], ["i"]⟩), .text 5 ⟨"i", .ident 0 "i", [], ["i"]⟩]),
    .text 6 ⟨"i", .ident 0 "i", ["i"], []⟩, .text 7 ⟨"n", .ident 0 "n", ["n"], []⟩]

/-- A component with this view. -/
def grid : Setting where
  definition :=
    { tag := "x-grid"
      script :=
        { vars := [⟨"rows", .let_, some (.array 0 [.array 0 [.literal 0 (.number (.int 7))]])⟩,
          ⟨"n", .let_, some (.literal 0 (.number (.int 5)))⟩,
          ⟨"i", .let_, some (.literal 0 (.number (.int 9)))⟩] }
      view := gridView
      bits := .ofNames ["rows", "n", "i"]
      schedule := { derived := [], order := [] }
      css := [] }

theorem sound_grid : grid.definition.Sound where
  schedule := ⟨false, by with_unfolding_all rfl⟩
  bits := by decide
  outcome := rfl
  apart _ _ := rfl

/-- The text in the inner loop shows the item `7`, the one after it the index `0`, and the one after
both loops the key `9`; a click on the row writes its index to the key `n`.  The alarm never goes
off. -/
theorem runs_in_suiting_frames_grid : ∃ (v : View) (m₀ m₁ m₂ : Machine World),
    View.build gridTemplate = .ok v ∧ grid.definition.view = v.nodes ∧
    (grid.create []).run (grid.start []) = .ok (.ok (), m₀) ∧
    (grid.probed grid.alarm).performAllBy grid.alarm.handle [.mount none] m₀ = .ok ((), m₁) ∧
    m₁.host.componentHtml = "<x-grid><li>70</li>95</x-grid>" ∧
    (grid.probed grid.alarm).performAllBy grid.alarm.handle
      [.mount none, .dispatch "li" 0 "click" .undefined] m₀ = .ok ((), m₂) ∧
    m₂.host.componentHtml = "<x-grid><li>70</li>90</x-grid>" := by
  obtain ⟨v, hbuild, hview⟩ : ∃ v, View.build gridTemplate = .ok v ∧ gridView = v.nodes :=
    ⟨_, by with_unfolding_all rfl, by with_unfolding_all rfl⟩
  obtain ⟨m₀, m₁, m₂, hnew, hmount, hhtml, hclick, hhtml'⟩ : ∃ m₀ m₁ m₂,
      (grid.create []).run (grid.start []) = .ok (.ok (), m₀) ∧
      grid.performAll [.mount none] m₀ = .ok ((), m₁) ∧
      m₁.host.componentHtml = "<x-grid><li>70</li>95</x-grid>" ∧
      grid.performAll [.mount none, .dispatch "li" 0 "click" .undefined] m₀ = .ok ((), m₂) ∧
      m₂.host.componentHtml = "<x-grid><li>70</li>90</x-grid>" := by
    apply Exists.intro
    apply Exists.intro
    apply Exists.intro
    refine ⟨?_, ?_, ?_, ?_, ?_⟩
    · conv => lhs; cbv
    · conv => lhs; cbv
    · with_unfolding_all rfl
    · conv => lhs; cbv
    · with_unfolding_all rfl
  obtain ⟨-, hruns⟩ := runs_in_suiting_frames hbuild
  obtain ⟨-, hsame⟩ := hruns grid grid.alarm sound_grid hview grid.heeds_alarm [] []
  exact ⟨v, m₀, m₁, m₂, hbuild, hview, hnew, (hsame _ _ hnew _).trans hmount, hhtml,
    (hsame _ _ hnew _).trans hclick, hhtml'⟩

/-- A component whose only binding takes a name for that of a loop, where there is none. -/
def stray : Setting where
  definition := { grid.definition with view := [.text 1 ⟨"i", .ident 0 "i", [], ["i"]⟩] }

-- The alarm does go off in a frame that does not suit a binding.
example : (do
    let _ ← stray.create []
    (stray.probed stray.alarm).performAllBy stray.alarm.handle [.mount none]).run (stray.start []) =
      .error .outOfRange := by
  cbv

end Setting

end Reactive
