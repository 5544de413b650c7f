/-
What is on the screen is what a component is.

A component is created, mounted and used.  Its template and its derived values call
no function of the source that was there before, and the template makes no function
that stays.  Then, whatever is done with the component, between two operations
nothing is left to do, derived values are up to date, and the host element has the
content that a fresh mount would have.

* `Setting.discreet` — the same component, which stops where such a function is
  called or stays;
* `Setting.Goes` — a run that does not notice that;
* `Setting.Synchronous` — the component is up to date, and so is the screen;
* `Setting.synchronous_of_run` — every such run ends so.
-/
import Reactive.Proofs.Component.Launched
import Reactive.Proofs.Component.Sound

namespace Reactive

open Block (Action Placed)
open Block.Tree (htmlAll)

/-! ### Definitions that masks can follow -/

/-- A definition with a bit for each key, whose elements have no class toggles and no attribute twice,
and whose template and derived values declare no functions.  Handlers may declare some. -/
structure Definition.Tracked (d : Definition) : Prop where
  keys : d.keys.length ≤ Bits.maxKeys
  this : ("this" : Text) ∉ d.keys
  plain : View.plainAll d.view
  view : ∀ u ∈ View.usesAll [] d.view, u.handler = false → u.binding.expr.NoFunctions
  derived : ∀ x ∈ d.script.derived, x.expr.NoFunctions

/-- A binding of a template reads its state, its loop variables and `this`. -/
theorem View.Use.Classified.readable {u : View.Use} (h : u.Classified) (hhandler : u.handler = false)
    (hnamed : u.binding.expr.Every named false) (hno : u.binding.expr.NoFunctions) :
    Block.Readable u.locals u.binding := by
  refine (Block.uses_of_named hnamed hno).mono fun n hn => ?_
  rcases hn with hn | rfl
  · have hsplit := (h.names n).2 ⟨hn, fun h => by rw [hhandler] at h; cases h⟩
    exact hsplit.imp .inl (h.scope n)
  · exact .inl (.inr rfl)

namespace Setting

/-- The same component, in which an expression of the view or of a derived value may call no function
of the source that was there before it is evaluated, and gives the view no function that this
evaluation made: the run stops where one does. -/
def discreet (s : Setting) : Setting :=
  { s with definition := { s.definition with outcome := fun h => Block.discreetIn h } }

variable {s : Setting} {me : Option Value} {m m' : Machine World}

theorem discreet_of_compiled (hc : s.definition.Compiled) (ht : s.definition.Tracked) :
    s.discreet.definition.Discreet where
  schedule := hc.schedule
  bits := hc.bits
  outcome := rfl
  keys := ht.keys
  this := ht.this
  plain := ht.plain
  view := by
    obtain ⟨ns, v, hbuild, hview⟩ := hc.built
    refine View.everyAll_of_uses s.definition.view fun u hu hhandler => ?_
    have hno := ht.view u hu hhandler
    rw [hview] at hu
    exact (View.classified_of_build hbuild u hu).readable hhandler (View.named_of_build hbuild u hu) hno
  derived x hx := by
    obtain ⟨hnamed, hdeps⟩ := hc.parsed x hx
    refine (Block.uses_of_named hnamed (ht.derived x hx)).mono fun n hn => ?_
    rwa [← hdeps] at hn

/-- A run with the component that goes the same way with the discreet one. -/
def Goes {α : Type} (s : Setting) (x : Setting → Run World α) (m : Machine World) (a : α)
    (m' : Machine World) : Prop :=
  x s m = .ok (a, m') ∧ x s.discreet m = .ok (a, m')

/-! ### What a host element holds -/

/-- The markup of the style of a component, if it has one. -/
def styleHtml (css : Text) : List Html := if css = [] then [] else [.element "style" [] [.text css]]

theorem toHtml_of_styled {css : Text} {doc : Dom.Document Action} {host : Dom.NodeId}
    {ts : List Block.Tree} {pre : List Dom.NodeId} (h : Styled css doc host ts pre) :
    pre.flatMap (doc.toHtml false) = styleHtml css := by
  cases h with
  | bare hcss => rw [styleHtml, if_pos hcss, List.flatMap_nil]
  | @style n t hcss hn ht =>
    obtain ⟨depth, hdepth⟩ : ∃ k, doc.depth = k + 2 := by
      have hlt : n < doc.nodes.size := (Array.getElem?_eq_some_iff.1 hn).1
      refine ⟨doc.nodes.size - 1, ?_⟩
      rw [Dom.Document.depth, ← Nat.sub_add_cancel (Nat.lt_of_le_of_lt (Nat.zero_le n) hlt)]
      rfl
    rw [styleHtml, if_neg hcss, List.flatMap_singleton, Dom.Document.toHtml, hdepth,
      Dom.Document.toHtmlDepth, Dom.Document.node_of_getElem? hn]
    show [Html.element "style" [] ([t].flatMap (doc.toHtmlDepth false (depth + 1)))] = _
    rw [List.flatMap_singleton, Dom.Document.toHtmlDepth, Dom.Document.node_of_getElem? ht]

/-- The host element holds the style and what the view shows. -/
theorem Displays.childrenHtml {st : Dict Value} {root : Block.BlockId} (h : s.Displays me st root m) :
    ∃ host ts, m.host.own.host = some host ∧
      m.host.doc.childrenHtml false host = styleHtml s.definition.css ++ htmlAll ts ∧
      (s.reading me).Stands st [] root m.host ts s.definition.part := by
  obtain ⟨host, y, pre, ts, hhost, hplaced, hstyled, -, hstands⟩ := h
  refine ⟨host, ts, hhost, ?_, hstands⟩
  have hview := hplaced.holds.toHtml (Nat.le_succ_of_le (hplaced.holds.height_le hplaced.nodes))
  rw [Dom.Document.childrenHtml, hplaced.row, List.append_nil, List.flatMap_append,
    toHtml_of_styled hstyled]
  exact congrArg _ hview

theorem alike_styleHtml (css : Text) :
    Html.alikeAll Block.SameAttrs (styleHtml css) (styleHtml css) := by
  unfold styleHtml
  split
  · rfl
  · exact ⟨_, _, rfl, ⟨_, _, rfl, ⟨.refl _, fun _ => .inl rfl⟩, _, _, rfl, rfl, rfl⟩, rfl⟩

/-! ### Between two operations -/

/-- The component is up to date, and so is the screen.  Nothing waits for an update.  A derived value
that is not on a cycle and depends on none that is holds what its expression is evaluated to, or
something equal, unless the evaluation fails or what it gives holds a function that it made.  And
what stands in the host element is what a fresh mount of the view would put there, but for the order
of attributes and the texts of those with equal values. -/
structure Synchronous (s : Setting) (m : Machine World) : Prop where
  rest : m.host.own.AtRest
  derived : ∀ x ∈ s.definition.script.derived, x.name ∉ s.definition.schedule.cycle → ∀ v m',
    s.Goes (fun s => (s.board s.settling).compute x) m (.ok v) m' →
      (∃ held, m.host.own.state.get? x.name = some held ∧ (held = v ∨ held.equal v = true)) ∨
        ¬v.All (Func.Before m.funcs)
  view : ∃ host, m.host.own.host = some host ∧ ∀ fresh m',
    s.Goes (fun s => s.definition.part.render (s.site s.live) [] m.host.own.snapshot) m fresh m' →
      Html.alikeAll Block.SameAttrs (m.host.doc.childrenHtml false host)
        (styleHtml s.definition.css ++ m'.host.doc.childrenHtml false fresh.2)

section

variable (hd : s.discreet.definition.Discreet) (h : s.discreet.InStep me True m)
  (hrest : m.host.own.changed = [])

include hd h hrest

/-- In a component in step to which nothing is left to do the derived values are up to date. -/
theorem InStep.holds {x : Derived} (hx : s.Settled x) {v : Value}
    (hrun : (s.discreet.board s.discreet.settling).compute x m = .ok (.ok v, m')) :
    (∃ held, m.host.own.state.get? x.name = some held ∧ (held = v ∨ held.equal v = true)) ∨
      ¬v.All (Func.Before m.funcs) := by
  have hcurrent : s.discreet.Current x m := by
    refine (h.current trivial x hx).resolve_left fun ⟨n, hn, _⟩ => ?_
    rw [hrest] at hn
    exact List.not_mem_nil hn
  exact hcurrent.holds (hd.derived x hx.1) hrun

/-- In a component in step to which nothing is left to do the view shows what it would show if it were
rendered anew. -/
theorem InStep.alike {root : Block.BlockId} (hwhole : m.Whole) (hroot : m.host.own.root = some root) :
    ∃ host, m.host.own.host = some host ∧ ∀ fresh m',
      s.discreet.definition.part.render (s.discreet.site s.discreet.live) [] m.host.own.snapshot m =
        .ok (fresh, m') →
      Html.alikeAll Block.SameAttrs (m.host.doc.childrenHtml false host)
        (styleHtml s.definition.css ++ m'.host.doc.childrenHtml false fresh.2) := by
  obtain ⟨st, hst, -, hnow, hdisplays⟩ := h.view root hroot
  obtain rfl := hnow hrest
  obtain ⟨host, ts, hhost, hcontent, hstands⟩ := hdisplays.childrenHtml
  refine ⟨host, hhost, fun fresh m' hrun => ?_⟩
  have hR : (Block.discreetReading (s.discreet.site s.discreet.live) me).Lawful :=
    Block.lawful_discreet (h := s.discreet.live) rfl
  have hplain : s.discreet.definition.part.Plain := hd.plain
  obtain ⟨-, ts', hplaced', hstands'⟩ := (Block.after_render hR hplain hd.view
    ⟨hwhole, h.cells, h.listeners⟩ made_nil (h.stored hd)).of_ok hrun
  rw [hcontent, Block.childrenHtml_of_placed hplaced']
  refine Html.alikeAll_append (alike_styleHtml s.definition.css) ?_
  exact Block.Reading.alike_of_stands (lawful_reading hd) (Block.matches_discreet _) rfl hstands
    ((Block.Reading.agrees_discreet _ _ me).stands hstands')

end

/-- A component that was created, and to which nothing is left to do, can be mounted in any document. -/
theorem InStep.refreshed_of_create (h : s.InStep me False m) (hwhole : m.Whole)
    (hrest : m.host.own.AtRest) (hcurrent : ∀ x, s.Settled x → s.Current x m) {d : Dom.Document Action}
    (hempty : d.listeners = []) : s.Refreshed me True (m.withDoc d) := by
  refine ⟨⟨⟨h.made.state, h.made.methods⟩, h.keys, h.this⟩, hwhole.congr rfl rfl, h.cells,
    fun l hl => ?_, hrest.changed, hrest.dirty, fun hout => (hout trivial).elim,
    fun _ x hx => (hcurrent x hx).congr rfl rfl rfl rfl⟩
  have hl : l ∈ d.listeners := hl
  rw [hempty] at hl
  exact absurd hl List.not_mem_nil

/-- Whatever is done with a component, between two operations it is up to date, and so is the screen.
It is created with values that hold no functions but global ones, mounted in any document, and gets
values from outside that hold functions only that are there by then; and it does not notice if its
template and derived values may call no function of the source that was there before, and the
template makes no function that stays. -/
theorem synchronous_of_run (hc : s.definition.Compiled) (ht : s.definition.Tracked)
    {given : Dict Value} {logs : List LogEntry}
    (hgiven : ∀ n v, given.get? n = some v → v.All (s.start logs).Made) {m₀ : Machine World}
    (hnew : s.Goes (fun s => (s.create given).run) (s.start logs) (.ok ()) m₀)
    {d : Dom.Document Action} (hempty : d.listeners = [])
    {place : Option (Dom.NodeId × Option Dom.NodeId)} (hplace : ∀ q ∈ place, q.1 < d.nodes.size)
    {m₁ : Machine World} (hmount : s.Goes (·.mount place) (m₀.withDoc d) () m₁)
    {ops : List Operation} (hops : madeAll s.discreet ops m₁)
    (hrun : s.Goes (·.performAll ops) m₁ () m) : s.Synchronous m := by
  have hd := discreet_of_compiled hc ht
  have hs := hc.toSound
  -- that nothing waits is true of every run
  have hnone : s.performAll [] m₀ = .ok ((), m₀) := rfl
  have hrest₀ : m₀.host.own.AtRest := atRest_of_run hs hnew.1 hnone
  have hrest : m.host.own.AtRest := by
    have hops' : s.performAll (.mount place :: ops) (m₀.withDoc d) = .ok ((), m) := by
      have hmount' : s.perform (.mount place) (m₀.withDoc d) = .ok ((), m₁) := by
        rw [perform]
        exact hmount.1
      rw [performAll, Run.bind_ok hmount']
      exact hrun.1
    have hrests := ((rests_tolerates hs).keeping_performAll _ (m₀.withDoc d)).of_ok hops'
    have hchanged := hrests.rest hrest₀.depth hrest₀.changed
    exact ⟨hrests.depth.trans hrest₀.depth, hchanged, hrests.marked (fun _ => hrest₀.dirty) hchanged⟩
  -- the discreet run is in step all the time, and it is the same run
  obtain ⟨me, hwhole₀, hstep₀, hcurrent₀⟩ := (after_create hd hgiven).of_ok hnew.2 rfl
  have hrefreshed := hstep₀.refreshed_of_create hwhole₀ hrest₀ hcurrent₀ hempty
  obtain ⟨hwhole₁, hstep₁⟩ :=
    (after_mount hd hrefreshed (hstep₀.place id).1 hplace).of_ok hmount.2
  obtain ⟨-, hwhole, hstep⟩ := (after_performAll hd ops hwhole₁ hstep₁ hops).of_ok hrun.2
  obtain ⟨root, hroot⟩ := Option.ne_none_iff_exists'.1 (hstep.shown trivial)
  obtain ⟨host, hhost, halike⟩ := hstep.alike hd hrest.changed hwhole hroot
  exact ⟨hrest, fun x hx hcycle v m' hgoes => hstep.holds hd hrest.changed ⟨hx, hcycle⟩ hgoes.2,
    host, hhost, fun fresh m' hgoes => halike fresh m' hgoes.2⟩

/-- A derived value of a shelf. -/
def shelfTotal : Derived :=
  .ofExpr "total" (.binary 0 .mul (.member 0 (.ident 0 "items") "length" false) (.ident 15 "step"))

/-- A template with a loop over products, whose list calls a function that it makes; the handler in it
fails after a write. -/
def shelfTemplate : List Template.Node :=
  [.each 0 "items.map(x => x * step)" 0 "item" ""
    [.element 0 "b" [⟨0, "title", .dynamic, "label", 0⟩,
        ⟨0, "on:click", .dynamic, "[step = total, total = step]", 0⟩]
      [.mustache 0 "item" 0]],
    .mustache 0 "total" 0]

/-- A component with this template, a prop, a derived value, and a method that fails after a write. -/
def shelf : Setting where
  definition :=
    { tag := "x-shelf"
      script :=
        { props := [⟨"label", some (.literal 0 (.str "a"))⟩]
          vars := [⟨"items", .let_, some (.array 0 [.literal 0 (.number (.int 1)),
              .literal 0 (.number (.int 2))])⟩,
            ⟨"step", .let_, some (.literal 0 (.number (.int 1)))⟩]
          methods := [⟨"add", ["by"],
            [.expr 0 (.assign 0 .set (.ident 0 "items")
                (.array 0 [.spread 0 (.ident 0 "items"), .ident 0 "by"])),
              .expr 0 (.assign 0 .set (.ident 0 "total") (.ident 0 "by"))], "", []⟩]
          derived := [shelfTotal] }
      view :=
        [.each 1 ⟨"items.map(x => x * step)", .call 0 (.member 0 (.ident 0 "items") "map" false)
            [.arrow 10 ["x"] (.expr (.binary 15 .mul (.ident 15 "x") (.ident 19 "step")))] false,
            ["items", "step"], []⟩ "item" ""
          (.elem 2 "b" [.bound "title" ⟨"label", .ident 0 "label", ["label"], []⟩] []
            [⟨"click", ⟨"[step = total, total = step]",
              .array 0 [.assign 1 .set (.ident 1 "step") (.ident 8 "total"),
                .assign 15 .set (.ident 15 "total") (.ident 23 "step")], ["step", "total"], []⟩⟩]
            [.text 3 ⟨"item", .ident 0 "item", [], ["item"]⟩]),
          .text 4 ⟨"total", .ident 0 "total", ["total"], []⟩]
      bits := .ofNames ["label", "total", "items", "step"]
      schedule := { derived := [shelfTotal], order := ["total"] }
      css := [] }

theorem compiled_shelf : shelf.definition.Compiled where
  schedule := ⟨false, by with_unfolding_all rfl⟩
  bits := by decide
  outcome := rfl
  apart n hn := by
    obtain ⟨v, hv, -, hconst⟩ := Definition.isConst_iff.1 hn
    have hlet : ∀ v ∈ shelf.definition.script.vars, v.isConst = false := by decide
    rw [hlet v hv] at hconst
    cases hconst
  built := ⟨shelfTemplate, _, by with_unfolding_all rfl, by with_unfolding_all rfl⟩
  parsed x hx := by
    obtain rfl := List.mem_singleton.1 hx
    have hparse : Expr.parseAt 0 "items.length * step" = .ok shelfTotal.expr := by
      with_unfolding_all rfl
    exact ⟨Expr.named_of_parseAt hparse, rfl⟩

theorem tracked_shelf : shelf.definition.Tracked where
  keys := by decide
  this := by decide
  plain := ⟨⟨rfl, by decide, trivial, trivial⟩, trivial, trivial⟩
  view := by
    refine List.forall_mem_cons.2
      ⟨fun _ => ⟨trivial, ⟨.inl List.mem_cons_self, .inr trivial⟩, trivial⟩, ?_⟩
    refine List.forall_mem_cons.2 ⟨fun _ => trivial, List.forall_mem_cons.2 ⟨nofun, ?_⟩⟩
    exact List.forall_mem_cons.2 ⟨fun _ => trivial, List.forall_mem_singleton.2 fun _ => trivial⟩
  derived := List.forall_mem_singleton.2 ⟨trivial, trivial⟩

/-- A document with one element. -/
def shelfDoc : Dom.Document Action := { nodes := #[{ content := .element "main" }] }

/-- A batch in which a method fails. -/
def shelfBatch : Operation :=
  .batch [.set "step" (.int 3), .batch [.setAttribute "label" "b", .call "add" [.int 3]]]

/-- An event whose handler fails. -/
def shelfClick : Operation := .dispatch "b" 1 "click" .undefined

/-- What a shelf shows after the batch and the event. -/
def shelfHtml : Text :=
  ("<x-shelf label=\"b\"><b title=\"b\">9</b><b title=\"b\">18</b><b title=\"b\">27</b>" : Text) ++
    "27</x-shelf>"

theorem synchronous_of_run_shelf : ∃ m₀ m₁ m : Machine World,
    shelf.Goes (fun s => (s.create []).run) (shelf.start []) (.ok ()) m₀ ∧
    shelf.Goes (·.mount (some (0, none))) (m₀.withDoc shelfDoc) () m₁ ∧
    shelf.Goes (·.performAll [shelfBatch, shelfClick]) m₁ () m ∧
    m.host.componentHtml = shelfHtml ∧ shelf.Synchronous m := by
  obtain ⟨m₀, m₁, m₂, m, hnew, hnew', hmount, hmount', hbatch, hbatch', hclick, hclick', hhtml⟩ :
      ∃ m₀ m₁ m₂ m, (shelf.create []).run (shelf.start []) = .ok (.ok (), m₀) ∧
      (shelf.discreet.create []).run (shelf.start []) = .ok (.ok (), m₀) ∧
      shelf.mount (some (0, none)) (m₀.withDoc shelfDoc) = .ok ((), m₁) ∧
      shelf.discreet.mount (some (0, none)) (m₀.withDoc shelfDoc) = .ok ((), m₁) ∧
      shelf.perform shelfBatch m₁ = .ok ((), m₂) ∧
      shelf.discreet.perform shelfBatch m₁ = .ok ((), m₂) ∧
      shelf.perform shelfClick m₂ = .ok ((), m) ∧ shelf.discreet.perform shelfClick m₂ = .ok ((), m) ∧
      m.host.componentHtml = shelfHtml := by
    -- each run is evaluated once, and what it gives is the machine that the next one starts on
    apply Exists.intro
    apply Exists.intro
    apply Exists.intro
    apply Exists.intro
    refine ⟨?_, ?_, ?_, ?_, ?_, ?_, ?_, ?_, ?_⟩
    · conv => lhs; cbv
    · conv => lhs; cbv
    · conv => lhs; cbv
    · conv => lhs; cbv
    · conv => lhs; cbv; simp only [statements]; cbv
    · conv => lhs; cbv; simp only [statements]; cbv
    · conv => lhs; cbv
    · conv => lhs; cbv
    · with_unfolding_all rfl
  have hall : ∀ {s : Setting}, s.perform shelfBatch m₁ = .ok ((), m₂) →
      s.perform shelfClick m₂ = .ok ((), m) →
      s.performAll [shelfBatch, shelfClick] m₁ = .ok ((), m) := by
    intro s hbatch hclick
    rw [performAll, Run.bind_ok hbatch, performAll, Run.bind_ok hclick]
    rfl
  have hgoes : shelf.Goes (·.performAll [shelfBatch, shelfClick]) m₁ () m :=
    ⟨hall hbatch hclick, hall hbatch' hclick'⟩
  have hops : madeAll shelf.discreet [shelfBatch, shelfClick] m₁ := by
    refine ⟨⟨trivial, fun _ _ => ⟨⟨trivial, fun _ _ => ⟨fun v hv => ?_, fun _ _ => trivial⟩⟩,
      fun _ _ => trivial⟩⟩, fun _ _ => ⟨trivial, fun _ _ => trivial⟩⟩
    rw [List.mem_singleton.1 hv]
    trivial
  refine ⟨m₀, m₁, m, ⟨hnew, hnew'⟩, ⟨hmount, hmount'⟩, hgoes, hhtml, ?_⟩
  refine synchronous_of_run compiled_shelf tracked_shelf (fun n v hv => ?_) ⟨hnew, hnew'⟩
    (d := shelfDoc) rfl (fun q hq => ?_) ⟨hmount, hmount'⟩ hops hgoes
  · cases hv
  · obtain rfl := Option.mem_some_iff.1 hq
    exact Nat.zero_lt_one

/-- A derived value that holds something else than its expression is evaluated to. -/
def Stale (s : Setting) (x : Derived) (m : Machine World) : Prop :=
  ∃ held v m', m.host.own.state.get? x.name = some held ∧
    (s.board s.settling).compute x m = .ok (.ok v, m') ∧ held ≠ v ∧ held.equal v = false

/-- A derived value that waits for one on a cycle. -/
def fickleLate : Derived := .ofExpr "late" (.ident 0 "back")

/-- A derived value that reads itself. -/
def fickleBack : Derived :=
  .ofExpr "back" (.conditional 0 (.ident 0 "back") (.ident 7 "name") (.ident 14 "name"))

/-- A derived value that makes a function. -/
def fickleCut : Derived := .ofExpr "cut" (.member 0 (.ident 0 "name") "trim" false)

/-- A template with a loop over a function that its list makes. -/
def fickleTemplate : List Template.Node :=
  [.each 0 "[name.trim]" 0 "h" ""
    [.element 0 "b" [⟨0, "on:click", .dynamic, "sel = h", 0⟩] [.mustache 0 "h === sel" 0]]]

/-- A component with this template and these derived values, in which nothing is called. -/
def fickle : Setting where
  definition :=
    { tag := "x-fickle"
      script :=
        { vars := [⟨"name", .let_, some (.literal 0 (.str "a"))⟩,
            ⟨"sel", .let_, some (.literal 0 .null)⟩]
          derived := [fickleLate, fickleBack, fickleCut] }
      view :=
        [.each 1 ⟨"[name.trim]", .array 0 [.member 1 (.ident 1 "name") "trim" false], ["name"], []⟩
          "h" ""
          (.elem 2 "b" [] [] [⟨"click", ⟨"sel = h", .assign 0 .set (.ident 0 "sel") (.ident 6 "h"),
              ["sel"], ["h"]⟩⟩]
            [.text 3 ⟨"h === sel", .binary 0 .strictEq (.ident 0 "h") (.ident 6 "sel"), ["sel"],
              ["h"]⟩])]
      bits := .ofNames ["late", "back", "cut", "name", "sel"]
      schedule :=
        { derived := [fickleLate, fickleBack, fickleCut], order := ["cut", "late", "back"],
          cycle := ["late", "back"] }
      css := [] }

theorem compiled_fickle : fickle.definition.Compiled where
  schedule := ⟨false, by with_unfolding_all rfl⟩
  bits := by decide
  outcome := rfl
  apart n hn := by
    obtain ⟨v, hv, -, hconst⟩ := Definition.isConst_iff.1 hn
    have hlet : ∀ v ∈ fickle.definition.script.vars, v.isConst = false := by decide
    rw [hlet v hv] at hconst
    cases hconst
  built := ⟨fickleTemplate, _, by with_unfolding_all rfl, by with_unfolding_all rfl⟩
  parsed := by
    have hlate : Expr.parseAt 0 "back" = .ok fickleLate.expr := by with_unfolding_all rfl
    have hback : Expr.parseAt 0 "back ? name : name" = .ok fickleBack.expr := by with_unfolding_all rfl
    have hcut : Expr.parseAt 0 "name.trim" = .ok fickleCut.expr := by with_unfolding_all rfl
    exact List.forall_mem_cons.2 ⟨⟨Expr.named_of_parseAt hlate, rfl⟩, List.forall_mem_cons.2
      ⟨⟨Expr.named_of_parseAt hback, rfl⟩, List.forall_mem_singleton.2
        ⟨Expr.named_of_parseAt hcut, rfl⟩⟩⟩

theorem tracked_fickle : fickle.definition.Tracked where
  keys := by decide
  this := by decide
  plain := ⟨⟨rfl, List.nodup_nil, trivial, trivial⟩, trivial⟩
  view := by
    refine List.forall_mem_cons.2 ⟨fun _ => ⟨trivial, trivial⟩, List.forall_mem_cons.2 ⟨nofun, ?_⟩⟩
    exact List.forall_mem_singleton.2 fun _ => ⟨trivial, trivial⟩
  derived := List.forall_mem_cons.2 ⟨trivial, List.forall_mem_cons.2 ⟨⟨trivial, trivial, trivial⟩,
    List.forall_mem_singleton.2 trivial⟩⟩

/-- After a click the view shows `true` where a fresh mount shows `false`; a derived value that makes a
function holds another one than its expression gives now; and so does one that no derived value reads,
but that waits for one that reads itself. -/
theorem stale_fickle : ∃ m₀ m₁ m : Machine World,
    (fickle.create []).run (fickle.start []) = .ok (.ok (), m₀) ∧
    fickle.mount none m₀ = .ok ((), m₁) ∧
    fickle.performAll [.dispatch "b" 0 "click" .undefined] m₁ = .ok ((), m) ∧
    fickle.definition.Compiled ∧ fickle.definition.Tracked ∧
    (∃ host fresh m', m.host.own.host = some host ∧
      fickle.definition.part.render (fickle.site fickle.live) [] m.host.own.snapshot m = .ok (fresh, m') ∧
      ¬Html.alikeAll (fun _ _ => True) (m.host.doc.childrenHtml false host)
        (m'.host.doc.childrenHtml false fresh.2)) ∧
    fickle.Stale fickleCut m ∧ fickleCut.name ∉ fickle.definition.schedule.cycle ∧
    fickle.Stale fickleLate m ∧ ∀ x ∈ fickle.definition.script.derived, fickleLate.name ∉ x.deps := by
  obtain ⟨m₀, m₁, m, host, fresh, m₂, shown, anew, held, cut, m₃, held', late, m₄, hnew, hmount, hclick,
      hhost, hrender, hshown, hanew, hdiffer, hheld, hcut, hne, hunequal, hheld', hlate, hne', hunequal'⟩ :
      ∃ m₀ m₁ m host fresh m₂ shown anew held cut m₃ held' late m₄,
      (fickle.create []).run (fickle.start []) = .ok (.ok (), m₀) ∧
      fickle.mount none m₀ = .ok ((), m₁) ∧
      fickle.performAll [.dispatch "b" 0 "click" .undefined] m₁ = .ok ((), m) ∧
      m.host.own.host = some host ∧
      fickle.definition.part.render (fickle.site fickle.live) [] m.host.own.snapshot m = .ok (fresh, m₂) ∧
      m.host.doc.childrenHtml false host = shown ∧ m₂.host.doc.childrenHtml false fresh.2 = anew ∧
      ¬Html.alikeAll (fun _ _ => True) shown anew ∧
      m.host.own.state.get? fickleCut.name = some held ∧
      (fickle.board fickle.settling).compute fickleCut m = .ok (.ok cut, m₃) ∧
      held ≠ cut ∧ held.equal cut = false ∧
      m.host.own.state.get? fickleLate.name = some held' ∧
      (fickle.board fickle.settling).compute fickleLate m = .ok (.ok late, m₄) ∧
      held' ≠ late ∧ held'.equal late = false := by
    -- each run is evaluated once, as are the two contents and the values
    iterate 14 apply Exists.intro
    refine ⟨?_, ?_, ?_, ?_, ?_, ?_, ?_, ?_, ?_, ?_, ?_, ?_, ?_, ?_, ?_, ?_⟩
    · conv => lhs; cbv
    · conv => lhs; cbv
    · conv => lhs; cbv
    · rfl
    · conv => lhs; cbv
    · conv => lhs; cbv
    · conv => lhs; cbv
    · simp [Html.alikeAll, Html.Alike]
    · conv => lhs; cbv
    · conv => lhs; cbv
    · exact fun hsame => by cases hsame
    · with_unfolding_all rfl
    · conv => lhs; cbv
    · conv => lhs; cbv
    · exact fun hsame => by cases hsame
    · with_unfolding_all rfl
  refine ⟨m₀, m₁, m, hnew, hmount, hclick, compiled_fickle, tracked_fickle,
    ⟨host, fresh, m₂, hhost, hrender, ?_⟩, ⟨held, cut, m₃, hheld, hcut, hne, hunequal⟩, by decide,
    ⟨held', late, m₄, hheld', hlate, hne', hunequal'⟩, by decide⟩
  rw [hshown, hanew]
  exact hdiffer

end Setting

end Reactive
