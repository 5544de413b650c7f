/-
The classes of rendered elements.

The attributes of a rendered element are written as its view says, so each of
its class tokens has one of three origins: a static class attribute, a class
toggle, or a value of a dynamic class attribute.  A style is purged with what
the template gives away about them.

* `Setting.Carries` — a class token that the view can give, and how;
* `Setting.carries_of_run` — the class tokens in any run of a component;
* `Setting.mem_usedClasses_of_carries` — those that purging knows of;
* `Setting.purge_keeps_rules` — what a purged style still has.
-/
import Mathlib
import Reactive.Proofs.Block.Stage
import Reactive.Proofs.Component.Keeps
import Reactive.Proofs.Css.Purge
import Reactive.Proofs.View.Classes

namespace Reactive

/-! ### Class tokens -/

namespace Dom

/-- The name of a class attribute, in any case. -/
def IsClass (name : Text) : Prop := name.map Text.asciiLower = "class"

theorem isClass_class : IsClass "class" := by
  unfold IsClass
  decide

/-- A class token among the attributes of an element. -/
def HasClass (t : Text) (as : List (Text × Text)) : Prop :=
  ∃ a ∈ as, IsClass a.1 ∧ t ∈ Text.fields a.2

variable {t key value : Text} {as : List (Text × Text)}

theorem removeAttr_subset (key : Text) (as : List (Text × Text)) : removeAttr key as ⊆ as := by
  induction as with
  | nil => exact List.Subset.refl _
  | cons b r ih =>
    rw [removeAttr]
    split
    · exact List.subset_cons_self _ _
    · exact List.cons_subset_cons _ ih

theorem HasClass.mono {bs : List (Text × Text)} (h : HasClass t as) (hsub : as ⊆ bs) :
    HasClass t bs :=
  let ⟨a, ha, hclass⟩ := h
  ⟨a, hsub ha, hclass⟩

theorem HasClass.of_setAttr (h : HasClass t (setAttr key value as)) :
    HasClass t as ∨ IsClass key ∧ t ∈ Text.fields value := by
  obtain ⟨a, ha, hclass⟩ := h
  rw [setAttr_eq] at ha
  rcases Dict.mem_insert ha with ha | rfl
  · exact .inl ⟨a, ha, hclass⟩
  · exact .inr hclass

/-- A toggle brings no class token but its own. -/
theorem HasClass.of_toggleClass {token : Text} {on : Bool}
    (h : HasClass t (toggleClass token on as)) : HasClass t as ∨ t ∈ Text.fields token := by
  have hold : ∀ u ∈ Text.fields ((attr? "class" as).getD []), HasClass u as := by
    intro u hu
    rw [attr?_eq] at hu
    cases hattr : Dict.get? as "class" with
    | none => rw [hattr, Option.getD_none, Text.fields_nil] at hu; cases hu
    | some v =>
      rw [hattr, Option.getD_some] at hu
      exact ⟨_, Dict.mem_of_get? hattr, isClass_class, hu⟩
  -- The tokens that are written are old ones, and maybe that of the toggle.
  have hnew : ∀ tokens,
      toggleToken (Text.fields ((attr? "class" as).getD [])) token on = some tokens →
      ∀ u ∈ tokens, HasClass u as ∧ Text.fields u = [u] ∨ u = token := by
    intro tokens htokens u hu
    have hkept : u ∈ Text.fields ((attr? "class" as).getD []) →
        HasClass u as ∧ Text.fields u = [u] ∨ u = token :=
      fun h => .inl ⟨hold u h, Text.fields_of_mem h⟩
    unfold toggleToken at htokens
    split at htokens
    · split at htokens
      · cases htokens
      · cases htokens
        exact (List.mem_append.1 hu).elim hkept fun h => .inr (List.mem_singleton.1 h)
    · split at htokens
      · cases htokens
        exact hkept (List.mem_of_mem_erase hu)
      · cases htokens
  unfold toggleClass at h
  split at h
  · exact .inl h
  · exact .inl (h.mono (removeAttr_subset _ _))
  · rename_i tokens _ htokens
    rcases h.of_setAttr with h | ⟨-, h⟩
    · exact .inl h
    · rw [Text.fields_join] at h
      obtain ⟨u, hu, ht⟩ := List.mem_flatMap.1 h
      rcases hnew _ htokens u hu with ⟨hclass, hword⟩ | rfl
      · rw [hword] at ht
        rw [List.mem_singleton.1 ht]
        exact .inl hclass
      · exact .inr ht

end Dom

/-- A value that is written to an attribute brings no class token but those in its text. -/
theorem Block.hasClass_of_applyAttr {t name : Text} {v : Value} {as : List (Text × Text)}
    (h : Dom.HasClass t (applyAttr name v as)) :
    Dom.HasClass t as ∨ Dom.IsClass name ∧ t ∈ Text.fields v.toText := by
  unfold applyAttr at h
  split at h
  · rcases h.of_setAttr with h | ⟨-, h⟩
    · exact .inl h
    · rw [Text.fields_nil] at h
      cases h
  iterate 3 exact .inl (h.mono (Dom.removeAttr_subset _ _))
  · exact h.of_setAttr

/-- The start tags in the markup of a template are read back from its text, the names of attributes
in lower case. -/
def Template.RoundTrips (ns : List Template.Node) : Prop :=
  ∀ html, projection ns = .ok html → ∀ as ∈ Html.attrListsAll (projectAll ns),
    as.map (fun a => (a.1.map Text.asciiLower, a.2)) ∈ Html.startTags html

theorem Template.roundTrips_of_eq {ns : List Template.Node} {html : Text}
    (hhtml : projection ns = .ok html) (htags : Html.startTags html =
      (Html.attrListsAll (projectAll ns)).map (·.map fun a => (a.1.map Text.asciiLower, a.2))) :
    RoundTrips ns := by
  intro html' hhtml' as has
  rw [hhtml] at hhtml'
  cases hhtml'
  rw [htags]
  exact List.mem_map_of_mem has

/-! ### What elements carry -/

namespace View

/-- How a class token gets on an element: it stands in a static attribute, it is toggled, or it is
in a value of a dynamic attribute. -/
inductive Way where
  | fixed
  | toggled
  | value (b : Binding) (x : Value)

/-- An element can get a class token in some way, where `shown` tells the values of bindings. -/
def Element.Carries (el : Element) (shown : Binding → Value → Prop) (t : Text) : Way → Prop
  | .fixed => Dom.HasClass t (fixedAttrs el.attrs)
  | .toggled => ∃ g ∈ el.toggles, t ∈ Text.fields g.token
  | .value b x => ∃ name, Dom.IsClass name ∧ (name, b) ∈ boundAttrs el.attrs ∧ shown b x ∧
      t ∈ Text.fields x.toText

/-- The ways that purging foresees.  What has a brace in it does not count in markup, and what is
not class-like does not count elsewhere; of the values of an expression its own strings are known. -/
def Way.Foreseen (t : Text) : Way → Prop
  | .fixed => '{'.toUInt8 ∉ t ∧ '}'.toUInt8 ∉ t
  | .toggled => isClassWord t = true
  | .value b x => isClassWord t = true ∧ ∃ s, x = .str s ∧ b.expr.Spells s

/-- Every class token that an element of a view carries in a way that is foreseen is in use. -/
theorem Element.Carries.mem_usedClasses {ns : List Template.Node} {v : View} {html : Text}
    (hbuild : View.build ns = .ok v) (hhtml : Template.projection ns = .ok html)
    (htags : Template.RoundTrips ns) {el : Element} (hel : el ∈ elementsAll v.nodes)
    {shown : Binding → Value → Prop} {t : Text} {w : Way} (h : el.Carries shown t w)
    (hw : w.Foreseen t) (style : Text) :
    t ∈ Css.usedClasses ⟨html, v.safelist, v.hints, style⟩ := by
  rw [Css.mem_usedClasses]
  cases w with
  | fixed =>
    obtain ⟨⟨name, value⟩, ha, hclass, ht⟩ := h
    obtain ⟨as, has, hsub⟩ := marked_of_build hbuild el hel
    refine .inl (Css.mem_markupClasses.2 ⟨_, htags html hhtml as has, value, ?_, ht, hw⟩)
    exact List.mem_map.2 ⟨_, hsub ha, Prod.ext hclass rfl⟩
  | toggled =>
    obtain ⟨g, hg, ht⟩ := h
    exact .inr (.inl (Element.words_hints hbuild hel (Element.mem_words_toggle hg ht hw)))
  | value b x =>
    obtain ⟨name, -, hb, -, ht⟩ := h
    obtain ⟨hword, s, rfl, hspells⟩ := hw
    have hwords := Element.mem_words_string hb hspells ht hword
    exact .inr (.inl (Element.words_hints hbuild hel hwords))

end View

/-! ### Runs -/

namespace Setting

variable {s : Setting} {m m' m'' : Machine World}

/-- A value that a binding can be evaluated to, in a flush or outside. -/
def Shows (s : Setting) (b : View.Binding) (v : Value) : Prop :=
  (s.site s.live).Shows b v ∨ (s.site s.settling).Shows b v

/-- Some element of the view can get a class token in some way. -/
def Carries (s : Setting) (t : Text) (w : View.Way) : Prop :=
  ∃ el ∈ s.elements, el.Carries s.Shows t w

/-- Every class token of a rendered element is one that the view can give.  The host element is not
rendered: its attributes come from outside. -/
def Clad (s : Setting) (m : Machine World) : Prop :=
  ∀ n, m.host.own.host ≠ some n → ∀ t, Dom.HasClass t (m.host.doc.node n).attrs → ∃ w, s.Carries t w

/-- A change after which the class tokens are those the view can give if they were before. -/
def StaysClad (s : Setting) (m m' : Machine World) : Prop := s.Clad m → s.Clad m'

theorem StaysClad.trans (h : s.StaysClad m m') (h' : s.StaysClad m' m'') : s.StaysClad m m'' :=
  h' ∘ h

theorem staysClad_of_same (hhost : m'.host.own.host = m.host.own.host)
    (hattrs : ∀ n, (m'.host.doc.node n).attrs = (m.host.doc.node n).attrs) : s.StaysClad m m' := by
  intro hclad n hn t ht
  rw [hhost] at hn
  rw [hattrs] at ht
  exact hclad n hn t ht

theorem staysClad_withAttrs (m : Machine World) (n : Dom.NodeId)
    {f : List (Text × Text) → List (Text × Text)}
    (hf : ∀ as t, Dom.HasClass t (f as) → Dom.HasClass t as ∨ ∃ w, s.Carries t w) :
    s.StaysClad m (m.withAttrs n f) := by
  intro hclad i hi t ht
  change Dom.HasClass t ((m.host.doc.modifyAttrs n f).node i).attrs at ht
  rw [Dom.Document.attrs_modifyAttrs] at ht
  split at ht
  · exact (hf _ t ht).elim (hclad i hi t) id
  · exact hclad i hi t ht

/-- What elements of the view do to attributes gives no class token that the view cannot give. -/
theorem permits_clad (hs : s.definition.Sound) {h : Host World}
    (hK : h.Allows Halt.Any s.StaysClad) (hshows : ∀ b v, (s.site h).Shows b v → s.Shows b v) :
    (s.site h).Permits (· ∈ s.elements) Halt.Any s.StaysClad where
  range := trivial
  same hown hattrs := staysClad_of_same (congrArg Component.host hown) hattrs
  trans := .trans
  outcome _ frame e := keeping_outcome hs hK _ frame e
  fixed hel a ha m n := staysClad_withAttrs m n fun _ _ ht =>
    ht.of_setAttr.imp_right fun hclass => ⟨.fixed, _, hel, a, ha, hclass⟩
  bound hel a ha v hv m n := staysClad_withAttrs m n fun _ _ ht =>
    (Block.hasClass_of_applyAttr ht).imp_right fun ⟨hclass, ht⟩ =>
      ⟨.value a.2 v, _, hel, a.1, hclass, ha, hshows _ _ hv, ht⟩
  toggle hel g hg m n _ := staysClad_withAttrs m n fun _ _ ht =>
    ht.of_toggleClass.imp_right fun ht => ⟨.toggled, _, hel, g, hg, ht⟩

theorem settling_allows_clad (s : Setting) : s.settling.Allows Halt.Any s.StaysClad where
  fuel := trivial
  same h := staysClad_of_same (by rw [h]) fun _ => by rw [h]
  trans := .trans
  write := keeping_storeKey (fun _ => id) (fun _ _ _ _ => staysClad_of_same rfl fun _ => rfl) .trans
    fun _ => id

section

variable (hs : s.definition.Sound)

include hs

theorem clad_settles : s.Settles s.StaysClad where
  permits := permits_clad hs s.settling_allows_clad fun _ _ => .inr
  recompute := by
    refine keeping_recompute (permits_clad hs s.settling_allows_clad fun _ _ => .inr)
      fun x _ m m' r hrun => ?_
    have hcomputed : s.StaysClad m m' :=
      (keeping_outcome hs s.settling_allows_clad _ _ _ m).of_ok hrun
    exact ⟨hcomputed, fun v _ => hcomputed.trans (staysClad_of_same rfl fun _ => rfl)⟩
  marks _ _ _ _ := staysClad_of_same rfl fun _ => rfl

theorem live_allows_clad : s.live.Allows Halt.Any s.StaysClad where
  fuel := trivial
  same h := staysClad_of_same (by rw [h]) fun _ => by rw [h]
  trans := .trans
  write := keeping_storeKey (fun _ => id) (fun _ _ _ _ => staysClad_of_same rfl fun _ => rfl) .trans
    (clad_settles hs).keeping_flushOutside

theorem clad_bears : s.Bears s.StaysClad where
  live := live_allows_clad hs
  permits := permits_clad hs (live_allows_clad hs) fun _ _ => .inl
  placed _ _ hnone hclad n _ := hclad n (by rw [hnone]; exact nofun)
  shown _ _ := staysClad_of_same rfl fun _ => rfl
  attrs m h f hhost hclad n hn t ht := by
    change Dom.HasClass t ((m.host.doc.modifyAttrs h f).node n).attrs at ht
    rw [Dom.Document.attrs_modifyAttrs, if_neg fun hsame : h = n ∧ _ => hn (hsame.1 ▸ hhost)] at ht
    exact hclad n hn t ht
  batch := (clad_settles hs).keeping_batch

theorem clad_begins : s.Begins s.StaysClad where
  live := live_allows_clad hs
  permits := permits_clad hs (live_allows_clad hs) fun _ _ => .inl
  put _ _ _ _ := staysClad_of_same rfl fun _ => rfl
  methods _ _ := staysClad_of_same rfl fun _ => rfl

/-- In every run of a component, whatever is done with it, each class token of a rendered element is
one that its view gives. -/
theorem carries_of_run {given : Dict Value} {logs : List LogEntry} {m₀ : Machine World}
    {r : Except ComponentError Unit} (hnew : (s.create given).run (s.start logs) = .ok (r, m₀))
    {ops : List Operation} (hrun : s.performAll ops m₀ = .ok ((), m)) : s.Clad m := by
  have hcreated : s.StaysClad (s.start logs) m₀ :=
    ((clad_begins hs).keeping_create hs given (s.start logs)).of_ok hnew
  have hperformed : s.StaysClad m₀ m := ((clad_bears hs).keeping_performAll ops m₀).of_ok hrun
  refine hperformed (hcreated fun n _ t ht => ?_)
  obtain ⟨a, ha, -⟩ := ht
  cases ha

end

/-- Purging keeps what rendered elements need.  Of the component of a template, whatever was done
with it: each class token of a rendered element is one that its view gives, statically, by a toggle,
or as a value of a dynamic attribute; those that it gives in a way that is foreseen are in use,
whatever branch, loop or state they belong to; and a style rule is kept with every selector that
requires only such classes. -/
theorem purge_keeps_rules {ns : List Template.Node} {v : View} {html : Text}
    (hbuild : View.build ns = .ok v) (hhtml : Template.projection ns = .ok html)
    (htags : Template.RoundTrips ns) (hs : s.definition.Sound) (hview : s.definition.view = v.nodes)
    {given : Dict Value} {logs : List LogEntry} {m₀ : Machine World}
    {r : Except ComponentError Unit} (hnew : (s.create given).run (s.start logs) = .ok (r, m₀))
    {ops : List Operation} (hrun : s.performAll ops m₀ = .ok ((), m)) (style : Text) :
    (∀ n, m.host.own.host ≠ some n → ∀ t, Dom.HasClass t (m.host.doc.node n).attrs →
      ∃ w, s.Carries t w) ∧
    (∀ t w, s.Carries t w → w.Foreseen t →
      t ∈ Css.usedClasses ⟨html, v.safelist, v.hints, style⟩) ∧
    ∀ rs sels body, Css.rulesOf style = .ok rs → Css.Within (.style sels body) rs →
      ∃ out, Css.Input.build ⟨html, v.safelist, v.hints, style⟩ false false = .ok out ∧
        ∀ sel ∈ sels, (∀ c ∈ sel.classes, ∃ w, s.Carries c w ∧ w.Foreseen c) →
          ∃ kept : List Css.Selector, kept.Sublist sels ∧ sel ∈ kept ∧
            (Text.join "," (kept.map (·.text)) ++ "\x7b" ++ body ++ "\x7d" : Text) <:+: out := by
  have hused : ∀ t w, s.Carries t w → w.Foreseen t →
      t ∈ Css.usedClasses ⟨html, v.safelist, v.hints, style⟩ := by
    rintro t w ⟨el, hel, hcarries⟩ hw
    rw [elements, hview] at hel
    exact hcarries.mem_usedClasses hbuild hhtml htags hel hw style
  refine ⟨carries_of_run hs hnew hrun, hused, fun rs sels body hrules hwithin => ?_⟩
  obtain ⟨out, hout, hkept⟩ := Css.build_keeps hrules hwithin
  refine ⟨out, hout, fun sel hsel hclasses => hkept sel hsel fun c hc => ?_⟩
  obtain ⟨w, hcarries, hw⟩ := hclasses c hc
  exact hused c w hcarries hw

/-- A template with a choice.  Its first element has static and toggled classes, and an expression
chooses those of its second one. -/
def lampTemplate : List Template.Node :=
  [.cond 0 [.mk 0 "on" 0 [.element 0 "p" [⟨0, "class", .static, "card a\x7db", 0⟩,
      ⟨0, "class:lit", .dynamic, "on", 0⟩, ⟨0, "class:!mt", .dynamic, "on", 0⟩] []]] .nothing,
    .element 0 "b" [⟨0, "class", .dynamic, "on ? 'big !px' : 'dim'", 0⟩] []]

/-- Its markup. -/
def lampMarkup : Text :=
  "<p class=\"card a\x7db\" class:lit=\"on\" class:!mt=\"on\"></p>" ++
    "<b class=\"on ? &#39;big !px&#39; : &#39;dim&#39;\"></b>"

/-- The binding of its condition and of the toggles. -/
def lampOn : View.Binding := ⟨"on", .ident 0 "on", ["on"], []⟩

/-- The binding of the class of its second element. -/
def lampSize : View.Binding :=
  ⟨"on ? 'big !px' : 'dim'",
    .conditional 0 (.ident 0 "on") (.literal 5 (.str "big !px")) (.literal 17 (.str "dim")),
    ["on"], []⟩

/-- A component with this template. -/
def lamp : Setting where
  definition :=
    { tag := "x-lamp"
      script := { vars := [⟨"on", .let_, some (.literal 0 (.bool true))⟩] }
      view := [.cond 1 [.mk lampOn (.elem 2 "p" [.fixed "class" "card a\x7db"]
          [⟨"lit", lampOn⟩, ⟨"!mt", lampOn⟩] [] [])] .nothing,
        .elem 3 "b" [.bound "class" lampSize] [] [] []]
      bits := .ofNames ["on"]
      schedule := { derived := [], order := [] }
      css := [] }

theorem sound_lamp : lamp.definition.Sound where
  schedule := ⟨false, by with_unfolding_all rfl⟩
  bits := by decide
  outcome := rfl
  apart _ _ := rfl

theorem build_lamp : ∃ v, View.build lampTemplate = .ok v ∧ lamp.definition.view = v.nodes ∧
    v.safelist = [] ∧ v.hints = ["card", "lit", "big", "dim"] :=
  ⟨_, by with_unfolding_all rfl, by with_unfolding_all rfl, by with_unfolding_all rfl,
    by with_unfolding_all rfl⟩

theorem projection_lamp : Template.projection lampTemplate = .ok lampMarkup := by
  with_unfolding_all rfl

theorem roundTrips_lamp : Template.RoundTrips lampTemplate :=
  Template.roundTrips_of_eq projection_lamp (by with_unfolding_all rfl)

/-- A token that is toggled, whether the branch with the toggle is rendered or not. -/
theorem carries_lamp_toggled {t : Text} (ht : t = "lit" ∨ t = "!mt") : lamp.Carries t .toggled := by
  refine ⟨_, List.mem_cons_self, ⟨t, lampOn⟩, ?_, ?_⟩
  · rcases ht with rfl | rfl
    · exact List.mem_cons_self
    · exact List.mem_cons_of_mem _ List.mem_cons_self
  · rcases ht with rfl | rfl
    · with_unfolding_all exact List.mem_cons_self
    · with_unfolding_all exact List.mem_cons_self

/-- A token in a string that the expression chooses. -/
theorem carries_lamp_value {t : Text} (ht : t ∈ Text.fields "big !px") :
    lamp.Carries t (.value lampSize (.str "big !px")) := by
  have hshown : lamp.Shows lampSize (.str "big !px") := by
    refine .inl ⟨[], [("on", .bool true)], lamp.start [], ?_⟩
    apply Exists.intro
    with_unfolding_all rfl
  exact ⟨_, List.mem_cons_of_mem _ List.mem_cons_self, "class", Dom.isClass_class,
    List.mem_cons_self, hshown, ht⟩

/-- A style with a rule in a group, and a rule for each class that is not foreseen. -/
def lampStyle : Text :=
  "@media print\x7b.lit .big\x7bmargin:0\x7d\x7d\n.a\\\x7db\x7b\x7d\n.\\!mt\x7b\x7d\n.\\!px\x7b\x7d"

theorem rulesOf_lamp : Css.rulesOf lampStyle =
    .ok [.group "@media print" [.style [⟨".lit .big", ["lit", "big"]⟩] "margin:0"],
      .style [⟨".a\\\x7db", ["a\x7db"]⟩] [], .style [⟨".\\!mt", ["!mt"]⟩] [],
      .style [⟨".\\!px", ["!px"]⟩] []] := by
  with_unfolding_all rfl

/-- At the end of the run neither class of the rule in the group is rendered.  The rule is kept. -/
theorem purge_keeps_rules_lamp : ∃ (v : View) (m₀ m : Machine World) (out : Text),
    View.build lampTemplate = .ok v ∧ (lamp.create []).run (lamp.start []) = .ok (.ok (), m₀) ∧
    lamp.performAll [.mount none, .set "on" (.bool false)] m₀ = .ok ((), m) ∧
    m.host.componentHtml = "<x-lamp><b class=\"dim\"></b></x-lamp>" ∧
    (∀ n, m.host.own.host ≠ some n → ∀ t, Dom.HasClass t (m.host.doc.node n).attrs →
      ∃ w, lamp.Carries t w) ∧
    Css.Input.build ⟨lampMarkup, v.safelist, v.hints, lampStyle⟩ false false = .ok out ∧
    (".lit .big\x7bmargin:0\x7d" : Text) <:+: out := by
  obtain ⟨v, hbuild, hview, -⟩ := build_lamp
  obtain ⟨m₀, m, hnew, hrun, hhtml⟩ : ∃ m₀ m,
      (lamp.create []).run (lamp.start []) = .ok (.ok (), m₀) ∧
      lamp.performAll [.mount none, .set "on" (.bool false)] m₀ = .ok ((), m) ∧
      m.host.componentHtml = "<x-lamp><b class=\"dim\"></b></x-lamp>" := by
    apply Exists.intro
    apply Exists.intro
    refine ⟨?_, ?_, ?_⟩
    · conv => lhs; cbv
    · conv => lhs; cbv
    · with_unfolding_all rfl
  obtain ⟨hclad, -, hkeeps⟩ := purge_keeps_rules hbuild projection_lamp roundTrips_lamp sound_lamp
    hview hnew hrun lampStyle
  obtain ⟨out, hout, hkept⟩ :=
    hkeeps _ _ _ rulesOf_lamp (.group List.mem_cons_self (.here List.mem_cons_self))
  have hlit : View.isClassWord "lit" = true := by decide
  have hbig : View.isClassWord "big" = true := by decide
  have hfield : ("big" : Text) ∈ Text.fields "big !px" := by
    with_unfolding_all exact List.mem_cons_self
  have hspells : lampSize.expr.Spells "big !px" := fun h => h.2.2.1 List.mem_cons_self
  obtain ⟨kept, hsub, hmem, hinfix⟩ := hkept _ List.mem_cons_self fun c hc => by
    rcases List.mem_cons.1 hc with rfl | hc
    · exact ⟨_, carries_lamp_toggled (.inl rfl), hlit⟩
    · rw [List.mem_singleton.1 hc]
      exact ⟨_, carries_lamp_value hfield, hbig, _, rfl, hspells⟩
  have hsingle : kept = [⟨".lit .big", ["lit", "big"]⟩] := by
    refine (List.sublist_singleton.1 hsub).resolve_left ?_
    rintro rfl
    cases hmem
  rw [hsingle] at hinfix
  exact ⟨v, m₀, m, out, hbuild, hnew, hrun, hhtml, hclad, hout, hinfix⟩

/-- What is not foreseen is lost.  A static class with a brace in it, a toggled class that starts
with an exclamation mark and such a class in a string of an expression are all rendered; none of them
is in use, and the rules for them are dropped. -/
theorem purge_drops_lamp : ∃ (v : View) (m₀ m : Machine World),
    View.build lampTemplate = .ok v ∧ lamp.definition.view = v.nodes ∧
    Template.projection lampTemplate = .ok lampMarkup ∧ Template.RoundTrips lampTemplate ∧
    (lamp.create []).run (lamp.start []) = .ok (.ok (), m₀) ∧
    lamp.performAll [.mount none] m₀ = .ok ((), m) ∧ m.host.componentHtml =
      "<x-lamp><p class=\"card a\x7db lit !mt\"></p><b class=\"big !px\"></b></x-lamp>" ∧
    lamp.Carries "a\x7db" .fixed ∧ lamp.Carries "!mt" .toggled ∧
    lamp.Carries "!px" (.value lampSize (.str "big !px")) ∧ lampSize.expr.Spells "big !px" ∧
    (∀ t ∈ (["a\x7db", "!mt", "!px"] : List Text),
      t ∉ Css.usedClasses ⟨lampMarkup, v.safelist, v.hints, lampStyle⟩) ∧
    Css.Input.build ⟨lampMarkup, v.safelist, v.hints, lampStyle⟩ false false =
      .ok "@media print\x7b.lit .big\x7bmargin:0\x7d\x7d" := by
  obtain ⟨v, hbuild, hview, hsafelist, hhints⟩ := build_lamp
  obtain ⟨m₀, m, hnew, hrun, hhtml⟩ : ∃ m₀ m,
      (lamp.create []).run (lamp.start []) = .ok (.ok (), m₀) ∧
      lamp.performAll [.mount none] m₀ = .ok ((), m) ∧ m.host.componentHtml =
        "<x-lamp><p class=\"card a\x7db lit !mt\"></p><b class=\"big !px\"></b></x-lamp>" := by
    apply Exists.intro
    apply Exists.intro
    refine ⟨?_, ?_, ?_⟩
    · conv => lhs; cbv
    · conv => lhs; cbv
    · with_unfolding_all rfl
  have hfixed : lamp.Carries "a\x7db" .fixed := by
    refine ⟨_, List.mem_cons_self, _, List.mem_cons_self, Dom.isClass_class, ?_⟩
    with_unfolding_all exact List.mem_cons_of_mem _ List.mem_cons_self
  have hfield : ("!px" : Text) ∈ Text.fields "big !px" := by
    with_unfolding_all exact List.mem_cons_of_mem _ List.mem_cons_self
  have hspells : lampSize.expr.Spells "big !px" := fun h => h.2.2.1 List.mem_cons_self
  refine ⟨v, m₀, m, hbuild, hview, projection_lamp, roundTrips_lamp, hnew, hrun, hhtml, hfixed,
    carries_lamp_toggled (.inr rfl), carries_lamp_value hfield, hspells, ?_, ?_⟩
  · have hused : Css.usedClasses ⟨lampMarkup, v.safelist, v.hints, lampStyle⟩ =
        ["!px'", "'big", "'dim'", ":", "?", "big", "card", "dim", "lit", "on"] := by
      rw [hsafelist, hhints]
      with_unfolding_all rfl
    rw [hused]
    decide
  · rw [hsafelist, hhints]
    with_unfolding_all rfl

end Setting

end Reactive
