/-
The names of a binding, told apart.

A view is built along with the names of the loops around each place.  A binding
of it splits the free names of its expression into names of the component's
state and names of these loops, each name once; the names under which a handler
sees its event count as neither.

* `Node.uses` — the bindings of a view, each with the loops around it;
* `Use.Classified` — what is said of one;
* `forall_uses_of_build` — what holds of every binding of a parsed expression holds of every
  binding of a view that is built;
* `classified_of_build` — so its names are told apart.
-/
import Mathlib.Data.List.Nodup
import Mathlib.Tactic.Tauto
import Reactive.Proofs.Expr.Identifiers
import Reactive.Proofs.View.Every
import Reactive.View.Build

namespace Reactive.View

/-- A binding of a view, with the names of the loops around it. -/
structure Use where
  locals : List Text
  /-- Whether it is run by an event. -/
  handler : Bool
  binding : Binding

mutual

/-- The bindings of a node and of the nodes below it.  The list of a loop stands outside the
loop. -/
def Node.uses (locals : List Text) : Node → List Use
  | .fixed .. => []
  | .text _ b => [⟨locals, false, b⟩]
  | .elem _ _ attrs toggles handlers children =>
    (boundAttrs attrs).map (fun a => ⟨locals, false, a.2⟩) ++
      (toggles.map (fun t => ⟨locals, false, t.binding⟩) ++
        (handlers.map (fun h => ⟨locals, true, h.binding⟩) ++ usesAll locals children))
  | .cond _ branches other => usesBranches locals branches ++ other.uses locals
  | .each _ list item index body =>
    ⟨locals, false, list⟩ :: body.uses (loopNames item index locals)
  | .fragment _ children => usesAll locals children

/-- The bindings of several nodes. -/
def usesAll (locals : List Text) : List Node → List Use
  | [] => []
  | n :: r => n.uses locals ++ usesAll locals r

/-- The bindings of the branches of a choice. -/
def usesBranches (locals : List Text) : List Branch → List Use
  | [] => []
  | b :: r => b.uses locals ++ usesBranches locals r

/-- The bindings of a branch. -/
def Branch.uses (locals : List Text) : Branch → List Use
  | .mk test body => ⟨locals, false, test⟩ :: body.uses locals

/-- The bindings of what is rendered when no condition holds. -/
def Otherwise.uses (locals : List Text) : Otherwise → List Use
  | .nothing => []
  | .body n => n.uses locals

end

section

variable {P : List Text → Binding → Prop}

mutual

/-- What is true of every binding outside handlers is true everywhere in a view. -/
theorem every_of_uses : ∀ (n : Node) {locals : List Text},
    (∀ u ∈ n.uses locals, u.handler = false → P u.locals u.binding) → n.Every P P locals
  | .fixed .., _, _ => trivial
  | .text .., _, h => h _ (List.mem_singleton_self _) rfl
  | .elem _ _ _ _ _ children, _, h =>
    ⟨fun _ ha => h _ (List.mem_append_left _ (List.mem_map_of_mem ha)) rfl,
      everyAll_of_uses children fun u hu => h u (List.mem_append_right _
        (List.mem_append_right _ (List.mem_append_right _ hu)))⟩
  | .cond _ branches other, _, h =>
    ⟨everyBranch_of_uses branches fun u hu => h u (List.mem_append_left _ hu),
      everyOtherwise_of_uses other fun u hu => h u (List.mem_append_right _ hu)⟩
  | .each _ _ _ _ body, _, h =>
    ⟨h _ List.mem_cons_self rfl, every_of_uses body fun u hu => h u (List.mem_cons_of_mem _ hu)⟩
  | .fragment _ children, _, h => everyAll_of_uses children h

theorem everyAll_of_uses : ∀ (ns : List Node) {locals : List Text},
    (∀ u ∈ usesAll locals ns, u.handler = false → P u.locals u.binding) → everyAll P P locals ns
  | [], _, _ => trivial
  | n :: r, _, h => ⟨every_of_uses n fun u hu => h u (List.mem_append_left _ hu),
      everyAll_of_uses r fun u hu => h u (List.mem_append_right _ hu)⟩

theorem everyBranch_of_uses : ∀ (bs : List Branch) {locals : List Text},
    (∀ u ∈ usesBranches locals bs, u.handler = false → P u.locals u.binding) →
    everyBranch P P locals bs
  | [], _, _ => trivial
  | .mk _ body :: r, _, h =>
    ⟨⟨h _ (List.mem_append_left _ List.mem_cons_self) rfl,
        every_of_uses body fun u hu => h u (List.mem_append_left _ (List.mem_cons_of_mem _ hu))⟩,
      everyBranch_of_uses r fun u hu => h u (List.mem_append_right _ hu)⟩

theorem everyOtherwise_of_uses : ∀ (o : Otherwise) {locals : List Text},
    (∀ u ∈ o.uses locals, u.handler = false → P u.locals u.binding) → o.Every P P locals
  | .nothing, _, _ => trivial
  | .body n, _, h => every_of_uses n h

end

end

/-- The names of a binding are told apart: those of the state and those of loops are different
names, each listed once, together the free names of the expression, but for the names of the event
in a handler; and those of loops are names of the loops around the binding. -/
structure Use.Classified (u : Use) : Prop where
  state : u.binding.state.Nodup
  loc : u.binding.loc.Nodup
  disjoint : u.binding.state.Disjoint u.binding.loc
  names : ∀ n, n ∈ u.binding.state ∨ n ∈ u.binding.loc ↔ n ∈ u.binding.expr.freeNames ∧
    (u.handler = true → n ≠ eventName ∧ n ≠ eventAlias)
  scope : ∀ n, n ∈ u.binding.loc → n ∈ u.locals
  outside : ∀ n, n ∈ u.binding.state → n ∉ u.locals
  identifiers : ∀ n ∈ u.binding.expr.freeNames, isIdentifier n = true

/-! ### Bindings -/

/-- The names in a handler under which it sees its event. -/
def Use.skip (handler : Bool) : List Text := if handler then [eventName, eventAlias] else []

theorem Use.mem_skip {handler : Bool} {n : Text} :
    n ∉ Use.skip handler ↔ (handler = true → n ≠ eventName ∧ n ≠ eventAlias) := by
  cases handler <;> simp [skip]

theorem Use.classified_ofExpr (locals : List Text) (source : Text) {e : Expr} (handler : Bool)
    (he : e.Every named false) :
    Use.Classified ⟨locals, handler, .ofExpr locals source e (skip handler)⟩ := by
  obtain ⟨hnodup, hnames⟩ := Expr.tidy_freeNames he
  have hkept : (e.freeNames.filter fun n => !(skip handler).contains n).Nodup := hnodup.filter _
  refine ⟨hkept.filter _, hkept.filter _, fun n hstate hloc => ?_, fun n => ?_, fun n hloc => ?_,
    fun n hstate => ?_, hnames⟩
  · have hout := (List.mem_filter.1 hstate).2
    have hin := (List.mem_filter.1 hloc).2
    rw [hin] at hout
    cases hout
  · rw [← Use.mem_skip]
    simp only [Binding.ofExpr, List.mem_filter, Bool.not_eq_true', List.contains_eq_mem,
      decide_eq_false_iff_not, decide_eq_true_eq]
    tauto
  · exact List.contains_iff_mem.1 (List.mem_filter.1 hloc).2
  · simpa using (List.mem_filter.1 hstate).2

/-! ### Steps of building a view -/

namespace Build

variable {α β : Type}

/-- A run of two steps is a run of each. -/
theorem bind_eq_ok {x : Build α} {f : α → Build β} {c c'' : Collected} {b : β}
    (h : (x >>= f) c = .ok (b, c'')) : ∃ a c', x c = .ok (a, c') ∧ f a c' = .ok (b, c'') := by
  have hbind : (x >>= f) c = (x c >>= fun p => f p.1 p.2) := rfl
  rw [hbind] at h
  cases hx : x c with
  | error e => rw [hx] at h; cases h
  | ok p =>
    rw [hx] at h
    exact ⟨p.1, p.2, rfl, h⟩

/-- What a step of building a view answers, if it succeeds. -/
def Gives (x : Build α) (P : α → Prop) : Prop :=
  ∀ (c c' : Collected) (a : α), x c = .ok (a, c') → P a

namespace Gives

variable {x : Build α} {f : α → Build β} {P : α → Prop} {Q : β → Prop}

theorem pure {a : α} (ha : P a) : Gives (pure a) P := by
  rintro c c' b ⟨⟩
  exact ha

theorem refuse (cause : BuildCause) (offset : Nat) : Gives (refuse cause offset) P := by
  rintro c c' b ⟨⟩

theorem bind (hx : Gives x P) (hf : ∀ a, P a → Gives (f a) Q) : Gives (x >>= f) Q := by
  intro c c'' b h
  obtain ⟨a, c', hxa, hfb⟩ := bind_eq_ok h
  exact hf a (hx c c' a hxa) c' c'' b hfb

/-- A step of which nothing has to be known. -/
theorem next (hf : ∀ a, Gives (f a) Q) : Gives (x >>= f) Q :=
  bind (P := fun _ => True) (fun _ _ _ _ => trivial) fun a _ => hf a

theorem map {g : α → β} (hx : Gives x P) (hg : ∀ a, P a → Q (g a)) : Gives (g <$> x) Q := by
  rw [map_eq_pure_bind]
  exact hx.bind fun a ha => .pure (hg a ha)

end Gives

theorem gives_readExpr (offset : Nat) (source : Text) :
    Gives (readExpr offset source) fun e => e.Every named false := by
  unfold readExpr
  cases h : Expr.parse source with
  | error e => exact .refuse _ _
  | ok e => exact .pure (Expr.named_of_parseAt h)

/-- What is true of every binding that is made of a parsed expression. -/
def Upholds (P : Use → Prop) : Prop :=
  ∀ (locals : List Text) (source : Text) (e : Expr) (handler : Bool), e.Every named false →
    P ⟨locals, handler, .ofExpr locals source e (Use.skip handler)⟩

theorem gives_bind {P : Use → Prop} (hP : Upholds P) (locals : List Text) (offset : Nat) (source : Text) :
    Gives (View.bind locals offset source) fun b => P ⟨locals, false, b⟩ :=
  (gives_readExpr offset source).bind fun _ he => .pure (hP locals source _ false he)

/-- Something is true of the bindings of the attributes of an element. -/
structure Attrs.Uphold (P : Use → Prop) (locals : List Text) (as : Attrs) : Prop where
  attrs : ∀ a ∈ boundAttrs as.attrs, P ⟨locals, false, a.2⟩
  toggles : ∀ t ∈ as.toggles, P ⟨locals, false, t.binding⟩
  handlers : ∀ h ∈ as.handlers, P ⟨locals, true, h.binding⟩

theorem boundAttrs_append (as bs : List Attr) :
    boundAttrs (as ++ bs) = boundAttrs as ++ boundAttrs bs := by
  induction as with
  | nil => rfl
  | cons a r ih => cases a <;> simp [boundAttrs, ih]

section

variable {P : Use → Prop} (hP : Upholds P) {locals : List Text} {out : Attrs}
  (h : Attrs.Uphold P locals out)

include hP h

theorem gives_addAttr (a : Template.Attr) :
    Gives (addAttr locals out a) (Attrs.Uphold P locals) := by
  have hattr : ∀ attr : Attr, (∀ b ∈ boundAttrs [attr], P ⟨locals, false, b.2⟩) →
      Attrs.Uphold P locals { out with attrs := out.attrs ++ [attr] } := by
    intro attr hnew
    refine ⟨fun b hb => ?_, h.toggles, h.handlers⟩
    rw [boundAttrs_append, List.mem_append] at hb
    exact hb.elim (h.attrs b) (hnew b)
  unfold addAttr
  split
  · rename_i event _
    refine (gives_readExpr _ _).bind fun e he => .pure ⟨h.attrs, h.toggles, fun x hx => ?_⟩
    rcases List.mem_append.1 hx with hx | hx
    · exact h.handlers x hx
    · obtain rfl := List.mem_singleton.1 hx
      exact hP locals a.value _ true (Expr.named_handler he)
  · split
    · rename_i c rest _
      have htoggle : ∀ source, Gives (do
          let b ← View.bind locals a.start source
          return { out with toggles := out.toggles ++ [⟨c :: rest, b⟩] })
          (Attrs.Uphold P locals) := by
        intro source
        refine (gives_bind hP _ _ _).bind fun b hb => .pure ⟨h.attrs, fun t ht => ?_, h.handlers⟩
        rcases List.mem_append.1 ht with ht | ht
        · exact h.toggles t ht
        · obtain rfl := List.mem_singleton.1 ht
          exact hb
      dsimp only
      split
      · split
        · exact htoggle _
        · exact .next fun _ => htoggle _
      · exact htoggle _
    · split
      · refine (gives_bind hP _ _ _).bind fun b hb => .pure (hattr _ fun x hx => ?_)
        obtain rfl := List.mem_singleton.1 hx
        exact hb
      · exact .pure (hattr _ fun _ hx => absurd hx List.not_mem_nil)

theorem gives_addAttrs (as : List Template.Attr) :
    Gives (addAttrs locals out as) (Attrs.Uphold P locals) := by
  induction as generalizing out with
  | nil => exact .pure h
  | cons a r ih => exact (gives_addAttr hP h a).bind fun _ hout => ih hout

end

/-! ### Lists of nodes -/

/-- Something is true of the bindings of some nodes. -/
def Uphold (P : Use → Prop) (locals : List Text) (ns : List Node) : Prop := ∀ u ∈ usesAll locals ns, P u

theorem usesAll_eq (locals : List Text) (ns : List Node) :
    usesAll locals ns = ns.flatMap (Node.uses locals) := by
  induction ns with
  | nil => rfl
  | cons n r ih => rw [usesAll, ih, List.flatMap_cons]

/-- Joining neighbouring texts and dropping layout matters to no list that has nothing for a text. -/
theorem flatMap_normalize {α : Type} {f : Node → List α} (hf : ∀ i t, f (.fixed i t) = [])
    (ns : List Node) : (normalize ns).flatMap f = ns.flatMap f := by
  have hjoin : (ns.foldr joinTexts []).flatMap f = ns.flatMap f := by
    induction ns with
    | nil => rfl
    | cons n r ih =>
      have hstep : ∀ rest, (joinTexts n rest).flatMap f = f n ++ rest.flatMap f := by
        intro rest
        unfold joinTexts
        split
        · simp only [List.flatMap_cons, hf, List.nil_append]
        · rfl
      rw [List.foldr_cons, hstep, ih, List.flatMap_cons]
  have hfilter : ∀ ms : List Node, (ms.filter fun n => !n.isLayout).flatMap f = ms.flatMap f := by
    intro ms
    induction ms with
    | nil => rfl
    | cons n r ih =>
      rw [List.filter_cons]
      split
      · rw [List.flatMap_cons, List.flatMap_cons, ih]
      · rename_i hlayout
        rw [ih, List.flatMap_cons]
        cases n with
        | fixed i t => rw [hf, List.nil_append]
        | _ => exact absurd rfl hlayout
  rw [normalize, hfilter, hjoin]

theorem usesAll_normalize (locals : List Text) (ns : List Node) :
    usesAll locals (normalize ns) = usesAll locals ns := by
  rw [usesAll_eq, usesAll_eq, flatMap_normalize fun _ _ => rfl]

theorem gives_single {P : Use → Prop} {locals : List Text} {ns : List Node} (h : Uphold P locals ns) :
    Gives (single ns) fun n => ∀ u ∈ n.uses locals, P u := by
  unfold single
  split
  · refine .pure fun u hu => h u ?_
    rw [usesAll, usesAll, List.append_nil]
    exact hu
  · exact .next fun _ => .pure h

/-! ### Nodes -/

mutual

theorem gives_node {P : Use → Prop} (hP : Upholds P) (locals : List Text) :
    ∀ n : Template.Node, Gives (Build.node locals n) (Uphold P locals)
  | .text _ t => .next fun _ => .pure fun _ hu => by cases hu
  | .comment _ t => .next fun _ => .pure fun _ hu => by cases hu
  | .mustache start source _ =>
    (gives_bind hP locals start source).bind fun b hb => .next fun i => .pure fun u hu => by
      obtain rfl := List.mem_singleton.1 hu
      exact hb
  | .element _ tag attrs children => by
    have hnew : Attrs.Uphold P locals {} :=
      ⟨List.forall_mem_nil _, List.forall_mem_nil _, List.forall_mem_nil _⟩
    unfold Build.node
    dsimp only
    split
    · exact .next fun _ => .pure fun _ hu => by cases hu
    · split
      · exact .next fun _ => .pure fun _ hu => by cases hu
      · refine .next fun id => (gives_addAttrs hP hnew attrs).bind fun as has => ?_
        have helem : ∀ built, Uphold P locals built →
            Uphold P locals [.elem id tag as.attrs as.toggles as.handlers built] := by
          intro built hbuilt u hu
          rw [usesAll, usesAll, List.append_nil, Node.uses] at hu
          simp only [List.mem_append, List.mem_map] at hu
          obtain ⟨a, ha, rfl⟩ | ⟨t, ht, rfl⟩ | ⟨x, hx, rfl⟩ | hu := hu
          · exact has.attrs a ha
          · exact has.toggles t ht
          · exact has.handlers x hx
          · exact hbuilt u hu
        split
        · split
          · exact .pure (helem [] fun _ hu => by cases hu)
          · exact .next fun i => .pure (helem [.fixed i _] fun _ hu => by cases hu)
        · refine ((gives_nodes hP locals children).map fun ns hns => ?_).bind fun built hbuilt =>
            .pure (helem built hbuilt)
          rw [Uphold, usesAll_normalize]
          exact hns
  | .cond _ bs other => .next fun id =>
    (gives_branches hP locals bs).bind fun built hbuilt =>
      (gives_otherwise hP locals other).bind fun last hlast => .pure fun u hu => by
        rw [usesAll, usesAll, List.append_nil, Node.uses, List.mem_append] at hu
        exact hu.elim (hbuilt u) (hlast u)
  | .each start list _ item index children =>
    (gives_bind hP locals start list).bind fun b hb => .next fun id =>
      (gives_nodes hP (loopNames item index locals) children).bind fun ns hns =>
        (gives_single (by rw [Uphold, usesAll_normalize]; exact hns)).bind fun body hbody =>
          .pure fun u hu => by
            rw [usesAll, usesAll, List.append_nil, Node.uses, List.mem_cons] at hu
            obtain rfl | hu := hu
            · exact hb
            · exact hbody u hu

theorem gives_nodes {P : Use → Prop} (hP : Upholds P) (locals : List Text) :
    ∀ ns : List Template.Node, Gives (Build.nodes locals ns) (Uphold P locals)
  | [] => .pure fun _ hu => by cases hu
  | n :: r => (gives_node hP locals n).bind fun ms hms => (gives_nodes hP locals r).bind fun rest hrest =>
    .pure fun u hu => by
      rw [usesAll_eq, List.flatMap_append, List.mem_append, ← usesAll_eq, ← usesAll_eq] at hu
      exact hu.elim (hms u) (hrest u)

theorem gives_branches {P : Use → Prop} (hP : Upholds P) (locals : List Text) :
    ∀ bs : List Template.Branch, Gives (Build.branches locals bs) fun built =>
      ∀ u ∈ usesBranches locals built, P u
  | [] => .pure fun _ hu => by cases hu
  | b :: r => (gives_branch hP locals b).bind fun x hx => (gives_branches hP locals r).bind fun rest hrest =>
    .pure fun u hu => by
      rw [usesBranches, List.mem_append] at hu
      exact hu.elim (hx u) (hrest u)

theorem gives_branch {P : Use → Prop} (hP : Upholds P) (locals : List Text) :
    ∀ b : Template.Branch, Gives (Build.branch locals b) fun built =>
      ∀ u ∈ built.uses locals, P u
  | .mk start source _ children =>
    (gives_bind hP locals start source).bind fun b hb => (gives_nodes hP locals children).bind fun ns hns =>
      (gives_single (by rw [Uphold, usesAll_normalize]; exact hns)).bind fun body hbody =>
        .pure fun u hu => by
          rw [Branch.uses, List.mem_cons] at hu
          obtain rfl | hu := hu
          · exact hb
          · exact hbody u hu

theorem gives_otherwise {P : Use → Prop} (hP : Upholds P) (locals : List Text) :
    ∀ o : Template.Otherwise, Gives (Build.otherwise locals o) fun built =>
      ∀ u ∈ built.uses locals, P u
  | .nothing => .pure fun _ hu => by cases hu
  | .nodes _ children => (gives_nodes hP locals children).bind fun ns hns =>
      (gives_single (by rw [Uphold, usesAll_normalize]; exact hns)).bind fun body hbody =>
        .pure hbody

end

end Build

/-- What is true of every binding that is made of a parsed expression is true in a view that is
built. -/
theorem forall_uses_of_build {P : Use → Prop} (hP : Build.Upholds P) {ns : List Template.Node} {v : View}
    (h : View.build ns = .ok v) : ∀ u ∈ usesAll [] v.nodes, P u := by
  unfold View.build at h
  cases hrun : (Build.nodes [] ns).run {} with
  | error e => rw [hrun] at h; cases h
  | ok p =>
    obtain ⟨built, c⟩ := p
    rw [hrun] at h
    cases h
    rw [Build.usesAll_normalize]
    exact Build.gives_nodes hP [] ns _ _ _ hrun

/-- In a view that is built every binding has its names told apart. -/
theorem classified_of_build {ns : List Template.Node} {v : View} (h : View.build ns = .ok v) :
    ∀ u ∈ usesAll [] v.nodes, u.Classified :=
  forall_uses_of_build (fun locals source _ handler => Use.classified_ofExpr locals source handler) h

/-- The names in the bindings of a view that is built are identifiers. -/
theorem named_of_build {ns : List Template.Node} {v : View} (h : View.build ns = .ok v) :
    ∀ u ∈ usesAll [] v.nodes, u.binding.expr.Every named false :=
  forall_uses_of_build (P := fun u => u.binding.expr.Every named false) (fun _ _ _ _ he => he) h

end Reactive.View
