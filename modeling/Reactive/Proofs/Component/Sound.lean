/-
Definitions as a compilation makes them.

A definition is a record, so its parts could contradict each other.  Those that
come from a compilation do not: the derived values are scheduled, every key has
its bit, expressions are evaluated by the evaluator, and no name is declared
twice, so that a constant is never a derived value.

* `Definition.Sound` — what is relied on;
* `Definition.Compiled` — and its view and derived values come from parsed source;
* `Compile.Answers` — what a compilation makes of its options and source;
* `sound_of_compile` — a compiled definition is sound.
-/
import Reactive.Compile.Artifact
import Reactive.Proofs.Schedule.Order
import Reactive.Proofs.Script.Groups
import Reactive.Proofs.View.Classified

namespace Reactive

/-- A definition whose parts belong together. -/
structure Definition.Sound (d : Definition) : Prop where
  schedule : ∃ strict, Schedule.build d.script.derived strict = .ok d.schedule
  bits : d.bits = .ofNames d.keys
  outcome : d.outcome = fun h => Block.outcomeIn h.caller
  apart : ∀ n, d.isConst n = true → d.isDerived n = false

namespace Definition

theorem isDerived_iff {d : Definition} {n : Text} :
    d.isDerived n = true ↔ ∃ x ∈ d.script.derived, x.name = n := by
  simp [isDerived]

theorem isConst_iff {d : Definition} {n : Text} :
    d.isConst n = true ↔ ∃ v ∈ d.script.vars, v.name = n ∧ v.isConst = true := by
  simp [isConst]

theorem mem_keys {d : Definition} {n : Text} : n ∈ d.keys ↔
    n ∈ d.script.props.map (·.name) ∨ n ∈ d.script.derived.map (·.name) ∨
      n ∈ d.script.vars.map (·.name) := by
  simp [keys, Script.keys]

theorem Sound.derived_schedule {d : Definition} (hd : d.Sound) :
    d.schedule.derived = d.script.derived := by
  obtain ⟨strict, hbuild⟩ := hd.schedule
  exact (Schedule.build_spec hbuild).2.1

end Definition

/-! ### Parsed derived values -/

/-- A derived value that was parsed: the names in its expression are identifiers, and it depends on
those that are free in it. -/
structure Derived.Parsed (x : Derived) : Prop where
  named : x.expr.Every named false
  deps : x.deps = x.expr.freeNames

theorem Script.mem_declarations_derived {s : Script} {x : Derived} :
    .derived x ∈ s.declarations ↔ x ∈ s.derived := by
  simp [declarations]

/-- The derived values of a script were parsed. -/
theorem Script.parsed_of_analyze {exported : List Text} {source : Text} {s : Script}
    (h : Script.analyze source exported = .ok s) : ∀ x ∈ s.derived, x.Parsed := by
  obtain ⟨ss, hparse, hprogram⟩ := exists_of_analyze h
  obtain ⟨ds, left, hds, -, -, hadds⟩ := adds_ofProgram hprogram
  intro x hx
  have hmem := (hadds.mem.1 (mem_declarations_derived.2 hx)).resolve_left List.not_mem_nil
  have hmem := (List.mem_append.1 hmem).resolve_right fun hleft => by
    obtain ⟨n, -, hn⟩ := List.mem_map.1 hleft
    cases hn
  have hsome : some (Declaration.derived x) ∈ ss.map (Stmt.declaration? exported) := by
    rw [hds]
    exact List.mem_map_of_mem hmem
  obtain ⟨st, hst, hdeclares⟩ := List.mem_map.1 hsome
  have hnamed := every_of_mem (Stmt.named_of_parseProgram hparse) st hst
  unfold Stmt.declaration? at hdeclares
  split at hdeclares
  · split at hdeclares
    · split at hdeclares <;> cases hdeclares
    · cases hdeclares
  · cases hdeclares
  · unfold derivedOf at hdeclares
    split at hdeclares
    · cases hdeclares
    · split at hdeclares <;> cases hdeclares
      exact ⟨hnamed.2.2.2, rfl⟩
  · cases hdeclares

/-- Derived values from outside are parsed as well. -/
theorem Compile.parsed_of_mergeDerived {tag : Text} {os : List DerivedOption} {s s' : Script}
    (h : Compile.mergeDerived tag s os = .ok s') (hs : ∀ x ∈ s.derived, x.Parsed) :
    ∀ x ∈ s'.derived, x.Parsed := by
  obtain ⟨ds, hds, hadds⟩ := adds_mergeDerived h
  intro x hx
  rcases hadds.mem.1 (Script.mem_declarations_derived.2 hx) with hmem | hmem
  · exact hs x (Script.mem_declarations_derived.1 hmem)
  · obtain ⟨d, hd, hx⟩ := List.mem_map.1 hmem
    cases hx
    obtain ⟨i, hi, rfl⟩ := List.mem_iff_getElem.1 hd
    obtain ⟨e, he, hx⟩ := (List.forall₂_iff_get.1 hds).2 i (hds.length_eq ▸ hi) hi
    rw [List.get_eq_getElem] at hx
    rw [hx]
    exact ⟨Expr.named_of_parseAt he, rfl⟩

/-! ### Compiled definitions -/

/-- A sound definition whose view is built from a template, and whose derived values were parsed. -/
structure Definition.Compiled (d : Definition) : Prop extends d.Sound where
  built : ∃ ns v, View.build ns = .ok v ∧ d.view = v.nodes
  parsed : ∀ x ∈ d.script.derived, x.Parsed

namespace Compile

variable {α β : Type}

/-- What a compilation answers, if it succeeds. -/
def Ensures (x : Compile α) (P : α → Prop) : Prop :=
  ∀ (b b' : Bench) (a : α), x b = (.ok a, b') → P a

namespace Ensures

variable {x : Compile α} {f : α → Compile β} {P : α → Prop} {Q : β → Prop}

theorem bind (hx : Ensures x P) (hf : ∀ a, P a → Ensures (f a) Q) : Ensures (x >>= f) Q := by
  intro b b' r h
  have hbind : (x >>= f) b = (match (x b).1 with
      | .ok a => f a (x b).2
      | .error e => (.error e, (x b).2)) := by
    show ExceptT.bindCont f (x b).1 (x b).2 = _
    unfold ExceptT.bindCont
    cases (x b).1 <;> rfl
  rw [hbind] at h
  cases hr : (x b).1 with
  | error e => rw [hr] at h; cases h
  | ok a =>
    rw [hr] at h
    exact hf a (hx b (x b).2 a (Prod.ext hr rfl)) _ _ _ h

theorem next (hf : ∀ a, Ensures (f a) Q) : Ensures (x >>= f) Q :=
  bind (P := fun _ => True) (fun _ _ _ _ => trivial) fun a _ => hf a

theorem pure {a : α} (ha : P a) : Ensures (pure a) P := by
  rintro b b' r ⟨⟩
  exact ha

theorem throw (e : CompileError) : Ensures (throw e) P := by
  rintro b b' r ⟨⟩

theorem stage {ε : Type} (wrap : ε → CompileError) (r : Except ε α) :
    Ensures (stage wrap r) fun a => r = .ok a := by
  cases r with
  | error e => exact throw _
  | ok a => exact pure rfl

end Ensures

theorem ensures_readScript (tr : Tracing) (o : Options) (source : Text) :
    Ensures (readScript tr o source) fun s => s.names.Nodup ∧ ∀ x ∈ s.derived, x.Parsed := by
  refine (Ensures.stage _ _).bind fun s₁ hs₁ => (Ensures.stage _ _).bind fun s₂ hs₂ => ?_
  refine .next fun _ => .pure ⟨nodup_names_mergeDerived hs₂ (Script.nodup_names_analyze hs₁), ?_⟩
  exact parsed_of_mergeDerived hs₂ (Script.parsed_of_analyze hs₁)

theorem ensures_define (o : Options) {script : Script} {ns : List Template.Node} {view : View}
    (css : Text) (hview : View.build ns = .ok view) (hscript : script.names.Nodup)
    (hparsed : ∀ x ∈ script.derived, x.Parsed) :
    Ensures (define o script view.nodes css) Definition.Compiled := by
  refine (Ensures.stage _ _).bind fun schedule hschedule => ?_
  have hcompiled : Definition.Compiled
      { tag := o.tag, script, view := view.nodes, bits := Bits.ofNames script.keys, schedule, css } := by
    refine ⟨⟨⟨_, hschedule⟩, rfl, rfl, fun n hconst => ?_⟩, ⟨ns, view, hview, rfl⟩, hparsed⟩
    obtain ⟨v, hv, rfl, -⟩ := Definition.isConst_iff.1 hconst
    by_contra hderived
    obtain ⟨x, hx, hname⟩ := Definition.isDerived_iff.1 (Bool.of_not_eq_false hderived)
    have hfront := (List.nodup_append.1 hscript).1
    refine (List.nodup_append.1 hfront).2.2 x.name ?_ v.name (List.mem_map_of_mem hv) hname
    exact List.mem_append_right _ (List.mem_map_of_mem hx)
  dsimp only
  split
  · exact .pure hcompiled
  · exact .next fun _ => .pure hcompiled

/-- What a compilation that succeeds makes of its options and source. -/
structure Answers (o : Options) (source : Text) (a : Artifact) : Prop where
  valid : o.problems = []
  tag : a.tag = o.tag
  mode : Mode.ofText? o.mode = some a.mode
  hash : a.hash = Text.toHex (Blake2b.digest (Artifact.preimage a.mode o source))
  compiled : a.definition.Compiled

theorem ensures_compile (tr : Tracing) (o : Options) (source : Text) :
    Ensures (compile tr o source) (Answers o source) := by
  have hrefused : ∀ {γ : Type} (e : CompileError) (f : γ → Compile Artifact),
      Ensures (throw e >>= f) (Answers o source) :=
    fun e f => .bind (.throw (P := fun _ => False) e) fun _ hfalse => hfalse.elim
  unfold compile
  cases hproblems : o.problems with
  | cons p ps => exact hrefused _ _
  | nil =>
    cases hmode : Mode.ofText? o.mode with
    | none => exact hrefused _ _
    | some m =>
      refine .bind (.pure (P := (· = m)) rfl) fun mode hm => ?_
      refine .next fun ns => (Ensures.stage _ _).bind fun view hview => .next fun _ => ?_
      refine (ensures_readScript tr o _).bind fun script hscript => ?_
      refine .next fun _ => .next fun html => .next fun css => .next fun _ => ?_
      refine (ensures_define o _ hview hscript.1 hscript.2).bind fun d hd => .next fun _ => ?_
      have hdone : ∀ a : Artifact, Answers o source a → Ensures (do
          phase tr o.tag "done" a.id
          return a) (Answers o source) :=
        fun a ha => .next fun _ => .pure ha
      have hregister : ∀ a : Artifact, Answers o source a → Ensures (do
          if mode = .register then
            if (← get).registry.has o.tag then throw (.tagTaken o.tag)
            modify fun b => { b with registry := b.registry.insert o.tag d }
          phase tr o.tag "done" a.id
          return a) (Answers o source) := by
        intro a ha
        dsimp only
        split
        · refine .next fun bench => ?_
          split
          · exact hrefused _ _
          · exact .next fun _ => hdone a ha
        · exact hdone a ha
      have hmode' : Mode.ofText? o.mode = some mode := hm ▸ hmode
      dsimp only
      split
      · exact .next fun _ => hregister _ ⟨hproblems, rfl, hmode', rfl, hd⟩
      · exact hregister _ ⟨hproblems, rfl, hmode', rfl, hd⟩

end Compile

theorem compiled_of_compile {tr : Tracing} {o : Options} {source : Text} {a : Artifact}
    {b b' : Bench} (h : compile tr o source b = (.ok a, b')) : a.definition.Compiled :=
  (Compile.ensures_compile tr o source b b' a h).compiled

/-- What comes out of a compilation is sound. -/
theorem sound_of_compile {tr : Tracing} {o : Options} {source : Text} {a : Artifact}
    {b b' : Bench} (h : compile tr o source b = (.ok a, b')) : a.definition.Sound :=
  (compiled_of_compile h).toSound

end Reactive
