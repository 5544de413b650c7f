/-
The names that a program touches.

A program over a store reads and writes some names of the store only.  These
are its free names, but not in the order of the text: the functions of a block
are bound first and may run before a name declared above them is bound, and
then that name is the one of the store.  So the free names are those of the
program with its functions first (`Stmt.hoistedOf`).

A function that the store holds brings its own names along, so the statements
are about sets of names that are closed under this.

* `Eval.TouchesOnly` — computations that touch some names only;
* `Stmt.touchesOnly_execIn` — a program touches its free names, functions first;
* `Stmt.touchesOnly_freeNamesOf` — where functions stand first in the text, the
  free names that are reported;
* `Method.touchesOnly_deps` — the same for a method of a script.
-/
import Reactive.Eval.Interp
import Reactive.Proofs.Eval.Lockstep
import Reactive.Proofs.Expr.Identifiers
import Reactive.Proofs.Script

namespace Reactive

/-! ### Runs over a dictionary -/

/-- A machine with one scope over a dictionary; `k` functions were made before. -/
def Machine.onDict (k : Nat) (d : Dict Value) : Machine (Dict Value) :=
  { Machine.start (.host .writable) d with funcs := k }

/-- A function made before a run that touches some names only: if it is one of the source, it was
made in the outermost scope, and its body uses these names and its parameters. -/
structure Func.Within (k : Nat) (N : Text → Prop) (f : Func) : Prop where
  made : f.id < k ∨ f.isBuiltin = true
  closure : ∀ params body scope, f.code = .closure params body scope →
    scope = 0 ∧ body.hoisted.Uses True fun n => n ∈ params ∨ N n

/-- Two stores that agree on some names, under which they hold functions that touch only these. -/
structure Dict.Agree (k : Nat) (N : Text → Prop) (A B : Dict Value) : Prop where
  same : ∀ n, N n → B.get? n = A.get? n
  held : ∀ n v, N n → A.get? n = some v → v.All (Func.Within k N)

/-- A computation that touches some names of the store only, if the functions there do.  Over
two stores that agree on these names it gives one outcome, and leaves stores that agree on them; the
other names stand for what they did. -/
def Eval.TouchesOnly (k : Nat) (N : Text → Prop) (x : Eval (Dict Value) Value) : Prop :=
  ∀ A B : Dict Value, Dict.Agree k N A B →
    match x.run (.onDict k A) with
    | .error e => x.run (.onDict k B) = .error e
    | .ok (r, m) => ∃ m', x.run (.onDict k B) = .ok (r, m') ∧
        (∀ n, N n → m'.host.get? n = m.host.get? n) ∧
        ∀ n, ¬N n → m.host.get? n = A.get? n ∧ m'.host.get? n = B.get? n

/-- Two runs over stores that agree on some names. -/
def Twin.onDict (N : Text → Prop) (A B : Dict Value) : Twin (Dict Value) where
  shift := ⟨0, 0, 0, 0⟩
  shared := fun _ => False
  agreed := N
  inert := fun _ => False
  excused := fun _ => False
  reads := True
  writes := True
  alone := False
  hosts := fun known m₁ m₂ => ∀ n,
    (N n → m₂.host.get? n = m₁.host.get? n ∧ ∀ v, m₁.host.get? n = some v → known m₁ v) ∧
    (¬N n → m₁.host.get? n = A.get? n ∧ m₂.host.get? n = B.get? n)
  first := dictHost
  second := dictHost

namespace Twin

variable {k : Nat} {N : Text → Prop} {A B : Dict Value}

theorem shift_onDict (v : Value) : v.shift (onDict N A B).shift = v :=
  Value.shift_of_noGap rfl rfl v

theorem map_shift_onDict (o : Option Value) : o.map (Value.shift (onDict N A B).shift) = o := by
  cases o with
  | none => rfl
  | some v => exact congrArg some (shift_onDict v)

/-- A write to a name on which the stores agree. -/
theorem sim_write_onDict {m₁ m₂ : Machine (Dict Value)} {name : Text} {v : Value} (hn : N name)
    (h : (onDict N A B).Rel m₁ m₂) (hv : (onDict N A B).Knows m₁ v) :
    (onDict N A B).SimE id (fun _ _ => True) (dictHost.write name v) (dictHost.write name v)
      m₁ m₂ := by
  have hgrow : m₁.Grows { m₁ with host := m₁.host.insert name v } :=
    ⟨Nat.le_refl _, Nat.le_refl _, fun _ s hs => ⟨s, hs, rfl, fun _ hn => hn⟩⟩
  have hrel : (onDict N A B).Rel { m₁ with host := m₁.host.insert name v }
      { m₂ with host := m₂.host.insert name v } := by
    refine ⟨h.size_le, h.size_eq, h.funcs_le, h.funcs_eq, fun i s hu hs => ?_, fun n => ?_⟩
    · obtain ⟨s', hs', hvars, hconsts, hout, hknown⟩ := h.scope i s hu hs
      exact ⟨s', hs', hvars, hconsts, hout.mono hgrow, fun p hp => (hknown p hp).mono hgrow⟩
    · simp only [Dict.get?_insert]
      obtain ⟨hagreed, hother⟩ := h.hosts n
      by_cases hnn : name = n
      · subst hnn
        simp only [if_true, true_and]
        refine ⟨fun _ => ?_, fun hno => absurd hn hno⟩
        rintro w ⟨⟩
        exact hv.mono hgrow
      · simp only [if_neg hnn]
        exact ⟨fun hN => ⟨(hagreed hN).1, fun w hw => ((hagreed hN).2 w hw).mono hgrow⟩, hother⟩
  exact ⟨_, rfl, hrel, hgrow, fun _ _ => trivial⟩

theorem lawful_onDict : (onDict N A B).Lawful where
  stable := by
    intro m₁ m₂ m₁' m₂' h hgrow h₁ h₂ _ n
    rw [h₁, h₂]
    exact ⟨fun hN => ⟨((h n).1 hN).1, fun v hv => (((h n).1 hN).2 v hv).mono hgrow⟩, (h n).2⟩
  still := False.elim
  read := by
    intro _ m₁ m₂ h n hN
    rw [map_shift_onDict]
    exact (h.hosts n).1 hN
  write := by
    intro _ m₁ m₂ name v hN h hv
    rw [shift_onDict]
    exact sim_write_onDict hN h hv

theorem callers_onDict : (onDict N A B).Callers dictHost.caller dictHost.caller :=
  ⟨rfl, rfl, calls_call lawful_onDict (fun _ => id) callDepth⟩

/-- A name on which the stores agree is clear in the outermost scope. -/
theorem clear_onDict {n : Text} (hn : N n) : (onDict N A B).Clear (.onDict k A) 0 n :=
  .root rfl rfl hn

theorem knows_onDict {v : Value} (hv : v.All (Func.Within k N)) :
    (onDict N A B).Knows (.onDict k A) v := by
  refine Value.All.mono (fun f hf => ⟨hf.made, fun _ _ _ h => absurd h (Nat.not_lt_zero _), ?_⟩) hv
  intro params body scope hcode
  obtain ⟨rfl, hbody⟩ := hf.closure params body scope hcode
  refine Or.inr ⟨Or.inl (Nat.le_refl 0), Nat.zero_lt_one, fun h => absurd h (Nat.not_lt_zero _), ?_⟩
  exact hbody.mono fun n => Or.imp_right clear_onDict

theorem rel_onDict (h : Dict.Agree k N A B) : (onDict N A B).Rel (.onDict k A) (.onDict k B) where
  size_le := Nat.zero_le _
  size_eq := rfl
  funcs_le := Nat.zero_le _
  funcs_eq := rfl
  hosts n := ⟨fun hN => ⟨h.same n hN, fun v hv => knows_onDict (h.held n v hN hv)⟩,
    fun _ => ⟨rfl, rfl⟩⟩
  scope i s _ hs := by
    have hi : i = 0 := by
      obtain ⟨hi, -⟩ := Array.getElem?_eq_some_iff.1 hs
      exact Nat.lt_one_iff.1 hi
    subst hi
    cases hs
    refine ⟨_, rfl, rfl, rfl, ?_, fun p hp => by cases hp⟩
    exact ⟨rfl, trivial, fun _ => trivial, fun h => absurd h (Nat.lt_irrefl _)⟩

theorem ready_onDict (h : Dict.Agree k N A B) :
    (onDict N A B).Ready (.onDict k A) (.onDict k B) 0 :=
  ⟨rel_onDict h, Or.inl (Nat.le_refl 0), Nat.zero_lt_one⟩

end Twin

/-- Computations that go the same way in two runs, whatever the stores are. -/
theorem Eval.touchesOnly_of_sim {k : Nat} {N : Text → Prop} {x : Eval (Dict Value) Value}
    (h : ∀ A B : Dict Value, Dict.Agree k N A B →
      (Twin.onDict N A B).SimV x x (.onDict k A) (.onDict k B)) : x.TouchesOnly k N := by
  intro A B hagree
  have hsim := h A B hagree
  unfold Twin.SimV Twin.SimE Twin.Sim at hsim
  have hresult : ∀ r : Except EvalError Value,
      r.map (Value.shift (Twin.onDict N A B).shift) = r := by
    intro r
    cases r with
    | error e => rfl
    | ok v => exact congrArg Except.ok (Twin.shift_onDict v)
  cases hx : x.run (.onDict k A) with
  | error e =>
    rw [hx] at hsim
    exact hsim.resolve_left id
  | ok p =>
    obtain ⟨r, m⟩ := p
    rw [hx] at hsim
    obtain ⟨m', hy, hrel, -⟩ := hsim
    rw [hresult] at hy
    exact ⟨m', hy, fun n hN => ((hrel.hosts n).1 hN).1, fun n hN => (hrel.hosts n).2 hN⟩

/-! ### Programs -/

/-- The names that a block uses, where `ns` are bound before. -/
theorem Names.uses_stmts (ns : List Text) {ss : List Stmt} (h : usesStmts True Names.Plain ss) :
    usesStmts True (fun n => n ∈ ns ∨ n ∈ (Names.stmts ⟨[ns], []⟩ ss).names ∨ n = "this") ss := by
  obtain ⟨binds, hscan⟩ := Names.scanned_stmts (F := True) ⟨[ns], []⟩ (by simp) ss
  refine (hscan.uses Names.Plain (fun n hn => Or.inl hn) h).mono fun n => Or.imp_left ?_
  simp [Names.Scan.isBound]

/-- The names of a store that a program may touch. -/
def Stmt.Touches (ss : List Stmt) (n : Text) : Prop :=
  n ∈ Stmt.freeNamesOf (Stmt.hoistedOf ss) ∨ n = "this"

theorem usesStmts_hoistedOf {ss : List Stmt} (h : everyStmt named ss) :
    usesStmts True Names.Plain (Stmt.hoistedOf ss) :=
  usesStmts_of_forall fun s hs =>
    usesStmts_hoisted ss Names.plain_of_isIdentifier h s (mem_functionsFirst.1 hs)

namespace Stmt

variable {src : Text} {ss : List Stmt} {k : Nat} {N : Text → Prop}

/-- **A program touches its free names**, those of the program with its functions first. -/
theorem touchesOnly_execIn (hparse : Stmt.parseProgram src = .ok ss)
    (hN : ∀ n, Stmt.Touches ss n → N n) : (execIn 0 ss).TouchesOnly k N := by
  refine Eval.touchesOnly_of_sim fun A B hagree => ?_
  have huses := Names.uses_stmts [] (usesStmts_hoistedOf (named_of_parseProgram hparse))
  refine Twin.sim_exec Twin.lawful_onDict Twin.callers_onDict (Twin.ready_onDict hagree)
    (huses.mono fun n hn => Twin.clear_onDict (hN n ?_))
  exact hn.resolve_left List.not_mem_nil

/-- The function is called while the name declared above it is not bound yet, so the program reads
the one of the store, which is no free name of its text. -/
example :
    let ss : List Stmt :=
      [.expr 0 (.call 0 (.ident 0 "f") [] false),
        .decl 4 .let_ "x" (some (.literal 12 .null)) false,
        .func 17 "f" [] [.ret 32 (some (.ident 39 "x"))] " return x " false]
    Stmt.parseProgram "f()\nlet x = null\nfunction f() \x7b return x \x7d" = .ok ss ∧
      Stmt.freeNamesOf ss = ["f"] ∧ Stmt.freeNamesOf (Stmt.hoistedOf ss) = ["x"] :=
  ⟨by with_unfolding_all rfl, by decide, by decide⟩

/-- Where the functions of every block stand first in the text, these are the free names that are
reported. -/
theorem touchesOnly_freeNamesOf (hparse : Stmt.parseProgram src = .ok ss)
    (hfirst : Stmt.hoistedOf ss = ss) (hN : ∀ n, n ∈ Stmt.freeNamesOf ss ∨ n = "this" → N n) :
    (execIn 0 ss).TouchesOnly k N := by
  refine touchesOnly_execIn hparse fun n hn => hN n ?_
  rwa [Touches, hfirst] at hn

end Stmt

/-! ### Methods -/

section

variable {k : Nat} {N : Text → Prop}

/-- A call touches what the function and its arguments do. -/
theorem Func.touchesOnly_call {f : Func} (hf : (Value.func f).All (Func.Within k N))
    {args : List Value} (hargs : ∀ v ∈ args, v.All (Func.Within k N)) :
    (dictHost.caller.call f args).TouchesOnly k N := by
  refine Eval.touchesOnly_of_sim fun A B hagree => ?_
  have hcall := Twin.callers_onDict.call _ _ f args (Twin.rel_onDict hagree)
    (Twin.knows_onDict hf) fun v hv => Twin.knows_onDict (hargs v hv)
  have hfunc : f.shift (Twin.onDict N A B).shift = f := Value.func.inj (Twin.shift_onDict (.func f))
  have hsame : args.map (Value.shift (Twin.onDict N A B).shift) = args :=
    (List.map_congr_left fun v _ => Twin.shift_onDict v).trans (List.map_id args)
  rwa [hfunc, hsame] at hcall

/-- The names of a store that a method may touch. -/
def Method.Touches (m : Method) (n : Text) : Prop :=
  n ∈ (Names.stmts ⟨[m.params], []⟩ (Stmt.hoistedOf m.body)).names ∨ n = "this"

/-- A method of a script touches its free names, those of its body with the functions first. -/
theorem Method.touchesOnly_call {source : Text} {exported : List Text} {s : Script}
    (hscript : Script.analyze source exported = .ok s) {m : Method} (hm : m ∈ s.methods)
    (hN : ∀ n, m.Touches n → N n) {i : Nat} (hi : i < k) {args : List Value}
    (hargs : ∀ v ∈ args, v.All (Func.Within k N)) :
    (dictHost.caller.call (.mk m.name i (.closure m.params (.block m.body) 0)) args).TouchesOnly
      k N := by
  refine Func.touchesOnly_call ?_ hargs
  refine ⟨⟨Or.inl hi, ?_⟩, trivial⟩
  rintro _ _ _ ⟨⟩
  refine ⟨rfl, ?_⟩
  obtain ⟨ss, hparse, st, hst, hdecl⟩ := Script.declares_of_mem_methods hscript hm
  have hnamed := every_of_mem (Stmt.named_of_parseProgram hparse) st hst
  cases st with
  | func pos name params body text isExported =>
    obtain rfl := hdecl
    have huses := Names.uses_stmts params (usesStmts_hoistedOf hnamed.2.2)
    exact huses.mono fun n => Or.imp_right (hN n)
  | _ => exact hdecl.elim

/-- **A method touches what it depends on** and its own name, where the functions in its body stand
first. -/
theorem Method.touchesOnly_deps {source : Text} {exported : List Text} {s : Script}
    (hscript : Script.analyze source exported = .ok s) {m : Method} (hm : m ∈ s.methods)
    (hfirst : Stmt.hoistedOf m.body = m.body)
    (hN : ∀ n, n ∈ m.deps ∨ n = m.name ∨ n = "this" → N n) {i : Nat} (hi : i < k)
    {args : List Value} (hargs : ∀ v ∈ args, v.All (Func.Within k N)) :
    (dictHost.caller.call (.mk m.name i (.closure m.params (.block m.body) 0)) args).TouchesOnly
      k N := by
  refine Method.touchesOnly_call hscript hm (fun n hn => hN n ?_) hi hargs
  have hdeps : m.deps = (Names.stmts ⟨[m.params], []⟩ m.body).names.filter (· ≠ m.name) := by
    obtain ⟨_, -, st, -, hdecl⟩ := Script.declares_of_mem_methods hscript hm
    cases st with
    | func pos name params body text isExported =>
      obtain rfl := hdecl
      rfl
    | _ => exact hdecl.elim
  rw [Method.Touches, hfirst] at hn
  rcases hn with hn | rfl
  · by_cases hname : n = m.name
    · exact Or.inr (Or.inl hname)
    · exact Or.inl (hdeps ▸ List.mem_filter.2 ⟨hn, by simpa using hname⟩)
  · exact Or.inr (Or.inr rfl)

end

end Reactive
