/-
Scripts, one declaration at a time.

A script is made by adding the declarations of its source one after another,
and then the names that are exported from outside.  So what each of these
steps keeps holds of the whole script.

* `Script.induction` — the steps in which a script is made;
* `Method.Declares` — what a method has from its declaration;
* `Script.declares_of_mem_methods` — every method of a script has one.
-/
import Reactive.Script

namespace Reactive

namespace Script

variable {exported : List Text} {ss : List Stmt} {s : Script}

/-- What holds of the empty script and is kept by each declaration and each exported name holds of
the script of a program. -/
theorem induction {P : Script → Prop} (hempty : P {})
    (hdeclare : ∀ s s', ∀ st ∈ ss, P s → s.declare exported st = .ok s' → P s')
    (hexported : ∀ s name, P s → P (s.addExported name)) (h : ofProgram exported ss = .ok s) :
    P s := by
  have hdeclared : ∀ (r : List Stmt) (s s' : Script), (∀ st ∈ r, st ∈ ss) → P s →
      r.foldlM (declare exported) s = .ok s' → P s' := by
    intro r
    induction r with
    | nil =>
      intro s s' _ hs hs'
      cases hs'
      exact hs
    | cons st r ih =>
      intro s s' hr hs hs'
      obtain ⟨hst, hr⟩ := List.forall_mem_cons.1 hr
      rw [List.foldlM_cons] at hs'
      cases hd : s.declare exported st with
      | error e => rw [hd] at hs'; cases hs'
      | ok s₁ =>
        rw [hd] at hs'
        exact ih s₁ s' hr (hdeclare s s₁ st hst hs hd) hs'
  have hadded : ∀ (names : List Text) (s : Script), P s → P (names.foldl addExported s) := by
    intro names
    induction names with
    | nil => exact fun s hs => hs
    | cons n r ih => exact fun s hs => ih _ (hexported s n hs)
  unfold ofProgram at h
  cases hss : ss.foldlM (declare exported) {} with
  | error e => rw [hss] at h; cases h
  | ok s₁ =>
    rw [hss] at h
    cases h
    exact hadded exported s₁ (hdeclared ss {} s₁ (fun _ hst => hst) hempty hss)

end Script

/-! ### Methods -/

/-- A method is what a function declaration says, and depends on the free names of that. -/
def Method.Declares (m : Method) : Stmt → Prop
  | .func pos name params body source exported =>
    m = ⟨name, params, body, source,
      (Stmt.func pos name params body source exported).freeNames.filter (· ≠ name)⟩
  | _ => False

namespace Script

variable {exported : List Text} {ss : List Stmt} {s : Script}

theorem methods_addExported (name : Text) : (s.addExported name).methods = s.methods := by
  unfold addExported
  split <;> rfl

/-- A declaration adds at most the method that it declares. -/
theorem methods_declare {s' : Script} {st : Stmt} (h : s.declare exported st = .ok s') :
    ∀ m ∈ s'.methods, m ∈ s.methods ∨ m.Declares st := by
  unfold declare at h
  split at h
  · rename_i pos kind name init isExported
    cases hnew : s.checkNew pos name with
    | error e => rw [hnew] at h; cases h
    | ok _ =>
      rw [hnew] at h
      change (if _ then _ else _) = _ at h
      split at h
      · split at h <;> cases h
        exact fun m hm => Or.inl hm
      · cases h
        exact fun m hm => Or.inl hm
  · rename_i pos name params body source isExported
    cases hnew : s.checkNew pos name with
    | error e => rw [hnew] at h; cases h
    | ok _ =>
      rw [hnew] at h
      cases h
      intro m hm
      rcases List.mem_append.1 hm with hm | hm
      · exact Or.inl hm
      · exact Or.inr (List.mem_singleton.1 hm)
  · rename_i pos label body
    cases hd : derivedOf pos label body with
    | error e => rw [hd] at h; cases h
    | ok x =>
      rw [hd] at h
      change (s.checkNew pos x.name >>= fun _ => _) = _ at h
      cases hnew : s.checkNew pos x.name with
      | error e => rw [hnew] at h; cases h
      | ok _ =>
        rw [hnew] at h
        cases h
        exact fun m hm => Or.inl hm
  · cases h

/-- A script that is analyzed is the one of a program. -/
theorem exists_of_analyze {source : Text} (h : analyze source exported = .ok s) :
    ∃ ss, Stmt.parseProgram source = .ok ss ∧ ofProgram exported ss = .ok s := by
  unfold analyze at h
  split at h
  · cases h
  · rename_i ss hparse
    exact ⟨ss, hparse, h⟩

/-- Every method of a script is declared by a statement of its source. -/
theorem declares_of_mem_methods {source : Text} (h : analyze source exported = .ok s) {m : Method}
    (hm : m ∈ s.methods) :
    ∃ ss, Stmt.parseProgram source = .ok ss ∧ ∃ st ∈ ss, m.Declares st := by
  obtain ⟨ss, hparse, hprogram⟩ := exists_of_analyze h
  refine ⟨ss, hparse, ?_⟩
  refine induction (P := fun s => ∀ m ∈ s.methods, ∃ st ∈ ss, m.Declares st) ?_ ?_ ?_ hprogram m hm
  · exact fun m hm => absurd hm List.not_mem_nil
  · intro s s' st hst hs hdeclare m hm
    exact (methods_declare hdeclare m hm).elim (hs m) fun hm => ⟨st, hst, hm⟩
  · intro s name hs
    rwa [methods_addExported]

end Script

end Reactive
