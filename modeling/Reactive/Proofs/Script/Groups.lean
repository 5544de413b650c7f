/-
Declarations and the groups they are sorted into.

A script is filled by three loops: over the statements of its source, over the
names that are exported from outside, and over the derived values of the
options.  Each round of each loop adds one declaration to one group, or none,
and only ever under a name that is new to all four groups.  So what is added is
found again, once, and names of different declarations are different.

* `Stmt.declaration?` — what a statement declares, and in which group;
* `Script.Adds` — declarations added one by one, each under a new name;
* `Script.declare_eq_ok_iff` — what one statement adds;
* `Script.adds_ofProgram`, `Compile.adds_mergeDerived` — what the loops add;
* `Script.sorts_declarations` — the names of a script are distinct, and each of
  its statements and exported names stands in the group that it belongs to.
-/
import Reactive.Compile.Artifact
import Reactive.Proofs.Dict
import Reactive.Proofs.Script

namespace Reactive

/-- A declaration, in its group. -/
inductive Declaration where
  | prop (p : PropDecl)
  | derived (d : Derived)
  | var (v : Variable)
  | method (m : Method)

/-- The name that is declared. -/
def Declaration.name : Declaration → Text
  | .prop p => p.name
  | .derived d => d.name
  | .var v => v.name
  | .method m => m.name

/-- Whether a declaration is that of a derived value or of a method. -/
def Declaration.isComputed : Declaration → Bool
  | .derived _ | .method _ => true
  | .prop _ | .var _ => false

namespace Stmt

/-- What a statement declares.  A variable that is exported, here or from outside, is a prop; a
constant cannot be one. -/
def declaration? (exported : List Text) : Stmt → Option Declaration
  | .decl _ kind name init isExported =>
    if isExported || exported.contains name then
      if kind = .const then none else some (.prop ⟨name, init⟩)
    else some (.var ⟨name, kind, init⟩)
  | .func pos name params body source isExported =>
    some (.method ⟨name, params, body, source,
      (Stmt.func pos name params body source isExported).freeNames.filter (· ≠ name)⟩)
  | .labeled pos label body => (Script.derivedOf pos label body).toOption.map .derived
  | _ => none

/-- Whether a statement declares a name as a derived value or as a function. -/
def computes (name : Text) : Stmt → Bool
  | .func _ n _ _ _ _ => n = name
  | .labeled _ _ (.expr _ (.assign _ _ (.ident _ n) _)) => n = name
  | _ => false

variable {exported : List Text} {st : Stmt}

theorem computes_of_declaration? {d : Declaration} (h : st.declaration? exported = some d)
    (name : Text) : st.computes name = (d.isComputed && d.name = name) := by
  unfold declaration? at h
  split at h
  · split at h
    · split at h <;> cases h
      rfl
    · cases h
      rfl
  · cases h
    rfl
  · rename_i pos label body
    unfold Script.derivedOf at h
    split at h
    · cases h
    · split at h <;> cases h
      rfl
  · cases h

/-- A name that is exported from outside is not that of a variable. -/
theorem notMem_of_declaration?_var {v : Variable} (h : st.declaration? exported = some (.var v)) :
    v.name ∉ exported := by
  unfold declaration? at h
  split at h
  · rename_i isExported
    split at h
    · split at h <;> cases h
    · rename_i hplain
      cases h
      exact fun hv => hplain (by simp [hv])
  · cases h
  · rename_i pos label body
    cases hd : Script.derivedOf pos label body <;> rw [hd] at h <;> cases h
  · cases h

end Stmt

namespace Script

/-! ### One more declaration -/

/-- The declarations of a script, group by group. -/
def declarations (s : Script) : List Declaration :=
  s.props.map .prop ++ s.derived.map .derived ++ s.vars.map .var ++ s.methods.map .method

/-- A script with one more declaration at the end of its group. -/
def add (s : Script) : Declaration → Script
  | .prop p => s.addProp p
  | .derived d => { s with derived := s.derived ++ [d] }
  | .var v => { s with vars := s.vars ++ [v] }
  | .method m => { s with methods := s.methods ++ [m] }

variable {s s' s'' : Script} {exported : List Text}

theorem names_eq (s : Script) : s.names = s.declarations.map Declaration.name := by
  simp only [names, declarations, List.map_append, List.map_map]
  rfl

theorem declarations_add (s : Script) (d : Declaration) :
    (s.add d).declarations.Perm (d :: s.declarations) := by
  cases d with
  | prop p =>
    simp only [add, addProp, declarations, List.map_append, List.map_cons, List.map_nil,
      List.append_assoc]
    exact List.perm_middle
  | derived d =>
    have := @List.perm_middle _ (Declaration.derived d)
      (s.props.map .prop ++ s.derived.map .derived) (s.vars.map .var ++ s.methods.map .method)
    simpa only [add, declarations, List.map_append, List.map_cons, List.map_nil, List.append_assoc,
      List.cons_append, List.nil_append] using this
  | var v =>
    have := @List.perm_middle _ (Declaration.var v)
      (s.props.map .prop ++ s.derived.map .derived ++ s.vars.map .var) (s.methods.map .method)
    simpa only [add, declarations, List.map_append, List.map_cons, List.map_nil, List.append_assoc,
      List.cons_append, List.nil_append] using this
  | method m =>
    have := @List.perm_middle _ (Declaration.method m) s.declarations []
    simpa only [add, declarations, List.map_append, List.map_cons, List.map_nil, List.append_assoc,
      List.append_nil] using this

/-- A statement is taken if it declares something under a new name, and adds just that. -/
theorem declare_eq_ok_iff {st : Stmt} : s.declare exported st = .ok s' ↔
    ∃ d, st.declaration? exported = some d ∧ d.name ∉ s.names ∧ s' = s.add d := by
  have hrefused : ∀ e : ScriptError, ¬ (.error e : Except ScriptError Script) = .ok s' := by
    rintro e ⟨⟩
  have hnothing : ¬ ∃ d, (none : Option Declaration) = some d ∧ d.name ∉ s.names ∧
      s' = s.add d := by
    rintro ⟨d, ⟨⟩, -⟩
  have hnew : ∀ (pos : Nat) (name : Text) (x : Except ScriptError Script),
      (s.checkNew pos name >>= fun _ => x) = .ok s' ↔ name ∉ s.names ∧ x = .ok s' := by
    intro pos name x
    unfold checkNew
    by_cases hname : name ∈ s.names
    · rw [if_pos (List.contains_iff_mem.2 hname)]
      exact iff_of_false (hrefused _) fun h => h.1 hname
    · rw [if_neg (mt List.contains_iff_mem.1 hname)]
      exact ⟨fun h => ⟨hname, h⟩, fun h => h.2⟩
  cases st with
  | decl pos kind name init isExported =>
    refine (hnew pos name _).trans ?_
    unfold Stmt.declaration?
    dsimp only
    split
    · split
      · exact iff_of_false (fun h => hrefused _ h.2) hnothing
      · simp [add, Declaration.name, eq_comm]
    · simp [add, Declaration.name, eq_comm]
  | func pos name params body source isExported =>
    refine (hnew pos name _).trans ?_
    simp [Stmt.declaration?, add, Declaration.name, eq_comm]
  | labeled pos label body =>
    rw [declare, Stmt.declaration?]
    cases derivedOf pos label body with
    | error e => exact iff_of_false (hrefused e) hnothing
    | ok d =>
      refine (hnew pos d.name _).trans ?_
      simp [Except.toOption, add, Declaration.name, eq_comm]
  | _ => exact iff_of_false (hrefused _) hnothing

/-! ### Declarations one after another -/

/-- A script with some declarations added one by one, each under a name that is new to all
groups. -/
inductive Adds : Script → List Declaration → Script → Prop
  | nil (s : Script) : Adds s [] s
  | cons {s s' : Script} {d : Declaration} {ds : List Declaration} :
    d.name ∉ s.names → Adds (s.add d) ds s' → Adds s (d :: ds) s'

namespace Adds

variable {ds es : List Declaration}

theorem append (h : Adds s ds s') (h' : Adds s' es s'') : Adds s (ds ++ es) s'' := by
  induction h with
  | nil => exact h'
  | cons hnew _ ih => exact .cons hnew (ih h')

/-- What is added is found again, and nothing else is new. -/
theorem perm (h : Adds s ds s') : s'.declarations.Perm (s.declarations ++ ds) := by
  induction h with
  | nil => rw [List.append_nil]
  | @cons s s' d ds _ _ ih =>
    exact ih.trans (((declarations_add s d).append_right ds).trans List.perm_middle.symm)

theorem mem (h : Adds s ds s') {d : Declaration} :
    d ∈ s'.declarations ↔ d ∈ s.declarations ∨ d ∈ ds := by
  rw [h.perm.mem_iff, List.mem_append]

/-- Names that are distinct stay so. -/
theorem nodup (h : Adds s ds s') (hs : s.names.Nodup) : s'.names.Nodup := by
  induction h with
  | nil => exact hs
  | @cons s s' d ds hnew _ ih =>
    refine ih ?_
    rw [names_eq, ((declarations_add s d).map _).nodup_iff, List.map_cons, ← names_eq]
    exact List.nodup_cons.2 ⟨hnew, hs⟩

end Adds

/-- The statements of a program add what they declare, one for one. -/
theorem adds_foldlM {ss : List Stmt} (h : ss.foldlM (declare exported) s = .ok s') :
    ∃ ds, ss.map (Stmt.declaration? exported) = ds.map some ∧ Adds s ds s' := by
  induction ss generalizing s with
  | nil =>
    cases h
    exact ⟨[], rfl, .nil _⟩
  | cons st r ih =>
    rw [List.foldlM_cons] at h
    cases hst : s.declare exported st with
    | error e => rw [hst] at h; cases h
    | ok s₁ =>
      rw [hst] at h
      obtain ⟨d, hd, hnew, rfl⟩ := declare_eq_ok_iff.1 hst
      obtain ⟨ds, hds, hadds⟩ := ih h
      exact ⟨d :: ds, by rw [List.map_cons, List.map_cons, hd, hds], .cons hnew hadds⟩

/-- The exported names add the props that the program did not declare. -/
theorem adds_foldl (names : List Text) (s : Script) :
    ∃ left : List Text, (∀ n ∈ left, n ∈ names) ∧
      (∀ n ∈ names, n ∈ (names.foldl addExported s).names) ∧
      Adds s (left.map fun n => .prop ⟨n, none⟩) (names.foldl addExported s) := by
  induction names generalizing s with
  | nil => exact ⟨[], List.forall_mem_nil _, List.forall_mem_nil _, .nil s⟩
  | cons n r ih =>
    obtain ⟨left, hleft, hnames, hadds⟩ := ih (s.addExported n)
    have hkept : ∀ x, x ∈ (s.addExported n).names →
        x ∈ (r.foldl addExported (s.addExported n)).names := by
      intro x hx
      rw [names_eq, List.mem_map] at hx ⊢
      obtain ⟨d, hd, rfl⟩ := hx
      exact ⟨d, hadds.mem.2 (.inl hd), rfl⟩
    by_cases hn : n ∈ s.names
    · have hsame : s.addExported n = s := if_pos (List.contains_iff_mem.2 hn)
      rw [List.foldl_cons]
      refine ⟨left, fun x hx => List.mem_cons_of_mem _ (hleft x hx),
        List.forall_mem_cons.2 ⟨hkept n (by rwa [hsame]), hnames⟩, ?_⟩
      rw [hsame] at hadds ⊢
      exact hadds
    · have hnew : s.addExported n = s.add (.prop ⟨n, none⟩) :=
        if_neg (mt List.contains_iff_mem.1 hn)
      refine ⟨n :: left, List.forall_mem_cons.2 ⟨List.mem_cons_self, fun x hx =>
        List.mem_cons_of_mem _ (hleft x hx)⟩, List.forall_mem_cons.2 ⟨hkept n ?_, hnames⟩, ?_⟩
      · rw [hnew, names_eq, ((declarations_add s _).map _).mem_iff]
        exact List.mem_cons_self
      · rw [List.foldl_cons, List.map_cons]
        rw [hnew] at hadds ⊢
        exact .cons hn hadds

/-- A program adds what its statements declare, one for one, and then props for exported names,
after which no exported name is missing. -/
theorem adds_ofProgram {ss : List Stmt} (h : ofProgram exported ss = .ok s) :
    ∃ (ds : List Declaration) (left : List Text),
      ss.map (Stmt.declaration? exported) = ds.map some ∧ (∀ n ∈ left, n ∈ exported) ∧
        (∀ n ∈ exported, n ∈ s.names) ∧ Adds {} (ds ++ left.map fun n => .prop ⟨n, none⟩) s := by
  unfold ofProgram at h
  cases hss : ss.foldlM (declare exported) {} with
  | error e => rw [hss] at h; cases h
  | ok s₁ =>
    rw [hss] at h
    cases h
    obtain ⟨ds, hds, hadds⟩ := adds_foldlM hss
    obtain ⟨left, hsub, hnames, hleft⟩ := adds_foldl exported s₁
    exact ⟨ds, left, hds, hsub, hnames, hadds.append hleft⟩

/-- No name is declared twice. -/
theorem nodup_names_analyze {source : Text} (h : analyze source exported = .ok s) :
    s.names.Nodup := by
  obtain ⟨ss, -, hprogram⟩ := exists_of_analyze h
  obtain ⟨ds, left, -, -, -, hadds⟩ := adds_ofProgram hprogram
  exact hadds.nodup .nil

/-! ### One name, one declaration -/

section

variable (h : s.names.Nodup) {d : Declaration} (hd : d ∈ s.declarations)

include h hd

/-- In a script whose names are distinct a name has one declaration. -/
theorem eq_of_name_eq {x : Declaration} (hx : x ∈ s.declarations) (hname : x.name = d.name) :
    x = d :=
  List.inj_on_of_nodup_map (names_eq s ▸ h) hx hd hname

theorem filter_declarations : s.declarations.filter (fun x => x.name = d.name) = [d] := by
  obtain ⟨before, after, hsplit⟩ := List.append_of_mem hd
  rw [names_eq, hsplit, List.map_append, List.map_cons] at h
  have hother : ∀ x ∈ before ++ after, x.name ≠ d.name := by
    intro x hx hname
    have hout := (List.nodup_cons.1 (List.perm_middle.nodup_iff.1 h)).1
    rw [← List.map_append, ← hname] at hout
    exact hout (List.mem_map_of_mem hx)
  rw [hsplit, List.filter_append, List.filter_cons_of_pos (by simp),
    List.filter_eq_nil_iff.2 fun x hx => by simpa using hother x (List.mem_append_left _ hx),
    List.filter_eq_nil_iff.2 fun x hx => by simpa using hother x (List.mem_append_right _ hx)]
  rfl

/-- The name of a prop stands among the props once, and no other name does. -/
theorem count_props : (s.props.map (·.name)).count d.name = if d matches .prop _ then 1 else 0 := by
  have hmem : ∀ p, .prop p ∈ s.declarations ↔ p ∈ s.props := by simp [declarations]
  have hother : (∀ p, d ≠ .prop p) → (s.props.map (·.name)).count d.name = 0 := by
    refine fun hd' => List.count_eq_zero.2 fun hin => ?_
    obtain ⟨p, hp, hname⟩ := List.mem_map.1 hin
    exact hd' p (eq_of_name_eq h hd ((hmem p).2 hp) hname).symm
  cases d with
  | prop p =>
    have hprops : (s.props.map (·.name)).Nodup :=
      (List.nodup_append.1 (List.nodup_append.1 (List.nodup_append.1 h).1).1).1
    exact List.count_eq_one_of_mem hprops (List.mem_map_of_mem ((hmem p).1 hd))
  | _ => exact hother fun p => nofun

end

end Script

namespace Compile

/-- The options add the derived values that they list. -/
theorem adds_mergeDerived {tag : Text} {os : List DerivedOption} {s s' : Script}
    (h : mergeDerived tag s os = .ok s') :
    ∃ ds : List Derived, List.Forall₂ (fun (o : DerivedOption) (d : Derived) =>
        ∃ e, Expr.parse o.source = .ok e ∧ d = .ofExpr o.name e) os ds ∧
      Script.Adds s (ds.map .derived) s' := by
  induction os generalizing s with
  | nil =>
    cases h
    exact ⟨[], .nil, .nil _⟩
  | cons o r ih =>
    rw [mergeDerived] at h
    split at h
    · cases h
    · rename_i hname
      split at h
      · cases h
      · rename_i e he
        obtain ⟨ds, hds, hadds⟩ := ih h
        exact ⟨.ofExpr o.name e :: ds, .cons ⟨e, he, rfl⟩ hds,
          .cons (mt List.contains_iff_mem.2 hname) hadds⟩

theorem nodup_names_mergeDerived {tag : Text} {os : List DerivedOption} {s s' : Script}
    (h : mergeDerived tag s os = .ok s') (hs : s.names.Nodup) : s'.names.Nodup := by
  obtain ⟨ds, -, hadds⟩ := adds_mergeDerived h
  exact hadds.nodup hs

end Compile

namespace Script

variable {exported : List Text} {s s' : Script}

/-- The keys of a script whose names are distinct are the names of its props, derived values and
variables, none of them dropped. -/
theorem keys_eq (h : s.names.Nodup) :
    s.keys = s.props.map (·.name) ++ s.derived.map (·.name) ++ s.vars.map (·.name) :=
  Text.distinct_of_nodup (List.nodup_append.1 h).1

/-- The names of a script with derived values from outside are distinct: every statement declares
one of them, in the group that it belongs to, and every exported name is that of one prop unless a
statement computes it.  So no key is dropped, and no method is a key. -/
theorem sorts_declarations {source tag : Text} {os : List DerivedOption}
    (hs : analyze source exported = .ok s) (hm : Compile.mergeDerived tag s os = .ok s') :
    s'.names.Nodup ∧
      (∃ ss, Stmt.parseProgram source = .ok ss ∧
        (∀ st ∈ ss, ∃ d, st.declaration? exported = some d ∧
          s'.declarations.filter (fun x => x.name = d.name) = [d]) ∧
        ∀ n ∈ exported, (s'.props.map (·.name)).count n = if ss.any (·.computes n) then 0 else 1) ∧
      s'.keys = s'.props.map (·.name) ++ s'.derived.map (·.name) ++ s'.vars.map (·.name) ∧
      ∀ m ∈ s'.methods, m.name ∉ s'.keys := by
  obtain ⟨ss, hparse, hprogram⟩ := exists_of_analyze hs
  obtain ⟨ds, left, hds, -, hnames, hadds⟩ := adds_ofProgram hprogram
  obtain ⟨es, -, hmerged⟩ := Compile.adds_mergeDerived hm
  have hnodup : s'.names.Nodup := Compile.nodup_names_mergeDerived hm (nodup_names_analyze hs)
  have hdeclared : ∀ st ∈ ss, ∃ d ∈ ds, st.declaration? exported = some d := by
    intro st hst
    have hd := List.mem_map_of_mem (f := Stmt.declaration? exported) hst
    rw [hds] at hd
    obtain ⟨d, hd, heq⟩ := List.mem_map.1 hd
    exact ⟨d, hd, heq.symm⟩
  have hof : ∀ d ∈ ds, ∃ st ∈ ss, st.declaration? exported = some d := by
    intro d hd
    have hst := List.mem_map_of_mem (f := some) hd
    rw [← hds] at hst
    exact List.mem_map.1 hst
  have hkept : ∀ d ∈ ds, d ∈ s'.declarations := fun d hd =>
    hmerged.mem.2 (.inl (hadds.mem.2 (.inr (List.mem_append_left _ hd))))
  refine ⟨hnodup, ⟨ss, hparse, fun st hst => ?_, fun n hn => ?_⟩, keys_eq hnodup,
    fun m hm hkey => ?_⟩
  · obtain ⟨d, hd, hst⟩ := hdeclared st hst
    exact ⟨d, hst, filter_declarations hnodup (hkept d hd)⟩
  · have hname := hnames n hn
    rw [names_eq] at hname
    obtain ⟨x, hx, rfl⟩ := List.mem_map.1 hname
    have hx' := hmerged.mem.2 (.inl hx)
    have hsource : x ∈ ds ∨ ∃ m, x = .prop ⟨m, none⟩ := by
      rcases hadds.mem.1 hx with hnone | hnew
      · cases hnone
      · refine (List.mem_append.1 hnew).imp_right fun hleft => ?_
        obtain ⟨m, -, rfl⟩ := List.mem_map.1 hleft
        exact ⟨m, rfl⟩
    -- A statement that computes the name declares what the name stands for.
    have hany : ss.any (·.computes x.name) = x.isComputed := by
      rw [Bool.eq_iff_iff, List.any_eq_true]
      constructor
      · rintro ⟨st, hst, hcomputes⟩
        obtain ⟨d, hd, hdecl⟩ := hdeclared st hst
        rw [Stmt.computes_of_declaration? hdecl, Bool.and_eq_true, decide_eq_true_eq] at hcomputes
        rw [← eq_of_name_eq hnodup hx' (hkept d hd) hcomputes.2]
        exact hcomputes.1
      · intro hcomputed
        rcases hsource with hd | ⟨m, rfl⟩
        · obtain ⟨st, hst, hdecl⟩ := hof x hd
          refine ⟨st, hst, ?_⟩
          rw [Stmt.computes_of_declaration? hdecl, hcomputed, decide_eq_true rfl]
          rfl
        · cases hcomputed
    rw [count_props hnodup hx', hany]
    cases x with
    | var v =>
      rcases hsource with hd | ⟨m, hm⟩
      · obtain ⟨st, -, hdecl⟩ := hof _ hd
        exact absurd hn (Stmt.notMem_of_declaration?_var hdecl)
      · cases hm
    | _ => rfl
  · rw [keys_eq hnodup] at hkey
    have hdisjoint := (List.nodup_append.1 hnodup).2.2
    exact hdisjoint m.name hkey m.name (List.mem_map_of_mem hm) rfl

/-- A script with a declaration in each group. -/
def shop : Text :=
  "let qty = 1\nconst rate = 2\n$: total = qty * rate\nfunction add(n) \x7b qty = qty + n \x7d"

theorem sorts_declarations_shop : ∃ s s' : Script,
    analyze shop ["qty", "label", "total", "label"] = .ok s ∧
    Compile.mergeDerived "x-shop" s [⟨"tax", "total * rate"⟩] = .ok s' ∧
    s'.names = ["qty", "label", "total", "tax", "rate", "add"] ∧ s'.names.Nodup ∧
    (s'.props.map (·.name)).count ("label" : Text) = 1 ∧
    (s'.props.map (·.name)).count ("total" : Text) = 0 ∧
    s'.keys = ["qty", "label", "total", "tax", "rate"] := by
  obtain ⟨s, s', hs, hm, hnames, hkeys⟩ : ∃ s s' : Script,
      analyze shop ["qty", "label", "total", "label"] = .ok s ∧
      Compile.mergeDerived "x-shop" s [⟨"tax", "total * rate"⟩] = .ok s' ∧
      s'.names = ["qty", "label", "total", "tax", "rate", "add"] ∧
      s'.keys = ["qty", "label", "total", "tax", "rate"] :=
    ⟨_, _, by with_unfolding_all rfl, by with_unfolding_all rfl, by with_unfolding_all rfl,
      by with_unfolding_all rfl⟩
  obtain ⟨r, hr, hlabel, htotal⟩ : ∃ r, Stmt.parseProgram shop = .ok r ∧
      r.any (·.computes "label") = false ∧ r.any (·.computes "total") = true :=
    ⟨_, by with_unfolding_all rfl, by with_unfolding_all rfl, by with_unfolding_all rfl⟩
  obtain ⟨hnodup, ⟨ss, hparse, -, hexported⟩, -⟩ := sorts_declarations hs hm
  obtain rfl : r = ss := Except.ok.inj (hr.symm.trans hparse)
  refine ⟨s, s', hs, hm, hnames, hnodup, ?_, ?_, hkeys⟩
  · rw [hexported _ (by decide), hlabel]
    rfl
  · rw [hexported _ (by decide), htotal]
    rfl

end Script

end Reactive
