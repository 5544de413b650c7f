/-
The numbers of the nodes of a view.

A view is built with a counter, from which every node takes its number.  The
numbers given so far are different and none is beyond the counter, so the next
one is new.

* `Node.ids` — the numbers in a view;
* `Build.Idle` — a step that leaves what has been collected as it is;
* `Build.Numbers` — a step that adds new numbers to those given before it;
* `nodup_ids_of_build` — no two nodes of a view that is built have one number.
-/
import Mathlib.Data.List.Perm.Subperm
import Reactive.Proofs.View.Classified

namespace Reactive.View

mutual

/-- The numbers of a node and of the nodes below it. -/
def Node.ids : Node → List Nat
  | .fixed i _ | .text i _ => [i]
  | .elem i _ _ _ _ children => i :: idsAll children
  | .cond i branches other => i :: (idsBranches branches ++ other.ids)
  | .each i _ _ _ body => i :: body.ids
  | .fragment i children => i :: idsAll children

/-- The numbers of several nodes and of those below them. -/
def idsAll : List Node → List Nat
  | [] => []
  | n :: r => n.ids ++ idsAll r

/-- The numbers below the branches of a choice. -/
def idsBranches : List Branch → List Nat
  | [] => []
  | b :: r => b.ids ++ idsBranches r

/-- The numbers below a branch. -/
def Branch.ids : Branch → List Nat
  | .mk _ body => body.ids

/-- The numbers below what is rendered when no condition holds. -/
def Otherwise.ids : Otherwise → List Nat
  | .nothing => []
  | .body n => n.ids

end

theorem idsAll_singleton (n : Node) : idsAll [n] = n.ids := by
  rw [idsAll, idsAll, List.append_nil]

theorem idsAll_append (ms ns : List Node) : idsAll (ms ++ ns) = idsAll ms ++ idsAll ns := by
  induction ms with
  | nil => rfl
  | cons m r ih => rw [List.cons_append, idsAll, idsAll, ih, List.append_assoc]

/-! ### Normalising drops numbers -/

theorem idsAll_joinTexts (n : Node) (r : List Node) :
    (idsAll (joinTexts n r)).Sublist (n.ids ++ idsAll r) := by
  unfold joinTexts
  split
  · exact (List.sublist_cons_self _ _).cons_cons _
  · exact .refl _

theorem idsAll_filter (p : Node → Bool) (ns : List Node) :
    (idsAll (ns.filter p)).Sublist (idsAll ns) := by
  induction ns with
  | nil => exact .refl _
  | cons n r ih =>
    rw [List.filter_cons]
    split
    · exact ih.append_left _
    · exact ih.trans (List.sublist_append_right _ _)

theorem idsAll_normalize (ns : List Node) : (idsAll (normalize ns)).Sublist (idsAll ns) := by
  refine (idsAll_filter _ _).trans ?_
  induction ns with
  | nil => exact .refl _
  | cons n r ih => exact (idsAll_joinTexts n _).trans (ih.append_left _)

namespace Build

variable {α β : Type}

/-! ### Idle steps -/

/-- A step answers `a` and leaves what has been collected as it is. -/
def Answers (x : Build α) (a : α) : Prop := ∀ c, x c = .ok (a, c)

/-- A step that neither reads nor changes what has been collected. -/
def Idle (x : Build α) : Prop := ∀ c c' a, x c = .ok (a, c') → c' = c ∧ Answers x a

namespace Idle

theorem pure (a : α) : Idle (pure a : Build α) := by
  rintro c c' b ⟨⟩
  exact ⟨rfl, fun _ => rfl⟩

theorem refuse (cause : BuildCause) (offset : Nat) : Idle (refuse cause offset : Build α) := by
  rintro c c' b ⟨⟩

theorem bind {x : Build α} {f : α → Build β} (hx : Idle x) (hf : ∀ a, Idle (f a)) :
    Idle (x >>= f) := by
  intro c c'' b h
  obtain ⟨a, c', hxa, hfb⟩ := bind_eq_ok h
  obtain ⟨rfl, hanswer⟩ := hx c c' a hxa
  obtain ⟨rfl, hanswer'⟩ := hf a _ _ b hfb
  refine ⟨rfl, fun d => ?_⟩
  have hbind : (x >>= f) d = (x d >>= fun p => f p.1 p.2) := rfl
  rw [hbind, hanswer d]
  exact hanswer' d

/-- What an idle step answers it answers wherever it is taken. -/
theorem gives {x : Build α} (hx : Idle x) : Gives x (Answers x) := fun c c' a h => (hx c c' a h).2

end Idle

theorem idle_readExpr (offset : Nat) (source : Text) : Idle (readExpr offset source) := by
  unfold readExpr
  split
  · exact .pure _
  · exact .refuse _ _

theorem idle_bind (locals : List Text) (offset : Nat) (source : Text) :
    Idle (View.bind locals offset source) :=
  (idle_readExpr offset source).bind fun _ => .pure _

theorem idle_addAttr (locals : List Text) (out : Attrs) (a : Template.Attr) :
    Idle (addAttr locals out a) := by
  unfold addAttr
  split
  · exact (idle_readExpr _ _).bind fun _ => .pure _
  · split
    · rename_i c rest _
      have htoggle : ∀ source, Idle (show Build Attrs from do
          let b ← View.bind locals a.start source
          return { out with toggles := out.toggles ++ [⟨c :: rest, b⟩] }) :=
        fun source => (idle_bind _ _ _).bind fun _ => .pure _
      dsimp only
      split
      · split
        · exact htoggle _
        · exact .bind (.refuse _ _) fun _ => htoggle _
      · exact htoggle _
    · split
      · exact (idle_bind _ _ _).bind fun _ => .pure _
      · exact .pure _

theorem idle_addAttrs (locals : List Text) (out : Attrs) (as : List Template.Attr) :
    Idle (addAttrs locals out as) := by
  induction as generalizing out with
  | nil => exact .pure _
  | cons a r ih => exact (idle_addAttr locals out a).bind ih

/-! ### Steps that number nodes -/

/-- The numbers given so far: they are different, and none is beyond the counter. -/
structure Given (k : List Nat) (c : Collected) : Prop where
  nodup : k.Nodup
  le_last : ∀ i ∈ k, i ≤ c.last

/-- A step after which the numbers `k` given before it have become those of `Q`. -/
def Numbers (k : List Nat) (x : Build α) (Q : α → List Nat) : Prop :=
  ∀ c c' a, Given k c → x c = .ok (a, c') → Given (Q a) c'

namespace Numbers

variable {k : List Nat} {x : Build α} {f : α → Build β} {P Q : α → List Nat} {R : β → List Nat}

theorem bind (hx : Numbers k x Q) (hf : ∀ a, Numbers (Q a) (f a) R) : Numbers k (x >>= f) R := by
  intro c c'' b hc h
  obtain ⟨a, c', hxa, hfb⟩ := bind_eq_ok h
  exact hf a c' c'' b (hx c c' a hc hxa) hfb

/-- Numbers may be forgotten. -/
theorem pure {a : α} (h : (Q a).Subperm k) : Numbers k (pure a) Q := by
  rintro c c' b hc ⟨⟩
  obtain ⟨l, hperm, hsub⟩ := h
  exact ⟨hperm.nodup_iff.1 (hc.nodup.sublist hsub), fun i hi =>
    hc.le_last i (hsub.subset (hperm.mem_iff.2 hi))⟩

theorem idle (hx : Idle x) : Numbers k x fun _ => k := by
  intro c c' a hc h
  rw [(hx c c' a h).1]
  exact hc

theorem map {g : α → β} (hx : Numbers k x Q) (hg : ∀ a, (R (g a)).Subperm (Q a)) :
    Numbers k (g <$> x) R := by
  rw [map_eq_pure_bind]
  exact hx.bind fun a => .pure (hg a)

/-- The next number is new. -/
theorem fresh : Numbers k fresh fun i => i :: k := by
  rintro c c' i hc ⟨⟩
  refine ⟨List.nodup_cons.2 ⟨fun hi => ?_, hc.nodup⟩, fun i hi => ?_⟩
  · exact absurd (hc.le_last _ hi) (Nat.not_succ_le_self _)
  · rcases List.mem_cons.1 hi with rfl | hi
    · exact Nat.le_refl _
    · exact Nat.le_succ_of_le (hc.le_last i hi)

theorem modify {g : Collected → Collected} (hg : ∀ c, (g c).last = c.last) :
    Numbers k (modify g : Build Unit) fun _ => k := by
  rintro c c' a hc ⟨⟩
  exact ⟨hc.nodup, fun i hi => (hg c).symm ▸ hc.le_last i hi⟩

end Numbers

variable {k : List Nat}

theorem numbers_single (ns : List Node) :
    Numbers (idsAll ns ++ k) (single ns) fun n => n.ids ++ k := by
  unfold single
  split
  · exact .pure (by rw [idsAll_singleton])
  · exact .bind .fresh fun i => .pure (.refl _)

/-- Children become one node when they have been normalised. -/
theorem numbers_body (ns : List Node) :
    Numbers (idsAll ns ++ k) (single (normalize ns)) fun n => n.ids ++ k := by
  have hforget : (idsAll (normalize ns) ++ k).Subperm (idsAll ns ++ k) :=
    ((idsAll_normalize ns).append_right k).subperm
  exact .bind (.pure (a := ()) hforget) fun _ => numbers_single _

mutual

theorem numbers_node (locals : List Text) : ∀ (n : Template.Node) (k : List Nat),
    Numbers k (Build.node locals n) fun ms => idsAll ms ++ k
  | .text _ t, k => .bind .fresh fun i => .pure (.refl _)
  | .comment _ t, k => .bind (.modify fun _ => rfl) fun _ => .pure (.refl _)
  | .mustache start source _, k =>
    .bind (.idle (idle_bind locals start source)) fun b => .bind .fresh fun i => .pure (.refl _)
  | .element _ tag attrs children, k => by
    unfold Build.node
    dsimp only
    split
    · exact .bind (.modify fun _ => rfl) fun _ => .pure (.refl _)
    · split
      · exact .bind (.modify fun _ => rfl) fun _ => .pure (.refl _)
      · refine .bind .fresh fun id => .bind (.idle (idle_addAttrs locals {} attrs)) fun as => ?_
        have helem : ∀ built, Numbers (idsAll built ++ id :: k)
            (pure [Node.elem id tag as.attrs as.toggles as.handlers built] : Build (List Node))
            fun ms => idsAll ms ++ k := fun built => .pure (by
          rw [idsAll_singleton, Node.ids, List.cons_append]
          exact List.perm_middle.symm.subperm)
        split
        · split
          · exact helem []
          · exact .bind .fresh fun i => helem [.fixed i _]
        · exact .bind ((numbers_nodes locals children _).map fun ns =>
            ((idsAll_normalize ns).append_right _).subperm) helem
  | .cond _ bs other, k => .bind .fresh fun id =>
    .bind (numbers_branches locals bs _) fun built =>
      .bind (numbers_otherwise locals other _) fun last => .pure (by
        rw [idsAll_singleton, Node.ids, List.cons_append, List.append_assoc]
        exact (((List.perm_append_comm_assoc _ _ _).cons id).trans
          (List.perm_middle.symm.trans (List.perm_middle.symm.append_left _))).subperm)
  | .each start list _ item index children, k =>
    .bind (.idle (idle_bind locals start list)) fun b => .bind .fresh fun id =>
      .bind (numbers_nodes (loopNames item index locals) children _) fun ns =>
        .bind (numbers_body ns) fun body => .pure (by
          rw [idsAll_singleton, Node.ids, List.cons_append]
          exact List.perm_middle.symm.subperm)

theorem numbers_nodes (locals : List Text) : ∀ (ns : List Template.Node) (k : List Nat),
    Numbers k (Build.nodes locals ns) fun ms => idsAll ms ++ k
  | [], k => .pure (.refl _)
  | n :: r, k => .bind (numbers_node locals n k) fun ms =>
    .bind (numbers_nodes locals r _) fun rest => .pure (by
      rw [idsAll_append, List.append_assoc]
      exact (List.perm_append_comm_assoc _ _ _).subperm)

theorem numbers_branches (locals : List Text) : ∀ (bs : List Template.Branch) (k : List Nat),
    Numbers k (Build.branches locals bs) fun built => idsBranches built ++ k
  | [], k => .pure (.refl _)
  | b :: r, k => .bind (numbers_branch locals b k) fun x =>
    .bind (numbers_branches locals r _) fun rest => .pure (by
      rw [idsBranches, List.append_assoc]
      exact (List.perm_append_comm_assoc _ _ _).subperm)

theorem numbers_branch (locals : List Text) : ∀ (b : Template.Branch) (k : List Nat),
    Numbers k (Build.branch locals b) fun built => built.ids ++ k
  | .mk start source _ children, k => .bind (.idle (idle_bind locals start source)) fun _ =>
    .bind (numbers_nodes locals children k) fun ns => .bind (numbers_body ns) fun _ =>
      .pure (.refl _)

theorem numbers_otherwise (locals : List Text) : ∀ (o : Template.Otherwise) (k : List Nat),
    Numbers k (Build.otherwise locals o) fun built => built.ids ++ k
  | .nothing, _ => .pure (.refl _)
  | .nodes _ children, k => .bind (numbers_nodes locals children k) fun ns =>
    .bind (numbers_body ns) fun _ => .pure (.refl _)

end

end Build

/-- The nodes of a view that is built are those of a run, normalised. -/
theorem exists_run_of_build {ns : List Template.Node} {v : View} (h : View.build ns = .ok v) :
    ∃ built c, Build.nodes [] ns {} = .ok (built, c) ∧ v.nodes = normalize built := by
  unfold View.build at h
  cases hrun : (Build.nodes [] ns).run {} with
  | error e => rw [hrun] at h; cases h
  | ok p =>
    obtain ⟨built, c⟩ := p
    rw [hrun] at h
    cases h
    exact ⟨built, c, hrun, rfl⟩

/-- No two nodes of a view that is built have one number. -/
theorem nodup_ids_of_build {ns : List Template.Node} {v : View} (h : View.build ns = .ok v) :
    (idsAll v.nodes).Nodup := by
  obtain ⟨built, c, hrun, hnodes⟩ := exists_run_of_build h
  have hgiven : Build.Given (idsAll built ++ []) c :=
    Build.numbers_nodes [] ns [] _ _ _ ⟨.nil, List.forall_mem_nil _⟩ hrun
  rw [List.append_nil] at hgiven
  rw [hnodes]
  exact hgiven.nodup.sublist (idsAll_normalize built)

end Reactive.View
