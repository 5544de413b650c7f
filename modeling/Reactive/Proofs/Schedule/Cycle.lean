/-
The cycle of a schedule is exactly what cannot be ordered.

A derived value reads another if that one is among its dependencies, and it is
circular if a chain of reads leads from it to a value that reads itself, at
once or through others.

* `Sorted.not_circular` — what stands in a topological order is not circular:
  along a chain of reads one moves towards the front;
* `circular_of_closed` — names that each read one of themselves are circular:
  a walk among finitely many names comes back;
* `build_arranged` — the order and the cycle of every list of derived values
  with distinct names, and when a strict schedule refuses them.
-/
import Reactive.Proofs.Schedule.Order
import Mathlib.Data.Fintype.Pigeonhole
import Mathlib.Data.Fintype.Sets
import Mathlib.Logic.Function.Iterate
import Mathlib.Logic.Relation

open Relation

namespace Reactive.Schedule

/-- A derived value reads another derived value. -/
def Reads (ds : List Derived) (n m : Text) : Prop :=
  ∃ d ∈ ds, d.name = n ∧ m ∈ d.deps ∧ m ∈ namesOf ds

/-- A chain of reads leads from a name to one that reads itself, at once or through others. -/
def Circular (ds : List Derived) (n : Text) : Prop :=
  ∃ m, ReflTransGen (Reads ds) n m ∧ TransGen (Reads ds) m m

variable {ds : List Derived} {first : List Text} {n m : Text}

theorem Reads.mem (h : Reads ds n m) : n ∈ namesOf ds := by
  obtain ⟨d, hd, rfl, -⟩ := h
  exact List.mem_map_of_mem hd

theorem Circular.mem (h : Circular ds n) : n ∈ namesOf ds := by
  obtain ⟨m, hchain, hloop⟩ := h
  obtain ⟨k, hread, -⟩ := TransGen.head'_iff.1 hloop
  rcases ReflTransGen.cases_head hchain with rfl | ⟨k', hread', -⟩
  · exact hread.mem
  · exact hread'.mem

/-! ### Ordered names -/

/-- In a topological order a read goes towards the front. -/
theorem Sorted.idxOf_lt (h : Sorted ds first) (hn : n ∈ first) (hread : Reads ds n m) :
    m ∈ first ∧ first.idxOf m < first.idxOf n := by
  obtain ⟨d, hd, hname, hdep, hmem⟩ := hread
  obtain ⟨pre, post, rfl, hout⟩ := List.eq_append_cons_of_mem hn
  have hpre : m ∈ pre := h pre n post rfl d hd hname m hdep hmem
  refine ⟨List.mem_append_left _ hpre, ?_⟩
  rw [List.idxOf_append_of_mem hpre, List.idxOf_append_of_notMem hout, List.idxOf_cons_self]
  have := List.idxOf_lt_length_of_mem hpre
  omega

theorem Sorted.mem_of_chain (h : Sorted ds first) (hn : n ∈ first)
    (hchain : ReflTransGen (Reads ds) n m) : m ∈ first := by
  induction hchain with
  | refl => exact hn
  | tail _ hread ih => exact (h.idxOf_lt ih hread).1

/-- What is in topological order is not circular. -/
theorem Sorted.not_circular (h : Sorted ds first) (hn : n ∈ first) : ¬ Circular ds n := by
  rintro ⟨m, hchain, hloop⟩
  have hm := h.mem_of_chain hn hchain
  have hfront : ∀ k, TransGen (Reads ds) m k → k ∈ first ∧ first.idxOf k < first.idxOf m := by
    intro k hk
    induction hk with
    | single hread => exact h.idxOf_lt hm hread
    | tail _ hread ih =>
      obtain ⟨hmem, hlt⟩ := h.idxOf_lt ih.1 hread
      exact ⟨hmem, hlt.trans ih.2⟩
  exact lt_irrefl _ (hfront m hloop).2

/-! ### Names that wait for each other -/

/-- Names that each read one of themselves are circular. -/
theorem circular_of_closed {names : List Text} (hclosed : ∀ n ∈ names, ∃ m ∈ names, Reads ds n m)
    (hn : n ∈ names) : Circular ds n := by
  choose! next hnext hreads using hclosed
  have hwalk : ∀ k, next^[k] n ∈ names := by
    intro k
    induction k with
    | zero => exact hn
    | succ k ih =>
      rw [Function.iterate_succ_apply']
      exact hnext _ ih
  have hchain : ∀ i k, ReflTransGen (Reads ds) (next^[i] n) (next^[i + k] n) := by
    intro i k
    induction k with
    | zero => exact .refl
    | succ k ih =>
      rw [← Nat.add_assoc, Function.iterate_succ_apply']
      exact ih.tail (hreads _ (hwalk _))
  -- there are more steps than names, so the walk comes to a name for the second time
  obtain ⟨i, j, hij, heq⟩ : ∃ i j, i < j ∧ next^[i] n = next^[j] n := by
    obtain ⟨i, j, hne, heq⟩ := Finite.exists_ne_map_eq_of_infinite
      fun k => (⟨next^[k] n, hwalk k⟩ : {m // m ∈ names})
    rcases lt_or_gt_of_ne hne with hlt | hlt
    · exact ⟨i, j, hlt, congrArg Subtype.val heq⟩
    · exact ⟨j, i, hlt, congrArg Subtype.val heq.symm⟩
  have hstep : Reads ds (next^[i] n) (next^[i + 1] n) := by
    rw [Function.iterate_succ_apply']
    exact hreads _ (hwalk _)
  have hback : ReflTransGen (Reads ds) (next^[i + 1] n) (next^[i] n) := by
    have := hchain (i + 1) (j - (i + 1))
    rwa [show i + 1 + (j - (i + 1)) = j by omega, ← heq] at this
  exact ⟨next^[i] n, by simpa using hchain 0 i, .head' hstep hback⟩

/-- Who was not taken still waits for someone who was not taken either. -/
theorem Draining.circular {order : List Text} {left : Dict Nat}
    (h : Draining ds order [] left) (hn : n ∈ namesOf ds) (hout : n ∉ order) : Circular ds n := by
  have hwaiting : n ∈ (namesOf ds).filter fun k => k ∉ order :=
    List.mem_filter.2 ⟨hn, by simpa using hout⟩
  refine circular_of_closed (fun k hk => ?_) hwaiting
  rw [List.mem_filter, decide_eq_true_iff] at hk
  obtain ⟨d, hd, rfl⟩ := List.mem_map.1 hk.1
  have hwaits : waits ds order d ≠ [] := fun hnone => hk.2 (by simpa using (h.ready d hd).2 hnone)
  obtain ⟨m, hm⟩ := List.exists_mem_of_ne_nil _ hwaits
  obtain ⟨hdep, hname, hleft⟩ := mem_waits.1 hm
  exact ⟨m, List.mem_filter.2 ⟨hname, by simpa using hleft⟩, d, hd, rfl, hdep, hname⟩

/-! ### The schedule -/

theorem duplicate?_eq_none {seen : List Text} (hds : (namesOf ds).Nodup)
    (hseen : ∀ n ∈ namesOf ds, n ∉ seen) : duplicate? seen ds = none := by
  induction ds generalizing seen with
  | nil => rfl
  | cons d r ih =>
    obtain ⟨hhead, hrest⟩ := List.nodup_cons.1 hds
    have hnew : seen.contains d.name = false := by
      simpa using hseen d.name List.mem_cons_self
    rw [duplicate?, hnew]
    refine ih hrest fun n hn hmem => ?_
    rcases List.mem_cons.1 hmem with rfl | hmem
    · exact hhead hn
    · exact hseen n (List.mem_cons_of_mem _ hn) hmem

/-- What the order and the cycle of a schedule are. -/
structure Arranged (ds : List Derived) (s : Schedule) : Prop where
  /-- Every derived value has one place. -/
  perm : s.order.Perm (namesOf ds)
  /-- Outside the cycle a name stands after all it reads and before the cycle. -/
  sorted : ∀ pre n post, s.order = pre ++ n :: post → n ∉ s.cycle →
    (∀ m, Reads ds n m → m ∈ pre) ∧ ∀ m ∈ s.cycle, m ∈ post
  /-- The cycle is in the order of declaration. -/
  declared : s.cycle.Sublist (namesOf ds)
  /-- The cycle is what leads into a circle of reads. -/
  circular : ∀ n, n ∈ s.cycle ↔ Circular ds n

/-- A schedule that was built is ordered. -/
theorem arranged_of_build {strict : Bool} {s : Schedule} (h : build ds strict = .ok s)
    (hdeclared : s.cycle.Sublist (namesOf ds)) (hcircular : ∀ n ∈ s.cycle, Circular ds n) :
    Arranged ds s := by
  obtain ⟨hds, -, first, horder, hnodup, hmem, hsorted⟩ := build_spec h
  refine ⟨?_, ?_, hdeclared, fun n => ⟨hcircular n, fun hn => ?_⟩⟩
  · rw [horder]
    exact (List.perm_ext_iff_of_nodup hnodup hds).2 hmem
  · intro pre n post heq hout
    -- the place of `n` is in the first part of the order, since it is not in the cycle
    rw [horder] at heq
    obtain ⟨rest, rfl, rfl⟩ : ∃ rest, first = pre ++ n :: rest ∧ post = rest ++ s.cycle := by
      rcases List.append_eq_append_iff.1 heq with ⟨more, rfl, hcycle⟩ | ⟨more, rfl, hcycle⟩
      · exact absurd (by rw [hcycle]; simp) hout
      · cases more with
        | nil => exact absurd (by rw [← List.nil_append s.cycle, ← hcycle]; simp) hout
        | cons k rest =>
          obtain ⟨rfl, rfl⟩ := List.cons.inj hcycle
          exact ⟨rest, rfl, rfl⟩
    refine ⟨?_, fun m hm => List.mem_append_right _ hm⟩
    rintro m ⟨d, hd, hname, hdep, hread⟩
    exact hsorted pre n rest rfl d hd hname m hdep hread
  · rcases List.mem_append.1 ((hmem n).2 hn.mem) with hfirst | hcycle
    · exact absurd hn (hsorted.not_circular hfirst)
    · exact hcycle

/-- **The order of derived values.**  Derived values with distinct names have a schedule: those
that can be ordered come first and in topological order, and the cycle is exactly those that cannot.
A strict schedule is the same one, or the cycle if there is one. -/
theorem build_arranged (hds : (namesOf ds).Nodup) :
    ∃ s, build ds false = .ok s ∧ Arranged ds s ∧
      build ds true = if s.cycle = [] then .ok s else .error (.cycle s.cycle) := by
  have hdup : duplicate? [] ds = none := duplicate?_eq_none hds fun _ _ => List.not_mem_nil
  rcases hr : drain ds ds.length (ds.map fun d => (d.name, degree ds d))
    (((ds.map fun d => (d.name, degree ds d)).filter fun p => p.2 = 0).map Prod.fst) with
    ⟨order, left⟩
  obtain ⟨hdr, -⟩ := drained hds hr
  have hlax : build ds false = .ok ⟨ds, order ++ (left.filter fun p => p.2 > 0).map Prod.fst,
      (left.filter fun p => p.2 > 0).map Prod.fst⟩ := by
    simp [build, hdup, hr]
  refine ⟨_, hlax, arranged_of_build hlax ?_ ?_, ?_⟩
  · rw [← hdr.keys]
    exact List.filter_sublist.map _
  · intro n hn
    obtain ⟨hmem, hout⟩ := (hdr.mem_cycle hds n).1 hn
    exact hdr.circular hmem hout
  · simp only [build, hdup, hr, Bool.true_and]
    generalize (left.filter fun p => decide (p.2 > 0)).map Prod.fst = cycle
    cases cycle <;> rfl

/-- Two values that read each other, one of them twice, a reader of theirs, one that reads itself,
and two that can be ordered. -/
def tangle : List Derived :=
  let value : Text → List Text → Derived := fun name deps => ⟨name, .ident 0 "x", deps⟩
  [value "late" ["ping", "x"], value "ping" ["pong", "pong"], value "pong" ["ping"],
    value "self" ["self"], value "last" ["first", "x", "first"], value "first" ["x"]]

theorem build_arranged_tangle : (namesOf tangle).Nodup ∧ ∃ s, build tangle false = .ok s ∧
    s.order = ["first", "last", "late", "ping", "pong", "self"] ∧ Arranged tangle s ∧
      build tangle true = .error (.cycle ["late", "ping", "pong", "self"]) := by
  have hds : (namesOf tangle).Nodup := by decide
  obtain ⟨s, hs, harranged, hstrict⟩ := build_arranged hds
  have hbuilt : build tangle false = .ok ⟨tangle, ["first", "last", "late", "ping", "pong", "self"],
      ["late", "ping", "pong", "self"]⟩ := rfl
  obtain rfl := Except.ok.inj (hs.symm.trans hbuilt)
  exact ⟨hds, _, hs, rfl, harranged, hstrict⟩

end Reactive.Schedule
