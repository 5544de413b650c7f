/-
The order of derived values is topological.

`drain` takes names from a queue of those that wait for nothing.  What it
keeps true (`Draining`) says what each number and each place in the queue
means: a derived value waits for the derived values it reads that were not
taken yet, its number counts them, and it is taken or queued exactly when
there are none.

* `build_spec` — every derived value has one place in the order, and
  outside the cycle what a derived value reads stands before it.
-/
import Reactive.Schedule
import Reactive.Proofs.Dict
import Mathlib.Data.List.Perm.Subperm

namespace Reactive.Schedule

/-- The names of some derived values. -/
def namesOf (ds : List Derived) : List Text := ds.map (·.name)

/-- The derived values that one reads and that are not done yet, each once. -/
def waits (ds : List Derived) (done : List Text) (d : Derived) : List Text :=
  (Text.distinct d.deps).filter fun dep => (ds.any fun e => e.name = dep) && !done.contains dep

theorem mem_waits {ds : List Derived} {done : List Text} {d : Derived} {dep : Text} :
    dep ∈ waits ds done d ↔ dep ∈ d.deps ∧ dep ∈ namesOf ds ∧ dep ∉ done := by
  simp [waits, namesOf]

theorem nodup_waits (ds : List Derived) (done : List Text) (d : Derived) :
    (waits ds done d).Nodup :=
  (Text.nodup_distinct d.deps).filter _

theorem degree_eq (ds : List Derived) (d : Derived) : degree ds d = (waits ds [] d).length := by
  simp [degree, waits]

/-- Taking a name off what a derived value waits for. -/
theorem waits_snoc (ds : List Derived) (done : List Text) (d : Derived) (name : Text) :
    waits ds (done ++ [name]) d = (waits ds done d).filter fun dep => dep ≠ name := by
  rw [waits, waits, List.filter_filter]
  refine List.filter_congr fun dep _ => ?_
  by_cases h : dep = name <;> simp [h]

theorem length_waits_snoc {ds : List Derived} {done : List Text} {d : Derived} {name : Text}
    (h : name ∈ waits ds done d) :
    (waits ds (done ++ [name]) d).length + 1 = (waits ds done d).length := by
  have hnd := nodup_waits ds done d
  have herase : (waits ds done d).filter (fun dep => dep ≠ name) = (waits ds done d).erase name := by
    rw [hnd.erase_eq_filter]
    refine List.filter_congr fun x _ => ?_
    by_cases hx : x = name <;> simp [hx]
  rw [waits_snoc, herase, List.length_erase_of_mem h]
  have := List.length_pos_of_mem h
  omega

theorem waits_snoc_of_notMem {ds : List Derived} {done : List Text} {d : Derived} {name : Text}
    (h : name ∉ waits ds done d) : waits ds (done ++ [name]) d = waits ds done d := by
  rw [waits_snoc, List.filter_eq_self]
  intro x hx
  simpa using fun e : x = name => h (e ▸ hx)

/-! ### Release -/

/-- What is left to wait for after some names were released. -/
theorem get?_release (rs : List Text) (hrs : rs.Nodup) (degrees : Dict Nat) (queue : List Text)
    (n : Text) : (release degrees queue rs).1.get? n =
      if n ∈ rs then some ((degrees.get? n).getD 0 - 1) else degrees.get? n := by
  induction rs generalizing degrees queue with
  | nil => simp [release]
  | cons r rs ih =>
    obtain ⟨hr, hrs⟩ := List.nodup_cons.1 hrs
    rw [release, ih hrs, Dict.get?_insert]
    by_cases hn : n ∈ rs
    · have hne : r ≠ n := fun e => hr (e ▸ hn)
      simp [hn, hne]
    · by_cases he : r = n
      · subst he
        simp [hn]
      · have he' : ¬n = r := fun e => he e.symm
        simp [hn, he, he']

/-- Who joins the queue when some names are released. -/
theorem queue_release (rs : List Text) (hrs : rs.Nodup) (degrees : Dict Nat) (queue : List Text) :
    (release degrees queue rs).2 =
      queue ++ rs.filter fun n => (degrees.get? n).getD 0 - 1 = 0 := by
  induction rs generalizing degrees queue with
  | nil => simp [release]
  | cons r rs ih =>
    obtain ⟨hr, hrs⟩ := List.nodup_cons.1 hrs
    rw [release, ih hrs]
    have hcongr : rs.filter (fun n => decide (((degrees.insert r ((degrees.get? r).getD 0 - 1)).get? n).getD 0 - 1 = 0))
        = rs.filter fun n => decide ((degrees.get? n).getD 0 - 1 = 0) := by
      refine List.filter_congr fun n hn => ?_
      have hne : r ≠ n := fun e => hr (e ▸ hn)
      rw [Dict.get?_insert, if_neg hne]
    rw [hcongr, List.filter_cons]
    by_cases h0 : (degrees.get? r).getD 0 - 1 = 0 <;> simp [h0]

theorem keys_release (rs : List Text) (degrees : Dict Nat) (queue : List Text)
    (h : ∀ r ∈ rs, r ∈ degrees.keys) : (release degrees queue rs).1.keys = degrees.keys := by
  induction rs generalizing degrees queue with
  | nil => rfl
  | cons r rs ih =>
    have hr : degrees.has r := Dict.has_iff_mem_keys.2 (h r List.mem_cons_self)
    have hk : (degrees.insert r ((degrees.get? r).getD 0 - 1)).keys = degrees.keys := by
      rw [Dict.keys_insert, if_pos hr]
    rw [release, ih _ _ fun x hx => by rw [hk]; exact h x (List.mem_cons_of_mem _ hx), hk]

/-! ### The drain -/

/-- What is true while names are taken from the queue. -/
structure Draining (ds : List Derived) (done queue : List Text) (degrees : Dict Nat) : Prop where
  keys : degrees.keys = namesOf ds
  count : ∀ d ∈ ds, degrees.get? d.name = some (waits ds done d).length
  nodup : (done ++ queue).Nodup
  subset : ∀ n ∈ done ++ queue, n ∈ namesOf ds
  ready : ∀ d ∈ ds, d.name ∈ done ++ queue ↔ waits ds done d = []

/-- What a derived value reads stands before it. -/
def Sorted (ds : List Derived) (order : List Text) : Prop :=
  ∀ pre n post, order = pre ++ n :: post → ∀ d ∈ ds, d.name = n →
    ∀ dep ∈ d.deps, dep ∈ namesOf ds → dep ∈ pre

theorem mem_readers {ds : List Derived} {key n : Text} :
    n ∈ readers ds key ↔ ∃ d ∈ ds, d.name = n ∧ key ∈ d.deps := by
  simp only [readers, List.mem_map, List.mem_filter, List.contains_iff_mem]
  constructor
  · rintro ⟨d, ⟨h₁, h₂⟩, h₃⟩
    exact ⟨d, h₁, h₃, h₂⟩
  · rintro ⟨d, h₁, h₂, h₃⟩
    exact ⟨d, ⟨h₁, h₃⟩, h₂⟩

theorem nodup_readers {ds : List Derived} (hds : (namesOf ds).Nodup) (key : Text) :
    (readers ds key).Nodup :=
  hds.sublist (List.filter_sublist.map _)

/-- Derived values with one name are one. -/
theorem eq_of_name {ds : List Derived} (hds : (namesOf ds).Nodup) {d e : Derived} (hd : d ∈ ds)
    (he : e ∈ ds) (h : d.name = e.name) : d = e :=
  List.inj_on_of_nodup_map hds hd he h

/-- Taking the first name of the queue. -/
theorem Draining.step {ds : List Derived} (hds : (namesOf ds).Nodup) {done queue : List Text}
    {name : Text} {degrees : Dict Nat} (h : Draining ds done (name :: queue) degrees) :
    Draining ds (done ++ [name]) (release degrees queue (readers ds name)).2
      (release degrees queue (readers ds name)).1 := by
  have hnr := nodup_readers hds name
  have hnew : name ∉ done := fun hd => by
    have := List.disjoint_of_nodup_append h.nodup hd
    simp at this
  have hname : name ∈ namesOf ds := h.subset name (by simp)
  -- a reader was waiting for this name, any other derived value was not
  have hwait : ∀ d ∈ ds, d.name ∈ readers ds name ↔ name ∈ waits ds done d := by
    intro d hd
    rw [mem_readers, mem_waits]
    constructor
    · rintro ⟨e, he, hn, hk⟩
      rw [eq_of_name hds he hd hn] at hk
      exact ⟨hk, hname, hnew⟩
    · rintro ⟨hk, -, -⟩
      exact ⟨d, hd, rfl, hk⟩
  have hcount : ∀ d ∈ ds, (release degrees queue (readers ds name)).1.get? d.name =
      some (waits ds (done ++ [name]) d).length := by
    intro d hd
    rw [get?_release _ hnr, h.count d hd, Option.getD_some]
    by_cases hr : d.name ∈ readers ds name
    · rw [if_pos hr]
      have := length_waits_snoc ((hwait d hd).1 hr)
      congr 1
      omega
    · rw [if_neg hr, waits_snoc_of_notMem fun hw => hr ((hwait d hd).2 hw)]
  have hqueue : ∀ n, n ∈ (release degrees queue (readers ds name)).2 ↔
      n ∈ queue ∨ (n ∈ readers ds name ∧ (degrees.get? n).getD 0 - 1 = 0) := by
    intro n
    rw [queue_release _ hnr, List.mem_append, List.mem_filter, decide_eq_true_iff]
  -- whoever joins the queue was waiting for something, so it is new there
  have hjoin : ∀ n, n ∈ readers ds name → n ∉ done ++ name :: queue := by
    intro n hn hmem
    obtain ⟨d, hd, rfl, -⟩ := mem_readers.1 hn
    have hw := (hwait d hd).1 hn
    rw [(h.ready d hd).1 hmem] at hw
    simp at hw
  refine ⟨?_, hcount, ?_, ?_, ?_⟩
  · rw [keys_release, h.keys]
    intro r hr
    obtain ⟨d, hd, rfl, -⟩ := mem_readers.1 hr
    rw [h.keys]
    exact List.mem_map_of_mem hd
  · rw [queue_release _ hnr, List.append_assoc, List.singleton_append, ← List.cons_append,
      ← List.append_assoc, List.nodup_append]
    refine ⟨h.nodup, hnr.filter _, fun a ha b hb e => ?_⟩
    exact hjoin b (List.mem_of_mem_filter hb) (e ▸ ha)
  · intro n hn
    rw [List.mem_append, hqueue] at hn
    rcases hn with hn | hn | ⟨hn, -⟩
    · rcases List.mem_append.1 hn with hn | hn
      · exact h.subset n (List.mem_append_left _ hn)
      · exact h.subset n (by simp [List.mem_singleton.1 hn])
    · exact h.subset n (by simp [hn])
    · obtain ⟨d, hd, rfl, -⟩ := mem_readers.1 hn
      exact List.mem_map_of_mem hd
  · intro d hd
    rw [List.mem_append, hqueue]
    by_cases hr : d.name ∈ readers ds name
    · have hlen := length_waits_snoc ((hwait d hd).1 hr)
      have hout := hjoin _ hr
      simp only [List.mem_append, List.mem_cons, not_or] at hout
      simp only [List.mem_append, List.mem_singleton, hout, hr, h.count d hd, Option.getD_some,
        false_or, true_and, ← List.length_eq_zero_iff]
      omega
    · have hw : name ∉ waits ds done d := fun hw => hr ((hwait d hd).2 hw)
      rw [waits_snoc_of_notMem hw, ← h.ready d hd]
      simp [hr, or_assoc]

theorem Sorted.snoc {ds : List Derived} {done : List Text} {name : Text}
    (h : Sorted ds done) (hw : ∀ d ∈ ds, d.name = name → waits ds done d = []) :
    Sorted ds (done ++ [name]) := by
  intro pre n post heq d hd hn dep hdep hmem
  rcases List.eq_nil_or_concat post with rfl | ⟨post', x, rfl⟩
  · obtain ⟨rfl, hnn⟩ := List.append_inj' heq rfl
    have hn' : d.name = name := by rw [hn]; exact ((List.cons.inj hnn).1).symm
    by_contra hout
    have : dep ∈ waits ds done d := mem_waits.2 ⟨hdep, hmem, hout⟩
    rw [hw d hd hn'] at this
    simp at this
  · rw [List.concat_eq_append, ← List.cons_append, ← List.append_assoc] at heq
    exact h pre n post' (List.append_inj' heq rfl).1 d hd hn dep hdep hmem

/-- Draining to the end: nobody is left in the queue. -/
theorem drain_spec {ds : List Derived} (hds : (namesOf ds).Nodup) (steps : Nat) :
    ∀ (done queue : List Text) (degrees : Dict Nat), Draining ds done queue degrees →
      Sorted ds done → steps + done.length = ds.length →
      Draining ds (done ++ (drain ds steps degrees queue).1) [] (drain ds steps degrees queue).2 ∧
        Sorted ds (done ++ (drain ds steps degrees queue).1) := by
  induction steps with
  | zero =>
    intro done queue degrees h hs hlen
    -- all names are taken, so the queue is empty
    have hle : (done ++ queue).length ≤ (namesOf ds).length :=
      (List.Nodup.subperm h.nodup h.subset).length_le
    have hq : queue = [] := by
      rw [List.length_append, namesOf, List.length_map] at hle
      exact List.length_eq_zero_iff.1 (by omega)
    subst hq
    simpa [drain] using ⟨h, hs⟩
  | succ steps ih =>
    intro done queue degrees h hs hlen
    cases queue with
    | nil => simpa [drain] using ⟨h, hs⟩
    | cons name queue =>
      have hw : ∀ d ∈ ds, d.name = name → waits ds done d = [] := fun d hd hn =>
        (h.ready d hd).1 (by simp [hn])
      have hnext := ih (done ++ [name]) _ _ (h.step hds) (hs.snoc hw) (by
        rw [List.length_append, List.length_singleton]; omega)
      rw [List.append_assoc, List.singleton_append] at hnext
      exact hnext

/-! ### The finished order -/

theorem nodup_of_duplicate? {ds : List Derived} {seen : List Text}
    (h : duplicate? seen ds = none) : (namesOf ds).Nodup ∧ ∀ n ∈ namesOf ds, n ∉ seen := by
  induction ds generalizing seen with
  | nil => simp [namesOf]
  | cons d r ih =>
    rw [duplicate?] at h
    split at h
    · simp at h
    · rename_i hd
      obtain ⟨h₁, h₂⟩ := ih h
      simp only [namesOf, List.map_cons, List.nodup_cons, List.mem_cons, forall_eq_or_imp]
      refine ⟨⟨fun hmem => h₂ _ hmem List.mem_cons_self, h₁⟩, by simpa using hd, fun n hn hs => ?_⟩
      exact h₂ n hn (List.mem_cons_of_mem _ hs)

/-- The start: nothing is done, and who waits for nothing is queued. -/
theorem draining_start {ds : List Derived} (hds : (namesOf ds).Nodup) :
    Draining ds [] (((ds.map fun d => (d.name, degree ds d)).filter fun p => p.2 = 0).map Prod.fst)
      (ds.map fun d => (d.name, degree ds d)) := by
  have hkeys : Dict.keys (ds.map fun d => (d.name, degree ds d)) = namesOf ds := by
    simp [Dict.keys, namesOf, Function.comp_def]
  have hget : ∀ d ∈ ds, Dict.get? (ds.map fun d => (d.name, degree ds d)) d.name =
      some (waits ds [] d).length := by
    intro d hd
    rw [← degree_eq]
    exact Dict.get?_of_mem (hkeys ▸ hds) (List.mem_map_of_mem hd)
  refine ⟨hkeys, hget, ?_, ?_, ?_⟩
  · rw [List.nil_append]
    exact (hkeys ▸ hds : (Dict.keys _).Nodup).sublist (List.filter_sublist.map _)
  · intro n hn
    rw [← hkeys]
    exact (List.filter_sublist.map Prod.fst).subset hn
  · intro d hd
    rw [List.nil_append, ← List.length_eq_zero_iff, ← degree_eq]
    simp only [List.mem_map, List.mem_filter, decide_eq_true_eq]
    constructor
    · rintro ⟨p, ⟨⟨e, he, rfl⟩, h0⟩, hn⟩
      rwa [eq_of_name hds he hd hn] at h0
    · intro h0
      exact ⟨_, ⟨⟨d, hd, rfl⟩, h0⟩, rfl⟩

/-- The end: what was taken is in topological order, and nobody is left in the queue. -/
theorem drained {ds : List Derived} (hds : (namesOf ds).Nodup) {order : List Text}
    {left : Dict Nat}
    (h : drain ds ds.length (ds.map fun d => (d.name, degree ds d))
      (((ds.map fun d => (d.name, degree ds d)).filter fun p => p.2 = 0).map Prod.fst) =
        (order, left)) :
    Draining ds order [] left ∧ Sorted ds order := by
  have hlen : ds.length + ([] : List Text).length = ds.length := by simp
  have hsorted : Sorted ds [] := by
    intro pre n post heq
    simp at heq
  have hend := drain_spec hds ds.length [] _ _ (draining_start hds) hsorted hlen
  rwa [h, List.nil_append] at hend

/-- The names with a number left are those that were not taken: they still wait. -/
theorem Draining.mem_cycle {ds : List Derived} (hds : (namesOf ds).Nodup) {order : List Text}
    {left : Dict Nat} (h : Draining ds order [] left) (n : Text) :
    n ∈ (left.filter fun p => decide (p.2 > 0)).map Prod.fst ↔ n ∈ namesOf ds ∧ n ∉ order := by
  have hndk : left.keys.Nodup := h.keys ▸ hds
  constructor
  · intro hn
    obtain ⟨⟨n', k⟩, hp, rfl⟩ := List.mem_map.1 hn
    rw [List.mem_filter, decide_eq_true_iff] at hp
    have hmem : n' ∈ namesOf ds := h.keys ▸ List.mem_map_of_mem (f := Prod.fst) hp.1
    obtain ⟨d, hd, rfl⟩ := List.mem_map.1 hmem
    refine ⟨hmem, fun ho => ?_⟩
    have hk := h.count d hd
    rw [Dict.get?_of_mem hndk hp.1, (h.ready d hd).1 (by simpa using ho)] at hk
    have hk' : k = 0 := by simpa using hk
    have := hp.2
    omega
  · rintro ⟨hmem, ho⟩
    obtain ⟨d, hd, rfl⟩ := List.mem_map.1 hmem
    have hne : waits ds order d ≠ [] := fun e => ho (by simpa using (h.ready d hd).2 e)
    have hpos := List.length_pos_iff.2 hne
    exact List.mem_map.2 ⟨_, List.mem_filter.2 ⟨Dict.mem_of_get? (h.count d hd), by simpa⟩, rfl⟩

/-- Everything about a built schedule that its use relies on: the names that are not in the cycle
come first and in topological order, and they with the cycle are all names. -/
theorem build_spec {ds : List Derived} {strict : Bool} {s : Schedule}
    (h : build ds strict = .ok s) :
    (namesOf ds).Nodup ∧ s.derived = ds ∧ ∃ first, s.order = first ++ s.cycle ∧
      (first ++ s.cycle).Nodup ∧ (∀ n, n ∈ first ++ s.cycle ↔ n ∈ namesOf ds) ∧
      Sorted ds first := by
  unfold build at h
  split at h
  · simp at h
  · rename_i hdup
    have hds := (nodup_of_duplicate? hdup).1
    rcases hr : drain ds ds.length (ds.map fun d => (d.name, degree ds d)) _ with ⟨order, left⟩
    obtain ⟨hdr, hso⟩ := drained hds hr
    simp only [hr] at h
    have hcycle := hdr.mem_cycle hds
    split at h
    · simp at h
    · cases h
      refine ⟨hds, rfl, order, rfl, ?_, ?_, hso⟩
      · have hndk : left.keys.Nodup := hdr.keys ▸ hds
        rw [List.nodup_append]
        refine ⟨by simpa using hdr.nodup, hndk.sublist (List.filter_sublist.map _), ?_⟩
        intro a ha b hb e
        exact ((hcycle b).1 hb).2 (e ▸ ha)
      · intro n
        rw [List.mem_append, hcycle]
        constructor
        · rintro (hn | hn)
          · exact hdr.subset n (by simpa using hn)
          · exact hn.1
        · intro hn
          by_cases ho : n ∈ order
          · exact Or.inl ho
          · exact Or.inr ⟨hn, ho⟩

end Reactive.Schedule
