/-
Dictionaries and lists of names.

What a dictionary holds is known by its look-ups, and two dictionaries with
the same look-ups can still differ in order.  `Dict.insert_same` says when a
write changes nothing at all, order included.

* `Dict.insert_same` — writing what is there already;
* `Text.mem_distinct`, `Text.nodup_distinct` — each name once.
-/
import Reactive.Dict
import Mathlib.Data.List.Nodup

namespace Reactive

namespace Dict

variable {α : Type}

/-- Writing what a name stands for already changes nothing. -/
theorem insert_same {d : Dict α} {k : Text} {a : α} (h : d.get? k = some a) :
    d.insert k a = d := by
  induction d with
  | nil => simp at h
  | cons p r ih =>
    obtain ⟨j, v⟩ := p
    by_cases hj : j = k
    · simp only [get?, if_pos hj, Option.some.injEq] at h
      subst hj
      simp [insert, h]
    · simp only [get?, if_neg hj] at h
      simp only [insert, if_neg hj, ih h]

theorem has_iff_mem_keys {d : Dict α} {k : Text} : d.has k = true ↔ k ∈ d.keys := by
  induction d with
  | nil => simp [has, keys]
  | cons p r ih =>
    obtain ⟨j, v⟩ := p
    by_cases hj : j = k
    · simp [has, get?, keys, hj]
    · have hk : ¬k = j := fun h => hj h.symm
      simp only [has, keys] at ih
      simp [has, get?, keys, hj, hk, ih]

theorem get?_eq_none_iff {d : Dict α} {k : Text} : d.get? k = none ↔ k ∉ d.keys := by
  rw [← has_iff_mem_keys, has, Bool.not_eq_true, Option.isSome_eq_false_iff, Option.isNone_iff_eq_none]

theorem exists_get?_iff {d : Dict α} {k : Text} : (∃ a, d.get? k = some a) ↔ k ∈ d.keys := by
  rw [← has_iff_mem_keys, has, Option.isSome_iff_exists]

theorem mem_of_get? {d : Dict α} {k : Text} {a : α} (h : d.get? k = some a) : (k, a) ∈ d := by
  induction d with
  | nil => simp at h
  | cons p r ih =>
    obtain ⟨j, v⟩ := p
    by_cases hj : j = k
    · simp only [get?, if_pos hj, Option.some.injEq] at h
      subst hj h
      exact List.mem_cons_self
    · simp only [get?, if_neg hj] at h
      exact List.mem_cons_of_mem _ (ih h)

/-- In a dictionary without repeated names every pair is found by its name. -/
theorem get?_of_mem {d : Dict α} {k : Text} {a : α} (hd : d.keys.Nodup) (h : (k, a) ∈ d) :
    d.get? k = some a := by
  induction d with
  | nil => simp at h
  | cons p r ih =>
    obtain ⟨j, v⟩ := p
    simp only [keys, List.map_cons, List.nodup_cons] at hd
    rcases List.mem_cons.1 h with h | h
    · cases h
      simp [get?]
    · have hj : j ≠ k := fun e => hd.1 (e ▸ List.mem_map_of_mem (f := Prod.fst) h)
      simp only [get?, if_neg hj]
      exact ih hd.2 h

/-- Dictionaries with the same names in one order and the same values are equal. -/
theorem ext_of_keys {d e : Dict α} (hd : d.keys.Nodup) (hkeys : d.keys = e.keys)
    (hget : ∀ k, d.get? k = e.get? k) : d = e := by
  have hlength : d.length = e.length := by simpa [keys] using congrArg List.length hkeys
  refine List.ext_getElem hlength fun i hi hi' => ?_
  have hfst : d[i].1 = e[i].1 := by
    have := List.getElem_of_eq hkeys (by simpa [keys] using hi : i < d.keys.length)
    simpa [keys] using this
  have hd' : d.get? d[i].1 = some d[i].2 := get?_of_mem hd (List.getElem_mem hi)
  have he' : e.get? e[i].1 = some e[i].2 := get?_of_mem (hkeys ▸ hd) (List.getElem_mem hi')
  rw [hget, hfst, he'] at hd'
  exact Prod.ext hfst (Option.some.inj hd').symm

theorem get?_append (d e : Dict α) (k : Text) :
    Dict.get? (d ++ e) k = (d.get? k).or (e.get? k) := by
  induction d with
  | nil => simp
  | cons p r ih =>
    obtain ⟨j, v⟩ := p
    by_cases hj : j = k
    · simp [get?, hj]
    · simp [get?, hj, ih]

theorem get?_map_snd {β : Type} (f : α → β) (d : Dict α) (k : Text) :
    Dict.get? (d.map fun p => (p.1, f p.2)) k = (d.get? k).map f := by
  induction d with
  | nil => simp
  | cons p r ih =>
    obtain ⟨j, v⟩ := p
    by_cases hj : j = k
    · simp [get?, hj]
    · simp [get?, hj, ih]

theorem insert_map_snd {β : Type} (f : α → β) (d : Dict α) (k : Text) (a : α) :
    Dict.insert (d.map fun p => (p.1, f p.2)) k (f a) = (d.insert k a).map fun p => (p.1, f p.2) := by
  induction d with
  | nil => simp [insert]
  | cons p r ih =>
    obtain ⟨j, v⟩ := p
    by_cases hj : j = k
    · simp [insert, hj]
    · simp [insert, hj, ih]

theorem ofPairs_map_snd {β : Type} (f : α → β) (ps : List (Text × α)) :
    Dict.ofPairs (ps.map fun p => (p.1, f p.2)) =
      (Dict.ofPairs ps).map fun p => (p.1, f p.2) := by
  have h : ∀ (ps : List (Text × α)) (d : Dict α),
      (ps.map fun p => (p.1, f p.2)).foldl (fun d p => Dict.insert d p.1 p.2)
        (d.map fun p => (p.1, f p.2)) =
      (ps.foldl (fun d p => Dict.insert d p.1 p.2) d).map fun p => (p.1, f p.2) := by
    intro ps
    induction ps with
    | nil => intro d; rfl
    | cons p r ih =>
      intro d
      rw [List.map_cons, List.foldl_cons, List.foldl_cons, insert_map_snd, ih]
  exact h ps []

theorem mem_insert {d : Dict α} {k : Text} {a : α} {p : Text × α} (h : p ∈ d.insert k a) :
    p ∈ d ∨ p = (k, a) := by
  induction d with
  | nil => exact Or.inr (by simpa [insert] using h)
  | cons q r ih =>
    obtain ⟨j, v⟩ := q
    by_cases hj : j = k
    · simp only [insert, if_pos hj, List.mem_cons] at h
      rcases h with h | h
      · exact Or.inr (hj ▸ h)
      · exact Or.inl (List.mem_cons_of_mem _ h)
    · simp only [insert, if_neg hj, List.mem_cons] at h
      rcases h with h | h
      · exact Or.inl (h ▸ List.mem_cons_self)
      · rcases ih h with h | h
        · exact Or.inl (List.mem_cons_of_mem _ h)
        · exact Or.inr h

theorem mem_ofPairs {ps : List (Text × α)} {p : Text × α} (h : p ∈ ofPairs ps) : p ∈ ps := by
  have hgo : ∀ (ps : List (Text × α)) (d : Dict α),
      p ∈ ps.foldl (fun d q => Dict.insert d q.1 q.2) d → p ∈ d ∨ p ∈ ps := by
    intro ps
    induction ps with
    | nil => intro d h; exact Or.inl h
    | cons q r ih =>
      intro d h
      rcases ih _ h with h | h
      · rcases mem_insert h with h | h
        · exact Or.inl h
        · exact Or.inr (h ▸ List.mem_cons_self)
      · exact Or.inr (List.mem_cons_of_mem _ h)
  rcases hgo ps [] h with h | h
  · cases h
  · exact h

theorem has_insert {d : Dict α} {k n : Text} {a : α} (h : d.has n = true) :
    (d.insert k a).has n = true := by
  rw [has, get?_insert]
  split
  · rfl
  · exact h

theorem has_ofPairs {ps : List (Text × α)} {n : Text} (h : n ∈ ps.map Prod.fst) :
    (ofPairs ps).has n = true := by
  have hgo : ∀ (ps : List (Text × α)) (d : Dict α), d.has n = true ∨ n ∈ ps.map Prod.fst →
      Dict.has (ps.foldl (fun d q => Dict.insert d q.1 q.2) d) n = true := by
    intro ps
    induction ps with
    | nil =>
      rintro d (h | h)
      · exact h
      · cases h
    | cons q r ih =>
      rintro d (h | h)
      · exact ih _ (Or.inl (has_insert h))
      · rcases List.mem_cons.1 h with rfl | h
        · refine ih _ (Or.inl ?_)
          rw [has, get?_insert, if_pos rfl]
          rfl
        · exact ih _ (Or.inr h)
  exact hgo ps [] (Or.inr h)

theorem keys_insert_nodup {d : Dict α} (h : d.keys.Nodup) (k : Text) (a : α) :
    (d.insert k a).keys.Nodup := by
  rw [keys_insert]
  split
  · exact h
  · rename_i hk
    refine List.nodup_append.2 ⟨h, List.nodup_singleton k, ?_⟩
    rintro x hx z hz rfl
    rw [List.mem_singleton.1 hz] at hx
    exact hk (has_iff_mem_keys.2 hx)

theorem keys_ofPairs_nodup (ps : List (Text × α)) : (ofPairs ps).keys.Nodup := by
  have hgo : ∀ (ps : List (Text × α)) (d : Dict α), d.keys.Nodup →
      (Dict.keys (ps.foldl (fun d p => Dict.insert d p.1 p.2) d)).Nodup := by
    intro ps
    induction ps with
    | nil => exact fun d hd => hd
    | cons p r ih => exact fun d hd => ih _ (keys_insert_nodup hd p.1 p.2)
  exact hgo ps [] List.nodup_nil

/-- A new name goes to the end. -/
theorem insert_new {d : Dict α} {k : Text} (h : k ∉ d.keys) (a : α) :
    d.insert k a = d ++ [(k, a)] := by
  induction d with
  | nil => rfl
  | cons p r ih =>
    obtain ⟨j, v⟩ := p
    obtain ⟨hj, hr⟩ := not_or.1 (mt List.mem_cons.2 h)
    rw [insert, if_neg (Ne.symm hj), ih hr, List.cons_append]

/-- Pairs that repeat no name are a dictionary as they are. -/
theorem ofPairs_of_nodup {ps : Dict α} (h : ps.keys.Nodup) : ofPairs ps = ps := by
  have hgo : ∀ (ps d : Dict α), (Dict.keys (d ++ ps)).Nodup →
      ps.foldl (fun d p => Dict.insert d p.1 p.2) d = d ++ ps := by
    intro ps
    induction ps with
    | nil => exact fun d _ => (List.append_nil d).symm
    | cons p r ih =>
      intro d hd
      have hp : p.1 ∉ d.keys := by
        rw [keys, List.map_append] at hd
        exact fun hp => (List.nodup_append.1 hd).2.2 p.1 hp p.1 List.mem_cons_self rfl
      rw [List.foldl_cons, insert_new hp, ih]
      · rw [List.append_assoc, List.singleton_append]
      · rwa [List.append_assoc, List.singleton_append]
  exact hgo ps [] h

theorem get?_erase (d : Dict α) (k name : Text) :
    (d.erase k).get? name = if k = name then none else d.get? name := by
  induction d with
  | nil => simp [erase, get?]
  | cons p r ih =>
    obtain ⟨j, v⟩ := p
    by_cases hj : j = k
    · have : erase ((j, v) :: r) k = erase r k := by simp [erase, hj]
      rw [this, ih, get?]
      by_cases hk : k = name
      · rw [if_pos hk, if_pos hk]
      · rw [if_neg hk, if_neg hk, if_neg fun e => hk (hj.symm.trans e)]
    · have : erase ((j, v) :: r) k = (j, v) :: erase r k := by simp [erase, hj]
      rw [this, get?, get?, ih]
      by_cases hn : j = name
      · rw [if_pos hn, if_pos hn, if_neg fun e => hj (hn.trans e.symm)]
      · rw [if_neg hn, if_neg hn]

/-- A write to a dictionary, up to the order of names. -/
theorem insert_perm {d : Dict α} (h : d.keys.Nodup) (k : Text) (a : α) :
    (d.insert k a).Perm ((k, a) :: d.filter fun p => p.1 ≠ k) := by
  induction d with
  | nil => exact .refl _
  | cons p r ih =>
    obtain ⟨j, v⟩ := p
    obtain ⟨hj, hr⟩ := List.nodup_cons.1 h
    rw [insert]
    split
    · rename_i hjk
      have hkept : r.filter (fun p => p.1 ≠ k) = r := by
        refine List.filter_eq_self.2 fun q hq => decide_eq_true fun hqk => hj ?_
        show j ∈ List.map Prod.fst r
        rw [hjk, ← hqk]
        exact List.mem_map_of_mem hq
      rw [List.filter_cons_of_neg (by simpa using hjk), hkept, hjk]
    · rename_i hjk
      rw [List.filter_cons_of_pos (by simpa using hjk)]
      exact ((ih hr).cons _).trans (List.Perm.swap ..)

/-- What is read where one name stands between others. -/
theorem get?_between {d : Dict α} (e : Dict α) {k : Text} (a : α) (h : k ∉ d.keys)
    (name : Text) : get? (d ++ (k, a) :: e) name =
      if k = name then some a else (d.get? name).or (e.get? name) := by
  rw [get?_append, get?]
  by_cases hk : k = name
  · rw [if_pos hk, if_pos hk, ← hk, get?_eq_none_iff.2 h, Option.none_or]
  · rw [if_neg hk, if_neg hk]

end Dict

namespace Text

/-- `distinct` with what was met before. -/
private theorem distinct_go (xs acc : List Text) (hacc : acc.Nodup) :
    (xs.foldl (fun acc x => if acc.contains x then acc else acc ++ [x]) acc).Nodup ∧
      ∀ y, y ∈ xs.foldl (fun acc x => if acc.contains x then acc else acc ++ [x]) acc ↔
        y ∈ acc ∨ y ∈ xs := by
  induction xs generalizing acc with
  | nil => simp [hacc]
  | cons x r ih =>
    simp only [List.foldl_cons]
    by_cases hx : x ∈ acc
    · rw [if_pos (by simpa using hx)]
      obtain ⟨h₁, h₂⟩ := ih acc hacc
      refine ⟨h₁, fun y => ?_⟩
      rw [h₂, List.mem_cons]
      constructor
      · rintro (h | h)
        · exact Or.inl h
        · exact Or.inr (Or.inr h)
      · rintro (h | h | h)
        · exact Or.inl h
        · exact Or.inl (h ▸ hx)
        · exact Or.inr h
    · rw [if_neg (by simpa using hx)]
      have hnew : (acc ++ [x]).Nodup := by
        rw [List.nodup_append]
        refine ⟨hacc, by simp, fun a ha b hb => ?_⟩
        rw [List.mem_singleton] at hb
        subst hb
        exact fun e => hx (e ▸ ha)
      obtain ⟨h₁, h₂⟩ := ih _ hnew
      refine ⟨h₁, fun y => ?_⟩
      rw [h₂, List.mem_append, List.mem_singleton, List.mem_cons, or_assoc]

theorem nodup_distinct (xs : List Text) : (distinct xs).Nodup :=
  (distinct_go xs [] List.nodup_nil).1

@[simp] theorem mem_distinct {xs : List Text} {y : Text} : y ∈ distinct xs ↔ y ∈ xs := by
  rw [distinct, (distinct_go xs [] List.nodup_nil).2]
  simp

/-- Names that are distinct already are all kept. -/
theorem distinct_of_nodup {xs : List Text} (h : xs.Nodup) : distinct xs = xs := by
  have hgo : ∀ xs acc : List Text, (acc ++ xs).Nodup →
      xs.foldl (fun acc x => if acc.contains x then acc else acc ++ [x]) acc = acc ++ xs := by
    intro xs
    induction xs with
    | nil => exact fun acc _ => (List.append_nil acc).symm
    | cons x r ih =>
      intro acc hacc
      have hx : x ∉ acc := fun hx => (List.nodup_append.1 hacc).2.2 x hx x List.mem_cons_self rfl
      rw [List.foldl_cons, if_neg (by simpa using hx), ih, List.append_assoc]
      · rfl
      · rwa [List.append_assoc]
  exact hgo xs [] h

end Text

end Reactive
