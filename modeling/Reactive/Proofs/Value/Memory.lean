/-
What the operations on values do to memory.

Each operation writes only to pieces that it made itself, so all that was there
before it shows the same image after it.  While an object is being made it is a
draft: its array of names and its table are new, and are written in place.  The
names and the table are then those of a pair that is built alongside, without
memory, by `Bound.set`.

* `Memory.Sound` — a piece refers to older pieces only;
* `Memory.Keeps.image` — a value shows the same image as long as what it refers
  to is left alone;
* `Memory.Draft.bind` — a property set in place;
* `Memory.draft_insert`, `draft_ofPairs`, `draft_merge` — the operations on
  objects.
-/
import Reactive.Proofs.Dict
import Reactive.Value.Memory

namespace Reactive

/-! ### Names beside a table -/

/-- Names in order beside a table of what they stand for. -/
structure Bound (α : Type) where
  names : List Text := []
  table : Dict α := []

namespace Bound

variable {α β : Type}

/-- A name set: it keeps its place, or goes behind the others. -/
def set (b : Bound α) (k : Text) (a : α) : Bound α where
  names := if (b.table.get? k).isSome then b.names else b.names ++ [k]
  table := (k, a) :: b.table.erase k

/-- Names set one after another. -/
def setAll (b : Bound α) (ps : List (Text × α)) : Bound α := ps.foldl (fun b p => b.set p.1 p.2) b

/-- The same names, with something else for what each stands for. -/
def map (f : α → β) (b : Bound α) : Bound β := ⟨b.names, b.table.map fun e => (e.1, f e.2)⟩

theorem setAll_append (b : Bound α) (ps qs : List (Text × α)) :
    b.setAll (ps ++ qs) = (b.setAll ps).setAll qs := List.foldl_append

theorem mem_set {b : Bound α} {k : Text} {a : α} {e : Text × α} (h : e ∈ (b.set k a).table) :
    e = (k, a) ∨ e ∈ b.table :=
  (List.mem_cons.1 h).imp_right List.mem_of_mem_filter

theorem mem_setAll {b : Bound α} {ps : List (Text × α)} {e : Text × α}
    (h : e ∈ (b.setAll ps).table) : e ∈ ps ∨ e ∈ b.table := by
  induction ps generalizing b with
  | nil => exact .inr h
  | cons p r ih =>
    rcases ih h with he | he
    · exact .inl (List.mem_cons_of_mem _ he)
    · refine (mem_set he).imp_left fun hep => ?_
      rw [hep]
      exact List.mem_cons_self

theorem map_set (f : α → β) (b : Bound α) (k : Text) (a : α) :
    (b.set k a).map f = (b.map f).set k (f a) := by
  simp only [set, map, Dict.get?_map_snd, Option.isSome_map, List.map_cons, mk.injEq, true_and]
  simp only [Dict.erase, List.filter_map]
  rfl

theorem map_setAll (f : α → β) (ps : List (Text × α)) (b : Bound α) :
    (b.setAll ps).map f = (b.map f).setAll (ps.map fun p => (p.1, f p.2)) := by
  induction ps generalizing b with
  | nil => rfl
  | cons p r ih =>
    show ((b.set p.1 p.2).setAll r).map f = _
    rw [ih, map_set]
    rfl

/-- What is bound when a name is set for each of some pairs. -/
def ofPairs (ps : List (Text × α)) : Bound α := setAll {} ps

theorem map_ofPairs (f : α → β) (ps : List (Text × α)) :
    (ofPairs ps).map f = ofPairs (ps.map fun p => (p.1, f p.2)) := map_setAll f ps {}

theorem mem_ofPairs {ps : List (Text × α)} {e : Text × α} (h : e ∈ (ofPairs ps).table) : e ∈ ps :=
  (mem_setAll h).resolve_right List.not_mem_nil

/-- The names are there once each, and are those of the table. -/
structure Matched (b : Bound α) : Prop where
  nodup : b.names.Nodup
  once : (Dict.keys b.table).Nodup
  same : ∀ k, k ∈ b.names ↔ (b.table.get? k).isSome

theorem matched_empty : Matched ({} : Bound α) :=
  ⟨List.nodup_nil, List.nodup_nil, fun _ => by simp⟩

theorem get?_set (b : Bound α) (k : Text) (a : α) (j : Text) :
    (b.set k a).table.get? j = if k = j then some a else b.table.get? j := by
  show Dict.get? ((k, a) :: b.table.erase k) j = _
  rw [Dict.get?, Dict.get?_erase]
  split <;> rfl

namespace Matched

variable {b : Bound α}

theorem set (h : b.Matched) (k : Text) (a : α) : (b.set k a).Matched := by
  refine ⟨?_, ?_, fun j => ?_⟩
  · show (if (b.table.get? k).isSome then b.names else b.names ++ [k]).Nodup
    split
    · exact h.nodup
    -- A name that is not in the table is not among the names either.
    · rename_i hk
      refine List.nodup_append.2 ⟨h.nodup, List.nodup_singleton k, fun x hx y hy hxy => hk ?_⟩
      rw [List.mem_singleton] at hy
      exact (h.same k).1 (hy ▸ hxy ▸ hx)
  · show (k :: Dict.keys (b.table.erase k)).Nodup
    refine List.nodup_cons.2 ⟨fun hk => ?_, h.once.sublist (List.filter_sublist.map _)⟩
    obtain ⟨e, he, rfl⟩ := List.mem_map.1 hk
    simpa using (List.mem_filter.1 he).2
  · rw [get?_set]
    show j ∈ (if (b.table.get? k).isSome then b.names else b.names ++ [k]) ↔ _
    by_cases hkj : k = j
    · rw [if_pos hkj]
      split
      · rename_i hk
        simp [(h.same j).2 (hkj ▸ hk)]
      · simp [hkj]
    · rw [if_neg hkj, ← h.same j]
      split
      · rfl
      · simp [Ne.symm hkj]

theorem setAll (ps : List (Text × α)) (h : b.Matched) : (b.setAll ps).Matched := by
  induction ps generalizing b with
  | nil => exact h
  | cons p r ih => exact ih (h.set p.1 p.2)

end Matched

/-- What the names stand for does not matter. -/
theorem matched_map {f : α → β} {b : Bound α} : (b.map f).Matched ↔ b.Matched := by
  have hkeys : Dict.keys (b.map f).table = Dict.keys b.table := by
    rw [map, Dict.keys, List.map_map]
    rfl
  have hsame : ∀ k, ((b.map f).table.get? k).isSome = (b.table.get? k).isSome := fun k => by
    rw [map, Dict.get?_map_snd, Option.isSome_map]
  constructor
  · exact fun h => ⟨h.nodup, hkeys ▸ h.once, fun k => hsame k ▸ h.same k⟩
  · exact fun h => ⟨h.nodup, hkeys ▸ h.once, fun k => (hsame k).symm ▸ h.same k⟩

theorem matched_ofPairs (ps : List (Text × α)) : (ofPairs ps).Matched := matched_empty.setAll ps

section

variable [Inhabited α]

/-- The names in order, each with what it stands for. -/
def toDict (b : Bound α) : Dict α := b.names.map fun k => (k, (b.table.get? k).getD default)

theorem keys_toDict (b : Bound α) : b.toDict.keys = b.names := by
  rw [toDict, Dict.keys, List.map_map]
  exact List.map_id _

theorem length_toDict (b : Bound α) : b.toDict.length = b.names.length := List.length_map _

theorem toDict_map [Inhabited β] {f : α → β} (hf : f default = default) (b : Bound α) :
    (b.map f).toDict = b.toDict.map fun e => (e.1, f e.2) := by
  rw [toDict, toDict, List.map_map]
  refine List.map_congr_left fun k _ => ?_
  rw [map, Dict.get?_map_snd, Function.comp_apply]
  cases b.table.get? k with
  | none => rw [Option.map_none, Option.getD_none, Option.getD_none, hf]
  | some a => rfl

namespace Matched

variable {b : Bound α}

theorem get?_toDict (h : b.Matched) (k : Text) : b.toDict.get? k = b.table.get? k := by
  cases hk : b.table.get? k with
  | none =>
    refine Dict.get?_eq_none_iff.2 ?_
    rw [keys_toDict, h.same, hk]
    exact Bool.false_ne_true
  | some a =>
    have hmem : k ∈ b.names := (h.same k).2 (by rw [hk]; rfl)
    refine Dict.get?_of_mem (by rw [keys_toDict]; exact h.nodup) ?_
    refine List.mem_map.2 ⟨k, hmem, ?_⟩
    rw [hk]
    rfl

/-- The names in order and the table hold the same. -/
theorem perm_toDict (h : b.Matched) : b.toDict.Perm b.table := by
  have hkeys : b.toDict.keys.Nodup := by rw [keys_toDict]; exact h.nodup
  refine (List.perm_ext_iff_of_nodup (.of_map _ hkeys) (.of_map _ h.once)).2 fun e => ?_
  constructor
  · intro he
    exact Dict.mem_of_get? ((h.get?_toDict e.1).symm.trans (Dict.get?_of_mem hkeys he))
  · intro he
    exact Dict.mem_of_get? ((h.get?_toDict e.1).trans (Dict.get?_of_mem h.once he))

theorem toDict_set (h : b.Matched) (k : Text) (a : α) :
    (b.set k a).toDict = b.toDict.insert k a := by
  have hkeys : (b.set k a).toDict.keys = (b.toDict.insert k a).keys := by
    rw [keys_toDict, Dict.keys_insert, Dict.has, h.get?_toDict, keys_toDict]
    rfl
  refine Dict.ext_of_keys (by rw [keys_toDict]; exact (h.set k a).nodup) hkeys fun j => ?_
  rw [(h.set k a).get?_toDict, get?_set, Dict.get?_insert, h.get?_toDict]

theorem toDict_setAll (ps : List (Text × α)) (h : b.Matched) :
    (b.setAll ps).toDict = ps.foldl (fun d p => d.insert p.1 p.2) b.toDict := by
  induction ps generalizing b with
  | nil => rfl
  | cons p r ih =>
    rw [List.foldl_cons, ← h.toDict_set]
    exact ih (h.set p.1 p.2)

end Matched

theorem toDict_ofPairs (ps : List (Text × α)) : (ofPairs ps).toDict = Dict.ofPairs ps :=
  matched_empty.toDict_setAll ps

end

end Bound

/-! ### References -/

/-- All that a value refers to directly lies before an address. -/
def Handle.Below (n : Nat) : Handle → Prop
  | .list s => s.array < n
  | .map r => r.names.array < n ∧ r.table < n
  | _ => True

theorem Handle.Below.mono {v : Handle} {n n' : Nat} (h : v.Below n) (hle : n ≤ n') :
    v.Below n' := by
  cases v with
  | list s => exact Nat.lt_of_lt_of_le h hle
  | map r => exact ⟨Nat.lt_of_lt_of_le h.1 hle, Nat.lt_of_lt_of_le h.2 hle⟩
  | _ => trivial

/-- All that a piece refers to lies before an address. -/
def Piece.Below (n : Nat) : Piece → Prop
  | .names _ => True
  | .items vs => ∀ v ∈ vs, v.Below n
  | .table es => ∀ e ∈ es, e.2.Below n

namespace Memory

variable {m m' m'' : Memory} {n n' a : Nat} {p : Piece} {v : Handle} {s : Slice} {r : Record}

@[simp] theorem piece?_nil (a : Nat) : piece? [] a = none := rfl

theorem lt_of_piece? (h : m.piece? a = some p) : a < m.length := by
  induction m with
  | nil => cases h
  | cons q m ih =>
    rw [piece?] at h
    split at h
    · simp_all
    · exact Nat.lt_succ_of_lt (ih h)

theorem piece?_cons_self (p : Piece) (m : Memory) : piece? (p :: m) m.length = some p := if_pos rfl

theorem piece?_cons_of_lt (p : Piece) (h : a < m.length) : piece? (p :: m) a = m.piece? a :=
  if_neg (Nat.ne_of_lt h)

theorem length_write (m : Memory) (a : Nat) (p : Piece) : (m.write a p).length = m.length := by
  induction m with
  | nil => rfl
  | cons q m ih =>
    rw [write]
    split
    · rfl
    · rw [List.length_cons, ih, List.length_cons]

theorem piece?_write (m : Memory) (a : Nat) (p : Piece) (j : Nat) :
    (m.write a p).piece? j = if j = a ∧ j < m.length then some p else m.piece? j := by
  induction m with
  | nil => simp [write]
  | cons q m ih =>
    rw [write]
    split
    · rename_i ha
      subst ha
      by_cases hj : j = m.length
      · simp [piece?, hj]
      · simp [piece?, hj]
    · rename_i ha
      rw [piece?, length_write, piece?]
      by_cases hj : j = m.length
      · have hja : j ≠ a := fun e => ha (e ▸ hj)
        rw [if_pos hj, if_pos hj, if_neg fun h => hja h.1]
      · rw [if_neg hj, if_neg hj, ih, List.length_cons]
        by_cases hja : j = a
        · by_cases hlt : j < m.length
          · simp [hja, hja ▸ hlt, Nat.lt_succ_of_lt (hja ▸ hlt)]
          · have : ¬j < m.length + 1 := by omega
            simp [hlt, this]
        · simp [hja]

/-! ### Sound memory -/

/-- Each piece refers to older pieces only. -/
def Sound (m : Memory) : Prop := ∀ a p, m.piece? a = some p → p.Below a

theorem sound_nil : Sound [] := fun _ _ h => by cases h

theorem Sound.tail (h : Sound (p :: m)) : m.Sound := fun a q hq =>
  h a q ((piece?_cons_of_lt p (lt_of_piece? hq)).trans hq)

theorem Sound.cons (h : m.Sound) (hp : p.Below m.length) : Sound (p :: m) := by
  intro a q hq
  rw [piece?] at hq
  split at hq
  · rename_i ha
    cases hq
    exact ha ▸ hp
  · exact h a q hq

theorem Sound.write (h : m.Sound) (hp : p.Below a) : (m.write a p).Sound := by
  intro j q hq
  rw [piece?_write] at hq
  split at hq
  · rename_i hj
    cases hq
    exact hj.1 ▸ hp
  · exact h j q hq

theorem Sound.items_below (h : m.Sound) (s : Slice) : ∀ v ∈ m.items s, v.Below s.array := by
  intro v hv
  unfold items at hv
  split at hv
  · rename_i cells hcells
    exact h _ _ hcells v (List.mem_of_mem_take hv)
  · cases hv

theorem Sound.entries_below (h : m.Sound) (t : Nat) : ∀ e ∈ m.entries t, e.2.Below t := by
  intro e he
  unfold entries at he
  split at he
  · rename_i es hes
    exact h _ _ hes e he
  · cases he

/-! ### What stays the same -/

/-- The pieces before an address are the same in two memories. -/
structure Keeps (n : Nat) (m m' : Memory) : Prop where
  before : n ≤ m.length
  after : n ≤ m'.length
  piece : ∀ a < n, m'.piece? a = m.piece? a

namespace Keeps

theorem refl (m : Memory) : Keeps m.length m m := ⟨Nat.le_refl _, Nat.le_refl _, fun _ _ => rfl⟩

theorem trans (h : Keeps n m m') (h' : Keeps n m' m'') : Keeps n m m'' :=
  ⟨h.before, h'.after, fun a ha => (h'.piece a ha).trans (h.piece a ha)⟩

theorem mono (h : Keeps n m m') (hle : n' ≤ n) : Keeps n' m m' :=
  ⟨Nat.le_trans hle h.before, Nat.le_trans hle h.after,
    fun a ha => h.piece a (Nat.lt_of_lt_of_le ha hle)⟩

theorem cons (h : Keeps n m m') (p : Piece) : Keeps n m (p :: m') :=
  ⟨h.before, Nat.le_succ_of_le h.after, fun a ha =>
    (piece?_cons_of_lt p (Nat.lt_of_lt_of_le ha h.after)).trans (h.piece a ha)⟩

theorem write (h : Keeps n m m') (ha : n ≤ a) (p : Piece) : Keeps n m (m'.write a p) :=
  ⟨h.before, (length_write m' a p).symm ▸ h.after, fun j hj => by
    rw [piece?_write, if_neg fun hja : j = a ∧ _ => Nat.not_lt.2 ha (hja.1 ▸ hj), h.piece j hj]⟩

theorem tail {p p' : Piece} (h : Keeps n (p :: m) (p' :: m')) (hn : n' < n) : Keeps n' m m' := by
  have hbefore : n ≤ m.length + 1 := h.before
  have hafter : n ≤ m'.length + 1 := h.after
  refine ⟨by omega, by omega, fun a ha => ?_⟩
  have hpiece := h.piece a (Nat.lt_trans ha hn)
  rwa [piece?_cons_of_lt p' (by omega), piece?_cons_of_lt p (by omega)] at hpiece

theorem names (h : Keeps n m m') (hs : s.array < n) : m'.names s = m.names s := by
  rw [Memory.names, Memory.names, h.piece _ hs]

theorem items (h : Keeps n m m') (hs : s.array < n) : m'.items s = m.items s := by
  rw [Memory.items, Memory.items, h.piece _ hs]

theorem entries (h : Keeps n m m') (ha : a < n) : m'.entries a = m.entries a := by
  rw [Memory.entries, Memory.entries, h.piece _ ha]

/-- A value shows the same image as long as what it refers to is left alone. -/
theorem image (h : Keeps n m m') (hm : m.Sound) (hv : v.Below n) : m'.image v = m.image v := by
  induction m generalizing n m' v with
  | nil =>
    have hn : ¬ 0 < n := Nat.not_lt.2 h.before
    cases v with
    | list s => exact absurd (Nat.lt_of_le_of_lt (Nat.zero_le _) hv) hn
    | map r => exact absurd (Nat.lt_of_le_of_lt (Nat.zero_le _) hv.1) hn
    | _ => cases m' <;> rfl
  | cons p m ih =>
    cases m' with
    | nil =>
      have hn : ¬ 0 < n := Nat.not_lt.2 h.after
      cases v with
      | list s => exact absurd (Nat.lt_of_le_of_lt (Nat.zero_le _) hv) hn
      | map r => exact absurd (Nat.lt_of_le_of_lt (Nat.zero_le _) hv.1) hn
      | _ => rfl
    | cons p' m' =>
      -- what the value refers to refers to something older still
      cases v with
      | list s =>
        rw [Memory.image, Memory.image, h.items hv]
        congr 1
        exact List.map_congr_left fun w hw => ih (h.tail hv) hm.tail (hm.items_below s w hw)
      | map r =>
        rw [Memory.image, Memory.image, keys, keys, h.names hv.1, h.entries hv.2]
        congr 1
        refine List.map_congr_left fun e he => ?_
        rw [ih (h.tail hv.2) hm.tail (hm.entries_below r.table e he)]
      | _ => rfl

end Keeps

/-- The image of a list. -/
theorem image_list (hm : m.Sound) (s : Slice) :
    m.image (.list s) = .list ((m.items s).map m.image) := by
  cases m with
  | nil => rfl
  | cons p m =>
    rw [image]
    congr 1
    refine List.map_congr_left fun v hv => ?_
    have hbelow := hm.items_below s v hv
    have hlt : s.array < (p :: m).length := by
      unfold items at hv
      split at hv
      · exact lt_of_piece? (by assumption)
      · cases hv
    exact (((Keeps.refl m).cons p).image hm.tail (hbelow.mono (Nat.le_of_lt_succ hlt))).symm

/-- The image of an object. -/
theorem image_map (hm : m.Sound) (r : Record) :
    m.image (.map r) = .map (m.keys r) ((m.entries r.table).map fun e => (e.1, m.image e.2)) := by
  cases m with
  | nil => rfl
  | cons p m =>
    rw [image]
    congr 1
    refine List.map_congr_left fun e he => ?_
    have hbelow := hm.entries_below r.table e he
    have hlt : r.table < (p :: m).length := by
      unfold entries at he
      split at he
      · exact lt_of_piece? (by assumption)
      · cases he
    rw [((Keeps.refl m).cons p).image hm.tail (hbelow.mono (Nat.le_of_lt_succ hlt))]

/-! ### Objects in the making -/

/-- An object in the making.  Its pieces are newer than a memory, which they leave as it is, and
hold what is bound so far. -/
structure Draft (m₀ : Memory) (x : Record × Memory) (b : Bound Handle) : Prop where
  keeps : Keeps m₀.length m₀ x.2
  sound : x.2.Sound
  fresh : m₀.length ≤ x.1.names.array ∧ m₀.length ≤ x.1.table
  names : ∃ cells, x.2.piece? x.1.names.array = some (.names cells) ∧
    x.1.names.length ≤ cells.length ∧ cells.take x.1.names.length = b.names
  table : x.2.piece? x.1.table = some (.table b.table)

namespace Draft

variable {m₀ : Memory} {x : Record × Memory} {b : Bound Handle}

theorem keys (h : Draft m₀ x b) : x.2.keys x.1 = b.names := by
  obtain ⟨cells, hcells, -, htake⟩ := h.names
  rw [Memory.keys, Memory.names, hcells]
  exact htake

theorem entries (h : Draft m₀ x b) : x.2.entries x.1.table = b.table := by
  rw [Memory.entries, h.table]

theorem get? (h : Draft m₀ x b) (k : Text) : x.2.get? x.1 k = b.table.get? k := by
  rw [Memory.get?, h.entries]

theorem below (h : Draft m₀ x b) : (Handle.map x.1).Below x.2.length := by
  obtain ⟨cells, hcells, -⟩ := h.names
  exact ⟨lt_of_piece? hcells, lt_of_piece? h.table⟩

/-- The image of a draft: what it holds is older, so it shows what it showed before. -/
theorem image (h : Draft m₀ x b) (hm : m₀.Sound) (hb : ∀ e ∈ b.table, e.2.Below m₀.length) :
    x.2.image (.map x.1) =
      .map (b.map m₀.image).names (b.map m₀.image).table := by
  rw [image_map h.sound, h.keys, h.entries]
  congr 1
  refine List.map_congr_left fun e he => ?_
  rw [h.keeps.image hm (hb e he)]

/-- An entry set in a draft. -/
theorem put (h : Draft m₀ x b) (k : Text) (hv : v.Below m₀.length) :
    Draft m₀ (x.1, x.2.put x.1.table k v) ⟨b.names, (k, v) :: b.table.erase k⟩ := by
  have hlt := lt_of_piece? h.table
  obtain ⟨cells, hcells, hlen, htake⟩ := h.names
  have hne : x.1.names.array ≠ x.1.table := by
    intro he
    rw [he, h.table] at hcells
    cases hcells
  unfold Memory.put
  rw [h.entries]
  refine ⟨h.keeps.write h.fresh.2 _, h.sound.write ?_, h.fresh, ⟨cells, ?_, hlen, htake⟩, ?_⟩
  · refine List.forall_mem_cons.2 ⟨hv.mono h.fresh.2, fun e he => ?_⟩
    have hbelow := h.sound.entries_below x.1.table e
    rw [h.entries] at hbelow
    exact hbelow (List.mem_of_mem_filter he)
  · exact (piece?_write ..).trans ((if_neg fun he => hne he.1).trans hcells)
  · exact (piece?_write ..).trans (if_pos ⟨rfl, hlt⟩)

/-- A name written behind those of a draft. -/
theorem appendName (h : Draft m₀ x b) (k : Text) :
    Draft m₀ (⟨(x.2.appendName x.1.names k).1, x.1.table⟩, (x.2.appendName x.1.names k).2)
      ⟨b.names ++ [k], b.table⟩ := by
  have hlt := lt_of_piece? h.table
  obtain ⟨cells, hcells, hlen, htake⟩ := h.names
  have hne : x.1.table ≠ x.1.names.array := by
    intro he
    rw [← he, h.table] at hcells
    cases hcells
  unfold Memory.appendName
  rw [hcells]
  dsimp only
  split
  · -- there is room behind the names
    rename_i hroom
    refine ⟨h.keeps.write h.fresh.1 _, h.sound.write trivial, h.fresh,
      ⟨cells.set x.1.names.length k, ?_, ?_, ?_⟩, ?_⟩
    · exact (piece?_write ..).trans (if_pos ⟨rfl, lt_of_piece? hcells⟩)
    · rw [List.length_set]
      exact hroom
    · show (cells.set x.1.names.length k).take (x.1.names.length + 1) = _
      rw [List.take_set, List.take_succ_eq_append_getElem hroom, List.set_append_right _ _
        (List.length_take_le _ _), htake]
      simp [← htake, Nat.min_eq_left hlen]
    · exact (piece?_write ..).trans ((if_neg fun he => hne he.1).trans h.table)
  · -- the names move to a larger array, and the old one stays as it is
    refine ⟨h.keeps.cons _, h.sound.cons trivial,
      ⟨h.keeps.after, h.fresh.2⟩, ⟨_, piece?_cons_self _ _, ?_, ?_⟩, ?_⟩
    · simp [Nat.min_eq_left hlen]
    · rw [htake]
      have hnames : b.names.length = x.1.names.length := by
        rw [← htake, List.length_take, Nat.min_eq_left hlen]
      show (b.names ++ k :: _).take (x.1.names.length + 1) = _
      rw [← hnames, List.take_length_add_append]
      rfl
    · exact (piece?_cons_of_lt _ hlt).trans h.table

/-- A property set in place. -/
theorem bind (h : Draft m₀ x b) (k : Text) (hv : v.Below m₀.length) :
    Draft m₀ (x.2.bind x.1 k v) (b.set k v) := by
  unfold Memory.bind Bound.set
  rw [h.get?]
  split
  · exact h.put k hv
  · exact (h.appendName k).put k hv

end Draft

/-- An object without properties. -/
theorem draft_newMap (hm : m.Sound) : Draft m m.newMap {} where
  keeps := ((Keeps.refl m).cons _).cons _
  sound := (hm.cons (p := .names _) trivial).cons fun _ he => by cases he
  fresh := ⟨Nat.le_refl _, Nat.le_succ _⟩
  names := ⟨[], (piece?_cons_of_lt _ (Nat.lt_succ_self _)).trans (piece?_cons_self _ _),
    Nat.le_refl _, rfl⟩
  table := piece?_cons_self _ _

/-- What is bound in an object. -/
def bound (m : Memory) (r : Record) : Bound Handle := ⟨m.keys r, m.entries r.table⟩

/-- A copy of an object. -/
theorem draft_copy (hm : m.Sound) (hr : (Handle.map r).Below m.length) :
    Draft m (m.copy r) (m.bound r) where
  keeps := ((Keeps.refl m).cons _).cons _
  sound := (hm.cons (p := .names _) trivial).cons fun e he =>
    (hm.entries_below r.table e he).mono (Nat.le_succ_of_le (Nat.le_of_lt hr.2))
  fresh := ⟨Nat.le_refl _, Nat.le_succ _⟩
  names := ⟨m.keys r ++ [[]],
    (piece?_cons_of_lt _ (Nat.lt_succ_self _)).trans (piece?_cons_self _ _), by
      rw [List.length_append]
      exact Nat.le_add_right _ _, List.take_left⟩
  table := piece?_cons_self _ _

/-- A draft of which a copy is changed instead. -/
theorem Draft.insert {m₀ : Memory} {x : Record × Memory} {b : Bound Handle} (h : Draft m₀ x b)
    (k : Text) (hv : v.Below m₀.length) : Draft m₀ (x.2.insert x.1 k v) (b.set k v) := by
  -- The copy is newer than the draft, and so newer than what the draft is made from.
  have hcopy := (draft_copy h.sound h.below).bind k (hv.mono h.keeps.after)
  have hb : x.2.bound x.1 = b := by rw [bound, h.keys, h.entries]
  rw [hb] at hcopy
  exact ⟨h.keeps.trans (hcopy.keeps.mono h.keeps.after), hcopy.sound,
    ⟨Nat.le_trans h.keeps.after hcopy.fresh.1, Nat.le_trans h.keeps.after hcopy.fresh.2⟩,
    hcopy.names, hcopy.table⟩

/-- **A property set** in a copy. -/
theorem draft_insert (hm : m.Sound) (hr : (Handle.map r).Below m.length) (k : Text)
    (hv : v.Below m.length) : Draft m (m.insert r k v) ((m.bound r).set k v) :=
  (draft_copy hm hr).bind k hv

theorem Draft.bindAll {m₀ : Memory} (ps : List (Text × Handle)) :
    ∀ {x : Record × Memory} {b : Bound Handle}, Draft m₀ x b →
      (∀ p ∈ ps, p.2.Below m₀.length) →
        Draft m₀ (ps.foldl (fun (r, m) p => m.bind r p.1 p.2) x) (b.setAll ps) := by
  induction ps with
  | nil => exact fun h _ => h
  | cons p ps ih =>
    intro x b h hps
    obtain ⟨hp, hps⟩ := List.forall_mem_cons.1 hps
    exact ih (h.bind p.1 hp) hps

/-- **An object made of pairs.** -/
theorem draft_ofPairs (hm : m.Sound) {ps : List (Text × Handle)}
    (hps : ∀ p ∈ ps, p.2.Below m.length) :
    Draft m (m.ofPairs ps) (Bound.ofPairs ps) :=
  Draft.bindAll ps (draft_newMap hm) hps

/-- The properties of an object, in order. -/
def properties (m : Memory) : Handle → List (Text × Handle)
  | .map r => (m.keys r).map fun k => (k, (m.get? r k).getD .undefined)
  | _ => []

theorem properties_below (hm : m.Sound) (hv : v.Below m.length) :
    ∀ p ∈ m.properties v, p.2.Below m.length := by
  intro p hp
  cases v with
  | map r =>
    obtain ⟨k, -, rfl⟩ := List.mem_map.1 hp
    dsimp only
    cases hk : m.get? r k with
    | none => trivial
    | some w =>
      exact (hm.entries_below r.table _ (Dict.mem_of_get? hk)).mono (Nat.le_of_lt hv.2)
  | _ => cases hp

theorem Draft.mergeOne {m₀ : Memory} {x : Record × Memory} {b : Bound Handle} (hm : m₀.Sound)
    (h : Draft m₀ x b) (hr : (Handle.map r).Below m₀.length) :
    Draft m₀ (mergeOne r x) (b.setAll (m₀.properties (.map r))) := by
  have hbelow := properties_below hm hr
  have hget : ∀ {y : Record × Memory}, Keeps m₀.length m₀ y.2 → ∀ k, y.2.get? r k = m₀.get? r k :=
    fun hy k => by rw [Memory.get?, Memory.get?, hy.entries hr.2]
  have hkeys : x.2.keys r = m₀.keys r := h.keeps.names hr.1
  have hprops : m₀.properties (.map r) =
      (m₀.keys r).map fun k => (k, (m₀.get? r k).getD .undefined) := rfl
  rw [hprops] at hbelow ⊢
  rw [Memory.mergeOne, hkeys]
  clear hkeys hprops
  generalize m₀.keys r = ks at hbelow ⊢
  induction ks generalizing x b with
  | nil => exact h
  | cons k ks ih =>
    rw [List.map_cons, List.forall_mem_cons] at hbelow
    refine ih ?_ hbelow.2
    show Draft m₀ (x.2.insert x.1 k ((x.2.get? r k).getD .undefined)) (b.set k _)
    rw [hget h.keeps]
    exact h.insert k hbelow.1

/-- **Objects merged** into a new one. -/
theorem draft_merge (hm : m.Sound) {vs : List Handle} (hvs : ∀ v ∈ vs, v.Below m.length) :
    Draft m (m.merge vs) (Bound.ofPairs (vs.flatMap m.properties)) := by
  have hall : ∀ {x : Record × Memory} {b : Bound Handle}, Draft m x b →
      Draft m (vs.foldl (fun x v =>
        match v with
        | .map r => Memory.mergeOne r x
        | _ => x) x) (b.setAll (vs.flatMap m.properties)) := by
    induction vs with
    | nil => exact fun h => h
    | cons v vs ih =>
      intro x b h
      obtain ⟨hv, hvs⟩ := List.forall_mem_cons.1 hvs
      rw [List.foldl_cons, List.flatMap_cons, Bound.setAll_append]
      refine ih hvs ?_
      cases v with
      | map r => exact h.mergeOne hm hv
      | _ => exact h
  exact hall (draft_newMap hm)

/-! ### What is made -/

/-- A value made from a memory: what was there is left alone, and the value refers to what is there
now. -/
structure Makes (m : Memory) (x : Handle × Memory) : Prop where
  keeps : Keeps m.length m x.2
  sound : x.2.Sound
  below : x.1.Below x.2.length

theorem makes_self (hm : m.Sound) (hv : v.Below m.length) : Makes m (v, m) :=
  ⟨.refl m, hm, hv⟩

theorem Draft.makes {x : Record × Memory} {b : Bound Handle} (h : Draft m x b) :
    Makes m (.map x.1, x.2) :=
  ⟨h.keeps, h.sound, h.below⟩

theorem makes_newList (hm : m.Sound) {vs : List Handle} (hvs : ∀ v ∈ vs, v.Below m.length) :
    Makes m (.list (m.newList vs).1, (m.newList vs).2) :=
  ⟨(Keeps.refl m).cons _, hm.cons hvs, Nat.lt_succ_self _⟩

theorem image_newList (hm : m.Sound) {vs : List Handle} (hvs : ∀ v ∈ vs, v.Below m.length) :
    (m.newList vs).2.image (.list (m.newList vs).1) = .list (vs.map m.image) := by
  rw [image_list (makes_newList hm hvs).sound]
  show Image.list (((items (.items vs :: m) ⟨m.length, vs.length⟩)).map _) = _
  rw [items, piece?_cons_self]
  dsimp only
  rw [List.take_length]
  congr 1
  exact List.map_congr_left fun v hv => (makes_newList hm hvs).keeps.image hm (hvs v hv)

theorem items_below (hm : m.Sound) (hs : (Handle.list s).Below m.length) :
    ∀ v ∈ m.items s, v.Below m.length := fun v hv =>
  (hm.items_below s v hv).mono (Nat.le_of_lt hs)

/-- A list with an item set, as a list. -/
def itemsSet (m : Memory) (s : Slice) (i : Nat) (v : Handle) : List Handle :=
  (m.items s ++ List.replicate (i + 1 - (m.items s).length) Handle.undefined).set i v

end Memory

end Reactive
