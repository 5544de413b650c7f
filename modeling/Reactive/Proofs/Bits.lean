/-
Masks as sets of keys.

The place of a key among the different keys decides its bit, so a mask is a
set of places below thirty-one: masks meet where two lists of names share a
key with such a place, and joined lists have joined masks.

* `Bits.rank` — how many different names come before a name;
* `Bits.get?_ofNames` — the bit of a key by its rank;
* `Bits.mask_and_mask_ne_zero` — where masks meet;
* `Bits.ofNames_faithful` — masks against sets of keys.
-/
import Mathlib.Algebra.Group.Nat.Defs
import Mathlib.Data.Finset.Card
import Mathlib.Data.Finset.Dedup
import Mathlib.Data.List.Nodup
import Reactive.Bits
import Reactive.Proofs.Dict

namespace Reactive

namespace Bits

/-! ### Ranks -/

/-- How many different names come before the first place of a name. -/
def rank (names : List Text) (n : Text) : Nat := (names.take (names.idxOf n)).toFinset.card

section

variable {names : List Text} {n n' : Text}

/-- A name that comes first later on has a higher rank. -/
theorem rank_lt_of_idxOf_lt (hn : n ∈ names) (h : names.idxOf n < names.idxOf n') :
    rank names n < rank names n' := by
  refine Finset.card_lt_card (Finset.ssubset_iff_subset_ne.2 ⟨?_, fun heq => ?_⟩)
  · intro a ha
    rw [List.mem_toFinset] at ha ⊢
    exact List.take_subset_take_left _ h.le ha
  · -- the name itself comes before the later name and not before itself
    have hlate : n ∈ (names.take (names.idxOf n')).toFinset :=
      List.mem_toFinset.2 ((List.mem_take_iff_idxOf_lt hn).2 h)
    rw [← heq, List.mem_toFinset, List.mem_take_iff_idxOf_lt hn] at hlate
    exact lt_irrefl _ hlate

/-- Ranks are in the order of first places. -/
theorem rank_lt_rank_iff (hn : n ∈ names) (hn' : n' ∈ names) :
    rank names n < rank names n' ↔ names.idxOf n < names.idxOf n' := by
  constructor
  · intro h
    by_contra hge
    rcases Nat.lt_or_eq_of_le (Nat.le_of_not_lt hge) with hlt | heq
    · exact absurd (rank_lt_of_idxOf_lt hn' hlt) (by omega)
    · rw [rank, rank, heq] at h
      exact absurd h (lt_irrefl _)
  · exact rank_lt_of_idxOf_lt hn

/-- Different names have different ranks. -/
theorem rank_inj (hn : n ∈ names) (hn' : n' ∈ names) (h : rank names n = rank names n') : n = n' := by
  have hle : ¬ names.idxOf n < names.idxOf n' := fun hlt =>
    absurd ((rank_lt_rank_iff hn hn').2 hlt) (by omega)
  have hge : ¬ names.idxOf n' < names.idxOf n := fun hlt =>
    absurd ((rank_lt_rank_iff hn' hn).2 hlt) (by omega)
  exact (List.idxOf_inj hn).1 (by omega)

theorem rank_lt_length (hn : n ∈ names) : rank names n < names.length :=
  calc rank names n ≤ (names.take (names.idxOf n)).length := List.toFinset_card_le _
    _ ≤ names.idxOf n := List.length_take_le _ _
    _ < names.length := List.idxOf_lt_length_iff.2 hn

theorem distinct_concat (names : List Text) (n : Text) :
    Text.distinct (names ++ [n]) =
      if n ∈ names then Text.distinct names else Text.distinct names ++ [n] := by
  have hstep : Text.distinct (names ++ [n]) =
      if (Text.distinct names).contains n then Text.distinct names
      else Text.distinct names ++ [n] := by
    rw [Text.distinct, List.foldl_append]
    rfl
  rw [hstep]
  by_cases hn : n ∈ names <;> simp [hn]

theorem length_distinct (names : List Text) :
    (Text.distinct names).length = names.toFinset.card := by
  rw [← List.toFinset_card_of_nodup (Text.nodup_distinct names)]
  congr 1
  ext n
  simp

/-- Among the different names a name stands at its rank. -/
theorem idxOf_distinct (hn : n ∈ names) : (Text.distinct names).idxOf n = rank names n := by
  induction names using List.reverseRecOn with
  | nil => cases hn
  | append_singleton names a ih =>
    rw [distinct_concat]
    by_cases hmem : n ∈ names
    · -- an old name has its rank from before, whether or not the last name is new
      have hrank : rank (names ++ [a]) n = rank names n := by
        rw [rank, rank, List.idxOf_append_of_mem hmem,
          List.take_append_of_le_length List.idxOf_le_length]
      rw [hrank, ← ih hmem]
      by_cases ha : a ∈ names
      · rw [if_pos ha]
      · rw [if_neg ha, List.idxOf_append_of_mem (Text.mem_distinct.2 hmem)]
    · -- a new name comes after all the others
      obtain rfl : n = a := by simpa [hmem] using hn
      have hrank : rank (names ++ [n]) n = names.toFinset.card := by
        rw [rank, List.idxOf_append_of_notMem hmem, List.idxOf_cons_self, Nat.add_zero,
          List.take_left]
      rw [if_neg hmem, List.idxOf_append_of_notMem (mt Text.mem_distinct.1 hmem),
        List.idxOf_cons_self, Nat.add_zero, hrank, length_distinct]

/-- The different names are listed by rank. -/
theorem pairwise_distinct (names : List Text) :
    (Text.distinct names).Pairwise fun n n' => rank names n < rank names n' := by
  rw [List.pairwise_iff_getElem]
  intro i j hi hj hij
  have hnodup := Text.nodup_distinct names
  rw [← idxOf_distinct (Text.mem_distinct.1 (List.getElem_mem hi)),
    ← idxOf_distinct (Text.mem_distinct.1 (List.getElem_mem hj)),
    hnodup.idxOf_getElem, hnodup.idxOf_getElem]
  exact hij

end

/-! ### The bits of keys -/

/-- The bits of keys: each of the different keys with the bit at its rank. -/
theorem ofNames_eq_map (keys : List Text) :
    ofNames keys = (Text.distinct keys).map fun n => (n, bitAt (rank keys n)) := by
  refine List.ext_getElem (by simp [ofNames]) fun i hi hi' => ?_
  rw [List.length_map] at hi'
  have hrank : rank keys (Text.distinct keys)[i] = i := by
    rw [← idxOf_distinct (Text.mem_distinct.1 (List.getElem_mem hi')),
      (Text.nodup_distinct keys).idxOf_getElem]
  rw [List.getElem_map, hrank]
  exact List.getElem_mapIdx

/-- What a name stands for among names with values of their own. -/
theorem get?_map (names : List Text) (f : Text → Mask) (n : Text) :
    Dict.get? (names.map fun k => (k, f k)) n = if n ∈ names then some (f n) else none := by
  induction names with
  | nil => rfl
  | cons k r ih =>
    rw [List.map_cons, Dict.get?]
    by_cases hk : k = n
    · simp [hk]
    · have hn : ¬ n = k := fun e => hk e.symm
      rw [if_neg hk, ih]
      simp [hn]

theorem get?_ofNames (keys : List Text) (n : Text) :
    (ofNames keys).get? n = if n ∈ keys then some (bitAt (rank keys n)) else none := by
  rw [ofNames_eq_map, get?_map]
  simp only [Text.mem_distinct]

/-- The bit of a name by its rank. -/
theorem bit_ofNames (keys : List Text) (n : Text) :
    (ofNames keys).bit n = if n ∈ keys then bitAt (rank keys n) else 0 := by
  rw [bit, get?_ofNames]
  split <;> rfl

/-! ### The bits of masks -/

/-- Whether a mask has the bit of a place. -/
def HasPlace (m : Mask) (i : Nat) : Prop := m.toNat.testBit i = true

theorem hasPlace_or {m m' : Mask} {i : Nat} :
    HasPlace (m ||| m') i ↔ HasPlace m i ∨ HasPlace m' i := by
  rw [HasPlace, UInt32.toNat_or, Nat.testBit_or, Bool.or_eq_true]
  rfl

theorem hasPlace_and {m m' : Mask} {i : Nat} :
    HasPlace (m &&& m') i ↔ HasPlace m i ∧ HasPlace m' i := by
  rw [HasPlace, UInt32.toNat_and, Nat.testBit_and, Bool.and_eq_true]
  rfl

theorem not_hasPlace_zero (i : Nat) : ¬ HasPlace 0 i := by
  simp [HasPlace]

/-- A mask that is not zero has some place. -/
theorem ne_zero_iff {m : Mask} : m ≠ 0 ↔ ∃ i, HasPlace m i := by
  constructor
  · intro h
    exact Nat.exists_testBit_of_ne_zero fun hzero => h (UInt32.toNat_inj.1 hzero)
  · rintro ⟨i, hi⟩ rfl
    exact not_hasPlace_zero i hi

/-- The bit at a place below thirty-one is that power of two. -/
theorem toNat_bitAt {i : Nat} (hi : i < maxKeys) : (bitAt i).toNat = 2 ^ i := by
  have hsmall : i < 32 := Nat.lt_succ_of_lt hi
  rw [bitAt, if_pos hi, UInt32.toNat_shiftLeft, UInt32.toNat_ofNat',
    Nat.mod_eq_of_lt (hsmall.trans (by decide)), Nat.mod_eq_of_lt hsmall, Nat.shiftLeft_eq,
    show (1 : UInt32).toNat = 1 from rfl, Nat.one_mul]
  exact Nat.mod_eq_of_lt (Nat.pow_lt_pow_right (by decide) hsmall)

/-- The bit at a place below thirty-one has that place alone; later places have none. -/
theorem hasPlace_bitAt {i j : Nat} : HasPlace (bitAt i) j ↔ i < maxKeys ∧ i = j := by
  by_cases hi : i < maxKeys
  · rw [HasPlace, toNat_bitAt hi, Nat.testBit_two_pow, decide_eq_true_iff]
    exact (and_iff_right hi).symm
  · rw [bitAt, if_neg hi]
    exact iff_of_false (not_hasPlace_zero j) fun h => hi h.1

/-- A mask has the places of its names. -/
theorem hasPlace_mask {bits : Bits} {names : List Text} {i : Nat} :
    HasPlace (bits.mask names) i ↔ ∃ n ∈ names, HasPlace (bits.bit n) i := by
  have hfold : ∀ m : Mask, HasPlace (names.foldl (fun m n => m ||| bits.bit n) m) i ↔
      HasPlace m i ∨ ∃ n ∈ names, HasPlace (bits.bit n) i := by
    induction names with
    | nil => simp
    | cons a r ih =>
      intro m
      rw [List.foldl_cons, ih, hasPlace_or, List.exists_mem_cons_iff, or_assoc]
  rw [mask, hfold]
  exact or_iff_right (not_hasPlace_zero i)

/-! ### Masks of keys -/

/-- A key has a place if its rank is below thirty-one. -/
def Placed (keys : List Text) (n : Text) : Prop := n ∈ keys ∧ rank keys n < maxKeys

theorem hasPlace_bit_ofNames {keys : List Text} {n : Text} {i : Nat} :
    HasPlace ((ofNames keys).bit n) i ↔ Placed keys n ∧ rank keys n = i := by
  rw [bit_ofNames]
  by_cases hn : n ∈ keys
  · rw [if_pos hn, hasPlace_bitAt, Placed, and_iff_right hn]
  · rw [if_neg hn]
    exact iff_of_false (not_hasPlace_zero i) fun h => hn h.1.1

/-- Masks meet where their names share a key that has a place. -/
theorem mask_and_mask_ne_zero {keys xs ys : List Text} :
    (ofNames keys).mask xs &&& (ofNames keys).mask ys ≠ 0 ↔
      ∃ n, n ∈ xs ∧ n ∈ ys ∧ Placed keys n := by
  rw [ne_zero_iff]
  simp only [hasPlace_and, hasPlace_mask, hasPlace_bit_ofNames]
  constructor
  · rintro ⟨i, ⟨n, hx, hn, rfl⟩, n', hy, hn', hrank⟩
    obtain rfl := rank_inj hn'.1 hn.1 hrank
    exact ⟨n', hx, hy, hn'⟩
  · rintro ⟨n, hx, hy, hn⟩
    exact ⟨rank keys n, ⟨n, hx, hn, rfl⟩, n, hy, hn, rfl⟩

/-- Joined names have joined masks. -/
theorem mask_append_eq_or (bits : Bits) (xs ys : List Text) :
    bits.mask (xs ++ ys) = bits.mask xs ||| bits.mask ys := by
  refine UInt32.toNat_inj.1 (Nat.eq_of_testBit_eq fun i => Bool.eq_iff_iff.2 ?_)
  show HasPlace _ i ↔ HasPlace _ i
  simp only [hasPlace_or, hasPlace_mask, List.mem_append, or_and_right, exists_or]

/-- Keys that have a place have bits in the order of their ranks. -/
theorem bit_le_bit {keys : List Text} {n n' : Text} (hn : n ∈ keys) (hn' : n' ∈ keys)
    (hplace : rank keys n' < maxKeys) (h : rank keys n < rank keys n') :
    (ofNames keys).bit n ≤ (ofNames keys).bit n' := by
  rw [bit_ofNames, bit_ofNames, if_pos hn, if_pos hn', UInt32.le_iff_toNat_le,
    toNat_bitAt (h.trans hplace), toNat_bitAt hplace]
  exact Nat.pow_le_pow_right (by decide) h.le

/-- The keys of a mask are those of its names that have a place, in the order of the keys. -/
theorem names_mask (keys xs : List Text) :
    (ofNames keys).names ((ofNames keys).mask xs) =
      (Text.distinct keys).filter fun n => n ∈ xs ∧ rank keys n < maxKeys := by
  have htest : ∀ n ∈ Text.distinct keys,
      (bitAt (rank keys n) != 0 && (ofNames keys).mask xs &&& bitAt (rank keys n) != 0) =
        decide (n ∈ xs ∧ rank keys n < maxKeys) := by
    intro n hn
    rw [Text.mem_distinct] at hn
    have hself : bitAt (rank keys n) = (ofNames keys).mask [n] := by
      rw [mask, List.foldl_cons, List.foldl_nil, UInt32.zero_or, bit_ofNames, if_pos hn]
    rw [Bool.eq_iff_iff, Bool.and_eq_true, bne_iff_ne, bne_iff_ne, decide_eq_true_iff]
    constructor
    · rintro ⟨-, hmeet⟩
      rw [hself] at hmeet
      obtain ⟨n', hx, hy, hplaced⟩ := mask_and_mask_ne_zero.1 hmeet
      obtain rfl := List.mem_singleton.1 hy
      exact ⟨hx, hplaced.2⟩
    · rintro ⟨hx, hrank⟩
      refine ⟨ne_zero_iff.2 ⟨_, hasPlace_bitAt.2 ⟨hrank, rfl⟩⟩, ?_⟩
      rw [hself]
      exact mask_and_mask_ne_zero.2 ⟨n, hx, List.mem_singleton_self n, hn, hrank⟩
  have hkept : ((ofNames keys).filter fun p => p.2 != 0 && (ofNames keys).mask xs &&& p.2 != 0).map
      Prod.fst = (Text.distinct keys).filter fun n => n ∈ xs ∧ rank keys n < maxKeys := by
    rw [← List.filter_congr htest]
    conv_lhs => arg 2; arg 2; rw [ofNames_eq_map keys]
    rw [List.filter_map, List.map_map]
    exact List.map_id _
  rw [names, hkept]
  -- the different names come by rank already
  refine List.mergeSort_of_pairwise (((pairwise_distinct keys).filter _).imp_of_mem ?_)
  intro n n' hn hn' hrank
  rw [List.mem_filter, Text.mem_distinct, decide_eq_true_iff] at hn hn'
  exact decide_eq_true (bit_le_bit hn.1 hn'.1 hn'.2.2 hrank)

/-- **Masks stand for sets of keys.**  The names of a list, repetitions aside, have bits of their own in
the order of their first places up to the thirty-first, and none from there on.  Masks meet exactly where
their names share one of the first thirty-one, joined names have joined masks, and the keys of a mask are
exactly those of its names among the first thirty-one, in the order of the keys. -/
theorem ofNames_faithful (keys : List Text) :
    (∀ n ∈ keys, (ofNames keys).get? n =
      some (if rank keys n < 31 then 1 <<< UInt32.ofNat (rank keys n) else 0)) ∧
    (∀ n ∈ keys, ∀ n' ∈ keys,
      (rank keys n = rank keys n' → n = n') ∧
      (rank keys n < rank keys n' ↔ keys.idxOf n < keys.idxOf n')) ∧
    (∀ n ∉ keys, (ofNames keys).get? n = none) ∧
    (∀ xs ys, (ofNames keys).mask xs &&& (ofNames keys).mask ys ≠ 0 ↔
      ∃ n ∈ keys, rank keys n < 31 ∧ n ∈ xs ∧ n ∈ ys) ∧
    (∀ xs ys, (ofNames keys).mask (xs ++ ys) = (ofNames keys).mask xs ||| (ofNames keys).mask ys) ∧
    (∀ xs, (∀ n, n ∈ (ofNames keys).names ((ofNames keys).mask xs) ↔
        n ∈ keys ∧ rank keys n < 31 ∧ n ∈ xs) ∧
      ((ofNames keys).names ((ofNames keys).mask xs)).Pairwise
        fun n n' => rank keys n < rank keys n') := by
  refine ⟨fun n hn => ?_, fun n hn n' hn' => ⟨rank_inj hn hn', rank_lt_rank_iff hn hn'⟩,
    fun n hn => ?_, fun xs ys => ?_, mask_append_eq_or _, fun xs => ⟨fun n => ?_, ?_⟩⟩
  · rw [get?_ofNames, if_pos hn]
    rfl
  · rw [get?_ofNames, if_neg hn]
  · rw [mask_and_mask_ne_zero]
    constructor
    · rintro ⟨n, hx, hy, hn, hrank⟩
      exact ⟨n, hn, hrank, hx, hy⟩
    · rintro ⟨n, hn, hrank, hx, hy⟩
      exact ⟨n, hx, hy, hn, hrank⟩
  · rw [names_mask, List.mem_filter, Text.mem_distinct, decide_eq_true_iff, and_comm (a := n ∈ xs)]
    rfl
  · rw [names_mask]
    exact (pairwise_distinct keys).filter _

end Bits

end Reactive
