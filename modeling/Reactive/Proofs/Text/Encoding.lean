/-
Code points and the bytes that encode them.

A byte that starts no encoding is read as the replacement character and takes
that one byte; every other code point is read from its encoding, and is
written as the same bytes again.

* `Text.ofCodePoint_piece` — the bytes of a code point of a text.
-/
import Reactive.Proofs.Text.Pieces

namespace Reactive.Text

/-- A byte that starts no encoding. -/
def Stray (p : Nat × Text) : Prop := p.1 = replacement ∧ p.2.length = 1

instance (p : Nat × Text) : Decidable (Stray p) := inferInstanceAs (Decidable (_ ∧ _))

theorem not_stray_of_isWellFormed {t : Text} (ht : isWellFormed t = true) {p : Nat × Text}
    (hp : p ∈ pieces t) : ¬ Stray p := by
  rintro ⟨hcode, hone⟩
  have h := List.all_eq_true.1 ht p hp
  simp [hcode, hone] at h

theorem ofCodePoint_two {a b : Nat} (ha : 0xC2 ≤ a ∧ a < 0xE0) (hb : 0x80 ≤ b ∧ b ≤ 0xBF) :
    ofCodePoint ((a - 0xC0) * 64 + (b - 0x80)) = [UInt8.ofNat a, UInt8.ofNat b] := by
  generalize hc : (a - 0xC0) * 64 + (b - 0x80) = c
  have hlead : 0xC0 + c / 64 = a := by omega
  have htail : 0x80 + c % 64 = b := by omega
  rw [ofCodePoint, if_neg (by omega), if_pos (by omega), hlead, htail]

theorem ofCodePoint_three {a b d : Nat} (ha : 0xE0 ≤ a ∧ a < 0xF0)
    (hb : (if a = 0xE0 then 0xA0 else 0x80) ≤ b ∧ b ≤ if a = 0xED then 0x9F else 0xBF)
    (hd : 0x80 ≤ d ∧ d ≤ 0xBF) :
    ofCodePoint ((a - 0xE0) * 4096 + (b - 0x80) * 64 + (d - 0x80)) =
      [UInt8.ofNat a, UInt8.ofNat b, UInt8.ofNat d] := by
  generalize hc : (a - 0xE0) * 4096 + (b - 0x80) * 64 + (d - 0x80) = c
  have hrange : 0x80 ≤ b ∧ b ≤ 0xBF := by
    obtain ⟨hlow, hhigh⟩ := hb
    split at hlow <;> split at hhigh <;> omega
  have hscalar : isScalar c = true := by
    obtain ⟨hlow, hhigh⟩ := hb
    rw [isScalar, Bool.or_eq_true, decide_eq_true_eq, Bool.and_eq_true, decide_eq_true_eq,
      decide_eq_true_eq]
    split at hhigh <;> omega
  have hlarge : 0x800 ≤ c := by
    obtain ⟨hlow, hhigh⟩ := hb
    split at hlow <;> omega
  have hlead : 0xE0 + c / 4096 = a := by omega
  have hnext : 0x80 + c / 64 % 64 = b := by omega
  have hlast : 0x80 + c % 64 = d := by omega
  rw [ofCodePoint, if_neg (by omega), if_neg (by omega), if_neg (by simp [hscalar]),
    if_pos (by omega), hlead, hnext, hlast]

theorem ofCodePoint_four {a b d e : Nat} (ha : 0xF0 ≤ a ∧ a < 0xF5)
    (hb : (if a = 0xF0 then 0x90 else 0x80) ≤ b ∧ b ≤ if a = 0xF4 then 0x8F else 0xBF)
    (hd : 0x80 ≤ d ∧ d ≤ 0xBF) (he : 0x80 ≤ e ∧ e ≤ 0xBF) :
    ofCodePoint ((a - 0xF0) * 262144 + (b - 0x80) * 4096 + (d - 0x80) * 64 + (e - 0x80)) =
      [UInt8.ofNat a, UInt8.ofNat b, UInt8.ofNat d, UInt8.ofNat e] := by
  generalize hc : (a - 0xF0) * 262144 + (b - 0x80) * 4096 + (d - 0x80) * 64 + (e - 0x80) = c
  have hrange : 0x80 ≤ b ∧ b ≤ 0xBF := by
    obtain ⟨hlow, hhigh⟩ := hb
    split at hlow <;> split at hhigh <;> omega
  have hlarge : 0x10000 ≤ c := by
    obtain ⟨hlow, hhigh⟩ := hb
    split at hlow <;> omega
  have hscalar : isScalar c = true := by
    obtain ⟨hlow, hhigh⟩ := hb
    rw [isScalar, Bool.or_eq_true, decide_eq_true_eq, Bool.and_eq_true, decide_eq_true_eq,
      decide_eq_true_eq]
    split at hhigh <;> omega
  have hlead : 0xF0 + c / 262144 = a := by omega
  have hnext : 0x80 + c / 4096 % 64 = b := by omega
  have hthird : 0x80 + c / 64 % 64 = d := by omega
  have hlast : 0x80 + c % 64 = e := by omega
  rw [ofCodePoint, if_neg (by omega), if_neg (by omega), if_neg (by simp [hscalar]),
    if_neg (by omega), hlead, hnext, hthird, hlast]

theorem isTail_bounds {b : UInt8} (h : (0x80 ≤ b && b ≤ 0xBF) = true) :
    0x80 ≤ b.toNat ∧ b.toNat ≤ 0xBF := by
  rw [Bool.and_eq_true, decide_eq_true_eq, decide_eq_true_eq, UInt8.le_iff_toNat_le,
    UInt8.le_iff_toNat_le] at h
  exact h

/-- A byte between bounds that depend on one value each of the lead byte. -/
theorem next_bounds {a b k m x y u v : UInt8}
    (h : (decide ((if (a == k) = true then x else y) ≤ b) &&
      decide (b ≤ if (a == m) = true then u else v)) = true) :
    (if a.toNat = k.toNat then x.toNat else y.toNat) ≤ b.toNat ∧
      b.toNat ≤ if a.toNat = m.toNat then u.toNat else v.toNat := by
  have hite (k x y : UInt8) : (if (a == k) = true then x else y).toNat =
      if a.toNat = k.toNat then x.toNat else y.toNat := by
    simp only [beq_iff_eq, ← UInt8.toNat_inj]
    split <;> rfl
  rw [Bool.and_eq_true, decide_eq_true_eq, decide_eq_true_eq, UInt8.le_iff_toNat_le,
    UInt8.le_iff_toNat_le, hite, hite] at h
  exact h

theorem stray_replacement (a : UInt8) : Stray (replacement, [a]) := ⟨rfl, rfl⟩

/-- A code point that is read from its encoding is written as the same bytes. -/
theorem ofCodePoint_decode {a : UInt8} {t : Text}
    (h : ¬ Stray ((decode a t).1, a :: t.take (decode a t).2)) :
    ofCodePoint (decode a t).1 = a :: t.take (decode a t).2 := by
  by_cases h₁ : a < 0x80
  · rw [decode_ascii h₁]
    have hsmall : a.toNat < 0x80 := UInt8.lt_iff_toNat_lt.1 h₁
    show ofCodePoint a.toNat = [a]
    rw [ofCodePoint, if_pos hsmall, UInt8.ofNat_toNat]
  unfold decode at h ⊢
  rw [if_neg h₁] at h ⊢
  by_cases h₂ : a < 0xC2
  · rw [if_pos h₂] at h
    exact absurd (stray_replacement a) h
  rw [if_neg h₂] at h ⊢
  replace h₂ : 0xC2 ≤ a.toNat := Nat.not_lt.1 fun h => h₂ (UInt8.lt_iff_toNat_lt.2 h)
  -- The lead byte tells how many bytes follow it.
  by_cases h₃ : a < 0xE0
  · rw [if_pos h₃] at h ⊢
    match t, h with
    | [], h => exact absurd (stray_replacement a) h
    | b :: r, h =>
      simp only at h ⊢
      split at h
      · rename_i hb
        rw [if_pos hb]
        simpa using ofCodePoint_two ⟨h₂, UInt8.lt_iff_toNat_lt.1 h₃⟩ (isTail_bounds hb)
      · exact absurd (stray_replacement a) h
  rw [if_neg h₃] at h ⊢
  have hlead : 0xE0 ≤ a.toNat := Nat.not_lt.1 fun h => h₃ (UInt8.lt_iff_toNat_lt.2 h)
  by_cases h₄ : a < 0xF0
  · rw [if_pos h₄] at h ⊢
    match t, h with
    | [], h => exact absurd (stray_replacement a) h
    | [_], h => exact absurd (stray_replacement a) h
    | b :: d :: r, h =>
      simp only at h ⊢
      generalize hlow : (if (a == 0xE0) = true then (0xA0 : UInt8) else 0x80) = low at h ⊢
      generalize hhigh : (if (a == 0xED) = true then (0x9F : UInt8) else 0xBF) = high at h ⊢
      split at h
      · rename_i hb
        rw [if_pos hb]
        rw [Bool.and_eq_true, ← hlow, ← hhigh] at hb
        simpa using ofCodePoint_three ⟨hlead, UInt8.lt_iff_toNat_lt.1 h₄⟩ (next_bounds hb.1)
          (isTail_bounds hb.2)
      · exact absurd (stray_replacement a) h
  rw [if_neg h₄] at h ⊢
  replace hlead : 0xF0 ≤ a.toNat := Nat.not_lt.1 fun h => h₄ (UInt8.lt_iff_toNat_lt.2 h)
  by_cases h₅ : a < 0xF5
  · rw [if_pos h₅] at h ⊢
    match t, h with
    | [], h => exact absurd (stray_replacement a) h
    | [_], h => exact absurd (stray_replacement a) h
    | [_, _], h => exact absurd (stray_replacement a) h
    | b :: d :: e :: r, h =>
      simp only at h ⊢
      generalize hlow : (if (a == 0xF0) = true then (0x90 : UInt8) else 0x80) = low at h ⊢
      generalize hhigh : (if (a == 0xF4) = true then (0x8F : UInt8) else 0xBF) = high at h ⊢
      split at h
      · rename_i hb
        rw [if_pos hb]
        rw [Bool.and_eq_true, Bool.and_eq_true, ← hlow, ← hhigh] at hb
        simpa using ofCodePoint_four ⟨hlead, UInt8.lt_iff_toNat_lt.1 h₅⟩ (next_bounds hb.1.1)
          (isTail_bounds hb.1.2) (isTail_bounds hb.2)
      · exact absurd (stray_replacement a) h
  · rw [if_neg h₅] at h
    exact absurd (stray_replacement a) h

theorem ofCodePoint_piece {t : Text} {p : Nat × Text} (hp : p ∈ pieces t) (h : ¬ Stray p) :
    ofCodePoint p.1 = p.2 := by
  fun_induction pieces t with
  | case1 => cases hp
  | case2 a t r ih =>
    rcases List.mem_cons.1 hp with rfl | hp
    · exact ofCodePoint_decode h
    · exact ih hp

end Reactive.Text
