/-
Code points of texts put together.

A code point is read from its own bytes: what follows them does not matter,
unless they are a lead byte without its continuation bytes.  So a text whose
code points are all well-formed keeps them in every longer text.

* `Text.decode_cases` — what a code point is read from;
* `Text.pieces_append` — the code points of two texts after one another;
* `Text.pieces_flatMap` — code points cut off a text stay as they are.
-/
import Reactive.Text.CodePoint

namespace Reactive.Text

theorem isTail_le {b : UInt8} (h : (0x80 ≤ b && b ≤ 0xBF) = true) : 0x80 ≤ b := by
  rw [Bool.and_eq_true, decide_eq_true_eq, decide_eq_true_eq] at h
  exact h.1

/-- A code point is an ASCII byte, a byte that encodes nothing, or some bytes outside ASCII that
are read the same whatever follows them. -/
theorem decode_cases (a : UInt8) (t : Text) :
    (a < 0x80 ∧ ∀ u, decode a u = (a.toNat, 0)) ∨
    (0x80 ≤ a ∧ decode a t = (replacement, 0)) ∨
    (0x80 ≤ a ∧ (decode a t).2 ≤ t.length ∧ (∀ b ∈ t.take (decode a t).2, 0x80 ≤ b) ∧
      ∀ u, decode a (t.take (decode a t).2 ++ u) = decode a t) := by
  by_cases h₁ : a < 0x80
  · refine .inl ⟨h₁, fun u => ?_⟩
    unfold decode
    rw [if_pos h₁]
  have ha : 0x80 ≤ a := by simpa using h₁
  refine .inr ?_
  by_cases h₂ : decode a t = (replacement, 0)
  · exact .inl ⟨ha, h₂⟩
  refine .inr ⟨ha, ?_⟩
  unfold decode at h₂ ⊢
  rw [if_neg h₁] at h₂
  simp only [if_neg h₁]
  by_cases h₃ : a < 0xC2
  · rw [if_pos h₃] at h₂
    exact absurd rfl h₂
  rw [if_neg h₃] at h₂
  simp only [if_neg h₃]
  -- The lead byte tells how many bytes follow it.
  by_cases h₄ : a < 0xE0
  · rw [if_pos h₄] at h₂
    simp only [if_pos h₄]
    match t, h₂ with
    | [], h₂ => exact absurd rfl h₂
    | b :: r, h₂ =>
      simp only at h₂ ⊢
      split at h₂
      · rename_i hb
        simp [if_pos hb, isTail_le hb]
      · exact absurd rfl h₂
  rw [if_neg h₄] at h₂
  simp only [if_neg h₄]
  by_cases h₅ : a < 0xF0
  · rw [if_pos h₅] at h₂
    simp only [if_pos h₅]
    match t, h₂ with
    | [], h₂ => exact absurd rfl h₂
    | [_], h₂ => exact absurd rfl h₂
    | b :: c :: r, h₂ =>
      simp only at h₂ ⊢
      generalize hlow : (if (a == 0xE0) = true then (0xA0 : UInt8) else 0x80) = low at h₂ ⊢
      generalize (if (a == 0xED) = true then (0x9F : UInt8) else 0xBF) = high at h₂ ⊢
      have hle : 0x80 ≤ low := by rw [← hlow]; split <;> decide
      split at h₂
      · rename_i hb
        have hbytes := hb
        rw [Bool.and_eq_true, Bool.and_eq_true, decide_eq_true_eq] at hbytes
        simp only [if_pos hb, List.take_succ_cons, List.take_zero, List.cons_append]
        simp [UInt8.le_trans hle hbytes.1.1, isTail_le hbytes.2]
      · exact absurd rfl h₂
  rw [if_neg h₅] at h₂
  simp only [if_neg h₅]
  by_cases h₆ : a < 0xF5
  · rw [if_pos h₆] at h₂
    simp only [if_pos h₆]
    match t, h₂ with
    | [], h₂ => exact absurd rfl h₂
    | [_], h₂ => exact absurd rfl h₂
    | [_, _], h₂ => exact absurd rfl h₂
    | b :: c :: d :: r, h₂ =>
      simp only at h₂ ⊢
      generalize hlow : (if (a == 0xF0) = true then (0x90 : UInt8) else 0x80) = low at h₂ ⊢
      generalize (if (a == 0xF4) = true then (0x8F : UInt8) else 0xBF) = high at h₂ ⊢
      have hle : 0x80 ≤ low := by rw [← hlow]; split <;> decide
      split at h₂
      · rename_i hb
        have hbytes := hb
        rw [Bool.and_eq_true, Bool.and_eq_true, Bool.and_eq_true, decide_eq_true_eq] at hbytes
        simp only [if_pos hb, List.take_succ_cons, List.take_zero, List.cons_append]
        simp [UInt8.le_trans hle hbytes.1.1.1, isTail_le hbytes.1.2, isTail_le hbytes.2]
      · exact absurd rfl h₂
  · rw [if_neg h₆] at h₂
    exact absurd rfl h₂

theorem decode_ascii {b : UInt8} (hb : b < 0x80) (t : Text) : decode b t = (b.toNat, 0) := by
  unfold decode
  rw [if_pos hb]

@[simp] theorem pieces_nil : pieces [] = [] := by rw [pieces]

/-- The bytes of a code point: one ASCII byte, or bytes outside ASCII. -/
theorem mem_pieces {t : Text} {p : Nat × Text} (h : p ∈ pieces t) :
    (∃ b, b < 0x80 ∧ p = (b.toNat, [b])) ∨ ∀ b ∈ p.2, 0x80 ≤ b := by
  fun_induction pieces t with
  | case1 => cases h
  | case2 a t r ih =>
    rcases List.mem_cons.1 h with rfl | h
    · rcases decode_cases a t with ⟨ha, hd⟩ | ⟨ha, hd⟩ | ⟨ha, -, hbytes, -⟩
      · refine .inl ⟨a, ha, ?_⟩
        simp [r, hd]
      · refine .inr ?_
        simp [r, hd, ha]
      · refine .inr fun b hb => ?_
        rcases List.mem_cons.1 hb with rfl | hb
        · exact ha
        · exact hbytes b hb
    · exact ih h

/-- A byte of ASCII is a code point wherever it stands. -/
theorem mem_pieces_of_ascii {t : Text} {b : UInt8} (hb : b ∈ t) (hascii : b < 0x80) :
    (b.toNat, [b]) ∈ pieces t := by
  rw [← flatten_pieces t, List.mem_flatMap] at hb
  obtain ⟨p, hp, hb⟩ := hb
  obtain ⟨a, -, rfl⟩ | hbytes := mem_pieces hp
  · rw [List.mem_singleton.1 hb]
    exact hp
  · exact absurd (hbytes b hb) (UInt8.not_le.2 hascii)

theorem ne_nil_of_mem_pieces {t : Text} {p : Nat × Text} (h : p ∈ pieces t) : p.2 ≠ [] := by
  fun_induction pieces t with
  | case1 => cases h
  | case2 a t r ih =>
    rcases List.mem_cons.1 h with rfl | h
    · exact List.cons_ne_nil _ _
    · exact ih h

/-- The code points of a text followed by another, if none of the first stands for bytes that
encode nothing. -/
theorem pieces_append {t : Text} (h : ∀ p ∈ pieces t, p.1 ≠ replacement) (u : Text) :
    pieces (t ++ u) = pieces t ++ pieces u := by
  fun_induction pieces t with
  | case1 => rfl
  | case2 a t r ih =>
    have hrest : pieces (t.drop r.2 ++ u) = pieces (t.drop r.2) ++ pieces u :=
      ih fun p hp => h p (List.mem_cons_of_mem _ hp)
    rw [List.cons_append, pieces, List.cons_append, ← hrest]
    rcases decode_cases a t with ⟨-, hd⟩ | ⟨-, hd⟩ | ⟨-, hlen, -, hd⟩
    · simp [r, hd]
    · exact absurd (congrArg Prod.fst hd) (h _ List.mem_cons_self)
    · have hd' := hd (t.drop (decode a t).2 ++ u)
      rw [← List.append_assoc, List.take_append_drop] at hd'
      simp only [hd', r, List.take_append_of_le_length hlen, List.drop_append_of_le_length hlen]

/-- The first code points of a text, put together, are read the same. -/
theorem pieces_flatMap {t : Text} {l r : List (Nat × Text)} (ht : pieces t = l ++ r)
    (h : ∀ p ∈ l, p.1 ≠ replacement) : pieces (l.flatMap Prod.snd) = l := by
  induction l generalizing t with
  | nil => simp
  | cons p l ih =>
    cases t with
    | nil => simp at ht
    | cons a t =>
      rw [pieces] at ht
      have hp : p = ((decode a t).1, a :: t.take (decode a t).2) := (List.cons.inj ht).1.symm
      have hl := ih (List.cons.inj ht).2 fun q hq => h q (List.mem_cons_of_mem _ hq)
      have hne : p.1 ≠ replacement := h p List.mem_cons_self
      rw [hp] at hne
      rw [List.flatMap_cons, hp, List.cons_append, pieces]
      rcases decode_cases a t with ⟨-, hd⟩ | ⟨-, hd⟩ | ⟨-, hlen, -, hd⟩
      · simp [hd, hl]
      · exact absurd (congrArg Prod.fst hd) hne
      · have hsize : (t.take (decode a t).2).length = (decode a t).2 := List.length_take_of_le hlen
        simp only [hd, List.take_left' hsize, List.drop_left' hsize, hl]

end Reactive.Text
