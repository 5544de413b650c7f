/-
The words of texts put together.

A blank of ASCII ends every code point before it, even one that is cut short, so
the words of two texts with a blank between them are those of the one and those
of the other.

* `Text.fields_join` — the words of texts joined with blanks;
* `Text.fields_of_mem` — a word has itself as its only word.
-/
import Reactive.Proofs.Text.Pieces
import Reactive.Text.CodePoint

namespace Reactive.Text

/-! ### Code points of parts -/

/-- What is read of a code point that takes bytes from `s` alone does not depend on the bytes after
`s`. -/
theorem decode_append {a : UInt8} {s : Text} (t : Text) (h : (decode a (s ++ t)).2 ≤ s.length) :
    decode a (s ++ t) = decode a s := by
  rcases decode_cases a (s ++ t) with ⟨-, hd⟩ | ⟨ha, hd⟩ | ⟨-, -, -, hd⟩
  · rw [hd, hd]
  · -- The bytes of `s` alone encode nothing either: what they encode they encode in any text.
    rcases decode_cases a s with ⟨hlt, -⟩ | ⟨-, hd'⟩ | ⟨-, -, -, hd'⟩
    · exact absurd hlt (UInt8.not_lt.2 ha)
    · rw [hd, hd']
    · have hsame := hd' (s.drop (decode a s).2 ++ t)
      rw [← List.append_assoc, List.take_append_drop] at hsame
      exact hsame
  · have hsame := hd (s.drop (decode a (s ++ t)).2)
    rw [List.take_append_of_le_length h, List.take_append_drop] at hsame
    exact hsame.symm

theorem decode_le_length (a : UInt8) (t : Text) : (decode a t).2 ≤ t.length := by
  rcases decode_cases a t with ⟨-, hd⟩ | ⟨-, hd⟩ | ⟨-, hlen, -⟩
  · simp [hd]
  · simp [hd]
  · exact hlen

/-- No code point goes on beyond a byte of ASCII. -/
theorem decode_append_ascii {b : UInt8} (hb : b < 0x80) (a : UInt8) (s t : Text) :
    decode a (s ++ b :: t) = decode a s := by
  refine decode_append _ ?_
  rcases decode_cases a (s ++ b :: t) with ⟨-, hd⟩ | ⟨-, hd⟩ | ⟨-, -, hbytes, -⟩
  · simp [hd]
  · simp [hd]
  · refine Nat.le_of_not_lt fun hlt => absurd (hbytes b ?_) (UInt8.not_le.2 hb)
    obtain ⟨k, hk⟩ : ∃ k, (decode a (s ++ b :: t)).2 = s.length + 1 + k :=
      ⟨_, (Nat.add_sub_cancel' hlt).symm⟩
    rw [hk, List.take_append, List.take_of_length_le (by omega)]
    have htake : s.length + 1 + k - s.length = k + 1 := by omega
    rw [htake, List.take_succ_cons]
    exact List.mem_append_right _ List.mem_cons_self

/-- The code points of two texts with a byte of ASCII between them. -/
theorem pieces_append_ascii {b : UInt8} (hb : b < 0x80) (s t : Text) :
    pieces (s ++ b :: t) = pieces s ++ (b.toNat, [b]) :: pieces t := by
  fun_induction pieces s with
  | case1 => rw [List.nil_append, pieces, decode_ascii hb]; rfl
  | case2 a s r ih =>
    have hle : r.2 ≤ s.length := decode_le_length a s
    rw [List.cons_append, pieces, decode_append_ascii hb, List.cons_append]
    simp only [r, List.take_append_of_le_length hle, List.drop_append_of_le_length hle] at ih ⊢
    rw [ih]

/-- The first code points of a text are those of the bytes they take. -/
theorem pieces_of_append {t : Text} {l r : List (Nat × Text)} (h : pieces t = l ++ r) :
    pieces (l.flatMap Prod.snd) = l ∧ pieces (r.flatMap Prod.snd) = r := by
  induction l generalizing t with
  | nil =>
    have htext := flatten_pieces t
    rw [h] at htext
    exact ⟨pieces_nil, htext ▸ h⟩
  | cons p l ih =>
    cases t with
    | nil => simp at h
    | cons a t =>
      rw [pieces] at h
      obtain ⟨hp, hrest⟩ := List.cons.inj h
      obtain ⟨hl, hr⟩ := ih hrest
      refine ⟨?_, hr⟩
      have hle := decode_le_length a t
      have hsize : (t.take (decode a t).2).length = (decode a t).2 := List.length_take_of_le hle
      -- The bytes after this code point are those of the others, in `l` and then in `r`.
      have hafter : t.drop (decode a t).2 = l.flatMap Prod.snd ++ r.flatMap Prod.snd := by
        rw [← List.flatMap_append, ← flatten_pieces (t.drop (decode a t).2), hrest]
        rfl
      have hread : decode a (t.take (decode a t).2 ++ l.flatMap Prod.snd) = decode a t := by
        have hwhole : t.take (decode a t).2 ++ l.flatMap Prod.snd ++ r.flatMap Prod.snd = t := by
          rw [List.append_assoc, ← hafter, List.take_append_drop]
        have hpart := decode_append (s := t.take (decode a t).2 ++ l.flatMap Prod.snd) (a := a)
          (r.flatMap Prod.snd) (by rw [hwhole, List.length_append, hsize]; omega)
        rw [hwhole] at hpart
        exact hpart.symm
      rw [List.flatMap_cons, ← hp, List.cons_append, pieces, hread, List.take_left' hsize,
        List.drop_left' hsize, hl]

/-! ### Words -/

theorem fieldsOf_append {c : Nat} (hc : isSpace c = true) (bytes : Text)
    (ps qs : List (Nat × Text)) (word : List Text) :
    fieldsOf word (ps ++ (c, bytes) :: qs) = fieldsOf word ps ++ fieldsOf [] qs := by
  induction ps generalizing word with
  | nil =>
    rw [List.nil_append, fieldsOf, fieldsOf, if_pos hc]
    split <;> rfl
  | cons p ps ih =>
    rw [List.cons_append, fieldsOf, fieldsOf]
    split
    · split
      · exact ih []
      · rw [ih [], List.cons_append]
    · exact ih (p.2 :: word)

/-- The words of two texts with a blank between them. -/
theorem fields_append_blank (s t : Text) : fields (s ++ 32 :: t) = fields s ++ fields t := by
  rw [fields, pieces_append_ascii (by decide), fieldsOf_append (by decide)]
  rfl

theorem fields_nil : fields [] = [] := by
  rw [fields, pieces_nil]
  rfl

/-- The words of texts joined with blanks. -/
theorem fields_join (ts : List Text) : fields (join " " ts) = ts.flatMap fields := by
  have hblank : (" " : Text) = [32] := by decide
  fun_induction join (" " : Text) ts with
  | case1 => exact fields_nil
  | case2 t => rw [List.flatMap_cons, List.flatMap_nil, List.append_nil]
  | case3 t u r ih =>
    rw [hblank] at ih ⊢
    rw [List.append_assoc, List.singleton_append, fields_append_blank, ih]
    rfl

/-- A word is made of code points that stand next to each other, none of which is a blank. -/
theorem mem_fieldsOf {u : Text} {word : List Text} {ps : List (Nat × Text)}
    (h : u ∈ fieldsOf word ps) :
    (∃ l r, ps = l ++ r ∧ (∀ p ∈ l, isSpace p.1 = false) ∧ (word ≠ [] ∨ l ≠ []) ∧
      u = word.reverse.flatten ++ l.flatMap Prod.snd) ∨
    ∃ l m r, ps = l ++ (m ++ r) ∧ (∀ p ∈ m, isSpace p.1 = false) ∧ m ≠ [] ∧
      u = m.flatMap Prod.snd := by
  induction ps generalizing word with
  | nil =>
    rw [fieldsOf] at h
    split at h
    · cases h
    · rename_i hword
      obtain rfl := List.mem_singleton.1 h
      exact .inl ⟨[], [], rfl, List.forall_mem_nil _, .inl (by simpa using hword), by simp⟩
  | cons p ps ih =>
    -- A word that starts further on is a word of the rest.
    have hlater : u ∈ fieldsOf [] ps → ∃ l m r, p :: ps = l ++ (m ++ r) ∧
        (∀ p ∈ m, isSpace p.1 = false) ∧ m ≠ [] ∧ u = m.flatMap Prod.snd := by
      intro hu
      obtain ⟨l, r, rfl, hl, hne, rfl⟩ | ⟨l, m, r, rfl, hm, hne, rfl⟩ := ih hu
      · exact ⟨[p], l, r, rfl, hl, hne.resolve_left fun hw => hw rfl, rfl⟩
      · exact ⟨p :: l, m, r, rfl, hm, hne, rfl⟩
    rw [fieldsOf] at h
    split at h
    · split at h
      · exact .inr (hlater h)
      · rename_i hword
        rcases List.mem_cons.1 h with rfl | h
        · exact .inl ⟨[], p :: ps, rfl, List.forall_mem_nil _, .inl (by simpa using hword), by simp⟩
        · exact .inr (hlater h)
    · rename_i hp
      obtain ⟨l, r, rfl, hl, -, rfl⟩ | ⟨l, m, r, rfl, hm, hne, rfl⟩ := ih h
      · refine .inl ⟨p :: l, r, rfl, ?_, .inr (List.cons_ne_nil _ _), by simp⟩
        rw [List.forall_mem_cons]
        exact ⟨by simpa using hp, hl⟩
      · exact .inr ⟨p :: l, m, r, rfl, hm, hne, rfl⟩

/-- Code points without a blank are one word. -/
theorem fieldsOf_word {l : List (Nat × Text)} (hl : ∀ p ∈ l, isSpace p.1 = false)
    {word : List Text} (hne : word ≠ [] ∨ l ≠ []) :
    fieldsOf word l = [word.reverse.flatten ++ l.flatMap Prod.snd] := by
  induction l generalizing word with
  | nil =>
    have hword : word.isEmpty = false := by simpa using hne
    simp [fieldsOf, hword]
  | cons p l ih =>
    rw [List.forall_mem_cons] at hl
    rw [fieldsOf, if_neg (by simp [hl.1]), ih hl.2 (.inl (List.cons_ne_nil _ _))]
    simp

/-- A word has itself as its only word. -/
theorem fields_of_mem {t u : Text} (h : u ∈ fields t) : fields u = [u] := by
  have hword : ∀ l m r, pieces t = l ++ (m ++ r) → (∀ p ∈ m, isSpace p.1 = false) → m ≠ [] →
      fields (m.flatMap Prod.snd) = [m.flatMap Prod.snd] := by
    intro l m r hsplit hm hne
    rw [fields, (pieces_of_append (pieces_of_append hsplit).2).1, fieldsOf_word hm (.inr hne)]
    rfl
  obtain ⟨l, r, hsplit, hl, hne, rfl⟩ | ⟨l, m, r, hsplit, hm, hne, rfl⟩ := mem_fieldsOf h
  · exact hword [] l r hsplit hl (hne.resolve_left fun hw => hw rfl)
  · exact hword l m r hsplit hm hne

end Reactive.Text
