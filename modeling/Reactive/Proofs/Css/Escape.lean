/-
Class names in selectors.

A selector spells a class name with escapes: a byte of punctuation stands after a
backslash, a control byte and a digit at the front by their numbers.  The lexer
takes what a selector spells for one name, but the backslashes are all that is
taken out of it again, so a name is read back if none of its bytes stands by its
number, and only then.

* `spell` — how a selector spells a name;
* `unescape_spell_iff` — which names are read back;
* `tokensFrom_class` — what the lexer makes of a class in a selector;
* `requiredClasses_class` — the class that a selector requires for it;
* `render_class` — when the rule for a class is kept.
-/
import Reactive.Css.Sheet
import Reactive.Proofs.Css.Keep

namespace Reactive.Css

/-! ### Spelling -/

/-- A control byte. -/
def isControl (b : UInt8) : Bool := b < 0x20 || b == 0x7F

/-- The number of a byte in hexadecimal digits, without zeros in front. -/
def hexOf (b : UInt8) : Text :=
  if b < 16 then [Text.hexDigit b.toNat]
  else [Text.hexDigit (b.toNat / 16), Text.hexDigit (b.toNat % 16)]

/-- A byte by its number, which a blank ends. -/
def byNumber (b : UInt8) : Text := '\\' :: (hexOf b ++ [32])

/-- How a byte is spelt in a name.  The zero byte gives way to the replacement character. -/
def spellByte (b : UInt8) : Text :=
  if b = 0 then [0xEF, 0xBF, 0xBD]
  else if isControl b then byNumber b
  else if isNameByte b then [b]
  else ['\\', b]

/-- How a name is spelt where no digit may stand. -/
def spellStart : Text → Text
  | [] => []
  | b :: r => (if Text.isDigit b then byNumber b else spellByte b) ++ r.flatMap spellByte

/-- How a selector spells a name. -/
def spell : Text → Text
  | [45] => ['\\', '-']
  | 45 :: r => '-' :: spellStart r
  | c => spellStart c

/-- A name none of whose bytes stands by its number. -/
structure Simple (c : Text) : Prop where
  control : ∀ b ∈ c, isControl b = false
  digit : ∀ b r, c = b :: r ∨ c = 45 :: b :: r → Text.isDigit b = false

/-! ### Taking backslashes out -/

theorem unescape_slash (b : UInt8) (r : Text) : unescape ('\\' :: b :: r) = b :: unescape r := rfl

theorem unescape_other {b : UInt8} (h : b ≠ '\\') (r : Text) :
    unescape (b :: r) = b :: unescape r := by
  rw [unescape]
  · exact fun hb => absurd hb h
  · exact fun _ _ hb => absurd hb h

theorem unescape_append {w : Text} (h : ('\\' : UInt8) ∉ w) (r : Text) :
    unescape (w ++ r) = w ++ unescape r := by
  induction w with
  | nil => rfl
  | cons b w ih =>
    rw [List.cons_append, unescape_other (fun hb => h (hb ▸ List.mem_cons_self)),
      ih fun hw => h (List.mem_cons_of_mem _ hw), List.cons_append]

/-- What is left of a byte. -/
def leftOf (b : UInt8) : Text :=
  if b = 0 then [0xEF, 0xBF, 0xBD] else if isControl b then hexOf b ++ [32] else [b]

/-- What is left of a name where no digit may stand. -/
def leftOfStart : Text → Text
  | [] => []
  | b :: r => (if Text.isDigit b then hexOf b ++ [32] else leftOf b) ++ r.flatMap leftOf

theorem isHexDigit_hexDigit : ∀ n < 16, Text.isHexDigit (Text.hexDigit n) = true := by decide

theorem isHexDigit_hexOf {b x : UInt8} (hx : x ∈ hexOf b) : Text.isHexDigit x = true := by
  have hlt := b.toNat_lt
  unfold hexOf at hx
  split at hx
  · rename_i hb
    rw [List.mem_singleton.1 hx]
    exact isHexDigit_hexDigit _ (UInt8.lt_iff_toNat_lt.1 hb)
  · rcases List.mem_pair.1 hx with rfl | rfl
    · exact isHexDigit_hexDigit _ (by omega)
    · exact isHexDigit_hexDigit _ (by omega)

theorem length_hexOf (b : UInt8) : 1 ≤ (hexOf b).length ∧ (hexOf b).length ≤ 2 := by
  unfold hexOf
  split
  · exact ⟨Nat.le_refl 1, Nat.le_succ 1⟩
  · exact ⟨Nat.le_succ 1, Nat.le_refl 2⟩

theorem slash_not_mem_hexOf (b : UInt8) : ('\\' : UInt8) ∉ hexOf b := fun h =>
  absurd (isHexDigit_hexOf h) (by decide)

theorem exists_hexOf (b : UInt8) : ∃ h t, hexOf b = h :: t := by
  unfold hexOf
  split
  · exact ⟨_, _, rfl⟩
  · exact ⟨_, _, rfl⟩

theorem unescape_byNumber (b : UInt8) (r : Text) :
    unescape (byNumber b ++ r) = hexOf b ++ [32] ++ unescape r := by
  have hslash := slash_not_mem_hexOf b
  obtain ⟨h, t, hhex⟩ := exists_hexOf b
  rw [hhex] at hslash
  have hrest : ('\\' : UInt8) ∉ t ++ [32] := by
    rw [List.mem_append, List.mem_singleton]
    rintro (ht | ht)
    · exact hslash (List.mem_cons_of_mem _ ht)
    · exact absurd ht (by decide)
  rw [byNumber, hhex]
  exact (unescape_slash h _).trans (congrArg _ (unescape_append hrest r))

theorem unescape_spellByte (b : UInt8) (r : Text) :
    unescape (spellByte b ++ r) = leftOf b ++ unescape r := by
  unfold spellByte leftOf
  split
  · exact unescape_append (by decide) r
  · split
    · exact unescape_byNumber b r
    · split
      · rename_i hname
        exact unescape_other (by rintro rfl; exact absurd hname (by decide)) r
      · rfl

theorem unescape_flatMap (c : Text) : unescape (c.flatMap spellByte) = c.flatMap leftOf := by
  induction c with
  | nil => rfl
  | cons b r ih => rw [List.flatMap_cons, unescape_spellByte, ih, List.flatMap_cons]

theorem unescape_spellStart (c : Text) : unescape (spellStart c) = leftOfStart c := by
  cases c with
  | nil => rfl
  | cons b r =>
    rw [spellStart, leftOfStart, ← unescape_flatMap]
    split
    · exact unescape_byNumber b _
    · exact unescape_spellByte b _

/-- A byte that stands by its number leaves its digits, and the blank after them. -/
theorem two_le_leftOf {b : UInt8} (h : isControl b = true) : 2 ≤ (leftOf b).length := by
  unfold leftOf
  split
  · decide
  · rw [List.length_append]
    exact Nat.succ_le_succ (length_hexOf b).1

theorem leftOf_of_not_control {b : UInt8} (h : isControl b = false) : leftOf b = [b] := by
  unfold leftOf
  rw [if_neg (by rintro rfl; cases h), if_neg (by simp [h])]

theorem one_le_leftOf (b : UInt8) : 1 ≤ (leftOf b).length := by
  cases h : isControl b with
  | true => exact Nat.le_of_succ_le (two_le_leftOf h)
  | false => rw [leftOf_of_not_control h, List.length_singleton]

theorem length_le_flatMap (c : Text) : c.length ≤ (c.flatMap leftOf).length := by
  induction c with
  | nil => exact Nat.le_refl 0
  | cons b r ih =>
    have := one_le_leftOf b
    rw [List.flatMap_cons, List.length_append, List.length_cons]
    omega

/-- No byte is read back out of more than one. -/
theorem append_flatMap_ne {w : Text} (hw : 2 ≤ w.length) (b : UInt8) (r : Text) :
    w ++ r.flatMap leftOf ≠ b :: r := by
  intro heq
  have hlength := congrArg List.length heq
  have := length_le_flatMap r
  rw [List.length_append, List.length_cons] at hlength
  omega

theorem flatMap_leftOf_eq_iff {c : Text} :
    c.flatMap leftOf = c ↔ ∀ b ∈ c, isControl b = false := by
  induction c with
  | nil => simp
  | cons b r ih =>
    rw [List.flatMap_cons, List.forall_mem_cons, ← ih]
    cases h : isControl b with
    -- More than one byte is left of it, and no fewer of the rest than there were.
    | true => simpa using append_flatMap_ne (two_le_leftOf h) b r
    | false => simp [leftOf_of_not_control h]

theorem leftOfStart_eq_iff {c : Text} : leftOfStart c = c ↔
    (∀ b ∈ c, isControl b = false) ∧ ∀ b ∈ c.head?, Text.isDigit b = false := by
  cases c with
  | nil => simp [leftOfStart]
  | cons b r =>
    rw [leftOfStart, ← flatMap_leftOf_eq_iff]
    cases h : Text.isDigit b with
    | true =>
      have hlong : 2 ≤ (hexOf b ++ [32]).length := by
        rw [List.length_append]
        exact Nat.succ_le_succ (length_hexOf b).1
      simpa [h] using append_flatMap_ne hlong b r
    | false => simp [h]

theorem spell_minus (b : UInt8) (r : Text) : spell (45 :: b :: r) = 45 :: spellStart (b :: r) := rfl

theorem spell_other {b : UInt8} (h : b ≠ 45) (r : Text) : spell (b :: r) = spellStart (b :: r) := by
  unfold spell
  split
  · rename_i heq
    exact absurd (List.cons.inj heq).1 h
  · rename_i heq
    exact absurd (List.cons.inj heq).1 h
  · rfl

/-- Whether a digit stands where it has to be spelt by its number. -/
theorem digit_iff {b : UInt8} {r : Text} :
    (∀ x t, b :: r = x :: t ∨ b :: r = 45 :: x :: t → Text.isDigit x = false) ↔
      Text.isDigit b = false ∧ (b = 45 → ∀ x ∈ r.head?, Text.isDigit x = false) := by
  refine ⟨fun h => ⟨h b r (.inl rfl), fun hb x hx => ?_⟩, fun ⟨hb, hr⟩ x t heq => ?_⟩
  · obtain ⟨t, rfl⟩ := List.head?_eq_some_iff.1 hx
    exact h x t (.inr (by rw [hb]))
  · rcases heq with heq | heq
    · rw [← (List.cons.inj heq).1]
      exact hb
    · obtain ⟨hminus, rfl⟩ := List.cons.inj heq
      exact hr hminus x rfl

/-- A name is read back if none of its bytes stands by its number, and only then. -/
theorem unescape_spell_iff {c : Text} : unescape (spell c) = c ↔ Simple c := by
  have hsimple : Simple c ↔ (∀ b ∈ c, isControl b = false) ∧
      ∀ b r, c = b :: r ∨ c = 45 :: b :: r → Text.isDigit b = false :=
    ⟨fun h => ⟨h.control, h.digit⟩, fun h => ⟨h.1, h.2⟩⟩
  rw [hsimple]
  cases c with
  | nil => simp [spell, spellStart, unescape]
  | cons b r =>
    rw [digit_iff]
    by_cases hb : b = 45
    · subst hb
      have hcontrol : isControl 45 = false := by decide
      have hdigit : Text.isDigit 45 = false := by decide
      cases r with
      | nil =>
        have halone : unescape (spell [45]) = [45] := rfl
        simp [halone, hcontrol, hdigit]
      | cons x t =>
        rw [spell_minus, unescape_other (by decide), List.cons_inj_right, unescape_spellStart,
          leftOfStart_eq_iff, List.forall_mem_cons (a := 45)]
        simp only [hcontrol, hdigit, true_and, true_implies]
    · rw [spell_other hb, unescape_spellStart, leftOfStart_eq_iff]
      simp [hb]

example : spell "10" = "\\31 0" ∧ unescape (spell "10") = "31 0" := by decide

/-! ### One name for the lexer -/

/-- A text that no name goes on with, nor makes a function or a range of it. -/
def EndsName (s : Text) : Prop :=
  ∀ b ∈ s.head?, isNameByte b = false ∧ b ≠ '\\' ∧ b ≠ '(' ∧ b ≠ '+'

theorem EndsName.nameLength {s : Text} (h : EndsName s) : nameLength s = 0 := by
  cases s with
  | nil => rw [Css.nameLength]
  | cons b r => exact nameLength_other (h b rfl).1 (h b rfl).2.1 r

/-- An escape of one character other than a digit of a number. -/
theorem escapeLength_byte {b : UInt8} (hbreak : isBreak b = false)
    (hhex : Text.isHexDigit b = false) (hlow : b < 0xC0) (r : Text) :
    escapeLength (b :: r) = 2 := by
  unfold escapeLength
  dsimp only
  rw [if_neg (by simp [hbreak]), if_neg (by simp [hhex]), if_neg (UInt8.not_le.2 hlow)]

theorem escapeLength_hexOf (b : UInt8) (r : Text) :
    escapeLength (hexOf b ++ 32 :: r) = (hexOf b).length + 2 := by
  obtain ⟨h, t, hhex⟩ := exists_hexOf b
  have hdigits : ∀ x ∈ hexOf b, Text.isHexDigit x = true := fun x => isHexDigit_hexOf
  have hlong := (length_hexOf b).2
  have htake : (hexOf b ++ 32 :: r).take 6 = hexOf b ++ (32 :: r).take (6 - (hexOf b).length) := by
    rw [List.take_append, List.take_of_length_le (by omega)]
  have hrun : (((hexOf b ++ 32 :: r).take 6).takeWhile Text.isHexDigit).length =
      (hexOf b).length := by
    obtain ⟨n, hn⟩ : ∃ n, 6 - (hexOf b).length = n + 1 := ⟨5 - (hexOf b).length, by omega⟩
    rw [htake, hn, List.takeWhile_append_of_pos hdigits, List.take_succ_cons,
      List.takeWhile_cons_of_neg (by decide), List.append_nil]
  have hfirst : Text.isHexDigit h = true := hdigits h (by rw [hhex]; exact List.mem_cons_self)
  have hbreak : isBreak h = false := by
    rw [← Bool.not_eq_true]
    intro hbreak
    have hstop := isStop_of_isBlank (isBlank_of_isBreak hbreak)
    rw [not_stop_of_goesOn (goesOn_of_isHexDigit hfirst)] at hstop
    cases hstop
  rw [hhex, List.cons_append, escapeLength_hex hbreak hfirst, ← List.cons_append, ← hhex]
  dsimp only
  rw [hrun, List.drop_left]
  rfl

theorem nameLength_slash {w r : Text} (h : escapeLength (w ++ r) = w.length + 1) :
    nameLength ('\\' :: (w ++ r)) = w.length + 1 + nameLength r := by
  rw [nameLength_escape, h, if_neg (Nat.succ_ne_zero _), Nat.add_sub_cancel, List.drop_left,
    Nat.add_comm]

theorem nameLength_byNumber (b : UInt8) (r : Text) :
    nameLength (byNumber b ++ r) = (byNumber b).length + nameLength r := by
  have hescape : escapeLength (hexOf b ++ [32] ++ r) = (hexOf b ++ [32]).length + 1 := by
    rw [List.append_assoc, List.singleton_append, escapeLength_hexOf, List.length_append]
    rfl
  exact nameLength_slash hescape

theorem isControl_of_isBreak {b : UInt8} (h : isBreak b = true) : isControl b = true := by
  simp only [isBreak, Bool.or_eq_true, beq_iff_eq] at h
  rcases h with (rfl | rfl) | rfl <;> decide

theorem nameLength_spellByte (b : UInt8) (r : Text) :
    nameLength (spellByte b ++ r) = (spellByte b).length + nameLength r := by
  unfold spellByte
  split
  · simp only [List.cons_append, List.nil_append]
    rw [nameLength_byte (by decide), nameLength_byte (by decide), nameLength_byte (by decide),
      List.length_cons, List.length_cons, List.length_singleton]
    omega
  · split
    · exact nameLength_byNumber b r
    · rename_i hcontrol
      split
      · rename_i hname
        rw [List.singleton_append, nameLength_byte hname, List.length_singleton, Nat.add_comm]
      · rename_i hname
        have hbreak : isBreak b = false := Bool.eq_false_iff.2 (mt isControl_of_isBreak hcontrol)
        have hhex : Text.isHexDigit b = false :=
          Bool.eq_false_iff.2 (mt isNameByte_of_isHexDigit hname)
        have hlow : b < 0xC0 := by
          rw [← UInt8.not_le]
          intro hhigh
          have hstart : (b ≥ 128) := UInt8.le_trans (by decide) hhigh
          exact hname (by simp [isNameByte, isNameStart, hstart])
        exact nameLength_slash (w := [b]) (escapeLength_byte hbreak hhex hlow r)

theorem nameLength_flatMap (c r : Text) :
    nameLength (c.flatMap spellByte ++ r) = (c.flatMap spellByte).length + nameLength r := by
  induction c with
  | nil => rw [List.flatMap_nil, List.nil_append, List.length_nil, Nat.zero_add]
  | cons b c ih =>
    rw [List.flatMap_cons, List.append_assoc, nameLength_spellByte, ih, List.length_append,
      Nat.add_assoc]

theorem nameLength_spellStart (c r : Text) :
    nameLength (spellStart c ++ r) = (spellStart c).length + nameLength r := by
  cases c with
  | nil => rw [spellStart, List.nil_append, List.length_nil, Nat.zero_add]
  | cons b c =>
    rw [spellStart, List.append_assoc, List.length_append, Nat.add_assoc, ← nameLength_flatMap]
    split
    · exact nameLength_byNumber b _
    · exact nameLength_spellByte b _

/-- A byte that a name starts with, or the backslash of an escape. -/
def isLead (b : UInt8) : Bool := isNameStart b || b == '\\'

theorem plainNameLength_of_isLead {b : UInt8} (h : isLead b = true) (r : Text) :
    plainNameLength (b :: r) = nameLength (b :: r) := by
  rcases Bool.or_eq_true_iff.1 h with h | h
  · rw [plainNameLength_start h, nameLength_byte (by simp [isNameByte, h])]
  · rw [beq_iff_eq.1 h, plainNameLength_escape]

theorem head_spellByte (b : UInt8) : ∃ h t, spellByte b = h :: t ∧ h ≠ '+' ∧
    (b ≠ '-' → Text.isDigit b = false → isLead h = true) ∧
    (isNameStart h = true → t.head? ≠ some 43) := by
  unfold spellByte
  split
  · exact ⟨_, _, rfl, by decide, fun _ _ => by decide, fun _ => by decide⟩
  · split
    · exact ⟨_, _, rfl, by decide, fun _ _ => by decide, fun h => absurd h (by decide)⟩
    · split
      · rename_i hname
        refine ⟨_, _, rfl, by rintro rfl; exact absurd hname (by decide), fun hminus hdigit => ?_,
          fun _ => by simp⟩
        simp only [isNameByte, hdigit, Bool.or_false, Bool.or_eq_true, beq_iff_eq] at hname
        exact Bool.or_eq_true_iff.2 (.inl (hname.resolve_right hminus))
      · exact ⟨_, _, rfl, by decide, fun _ _ => by decide, fun h => absurd h (by decide)⟩

/-- A text that the lexer takes for a name from its front on, whatever ends it.  No plus sign
stands second, where the letter at the front would make it a range. -/
structure Spelt (w : Text) : Prop where
  lead : ∃ b t, w = b :: t ∧ isLead b = true ∧
    ∀ r, EndsName r → isNameStart b = true → (t ++ r).head? ≠ some 43
  length : ∀ r, nameLength (w ++ r) = w.length + nameLength r

theorem spelt_spellStart {b : UInt8} (hb : b ≠ '-') (c : Text) : Spelt (spellStart (b :: c)) := by
  refine ⟨?_, nameLength_spellStart _⟩
  cases hdigit : Text.isDigit b with
  | true =>
    rw [spellStart, if_pos hdigit]
    exact ⟨_, _, rfl, by decide, fun _ _ h => absurd h (by decide)⟩
  | false =>
    rw [spellStart, if_neg (by simp [hdigit])]
    obtain ⟨h, t, hspell, -, hlead, hplus⟩ := head_spellByte b
    refine ⟨h, t ++ c.flatMap spellByte, by rw [hspell]; rfl, hlead hb hdigit,
      fun r hr hstart => ?_⟩
    cases t with
    | cons x t => exact hplus hstart
    | nil =>
      cases c with
      | nil => exact fun hfront => (hr _ hfront).2.2.2 rfl
      | cons d c =>
        obtain ⟨x, t, hspell, hx, -⟩ := head_spellByte d
        rw [List.nil_append, List.flatMap_cons, hspell]
        exact fun hfront => hx (Option.some.inj hfront)

/-- A name that starts with two minus signs is spelt as it is; every other one is a text that the
lexer takes for a name, maybe after a minus sign. -/
theorem spelt_spell {c : Text} (hc : c ≠ []) (hminus : ¬ ([45, 45] : Text) <+: c) :
    Spelt (spell c) ∨ ∃ w, spell c = 45 :: w ∧ Spelt w := by
  cases c with
  | nil => exact absurd rfl hc
  | cons b c =>
    by_cases hb : b = 45
    · subst hb
      cases c with
      | nil =>
        exact .inl ⟨⟨_, _, rfl, by decide, fun _ _ h => absurd h (by decide)⟩,
          fun r => nameLength_slash (w := [45]) (escapeLength_byte rfl rfl (by decide) r)⟩
      | cons x t =>
        have hx : x ≠ 45 := by
          rintro rfl
          exact hminus ⟨t, rfl⟩
        exact .inr ⟨_, spell_minus x t, spelt_spellStart hx t⟩
    · rw [spell_other hb]
      exact .inl (spelt_spellStart hb c)

section

variable {w r : Text} (hr : EndsName r)

include hr

theorem Spelt.plainNameLength (h : Spelt w) : plainNameLength (w ++ r) = w.length := by
  obtain ⟨⟨b, t, rfl, hlead, -⟩, hlength⟩ := h
  have := hlength r
  rw [hr.nameLength] at this
  rwa [List.cons_append, plainNameLength_of_isLead hlead]

theorem Spelt.identLength (h : Spelt w) : identLength (w ++ r) = w.length := by
  have hplain := h.plainNameLength hr
  obtain ⟨⟨b, t, rfl, hlead, -⟩, -⟩ := h
  rwa [List.cons_append, identLength_other (by rintro rfl; cases hlead)]

theorem Spelt.identLength_minus (h : Spelt w) :
    Css.identLength (45 :: (w ++ r)) = w.length + 1 := by
  have hplain := h.plainNameLength hr
  obtain ⟨⟨b, t, rfl, -⟩, -⟩ := h
  refine (Css.identLength_minus _).trans ?_
  rw [hplain, if_neg (by simp)]

end

theorem numberLength_eq_zero {s : Text} (hdigits : digits (s.drop (signLength s)) = 0)
    (hpoint : (s.drop (signLength s)).head? ≠ some 46) : numberLength s = 0 := by
  rw [numberLength_eq, hdigits]
  dsimp only
  rw [Nat.add_zero, if_neg (fun h => hpoint h.1), if_pos rfl]

/-- A name starts with no blank and with nothing that a number starts with. -/
theorem of_isLead {b : UInt8} (h : isLead b = true) : isBlank b = false ∧
    Text.isDigit b = false ∧ b ≠ '+' ∧ b ≠ '-' ∧ b ≠ '.' := by
  have hall : ∀ n < 256, isLead (UInt8.ofNat n) = true → isBlank (UInt8.ofNat n) = false ∧
      Text.isDigit (UInt8.ofNat n) = false ∧ UInt8.ofNat n ≠ '+' ∧ UInt8.ofNat n ≠ '-' ∧
      UInt8.ofNat n ≠ '.' := by
    decide +kernel
  have hb := hall b.toNat b.toNat_lt
  rw [UInt8.ofNat_toNat] at hb
  exact hb h

theorem digits_eq_zero {b : UInt8} (h : Text.isDigit b = false) (r : Text) :
    digits (b :: r) = 0 := by
  rw [digits, List.takeWhile_cons_of_neg (by simp [h]), List.length_nil]

theorem Spelt.numberLength {w : Text} (h : Spelt w) (r : Text) :
    numberLength (w ++ r) = 0 ∧ Css.numberLength (45 :: (w ++ r)) = 0 := by
  obtain ⟨⟨b, t, rfl, hlead, -⟩, -⟩ := h
  obtain ⟨-, hdigit, hplus, hminus, hpoint⟩ := of_isLead hlead
  have hsign : signLength (b :: (t ++ r)) = 0 := by
    rw [signLength_cons, if_neg (by simp [hplus, hminus])]
  have hpoint' : (b :: (t ++ r)).head? ≠ some 46 := fun heq => hpoint (Option.some.inj heq)
  refine ⟨numberLength_eq_zero ?_ ?_, numberLength_eq_zero ?_ ?_⟩
  · rw [List.cons_append, hsign]
    exact digits_eq_zero hdigit _
  · rw [List.cons_append, hsign]
    exact hpoint'
  · exact digits_eq_zero hdigit _
  · exact hpoint'

theorem Spelt.unicodeRangeLength {w r : Text} (h : Spelt w) (hr : EndsName r) :
    unicodeRangeLength (w ++ r) = 0 ∧ Css.unicodeRangeLength (45 :: (w ++ r)) = 0 := by
  obtain ⟨⟨b, t, rfl, -, hplus⟩, -⟩ := h
  refine ⟨Decidable.not_not.1 fun hsome => ?_, Decidable.not_not.1 fun hsome => ?_⟩
  · obtain ⟨u, x, heq, hu⟩ := exists_of_unicodeRangeLength hsome
    obtain ⟨rfl, htail⟩ := List.cons.inj heq
    refine hplus r hr ?_ (congrArg List.head? htail)
    rcases hu with rfl | rfl <;> decide
  · obtain ⟨u, x, heq, hu⟩ := exists_of_unicodeRangeLength hsome
    rw [← (List.cons.inj heq).1] at hu
    exact absurd hu (by decide)

/-- At the front of a name the lexer tries a number or a range, and then a name. -/
theorem lengthOf_eq_firstOf {b : UInt8} (hb : isLead b = true ∨ b = '-') (r : Text) : ∃ a as,
    lengthOf b r = firstOf (a :: identLike (b :: r) :: as) ∧
      (a = numeric (b :: r) ∨ a = (.unicodeRange, unicodeRangeLength (b :: r))) := by
  have hblank : ¬ isBlank b = true := by
    rcases hb with hb | rfl
    · simp [(of_isLead hb).1]
    · decide
  unfold lengthOf
  dsimp only
  rw [if_neg hblank]
  clear hblank
  split
  case h_15 | h_26 => exact ⟨_, _, rfl, .inl rfl⟩
  case h_24 | h_25 => exact ⟨_, _, rfl, .inr rfl⟩
  all_goals exact absurd hb (by decide)

theorem lengthOf_identLike {b : UInt8} {r : Text} (hb : isLead b = true ∨ b = '-')
    (hnumber : numberLength (b :: r) = 0) (hrange : unicodeRangeLength (b :: r) = 0)
    (hident : (identLike (b :: r)).2 ≠ 0) : lengthOf b r = identLike (b :: r) := by
  obtain ⟨a, as, hlength, ha⟩ := lengthOf_eq_firstOf hb r
  have hnone : a.2 = 0 := by
    rcases ha with rfl | rfl
    · rw [numeric_eq, if_pos hnumber]
    · exact hrange
  rw [hlength, firstOf, if_pos hnone, firstOf, if_neg hident]

/-- What the lexer takes for a name is one for it. -/
theorem lengthOf_of_identLength {b : UInt8} {t r : Text} (hb : isLead b = true ∨ b = '-')
    (hnumber : numberLength (b :: (t ++ r)) = 0)
    (hrange : unicodeRangeLength (b :: (t ++ r)) = 0)
    (hident : identLength (b :: (t ++ r)) = t.length + 1) (hr : EndsName r) :
    lengthOf b (t ++ r) = (.ident, t.length + 1) := by
  have hparen : ((b :: (t ++ r)).drop (t.length + 1)).head? ≠ some 40 := by
    rw [List.drop_succ_cons, List.drop_left]
    exact fun hfront => (hr _ hfront).2.2.1 rfl
  have hlike : identLike (b :: (t ++ r)) = (.ident, t.length + 1) := by
    rw [identLike_eq, hident, if_neg (Nat.succ_ne_zero _), if_neg hparen]
  rw [lengthOf_identLike hb hnumber hrange (by rw [hlike]; exact Nat.succ_ne_zero _), hlike]

section

variable {c r : Text} (hc : c ≠ []) (hminus : ¬ ([45, 45] : Text) <+: c)

include hc hminus

/-- What a selector spells for a name is one token. -/
theorem stands_spell (hr : EndsName r) (start : Nat) : Stands ⟨.ident, spell c, start⟩ r := by
  refine ⟨⟨nofun, nofun, nofun, nofun⟩, ?_⟩
  rcases spelt_spell hc hminus with h | ⟨w, hw, h⟩
  · have hident := h.identLength hr
    have hnumber := (h.numberLength r).1
    have hrange := (h.unicodeRangeLength hr).1
    obtain ⟨⟨b, t, hspell, hlead, -⟩, -⟩ := h
    rw [hspell] at hident hnumber hrange ⊢
    exact ⟨b, t, rfl, lengthOf_of_identLength (.inl hlead) hnumber hrange hident hr⟩
  · rw [hw]
    exact ⟨45, w, rfl, lengthOf_of_identLength (.inr rfl) (h.numberLength r).2
      (h.unicodeRangeLength hr).2 (h.identLength_minus hr) hr⟩

/-- A point before it is a token of its own. -/
theorem stands_point (r : Text) (start : Nat) : Stands ⟨.delim, ".", start⟩ (spell c ++ r) := by
  refine ⟨⟨nofun, nofun, nofun, nofun⟩, '.', [], rfl, ?_⟩
  have hdigits : digits (spell c ++ r) = 0 := by
    rcases spelt_spell hc hminus with h | ⟨w, hw, -⟩
    · obtain ⟨⟨b, t, hspell, hlead, -⟩, -⟩ := h
      rw [hspell]
      exact digits_eq_zero (of_isLead hlead).2.1 _
    · rw [hw]
      exact digits_eq_zero (by decide) _
  have hnumber : numberLength ('.' :: (spell c ++ r)) = 0 := by
    have hsign : signLength ('.' :: (spell c ++ r)) = 0 := rfl
    have hwhole : digits ('.' :: (spell c ++ r)) = 0 := rfl
    rw [numberLength_eq, hsign, List.drop_zero, hwhole]
    dsimp only
    rw [if_neg (fun h => h.2 hdigits), if_pos rfl]
  have hnumeric : numeric ('.' :: (spell c ++ r)) = (.number, 0) := by
    rw [numeric_eq, if_pos hnumber]
  have hlength : lengthOf '.' (spell c ++ r) = firstOf [numeric ('.' :: (spell c ++ r))] := rfl
  rw [List.nil_append, hlength, hnumeric]
  rfl

end

/-- What the lexer makes of a class in a selector, wherever it comes to it. -/
theorem tokensFrom_class {c r : Text} (hc : c ≠ []) (hminus : ¬ ([45, 45] : Text) <+: c)
    (hr : EndsName r) (start : Nat) : tokensFrom start ("." ++ (spell c ++ r)) =
      (tokensFrom (start + 1 + (spell c).length) r).map fun ts =>
        ⟨.delim, ".", start⟩ :: ⟨.ident, spell c, start + 1⟩ :: ts := by
  rw [(stands_point hc hminus r start).tokensFrom start,
    (stands_spell hc hminus hr start).tokensFrom]
  dsimp only
  have hpoint : (Text.ofString ".").length = 1 := rfl
  rw [hpoint]
  cases tokensFrom (start + 1 + (spell c).length) r <;> rfl

/-! ### Required classes -/

/-- How deep in parentheses and brackets the text after some tokens is. -/
def depthAfter (depth : Int) : List Token → Int
  | [] => depth
  | t :: r => depthAfter (depth + t.kind.nesting) r

/-- The class that the name after a token stands for, if the token is a point at depth zero. -/
def classAt (depth : Int) (t u : Token) : List Text :=
  if depth = 0 && t.kind = .delim && t.text = "." && u.kind = .ident then [unescape u.text] else []

theorem requiredClassesFrom_cons (depth : Int) (t u : Token) (r : List Token) :
    requiredClassesFrom depth (t :: u :: r) =
      classAt (depth + t.kind.nesting) t u ++
        requiredClassesFrom (depth + t.kind.nesting) (u :: r) := by
  rw [requiredClassesFrom, classAt]
  split <;> rfl

theorem classAt_of_not_ident {depth : Int} {t u : Token} (h : u.kind ≠ .ident) :
    classAt depth t u = [] := by
  rw [classAt, if_neg (by simp [h])]

section

variable {point name : Token} (hpoint : point.kind = .delim) (htext : point.text = ".")
  (hname : name.kind = .ident) (after : List Token)

include hpoint htext hname

theorem requiredClassesFrom_point :
    requiredClassesFrom 0 (point :: name :: after) =
      unescape name.text :: requiredClasses after := by
  have hnested : (0 : Int) + point.kind.nesting = 0 := by rw [hpoint]; rfl
  have hnested' : (0 : Int) + name.kind.nesting = 0 := by rw [hname]; rfl
  have hclass : classAt 0 point name = [unescape name.text] := by
    simp [classAt, hpoint, htext, hname]
  have hafter : requiredClassesFrom 0 (name :: after) = requiredClasses after := by
    cases after with
    | nil => rfl
    | cons u r =>
      have hnone : classAt 0 name u = [] := by simp [classAt, hname]
      rw [requiredClassesFrom_cons, hnested', hnone]
      rfl
  rw [requiredClassesFrom_cons, hnested, hclass, hafter]
  rfl

/-- A class at depth zero is required by what its name is without backslashes, between the classes
before it and those after it. -/
theorem requiredClassesFrom_class {before : List Token} {depth : Int}
    (hdepth : depthAfter depth before = 0) :
    requiredClassesFrom depth (before ++ point :: name :: after) =
      requiredClassesFrom depth before ++ unescape name.text :: requiredClasses after := by
  induction before generalizing depth with
  | nil =>
    obtain rfl : depth = 0 := hdepth
    exact requiredClassesFrom_point hpoint htext hname after
  | cons t r ih =>
    have hrest := ih hdepth
    -- A class is named by two tokens: the last one before the point may look at the point itself.
    cases r with
    | nil =>
      have halone : requiredClassesFrom depth [t] = [] := rfl
      rw [List.singleton_append, requiredClassesFrom_cons, classAt_of_not_ident (by simp [hpoint]),
        halone]
      exact hrest
    | cons u r =>
      rw [List.cons_append, List.cons_append, requiredClassesFrom_cons, ← List.cons_append, hrest,
        requiredClassesFrom_cons, List.append_assoc]

end

/-- For a class that it spells at depth zero a selector requires one class: the very one that is
spelt if none of its bytes stands by its number, and another one otherwise. -/
theorem requiredClasses_class {c r : Text} (hc : c ≠ []) (hminus : ¬ ([45, 45] : Text) <+: c)
    (hr : EndsName r) {start : Nat} {before ts : List Token} (hdepth : depthAfter 0 before = 0)
    (h : tokensFrom start ("." ++ (spell c ++ r)) = .ok ts) :
    ∃ d after, requiredClasses (before ++ ts) =
      requiredClasses before ++ d :: requiredClasses after ∧
      tokensFrom (start + 1 + (spell c).length) r = .ok after ∧ (d = c ↔ Simple c) := by
  rw [tokensFrom_class hc hminus hr] at h
  cases hafter : tokensFrom (start + 1 + (spell c).length) r with
  | error e => rw [hafter] at h; cases h
  | ok after =>
    rw [hafter] at h
    cases h
    exact ⟨_, after, requiredClassesFrom_class rfl rfl rfl after hdepth, rfl, unescape_spell_iff⟩

/-! ### Rules of one class -/

theorem textOf_class (c : Text) (i j : Nat) :
    textOf [⟨.delim, ".", i⟩, ⟨.ident, spell c, j⟩] = "." ++ spell c := by
  simp [textOf, textFrom]

theorem selectors_class (c : Text) (i j : Nat) :
    selectors [⟨.delim, ".", i⟩, ⟨.ident, spell c, j⟩] =
      [⟨"." ++ spell c, [unescape (spell c)]⟩] := by
  have hclasses : requiredClasses [⟨.delim, ".", i⟩, ⟨.ident, spell c, j⟩] =
      [unescape (spell c)] :=
    requiredClassesFrom_point rfl rfl rfl []
  have hsplit : splitCommas 0 [] [⟨.delim, ".", i⟩, ⟨.ident, spell c, j⟩] =
      [[⟨.delim, ".", i⟩, ⟨.ident, spell c, j⟩]] := rfl
  rw [selectors, hsplit, List.map_singleton, textOf_class, hclasses]
  rfl

/-- What ends a prelude of two tokens. -/
theorem prelude_of_append {t u v stop : Token} {head after rest : List Token}
    (heq : t :: u :: v :: rest = head ++ stop :: after) (ht : ¬ t.kind.Ends) (hu : ¬ u.kind.Ends)
    (hv : v.kind.Ends) (hhead : ∀ x ∈ head, ¬ x.kind.Ends) (hstop : stop.kind.Ends) :
    head = [t, u] ∧ stop = v := by
  match head with
  | [] =>
    obtain ⟨rfl, -⟩ := List.cons.inj heq
    exact absurd hstop ht
  | [x] =>
    obtain ⟨-, heq⟩ := List.cons.inj heq
    obtain ⟨rfl, -⟩ := List.cons.inj heq
    exact absurd hstop hu
  | [x, y] =>
    obtain ⟨hx, heq⟩ := List.cons.inj heq
    obtain ⟨hy, heq⟩ := List.cons.inj heq
    exact ⟨by rw [hx, hy], (List.cons.inj heq).1.symm⟩
  | x :: y :: z :: head =>
    obtain ⟨-, heq⟩ := List.cons.inj heq
    obtain ⟨-, heq⟩ := List.cons.inj heq
    obtain ⟨rfl, -⟩ := List.cons.inj heq
    exact absurd hv (hhead v (by simp))

section

variable {c s : Text} (hc : c ≠ []) (hminus : ¬ ([45, 45] : Text) <+: c) {rs : List Rule}
  (h : rulesOf ("." ++ (spell c ++ ("\x7b" ++ s))) = .ok rs)

include hc hminus h

theorem tokens_of_class : ∃ i rest, rules (⟨.delim, ".", 0⟩ :: ⟨.ident, spell c, 1⟩ ::
    ⟨.leftBrace, "\x7b", i⟩ :: rest) = .ok rs := by
  have hends : EndsName ("\x7b" ++ s) := by
    rintro b ⟨⟩
    exact ⟨by decide, by decide, by decide, by decide⟩
  have hopen (i : Nat) : tokensFrom i ("\x7b" ++ s) =
      (tokensFrom (i + 1) s).map (⟨.leftBrace, "\x7b", i⟩ :: ·) :=
    (stands_mark (k := .leftBrace) rfl s i).tokensFrom i
  unfold rulesOf tokens at h
  rw [tokensFrom_class hc hminus hends, hopen] at h
  cases hrest : tokensFrom (0 + 1 + (spell c).length + 1) s with
  | error e => rw [hrest] at h; cases h
  | ok rest =>
    rw [hrest] at h
    exact ⟨_, rest, h⟩

/-- The rule for a class at the front of a sheet. -/
theorem rulesOf_class :
    ∃ body rs', rs = .style [⟨"." ++ spell c, [unescape (spell c)]⟩] body :: rs' := by
  obtain ⟨i, rest, hrules⟩ := tokens_of_class hc hminus h
  obtain ⟨lead, ts, hts, hlead, hcases⟩ := rules_cases hrules
  have hpoint : ¬ Kind.Ends .delim := by simp [Kind.Ends]
  have hname : ¬ Kind.Ends .ident := by simp [Kind.Ends]
  have hbrace : Kind.Ends .leftBrace := .inl rfl
  obtain rfl : lead = [] := by
    cases lead with
    | nil => rfl
    | cons t lead =>
      obtain ⟨rfl, -⟩ := List.cons.inj hts
      cases hlead _ List.mem_cons_self
  rw [List.nil_append] at hts
  subst hts
  rcases hcases with ⟨hnil, -⟩ | ⟨head, stop, after, rs', heq, hplain, hstop, -⟩ |
    ⟨b, rule, rs', heq, hreads, -, rfl⟩
  · cases hnil
  -- The prelude ends at the brace, so this is no statement, and it starts with a point, as no head
  -- of a group does.
  · obtain ⟨-, rfl⟩ := prelude_of_append heq hpoint hname hbrace hplain (.inr (.inl hstop))
    cases hstop
  · obtain ⟨hhead, -⟩ := prelude_of_append heq hpoint hname hbrace b.plain (.inl b.opening_kind)
    cases hreads with
    | group hgroup =>
      rw [hhead, textOf_class] at hgroup
      cases hgroup
    | block _ hat =>
      rw [hhead, textOf_class] at hat
      cases hat
    | style => exact ⟨textOf b.body, rs', by rw [hhead, selectors_class]⟩

/-- If no byte of a class stands by its number, the rule for it is kept while the class is used, and
dropped when it is not. -/
theorem render_class (hsimple : Simple c) : ∃ rule rs', rs = rule :: rs' ∧
    ∀ used, rule.render used false ≠ [] ↔ c ∈ used := by
  obtain ⟨body, rs', rfl⟩ := rulesOf_class hc hminus h
  refine ⟨_, rs', rfl, fun used => ?_⟩
  have hkept : (⟨"." ++ spell c, [c]⟩ : Selector).isUsed used = decide (c ∈ used) := by
    simp [Selector.isUsed]
  rw [unescape_spell_iff.2 hsimple, Rule.render, List.filter_cons, hkept]
  by_cases hused : c ∈ used
  · rw [if_pos (by simp [hused])]
    exact iff_of_true (List.append_ne_nil_of_right_ne_nil _ (by decide)) hused
  · rw [if_neg (by simp [hused])]
    exact iff_of_false (fun hsome => hsome rfl) hused

end

end Reactive.Css
