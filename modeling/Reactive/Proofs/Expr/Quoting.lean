/-
What a reader of string literals makes of a quoted text.

A text is quoted for people: a control character gets its letter escape if it
has one, other code points without a visible form get their number.  A string
literal knows fewer escapes.  It reads a letter it does not know as the letter
itself, so four control characters and the code points past the first plane
that are written with their number do not come back.  All others do.

* `Token.ofSource_quote` — the token of a quoted text, for every text;
* `Text.reread_eq_iff` — the characters that come back as they were;
* `Token.ofSource_quote_iff` — a well-formed text comes back exactly if it has
  such characters only.
-/
import Mathlib.Algebra.Group.Nat.Defs
import Mathlib.Data.Nat.Init
import Reactive.Proofs.Expr.Lexing
import Reactive.Proofs.Text.Encoding

namespace Reactive

namespace Lexer

open Text

/-! ### Hexadecimal digits -/

@[simp] theorem hexValue?_nil : hexValue? [] = some 0 := rfl

theorem hexValue?_concat {t : Text} {n : Nat} {b : UInt8} (ht : hexValue? t = some n)
    (hb : isHexDigit b = true) : hexValue? (t ++ [b]) = some (n * 16 + digitValue b) := by
  unfold hexValue? at ht ⊢
  split at ht
  · rename_i hall
    rw [if_pos (by simpa [hb] using hall), List.foldl_append, Option.some.inj ht]
    rfl
  · cases ht

theorem hexValue?_zeros {t : Text} (k : Nat) :
    hexValue? (List.replicate k 48 ++ t) = hexValue? t := by
  induction k with
  | zero => rfl
  | succ k ih =>
    rw [← ih, List.replicate_succ, List.cons_append]
    rfl

theorem hexValue?_toDigits (n : Nat) :
    hexValue? ((Nat.toDigits 16 n).map Char.toUInt8) = some n := by
  have hdigit : ∀ d < 16, isHexDigit (Nat.digitChar d).toUInt8 = true ∧
      digitValue (Nat.digitChar d).toUInt8 = d := by decide
  induction n using Nat.strongRecOn with
  | ind n ih =>
    rw [Nat.toDigits_eq_if (by decide)]
    split
    · rename_i hn
      have h := hexValue?_concat hexValue?_nil (hdigit n hn).1
      rwa [(hdigit n hn).2, Nat.zero_mul, Nat.zero_add] at h
    · rename_i hn
      have hlast := hdigit (n % 16) (Nat.mod_lt n (by decide))
      rw [List.map_append, List.map_singleton, hexValue?_concat (ih (n / 16) (by omega)) hlast.1,
        hlast.2, Nat.div_add_mod']

theorem length_hexPadded {width n : Nat} (hw : 0 < width) (hn : n < 16 ^ width) :
    (hexPadded width n).length = width := by
  have hlen := (Nat.length_toDigits_le_iff (by decide) hw).2 hn
  rw [hexPadded, List.length_append, List.length_replicate, List.length_map]
  omega

/-- An escape with as many digits as its number is padded to. -/
theorem hexEscape?_hexPadded {width n : Nat} (hw : 0 < width) (hn : n < 16 ^ width) (u : Text) :
    hexEscape? width (hexPadded width n ++ u) = some (ofCodePoint n, u) := by
  have hlen := length_hexPadded hw hn
  have hvalue : hexValue? (hexPadded width n) = some n := by
    rw [hexPadded, hexValue?_zeros, hexValue?_toDigits]
  rw [hexEscape?, if_neg (by rw [List.length_append]; omega), List.take_left' hlen,
    List.drop_left' hlen, hvalue]
  rfl

/-- An escape with the two digits of a byte. -/
theorem hexEscape?_toHex (b : UInt8) (u : Text) :
    hexEscape? 2 (toHex [b] ++ u) = some (ofCodePoint b.toNat, u) := by
  have hdigit : ∀ d < 16, isHexDigit (hexDigit d) = true ∧ digitValue (hexDigit d) = d := by decide
  have hhigh := hdigit (b.toNat / 16) (by have := b.toNat_lt; omega)
  have hlow := hdigit (b.toNat % 16) (Nat.mod_lt _ (by decide))
  have hvalue : hexValue? (toHex [b]) = some b.toNat := by
    have h := hexValue?_concat (hexValue?_concat hexValue?_nil hhigh.1) hlow.1
    rwa [hhigh.2, hlow.2, Nat.zero_mul, Nat.zero_add, Nat.div_add_mod'] at h
  rw [hexEscape?, if_neg (by simp [toHex]), show (toHex [b] ++ u).take 2 = toHex [b] from rfl,
    show (toHex [b] ++ u).drop 2 = u from rfl, hvalue]
  rfl

theorem isHexDigit_of_mem_hexPadded {width n : Nat} {b : UInt8} (hb : b ∈ hexPadded width n) :
    isHexDigit b = true := by
  have hvalue : hexValue? (hexPadded width n) = some n := by
    rw [hexPadded, hexValue?_zeros, hexValue?_toDigits]
  unfold hexValue? at hvalue
  split at hvalue
  · rename_i hall
    exact List.all_eq_true.1 hall b hb
  · cases hvalue

end Lexer

namespace Text

/-! ### Characters that come back -/

/-- What a reader of string literals makes of a quoted character. -/
def rereadPiece (p : Nat × Text) : Text :=
  if Stray p then p.2.flatMap fun b => ofCodePoint b.toNat
  else if isPrintable p.1 then p.2
  else if p.1 = 7 then "a"
  else if p.1 = 8 then "b"
  else if p.1 = 11 then "v"
  else if p.1 = 12 then "f"
  else if p.1 < 0x10000 then p.2
  else "U" ++ hexPadded 8 p.1

/-- What a reader of string literals makes of a quoted text. -/
def reread (s : Text) : Text := (pieces s).flatMap rereadPiece

/-- Whether a code point comes back from a quoted text. -/
def comesBack (c : Nat) : Bool := isPrintable c || (c < 0x10000 && !([7, 8, 11, 12].contains c))

theorem rereadPiece_of_comesBack {p : Nat × Text} (hp : ¬ Stray p) (h : comesBack p.1 = true) :
    rereadPiece p = p.2 := by
  rw [rereadPiece, if_neg hp]
  by_cases hprint : isPrintable p.1 = true
  · rw [if_pos hprint]
  simp only [comesBack, hprint, Bool.false_or, Bool.and_eq_true, decide_eq_true_eq,
    Bool.not_eq_true', List.contains_cons, List.contains_nil, Bool.or_false, Bool.or_eq_false_iff,
    beq_eq_false_iff_ne] at h
  obtain ⟨hsmall, h7, h8, h11, h12⟩ := h
  simp [hprint, h7, h8, h11, h12, hsmall]

/-- Texts that start with different bytes. -/
def StartsApart (x y : Text) : Prop := ∃ a b u v, x = a :: u ∧ y = b :: v ∧ a ≠ b

/-- A character that does not come back is read as something that starts differently. -/
theorem rereadPiece_startsApart {t : Text} {p : Nat × Text} (hp : p ∈ pieces t) (hs : ¬ Stray p)
    (h : comesBack p.1 = false) : StartsApart (rereadPiece p) p.2 := by
  rw [comesBack, Bool.or_eq_false_iff, Bool.and_eq_false_iff, decide_eq_false_iff_not] at h
  obtain ⟨hprint, hlarge | hletter⟩ := h
  · obtain ⟨b, v, heq⟩ := List.exists_cons_of_ne_nil (ne_nil_of_mem_pieces hp)
    have hb : 0x80 ≤ b := by
      rcases mem_pieces hp with ⟨b, hb, rfl⟩ | hbytes
      · have hlt := UInt8.toNat_lt b
        exact absurd (show b.toNat < 0x10000 by omega) hlarge
      · exact hbytes b (by rw [heq]; exact List.mem_cons_self)
    have hne : ∀ c, c < 0x10000 → p.1 ≠ c := by omega
    refine ⟨85, b, hexPadded 8 p.1, v, ?_, heq, ?_⟩
    · rw [rereadPiece, if_neg hs, if_neg (by simp [hprint]), if_neg (hne _ (by decide)),
        if_neg (hne _ (by decide)), if_neg (hne _ (by decide)), if_neg (hne _ (by decide)),
        if_neg hlarge]
      rfl
    · rintro rfl
      exact absurd hb (by decide)
  · rw [Bool.not_eq_false', List.contains_iff_mem] at hletter
    rw [← ofCodePoint_piece hp hs, rereadPiece, if_neg hs, if_neg (by simp [hprint])]
    simp only [List.mem_cons, List.not_mem_nil, or_false] at hletter
    rcases hletter with h | h | h | h <;> rw [h]
    · exact ⟨97, 7, [], [], rfl, rfl, by decide⟩
    · exact ⟨98, 8, [], [], rfl, rfl, by decide⟩
    · exact ⟨118, 11, [], [], rfl, rfl, by decide⟩
    · exact ⟨102, 12, [], [], rfl, rfl, by decide⟩

/-- Where every piece is replaced by itself or by something that starts differently, the whole
stays the same only if each piece does. -/
theorem flatMap_eq_iff {l : List (Nat × Text)} {f : Nat × Text → Text}
    (hf : ∀ p ∈ l, f p = p.2 ∨ StartsApart (f p) p.2) :
    l.flatMap f = l.flatMap Prod.snd ↔ ∀ p ∈ l, f p = p.2 := by
  induction l with
  | nil => simp
  | cons p l ih =>
    have ih := ih fun q hq => hf q (List.mem_cons_of_mem _ hq)
    rw [List.flatMap_cons, List.flatMap_cons, List.forall_mem_cons]
    rcases hf p List.mem_cons_self with hp | ⟨a, b, u, v, ha, hb, hab⟩
    · rw [hp, List.append_cancel_left_eq, ih]
      simp
    · rw [ha, hb]
      simp [hab]

/-- A character without a visible form is written with a backslash. -/
theorem quotePiece_escape {p : Nat × Text} (h : Stray p ∨ isPrintable p.1 = false) :
    ∃ r, quotePiece p.1 p.2 = 92 :: r := by
  by_cases hstray : (p.1 == replacement && p.2.length == 1) = true
  · rw [quotePiece, if_pos hstray]
    exact ⟨_, rfl⟩
  by_cases hslash : (p.1 == 34 || p.1 == 92) = true
  · rw [quotePiece, if_neg hstray, if_pos hslash]
    exact ⟨_, rfl⟩
  have hprint : ¬ isPrintable p.1 = true := by
    rcases h with h | h
    · exact absurd (by simp [h.1, h.2]) hstray
    · simp [h]
  rw [quotePiece, if_neg hstray, if_neg hslash, if_neg hprint]
  -- Whichever of the other escapes is chosen, it starts with a backslash.
  repeat' apply iteInduction (motive := fun s => ∃ r, s = 92 :: r) <;> intro
  all_goals exact ⟨_, rfl⟩

/-- A character that is written as it is, or with one of the escapes that every reader knows. -/
theorem rereadPiece_of_plain {t : Text} {p : Nat × Text} (hp : p ∈ pieces t)
    (h : quotePiece p.1 p.2 = p.2 ∨ p.2 ∈ [[34], [92], [10], [13], [9]]) :
    rereadPiece p = p.2 := by
  -- A piece that starts with an ASCII byte is that byte.
  have hascii : ∀ b r, b < 0x80 → p.2 = b :: r → p = (b.toNat, [b]) := by
    intro b r hb heq
    rcases mem_pieces hp with ⟨a, -, rfl⟩ | hbytes
    · obtain rfl := (List.cons.inj heq).1
      rfl
    · exact absurd (UInt8.lt_of_lt_of_le hb (hbytes b (by simp [heq]))) (UInt8.lt_irrefl b)
  rcases h with h | h
  · have hescape : ¬ (Stray p ∨ isPrintable p.1 = false) := by
      intro hbad
      obtain ⟨r, hr⟩ := quotePiece_escape hbad
      rw [hascii 92 r (by decide) (h.symm.trans hr)] at hbad
      exact absurd hbad (by decide)
    rw [not_or, Bool.not_eq_false] at hescape
    rw [rereadPiece, if_neg hescape.1, if_pos hescape.2]
  · simp only [List.mem_cons, List.not_mem_nil, or_false] at h
    rcases h with h | h | h | h | h <;> rw [hascii _ _ (by decide) h] <;> rfl

theorem QuotesPlainly.reread_eq {s : Text} (h : QuotesPlainly s) : reread s = s := by
  have hsame : ∀ p ∈ pieces s, rereadPiece p = p.2 := fun p hp => rereadPiece_of_plain hp (h p hp)
  rw [reread, (flatMap_eq_iff fun p hp => .inl (hsame p hp)).2 hsame, flatten_pieces]

/-- **The characters that come back:** a well-formed text is read as it was exactly if all its
code points come back. -/
theorem reread_eq_iff {s : Text} (hs : isWellFormed s = true) :
    reread s = s ↔ ∀ c ∈ codePoints s, comesBack c = true := by
  have hcases : ∀ p ∈ pieces s, rereadPiece p = p.2 ∨ StartsApart (rereadPiece p) p.2 := by
    intro p hp
    have hstray := not_stray_of_isWellFormed hs hp
    by_cases hback : comesBack p.1 = true
    · exact .inl (rereadPiece_of_comesBack hstray hback)
    · exact .inr (rereadPiece_startsApart hp hstray (by simpa using hback))
  have hsame : ∀ p ∈ pieces s, rereadPiece p = p.2 ↔ comesBack p.1 = true := by
    intro p hp
    have hstray := not_stray_of_isWellFormed hs hp
    refine ⟨fun heq => ?_, rereadPiece_of_comesBack hstray⟩
    refine Decidable.byContradiction fun hback => ?_
    obtain ⟨a, b, u, v, ha, hb, hab⟩ := rereadPiece_startsApart hp hstray (by simpa using hback)
    exact hab (List.cons.inj (ha.symm.trans (heq.trans hb))).1
  calc reread s = s
      ↔ (pieces s).flatMap rereadPiece = (pieces s).flatMap Prod.snd := by rw [reread, flatten_pieces]
    _ ↔ ∀ p ∈ pieces s, rereadPiece p = p.2 := flatMap_eq_iff hcases
    _ ↔ ∀ p ∈ pieces s, comesBack p.1 = true := forall₂_congr hsame
    _ ↔ ∀ c ∈ codePoints s, comesBack c = true := by simp [codePoints]

end Text

namespace Lexer

open Text

/-- A character between quotes is read as `rereadPiece` says. -/
theorem stringBody_reread {stop start : Nat} {acc s u : Text} {p : Nat × Text} (hp : p ∈ pieces s) :
    stringBody stop start 34 acc (quotePiece p.1 p.2 ++ u) =
      stringBody stop start 34 ((rereadPiece p).reverse ++ acc) u := by
  obtain ⟨c, bytes⟩ := p
  simp only [quotePiece, rereadPiece]
  by_cases hstray : Stray (c, bytes)
  · obtain ⟨rfl, hone⟩ := hstray
    obtain ⟨b, rfl⟩ := List.length_eq_one_iff.1 hone
    have hescape : escape (120 :: (toHex [b] ++ u)) = .ok (ofCodePoint b.toNat, u) := by
      rw [escape, hexEscape?_toHex]
      rfl
    rw [if_pos (by rfl), if_pos ⟨rfl, rfl⟩, List.flatMap_singleton]
    exact stringBody_escape hescape
  have hbytes : ofCodePoint c = bytes := ofCodePoint_piece hp hstray
  have hstray' : ¬ (c == replacement && bytes.length == 1) = true := by
    simpa [Stray] using hstray
  rw [if_neg hstray', if_neg hstray]
  by_cases hslash : (c == 34 || c == 92) = true
  · rw [if_pos hslash]
    rw [Bool.or_eq_true, beq_iff_eq, beq_iff_eq] at hslash
    rcases hslash with rfl | rfl
    · subst hbytes
      exact stringBody_escape rfl
    · subst hbytes
      exact stringBody_escape rfl
  rw [if_neg hslash]
  by_cases hprint : isPrintable c = true
  · rw [if_pos hprint, if_pos hprint]
    refine stringBody_bytes fun b hb => ?_
    rcases mem_pieces hp with ⟨d, -, heq⟩ | hlarge
    · obtain ⟨rfl, rfl⟩ := Prod.mk.inj heq
      obtain rfl := List.mem_singleton.1 hb
      refine ⟨?_, ?_, ?_⟩
      · rintro rfl
        exact hslash rfl
      · rintro rfl
        exact absurd hprint (by decide)
      · rintro rfl
        exact hslash rfl
    · have hge := hlarge b hb
      refine ⟨?_, ?_, ?_⟩ <;> rintro rfl <;> exact absurd hge (by decide)
  rw [if_neg hprint, if_neg hprint]
  by_cases hletter : c ∈ [7, 8, 12, 10, 13, 9, 11]
  · subst hbytes
    simp only [List.mem_cons, List.not_mem_nil, or_false] at hletter
    rcases hletter with rfl | rfl | rfl | rfl | rfl | rfl | rfl <;> exact stringBody_escape rfl
  simp only [List.mem_cons, List.not_mem_nil, or_false, not_or] at hletter
  obtain ⟨h7, h8, h12, h10, h13, h9, h11⟩ := hletter
  simp only [beq_iff_eq, h7, h8, h12, h10, h13, h9, h11, if_false]
  by_cases hcontrol : (c < 0x20 || c == 0x7F) = true
  · have hsmall : c < 16 ^ 2 := by
      rw [Bool.or_eq_true, decide_eq_true_eq, beq_iff_eq] at hcontrol
      omega
    have hescape : escape (120 :: (hexPadded 2 c ++ u)) = .ok (ofCodePoint c, u) := by
      rw [escape, hexEscape?_hexPadded (by decide) hsmall]
      rfl
    rw [if_pos hcontrol, if_pos (by omega), ← hbytes]
    exact stringBody_escape hescape
  rw [if_neg hcontrol]
  by_cases hplane : c < 0x10000
  · have hescape : escape (117 :: (hexPadded 4 c ++ u)) = .ok (ofCodePoint c, u) := by
      rw [escape, hexEscape?_hexPadded (by decide) (by omega)]
      rfl
    rw [if_pos hplane, if_pos hplane, ← hbytes]
    exact stringBody_escape hescape
  · -- The letter of the escape stands for itself, and the digits after it for themselves.
    have hdigits : ∀ b ∈ hexPadded 8 c, b ≠ 34 ∧ b ≠ 10 ∧ b ≠ 92 := by
      intro b hb
      have hhex := isHexDigit_of_mem_hexPadded hb
      refine ⟨?_, ?_, ?_⟩ <;> rintro rfl <;> exact absurd hhex (by decide)
    have hescape : escape (85 :: (hexPadded 8 c ++ u)) = .ok ([85], hexPadded 8 c ++ u) := rfl
    rw [if_neg hplane, if_neg hplane]
    refine (stringBody_escape hescape).trans ?_
    rw [stringBody_bytes hdigits, show ("U" : Text) = [85] from rfl, List.reverse_append,
      List.append_assoc]

/-- The value of a quoted text, read as a string literal. -/
theorem stringBody_quote {stop start : Nat} {s rest : Text} :
    stringBody stop start 34 [] (quoted s ++ [34] ++ rest) =
      .ok (reread s, rest) :=
  stringBody_characters fun _ hp _ _ => stringBody_reread hp

theorem reads_quote {stop : Nat} {s rest : Text} :
    Reads stop (quote s) rest (.str (reread s)) :=
  reads_quoted fun _ => stringBody_quote

end Lexer

/-- A quoted text is one token, a string literal. -/
theorem Token.ofSource_quote (base : Nat) (s : Text) :
    Token.ofSource base (Text.quote s) =
      .ok ([⟨.str (Text.reread s), base, false⟩],
        ⟨.eof, base + (Text.quote s).length, false⟩) := by
  have hreads := @Lexer.reads_quote (base + (Text.quote s).length) s []
  have hlexes := Lexer.lexes_token Lexer.Blank.nil rfl hreads
  have hscan := hlexes _ _ (Lexer.scan_nil _)
  simpa [Lexer.offset, Token.ofSource] using hscan

/-- **A quoted text is read back exactly if** each of its code points is printable, or lies in the
first plane and is none of the four control characters whose letter escapes a string literal does
not know. -/
theorem Token.ofSource_quote_iff {s : Text} (hs : s.isWellFormed = true) (base : Nat) :
    Token.ofSource base (Text.quote s) =
        .ok ([⟨.str s, base, false⟩], ⟨.eof, base + (Text.quote s).length, false⟩) ↔
      ∀ c ∈ s.codePoints, Text.isPrintable c = true ∨ (c < 0x10000 ∧ c ∉ [7, 8, 11, 12]) := by
  have hback (c : Nat) : Text.comesBack c = true ↔
      Text.isPrintable c = true ∨ (c < 0x10000 ∧ c ∉ [7, 8, 11, 12]) := by
    rw [Text.comesBack, Bool.or_eq_true, Bool.and_eq_true, decide_eq_true_eq, Bool.not_eq_true',
      ← Bool.not_eq_true, List.contains_iff_mem]
  simp only [Token.ofSource_quote, ← hback, ← Text.reread_eq_iff hs]
  simp

/-- A control character whose letter escape is read as the letter. -/
example : Text.reread [7] = "a" := by cbv

end Reactive
