/-
Lexing a text token by token.

A text is cut into chunks, each the blanks before a token and the token's own
text.  `Lexes` says that a chunk, before a given rest, contributes its tokens
and leaves the rest as it is; chunks put together contribute theirs in order.
What a chunk needs of the rest is little: a word or a numeral must end
(`breaks`), and a mark must not go on to a longer one (`endsBefore`).

* `lexes_token` — one token after blanks;
* `reads_word`, `reads_number`, `reads_quoted`, `reads_mark` — the tokens.
-/
import Reactive.Expr.Lexer
import Reactive.Proofs.Text.Pieces

namespace Reactive

/-- Whether a text is one word: an identifier or a keyword. -/
def isWord (t : Text) : Bool :=
  match Text.codePoints t with
  | [] => false
  | c :: r => isIdentStart c && r.all isIdentPart

theorem isIdentifier_iff {t : Text} :
    isIdentifier t = true ↔ isWord t = true ∧ Keyword.ofText? t = none := by
  unfold isIdentifier isWord
  cases Text.codePoints t with
  | nil => simp
  | cons c r => simp [and_assoc]

/-- Every character is written between quotes as it is, or with one of the escapes for a quote, a
backslash, a line feed, a carriage return and a tab. -/
def Text.QuotesPlainly (t : Text) : Prop :=
  ∀ p ∈ pieces t, quotePiece p.1 p.2 = p.2 ∨ p.2 ∈ [[34], [92], [10], [13], [9]]

namespace Lexer

open Text

/-! ### Blanks -/

/-- Blanks and line breaks. -/
def Blank (ws : Text) : Prop := ∀ b ∈ ws, b = 32 ∨ b = 10

theorem Blank.nil : Blank [] := fun _ h => by cases h

theorem Blank.append {ws ws' : Text} (h : Blank ws) (h' : Blank ws') : Blank (ws ++ ws') := by
  intro b hb
  rcases List.mem_append.1 hb with hb | hb
  · exact h b hb
  · exact h' b hb

theorem Blank.replicate (n : Nat) : Blank (List.replicate n 32) :=
  fun _ hb => .inl (List.eq_of_mem_replicate hb)

/-- Whether a text starts with neither a blank nor a comment. -/
def opens : Text → Bool
  | 47 :: c :: _ => c != 47 && c != 42
  | b :: _ => b != 10 && b != 32 && b != 9 && b != 13
  | [] => true

theorem skipBlanks_opens {stop : Nat} {newline : Bool} {s : Text} (h : opens s = true) :
    skipBlanks stop newline s = .ok (newline, s) := by
  unfold skipBlanks
  split
  · cases h
  · cases h
  · cases h
  · cases h
  · cases h
  · cases h
  · rfl

theorem skipBlanks_append {stop : Nat} {newline : Bool} {ws s : Text} (hws : Blank ws)
    (hs : opens s = true) :
    skipBlanks stop newline (ws ++ s) = .ok (newline || ws.contains 10, s) := by
  induction ws generalizing newline with
  | nil => simpa using skipBlanks_opens hs
  | cons b ws ih =>
    have hrest : Blank ws := fun c hc => hws c (List.mem_cons_of_mem _ hc)
    rcases hws b List.mem_cons_self with rfl | rfl
    · rw [List.cons_append, skipBlanks, ih hrest]
      simp
    · rw [List.cons_append, skipBlanks, ih hrest]
      simp

/-! ### Chunks -/

/-- A chunk before a rest contributes its tokens and leaves the rest as it is. -/
def Lexes (stop : Nat) (x rest : Text) (xs : List Token) : Prop :=
  ∀ ts eof, Token.scan stop rest = .ok (ts, eof) →
    Token.scan stop (x ++ rest) = .ok (xs ++ ts, eof)

theorem Lexes.append {stop : Nat} {x y rest : Text} {xs ys : List Token}
    (hx : Lexes stop x (y ++ rest) xs) (hy : Lexes stop y rest ys) :
    Lexes stop (x ++ y) rest (xs ++ ys) := by
  intro ts eof hts
  rw [List.append_assoc, List.append_assoc]
  exact hx _ _ (hy ts eof hts)

/-- The lexeme at the front of a text takes the first part of it. -/
def Reads (stop : Nat) (x rest : Text) (l : Lexeme) : Prop :=
  ∃ b r h, x = b :: r ∧ lexeme stop b (r ++ rest) = .ok ⟨(l, rest), h⟩

theorem not_quote {b : UInt8} (hq : b ≠ 34) (hq' : b ≠ 39) :
    ¬ (decide (b = ('"' : Char).toUInt8) || decide (b = ('\'' : Char).toUInt8)) = true := by
  rw [Bool.or_eq_true, decide_eq_true_eq, decide_eq_true_eq, not_or]
  exact ⟨hq, hq'⟩

/-- Lexemes that are neither strings nor template literals. -/
theorem lexeme_plain {stop : Nat} {b : UInt8} {r : Text} (hq : b ≠ 34) (hq' : b ≠ 39)
    (ht : b ≠ 96) :
    lexeme stop b r =
      if startsNumber (b :: r) then
        .ok (taken (.number ((b :: r).take (numberLength (b :: r)))) (numberLength (b :: r)) b r
          rfl)
      else if isIdentStart (decode b r).1 then
        match Keyword.ofText? ((b :: r).take (identLength (b :: r))) with
        | some k => .ok (taken (.keyword k) (identLength (b :: r)) b r rfl)
        | none =>
          .ok (taken (.ident ((b :: r).take (identLength (b :: r)))) (identLength (b :: r)) b r rfl)
      else
        match mark? (b :: r) with
        | some p => .ok (taken (.punct p) p.text.length b r rfl)
        | none => fail stop (b :: r) (.unexpectedCharacter (decode b r).1) := by
  have htick : ¬ b = ('`' : Char).toUInt8 := ht
  exact (if_neg (not_quote hq hq')).trans (if_neg htick)

/-- A lexeme that takes a given number of bytes takes the part that long. -/
theorem Reads.of_taken {stop : Nat} {b : UInt8} {r rest : Text} {l : Lexeme} {n : Nat}
    (hl : l.weight = 1) (hn : n = (b :: r).length)
    (h : lexeme stop b (r ++ rest) = .ok (taken l n b (r ++ rest) hl)) :
    Reads stop (b :: r) rest l := by
  have hw : l.weight + rest.length ≤ (b :: (r ++ rest)).length := by
    rw [hl, List.length_cons, List.length_append]
    omega
  refine ⟨b, r, hw, rfl, ?_⟩
  rw [h, Except.ok.injEq]
  refine Subtype.ext ?_
  rw [taken, hn]
  simp

theorem scan_nil (stop : Nat) : Token.scan stop [] = .ok ([], ⟨.eof, stop, false⟩) := by
  have hskip := @skipBlanks_opens stop false [] rfl
  rw [Token.scan]
  split
  · rename_i h
    rw [hskip] at h
    cases h
  · rename_i h
    rw [hskip] at h
    cases h
    rfl
  · rename_i h
    rw [hskip] at h
    cases h

/-- One token after blanks. -/
theorem lexes_token {stop : Nat} {ws x rest : Text} {l : Lexeme} (hws : Blank ws)
    (ho : opens (x ++ rest) = true) (hl : Reads stop x rest l) :
    Lexes stop (ws ++ x) rest [⟨l, offset stop (x ++ rest), ws.contains 10⟩] := by
  obtain ⟨b, r, hw, rfl, hlex⟩ := hl
  intro ts eof hts
  have hskip := @skipBlanks_append stop false ws _ hws ho
  rw [List.cons_append, Bool.false_or] at hskip
  rw [List.append_assoc, List.cons_append, Token.scan]
  split
  · rename_i h
    rw [hskip] at h
    cases h
  · rename_i h
    rw [hskip] at h
    cases h
  · rename_i h
    rw [hskip] at h
    cases h
    simp only [hlex, hts]
    rfl

/-! ### Bytes -/

theorem isDigit_iff {b : UInt8} : isDigit b = true ↔ 48 ≤ b.toNat ∧ b.toNat ≤ 57 := by
  simp only [isDigit, Bool.and_eq_true, decide_eq_true_eq, UInt8.le_iff_toNat_le]
  rfl

theorem isAsciiLetter_iff {b : UInt8} : isAsciiLetter b = true ↔
    (97 ≤ b.toNat ∧ b.toNat ≤ 122) ∨ (65 ≤ b.toNat ∧ b.toNat ≤ 90) := by
  simp only [isAsciiLetter, Bool.or_eq_true, Bool.and_eq_true, decide_eq_true_eq,
    UInt8.le_iff_toNat_le]
  rfl

/-! ### Words -/

/-- Whether a word or a numeral ends before a text. -/
def breaks : Text → Bool
  | [] => true
  | 46 :: d :: _ => !isDigit d
  | b :: _ => b < 0x80 && !isIdentPart b.toNat

theorem isIdentPart_ne_replacement {c : Nat} (h : isIdentPart c = true) : c ≠ replacement := by
  rintro rfl
  exact absurd h (by decide +kernel)

theorem isIdentPart_of_start {c : Nat} (h : isIdentStart c = true) : isIdentPart c = true := by
  rw [isIdentPart, h, Bool.true_or]

/-- All code points of a word can stand in an identifier. -/
theorem identPart_of_word {w : Text} (h : isWord w = true) {p : Nat × Text}
    (hp : p ∈ pieces w) : isIdentPart p.1 = true := by
  have hc : p.1 ∈ codePoints w := List.mem_map_of_mem hp
  unfold isWord at h
  split at h
  · cases h
  · rename_i c r hcs
    rw [Bool.and_eq_true, List.all_eq_true] at h
    rw [hcs] at hc
    rcases List.mem_cons.1 hc with heq | hr
    · rw [heq]
      exact isIdentPart_of_start h.1
    · exact h.2 _ hr

/-- A word starts with a byte, whose code point can start an identifier. -/
theorem exists_cons_of_word {w : Text} (h : isWord w = true) :
    ∃ b r, w = b :: r ∧ isIdentStart (decode b r).1 = true := by
  cases w with
  | nil => simp [isWord, codePoints] at h
  | cons b r =>
    refine ⟨b, r, rfl, ?_⟩
    simp only [isWord, codePoints, pieces, List.map_cons, Bool.and_eq_true] at h
    exact h.1

/-- The byte after a word is no part of it. -/
theorem breaks_cons {b : UInt8} {r : Text} (h : breaks (b :: r) = true) :
    b < 0x80 ∧ isIdentPart b.toNat = false := by
  unfold breaks at h
  split at h
  · rename_i heq
    cases heq
  · rename_i heq
    cases heq
    exact ⟨by decide, by decide +kernel⟩
  · rename_i heq
    cases heq
    simpa using h

theorem takeWhile_of_breaks {rest : Text} (h : breaks rest = true) :
    (pieces rest).takeWhile (fun p => isIdentPart p.1) = [] := by
  cases rest with
  | nil => simp
  | cons b r =>
    obtain ⟨hb, hpart⟩ := breaks_cons h
    rw [pieces, decode_ascii hb]
    simp [hpart]

theorem foldl_length (l : List (Nat × Text)) (k : Nat) :
    l.foldl (fun n p => n + p.2.length) k = k + (l.flatMap Prod.snd).length := by
  induction l generalizing k with
  | nil => simp
  | cons p l ih =>
    rw [List.foldl_cons, ih, List.flatMap_cons, List.length_append]
    omega

/-- A word ends where a text breaks. -/
theorem identLength_word {w rest : Text} (hw : isWord w = true) (hrest : breaks rest = true) :
    identLength (w ++ rest) = w.length := by
  have hparts : ∀ p ∈ pieces w, isIdentPart p.1 = true := fun p hp => identPart_of_word hw hp
  have hpieces := pieces_append (fun p hp => isIdentPart_ne_replacement (hparts p hp)) rest
  rw [identLength, hpieces, List.takeWhile_append_of_pos hparts, takeWhile_of_breaks hrest,
    List.append_nil, foldl_length, flatten_pieces, Nat.zero_add]

/-- What the first byte of a word is not. -/
theorem not_special_of_identStart {b : UInt8} {t : Text} (h : isIdentStart (decode b t).1 = true) :
    b ≠ 34 ∧ b ≠ 39 ∧ b ≠ 96 ∧ b ≠ 46 ∧ isDigit b = false := by
  have hascii : ∀ c : UInt8, b = c → c < 0x80 → isIdentStart c.toNat = true := by
    rintro c rfl hc
    rwa [decode_ascii hc] at h
  refine ⟨?_, ?_, ?_, ?_, ?_⟩
  · exact fun hb => absurd (hascii _ hb (by decide)) (by decide)
  · exact fun hb => absurd (hascii _ hb (by decide)) (by decide)
  · exact fun hb => absurd (hascii _ hb (by decide)) (by decide)
  · exact fun hb => absurd (hascii _ hb (by decide)) (by decide)
  · rw [Bool.eq_false_iff]
    intro hdigit
    have hlt : b < 0x80 := by
      rw [isDigit_iff] at hdigit
      rw [UInt8.lt_iff_toNat_lt]
      exact Nat.lt_of_le_of_lt hdigit.2 (by decide)
    have hstart := hascii b rfl hlt
    rw [isIdentStart, isLetter, if_pos (by simpa [UInt8.lt_iff_toNat_lt] using hlt)] at hstart
    rw [UInt8.ofNat_toNat, Bool.or_eq_true, Bool.or_eq_true, isAsciiLetter_iff, beq_iff_eq,
      beq_iff_eq] at hstart
    rw [isDigit_iff] at hdigit
    omega

/-- The lexeme that a word spells. -/
def wordLexeme (w : Text) : Lexeme :=
  match Keyword.ofText? w with
  | some k => .keyword k
  | none => .ident w

theorem decode_word {b : UInt8} {r rest : Text} (hw : isWord (b :: r) = true) :
    (decode b (r ++ rest)).1 = (decode b r).1 := by
  have hpieces := pieces_append
    (fun p hp => isIdentPart_ne_replacement (identPart_of_word hw hp)) rest
  rw [List.cons_append, pieces, pieces, List.cons_append] at hpieces
  exact (Prod.mk.inj (List.cons.inj hpieces).1).1

theorem reads_word {stop : Nat} {w rest : Text} (hw : isWord w = true)
    (hrest : breaks rest = true) : Reads stop w rest (wordLexeme w) := by
  have hlen := identLength_word hw hrest
  obtain ⟨b, r, rfl, hstart⟩ := exists_cons_of_word hw
  obtain ⟨hq, hq', ht, hp, hd⟩ := not_special_of_identStart hstart
  have hnum : startsNumber (b :: (r ++ rest)) = false := by
    unfold startsNumber
    split
    · rename_i heq
      exact absurd (List.cons.inj heq).1 hp
    · rename_i heq
      rw [← (List.cons.inj heq).1]
      exact hd
    · rfl
  have htake : (b :: (r ++ rest)).take (b :: r).length = b :: r := by simp
  have hpart : isIdentStart (decode b (r ++ rest)).1 = true := by rwa [decode_word hw]
  rw [List.cons_append] at hlen
  unfold wordLexeme
  cases hk : Keyword.ofText? (b :: r) with
  | some k =>
    refine Reads.of_taken rfl hlen ?_
    rw [lexeme_plain hq hq' ht, if_neg (by simp [hnum]), if_pos hpart]
    simp only [hlen, htake, hk]
  | none =>
    refine Reads.of_taken rfl hlen ?_
    rw [lexeme_plain hq hq' ht, if_neg (by simp [hnum]), if_pos hpart]
    simp only [hlen, htake, hk]

/-! ### Numerals -/

theorem isDigit_of_mem_ofNat {n : Nat} {b : UInt8} (hb : b ∈ Text.ofNat n) : isDigit b = true := by
  obtain ⟨c, hc, rfl⟩ := List.mem_map.1 hb
  have hd := Nat.isDigit_of_mem_toDigits (by decide) (by decide) hc
  rw [isDigit_iff]
  simp only [Char.isDigit, Bool.and_eq_true, decide_eq_true_eq] at hd
  have hle : c.val.toNat ≤ 57 := hd.2
  have hge : 48 ≤ c.val.toNat := hd.1
  have hsmall : c.toUInt8.toNat = c.val.toNat := by
    show c.val.toNat % 256 = c.val.toNat
    omega
  omega

theorem ofNat_ne_nil (n : Nat) : Text.ofNat n ≠ [] := by
  simp [Text.ofNat, Nat.toDigits_ne_nil]

theorem runLength_append {p : UInt8 → Bool} {x rest : Text} (hx : ∀ b ∈ x, p b = true)
    (hrest : ∀ b ∈ rest.head?, p b = false) : runLength p (x ++ rest) = x.length := by
  rw [runLength, List.takeWhile_append_of_pos hx]
  cases rest with
  | nil => simp
  | cons b r => simp [hrest b rfl]

/-- A byte that is no part of an identifier is no digit, letter or underscore. -/
theorem not_digit_of_breaks {b : UInt8} {r : Text} (h : breaks (b :: r) = true) :
    isDigit b = false ∧ b ≠ 95 ∧ b ≠ 101 ∧ b ≠ 69 ∧ b ≠ 120 ∧ b ≠ 88 := by
  obtain ⟨hb, hpart⟩ := breaks_cons h
  have hne : ∀ c : UInt8, isIdentPart c.toNat = true → b ≠ c := by
    rintro c hc rfl
    rw [hc] at hpart
    cases hpart
  refine ⟨?_, hne _ (by decide), hne _ (by decide), hne _ (by decide), hne _ (by decide),
    hne _ (by decide)⟩
  rw [isIdentPart, Bool.or_eq_false_iff, isDecimalDigit,
    if_pos (by simpa [UInt8.lt_iff_toNat_lt] using hb), UInt8.ofNat_toNat] at hpart
  exact hpart.2

theorem numberLength_digits {x rest : Text} (hx : ∀ b ∈ x, isDigit b = true)
    (hrest : breaks rest = true) : numberLength (x ++ rest) = x.length := by
  have hwhole : runLength (fun b => isDigit b || b == 95) (x ++ rest) = x.length := by
    refine runLength_append (fun b hb => by simp [hx b hb]) fun b hb => ?_
    cases rest with
    | nil => cases hb
    | cons c r =>
      cases hb
      obtain ⟨hd, hu, -⟩ := not_digit_of_breaks hrest
      simp [hd, hu]
  have hfraction : fractionLength rest = 0 := by
    unfold fractionLength
    split
    · rename_i r
      have hzero : runLength isDigit r = 0 := by
        refine runLength_append (x := []) (fun _ h => by cases h) fun b hb => ?_
        cases r with
        | nil => cases hb
        | cons c r =>
          cases hb
          simpa [breaks] using hrest
      simp [hzero]
    · rfl
  have hexponent : exponentLength rest = 0 := by
    cases rest with
    | nil => rfl
    | cons b r =>
      obtain ⟨-, -, he, hE, -⟩ := not_digit_of_breaks hrest
      have hletter : ¬ (b == ('e' : Char).toUInt8 || b == ('E' : Char).toUInt8) = true := by
        rw [Bool.or_eq_true, beq_iff_eq, beq_iff_eq, not_or]
        exact ⟨he, hE⟩
      simp only [exponentLength, if_neg hletter]
  -- No letter follows the first digit, so the numeral is a decimal one.
  have hsecond : ∀ c r, x ++ rest = 48 :: c :: r → c ≠ 120 ∧ c ≠ 88 := by
    intro c r heq
    match x, hx, heq with
    | [], _, heq =>
      rw [List.nil_append] at heq
      rw [heq] at hrest
      exact absurd (not_digit_of_breaks hrest).1 (by decide)
    | [_], _, heq =>
      have heq : rest = c :: r := (List.cons.inj heq).2
      rw [heq] at hrest
      obtain ⟨-, -, -, -, hx, hX⟩ := not_digit_of_breaks hrest
      exact ⟨hx, hX⟩
    | _ :: d :: _, hx, heq =>
      obtain ⟨-, heq⟩ := List.cons.inj heq
      obtain ⟨rfl, -⟩ := List.cons.inj heq
      have hd := isDigit_iff.1 (hx d (by simp))
      constructor
      · rintro rfl
        exact absurd hd (by decide)
      · rintro rfl
        exact absurd hd (by decide)
  unfold numberLength
  split
  · rename_i heq
    exact absurd rfl (hsecond _ _ heq).1
  · rename_i heq
    exact absurd rfl (hsecond _ _ heq).2
  · simp only [show (fun b : UInt8 => isDigit b || b == ('_' : Char).toUInt8) =
      fun b => isDigit b || b == 95 from rfl, hwhole, List.drop_left, hfraction, Nat.add_zero,
      hexponent]

theorem reads_number {stop : Nat} {n : Nat} {rest : Text} (hrest : breaks rest = true) :
    Reads stop (Text.ofNat n) rest (.number (Text.ofNat n)) := by
  have hdigits : ∀ b ∈ Text.ofNat n, isDigit b = true := fun b hb => isDigit_of_mem_ofNat hb
  have hlen := numberLength_digits hdigits hrest
  obtain ⟨b, r, heq⟩ := List.exists_cons_of_ne_nil (ofNat_ne_nil n)
  rw [heq] at hdigits hlen ⊢
  have hb : isDigit b = true := hdigits b List.mem_cons_self
  have hrange := isDigit_iff.1 hb
  have hne : ∀ c : UInt8, isDigit c = false → b ≠ c := by
    rintro c hc rfl
    rw [hc] at hb
    cases hb
  have hstarts : startsNumber (b :: (r ++ rest)) = true := by
    unfold startsNumber
    split
    · rename_i h
      exact absurd (List.cons.inj h).1 (hne 46 (by decide))
    · rename_i h
      rw [← (List.cons.inj h).1]
      exact hb
    · rename_i h
      cases h
  have htake : (b :: (r ++ rest)).take (b :: r).length = b :: r := by simp
  rw [List.cons_append] at hlen
  refine Reads.of_taken rfl hlen ?_
  rw [lexeme_plain (hne 34 (by decide)) (hne 39 (by decide)) (hne 96 (by decide)), if_pos hstarts]
  simp only [hlen, htake]

/-! ### Marks -/

/-- Whether a longer mark goes on with a byte. -/
def lengthens (p : Punct) (b : UInt8) : Bool :=
  Punct.all.any fun q => (p.text ++ [b]).isPrefixOf q.text

/-- Whether a mark ends before a text: no longer mark stands there, and no numeral that would
take its point. -/
def endsBefore (p : Punct) : Text → Bool
  | [] => true
  | b :: _ => !lengthens p b && !((p = .dot || p = .optional) && isDigit b)

theorem split_all (p : Punct) :
    ∃ r, Punct.all = Punct.all.takeWhile (fun q => q ≠ p) ++ p :: r := by
  cases p <;> exact ⟨_, rfl⟩

theorem longer_of_before (p : Punct) : ∀ q ∈ Punct.all.takeWhile (fun q => q ≠ p),
    p.text.length ≤ q.text.length ∧ q.text ≠ p.text := by
  cases p <;> decide

theorem mark?_append {p : Punct} {rest : Text} (h : endsBefore p rest = true) :
    mark? (p.text ++ rest) = some p := by
  obtain ⟨r, hall⟩ := split_all p
  refine List.find?_eq_some_iff_append.2 ⟨?_, _, r, hall, fun q hq => ?_⟩
  · rw [isMark, startsWith, List.isPrefixOf_iff_prefix.2 (List.prefix_append _ _), Bool.true_and,
      Bool.not_eq_true', Bool.and_eq_false_iff]
    by_cases hp : p = .optional
    · subst hp
      refine .inr ?_
      cases rest with
      | nil => rfl
      | cons b r =>
        rw [endsBefore, Bool.and_eq_true, Bool.not_eq_true', Bool.not_eq_true'] at h
        exact h.2
    · exact .inl (by simpa using hp)
  · -- A mark that is tried before goes on with the first byte of the rest.
    obtain ⟨hlen, hne⟩ := longer_of_before p q hq
    rw [isMark, Bool.not_eq_true', Bool.and_eq_false_iff]
    refine .inl ?_
    rw [Bool.eq_false_iff, startsWith, Ne, List.isPrefixOf_iff_prefix]
    intro hprefix
    obtain ⟨u, hu⟩ := List.prefix_of_prefix_length_le (List.prefix_append p.text rest) hprefix hlen
    cases u with
    | nil =>
      rw [List.append_nil] at hu
      exact hne hu.symm
    | cons b u =>
      rw [← hu, List.prefix_append_right_inj] at hprefix
      obtain ⟨v, rfl⟩ := hprefix
      have hlong : lengthens p b = true := by
        refine List.any_eq_true.2 ⟨q, ?_, ?_⟩
        · rw [hall]
          exact List.mem_append_left _ hq
        · rw [List.isPrefixOf_iff_prefix, ← hu]
          exact ⟨u, by simp⟩
      simp [endsBefore, hlong] at h

theorem reads_mark {stop : Nat} {p : Punct} {rest : Text} (h : endsBefore p rest = true) :
    Reads stop p.text rest (.punct p) := by
  have hmark := mark?_append h
  obtain ⟨b, r, htext, hbyte⟩ : ∃ b r, p.text = b :: r ∧ b < 0x80 ∧ isIdentStart b.toNat = false ∧
      b ≠ 34 ∧ b ≠ 39 ∧ b ≠ 96 ∧ isDigit b = false := by
    cases p <;> exact ⟨_, _, rfl, by decide⟩
  obtain ⟨hascii, hstart, hq, hq', ht, hd⟩ := hbyte
  have hnum : startsNumber (p.text ++ rest) = false := by
    cases rest with
    | nil => cases p <;> rfl
    | cons c u =>
      rw [endsBefore, Bool.and_eq_true, Bool.not_eq_true', Bool.not_eq_true'] at h
      cases p <;> first | rfl | exact h.2
  rw [htext, List.cons_append] at hnum
  rw [htext] at hmark ⊢
  refine Reads.of_taken (n := p.text.length) rfl (by rw [htext]) ?_
  rw [lexeme_plain hq hq' ht, if_neg (by simp [hnum]),
    if_neg (by simp [decode_ascii hascii, hstart])]
  rw [List.cons_append] at hmark
  simp only [hmark]

/-! ### Strings -/

theorem stringBody_bytes {stop start : Nat} {acc x u : Text}
    (hx : ∀ b ∈ x, b ≠ 34 ∧ b ≠ 10 ∧ b ≠ 92) :
    stringBody stop start 34 acc (x ++ u) = stringBody stop start 34 (x.reverse ++ acc) u := by
  induction x generalizing acc with
  | nil => rfl
  | cons b x ih =>
    obtain ⟨hquote, hline, hslash⟩ := hx b List.mem_cons_self
    have hline' : ¬ b = ('\n' : Char).toUInt8 := hline
    have hslash' : ¬ b = ('\\' : Char).toUInt8 := hslash
    rw [List.cons_append, stringBody, if_neg hquote, if_neg hline', if_neg hslash',
      ih fun c hc => hx c (List.mem_cons_of_mem _ hc), List.reverse_cons, List.append_assoc]
    rfl

theorem stringBody_escape {stop start : Nat} {acc : Text} {b : UInt8} {v t u : Text}
    (h : escape (b :: t) = .ok (v, u)) :
    stringBody stop start 34 acc (92 :: b :: t) =
      stringBody stop start 34 (v.reverse ++ acc) u := by
  have hline : ¬ (92 : UInt8) = ('\n' : Char).toUInt8 := by decide
  have hslash : (92 : UInt8) = ('\\' : Char).toUInt8 := by decide
  rw [stringBody, if_neg (by decide), if_neg hline, if_pos hslash]
  split
  · rename_i h'
    rw [h] at h'
    cases h'
  · rename_i h'
    rw [h] at h'
    cases h'
    rfl

/-- The characters of a quoted text. -/
def quoted (s : Text) : Text := (pieces s).flatMap fun p => quotePiece p.1 p.2

theorem quote_eq (s : Text) : quote s = 34 :: (quoted s ++ [34]) := rfl

/-- The characters between quotes are read one after another, each as its own text is. -/
theorem stringBody_characters {stop start : Nat} {s rest : Text} {f : Nat × Text → Text}
    (h : ∀ p ∈ pieces s, ∀ acc u, stringBody stop start 34 acc (quotePiece p.1 p.2 ++ u) =
      stringBody stop start 34 ((f p).reverse ++ acc) u) :
    stringBody stop start 34 [] (quoted s ++ [34] ++ rest) = .ok ((pieces s).flatMap f, rest) := by
  have hrun : ∀ (l : List (Nat × Text)) (acc : Text), (∀ p ∈ l, p ∈ pieces s) →
      stringBody stop start 34 acc (l.flatMap (fun p => quotePiece p.1 p.2) ++ 34 :: rest) =
        .ok (acc.reverse ++ l.flatMap f, rest) := by
    intro l
    induction l with
    | nil =>
      intro acc _
      simp [stringBody]
    | cons p l ih =>
      intro acc hl
      rw [List.flatMap_cons, List.append_assoc, h p (hl p List.mem_cons_self),
        ih _ fun q hq => hl q (List.mem_cons_of_mem _ hq)]
      simp
  rw [List.append_assoc, List.singleton_append, quoted, hrun (pieces s) [] fun _ hp => hp]
  rfl

/-- The token of a quoted text holds what its characters are read as. -/
theorem reads_quoted {stop : Nat} {s v rest : Text} (h : ∀ start,
    stringBody stop start 34 [] (quoted s ++ [34] ++ rest) = .ok (v, rest)) :
    Reads stop (quote s) rest (.str v) := by
  have hw : (Lexeme.str v).weight + rest.length ≤ (34 :: (quoted s ++ [34] ++ rest)).length := by
    simp only [Lexeme.weight, List.length_cons, List.length_append]
    omega
  refine ⟨34, quoted s ++ [34], hw, quote_eq s, ?_⟩
  have hquote : (decide ((34 : UInt8) = ('"' : Char).toUInt8) ||
      decide ((34 : UInt8) = ('\'' : Char).toUInt8)) = true := by decide
  rw [lexeme]
  simp only [if_pos hquote]
  split
  · rename_i heq
    rw [h] at heq
    cases heq
  · rename_i heq
    rw [h] at heq
    cases heq
    rfl

end Lexer

end Reactive
