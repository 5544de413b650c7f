/-
Where the body of a raw-text element ends.

The closing tag is looked for in the lower case form of a text, and the place
found there is taken for a place of the text itself.  These are the same places
if every character is as long as its lower case form: then the body ends at the
first closing tag, whatever the case of its letters, and an element is
unterminated if there is none.  A character such as U+0130, whose lower case
form is one byte shorter, moves every place after it.

* `Text.lowered_lower` — such a text and its lower case form, byte by byte;
* `closingTag?_spec` — the place found is that of the first closing tag;
* `Token.scan_raw`, `Token.scan_unclosed` — the body as a token.
-/
import Mathlib.Data.List.Forall2
import Reactive.Proofs.Template.Tiling
import Reactive.Proofs.Text.Encoding
import Reactive.Proofs.Text.Pieces

namespace Reactive

namespace Text

/-! ### Lower case in place -/

/-- Every character is as long as its lower case form. -/
def LowersInPlace (t : Text) : Prop :=
  ∀ p ∈ pieces t, (ofCodePoint (lowerCode p.1)).length = p.2.length

/-- An ASCII byte and its lower case, or two bytes outside ASCII. -/
def Lowered (b c : UInt8) : Prop := (b < 0x80 ∧ c = asciiLower b) ∨ (0x80 ≤ b ∧ 0x80 ≤ c)

theorem ofNat_outside {n : Nat} (h : 0x80 ≤ n) (hn : n < 256) : 0x80 ≤ UInt8.ofNat n := by
  rw [UInt8.le_iff_toNat_le, UInt8.toNat_ofNat_of_lt' hn]
  exact h

/-- The bytes of a code point outside ASCII lie outside ASCII. -/
theorem ofCodePoint_outside {c : Nat} (h : 0x80 ≤ c) : ∀ b ∈ ofCodePoint c, 0x80 ≤ b := by
  rw [ofCodePoint, if_neg (Nat.not_lt.2 h)]
  split
  · intro b hb
    simp only [List.mem_cons, List.not_mem_nil, or_false] at hb
    rcases hb with rfl | rfl <;> exact ofNat_outside (by omega) (by omega)
  split
  · intro b hb
    simp only [List.mem_cons, List.not_mem_nil, or_false] at hb
    rcases hb with rfl | rfl | rfl <;> decide
  rename_i hscalar
  have hbound : c < 0x110000 := by
    simp only [isScalar, Bool.not_eq_true', Bool.or_eq_false_iff, Bool.and_eq_false_iff,
      decide_eq_false_iff_not, not_and] at hscalar
    omega
  split
  · intro b hb
    simp only [List.mem_cons, List.not_mem_nil, or_false] at hb
    rcases hb with rfl | rfl | rfl <;> exact ofNat_outside (by omega) (by omega)
  · intro b hb
    simp only [List.mem_cons, List.not_mem_nil, or_false] at hb
    rcases hb with rfl | rfl | rfl | rfl <;> exact ofNat_outside (by omega) (by omega)

theorem forall₂_outside {s t : Text} (hlen : s.length = t.length) (hs : ∀ b ∈ s, 0x80 ≤ b)
    (ht : ∀ b ∈ t, 0x80 ≤ b) : List.Forall₂ Lowered s t := by
  rw [List.forall₂_iff_zip]
  exact ⟨hlen, fun hab => .inr ⟨hs _ (List.of_mem_zip hab).1, ht _ (List.of_mem_zip hab).2⟩⟩

theorem lt_of_length_ofCodePoint {c : Nat} (h : (ofCodePoint c).length = 1) : c < 0x80 := by
  by_contra hc
  rw [ofCodePoint, if_neg hc] at h
  split at h
  · cases h
  split at h
  · cases h
  split at h <;> cases h

theorem ofCodePoint_lowerCode {b : UInt8} (hb : b < 0x80) :
    ofCodePoint (lowerCode b.toNat) = [asciiLower b] := by
  have hsmall : b.toNat < 0x80 := UInt8.lt_iff_toNat_lt.1 hb
  rw [lowerCode, if_pos hsmall, asciiLower]
  have hcase : (('A' : Char).toUInt8 ≤ b && b ≤ ('Z' : Char).toUInt8) =
      (65 ≤ b.toNat && b.toNat ≤ 90) := by
    simp only [UInt8.le_iff_toNat_le]
    rfl
  rw [hcase]
  split
  · rename_i hupper
    rw [Bool.and_eq_true, decide_eq_true_eq, decide_eq_true_eq] at hupper
    rw [ofCodePoint, if_pos (by omega), UInt8.ofNat_add, UInt8.ofNat_toNat]
    rfl
  · rw [ofCodePoint, if_pos hsmall, UInt8.ofNat_toNat]

/-- A character that is as long as its lower case form, byte by byte. -/
theorem lowered_piece {t : Text} {p : Nat × Text} (hp : p ∈ pieces t)
    (hlen : (ofCodePoint (lowerCode p.1)).length = p.2.length) :
    List.Forall₂ Lowered p.2 (ofCodePoint (lowerCode p.1)) := by
  rcases mem_pieces hp with ⟨b, hb, rfl⟩ | hbytes
  · rw [ofCodePoint_lowerCode hb]
    exact .cons (.inl ⟨hb, rfl⟩) .nil
  · refine forall₂_outside hlen.symm hbytes (ofCodePoint_outside (Nat.not_lt.1 fun hascii => ?_))
    -- A lower case form in ASCII has one byte, and only what encodes nothing has one byte as well.
    have hone : p.2.length = 1 := by
      rw [← hlen, ofCodePoint, if_pos hascii]
      rfl
    by_cases hstray : Stray p
    · rw [hstray.1] at hascii
      exact absurd hascii (by decide +kernel)
    · have hbytes' := ofCodePoint_piece hp hstray
      have hsmall : p.1 < 0x80 := lt_of_length_ofCodePoint (by rw [hbytes', hone])
      rw [ofCodePoint, if_pos hsmall] at hbytes'
      rw [← hbytes', List.forall_mem_singleton, UInt8.le_iff_toNat_le,
        UInt8.toNat_ofNat_of_lt' (show p.1 < 256 by omega)] at hbytes
      exact Nat.not_lt.2 hbytes hsmall

/-- A text and its lower case form, if no character changes its length. -/
theorem lowered_lower {t : Text} (h : t.LowersInPlace) : List.Forall₂ Lowered t (lower t) := by
  have hparts : ∀ l : List (Nat × Text), (∀ p ∈ l, p ∈ pieces t) →
      List.Forall₂ Lowered (l.flatMap Prod.snd) (ofCodePoints ((l.map Prod.fst).map lowerCode)) := by
    intro l hl
    induction l with
    | nil => exact .nil
    | cons p l ih =>
      rw [List.forall_mem_cons] at hl
      exact List.rel_append (lowered_piece hl.1 (h p hl.1)) (ih hl.2)
  have hall := hparts (pieces t) fun _ hp => hp
  rwa [flatten_pieces] at hall

/-! ### The first place of a text -/

theorem indexOf?_prefix {p t : Text} {i : Nat} (h : indexOf? p t = some i) : p <+: t.drop i := by
  obtain ⟨u, w, rfl, rfl⟩ := indexOf?_spec h
  rw [List.drop_left]
  exact List.prefix_append p w

theorem not_prefix_of_indexOf? {p t : Text} {j : Nat} (h : ∀ i, indexOf? p t = some i → j < i) :
    ¬ p <+: t.drop j := by
  intro hp
  induction t generalizing j with
  | nil =>
    rw [List.drop_nil, List.prefix_nil] at hp
    rw [hp] at h
    exact absurd (h 0 rfl) (Nat.not_lt_zero j)
  | cons b t ih =>
    rw [indexOf?] at h
    split at h
    · exact absurd (h 0 rfl) (Nat.not_lt_zero j)
    · rename_i hfront
      cases j with
      | zero => exact hfront (List.isPrefixOf_iff_prefix.2 hp)
      | succ j =>
        refine ih (fun i hi => ?_) hp
        have hlt := h (i + 1) (by rw [hi]; rfl)
        omega

/-- Where a text stands first from a place on. -/
theorem indexOf?_drop {p t : Text} {i k : Nat} (h : indexOf? p (t.drop k) = some i) :
    p <+: t.drop (i + k) ∧ ∀ j, k ≤ j → p <+: t.drop j → i + k ≤ j := by
  refine ⟨?_, fun j hj hp => ?_⟩
  · rw [Nat.add_comm, ← List.drop_drop]
    exact indexOf?_prefix h
  · by_contra hlt
    obtain ⟨d, rfl⟩ := Nat.exists_eq_add_of_le hj
    rw [← List.drop_drop] at hp
    refine not_prefix_of_indexOf? (fun i' hi' => ?_) hp
    rw [h] at hi'
    cases hi'
    omega

/-- A text that stands nowhere from a place on. -/
theorem indexOf?_drop_none {p t : Text} {k : Nat} (h : indexOf? p (t.drop k) = none) {j : Nat}
    (hj : k ≤ j) : ¬ p <+: t.drop j := by
  obtain ⟨d, rfl⟩ := Nat.exists_eq_add_of_le hj
  rw [← List.drop_drop]
  exact not_prefix_of_indexOf? fun i hi => by rw [h] at hi; cases hi

/-- Two places of a text whose first byte does not come again do not overlap. -/
theorem not_prefix_inside {c : UInt8} {p t : Text} (hc : c ∉ p) {i j : Nat}
    (h : c :: p <+: t.drop i) (hij : i < j) (hj : j < i + (c :: p).length) :
    ¬ c :: p <+: t.drop j := by
  rintro ⟨w, hw⟩
  obtain ⟨u, hu⟩ := h
  obtain ⟨k, rfl⟩ : ∃ k, j = i + 1 + k := ⟨j - (i + 1), by omega⟩
  have hk : k < p.length := by rw [List.length_cons] at hj; omega
  have hfront : t[i + 1 + k]? = some c := by
    have hhead := congrArg (fun l => l[0]?) hw
    simpa [List.getElem?_drop] using hhead.symm
  have hinside : t[i + 1 + k]? = p[k]? := by
    have hplace := congrArg (fun l => l[k + 1]?) hu
    simp only [List.cons_append, List.getElem?_cons_succ, List.getElem?_drop,
      List.getElem?_append_left hk] at hplace
    rw [hplace]
    congr 1
    omega
  rw [hfront] at hinside
  exact hc (List.mem_of_getElem? hinside.symm)

end Text

namespace Template

open Scanner Text

/-! ### Closing tags -/

/-- A byte after which a tag name does not go on. -/
def EndsName (b : UInt8) : Prop := b = '>' ∨ b = '/' ∨ isMarkupBlank b = true

/-- A closing tag stands at the front of a text: its mark and its name, whatever the case of their
letters, and then a byte that ends a name, or nothing. -/
def ClosesElement (tag s : Text) : Prop :=
  ∃ mark r, s = mark ++ r ∧ mark.map asciiLower = "</" ++ lower tag ∧ ∀ b ∈ r.head?, EndsName b

theorem asciiLower_outside {b : UInt8} (h : 0x80 ≤ b) : asciiLower b = b := by
  rw [asciiLower, if_neg]
  rw [Bool.and_eq_true, decide_eq_true_eq, decide_eq_true_eq, UInt8.le_iff_toNat_le,
    UInt8.le_iff_toNat_le]
  have hb := UInt8.le_iff_toNat_le.1 h
  exact fun hupper => absurd (Nat.le_trans hb hupper.2) (by decide)

/-- The mark of a closing tag in a text and in its lower case form. -/
theorem prefix_lowered_iff {needle s s' : Text} (hneedle : ∀ b ∈ needle, b < 0x80)
    (h : List.Forall₂ Lowered s s') :
    needle <+: s' ↔ ∃ mark r, s = mark ++ r ∧ mark.map asciiLower = needle := by
  induction needle generalizing s s' with
  | nil => exact ⟨fun _ => ⟨[], s, rfl, rfl⟩, fun _ => List.nil_prefix⟩
  | cons n needle ih =>
    rw [List.forall_mem_cons] at hneedle
    cases h with
    | nil =>
      refine ⟨fun h => ?_, ?_⟩
      · cases List.prefix_nil.1 h
      · rintro ⟨mark, r, heq, hmark⟩
        rw [(List.nil_eq_append_iff.1 heq).1] at hmark
        cases hmark
    | @cons b c s s' hbc hrest =>
      constructor
      · intro hfront
        obtain ⟨rfl, hnext⟩ := List.cons_prefix_cons.1 hfront
        obtain ⟨mark, r, rfl, hmark⟩ := (ih hneedle.2 hrest).1 hnext
        rcases hbc with ⟨-, rfl⟩ | ⟨-, houtside⟩
        · exact ⟨b :: mark, r, rfl, congrArg _ hmark⟩
        · exact absurd hneedle.1 (UInt8.not_lt.2 houtside)
      · rintro ⟨mark, r, heq, hmark⟩
        cases mark with
        | nil => cases hmark
        | cons d mark =>
          obtain ⟨rfl, rfl⟩ := List.cons.inj heq
          obtain ⟨rfl, hnext⟩ := List.cons.inj hmark
          have hc : c = asciiLower b := by
            rcases hbc with ⟨-, hc⟩ | ⟨houtside, -⟩
            · exact hc
            · rw [asciiLower_outside houtside] at hneedle
              exact absurd hneedle.1 (UInt8.not_lt.2 houtside)
          exact List.cons_prefix_cons.2 ⟨hc.symm, (ih hneedle.2 hrest).2 ⟨mark, r, rfl, hnext⟩⟩

section

variable {body lowered needle : Text}

/-- A place of the lower case form that is taken for a closing tag. -/
def Found (body lowered needle : Text) (i : Nat) : Prop :=
  needle <+: lowered.drop i ∧ ∀ b ∈ body[i + needle.length]?, EndsName b

theorem endsName_iff {o : Option UInt8} :
    (match o with
      | none => true
      | some b => b == '>' || isMarkupBlank b || b == '/') = true ↔ ∀ b ∈ o, EndsName b := by
  cases o with
  | none => simp
  | some b =>
    simp only [Option.mem_some_iff, forall_eq', EndsName, Bool.or_eq_true, beq_iff_eq]
    tauto

/-- The search finds the first place from where it starts. -/
theorem closingTagFrom_spec {c : UInt8} {name : Text} (hc : c ∉ name)
    (hlen : lowered.length = body.length) (from_ : Nat) :
    (∀ i, closingTagFrom body lowered (c :: name) from_ = some i →
      from_ ≤ i ∧ Found body lowered (c :: name) i) ∧
    ∀ j, from_ ≤ j → Found body lowered (c :: name) j →
      ∃ i ≤ j, closingTagFrom body lowered (c :: name) from_ = some i := by
  fun_induction closingTagFrom body lowered (c :: name) from_ with
  | case1 from_ hnone =>
    exact ⟨fun i hi => (by cases hi),
      fun j hj hfound => absurd hfound.1 (indexOf?_drop_none hnone hj)⟩
  | case2 from_ i hi after ends hends =>
    obtain ⟨hhere, hfirst⟩ := indexOf?_drop hi
    refine ⟨fun k hk => ?_, fun j hj hfound => ⟨_, hfirst j hj hfound.1, rfl⟩⟩
    cases hk
    exact ⟨Nat.le_add_left _ _, hhere, endsName_iff.1 hends⟩
  | case3 from_ i hi after ends hends hlt ih =>
    obtain ⟨hhere, hfirst⟩ := indexOf?_drop hi
    refine ⟨fun k hk => ?_, fun j hj hfound => ih.2 j ?_ hfound⟩
    · exact ⟨Nat.le_trans (Nat.le_of_lt hlt.2) (ih.1 k hk).1, (ih.1 k hk).2⟩
    · -- The name is not ended at the place found, and the next one does not overlap it.
      by_contra hbefore
      rcases Nat.eq_or_lt_of_le (hfirst j hj hfound.1) with heq | hlater
      · rw [← heq] at hfound
        exact hends (endsName_iff.2 hfound.2)
      · exact not_prefix_inside hc hhere hlater (Nat.not_le.1 hbefore) hfound.1
  | case4 from_ i hi after ends hends hlt =>
    -- The text ends before the name is ended.
    obtain ⟨hhere, -⟩ := indexOf?_drop hi
    have hfits := hhere.length_le
    have hafter : body.length ≤ after := by
      rw [List.length_drop, List.length_cons] at hfits
      simp only [after, List.length_cons] at hlt ⊢
      omega
    refine absurd (endsName_iff.2 fun b hb => ?_) hends
    rw [List.getElem?_eq_none hafter] at hb
    cases hb

end

/-- The places that are taken for a closing tag are those of one, if no character changes its length
in lower case. -/
theorem found_iff {tag body : Text} (htag : isRawTextTag tag = true) (hbody : body.LowersInPlace)
    (i : Nat) : Found body (lower body) ("</" ++ lower tag) i ↔ ClosesElement tag (body.drop i) := by
  have hneedle : ∀ b ∈ ("</" : Text) ++ lower tag, b < 0x80 := by
    have hall : ∀ name ∈ rawTextTags, ("</" ++ name : Text).all (fun b => decide (b < 0x80)) = true := by
      decide
    rw [isRawTextTag, List.contains_iff_mem] at htag
    exact fun b hb => of_decide_eq_true (List.all_eq_true.1 (hall _ htag) b hb)
  have hlowered : List.Forall₂ Lowered (body.drop i) ((lower body).drop i) :=
    List.forall₂_drop i (lowered_lower hbody)
  have hnext : ∀ {mark r : Text}, body.drop i = mark ++ r →
      mark.map asciiLower = "</" ++ lower tag →
      body[i + ("</" ++ lower tag : Text).length]? = r.head? := by
    intro mark r hdrop hmark
    rw [← hmark, List.length_map, ← List.getElem?_drop, hdrop,
      List.getElem?_append_right (Nat.le_refl _), Nat.sub_self, List.head?_eq_getElem?]
  rw [Found, prefix_lowered_iff hneedle hlowered]
  constructor
  · rintro ⟨⟨mark, r, hdrop, hmark⟩, hends⟩
    rw [hnext hdrop hmark] at hends
    exact ⟨mark, r, hdrop, hmark, hends⟩
  · rintro ⟨mark, r, hdrop, hmark, hends⟩
    refine ⟨⟨mark, r, hdrop, hmark⟩, ?_⟩
    rwa [hnext hdrop hmark]

section

variable {tag body : Text}

/-- **The end of a raw body is the first closing tag**, if no character changes its length in lower
case. -/
theorem closingTag?_spec (htag : isRawTextTag tag = true) (hbody : body.LowersInPlace) :
    (∀ i, closingTag? body tag = some i → ClosesElement tag (body.drop i)) ∧
    ∀ j, ClosesElement tag (body.drop j) → ∃ i ≤ j, closingTag? body tag = some i := by
  have hname : ('<' : Char).toUInt8 ∉ ('/' : Char).toUInt8 :: lower tag := by
    rw [isRawTextTag, List.contains_iff_mem] at htag
    generalize lower tag = name at htag
    revert name
    decide
  have hlen : (lower body).length = body.length := (lowered_lower hbody).length_eq.symm
  obtain ⟨hsome, hleast⟩ := closingTagFrom_spec hname hlen 0
  refine ⟨fun i hi => (found_iff htag hbody i).1 (hsome i hi).2, fun j hj => ?_⟩
  exact hleast j (Nat.zero_le j) ((found_iff htag hbody j).2 hj)

/-- U+023A is one byte longer in lower case: the body would take a byte of its closing tag. -/
example : closingTag? "Ⱥ</pre>" "pre" = some 3 := by with_unfolding_all rfl

/-- U+0130 is one byte shorter in lower case: what ends the name is looked for inside of it. -/
example : closingTag? "İ</script>" "script" = none := by with_unfolding_all rfl

end

/-- The token of a raw body; an empty body has none. -/
def rawTokens (stop : Nat) (body closing : Text) : List Token :=
  if body.isEmpty then []
  else [⟨.raw, body, offset stop (body ++ closing), offset stop (body ++ closing)⟩]

section

variable {tag s : Text} (htag : isRawTextTag tag = true) (hs : s.LowersInPlace)

include htag hs

/-- A raw body is one token up to the first closing tag, and reading goes on outside of tags. -/
theorem Token.scan_raw {body closing : Text} (hsplit : s = body ++ closing)
    (hclosing : ClosesElement tag closing)
    (hfirst : ∀ i < body.length, ¬ ClosesElement tag (s.drop i)) (stop start : Nat) :
    Token.scan stop (.raw tag start) s =
      (Token.scan stop .data closing).map (rawTokens stop body closing ++ ·) := by
  have hplace : closingTag? s tag = some body.length := by
    have hat : ClosesElement tag (s.drop body.length) := by rwa [hsplit, List.drop_left]
    obtain ⟨i, hi, hsome⟩ := (closingTag?_spec htag hs).2 body.length hat
    have hcloses := (closingTag?_spec htag hs).1 i hsome
    rcases Nat.lt_or_eq_of_le hi with hlt | rfl
    · exact absurd hcloses (hfirst i hlt)
    · exact hsome
  subst hsplit
  cases body with
  | nil =>
    have hdata : nextToken stop (.raw tag start) ([] ++ closing) =
        nextToken stop .data ([] ++ closing) := by
      rw [nextToken_raw, rawToken, hplace]
      rfl
    rw [Token.scan, hdata, List.nil_append, ← Token.scan.eq_def]
    cases Token.scan stop .data closing <;> rfl
  | cons b body =>
    have hstep : nextToken stop (.raw tag start) (b :: (body ++ closing)) =
        .ok (some (stepBy stop .raw body.length (b :: body) (offset stop (b :: (body ++ closing))) .data
          b (body ++ closing))) := by
      rw [List.cons_append] at hplace
      have hfits : body.length + 1 ≤ (body ++ closing).length + 1 := by
        rw [List.length_append]
        omega
      have htake : (b :: (body ++ closing)).take (body.length + 1) = b :: body := by
        rw [List.take_succ_cons, List.take_left]
      rw [nextToken_raw, rawToken, hplace]
      simp only [List.length_cons, htake]
      rw [if_pos hfits]
    rw [List.cons_append, Token.scan, hstep]
    simp only [stepBy, List.drop_left]
    cases Token.scan stop .data closing <;> rfl

/-- Without a closing tag the element is unterminated. -/
theorem Token.scan_unclosed (hnone : ∀ i, ¬ ClosesElement tag (s.drop i)) (stop start : Nat) :
    Token.scan stop (.raw tag start) s = .error (.malformed (.unterminatedElement tag) start) := by
  have hclosing : closingTag? s tag = none := by
    rw [Option.eq_none_iff_forall_ne_some]
    exact fun i hi => hnone i ((closingTag?_spec htag hs).1 i hi)
  rw [Token.scan, nextToken_raw, rawToken, hclosing]

end

end Template

end Reactive
