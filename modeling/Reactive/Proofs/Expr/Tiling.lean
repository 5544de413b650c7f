/-
The tokens of an expression or a script tile its source.

A source that is read is a row of tiles, each a gap and a lexeme, and a last
gap.  Gaps hold blanks, line breaks and complete comments; a lexeme is as long
as its token allows: no other mark that stands at its place is longer, and no
identifier character follows a word.

* `skipBlanks_spec` — what is passed over before a token;
* `mark?_longest` — the mark that is taken is the longest of those that stand there;
* `holes_templateBody` — the expressions in a template literal, in order;
* `lexeme_spells` — how each lexeme is spelled;
* `Token.ofSource_longest` — the tiles of a source.
-/
import Reactive.Proofs.Expr.Canonical
import Reactive.Proofs.Text.Words

namespace Reactive

namespace Lexer

open Text

/-! ### Gaps -/

/-- Blanks, line breaks and complete comments, where `rest` follows.  A line comment goes up to a line
break or to the end, a block comment up to its first end mark. -/
inductive Gap (rest : Text) : Text → Prop where
  | nil : Gap rest []
  | blank {b g} : b = 32 ∨ b = 9 ∨ b = 13 ∨ b = 10 → Gap rest g → Gap rest (b :: g)
  | line {c g} : 10 ∉ c → (∀ b ∈ (g ++ rest).head?, b = 10) → Gap rest g →
      Gap rest (47 :: 47 :: (c ++ g))
  | block {c g} : ¬ [42, 47] <:+: c ++ [42] → Gap rest g →
      Gap rest (47 :: 42 :: (c ++ 42 :: 47 :: g))

theorem restOfLine_spec (s : Text) :
    ∃ c, s = c ++ restOfLine s ∧ 10 ∉ c ∧ ∀ b ∈ (restOfLine s).head?, b = 10 := by
  induction s with
  | nil => exact ⟨[], rfl, List.not_mem_nil, fun b hb => by cases hb⟩
  | cons b r ih =>
    rw [restOfLine]
    split
    · rename_i hb
      refine ⟨[], rfl, List.not_mem_nil, fun c hc => ?_⟩
      cases hc
      exact beq_iff_eq.1 hb
    · rename_i hb
      obtain ⟨c, hc, hline, hend⟩ := ih
      refine ⟨b :: c, congrArg _ hc, fun hmem => ?_, hend⟩
      rcases List.mem_cons.1 hmem with rfl | hmem
      · exact hb rfl
      · exact hline hmem

theorem afterComment?_spec {newline broke : Bool} {s r : Text}
    (h : afterComment? newline s = some (broke, r)) :
    ∃ c, s = c ++ 42 :: 47 :: r ∧ ¬ [42, 47] <:+: c ++ [42] ∧
      broke = (newline || c.contains 10) := by
  fun_induction afterComment? newline s with
  | case1 =>
    cases h
    refine ⟨[], rfl, fun hmark => ?_, ?_⟩
    · exact absurd hmark.length_le (by decide)
    · rw [List.contains_nil, Bool.or_false]
  | case2 newline b s hopen ih =>
    obtain ⟨c, rfl, hmark, rfl⟩ := ih h
    refine ⟨b :: c, rfl, fun hin => ?_, ?_⟩
    · rcases List.infix_cons_iff.1 hin with hfront | hin
      · obtain ⟨hb, hnext⟩ := List.cons_prefix_cons.1 hfront
        cases c with
        | nil => cases List.cons_prefix_cons.1 hnext |>.1
        | cons d c => exact hopen _ hb.symm (congrArg (· :: _) (List.cons_prefix_cons.1 hnext).1.symm)
      · exact hmark hin
    · rw [List.contains_cons, Bool.or_assoc]
      congr 2
      exact Bool.beq_comm
  | case3 => cases h

/-- What is passed over before a token is a gap, and a line break is noted if there is one in it. -/
theorem skipBlanks_spec {stop : Nat} {newline newline' : Bool} {s s' : Text}
    (h : skipBlanks stop newline s = .ok (newline', s')) :
    ∃ g, s = g ++ s' ∧ Gap s' g ∧ newline' = (newline || g.contains 10) := by
  have hblank : ∀ {b : UInt8} {r : Text} {n n' : Bool}, b = 32 ∨ b = 9 ∨ b = 13 ∨ b = 10 →
      n' = (n || 10 == b) → (∃ g, r = g ++ s' ∧ Gap s' g ∧ newline' = (n' || g.contains 10)) →
      ∃ g, b :: r = g ++ s' ∧ Gap s' g ∧ newline' = (n || g.contains 10) := by
    rintro b _ n _ hb rfl ⟨g, rfl, hg, rfl⟩
    exact ⟨b :: g, rfl, .blank hb hg, by rw [List.contains_cons, Bool.or_assoc]⟩
  fun_induction skipBlanks stop newline s with
  | case1 newline r ih => exact hblank (by decide) (Bool.or_true _).symm (ih h)
  | case2 newline r ih | case3 newline r ih | case4 newline r ih =>
    exact hblank (by decide) (Bool.or_false _).symm (ih h)
  | case5 newline r ih =>
    obtain ⟨g, hg, hgap, rfl⟩ := ih h
    obtain ⟨c, hr, hline, hend⟩ := restOfLine_spec r
    rw [hg] at hr hend
    refine ⟨47 :: 47 :: (c ++ g), by rw [hr]; simp, .line hline hend hgap, ?_⟩
    simp [hline]
  | case6 newline r broke r' hcomment ih =>
    obtain ⟨g, rfl, hgap, rfl⟩ := ih h
    obtain ⟨c, rfl, hmark, rfl⟩ := afterComment?_spec hcomment
    refine ⟨47 :: 42 :: (c ++ 42 :: 47 :: g), by simp, .block hmark hgap, ?_⟩
    simp [Bool.or_assoc]
  | case7 => cases h
  | case8 newline s =>
    cases h
    exact ⟨[], rfl, .nil, by rw [List.contains_nil, Bool.or_false]⟩

/-! ### Marks -/

/-- A mark stands at the front of a text; `?.` does not stand before a digit. -/
def Stands (p : Punct) (s : Text) : Prop :=
  p.text <+: s ∧ (p = .optional → ∀ b ∈ (s.drop 2).head?, isDigit b = false)

theorem isMark_iff {p : Punct} {s : Text} : isMark s p = true ↔ Stands p s := by
  rw [isMark, startsWith, Bool.and_eq_true, List.isPrefixOf_iff_prefix, Stands]
  refine and_congr_right fun _ => ?_
  by_cases hp : p = .optional
  · cases s.drop 2 <;> simp [hp]
  · simp [hp]

/-- The marks are tried from the longest to the shortest. -/
theorem all_sorted : Punct.all.Pairwise fun p q => q.text.length ≤ p.text.length := by
  decide

theorem mem_all (p : Punct) : p ∈ Punct.all := by
  cases p <;> decide

/-- The mark that is taken is the longest one that stands there. -/
theorem mark?_longest {s : Text} {p : Punct} (h : mark? s = some p) :
    Stands p s ∧ ∀ q, Stands q s → q.text.length ≤ p.text.length := by
  obtain ⟨hp, before, after, hall, hbefore⟩ := List.find?_eq_some_iff_append.1 h
  refine ⟨isMark_iff.1 hp, fun q hq => ?_⟩
  have hsorted := all_sorted
  have hmem := mem_all q
  rw [hall, List.pairwise_append] at hsorted
  rw [hall, List.mem_append, List.mem_cons] at hmem
  rcases hmem with hmem | rfl | hmem
  · have hnot := hbefore q hmem
    rw [isMark_iff.2 hq] at hnot
    cases hnot
  · exact Nat.le_refl _
  · exact List.rel_of_pairwise_cons hsorted.2.1 hmem

/-! ### Strings -/

/-- What stands between the quotes of a string: quotes and line breaks are escaped. -/
inductive Inside (quote : UInt8) : Text → Prop where
  | nil : Inside quote []
  | byte {b y} : b ≠ quote → b ≠ 10 → b ≠ 92 → Inside quote y → Inside quote (b :: y)
  | escape {b y} : Inside quote y → Inside quote (92 :: b :: y)

/-- An escape takes a byte and hexadecimal digits. -/
theorem escape_digits {s v r : Text} (h : escape s = .ok (v, r)) :
    ∃ b ds, s = b :: (ds ++ r) ∧ ∀ d ∈ ds, isHexDigit d = true := by
  have hex : ∀ {n : Nat} {t : Text}, (hexEscape? n t).elim
      (Except.error SyntaxCause.invalidEscape) Except.ok = Except.ok (v, r) →
      ∃ ds, t = ds ++ r ∧ ∀ d ∈ ds, isHexDigit d = true := by
    intro n t ht
    rw [hexEscape?, hexValue?] at ht
    split at ht
    · cases ht
    split at ht
    · rename_i hall
      cases ht
      exact ⟨t.take n, (List.take_append_drop n t).symm, List.all_eq_true.1 hall⟩
    · cases ht
  unfold escape at h
  split at h
  case h_6 =>
    obtain ⟨ds, rfl, hds⟩ := hex h
    exact ⟨_, ds, rfl, hds⟩
  case h_7 =>
    obtain ⟨ds, rfl, hds⟩ := hex h
    exact ⟨_, ds, rfl, hds⟩
  all_goals cases h
  all_goals exact ⟨_, [], rfl, fun _ hd => absurd hd List.not_mem_nil⟩

theorem not_special_of_hex {d : UInt8} (h : isHexDigit d = true) :
    d ≠ 34 ∧ d ≠ 39 ∧ d ≠ 96 ∧ d ≠ 92 ∧ d ≠ 10 ∧ d ≠ 36 := by
  refine ⟨?_, ?_, ?_, ?_, ?_, ?_⟩ <;> rintro rfl <;> cases h

theorem Inside.digits {quote : UInt8} {ds y : Text} (hquote : quote = 34 ∨ quote = 39)
    (hds : ∀ d ∈ ds, isHexDigit d = true) (hy : Inside quote y) : Inside quote (ds ++ y) := by
  induction ds with
  | nil => exact hy
  | cons d ds ih =>
    rw [List.forall_mem_cons] at hds
    obtain ⟨hq, hq', -, hb, hn, -⟩ := not_special_of_hex hds.1
    have hne : d ≠ quote := by rcases hquote with rfl | rfl <;> assumption
    exact .byte hne hn hb (ih hds.2)

/-- A string ends at its first quote that is not escaped. -/
theorem inside_stringBody {stop start : Nat} {quote : UInt8} {acc s v r : Text}
    (hquote : quote = 34 ∨ quote = 39) (h : stringBody stop start quote acc s = .ok (v, r)) :
    ∃ y, s = y ++ quote :: r ∧ Inside quote y := by
  fun_induction stringBody stop start quote acc s with
  | case1 => cases h
  | case2 =>
    cases h
    exact ⟨[], rfl, .nil⟩
  | case3 => cases h
  | case4 => cases h
  | case5 acc r' w r'' hescape _ _ ih =>
    obtain ⟨c, ds, rfl, hds⟩ := escape_digits hescape
    obtain ⟨y, rfl, hy⟩ := ih h
    exact ⟨92 :: c :: (ds ++ y), by simp; rfl, .escape (hy.digits hquote hds)⟩
  | case6 acc b r' hq hn hb ih =>
    obtain ⟨y, rfl, hy⟩ := ih h
    exact ⟨b :: y, rfl, .byte hq hn hb hy⟩

/-! ### Template literals -/

/-- What stands between the backticks of a template literal, and the expressions in it, in order.
Each starts after its opening brace; `rest` follows the literal in a source that ends at `stop`. -/
inductive Holes (stop : Nat) (rest : Text) : Text → List Interpolation → Prop where
  | nil : Holes stop rest [] []
  | byte {b y ps} : b ≠ 96 → b ≠ 92 → ¬ [36, 123] <+: b :: y → Holes stop rest y ps →
      Holes stop rest (b :: y) ps
  | escape {b y ps} : Holes stop rest y ps → Holes stop rest (92 :: b :: y) ps
  | hole {p y ps} : p.offset = offset stop (p.source ++ 125 :: (y ++ 96 :: rest)) →
      Holes stop rest y ps → Holes stop rest (36 :: 123 :: (p.source ++ 125 :: y)) (p :: ps)

theorem Holes.digits {stop : Nat} {rest ds y : Text} {ps : List Interpolation}
    (hds : ∀ d ∈ ds, isHexDigit d = true) (hy : Holes stop rest y ps) :
    Holes stop rest (ds ++ y) ps := by
  induction ds with
  | nil => exact hy
  | cons d ds ih =>
    rw [List.forall_mem_cons] at hds
    obtain ⟨-, -, ht, hb, -, hopen⟩ := not_special_of_hex hds.1
    exact .byte ht hb (fun hfront => hopen (List.cons_prefix_cons.1 hfront).1.symm) (ih hds.2)

/-- A template literal ends at its backtick, and an expression in it at the brace that closes it. -/
theorem ends_below (n : Nat) :
    (∀ {stop start : Nat} {acc s : Text} {t : TemplateRead}, s.length < n →
      Cuts stop start acc s t → ∃ y, s = y ++ 96 :: t.rest ∧ Holes stop t.rest y t.parts) ∧
    ∀ {stop start depth : Nat} {s r : Text}, s.length < n → Closes stop start depth s r →
      ∃ y, s = y ++ 125 :: r := by
  -- a literal holds brace runs and a brace run holds literals, so the two go by one induction, on a
  -- bound of the length
  induction n with
  | zero => exact ⟨fun hn => absurd hn (Nat.not_lt_zero _), fun hn => absurd hn (Nat.not_lt_zero _)⟩
  | succ n ih =>
    obtain ⟨literals, braces⟩ := ih
    have under : ∀ {b : UInt8} {r u : Text}, u.length ≤ r.length → (b :: r).length < n + 1 →
        u.length < n := by
      intro b r u hu hn
      rw [List.length_cons] at hn
      omega
    constructor
    · intro stop start acc s t hn hs
      obtain ⟨hlt, hs⟩ := hs
      rw [templateBody.eq_def] at hs
      split at hs
      · cases hs
      · cases hs
        exact ⟨[], rfl, .nil⟩
      · split at hs
        · cases hs
        rename_i r v r' hescape
        split at hs <;> cases hs
        rename_i ht
        have hless := length_escape hescape
        obtain ⟨c, ds, rfl, hds⟩ := escape_digits hescape
        obtain ⟨y, rfl, hy⟩ := literals (under (Nat.le_of_lt hless) hn) ⟨_, ht⟩
        exact ⟨92 :: c :: (ds ++ y), by simp, .escape (hy.digits hds)⟩
      · split at hs
        · cases hs
        rename_i r r' hless hclose
        split at hs <;> cases hs
        rename_i t _ ht
        rw [List.length_cons, List.length_cons] at hn
        obtain ⟨source, rfl⟩ := braces (by omega) ⟨_, hclose⟩
        obtain ⟨y, rfl, hy⟩ := literals (by omega) ⟨_, ht⟩
        have hsource : (source ++ 125 :: (y ++ 96 :: t.rest)).take
            ((source ++ 125 :: (y ++ 96 :: t.rest)).length - (y ++ 96 :: t.rest).length - 1) =
              source := by
          refine List.take_left' ?_
          rw [List.length_append, List.length_cons]
          omega
        simp only [hsource]
        exact ⟨36 :: 123 :: (source ++ 125 :: y), by simp, .hole (p := ⟨source, _⟩) rfl hy⟩
      · rename_i b r htick hslash hopen
        split at hs <;> cases hs
        rename_i ht
        obtain ⟨y, rfl, hy⟩ := literals (under (Nat.le_refl _) hn) ⟨_, ht⟩
        refine ⟨b :: y, rfl, .byte htick hslash (fun hfront => ?_) hy⟩
        obtain ⟨hb, u, rfl⟩ := List.cons_prefix_cons.1 hfront
        exact hopen _ hb.symm rfl
    · intro stop start depth s r hn hs
      obtain ⟨hlt, hs⟩ := hs
      have step : ∀ {b : UInt8} {u s : Text}, (∃ y, u = y ++ 125 :: r) → (∃ y, s = y ++ u) →
          ∃ y, b :: s = y ++ 125 :: r := by
        rintro b _ _ ⟨y, rfl⟩ ⟨x, rfl⟩
        exact ⟨b :: (x ++ y), by simp⟩
      obtain ⟨b, s, rfl⟩ := List.exists_cons_of_length_pos (Nat.zero_lt_of_lt hlt)
      rw [closingBrace] at hs
      split at hs
      · split at hs <;> cases hs
        rename_i hr
        exact step (braces (under (Nat.le_refl _) hn) ⟨_, hr⟩) ⟨[], rfl⟩
      split at hs
      · rename_i hb
        rw [hb]
        split at hs
        · cases hs
          exact ⟨[], rfl⟩
        · split at hs <;> cases hs
          rename_i hr
          exact step (braces (under (Nat.le_refl _) hn) ⟨_, hr⟩) ⟨[], rfl⟩
      split at hs
      · rename_i hquote
        split at hs
        · cases hs
        rename_i v r' hstring
        simp only at hs
        split at hs <;> cases hs
        rename_i hr
        have hb : b = 34 ∨ b = 39 := by
          rwa [Bool.or_eq_true, decide_eq_true_eq, decide_eq_true_eq] at hquote
        have hless := Nat.le_of_lt (length_stringBody hstring)
        obtain ⟨y, rfl, -⟩ := inside_stringBody hb hstring
        exact step (braces (under hless hn) ⟨_, hr⟩) ⟨y ++ [b], by simp⟩
      split at hs
      · split at hs
        · cases hs
        rename_i t hless ht
        split at hs <;> cases hs
        rename_i hr
        have hrest := braces (under (by omega) hn) ⟨_, hr⟩
        obtain ⟨y, rfl, -⟩ := literals (under (Nat.le_refl _) hn) ⟨_, ht⟩
        exact step hrest ⟨y ++ [96], by simp⟩
      · split at hs <;> cases hs
        rename_i hr
        exact step (braces (under (Nat.le_refl _) hn) ⟨_, hr⟩) ⟨[], rfl⟩

/-! ### Lexemes -/

/-- No identifier character stands at the front of a text. -/
def EndsWord (s : Text) : Prop := ∀ p ∈ (pieces s).head?, isIdentPart p.1 = false

/-- How a lexeme is spelled where `rest` follows in a source that ends at `stop`.  A word goes as far
as identifier characters do, and no mark that stands at its place is longer. -/
inductive Spells (stop : Nat) (rest : Text) : Lexeme → Text → Prop where
  | number {x} : startsNumber (x ++ rest) = true → x.length = numberLength (x ++ rest) →
      Spells stop rest (.number x) x
  | str {quote y v} : quote = 34 ∨ quote = 39 → Inside quote y →
      Spells stop rest (.str v) (quote :: (y ++ [quote]))
  | template {y quasis parts} : Holes stop rest y parts →
      Spells stop rest (.template (96 :: (y ++ [96])) quasis parts) (96 :: (y ++ [96]))
  | ident {n} : isIdentifier n = true → EndsWord rest → Spells stop rest (.ident n) n
  | keyword {k} : EndsWord rest → Spells stop rest (.keyword k) k.text
  | mark {p} : Stands p (p.text ++ rest) →
      (∀ q, Stands q (p.text ++ rest) → q.text.length ≤ p.text.length) →
      Spells stop rest (.punct p) p.text

/-- The rest of a text after its longest word. -/
theorem endsWord_drop {s : Text} : EndsWord (s.drop (identLength s)) := by
  have hsplit := List.takeWhile_append_dropWhile (p := fun p => isIdentPart p.1) (l := pieces s)
  have hparts := List.all_eq_true.1 (List.all_takeWhile (p := fun p => isIdentPart p.1)
    (l := pieces s))
  have hlen : identLength s =
      (((pieces s).takeWhile fun p => isIdentPart p.1).flatMap Prod.snd).length := by
    rw [identLength, foldl_length, Nat.zero_add]
  have hrest : s.drop (identLength s) =
      ((pieces s).dropWhile fun p => isIdentPart p.1).flatMap Prod.snd := by
    have htext := flatten_pieces s
    rw [← hsplit, List.flatMap_append] at htext
    rw [hlen]
    exact (congrArg (List.drop _) htext.symm).trans List.drop_left
  have hafter := List.head?_dropWhile_not (fun p : Nat × Text => isIdentPart p.1) (pieces s)
  rw [EndsWord, hrest, (pieces_of_append hsplit.symm).2]
  intro p hp
  rw [Option.mem_def] at hp
  rwa [hp] at hafter

theorem runLength_pos {p : UInt8 → Bool} {b : UInt8} {r : Text} (h : p b = true) :
    0 < runLength p (b :: r) := by
  rw [runLength, List.takeWhile_cons, if_pos h]
  exact Nat.succ_pos _

theorem numberLength_pos {s : Text} (h : startsNumber s = true) : 0 < numberLength s := by
  unfold startsNumber at h
  split at h
  · rename_i b r
    have hwhole : runLength (fun b => isDigit b || b == '_') (46 :: b :: r) = 0 := rfl
    have hdigits := runLength_pos (p := isDigit) (r := r) h
    rw [numberLength]
    · simp only [hwhole, List.drop_zero, fractionLength]
      split <;> omega
    · rintro _ ⟨⟩
    · rintro _ ⟨⟩
  · rename_i b r hpoint
    have hwhole := runLength_pos (p := fun b => isDigit b || b == '_') (b := b) (r := r)
      (by simp only [h, Bool.true_or])
    rw [numberLength.eq_def]
    split
    · omega
    · omega
    · simp only
      omega
  · cases h

theorem runLength_le (p : UInt8 → Bool) (s : Text) : runLength p s ≤ s.length :=
  (List.takeWhile_sublist p).length_le

theorem fractionLength_le (s : Text) : fractionLength s ≤ s.length := by
  rw [fractionLength.eq_def]
  split
  · rename_i r
    have hdigits := runLength_le isDigit r
    simp only [List.length_cons]
    split <;> omega
  · exact Nat.zero_le _

theorem exponentLength_le (s : Text) : exponentLength s ≤ s.length := by
  have hdigits : ∀ {b : UInt8} {r : Text} {k : Nat}, k ≤ r.length →
      (if runLength isDigit (r.drop k) = 0 then 0 else 1 + k + runLength isDigit (r.drop k)) ≤
        (b :: r).length := by
    intro b r k hk
    have hrun := runLength_le isDigit (r.drop k)
    rw [List.length_drop] at hrun
    rw [List.length_cons]
    split <;> omega
  rw [exponentLength.eq_def]
  split
  · split
    · split
      · split
        · exact hdigits (Nat.le_add_left 1 _)
        · exact hdigits (Nat.zero_le _)
      · exact hdigits (Nat.zero_le _)
    · exact Nat.zero_le _
  · exact Nat.zero_le _

/-- A number ends in its source. -/
theorem numberLength_le (s : Text) : numberLength s ≤ s.length := by
  rw [numberLength.eq_def]
  split
  · rename_i r
    have hdigits := runLength_le isHexDigit r
    simp only [List.length_cons]
    omega
  · rename_i r
    have hdigits := runLength_le isHexDigit r
    simp only [List.length_cons]
    omega
  · simp only
    generalize hw : runLength (fun b => isDigit b || b == '_') s = whole
    have hwhole := runLength_le (fun b => isDigit b || b == '_') s
    have hfraction := fractionLength_le (s.drop whole)
    have hexponent := exponentLength_le (s.drop (whole + fractionLength (s.drop whole)))
    rw [List.length_drop] at hfraction hexponent
    omega

/-- Each lexeme is spelled by the bytes it takes. -/
theorem lexeme_spells {stop : Nat} {b : UInt8} {r rest : Text} {l : Lexeme} {h}
    (hl : lexeme stop b r = .ok ⟨(l, rest), h⟩) :
    ∃ x, b :: r = x ++ rest ∧ x ≠ [] ∧ Spells stop rest l x := by
  have hfront : ∀ {n : Nat}, 0 < n → b :: r = (b :: r).take n ++ r.drop (n - 1) ∧
      (b :: r).take n ≠ [] := by
    intro n hn
    obtain ⟨m, rfl⟩ := Nat.exists_eq_succ_of_ne_zero (Nat.ne_of_gt hn)
    exact ⟨(List.take_append_drop (m + 1) (b :: r)).symm, List.cons_ne_nil _ _⟩
  unfold lexeme at hl
  simp only at hl
  split at hl
  · rename_i hquote
    split at hl <;> cases hl
    rename_i hstring
    have hb : b = 34 ∨ b = 39 := by
      rwa [Bool.or_eq_true, decide_eq_true_eq, decide_eq_true_eq] at hquote
    obtain ⟨y, rfl, hy⟩ := inside_stringBody hb hstring
    exact ⟨b :: (y ++ [b]), by simp, List.cons_ne_nil _ _, .str hb hy⟩
  split at hl
  · rename_i hb
    split at hl <;> cases hl
    rename_i t _ ht
    obtain ⟨y, rfl, hy⟩ := (ends_below _).1 (Nat.lt_succ_self _) ⟨_, ht⟩
    have htext : 96 :: (y ++ 96 :: t.rest) = 96 :: (y ++ [96]) ++ t.rest := by simp
    have hraw : (96 :: (y ++ 96 :: t.rest)).take
        ((96 :: (y ++ 96 :: t.rest)).length - t.rest.length) = 96 :: (y ++ [96]) := by
      rw [htext, List.length_append, Nat.add_sub_cancel, List.take_left]
    rw [show b = 96 from hb, hraw]
    exact ⟨_, htext, List.cons_ne_nil _ _, .template hy⟩
  split at hl
  · rename_i hnumber
    cases hl
    obtain ⟨hsplit, hne⟩ := hfront (numberLength_pos hnumber)
    refine ⟨_, hsplit, hne, .number ?_ ?_⟩
    · rwa [← hsplit]
    · rw [← hsplit, List.length_take_of_le (numberLength_le _)]
  split at hl
  · rename_i hstart
    have hword := isWord_take hstart
    have hpos : 0 < identLength (b :: r) := by
      refine Nat.pos_of_ne_zero fun hzero => ?_
      rw [hzero] at hword
      obtain ⟨_, _, heq, -⟩ := exists_cons_of_word hword
      cases heq
    obtain ⟨hsplit, hne⟩ := hfront hpos
    have hends : EndsWord (r.drop (identLength (b :: r) - 1)) := by
      have hdrop := @endsWord_drop (b :: r)
      obtain ⟨m, hm⟩ := Nat.exists_eq_succ_of_ne_zero (Nat.ne_of_gt hpos)
      rwa [hm] at hdrop ⊢
    split at hl <;> cases hl
    · rename_i k hk
      have hspelled := List.find?_some hk
      rw [beq_iff_eq] at hspelled
      refine ⟨_, hsplit, hne, ?_⟩
      rw [← hspelled]
      exact .keyword hends
    · rename_i hk
      exact ⟨_, hsplit, hne, .ident (isIdentifier_iff.2 ⟨hword, hk⟩) hends⟩
  · split at hl <;> cases hl
    rename_i p hmark
    obtain ⟨hp, hlongest⟩ := mark?_longest hmark
    have htext := List.prefix_iff_eq_take.1 hp.1
    obtain ⟨hsplit, hne⟩ := hfront (n := p.text.length) (by cases p <;> decide)
    rw [← htext] at hsplit hne
    rw [hsplit] at hp hlongest
    exact ⟨_, hsplit, hne, .mark hp hlongest⟩

/-! ### Tiles -/

/-- A gap, a lexeme after it and the token it is read as. -/
structure Tile where
  gap : Text
  lexeme : Text
  token : Token

/-- The bytes of a tile. -/
def Tile.text (t : Tile) : Text := t.gap ++ t.lexeme

/-- Tiles and a last gap that make up a suffix of a source that ends at `stop`. -/
inductive Tiles (stop : Nat) : Text → List Tile → Text → Prop where
  | nil {last} : Gap [] last → Tiles stop last [] last
  | cons {g x s l tiles last} : Gap (x ++ s) g → x ≠ [] → Spells stop s l x →
      Tiles stop s tiles last →
      Tiles stop (g ++ (x ++ s)) (⟨g, x, ⟨l, offset stop (x ++ s), g.contains 10⟩⟩ :: tiles) last

/-- What is read is tiled by its tokens, and the token at the end tells of the last gap. -/
theorem tiles_scan {stop : Nat} {s : Text} {ts : List Token} {eof : Token}
    (h : Token.scan stop s = .ok (ts, eof)) :
    ∃ tiles last, ts = tiles.map Tile.token ∧ Tiles stop s tiles last ∧
      eof = ⟨.eof, stop, last.contains 10⟩ := by
  fun_induction Token.scan stop s generalizing ts eof with
  | case1 => cases h
  | case2 s newline hskip =>
    cases h
    obtain ⟨g, rfl, hg, rfl⟩ := skipBlanks_spec hskip
    rw [List.append_nil, Bool.false_or]
    exact ⟨[], g, rfl, .nil hg, rfl⟩
  | case3 => cases h
  | case4 => cases h
  | case5 s newline b r hskip l rest hl hlex ts eof hts ih =>
    cases h
    obtain ⟨g, rfl, hg, rfl⟩ := skipBlanks_spec hskip
    obtain ⟨x, hx, hne, hspells⟩ := lexeme_spells hlex
    obtain ⟨tiles, last, rfl, htiles, rfl⟩ := ih hts
    rw [hx] at hg ⊢
    rw [Bool.false_or]
    exact ⟨_, last, rfl, .cons hg hne hspells htiles, rfl⟩

section

variable {stop : Nat} {s last : Text} {tiles : List Tile}

/-- The bytes of a suffix are those of its tiles, in order. -/
theorem Tiles.text (h : Tiles stop s tiles last) : s = tiles.flatMap Tile.text ++ last ∧ Gap [] last := by
  induction h with
  | nil hlast => exact ⟨rfl, hlast⟩
  | cons _ _ _ _ ih =>
    obtain ⟨rfl, hlast⟩ := ih
    exact ⟨by simp [Tile.text], hlast⟩

/-- The token of a tile stands where the tile's lexeme does. -/
theorem Tiles.at (h : Tiles stop s tiles last) {before after : List Tile} {t : Tile}
    (hsplit : tiles = before ++ t :: after) :
    Gap (t.lexeme ++ (after.flatMap Tile.text ++ last)) t.gap ∧ t.lexeme ≠ [] ∧
      Spells stop (after.flatMap Tile.text ++ last) t.token.lexeme t.lexeme ∧
      t.token.pos = offset stop (t.lexeme ++ (after.flatMap Tile.text ++ last)) ∧
      t.token.newline = t.gap.contains 10 := by
  induction h generalizing before with
  | nil => simp at hsplit
  | cons hg hne hspells htiles ih =>
    cases before with
    | nil =>
      obtain ⟨rfl, rfl⟩ := List.cons.inj hsplit
      rw [← htiles.text.1]
      exact ⟨hg, hne, hspells, rfl, rfl⟩
    | cons u before => exact ih (List.cons.inj hsplit).2

/-- The lexemes follow one another, with the gaps between them. -/
theorem Tiles.pairwise (h : Tiles stop s tiles last) (hstop : s.length ≤ stop) :
    (∀ t ∈ tiles, stop - s.length + t.gap.length ≤ t.token.pos) ∧
      tiles.Pairwise fun t u => t.token.pos + t.lexeme.length + u.gap.length ≤ u.token.pos := by
  induction h with
  | nil => exact ⟨fun t ht => absurd ht List.not_mem_nil, .nil⟩
  | cons _ _ _ _ ih =>
    simp only [List.length_append] at hstop
    obtain ⟨hafter, hpairs⟩ := ih (by omega)
    refine ⟨List.forall_mem_cons.2 ⟨?_, fun u hu => ?_⟩, List.pairwise_cons.2 ⟨fun u hu => ?_, hpairs⟩⟩
    · simp only [offset, List.length_append]
      omega
    · have hu := hafter u hu
      simp only [List.length_append]
      omega
    · have hu := hafter u hu
      simp only [offset, List.length_append]
      omega

end

end Lexer

open Lexer Text

/-- **The tokens of a source tile it.**  Its bytes are gaps and lexemes in turn and a last gap; a token
starts where its lexeme does, after the lexemes before it, and has a line break before it if there is
one in its gap.  Marks and words are the longest ones that stand there. -/
theorem Token.ofSource_longest {src : Text} {ts : List Token} {eof : Token}
    (h : Token.ofSource 0 src = .ok (ts, eof)) :
    ∃ (tiles : List Tile) (last : Text), ts = tiles.map Tile.token ∧
      src = tiles.flatMap Tile.text ++ last ∧ Gap [] last ∧
      eof = ⟨.eof, src.length, last.contains 10⟩ ∧
      tiles.Pairwise (fun t u => t.token.pos + t.lexeme.length + u.gap.length ≤ u.token.pos) ∧
      ∀ before t after, tiles = before ++ t :: after →
        src = before.flatMap Tile.text ++ (t.gap ++ (t.lexeme ++ (after.flatMap Tile.text ++ last))) ∧
        t.token.pos = (before.flatMap Tile.text ++ t.gap).length ∧
        t.lexeme ≠ [] ∧ Gap (t.lexeme ++ (after.flatMap Tile.text ++ last)) t.gap ∧
        t.token.newline = t.gap.contains 10 ∧
        Spells src.length (after.flatMap Tile.text ++ last) t.token.lexeme t.lexeme := by
  rw [Token.ofSource, Nat.zero_add] at h
  obtain ⟨tiles, last, rfl, htiles, rfl⟩ := tiles_scan h
  obtain ⟨hsrc, hlast⟩ := htiles.text
  refine ⟨tiles, last, rfl, hsrc, hlast, rfl, (htiles.pairwise (Nat.le_refl _)).2, ?_⟩
  intro before t after hsplit
  obtain ⟨hgap, hne, hspells, hpos, hnewline⟩ := htiles.at hsplit
  have hplace : src = before.flatMap Tile.text ++
      (t.gap ++ (t.lexeme ++ (after.flatMap Tile.text ++ last))) := by
    rw [hsrc, hsplit]
    simp [Tile.text]
  refine ⟨hplace, ?_, hne, hgap, hnewline, hspells⟩
  have hlen := congrArg List.length hplace
  simp only [List.length_append] at hlen
  rw [hpos, offset]
  simp only [List.length_append]
  omega

/-- A question mark before a number, a mark of two bytes before one of one, a line break in a comment,
and an expression in a template literal. -/
theorem Token.ofSource_longest_comments :
    let src : Text := "a?.5:b+++/* x\n */`$\x7by\x7d`// z"
    let ts : List Token := [⟨.ident "a", 0, false⟩, ⟨.punct .question, 1, false⟩,
      ⟨.number ".5", 2, false⟩, ⟨.punct .colon, 4, false⟩, ⟨.ident "b", 5, false⟩,
      ⟨.punct .increment, 6, false⟩, ⟨.punct .plus, 8, false⟩,
      ⟨.template "`$\x7by\x7d`" [[], []] [⟨"y", 20⟩], 17, true⟩]
    Token.ofSource 0 src = .ok (ts, ⟨.eof, 27, false⟩) ∧
      ∃ (tiles : List Tile) (last : Text), ts = tiles.map Tile.token ∧
        src = tiles.flatMap Tile.text ++ last ∧ Gap [] last := by
  intro src ts
  have hts : Token.ofSource 0 src = .ok (ts, ⟨.eof, 27, false⟩) := by with_unfolding_all rfl
  obtain ⟨tiles, last, hmap, hsrc, hlast, -⟩ := Token.ofSource_longest hts
  exact ⟨hts, tiles, last, hmap, hsrc, hlast⟩

end Reactive
