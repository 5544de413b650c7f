/-
How far the lexer of style sheets looks ahead.

What follows a token decides whether it ends where it does: a number may go on
with an exponent, a name with an escape.  The lexer looks no further than a run
of bytes that some token may go on with, and one escape after it, so a token
that stands before one text stands before every text that is alike.

* `Alike` — texts that are the same as far as a token looks ahead;
* `numberLength_run`, `unicodeRangeLength_run` — numbers and ranges look at no more than a run;
* `Near` — alike texts that may follow an escape;
* `identLength_near` — names before near texts;
* `Alike.append` — alike texts after the same text.
-/
import Mathlib.Data.List.TakeWhile
import Reactive.Css.Token

namespace Reactive.Css

/-! ### Alike texts -/

/-- A byte that a number, a name, a range or the opening of a comment may go on with. -/
def goesOn (b : UInt8) : Bool := isNameByte b || b == '+' || b == '.' || b == '!' || b == '?'

/-- A byte at which every look ahead stops. -/
def isStop (b : UInt8) : Bool :=
  isBlank b || b == '/' || b == '{' || b == '}' || b == ';' || b == ','

/-- No look ahead goes into a text. -/
def Stopped (s : Text) : Prop := ∀ b ∈ s.head?, isStop b = true

/-- The same texts as far as a token before them looks ahead: a run of bytes that it may go on
with, and then a byte that ends it or an escape. -/
inductive Alike : Text → Text → Prop where
  | stopped {s s' : Text} : Stopped s → Stopped s' → Alike s s'
  | same {b : UInt8} {s s' : Text} : goesOn b = false → b ≠ '\\' → Alike (b :: s) (b :: s')
  | next {b : UInt8} {s s' : Text} : goesOn b = true → Alike s s' → Alike (b :: s) (b :: s')
  | escape {s s' : Text} : (escapeLength s = 0 ↔ escapeLength s' = 0) →
    Alike ('\\' :: s) ('\\' :: s')

theorem isStop_iff {b : UInt8} : isStop b = true ↔
    b ∈ ([32, 9, 10, 13, 12, 47, 123, 125, 59, 44] : List UInt8) := by
  simp [isStop, isBlank, or_assoc]
  rfl

theorem goesOn_of_isStop {b : UInt8} (h : isStop b = true) : goesOn b = false := by
  have hall : ∀ b ∈ ([32, 9, 10, 13, 12, 47, 123, 125, 59, 44] : List UInt8),
      goesOn b = false := by decide +kernel
  exact hall b (isStop_iff.1 h)

theorem not_stop_of_goesOn {b : UInt8} (h : goesOn b = true) : isStop b = false := by
  rw [← Bool.not_eq_true]
  intro hstop
  rw [goesOn_of_isStop hstop] at h
  cases h

theorem goesOn_of_isNameByte {b : UInt8} (h : isNameByte b = true) : goesOn b = true := by
  simp [goesOn, h]

theorem goesOn_of_isNameStart {b : UInt8} (h : isNameStart b = true) : goesOn b = true :=
  goesOn_of_isNameByte (by simp [isNameByte, h])

theorem goesOn_of_isDigit {b : UInt8} (h : Text.isDigit b = true) : goesOn b = true :=
  goesOn_of_isNameByte (by simp [isNameByte, h])

theorem isNameByte_of_isHexDigit {b : UInt8} (h : Text.isHexDigit b = true) :
    isNameByte b = true := by
  have hz : ∀ {x y z : UInt8}, x ≤ y → y ≤ z → x ≤ z := fun h h' => UInt8.le_trans h h'
  simp only [Text.isHexDigit, isNameByte, isNameStart, Text.isAsciiLetter, Bool.or_eq_true,
    Bool.and_eq_true, decide_eq_true_eq] at h ⊢
  rcases h with (h | ⟨hlow, hhigh⟩) | ⟨hlow, hhigh⟩
  · exact .inl (.inr h)
  · exact .inl (.inl (.inl (.inl (.inl ⟨hlow, hz hhigh (by decide)⟩))))
  · exact .inl (.inl (.inl (.inl (.inr ⟨hlow, hz hhigh (by decide)⟩))))

theorem goesOn_of_isHexDigit {b : UInt8} (h : Text.isHexDigit b = true) : goesOn b = true :=
  goesOn_of_isNameByte (isNameByte_of_isHexDigit h)

namespace Alike

variable {s s' : Text}

/-- A byte at which no look ahead stops stands at the front of both texts or of none. -/
theorem head (h : Alike s s') {c : UInt8} (hc : isStop c = false) :
    s.head? = some c ↔ s'.head? = some c := by
  cases h with
  | stopped hs hs' =>
    constructor
    · intro hfront
      rw [hs c hfront] at hc
      cases hc
    · intro hfront
      rw [hs' c hfront] at hc
      cases hc
  | same | next | escape => rfl

/-- A mark at the front of both texts or of none: the look ahead goes on with all of its bytes but
the last, and does not stop at that. -/
theorem prefix_iff (h : Alike s s') {p : Text} (hp : p ≠ [])
    (hrun : ∀ b ∈ p.dropLast, goesOn b = true) (hlast : isStop (p.getLast hp) = false) :
    p <+: s ↔ p <+: s' := by
  induction p generalizing s s' with
  | nil => exact absurd rfl hp
  | cons c p ih =>
    cases p with
    | nil =>
      have hhead : ∀ s : Text, [c] <+: s ↔ s.head? = some c := by
        intro s
        cases s with
        | nil => simp
        | cons b r => simp [eq_comm]
      rw [hhead, hhead]
      exact h.head hlast
    | cons d p =>
      rw [List.dropLast_cons_of_ne_nil (List.cons_ne_nil _ _), List.forall_mem_cons] at hrun
      rw [List.getLast_cons (List.cons_ne_nil _ _)] at hlast
      have hstop := not_stop_of_goesOn hrun.1
      cases h with
      | stopped hs hs' =>
        have hnone : ∀ s : Text, Stopped s → ¬ c :: d :: p <+: s := by
          rintro s hs ⟨r, rfl⟩
          rw [hs c rfl] at hstop
          cases hstop
        exact iff_of_false (hnone s hs) (hnone s' hs')
      | @same b s s' hother _ =>
        rw [List.cons_prefix_cons, List.cons_prefix_cons]
        refine iff_of_false ?_ ?_ <;>
        · rintro ⟨rfl, -⟩
          rw [hrun.1] at hother
          cases hother
      | next _ h =>
        rw [List.cons_prefix_cons, List.cons_prefix_cons,
          ih h (List.cons_ne_nil _ _) hrun.2 hlast]
      | escape =>
        rw [List.cons_prefix_cons, List.cons_prefix_cons]
        refine iff_of_false ?_ ?_ <;>
        · rintro ⟨rfl, -⟩
          exact absurd hrun.1 (by decide)

end Alike

/-! ### Numbers and ranges -/

/-- What a number or a range at the front of a text may go on with. -/
def run (s : Text) : Text := s.takeWhile goesOn

@[simp] theorem run_nil : run [] = [] := rfl

theorem run_cons {b : UInt8} (h : goesOn b = true) (r : Text) : run (b :: r) = b :: run r :=
  List.takeWhile_cons_of_pos h

theorem run_cons_neg {b : UInt8} (h : goesOn b = false) (r : Text) : run (b :: r) = [] :=
  List.takeWhile_cons_of_neg (by simp [h])

theorem Alike.run_eq {s s' : Text} (h : Alike s s') : run s = run s' := by
  have hstopped : ∀ {s : Text}, Stopped s → run s = [] := by
    intro s hs
    cases s with
    | nil => rfl
    | cons b r => exact run_cons_neg (goesOn_of_isStop (hs b rfl)) r
  induction h with
  | stopped hs hs' => rw [hstopped hs, hstopped hs']
  | same hother => rw [run_cons_neg hother, run_cons_neg hother]
  | next hgoes _ ih => rw [run_cons hgoes, run_cons hgoes, ih]
  | escape => rfl

section

variable {s : Text}

theorem takeWhile_run {p : UInt8 → Bool} (hp : ∀ b, p b = true → goesOn b = true) (s : Text) :
    (run s).takeWhile p = s.takeWhile p := by
  rw [run, List.takeWhile_takeWhile]
  congr 1
  funext b
  by_cases hb : p b = true
  · simp [hb, hp b hb]
  · simp [hb]

theorem digits_run (s : Text) : digits (run s) = digits s := by
  rw [digits, digits, takeWhile_run fun _ => goesOn_of_isDigit]

theorem digits_le_run (s : Text) : digits s ≤ (run s).length := by
  rw [← digits_run]
  exact (List.takeWhile_prefix _).length_le

theorem run_drop {n : Nat} (h : n ≤ (run s).length) : run (s.drop n) = (run s).drop n := by
  induction n generalizing s with
  | zero => rfl
  | succ n ih =>
    cases s with
    | nil => rfl
    | cons b r =>
      by_cases hb : goesOn b = true
      · rw [run_cons hb] at h ⊢
        exact ih (Nat.le_of_succ_le_succ h)
      · rw [run_cons_neg (by simpa using hb)] at h
        cases h

theorem drop_run {n : Nat} (h : n ≤ (run s).length) : (run s).drop n = run (s.drop n) :=
  (run_drop h).symm

theorem head_run {b : UInt8} (hb : goesOn b = true) (s : Text) :
    (run s).head? = some b ↔ s.head? = some b := by
  cases s with
  | nil => rfl
  | cons c r =>
    by_cases hc : goesOn c = true
    · rw [run_cons hc]
      rfl
    · rw [run_cons_neg (by simpa using hc)]
      refine ⟨fun h => (Option.some_ne_none _ h.symm).elim, fun h => absurd hb ?_⟩
      rwa [← Option.some.inj h]

theorem length_run_drop {n : Nat} (h : n ≤ (run s).length) :
    (run (s.drop n)).length = (run s).length - n := by
  rw [run_drop h, List.length_drop]

/-- How long a sign is. -/
def signLength (s : Text) : Nat :=
  if s.head? = some ('+' : UInt8) ∨ s.head? = some ('-' : UInt8) then 1 else 0

theorem signLength_cons (b : UInt8) (r : Text) :
    signLength (b :: r) = if b = '+' || b = '-' then 1 else 0 := by
  simp [signLength]

theorem signLength_run (s : Text) : signLength (run s) = signLength s := by
  simp only [signLength, head_run (show goesOn '+' = true by decide),
    head_run (show goesOn '-' = true by decide)]

theorem signLength_le_run (s : Text) : signLength s ≤ (run s).length := by
  rw [← signLength_run]
  unfold signLength
  split
  · rename_i hsign
    cases hrun : run s with
    | nil => simp [hrun] at hsign
    | cons => exact Nat.le_add_left _ _
  · exact Nat.zero_le _

/-- A sign and the digits after it stay within the run. -/
theorem sign_digits_le_run (s : Text) :
    signLength s + digits (s.drop (signLength s)) ≤ (run s).length := by
  have hle := digits_le_run (s.drop (signLength s))
  rw [length_run_drop (signLength_le_run s)] at hle
  have := signLength_le_run s
  omega

theorem exponentLength_cons (b : UInt8) (r : Text) : exponentLength (b :: r) =
    if b = 'e' || b = 'E' then
      if digits (r.drop (signLength r)) = 0 then 0
      else 1 + signLength r + digits (r.drop (signLength r))
    else 0 := by
  unfold exponentLength
  cases r with
  | nil => rfl
  | cons c r =>
    dsimp only
    rw [signLength_cons]

theorem exponentLength_run (s : Text) : exponentLength (run s) = exponentLength s := by
  cases s with
  | nil => rfl
  | cons b r =>
    by_cases hb : goesOn b = true
    · rw [run_cons hb, exponentLength_cons, exponentLength_cons, signLength_run,
        drop_run (signLength_le_run r), digits_run]
    · rw [run_cons_neg (by simpa using hb), exponentLength_cons, if_neg]
      · rfl
      · rw [Bool.or_eq_true, decide_eq_true_eq, decide_eq_true_eq]
        rintro (rfl | rfl) <;> exact hb (by decide)

theorem exponentLength_le_run (s : Text) : exponentLength s ≤ (run s).length := by
  cases s with
  | nil => exact Nat.le_refl 0
  | cons b r =>
    rw [exponentLength_cons]
    split
    · rename_i hb
      have hgoes : goesOn b = true := by
        rw [Bool.or_eq_true, decide_eq_true_eq, decide_eq_true_eq] at hb
        rcases hb with rfl | rfl <;> decide
      rw [run_cons hgoes, List.length_cons]
      have := sign_digits_le_run r
      split <;> omega
    · exact Nat.zero_le _

/-- A number, its parts given: a sign and digits, a point with digits, an exponent. -/
theorem numberLength_eq (s : Text) : numberLength s =
    let n := signLength s + digits (s.drop (signLength s))
    let frac := digits (s.drop (n + 1))
    if (s.drop n).head? = some 46 ∧ frac ≠ 0 then
      n + 1 + frac + exponentLength (s.drop (n + 1 + frac))
    else if digits (s.drop (signLength s)) = 0 then 0
    else if (s.drop n).head? = some 46 then n
    else n + exponentLength (s.drop n) := by
  unfold numberLength
  cases s with
  | nil => rfl
  | cons b r =>
  dsimp only
  rw [← signLength_cons b r]
  generalize b :: r = s
  generalize signLength s + digits (s.drop (signLength s)) = n
  have hnext : s.drop (n + 1) = (s.drop n).drop 1 := by rw [List.drop_drop]
  rw [hnext]
  split
  · rename_i r hdrop
    rw [hdrop]
    by_cases hfrac : digits r = 0 <;> simp [hfrac]
  · rename_i hother
    have hhead : (s.drop n).head? ≠ some 46 := fun hhead => by
      obtain ⟨r, hr⟩ := List.head?_eq_some_iff.1 hhead
      exact hother r hr
    simp only [hhead, false_and, if_false]

theorem lt_run {n : Nat} (hn : n ≤ (run s).length) {b : UInt8} (hb : goesOn b = true)
    (hfront : (s.drop n).head? = some b) : n < (run s).length := by
  have hhead := (head_run hb _).2 hfront
  rw [run_drop hn] at hhead
  have hlen := List.length_pos_of_mem (List.mem_of_mem_head? hhead)
  rw [List.length_drop] at hlen
  omega

/-- What a number looks at stays within the run. -/
theorem point_digits_le_run {n : Nat} (hn : n ≤ (run s).length)
    (hpoint : (s.drop n).head? = some 46) :
    n + 1 + digits (s.drop (n + 1)) ≤ (run s).length := by
  have hlt := lt_run hn (by decide) hpoint
  have hle := digits_le_run (s.drop (n + 1))
  rw [length_run_drop hlt] at hle
  omega

theorem numberLength_run (s : Text) : numberLength (run s) = numberLength s := by
  have hsign := drop_run (signLength_le_run s)
  rw [numberLength_eq, numberLength_eq]
  dsimp only
  rw [signLength_run, hsign, digits_run]
  have hn := sign_digits_le_run s
  generalize signLength s + digits (s.drop (signLength s)) = n at hn ⊢
  rw [drop_run hn]
  by_cases hpoint : (s.drop n).head? = some 46
  · have hfrac := point_digits_le_run hn hpoint
    rw [drop_run (Nat.le_trans (Nat.le_add_right _ _) hfrac), digits_run, drop_run hfrac]
    simp only [head_run (show goesOn 46 = true by decide), exponentLength_run]
  · have hpoint' : ¬ (run (s.drop n)).head? = some 46 := mt (head_run (by decide) _).1 hpoint
    simp only [hpoint, hpoint', false_and, if_false, exponentLength_run]

theorem numberLength_le_run (s : Text) : numberLength s ≤ (run s).length := by
  rw [numberLength_eq]
  dsimp only
  have hn := sign_digits_le_run s
  generalize signLength s + digits (s.drop (signLength s)) = n at hn ⊢
  split
  · rename_i hpoint
    have hfrac := point_digits_le_run hn hpoint.1
    have hexp := exponentLength_le_run (s.drop (n + 1 + digits (s.drop (n + 1))))
    rw [length_run_drop hfrac] at hexp
    omega
  · split
    · exact Nat.zero_le _
    · split
      · exact hn
      · have hexp := exponentLength_le_run (s.drop n)
        rw [length_run_drop hn] at hexp
        omega

/-- How many bytes at the front of a text satisfy a test. -/
def count (p : UInt8 → Bool) (s : Text) : Nat := (s.takeWhile p).length

theorem count_run {p : UInt8 → Bool} (hp : ∀ b, p b = true → goesOn b = true) (s : Text) :
    count p (run s) = count p s := by
  rw [count, count, takeWhile_run hp]

theorem count_le_run {p : UInt8 → Bool} (hp : ∀ b, p b = true → goesOn b = true) (s : Text) :
    count p s ≤ (run s).length := by
  rw [← count_run hp]
  exact (List.takeWhile_prefix _).length_le

theorem goesOn_of_eq_question {b : UInt8} (h : (b == 63) = true) : goesOn b = true := by
  rw [beq_iff_eq.1 h]
  decide

/-- A range after `u+`: digits, and then a minus sign with digits, or question marks. -/
theorem unicodeRangeLength_cons (u : UInt8) (r : Text) : unicodeRangeLength (u :: 43 :: r) =
    if u = 'u' || u = 'U' then
      let k := count Text.isHexDigit r
      if (r.drop k).head? = some 45 then
        let m := count Text.isHexDigit (r.drop (k + 1))
        if k = 0 || k > 6 || m = 0 || m > 6 then 0 else k + m + 3
      else
        let k := k + count (· == 63) (r.drop k)
        if k = 0 || k > 6 then 0 else k + 2
    else 0 := by
  rw [unicodeRangeLength]
  dsimp only [count]
  generalize (r.takeWhile Text.isHexDigit).length = k
  have hnext : r.drop (k + 1) = (r.drop k).drop 1 := by rw [List.drop_drop]
  rw [hnext]
  split
  · split
    · rename_i t hdrop
      rw [hdrop]
      rfl
    · rename_i hother
      have hhead : (r.drop k).head? ≠ some 45 := fun hhead => by
        obtain ⟨t, ht⟩ := List.head?_eq_some_iff.1 hhead
        exact hother t ht
      rw [if_neg hhead]
  · rfl

theorem exists_of_unicodeRangeLength (h : unicodeRangeLength s ≠ 0) :
    ∃ u r, s = u :: 43 :: r ∧ (u = 'u' ∨ u = 'U') := by
  unfold unicodeRangeLength at h
  split at h
  · rename_i u r
    split at h
    · rename_i hu
      exact ⟨u, r, rfl, by simpa using hu⟩
    · exact absurd rfl h
  · exact absurd rfl h

theorem unicodeRangeLength_run (s : Text) :
    unicodeRangeLength (run s) = unicodeRangeLength s := by
  by_cases hshape : ∃ u r, s = u :: 43 :: r ∧ (u = 'u' ∨ u = 'U')
  · obtain ⟨u, r, rfl, hu⟩ := hshape
    have hgoes : goesOn u = true := by rcases hu with rfl | rfl <;> decide
    have hk := count_le_run (fun _ => goesOn_of_isHexDigit) r
    rw [run_cons hgoes, run_cons (by decide), unicodeRangeLength_cons, unicodeRangeLength_cons,
      count_run fun _ => goesOn_of_isHexDigit]
    dsimp only
    rw [drop_run hk, count_run fun _ => goesOn_of_eq_question]
    generalize count Text.isHexDigit r = k at hk ⊢
    by_cases hminus : (r.drop k).head? = some 45
    · have hhead := (head_run (b := 45) (by decide) _).2 hminus
      rw [drop_run (lt_run hk (by decide) hminus), count_run fun _ => goesOn_of_isHexDigit]
      simp only [hminus, hhead, if_true]
    · simp only [hminus, mt (head_run (b := 45) (by decide) _).1 hminus, if_false]
  · have hnone : ∀ {s : Text}, ¬ (∃ u r, s = u :: 43 :: r ∧ (u = 'u' ∨ u = 'U')) →
        unicodeRangeLength s = 0 := fun h => Decidable.not_not.1 (mt exists_of_unicodeRangeLength h)
    rw [hnone hshape, hnone]
    rintro ⟨u, r, hrun, hu⟩
    obtain ⟨t, ht⟩ := List.takeWhile_prefix (p := goesOn) (l := s)
    exact hshape ⟨u, r ++ t, by rw [← ht, ← run, hrun]; rfl, hu⟩

theorem unicodeRangeLength_le_run (s : Text) : unicodeRangeLength s ≤ (run s).length := by
  by_cases hnone : unicodeRangeLength s = 0
  · omega
  obtain ⟨u, r, rfl, hu⟩ := exists_of_unicodeRangeLength hnone
  have hgoes : goesOn u = true := by rcases hu with rfl | rfl <;> decide
  have hk := count_le_run (fun _ => goesOn_of_isHexDigit) r
  rw [run_cons hgoes, run_cons (by decide), unicodeRangeLength_cons, List.length_cons,
    List.length_cons]
  dsimp only
  generalize count Text.isHexDigit r = k at hk ⊢
  split
  · split
    · rename_i hminus
      have hm :=
        count_le_run (p := Text.isHexDigit) (fun _ => goesOn_of_isHexDigit) (r.drop (k + 1))
      rw [length_run_drop (lt_run hk (by decide) hminus)] at hm
      have := lt_run hk (by decide) hminus
      split <;> omega
    · have hm := count_le_run (fun _ => goesOn_of_eq_question) (r.drop k)
      rw [length_run_drop hk] at hm
      split <;> omega
  · exact Nat.zero_le _

end

/-! ### Escapes and names -/

/-- A backslash before a text escapes what the text starts with. -/
def Firm (s : Text) : Prop := ∃ b r, s = b :: r ∧ isBreak b = false

/-- Alike texts that a token cannot tell apart even if it ends with an escape. -/
structure Near (u u' : Text) : Prop where
  alike : Alike u u'
  firm : Firm u
  firm' : Firm u'
  blank : u'.head?.any isBlank = true → u.head?.any isBlank = true

theorem two_le_escapeLength {s : Text} (h : Firm s) : 2 ≤ escapeLength s := by
  obtain ⟨b, r, rfl, hb⟩ := h
  unfold escapeLength
  dsimp only
  rw [if_neg (by simp [hb])]
  split
  · rename_i hhex
    have hdigits : 1 ≤ (((b :: r).take 6).takeWhile Text.isHexDigit).length := by
      rw [List.take_succ_cons, List.takeWhile_cons_of_pos hhex]
      exact Nat.le_add_left _ _
    split
    · split <;> omega
    · omega
  · split
    · split
      · omega
      · split <;> omega
    · omega

theorem escapeLength_eq_zero {b : UInt8} {r : Text} (h : isBreak b = true) :
    escapeLength (b :: r) = 0 := by
  unfold escapeLength
  dsimp only
  rw [if_pos h]

theorem Firm.append {u : Text} (h : Firm u) (w : Text) : w ++ u ≠ [] := by
  obtain ⟨b, r, rfl, -⟩ := h
  simp

/-- How far an escape with hexadecimal digits reaches. -/
theorem escapeLength_hex {b : UInt8} {r : Text} (hbreak : isBreak b = false)
    (hhex : Text.isHexDigit b = true) : escapeLength (b :: r) =
      let n := (((b :: r).take 6).takeWhile Text.isHexDigit).length
      if ((b :: r).drop n).head?.any isBlank then n + 2 else n + 1 := by
  unfold escapeLength
  dsimp only
  rw [if_neg (by simp [hbreak]), if_pos hhex]
  split
  · rename_i c t hdrop
    rw [hdrop]
    cases hc : isBlank c <;> simp [hc]
  · rename_i hdrop
    rw [hdrop]
    rfl

section

variable {u u' : Text} (h : Near u u')

include h

/-- Digits of an escape that end within a text. -/
theorem hexes_near {w : Text}
    (hle : (((w ++ u).take 6).takeWhile Text.isHexDigit).length ≤ w.length) :
    (((w ++ u').take 6).takeWhile Text.isHexDigit).length =
      (((w ++ u).take 6).takeWhile Text.isHexDigit).length := by
  by_cases hlong : 6 ≤ w.length
  · rw [List.take_append_of_le_length hlong, List.take_append_of_le_length hlong]
  -- Few bytes: digits that go on go on into both texts, or into none.
  have hhead : ∀ {s : Text} {n : Nat}, (s.take (n + 1)).takeWhile Text.isHexDigit = [] ↔
      ¬ ∃ c, s.head? = some c ∧ Text.isHexDigit c = true := by
    intro s n
    cases s with
    | nil => simp
    | cons c r => cases hc : Text.isHexDigit c <;> simp [hc]
  obtain ⟨n, hn⟩ : ∃ n, 6 - w.length = n + 1 := ⟨5 - w.length, by omega⟩
  have hsplit : ∀ s : Text, (w ++ s).take 6 = w ++ s.take (n + 1) := by
    intro s
    rw [List.take_append, List.take_of_length_le (by omega), hn]
  rw [hsplit, List.takeWhile_append] at hle
  rw [hsplit, hsplit, List.takeWhile_append, List.takeWhile_append]
  split
  · rename_i hall
    rw [if_pos hall, List.length_append] at hle
    have hnone : (u.take (n + 1)).takeWhile Text.isHexDigit = [] :=
      List.eq_nil_of_length_eq_zero (by omega)
    have hnone' : (u'.take (n + 1)).takeWhile Text.isHexDigit = [] := by
      rw [hhead] at hnone ⊢
      rintro ⟨c, hfront, hc⟩
      have hstop := not_stop_of_goesOn (goesOn_of_isHexDigit hc)
      exact hnone ⟨c, (h.alike.head hstop).2 hfront, hc⟩
    rw [hnone, hnone']
  · rfl

theorem escapeLength_near {w : Text} (hle : escapeLength (w ++ u) ≤ w.length + 1) :
    escapeLength (w ++ u') = escapeLength (w ++ u) := by
  cases w with
  | nil =>
    have := two_le_escapeLength h.firm
    rw [List.nil_append] at hle
    simp only [List.length_nil] at hle
    omega
  | cons b w =>
    by_cases hbreak : isBreak b = true
    · rw [List.cons_append, List.cons_append, escapeLength_eq_zero hbreak,
        escapeLength_eq_zero hbreak]
    · have hfirm : isBreak b = false := by simpa using hbreak
      by_cases hhex : Text.isHexDigit b = true
      · rw [List.cons_append, escapeLength_hex hfirm hhex] at hle
        rw [List.cons_append, List.cons_append, escapeLength_hex hfirm hhex,
          escapeLength_hex hfirm hhex]
        simp only [← List.cons_append] at hle ⊢
        generalize b :: w = x at hle ⊢
        have hdigits : (((x ++ u).take 6).takeWhile Text.isHexDigit).length ≤ x.length := by
          split at hle <;> omega
        rw [hexes_near h hdigits]
        generalize (((x ++ u).take 6).takeWhile Text.isHexDigit).length = n at hle hdigits ⊢
        rw [List.drop_append_of_le_length hdigits] at hle ⊢
        rw [List.drop_append_of_le_length hdigits]
        cases hdrop : x.drop n with
        | cons c t => rfl
        | nil =>
          rw [hdrop, List.nil_append] at hle
          have hlen : x.length ≤ n := List.drop_eq_nil_iff.1 hdrop
          have hblank : ¬ u.head?.any isBlank = true := fun hblank => by
            rw [if_pos hblank] at hle
            omega
          rw [List.nil_append, List.nil_append, if_neg hblank, if_neg (mt h.blank hblank)]
      · -- A character of several bytes stands as a whole before what follows.
        have hpos : 1 ≤ u.length := by
          obtain ⟨c, r, rfl, -⟩ := h.firm
          exact Nat.le_add_left _ _
        have hpos' : 1 ≤ u'.length := by
          obtain ⟨c, r, rfl, -⟩ := h.firm'
          exact Nat.le_add_left _ _
        unfold escapeLength at hle ⊢
        simp only [List.cons_append, hfirm, hhex, if_false, Bool.false_eq_true, List.length_cons,
          List.length_append] at hle ⊢
        split at hle
        · rename_i hlong
          rw [if_pos hlong, if_pos hlong]
          omega
        · rename_i hlong
          rw [if_neg hlong, if_neg hlong]

end

theorem nameLength_byte {b : UInt8} (h : isNameByte b = true) (r : Text) :
    nameLength (b :: r) = nameLength r + 1 := by
  rw [nameLength, if_pos h]

theorem nameLength_escape (r : Text) : nameLength ('\\' :: r) =
    if escapeLength r = 0 then 0
    else nameLength (r.drop (escapeLength r - 1)) + escapeLength r := by
  rw [nameLength, if_neg (by decide), if_pos rfl]

theorem nameLength_other {b : UInt8} (h : isNameByte b = false) (hslash : b ≠ '\\') (r : Text) :
    nameLength (b :: r) = 0 := by
  rw [nameLength, if_neg (by simp [h]), if_neg hslash]

theorem plainNameLength_start {b : UInt8} (h : isNameStart b = true) (r : Text) :
    plainNameLength (b :: r) = nameLength r + 1 := by
  rw [plainNameLength, if_pos h]

theorem plainNameLength_escape (r : Text) :
    plainNameLength ('\\' :: r) = nameLength ('\\' :: r) := by
  rw [plainNameLength, if_neg (by decide)]
  split
  · rfl
  · rename_i hnone
    rw [nameLength_escape, if_pos (by simpa using hnone)]

theorem plainNameLength_other {b : UInt8} (h : isNameStart b = false) (hslash : b ≠ '\\')
    (r : Text) : plainNameLength (b :: r) = 0 := by
  rw [plainNameLength, if_neg (by simp [h]), if_neg (by simp [hslash])]

theorem identLength_minus (r : Text) : identLength ('-' :: r) =
    if plainNameLength r = 0 then 0 else plainNameLength r + 1 := rfl

theorem identLength_other {b : UInt8} (h : b ≠ '-') (r : Text) :
    identLength (b :: r) = plainNameLength (b :: r) := by
  unfold identLength
  split
  · rename_i heq
    exact absurd (List.cons.inj heq).1 h
  · rfl

/-- What no look ahead goes into starts no identifier, and no name goes on with it. -/
theorem names_of_not_goesOn {b : UInt8} (h : goesOn b = false) (hslash : b ≠ '\\') (r : Text) :
    nameLength (b :: r) = 0 ∧ plainNameLength (b :: r) = 0 ∧ identLength (b :: r) = 0 := by
  have hbyte : isNameByte b = false := by
    rw [← Bool.not_eq_true]
    exact fun hbyte => absurd (goesOn_of_isNameByte hbyte) (by simp [h])
  have hstart : isNameStart b = false := by
    rw [← Bool.not_eq_true]
    exact fun hstart => absurd (goesOn_of_isNameStart hstart) (by simp [h])
  have hminus : b ≠ '-' := by
    rintro rfl
    cases h
  refine ⟨nameLength_other hbyte hslash r, plainNameLength_other hstart hslash r, ?_⟩
  rw [identLength_other hminus, plainNameLength_other hstart hslash]

theorem names_of_stopped {s : Text} (h : Stopped s) :
    nameLength s = 0 ∧ plainNameLength s = 0 ∧ identLength s = 0 := by
  cases s with
  | nil => exact ⟨by rw [nameLength], rfl, rfl⟩
  | cons b r =>
    have hstop := h b rfl
    exact names_of_not_goesOn (goesOn_of_isStop hstop) (by rintro rfl; cases hstop) r

namespace Alike

variable {s s' : Text}

theorem nameLength_eq_zero (h : Alike s s') (hs : nameLength s = 0) : nameLength s' = 0 := by
  cases h with
  | stopped _ hs' => exact (names_of_stopped hs').1
  | same hother hslash => exact (names_of_not_goesOn hother hslash _).1
  | @next b s s' hgoes h =>
    by_cases hbyte : isNameByte b = true
    · rw [nameLength_byte hbyte] at hs
      cases hs
    · exact nameLength_other (by simpa using hbyte) (by rintro rfl; cases hgoes) _
  | @escape s s' hiff =>
    rw [nameLength_escape] at hs ⊢
    split at hs
    · rename_i hnone
      rw [if_pos (hiff.1 hnone)]
    · omega

theorem plainNameLength_eq_zero (h : Alike s s') (hs : plainNameLength s = 0) :
    plainNameLength s' = 0 := by
  cases h with
  | stopped _ hs' => exact (names_of_stopped hs').2.1
  | same hother hslash => exact (names_of_not_goesOn hother hslash _).2.1
  | @next b s s' hgoes h =>
    by_cases hstart : isNameStart b = true
    · rw [plainNameLength_start hstart] at hs
      cases hs
    · exact plainNameLength_other (by simpa using hstart) (by rintro rfl; cases hgoes) _
  | @escape s s' hiff =>
    rw [plainNameLength_escape] at hs ⊢
    exact (Alike.escape hiff).nameLength_eq_zero hs

theorem identLength_eq_zero (h : Alike s s') (hs : identLength s = 0) : identLength s' = 0 := by
  cases h with
  | stopped _ hs' => exact (names_of_stopped hs').2.2
  | same hother hslash => exact (names_of_not_goesOn hother hslash _).2.2
  | @next b s s' hgoes h =>
    by_cases hminus : b = '-'
    · rw [hminus, identLength_minus] at hs ⊢
      split at hs
      · rename_i hnone
        rw [if_pos (h.plainNameLength_eq_zero hnone)]
      · cases hs
    · rw [identLength_other hminus] at hs ⊢
      exact (Alike.next hgoes h).plainNameLength_eq_zero hs
  | @escape s s' hiff =>
    rw [identLength_other (by decide)] at hs ⊢
    exact (Alike.escape hiff).plainNameLength_eq_zero hs

end Alike

section

variable {u u' : Text} (h : Near u u')

include h

/-- A name that ends within a text. -/
theorem nameLength_near {w : Text} (hle : nameLength (w ++ u) ≤ w.length) :
    nameLength (w ++ u') = nameLength (w ++ u) := by
  induction hn : w.length using Nat.strongRecOn generalizing w with
  | _ n ih =>
    cases w with
    | nil =>
      have hzero : nameLength u = 0 := Nat.le_zero.1 hle
      exact (h.alike.nameLength_eq_zero hzero).trans hzero.symm
    | cons b w =>
      rw [List.cons_append, List.cons_append] at *
      by_cases hbyte : isNameByte b = true
      · rw [nameLength_byte hbyte] at hle ⊢
        rw [nameLength_byte hbyte, ih w.length (by rw [← hn]; exact Nat.lt_succ_self _)
          (Nat.le_of_succ_le_succ hle) rfl]
      · by_cases hslash : b = '\\'
        · rw [hslash, nameLength_escape] at hle ⊢
          rw [nameLength_escape]
          have hescape : escapeLength (w ++ u') = escapeLength (w ++ u) := by
            apply escapeLength_near h
            rw [List.length_cons] at hle
            split at hle <;> omega
          rw [hescape]
          split
          · rfl
          · rename_i hsome
            rw [if_neg hsome, List.length_cons] at hle
            have hinside : escapeLength (w ++ u) - 1 ≤ w.length := by omega
            rw [List.drop_append_of_le_length hinside] at hle ⊢
            rw [List.drop_append_of_le_length hinside]
            rw [List.length_cons] at hn
            have hlen : (w.drop (escapeLength (w ++ u) - 1)).length =
                w.length - (escapeLength (w ++ u) - 1) := List.length_drop
            rw [ih _ (by omega) (by omega) rfl]
        · rw [nameLength_other (by simpa using hbyte) hslash,
            nameLength_other (by simpa using hbyte) hslash]

theorem plainNameLength_near {w : Text} (hle : plainNameLength (w ++ u) ≤ w.length) :
    plainNameLength (w ++ u') = plainNameLength (w ++ u) := by
  cases w with
  | nil =>
    have hzero : plainNameLength u = 0 := Nat.le_zero.1 hle
    exact (h.alike.plainNameLength_eq_zero hzero).trans hzero.symm
  | cons b w =>
    rw [List.cons_append, List.cons_append] at *
    by_cases hstart : isNameStart b = true
    · rw [plainNameLength_start hstart] at hle ⊢
      rw [plainNameLength_start hstart, nameLength_near h (Nat.le_of_succ_le_succ hle)]
    · by_cases hslash : b = '\\'
      · rw [hslash, plainNameLength_escape, ← List.cons_append] at hle ⊢
        rw [plainNameLength_escape, ← List.cons_append, nameLength_near h hle]
      · rw [plainNameLength_other (by simpa using hstart) hslash,
          plainNameLength_other (by simpa using hstart) hslash]

theorem identLength_near {w : Text} (hle : identLength (w ++ u) ≤ w.length) :
    identLength (w ++ u') = identLength (w ++ u) := by
  cases w with
  | nil =>
    have hzero : identLength u = 0 := Nat.le_zero.1 hle
    exact (h.alike.identLength_eq_zero hzero).trans hzero.symm
  | cons b w =>
    rw [List.cons_append, List.cons_append] at *
    by_cases hminus : b = '-'
    · rw [hminus, identLength_minus] at hle ⊢
      rw [identLength_minus, plainNameLength_near h]
      rw [List.length_cons] at hle
      split at hle <;> omega
    · rw [identLength_other hminus, ← List.cons_append] at hle ⊢
      rw [identLength_other hminus, ← List.cons_append, plainNameLength_near h hle]

end

/-! ### Before what follows -/

/-- A text ends with a backslash that a look ahead comes to. -/
def Dangling : Text → Prop
  | [] => False
  | b :: r => if goesOn b = true then Dangling r else b = '\\' ∧ r = []

theorem escapeLength_eq_zero_iff {b : UInt8} {r : Text} :
    escapeLength (b :: r) = 0 ↔ isBreak b = true := by
  refine ⟨fun hzero => ?_, escapeLength_eq_zero⟩
  rw [← Bool.not_eq_false]
  intro hfirm
  have := two_le_escapeLength ⟨b, r, rfl, hfirm⟩
  omega

theorem Alike.append {u u' : Text} (h : Alike u u') {w : Text}
    (hw : Dangling w → Firm u ∧ Firm u') : Alike (w ++ u) (w ++ u') := by
  induction w with
  | nil => exact h
  | cons b w ih =>
    rw [List.cons_append, List.cons_append]
    rw [Dangling] at hw
    by_cases hgoes : goesOn b = true
    · rw [if_pos hgoes] at hw
      exact .next hgoes (ih hw)
    · by_cases hslash : b = '\\'
      · rw [if_neg hgoes] at hw
        rw [hslash]
        refine .escape ?_
        cases w with
        | nil =>
          obtain ⟨hfirm, hfirm'⟩ := hw ⟨hslash, rfl⟩
          have := two_le_escapeLength hfirm
          have := two_le_escapeLength hfirm'
          rw [List.nil_append, List.nil_append]
          omega
        | cons c w => exact escapeLength_eq_zero_iff.trans escapeLength_eq_zero_iff.symm
      · exact .same (by simpa using hgoes) hslash

end Reactive.Css
