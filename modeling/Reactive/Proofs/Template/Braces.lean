/-
Where an expression in braces ends.

Two readers look for the end of an expression: that of expressions, which cuts
it into tokens, and that of templates, which only counts braces and passes over
strings and template literals.  They agree on every text that is an expression,
if no comment in it holds a quote, a backtick or a brace.

* `agrees_below` — both readers find the same closing brace and the same closing backtick;
* `steps_lexeme` — a token is passed over, unless it is a brace;
* `closes_scan` — nested tokens are passed over up to the brace after them;
* `Token.ofSource_braces` — an expression in braces is one token of a template.
-/
import Reactive.Proofs.Expr.Braces
import Reactive.Proofs.Expr.Canonical
import Reactive.Proofs.Expr.Lookahead
import Reactive.Proofs.Expr.Sound
import Reactive.Proofs.Expr.Tiling
import Reactive.Proofs.Template.Tiling

namespace Reactive.Template.Scanner

open Text
open Lexer (isPlain isPlain_iff stringBody templateBody closingBrace)

/-! ### The rules of the reader of templates -/

/-- The search for the closing brace of a run ends, and this follows the brace. -/
def Closes (stop start depth : Nat) (s r : Text) : Prop :=
  ∃ h, afterBraces stop start depth s = .ok ⟨r, h⟩

/-- The search for the closing backtick ends, and this follows the backtick. -/
def Ticks (stop start : Nat) (s r : Text) : Prop := ∃ h, afterTemplate stop start s = .ok ⟨r, h⟩

section

variable {stop start depth : Nat} {b : UInt8} {s s' r : Text}

theorem closes_last (hdepth : depth ≤ 1) : Closes stop start depth (125 :: r) r := by
  refine ⟨Nat.lt_succ_self _, ?_⟩
  have hb : ¬ (125 : UInt8) = ('{' : Char).toUInt8 := by decide
  have hb' : (125 : UInt8) = ('}' : Char).toUInt8 := rfl
  rw [afterBraces]
  simp only [if_neg hb, if_pos hb', if_pos hdepth]

theorem closes_open (h : Closes stop start (depth + 1) s r) :
    Closes stop start depth (123 :: s) r := by
  obtain ⟨hlt, h⟩ := h
  refine ⟨length_lt_cons _ hlt, ?_⟩
  have hb : (123 : UInt8) = ('{' : Char).toUInt8 := rfl
  rw [afterBraces]
  simp only [if_pos hb, h]

theorem closes_close (hdepth : ¬ depth ≤ 1) (h : Closes stop start (depth - 1) s r) :
    Closes stop start depth (125 :: s) r := by
  obtain ⟨hlt, h⟩ := h
  refine ⟨length_lt_cons _ hlt, ?_⟩
  have hb : ¬ (125 : UInt8) = ('{' : Char).toUInt8 := by decide
  have hb' : (125 : UInt8) = ('}' : Char).toUInt8 := rfl
  rw [afterBraces]
  simp only [if_neg hb, if_pos hb', if_neg hdepth, h]

theorem closes_plain (hb : isPlain b = true) (h : Closes stop start depth s r) :
    Closes stop start depth (b :: s) r := by
  obtain ⟨hlt, h⟩ := h
  refine ⟨length_lt_cons _ hlt, ?_⟩
  obtain ⟨hl, hr, hq, hq', ht⟩ := isPlain_iff.1 hb
  have hquote := Lexer.not_quote hq hq'
  have hl' : ¬ b = ('{' : Char).toUInt8 := hl
  have hr' : ¬ b = ('}' : Char).toUInt8 := hr
  have ht' : ¬ b = ('`' : Char).toUInt8 := ht
  rw [afterBraces]
  simp only [if_neg hl', if_neg hr', if_neg hquote, if_neg ht', h]

theorem closes_string (hb : b = 34 ∨ b = 39) (hs : afterString? b s = some s')
    (h : Closes stop start depth s' r) : Closes stop start depth (b :: s) r := by
  obtain ⟨hlt, h⟩ := h
  refine ⟨length_lt_cons _ (Nat.lt_trans hlt (length_afterString? hs)), ?_⟩
  have hl : ¬ b = ('{' : Char).toUInt8 := by rcases hb with rfl | rfl <;> decide
  have hr : ¬ b = ('}' : Char).toUInt8 := by rcases hb with rfl | rfl <;> decide
  have hquote : (decide (b = ('"' : Char).toUInt8) || decide (b = ('\'' : Char).toUInt8)) = true := by
    rcases hb with rfl | rfl <;> decide
  rw [afterBraces]
  simp only [if_neg hl, if_neg hr, if_pos hquote]
  split
  · rename_i hnone
    rw [hs] at hnone
    cases hnone
  · rename_i hsome
    rw [hs] at hsome
    cases hsome
    simp only [h]

theorem closes_tick (hs : ∀ start, Ticks stop start s s') (h : Closes stop start depth s' r) :
    Closes stop start depth (96 :: s) r := by
  obtain ⟨hlt, h⟩ := h
  obtain ⟨hlt', hs⟩ := hs (offset stop (96 :: s))
  refine ⟨length_lt_cons _ (Nat.lt_trans hlt hlt'), ?_⟩
  have hl : ¬ (96 : UInt8) = ('{' : Char).toUInt8 := by decide
  have hr : ¬ (96 : UInt8) = ('}' : Char).toUInt8 := by decide
  have hquote := Lexer.not_quote (b := 96) (by decide) (by decide)
  have ht : (96 : UInt8) = ('`' : Char).toUInt8 := rfl
  rw [afterBraces]
  simp only [if_neg hl, if_neg hr, if_neg hquote, if_pos ht, hs, h]

theorem ticks_tick : Ticks stop start (96 :: r) r := by
  refine ⟨Nat.lt_succ_self _, ?_⟩
  rw [afterTemplate]
  rfl

theorem ticks_escape (h : Ticks stop start s r) : Ticks stop start (92 :: b :: s) r := by
  obtain ⟨hlt, h⟩ := h
  refine ⟨length_lt_cons _ (length_lt_cons _ hlt), ?_⟩
  have ht : ¬ (92 : UInt8) = ('`' : Char).toUInt8 := by decide
  have hb : (92 : UInt8) = ('\\' : Char).toUInt8 := rfl
  replace h : afterTemplate stop start ((b :: s).drop 1) = .ok ⟨r, hlt⟩ := h
  rw [afterTemplate]
  simp only [if_neg ht, if_pos hb, h]

theorem ticks_hole (hs : ∀ start, Closes stop start 1 s s') (h : Ticks stop start s' r) :
    Ticks stop start (36 :: 123 :: s) r := by
  obtain ⟨hlt, h⟩ := h
  obtain ⟨hlt', hs⟩ := hs (offset stop (123 :: s))
  refine ⟨length_lt_cons _ (length_lt_cons _ (Nat.lt_trans hlt hlt')), ?_⟩
  have ht : ¬ (36 : UInt8) = ('`' : Char).toUInt8 := by decide
  have hb : ¬ (36 : UInt8) = ('\\' : Char).toUInt8 := by decide
  have hopen : (decide ((36 : UInt8) = ('$' : Char).toUInt8) && (123 :: s).head? == some 123) = true := rfl
  replace hs : afterBraces stop (offset stop (123 :: s)) 1 ((123 :: s).drop 1) = .ok ⟨s', hlt'⟩ := hs
  rw [afterTemplate]
  simp only [if_neg ht, if_neg hb, if_pos hopen, hs, h]

theorem ticks_byte (ht : b ≠ 96) (hb : b ≠ 92) (hopen : b = 36 → ∀ u, s ≠ 123 :: u)
    (h : Ticks stop start s r) : Ticks stop start (b :: s) r := by
  obtain ⟨hlt, h⟩ := h
  refine ⟨length_lt_cons _ hlt, ?_⟩
  have ht' : ¬ b = ('`' : Char).toUInt8 := ht
  have hb' : ¬ b = ('\\' : Char).toUInt8 := hb
  have hopen' : ¬ (decide (b = ('$' : Char).toUInt8) && s.head? == some 123) = true := by
    intro heq
    obtain ⟨hdollar, hhead⟩ := Bool.and_eq_true_iff.1 heq
    obtain ⟨u, rfl⟩ := List.head?_eq_some_iff.1 (beq_iff_eq.1 hhead)
    exact hopen (of_decide_eq_true hdollar) u rfl
  rw [afterTemplate]
  simp only [if_neg ht', if_neg hb', if_neg hopen', h]

end

/-! ### Both readers find the same ends -/

theorem afterString?_cons {quote b : UInt8} {s : Text} (hb : b ≠ 92) (hq : b ≠ quote) (hn : b ≠ 10) :
    afterString? quote (b :: s) = afterString? quote s := by
  have hb' : ¬ b = ('\\' : Char).toUInt8 := hb
  have hn' : ¬ b = ('\n' : Char).toUInt8 := hn
  rw [afterString?]
  · rw [if_neg hb', if_neg hq, if_neg hn']
  · exact fun _ _ h _ => hb h

theorem afterString?_digits {quote : UInt8} {ds s : Text} (hquote : quote = 34 ∨ quote = 39)
    (h : ∀ d ∈ ds, isHexDigit d = true) : afterString? quote (ds ++ s) = afterString? quote s := by
  induction ds with
  | nil => rfl
  | cons d ds ih =>
    obtain ⟨hq, hq', -, hb, hn, -⟩ := Lexer.not_special_of_hex (h d List.mem_cons_self)
    have hne : d ≠ quote := by rcases hquote with rfl | rfl <;> assumption
    rw [List.cons_append, afterString?_cons hb hne hn]
    exact ih fun d hd => h d (List.mem_cons_of_mem _ hd)

/-- Both readers find the same end of a string. -/
theorem agrees_stringBody {stop start : Nat} {quote : UInt8} {acc s v r : Text}
    (hquote : quote = 34 ∨ quote = 39) (h : stringBody stop start quote acc s = .ok (v, r)) (x : Text) :
    afterString? quote (s ++ x) = some (r ++ x) := by
  have hne : ¬ quote = ('\\' : Char).toUInt8 := by rcases hquote with rfl | rfl <;> decide
  fun_induction stringBody stop start quote acc s with
  | case1 => cases h
  | case2 =>
    cases h
    rw [List.cons_append, afterString?]
    · rw [if_neg hne, if_pos rfl]
    · exact fun _ _ h _ => hne h
  | case3 => cases h
  | case4 => cases h
  | case5 acc r' w r'' hescape _ _ ih =>
    obtain ⟨c, ds, rfl, hds⟩ := Lexer.escape_digits hescape
    have htext : 92 :: c :: (ds ++ r'') ++ x = 92 :: c :: (ds ++ (r'' ++ x)) := by simp
    exact (congrArg _ htext).trans ((afterString?_digits hquote hds).trans (ih h))
  | case6 acc b r' hq hn hb ih =>
    rw [List.cons_append, afterString?_cons hb hq hn]
    exact ih h

theorem ticks_digits {stop start : Nat} {ds s r : Text} (hds : ∀ d ∈ ds, isHexDigit d = true)
    (h : Ticks stop start s r) : Ticks stop start (ds ++ s) r := by
  induction ds with
  | nil => exact h
  | cons d ds ih =>
    obtain ⟨-, -, ht, hb, -, hopen⟩ := Lexer.not_special_of_hex (hds d List.mem_cons_self)
    exact ticks_byte ht hb (fun heq => absurd heq hopen)
      (ih fun d hd => hds d (List.mem_cons_of_mem _ hd))

/-- Both readers find the same end of a template literal and of a brace run, whatever follows. -/
theorem agrees_below (n : Nat) :
    (∀ {stop start : Nat} {acc s : Text} {t : Lexer.TemplateRead}, s.length < n →
      Lexer.Cuts stop start acc s t → ∀ stop' start' x, Ticks stop' start' (s ++ x) (t.rest ++ x)) ∧
    ∀ {stop start depth : Nat} {s r : Text}, s.length < n → Lexer.Closes stop start depth s r →
      ∀ stop' start' x, Closes stop' start' depth (s ++ x) (r ++ x) := by
  -- a literal holds brace runs and a brace run holds literals, so the two go by one induction, on a
  -- bound of the length
  induction n with
  | zero => exact ⟨fun hn => absurd hn (Nat.not_lt_zero _), fun hn => absurd hn (Nat.not_lt_zero _)⟩
  | succ n ih =>
    obtain ⟨ticks, braces⟩ := ih
    have under : ∀ {b : UInt8} {r u : Text}, u.length ≤ r.length → (b :: r).length < n + 1 →
        u.length < n := by
      intro b r u hu hn
      rw [List.length_cons] at hn
      omega
    constructor
    · intro stop start acc s t hn hs stop' start' x
      obtain ⟨hlt, hs⟩ := hs
      rw [templateBody.eq_def] at hs
      split at hs
      · cases hs
      · cases hs
        exact ticks_tick
      · split at hs
        · cases hs
        rename_i r v r' hescape
        split at hs <;> cases hs
        rename_i ht
        -- an escape takes its digits too, which stand for themselves here
        have hless := Lexer.length_escape hescape
        obtain ⟨c, ds, rfl, hds⟩ := Lexer.escape_digits hescape
        have hr := ticks (under (Nat.le_of_lt hless) hn) ⟨_, ht⟩ stop' start' x
        rw [List.cons_append, List.cons_append, List.append_assoc]
        exact ticks_escape (ticks_digits hds hr)
      · split at hs
        · cases hs
        rename_i r r' hless hclose
        split at hs <;> cases hs
        rename_i ht
        rw [List.length_cons, List.length_cons] at hn
        have hbraces := fun start => braces (by omega) ⟨_, hclose⟩ stop' start x
        exact ticks_hole hbraces (ticks (by omega) ⟨_, ht⟩ stop' start' x)
      · rename_i b r htick hslash hopen
        split at hs <;> cases hs
        rename_i ht
        have hr := ticks (under (Nat.le_refl _) hn) ⟨_, ht⟩ stop' start' x
        refine ticks_byte htick hslash (fun hdollar u hu => ?_) hr
        -- a dollar at the very end would read its brace from `x`, but then no backtick follows
        cases r with
        | nil =>
          rw [templateBody] at ht
          cases ht
        | cons c r =>
          obtain ⟨rfl, -⟩ := List.cons.inj hu
          exact hopen r hdollar rfl
    · intro stop start depth s r hn hs stop' start' x
      obtain ⟨hlt, hs⟩ := hs
      match s, hlt, hn, hs with
      | b :: s, hlt, hn, hs =>
      rw [closingBrace] at hs
      split at hs
      · rename_i hb
        split at hs <;> cases hs
        rename_i hr
        rw [hb]
        exact closes_open (braces (under (Nat.le_refl _) hn) ⟨_, hr⟩ stop' start' x)
      split at hs
      · rename_i hb
        rw [hb]
        split at hs
        · rename_i hdepth
          cases hs
          exact closes_last hdepth
        · rename_i hdepth
          split at hs <;> cases hs
          rename_i hr
          exact closes_close hdepth (braces (under (Nat.le_refl _) hn) ⟨_, hr⟩ stop' start' x)
      split at hs
      · rename_i hquote
        split at hs
        · cases hs
        rename_i v r' hstring
        simp only at hs
        split at hs <;> cases hs
        rename_i hr
        have hb : b = 34 ∨ b = 39 := by
          rwa [Bool.or_eq_true, decide_eq_true_eq, decide_eq_true_eq] at hquote
        have hless := Nat.le_of_lt (Lexer.length_stringBody hstring)
        exact closes_string hb (agrees_stringBody hb hstring x)
          (braces (under hless hn) ⟨_, hr⟩ stop' start' x)
      split at hs
      · rename_i hb
        split at hs
        · cases hs
        rename_i t hless ht
        split at hs <;> cases hs
        rename_i hr
        rw [hb]
        have hticks := fun start => ticks (under (Nat.le_refl _) hn) ⟨_, ht⟩ stop' start x
        exact closes_tick hticks (braces (under (by omega) hn) ⟨_, hr⟩ stop' start' x)
      · rename_i hl hr hquote ht
        split at hs <;> cases hs
        rename_i hrest
        have hb : isPlain b = true := by
          rw [Bool.or_eq_true, decide_eq_true_eq, decide_eq_true_eq, not_or] at hquote
          exact isPlain_iff.2 ⟨hl, hr, hquote.1, hquote.2, ht⟩
        exact closes_plain hb (braces (under (Nat.le_refl _) hn) ⟨_, hrest⟩ stop' start' x)

theorem agrees_templateBody {stop start : Nat} {acc s : Text} {t : Lexer.TemplateRead}
    (h : Lexer.Cuts stop start acc s t) (stop' start' : Nat) (x : Text) :
    Ticks stop' start' (s ++ x) (t.rest ++ x) :=
  (agrees_below (s.length + 1)).1 (Nat.lt_succ_self _) h stop' start' x

/-! ### Tokens that are passed over -/

/-- The search for a closing brace passes over a text up to a suffix of it. -/
def Passes (s rest : Text) : Prop :=
  ∀ stop start depth x r, Closes stop start depth (rest ++ x) r → Closes stop start depth (s ++ x) r

theorem Passes.refl (s : Text) : Passes s s := fun _ _ _ _ _ h => h

theorem Passes.trans {s s' s'' : Text} (h : Passes s s') (h' : Passes s' s'') : Passes s s'' :=
  fun stop start depth x r hr => h _ _ _ _ _ (h' stop start depth x r hr)

theorem passes_plain {s rest : Text} (hs : ∀ b ∈ s, isPlain b = true) : Passes (s ++ rest) rest := by
  intro stop start depth x r h
  induction s with
  | nil => exact h
  | cons b s ih =>
    exact closes_plain (hs b List.mem_cons_self) (ih fun b hb => hs b (List.mem_cons_of_mem _ hb))

/-- A lexeme of plain bytes is passed over, its first byte at least. -/
theorem passes_taken {b : UInt8} {r : Text} {n : Nat} (hb : isPlain b = true)
    (hr : ∀ c ∈ (b :: r).take n, isPlain c = true) : Passes (b :: r) (r.drop (n - 1)) := by
  have hall : ∀ c ∈ b :: r.take (n - 1), isPlain c = true := by
    intro c hc
    rcases List.mem_cons.1 hc with rfl | hc
    · exact hb
    cases n with
    | zero => cases hc
    | succ n => exact hr c (List.mem_cons_of_mem _ hc)
  have h := @passes_plain (b :: r.take (n - 1)) (r.drop (n - 1)) hall
  rwa [List.cons_append, List.take_append_drop] at h

theorem passes_front {b : UInt8} {r : Text} {n : Nat} (hn : 0 < n)
    (hr : ∀ c ∈ (b :: r).take n, isPlain c = true) : Passes (b :: r) (r.drop (n - 1)) := by
  refine passes_taken (hr b ?_) hr
  obtain ⟨m, rfl⟩ := Nat.exists_eq_succ_of_ne_zero (Nat.ne_of_gt hn)
  exact List.mem_cons_self

/-! ### Numerals -/

theorem isPlain_of_hex {b : UInt8} (h : isHexDigit b = true) : isPlain b = true := by
  rw [isPlain_iff]
  refine ⟨?_, ?_, ?_, ?_, ?_⟩ <;> rintro rfl <;> cases h

theorem isPlain_of_digit {b : UInt8} (h : isDigit b = true) : isPlain b = true := by
  refine isPlain_of_hex ?_
  rw [isHexDigit, h]
  rfl

theorem plain_zero (s : Text) : ∀ b ∈ s.take 0, isPlain b = true :=
  fun _ hb => absurd hb List.not_mem_nil

theorem plain_add {s : Text} {m n : Nat} (hm : ∀ b ∈ s.take m, isPlain b = true)
    (hn : ∀ b ∈ (s.drop m).take n, isPlain b = true) : ∀ b ∈ s.take (m + n), isPlain b = true := by
  intro b hb
  rw [List.take_add] at hb
  rcases List.mem_append.1 hb with hb | hb
  · exact hm b hb
  · exact hn b hb

theorem plain_run {p : UInt8 → Bool} (hp : ∀ b, p b = true → isPlain b = true) (s : Text) :
    ∀ b ∈ s.take (Lexer.runLength p s), isPlain b = true := by
  intro b hb
  rw [Lexer.runLength, ← List.prefix_iff_eq_take.1 (List.takeWhile_prefix p)] at hb
  exact hp b (List.all_eq_true.1 List.all_takeWhile b hb)

theorem plain_one {b : UInt8} {r : Text} (hb : isPlain b = true) :
    ∀ c ∈ (b :: r).take 1, isPlain c = true := by
  intro c hc
  obtain rfl := List.mem_singleton.1 hc
  exact hb

theorem plain_fraction (s : Text) : ∀ b ∈ s.take (Lexer.fractionLength s), isPlain b = true := by
  rw [Lexer.fractionLength.eq_def]
  split
  · simp only
    split
    · exact plain_zero _
    · exact plain_add (plain_one (by decide)) (plain_run (fun _ => isPlain_of_digit) _)
  · exact plain_zero _

theorem plain_exponent (s : Text) : ∀ b ∈ s.take (Lexer.exponentLength s), isPlain b = true := by
  rw [Lexer.exponentLength.eq_def]
  split
  · rename_i b r
    split
    · rename_i hb
      have hletter : isPlain b = true := by
        rcases Bool.or_eq_true_iff.1 hb with hb | hb <;> rw [beq_iff_eq.1 hb] <;> decide
      have hdigits : ∀ {k : Nat}, (∀ c ∈ r.take k, isPlain c = true) →
          ∀ c ∈ (b :: r).take (if Lexer.runLength isDigit (r.drop k) = 0 then 0
            else 1 + k + Lexer.runLength isDigit (r.drop k)), isPlain c = true := by
        intro k hk
        split
        · exact plain_zero _
        · refine plain_add (plain_add (plain_one hletter) hk) ?_
          rw [Nat.add_comm 1 k]
          exact plain_run (fun _ => isPlain_of_digit) _
      split
      · rename_i c r'
        split
        · rename_i hc
          refine hdigits (plain_one ?_)
          rcases Bool.or_eq_true_iff.1 hc with hc | hc <;> rw [beq_iff_eq.1 hc] <;> decide
        · exact hdigits (plain_zero _)
      · exact hdigits (plain_zero _)
    · exact plain_zero _
  · exact plain_zero _

theorem plain_number (s : Text) : ∀ b ∈ s.take (Lexer.numberLength s), isPlain b = true := by
  have hhex : ∀ (x : UInt8) (r : Text), isPlain x = true →
      ∀ b ∈ (48 :: x :: r).take (2 + Lexer.runLength isHexDigit r), isPlain b = true := by
    intro x r hx
    refine plain_add (fun b hb => ?_) (plain_run (fun _ => isPlain_of_hex) _)
    rcases List.mem_cons.1 hb with rfl | hb
    · decide
    · exact plain_one hx b hb
  rw [Lexer.numberLength.eq_def]
  split
  · exact hhex _ _ (by decide)
  · exact hhex _ _ (by decide)
  · refine plain_add (plain_add (plain_run (fun b hb => ?_) s) (plain_fraction _)) (plain_exponent _)
    rcases Bool.or_eq_true_iff.1 hb with hb | hb
    · exact isPlain_of_digit hb
    · rw [beq_iff_eq.1 hb]
      decide

/-! ### Lexemes -/

/-- Whether a lexeme is a brace. -/
def isBrace : Lexeme → Bool
  | .punct .lbrace | .punct .rbrace => true
  | _ => false

/-- What a lexeme does to the search for a closing brace: a brace stands for itself, and any other
lexeme is passed over. -/
def Steps (l : Lexeme) (s rest : Text) : Prop :=
  l = .punct .lbrace ∧ s = 123 :: rest ∨ l = .punct .rbrace ∧ s = 125 :: rest ∨
    isBrace l = false ∧ Passes s rest

theorem steps_mark {p : Punct} {b : UInt8} {r : Text} (h : Lexer.mark? (b :: r) = some p) :
    Steps (.punct p) (b :: r) (r.drop (p.text.length - 1)) := by
  have hstarts := List.find?_some h
  rw [Lexer.isMark, Bool.and_eq_true] at hstarts
  have htext := eq_append_of_startsWith hstarts.1
  by_cases hp : isBrace (.punct p) = true
  · unfold isBrace at hp
    split at hp
    · rename_i heq
      cases heq
      exact .inl ⟨rfl, htext⟩
    · rename_i heq
      cases heq
      exact .inr (.inl ⟨rfl, htext⟩)
    · cases hp
  · refine .inr (.inr ⟨by simpa using hp, ?_⟩)
    have hplain : ∀ c ∈ p.text, isPlain c = true := by
      rw [← List.all_eq_true]
      cases p <;> first | exact absurd rfl hp | decide
    refine passes_front ?_ ?_
    · cases p <;> decide
    · rwa [htext, List.take_left]

theorem steps_lexeme {stop : Nat} {b : UInt8} {r rest : Text} {l : Lexeme} {h}
    (hl : Lexer.lexeme stop b r = .ok ⟨(l, rest), h⟩) : Steps l (b :: r) rest := by
  -- a string, a template literal, a number, a word or a mark, in the order the reader tries them
  unfold Lexer.lexeme at hl
  simp only at hl
  split at hl
  · rename_i hquote
    split at hl <;> cases hl
    rename_i hstring
    have hb : b = 34 ∨ b = 39 := by
      rwa [Bool.or_eq_true, decide_eq_true_eq, decide_eq_true_eq] at hquote
    refine .inr (.inr ⟨rfl, fun stop' start' depth x u hu => ?_⟩)
    exact closes_string hb (agrees_stringBody hb hstring x) hu
  split at hl
  · rename_i hb
    split at hl <;> cases hl
    rename_i ht
    refine .inr (.inr ⟨rfl, fun stop' start' depth x u hu => ?_⟩)
    rw [hb]
    exact closes_tick (fun start => agrees_templateBody ⟨_, ht⟩ stop' start x) hu
  split at hl
  · rename_i hquote hb hnumber
    cases hl
    refine .inr (.inr ⟨rfl, passes_taken ?_ (plain_number _)⟩)
    -- the first byte is taken even from a numeral of no length
    unfold Lexer.startsNumber at hnumber
    split at hnumber
    · rename_i heq
      obtain ⟨rfl, -⟩ := List.cons.inj heq
      decide
    · rename_i heq
      obtain ⟨rfl, -⟩ := List.cons.inj heq
      exact isPlain_of_digit hnumber
    · cases hnumber
  split at hl
  · rename_i hstart
    have hword := Lexer.isWord_take hstart
    have hplain : ∀ c ∈ (b :: r).take (Lexer.identLength (b :: r)), isPlain c = true :=
      fun c hc => Lexer.isPlain_of_word hword hc
    have hpos : 0 < Lexer.identLength (b :: r) := by
      rcases Nat.eq_zero_or_pos (Lexer.identLength (b :: r)) with hzero | hpos
      · rw [hzero] at hword
        obtain ⟨_, _, heq, -⟩ := Lexer.exists_cons_of_word hword
        cases heq
      · exact hpos
    split at hl <;> cases hl
    · exact .inr (.inr ⟨rfl, passes_front hpos hplain⟩)
    · exact .inr (.inr ⟨rfl, passes_front hpos hplain⟩)
  · split at hl <;> cases hl
    rename_i hmark
    exact steps_mark hmark

end Reactive.Template.Scanner

namespace Reactive

/-! ### Comments -/

namespace Lexer

/-- The comments among the blanks at the front of a text. -/
def frontComments (s : Text) : List Text :=
  match s with
  | 10 :: r => frontComments r  -- line feed
  | 32 :: r => frontComments r  -- blank
  | 9 :: r => frontComments r  -- tab
  | 13 :: r => frontComments r  -- carriage return
  | 47 :: 47 :: r =>  -- / /
    r.take (r.length - (restOfLine r).length) :: frontComments (restOfLine r)
  | 47 :: 42 :: r =>  -- / *
    match _h : afterComment? false r with
    | some (_, r') => r.take (r.length - r'.length - 2) :: frontComments r'
    | none => []
  | _ => []
termination_by s.length
decreasing_by
  all_goals simp only [List.length_cons]
  iterate 4 omega
  · have := length_restOfLine_le r
    omega
  · have := length_afterComment? _h
    simp only at this
    omega

end Lexer

/-- The comments between the tokens of a suffix of a source that ends at `stop`. -/
def Token.comments (stop : Nat) (s : Text) : List Text :=
  match _h : Lexer.skipBlanks stop false s with
  | .ok (_, b :: r) =>
    match Lexer.lexeme stop b r with
    | .ok ⟨(_l, rest), _⟩ => Lexer.frontComments s ++ Token.comments stop rest
    | .error _ => Lexer.frontComments s
  | _ => Lexer.frontComments s
termination_by s.length
decreasing_by
  have h₁ := Lexer.length_skipBlanks _h
  have h₂ := _l.one_le_weight
  simp only [List.length_cons] at *
  omega

theorem Token.mem_comments_front {stop : Nat} {s c : Text} (h : c ∈ Lexer.frontComments s) :
    c ∈ Token.comments stop s := by
  rw [Token.comments.eq_def]
  split
  · split
    · exact List.mem_append_left _ h
    · exact h
  · exact h

theorem Token.mem_comments_rest {stop : Nat} {newline : Bool} {s r rest c : Text} {b : UInt8}
    {l : Lexeme} {h} (hblanks : Lexer.skipBlanks stop false s = .ok (newline, b :: r))
    (hlexeme : Lexer.lexeme stop b r = .ok ⟨(l, rest), h⟩) (hc : c ∈ Token.comments stop rest) :
    c ∈ Token.comments stop s := by
  rw [Token.comments.eq_def]
  split
  · rename_i hblanks'
    rw [hblanks] at hblanks'
    cases hblanks'
    rw [hlexeme]
    exact List.mem_append_right _ hc
  · rename_i hnone
    exact absurd hblanks (hnone _ _ _)

namespace Template.Scanner

open Text
open Lexer (isPlain isPlain_iff)

/-- Blanks and comments of plain bytes are passed over. -/
theorem passes_blanks {stop : Nat} {newline newline' : Bool} {s s' : Text}
    (h : Lexer.skipBlanks stop newline s = .ok (newline', s'))
    (hplain : ∀ c ∈ Lexer.frontComments s, ∀ b ∈ c, isPlain b = true) : Passes s s' := by
  have hblank : ∀ {b : UInt8} {r : Text}, isPlain b = true → Passes r s' → Passes (b :: r) s' :=
    fun hb hr stop start depth x u hu => closes_plain hb (hr stop start depth x u hu)
  fun_induction Lexer.skipBlanks stop newline s with
  | case1 _ r ih | case2 _ r ih | case3 _ r ih | case4 _ r ih =>
    rw [Lexer.frontComments] at hplain
    exact hblank (by decide) (ih h hplain)
  | case5 _ r ih =>
    rw [Lexer.frontComments] at hplain
    obtain ⟨c, hr, -⟩ := Lexer.restOfLine_spec r
    have htext : r.take (r.length - (Lexer.restOfLine r).length) = c := by
      have hlen := congrArg List.length hr
      rw [List.length_append] at hlen
      rw [hlen, Nat.add_sub_cancel, congrArg (List.take _) hr, List.take_left]
    rw [htext] at hplain
    have hc := @passes_plain c (Lexer.restOfLine r) (hplain c List.mem_cons_self)
    rw [← hr] at hc
    have hrest := ih h fun d hd => hplain d (List.mem_cons_of_mem _ hd)
    exact hblank (by decide) (hblank (by decide) (hc.trans hrest))
  | case6 _ r broke r' hcomment ih =>
    obtain ⟨c, rfl, -⟩ := Lexer.afterComment?_spec hcomment
    rw [Lexer.frontComments, hcomment] at hplain
    have htext : (c ++ 42 :: 47 :: r').take ((c ++ 42 :: 47 :: r').length - r'.length - 2) = c := by
      refine List.take_left' ?_
      simp only [List.length_append, List.length_cons]
      omega
    simp only [htext] at hplain
    have hc := @passes_plain c (42 :: 47 :: r') (hplain c List.mem_cons_self)
    have hrest := ih h fun d hd => hplain d (List.mem_cons_of_mem _ hd)
    have hend : Passes (42 :: 47 :: r') s' := hblank (by decide) (hblank (by decide) hrest)
    exact hblank (by decide) (hblank (by decide) (hc.trans hend))
  | case7 => cases h
  | case8 =>
    cases h
    exact Passes.refl _

/-! ### Whole expressions -/

/-- Tokens that close all braces that they and `depth` braces before them open, and no other. -/
inductive Unwinds : Nat → List Reactive.Token → Prop where
  | nil : Unwinds 0 []
  | opened {depth t ts} : t.lexeme = .punct .lbrace → Unwinds (depth + 1) ts → Unwinds depth (t :: ts)
  | closed {depth t ts} : t.lexeme = .punct .rbrace → Unwinds depth ts → Unwinds (depth + 1) (t :: ts)
  | other {depth t ts} : isBrace t.lexeme = false → Unwinds depth ts → Unwinds depth (t :: ts)

theorem unwinds_append {xs ys : List Reactive.Token} {depth : Nat} (hx : Grammar.Nested xs)
    (hy : Unwinds depth ys) : Unwinds depth (xs ++ ys) := by
  have hother : ∀ l, Grammar.isBracket l = false → isBrace l = false := by
    intro l hl
    unfold isBrace
    split <;> first | rfl | cases hl
  induction hx generalizing depth ys with
  | nil => exact hy
  | cons ht _ ih => exact .other (hother _ ht) (ih hy)
  | enclosed hpair _ _ ihx ihy =>
    rw [List.cons_append, List.append_assoc, List.cons_append]
    unfold Grammar.encloses at hpair
    split at hpair
    · rename_i ho hk
      exact .other (by rw [ho]; rfl) (ihx (.other (by rw [hk]; rfl) (ihy hy)))
    · rename_i ho hk
      exact .other (by rw [ho]; rfl) (ihx (.other (by rw [hk]; rfl) (ihy hy)))
    · rename_i ho hk
      exact .opened ho (ihx (.closed hk (ihy hy)))
    · cases hpair

/-- The search for a closing brace passes over a source up to the brace after it, if the tokens close
the braces that they open. -/
theorem closes_scan {stop : Nat} {s : Text} {ts : List Reactive.Token} {eof : Reactive.Token}
    (hs : Reactive.Token.scan stop s = .ok (ts, eof))
    (hplain : ∀ c ∈ Reactive.Token.comments stop s, ∀ b ∈ c, isPlain b = true) {depth : Nat}
    (hts : Unwinds depth ts) (stop' start : Nat) (x : Text) :
    Closes stop' start (depth + 1) (s ++ 125 :: x) x := by
  -- the invariant: one more brace is open in the template than the tokens so far have left open
  fun_induction Reactive.Token.scan stop s generalizing ts eof depth with
  | case1 => cases hs
  | case2 s newline hblanks =>
    cases hs
    cases hts
    have hfront := passes_blanks hblanks fun c hc => hplain c (Reactive.Token.mem_comments_front hc)
    exact hfront _ _ _ _ _ (closes_last (Nat.le_refl 1))
  | case3 => cases hs
  | case4 => cases hs
  | case5 s newline b r hblanks l rest hlt hlexeme ts' eof' hrest ih =>
    cases hs
    have hfront := passes_blanks hblanks fun c hc => hplain c (Reactive.Token.mem_comments_front hc)
    refine hfront _ _ _ _ _ ?_
    have hrest' : ∀ {d : Nat}, Unwinds d ts' → Closes stop' start (d + 1) (rest ++ 125 :: x) x :=
      ih hrest fun c hc => hplain c (Reactive.Token.mem_comments_rest hblanks hlexeme hc)
    rcases steps_lexeme hlexeme with ⟨rfl, hs⟩ | ⟨rfl, hs⟩ | ⟨hl, hpass⟩
    · rw [hs]
      cases hts with
      | opened _ hts => exact closes_open (hrest' hts)
      | closed ht _ => cases ht
      | other ht _ => cases ht
    · rw [hs]
      cases hts with
      | opened ht _ => cases ht
      | closed _ hts => exact closes_close (by omega) (hrest' hts)
      | other ht _ => cases ht
    · refine hpass _ _ _ _ _ ?_
      cases hts with
      | opened ht _ => cases hl.symm.trans (congrArg isBrace ht)
      | closed ht _ => cases hl.symm.trans (congrArg isBrace ht)
      | other _ hts => exact hrest' hts

/-! ### No directive -/

/-- A byte that a directive starts with. -/
def opensDirective (b : UInt8) : Bool := b == '#' || b == ':' || b == '/'

theorem opensDirective_iff {b : UInt8} : opensDirective b = true ↔ b = 35 ∨ b = 58 ∨ b = 47 := by
  rw [opensDirective, Bool.or_eq_true, Bool.or_eq_true, beq_iff_eq, beq_iff_eq, beq_iff_eq, or_assoc]
  exact Iff.rfl

theorem not_directive_mark {p : Punct} (h : Grammar.startsExpr (.punct p) = true) :
    opensDirective (p.text.headD 0) = false := by
  cases p <;> first | rfl | cases h

/-- No lexeme that starts an expression starts like a directive. -/
theorem not_directive_lexeme {stop : Nat} {b : UInt8} {r rest : Text} {l : Lexeme} {h}
    (hl : Lexer.lexeme stop b r = .ok ⟨(l, rest), h⟩) (hstart : Grammar.startsExpr l = true) :
    opensDirective b = false := by
  cases hb : opensDirective b with
  | false => rfl
  | true =>
    have hcases := opensDirective_iff.1 hb
    have hident : isIdentStart (decode b r).1 = false := by
      rcases hcases with rfl | rfl | rfl <;> rw [decode_ascii (by decide)] <;> decide +kernel
    have hnumber : Lexer.startsNumber (b :: r) = false := by
      rcases hcases with rfl | rfl | rfl <;> rfl
    rw [Lexer.lexeme_plain (by rcases hcases with rfl | rfl | rfl <;> decide)
      (by rcases hcases with rfl | rfl | rfl <;> decide)
      (by rcases hcases with rfl | rfl | rfl <;> decide), hnumber, hident,
      if_neg Bool.false_ne_true, if_neg Bool.false_ne_true] at hl
    -- what is left is a mark, and its text starts with the byte
    split at hl <;> cases hl
    rename_i p hmark
    have hstarts := List.find?_some hmark
    rw [Lexer.isMark, Bool.and_eq_true] at hstarts
    have hhead := congrArg (·.headD 0) (eq_append_of_startsWith hstarts.1)
    have htext : p.text ≠ [] := by cases p <;> exact List.cons_ne_nil _ _
    obtain ⟨c, u, hcu⟩ := List.exists_cons_of_ne_nil htext
    have hnot := not_directive_mark hstart
    rw [hcu] at hhead hnot
    cases hhead
    exact hb.symm.trans hnot

theorem skipBlanks_edges (stop : Nat) (newline : Bool) (s : Text) : ∃ newline',
    Lexer.skipBlanks stop newline s = Lexer.skipBlanks stop newline' (s.dropWhile isEdge) := by
  induction s generalizing newline with
  | nil => exact ⟨newline, rfl⟩
  | cons b s ih =>
    by_cases hb : isEdge b = true
    · have hstep : ∃ newline', Lexer.skipBlanks stop newline (b :: s) =
          Lexer.skipBlanks stop newline' s := by
        simp only [isEdge, Bool.or_eq_true, beq_iff_eq] at hb
        rcases hb with ((rfl | rfl) | rfl) | rfl
        · exact ⟨newline, Lexer.skipBlanks.eq_2 ..⟩
        · exact ⟨newline, Lexer.skipBlanks.eq_3 ..⟩
        · exact ⟨newline, Lexer.skipBlanks.eq_4 ..⟩
        · exact ⟨true, Lexer.skipBlanks.eq_1 ..⟩
      obtain ⟨newline', hstep⟩ := hstep
      obtain ⟨newline'', hrest⟩ := ih newline'
      rw [List.dropWhile_cons_of_pos hb, hstep]
      exact ⟨newline'', hrest⟩
    · rw [List.dropWhile_cons_of_neg hb]
      exact ⟨newline, rfl⟩

/-- What stands after the blanks at the front of a source that starts like an expression is no
directive: it is a comment, or the first lexeme. -/
theorem not_directive_scan {stop : Nat} {s : Text} {t : Reactive.Token} {ts : List Reactive.Token}
    {eof : Reactive.Token} (hs : Reactive.Token.scan stop s = .ok (t :: ts, eof))
    (hstart : Grammar.startsExpr t.lexeme = true) {b c : UInt8} {u : Text}
    (hu : s.dropWhile isEdge = b :: c :: u) : (opensDirective b && isNameStart c) = false := by
  obtain ⟨newline, hblanks⟩ := skipBlanks_edges stop false s
  cases hcond : opensDirective b && isNameStart c with
  | false => rfl
  | true =>
    obtain ⟨hb, hc⟩ := Bool.and_eq_true_iff.1 hcond
    -- a name cannot continue a slash to a comment, so the byte is the first of a lexeme
    have hopens : Lexer.opens (b :: c :: u) = true := by
      rcases opensDirective_iff.1 hb with rfl | rfl | rfl
      · rfl
      · rfl
      · have hslash : c ≠ 47 := by rintro rfl; cases hc
        have hstar : c ≠ 42 := by rintro rfl; cases hc
        simp [Lexer.opens, hslash, hstar]
    rw [hu, Lexer.skipBlanks_opens hopens] at hblanks
    rw [Reactive.Token.scan.eq_def] at hs
    split at hs
    · cases hs
    · cases hs
    · rename_i hblanks'
      rw [hblanks] at hblanks'
      cases hblanks'
      split at hs
      · cases hs
      · rename_i hlexeme
        split at hs <;> cases hs
        exact hb.symm.trans (not_directive_lexeme hlexeme hstart)

/-- A trimmed text stands at the front of the text without the blanks before it. -/
theorem trimmed_prefix {s v : Text} {at_ at' : Nat} (h : trimmed s at_ = (v, at')) :
    v <+: s.dropWhile isEdge := by
  obtain ⟨rfl, -⟩ := Prod.mk.inj h
  rw [← List.reverse_suffix, List.reverse_reverse]
  exact List.dropWhile_suffix isEdge

/-- A brace run whose text does not start like a directive is an expression. -/
theorem braceToken_expr {start at_ : Nat} {inner body : Text}
    (hbody : trimmed inner (start + 1) = (body, at_))
    (h : ∀ b c u, inner.dropWhile isEdge = b :: c :: u → (opensDirective b && isNameStart c) = false) :
    braceToken start inner = .ok ⟨.expr, body, start, at_⟩ := by
  have hfront : ∀ b c u, body = b :: c :: u → (opensDirective b && isNameStart c) = false := by
    rintro b c u rfl
    obtain ⟨w, hw⟩ := trimmed_prefix hbody
    exact h b c (u ++ w) hw.symm
  have hword : ∀ {word : Text} {b c : UInt8} {w : Text}, word = b :: c :: w →
      (opensDirective b && isNameStart c) = true → ¬ hasWord body word = true := by
    rintro word b c w rfl hcond hw
    exact absurd (hcond.symm.trans (hfront b c _ (eq_append_of_hasWord hw))) (by decide)
  have hif : ¬ hasWord body "#if" = true := hword rfl rfl
  have heach : ¬ hasWord body "#each" = true := hword rfl rfl
  have helse : ¬ hasWord body ":else" = true := hword rfl rfl
  have hif' : ¬ hasWord body "/if" = true := hword rfl rfl
  have heach' : ¬ hasWord body "/each" = true := hword rfl rfl
  rw [braceToken, hbody]
  simp only
  rw [if_neg hif, if_neg heach, if_neg helse, if_neg hif', if_neg heach']
  split
  · rename_i b c u
    rw [if_neg]
    exact Bool.eq_false_iff.1 (hfront b c u rfl)
  · rfl

/-! ### An expression in braces -/

theorem dropWhile_head {p : UInt8 → Bool} (s : Text) : ∀ b ∈ (s.dropWhile p).head?, p b = false := by
  intro b hb
  have hnot := List.head?_dropWhile_not p s
  rw [hb] at hnot
  exact hnot

/-- A trimmed text neither starts nor ends with a blank. -/
theorem trimmed_bare {s v : Text} {at_ at' : Nat} (h : trimmed s at_ = (v, at')) :
    (∀ b ∈ v.head?, isEdge b = false) ∧ ∀ b ∈ v.getLast?, isEdge b = false := by
  constructor
  · intro b hb
    obtain ⟨w, hw⟩ := trimmed_prefix h
    refine dropWhile_head s b ?_
    rw [← hw]
    cases v with
    | nil => cases hb
    | cons c v => exact hb
  · intro b hb
    obtain ⟨rfl, -⟩ := Prod.mk.inj h
    rw [List.getLast?_reverse] at hb
    exact dropWhile_head _ b hb

/-- A brace run that ends before `x` and does not start like a directive is an expression of data. -/
theorem dataToken_run {stop at_ : Nat} {inner body x : Text}
    (hclose : ∀ start, Closes stop start 1 (inner ++ 125 :: x) x)
    (hbody : trimmed inner (offset stop (123 :: (inner ++ 125 :: x)) + 1) = (body, at_))
    (h : ∀ b c u, inner.dropWhile isEdge = b :: c :: u → (opensDirective b && isNameStart c) = false) :
    ∃ hless, dataToken stop 123 (inner ++ 125 :: x) =
      .ok ⟨⟨.expr, body, offset stop (123 :: (inner ++ 125 :: x)), at_⟩, .data, x, hless⟩ := by
  obtain ⟨hlt, hclose⟩ := hclose (offset stop (123 :: (inner ++ 125 :: x)))
  refine ⟨length_lt_cons _ hlt, ?_⟩
  have hcomment : ¬ startsWith (123 :: (inner ++ 125 :: x)) "<!--" = true := by
    intro hstarts
    cases eq_append_of_startsWith hstarts
  have hinner : (inner ++ 125 :: x).take ((inner ++ 125 :: x).length - x.length - 1) = inner := by
    refine List.take_left' ?_
    rw [List.length_append, List.length_cons]
    omega
  have hopen : (123 : UInt8) = ('{' : Char).toUInt8 := rfl
  have hangle : decide ((123 : UInt8) = ('<' : Char).toUInt8) = false := rfl
  rw [dataToken.eq_def]
  simp only [if_neg hcomment, hangle, Bool.false_and, if_neg Bool.false_ne_true, if_pos hopen, hclose]
  rw [hinner, braceToken_expr hbody h]

end Template.Scanner

open Template.Scanner in
/-- An expression in braces is one token of a template, whose value is the expression without the
blanks around it; the end follows.  Comments between the tokens of the expression must not hold a
quote, a backtick or a brace; those in the expressions of a template literal may. -/
theorem Template.Token.ofSource_braces {e : Text} {tree : Expr} (h : Expr.parse e = .ok tree)
    (hplain : ∀ c ∈ Token.comments e.length e, ∀ b ∈ c, Lexer.isPlain b = true) :
    ∃ l v r, e = l ++ (v ++ r) ∧ Edges l ∧ Edges r ∧ (∀ b ∈ v.head?, isEdge b = false) ∧
      (∀ b ∈ v.getLast?, isEdge b = false) ∧
      Template.Token.ofSource ('{' :: (e ++ [('}' : UInt8)])) = .ok
        [⟨.expr, v, 0, 1 + l.length⟩, ⟨.eof, [], e.length + 2, e.length + 2⟩] := by
  obtain ⟨ts, eof, hts⟩ : ∃ ts eof, Reactive.Token.ofSource 0 e = .ok (ts, eof) := by
    cases hsrc : Reactive.Token.ofSource 0 e with
    | ok p => exact ⟨p.1, p.2, rfl⟩
    | error err =>
      rw [Expr.parse, Expr.parseAt, hsrc] at h
      cases h
  have hscan : Reactive.Token.scan e.length e = .ok (ts, eof) := by
    rw [← Nat.zero_add e.length]
    exact hts
  -- the tokens of an expression nest, and the first of them opens no directive
  obtain ⟨τ, hder⟩ := Expr.derives_of_parseAt hts h
  have hunwinds := unwinds_append hder.nested Unwinds.nil
  rw [List.append_nil] at hunwinds
  obtain ⟨t, ts', rfl, hstart⟩ := hder.exists_cons
  obtain ⟨v, at_, hv⟩ : ∃ v at_, trimmed e 1 = (v, at_) := ⟨_, _, rfl⟩
  obtain ⟨hhead, hlast⟩ := trimmed_bare hv
  obtain ⟨l, r, hsplit, hl, hr, rfl⟩ := trimmed_spec hv
  refine ⟨l, v, r, hsplit, hl, hr, hhead, hlast, ?_⟩
  have hlen : (123 :: (e ++ [125]) : Text).length = e.length + 2 := by simp
  have hat : offset (e.length + 2) (123 :: (e ++ [125])) = 0 := by rw [offset, hlen, Nat.sub_self]
  have hv' : trimmed e (offset (e.length + 2) (123 :: (e ++ [125])) + 1) = (v, 1 + l.length) := by
    rw [hat]
    exact hv
  obtain ⟨hless, hrun⟩ := dataToken_run
    (fun start => closes_scan hscan hplain hunwinds (e.length + 2) start []) hv'
    fun b c u => not_directive_scan hscan hstart
  -- after the run nothing is left to read
  have htokens : Template.Token.scan (e.length + 2) .data (123 :: (e ++ [125])) =
      .ok [⟨.expr, v, 0, 1 + l.length⟩] := by
    rw [Template.Token.scan, nextToken, hrun, hat]
    simp only [Except.map]
    rw [Template.Token.scan]
    rfl
  have hsource : Template.Token.ofSource (123 :: (e ++ [125])) =
      (Template.Token.scan (e.length + 2) .data (123 :: (e ++ [125]))).map
        fun ts => ts ++ [⟨.eof, [], e.length + 2, e.length + 2⟩] := by
    rw [Template.Token.ofSource, Template.Token.eof, hlen]
  refine hsource.trans ?_
  rw [htokens]
  rfl

/-- An object literal whose string holds a quote and a brace, an arrow block, and a template literal
that holds a brace and an object literal. -/
theorem Template.Token.ofSource_braces_nested :
    let e : Text := " [\x7ba: '\\'\x7d'\x7d, x => \x7b return `\x7d$\x7b\x7bb: x\x7d\x7d`; \x7d] /* c */ "
    (∃ tree, Expr.parse e = .ok tree) ∧ Token.comments e.length e = [(" c " : Text)] ∧
      ∃ v start, Template.Token.ofSource ('{' :: (e ++ [('}' : UInt8)])) =
        .ok [⟨.expr, v, 0, start⟩, ⟨.eof, [], e.length + 2, e.length + 2⟩] := by
  intro e
  obtain ⟨tree, htree⟩ : ∃ tree, Expr.parse e = .ok tree := by
    have hok : (Expr.parse e).isOk = true := by decide +kernel
    cases htree : Expr.parse e with
    | ok tree => exact ⟨tree, rfl⟩
    | error err =>
      rw [htree] at hok
      cases hok
  have hcomments : Token.comments e.length e = [(" c " : Text)] := by decide +kernel
  have hplain : ∀ c ∈ Token.comments e.length e, ∀ b ∈ c, Lexer.isPlain b = true := by
    rw [hcomments]
    simp only [List.mem_singleton, forall_eq, ← List.all_eq_true]
    decide
  obtain ⟨l, v, r, -, -, -, -, -, hts⟩ := Template.Token.ofSource_braces htree hplain
  exact ⟨⟨tree, htree⟩, hcomments, v, _, hts⟩

end Reactive
