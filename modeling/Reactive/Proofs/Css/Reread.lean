/-
Reading a style sheet back.

Where white space is removed or a comment becomes a blank, a token may come to
stand before another text than in the sheet.  If each token that a blank follows
stands before a single blank, it stands before whatever is put there, and the text
that is left has the tokens that are left.

* `Stands` — a token at the front of a text;
* `Apart` — tokens that need no more than a blank after them;
* `Fits` — what may be put in the place of the tokens after a token;
* `Steady` — tokens that stand before whatever fits what follows them;
* `Steady.putsBefore` — tokens put down before a mark are read back.
-/
import Mathlib.Data.List.Chain
import Reactive.Proofs.Css.Follow
import Reactive.Proofs.Css.Purge

namespace Reactive.Css

/-! ### Tokens at the front of a text -/

/-- A token stands before a text: there the lexer takes it for what it is. -/
def Stands (t : Token) (u : Text) : Prop :=
  t.kind.Lasting ∧ ∃ b r, t.text = b :: r ∧ lengthOf b (r ++ u) = (t.kind, t.text.length)

/-- A token that stands before a text stands before every other text that it cannot tell apart. -/
theorem Stands.near {t : Token} {u u' : Text} (ht : Stands t u) (h : Near u u') : Stands t u' := by
  obtain ⟨hkind, b, r, htext, hlength⟩ := ht
  refine ⟨hkind, b, r, htext, ?_⟩
  rw [lengthOf_near h, hlength]
  · rw [hlength, htext, List.length_cons]
  · rwa [hlength]

/-- The tokens of a text whose front is one. -/
theorem Stands.tokensFrom {t : Token} {u : Text} (h : Stands t u) (start : Nat) :
    tokensFrom start (t.text ++ u) =
      (Css.tokensFrom (start + t.text.length) u).map (⟨t.kind, t.text, start⟩ :: ·) := by
  obtain ⟨hkind, b, r, htext, hlength⟩ := h
  have hlong : max t.text.length 1 = t.text.length :=
    Nat.max_eq_left (by rw [htext]; exact Nat.le_add_left _ _)
  have hdrop : (r ++ u).drop (t.text.length - 1) = u := by
    rw [htext, List.length_cons, Nat.add_sub_cancel, List.drop_left]
  have hwhole : t.text ++ u = b :: (r ++ u) := by rw [htext]; rfl
  rw [hwhole, Css.tokensFrom, hlength]
  dsimp only
  rw [← hwhole, hlong, List.take_left, hdrop]
  split
  · exact absurd (by assumption) hkind.str
  · exact absurd (by assumption) hkind.url
  · rw [if_neg hkind.comment]
    cases Css.tokensFrom (start + t.text.length) u <;> rfl

/-- A name does not end before a backslash that it comes to: that escapes the blank. -/
theorem nameLength_dangling {w : Text} (hw : Dangling w) : nameLength (w ++ [32]) ≠ w.length := by
  induction w with
  | nil => cases hw
  | cons b w ih =>
    rw [Dangling] at hw
    rw [List.cons_append, List.length_cons]
    by_cases hgoes : goesOn b = true
    · rw [if_pos hgoes] at hw
      by_cases hbyte : isNameByte b = true
      · rw [nameLength_byte hbyte]
        exact fun heq => ih hw (Nat.succ.inj heq)
      · rw [nameLength_other (by simpa using hbyte) (by rintro rfl; cases hgoes)]
        exact (Nat.succ_ne_zero _).symm
    · rw [if_neg hgoes] at hw
      obtain ⟨rfl, rfl⟩ := hw
      rw [List.nil_append, nameLength_escape, show escapeLength [32] = 2 by decide]
      simp

theorem plainNameLength_dangling {w : Text} (hw : Dangling w) :
    plainNameLength (w ++ [32]) ≠ w.length := by
  cases w with
  | nil => cases hw
  | cons b w =>
    rw [List.cons_append]
    by_cases hstart : isNameStart b = true
    · rw [plainNameLength_start hstart, List.length_cons]
      rw [Dangling, if_pos (goesOn_of_isNameStart hstart)] at hw
      exact fun heq => nameLength_dangling hw (Nat.succ.inj heq)
    · by_cases hslash : b = '\\'
      · subst hslash
        rw [plainNameLength_escape, ← List.cons_append]
        exact nameLength_dangling hw
      · rw [plainNameLength_other (by simpa using hstart) hslash]
        exact (Nat.succ_ne_zero _).symm

theorem identLength_dangling {w : Text} (hw : Dangling w) : identLength (w ++ [32]) ≠ w.length := by
  cases w with
  | nil => cases hw
  | cons b w =>
    rw [List.cons_append]
    by_cases hminus : b = '-'
    · subst hminus
      rw [Dangling, if_pos (by decide)] at hw
      rw [identLength_minus]
      split
      · exact (Nat.succ_ne_zero _).symm
      · exact fun heq => plainNameLength_dangling hw (Nat.succ.inj heq)
    · rw [identLength_other hminus, ← List.cons_append]
      exact plainNameLength_dangling hw

section

variable {w : Text} (hw : Dangling w)

include hw

theorem length_pos_of_dangling : 0 < w.length := by
  cases w with
  | nil => cases hw
  | cons b w => exact Nat.succ_pos _

theorem mem_dangling {c : UInt8} (hc : c ∈ w ++ [32]) : goesOn c = true ∨ c = '\\' ∨ c = ' ' := by
  induction w with
  | nil => cases hw
  | cons b w ih =>
    rw [Dangling] at hw
    rcases List.mem_cons.1 hc with rfl | hc
    · split at hw
      · rename_i hgoes
        exact .inl hgoes
      · exact .inr (.inl hw.1)
    · split at hw
      · exact ih hw hc
      · rw [hw.2] at hc
        exact .inr (.inr (List.mem_singleton.1 hc))

/-- The front of what follows `n` bytes is nothing but what a look ahead goes on with. -/
theorem head_dangling {n : Nat} {c : UInt8} (hc : ¬ (goesOn c = true ∨ c = '\\' ∨ c = ' ')) :
    ¬ ((w ++ [32]).drop n).head? = some c :=
  fun hfront => hc (mem_dangling hw (List.mem_of_mem_drop (List.mem_of_mem_head? hfront)))

theorem dangling_drop {n : Nat} (hn : n < w.length) : Dangling (w.drop n) := by
  induction n generalizing w with
  | zero => exact hw
  | succ n ih =>
    cases w with
    | nil => cases hw
    | cons b w =>
      rw [Dangling] at hw
      split at hw
      · exact ih hw (Nat.lt_of_succ_lt_succ hn)
      · rw [hw.2] at hn
        cases Nat.lt_of_succ_lt_succ hn

theorem length_run_dangling : (run (w ++ [32])).length + 1 = w.length := by
  induction w with
  | nil => cases hw
  | cons b w ih =>
    rw [Dangling] at hw
    rw [List.cons_append, List.length_cons]
    by_cases hgoes : goesOn b = true
    · rw [if_pos hgoes] at hw
      rw [run_cons hgoes, List.length_cons, ih hw]
    · rw [if_neg hgoes] at hw
      rw [run_cons_neg (by simpa using hgoes), hw.2]

theorem numeric_dangling : (numeric (w ++ [32])).2 ≠ w.length := by
  have hpos := length_pos_of_dangling hw
  have hrun := length_run_dangling hw
  have hnumber := numberLength_le_run (w ++ [32])
  rw [numeric_eq, if_neg (head_dangling hw (c := 37) (by decide))]
  split
  · exact Nat.ne_of_lt hpos
  · split
    · dsimp only
      omega
    · have hinside : numberLength (w ++ [32]) < w.length := by omega
      have hunit := identLength_dangling (dangling_drop hw hinside)
      rw [List.length_drop] at hunit
      rw [List.drop_append_of_le_length (Nat.le_of_lt hinside)]
      dsimp only
      omega

theorem identLike_dangling : (identLike (w ++ [32])).2 ≠ w.length := by
  rw [identLike_eq, if_neg (head_dangling hw (c := 40) (by decide))]
  split
  · exact Nat.ne_of_lt (length_pos_of_dangling hw)
  · exact identLength_dangling hw

end

theorem firstOf_ne {n : Nat} {as : List (Kind × Nat)} (h : ∀ a ∈ as, a.2 ≠ n)
    (hone : n = 1 → ∃ a ∈ as, a.2 ≠ 0) : (firstOf as).2 ≠ n := by
  induction as with
  | nil =>
    intro heq
    obtain ⟨a, ha, -⟩ := hone heq.symm
    cases ha
  | cons a as ih =>
    rw [List.forall_mem_cons] at h
    rw [firstOf]
    split
    · rename_i hnone
      refine ih h.2 fun heq => ?_
      obtain ⟨x, hx, hsome⟩ := hone heq
      rcases List.mem_cons.1 hx with rfl | hx
      · exact absurd hnone hsome
      · exact ⟨x, hx, hsome⟩
    · exact h.1

theorem isStop_of_isBlank {b : UInt8} (h : isBlank b = true) : isStop b = true := by
  simp [isStop, h]

/-- A backslash before a blank is an identifier. -/
theorem identLike_slash : (identLike ['\\', ' ']).2 ≠ 0 := by
  have hident : identLength ['\\', ' '] = 2 := by
    rw [identLength_other (by decide), plainNameLength_escape, nameLength_escape,
      show escapeLength [' '] = 2 by decide, if_neg (by decide),
      show List.drop (2 - 1) [(' ' : UInt8)] = [] from rfl, nameLength]
  rw [identLike_eq, hident]
  decide

/-- No token ends before a blank with a backslash that a look ahead comes to. -/
theorem lengthOf_dangling {b : UInt8} {w : Text} (hw : Dangling (b :: w)) :
    (lengthOf b (w ++ [32])).2 ≠ w.length + 1 := by
  have hnumeric := numeric_dangling hw
  have hident := identLike_dangling hw
  have hrange : unicodeRangeLength (b :: w ++ [32]) ≠ w.length + 1 := by
    have hle := unicodeRangeLength_le_run (b :: w ++ [32])
    have hrun := length_run_dangling hw
    rw [List.length_cons] at hrun
    omega
  have hfront : goesOn b = true ∧ Dangling w ∨ b = '\\' ∧ w = [] := by
    rw [Dangling] at hw
    split at hw
    · rename_i hgoes
      exact .inl ⟨hgoes, hw⟩
    · exact .inr hw
  have hblank : ¬ isBlank b = true := by
    intro hblank
    rcases hfront with ⟨hgoes, -⟩ | ⟨rfl, -⟩
    · have hstop := not_stop_of_goesOn hgoes
      rw [isStop_of_isBlank hblank] at hstop
      cases hstop
    · cases hblank
  have hrest : ∀ {as : List (Kind × Nat)}, Dangling w → (∀ a ∈ as, a.2 ≠ w.length + 1) →
      (firstOf as).2 ≠ w.length + 1 := by
    intro as hdangling has
    refine firstOf_ne has fun hone => ?_
    have := length_pos_of_dangling hdangling
    omega
  unfold lengthOf
  dsimp only
  rw [if_neg hblank]
  split
  -- A token that starts with such a mark is not at issue.
  case h_1 | h_2 | h_3 | h_4 | h_5 | h_6 | h_7 | h_8 | h_9 | h_10 | h_11 | h_12 | h_16 | h_17 |
      h_18 | h_19 | h_20 | h_21 | h_22 | h_23 =>
    rcases hfront with ⟨hgoes, -⟩ | ⟨hslash, -⟩
    · exact absurd hgoes (by decide)
    · exact absurd hslash (by decide)
  case h_13 | h_14 =>
    rcases hfront with ⟨-, hdangling⟩ | ⟨hslash, -⟩
    · exact hrest hdangling (by simpa using hnumeric)
    · exact absurd hslash (by decide)
  case h_15 =>
    rcases hfront with ⟨-, hdangling⟩ | ⟨hslash, -⟩
    · have hcustom := identLength_dangling hdangling
      have hmark : ¬ (w ++ [32]).take 2 = ("->" : Text) := fun hmark => by
        have hmem : ('>' : UInt8) ∈ (w ++ [32]).take 2 := by
          rw [hmark]
          decide
        exact absurd (mem_dangling hdangling (List.mem_of_mem_take hmem)) (by decide)
      refine hrest hdangling ?_
      rw [if_neg hmark]
      simp only [List.forall_mem_cons]
      refine ⟨hnumeric, hident, (Nat.succ_ne_zero _).symm, ?_, by simp⟩
      generalize identLength (w ++ [32]) = n at hcustom ⊢
      split
      · split <;> omega
      · rw [if_pos rfl]
        exact (Nat.succ_ne_zero _).symm
    · exact absurd hslash (by decide)
  case h_24 | h_25 =>
    rcases hfront with ⟨-, hdangling⟩ | ⟨hslash, -⟩
    · refine hrest hdangling ?_
      simp only [List.forall_mem_cons]
      exact ⟨hrange, hident, by simp⟩
    · exact absurd hslash (by decide)
  case h_26 =>
    have hboth : ∀ a ∈ [numeric (b :: (w ++ [32])), identLike (b :: (w ++ [32]))],
        a.2 ≠ w.length + 1 := by
      simp only [List.forall_mem_cons]
      exact ⟨hnumeric, hident, by simp⟩
    rcases hfront with ⟨-, hdangling⟩ | ⟨rfl, rfl⟩
    · exact hrest hdangling hboth
    · exact firstOf_ne hboth fun _ =>
        ⟨_, List.mem_cons_of_mem _ List.mem_cons_self, identLike_slash⟩

/-- A token that stands before a blank ends with no backslash that could escape what follows. -/
theorem Stands.not_dangling {t : Token} (ht : Stands t [32]) : ¬ Dangling t.text := by
  obtain ⟨-, b, w, htext, hlength⟩ := ht
  rw [htext]
  intro hw
  apply lengthOf_dangling hw
  rw [hlength, htext, List.length_cons]

/-! ### What may follow a token -/

theorem isBlank_of_isBreak {b : UInt8} (h : isBreak b = true) : isBlank b = true := by
  simp only [isBreak, isBlank, Bool.or_eq_true] at h ⊢
  tauto

/-- The byte of a mark. -/
def Kind.mark : Kind → Option UInt8
  | .leftBrace => some '{'
  | .rightBrace => some '}'
  | .semicolon => some ';'
  | .comma => some ','
  | _ => none

/-- A mark is a single byte, wherever it stands. -/
theorem lengthOf_mark {k : Kind} {c : UInt8} (h : k.mark = some c) (r : Text) :
    lengthOf c r = (k, 1) := by
  cases k <;> cases h <;> rfl

theorem stands_mark {k : Kind} {b : UInt8} (hk : k.mark = some b) (u : Text) (start : Nat) :
    Stands ⟨k, [b], start⟩ u := by
  refine ⟨⟨?_, ?_, ?_, ?_⟩, b, [], rfl, lengthOf_mark hk u⟩ <;>
  · rintro rfl
    cases hk

theorem eq_of_mark {b c : UInt8} {r : Text} (h : (lengthOf b r).1.mark = some c) : b = c := by
  have hfront := mem_fronts (b := b) (r := r)
  cases hkind : (lengthOf b r).1 <;> rw [hkind] at h hfront <;> cases h <;>
    exact List.mem_singleton.1 (hfront (by decide))

/-- The byte of a mark stops a look ahead and is no blank. -/
theorem isStop_of_mark {k : Kind} {c : UInt8} (h : k.mark = some c) :
    isStop c = true ∧ isBlank c = false := by
  cases k <;> cases h <;> exact ⟨by decide, by decide⟩

theorem isStop_of_fronts {b : UInt8} {r : Text} (h : (lengthOf b r).1.fronts ≠ []) :
    isStop b = true := by
  have hall : ∀ k : Kind, ∀ c ∈ k.fronts, isStop c = true := by
    intro k
    cases k <;> decide +kernel
  exact hall _ _ (mem_fronts h)

theorem lengthOf_of_isBlank {b : UInt8} (h : isBlank b = true) (r : Text) :
    lengthOf b r = (.blank, 1 + blanks r) := by
  unfold lengthOf
  exact if_pos h

/-- Every token takes at least a byte. -/
theorem one_le_lengthOf (b : UInt8) (r : Text) : 1 ≤ (lengthOf b r).2 := by
  have hfirst : ∀ as, 1 ≤ (firstOf as).2 := by
    intro as
    induction as with
    | nil => exact Nat.le_refl 1
    | cons a as ih =>
      rw [firstOf]
      split <;> omega
  unfold lengthOf
  dsimp only
  split
  · omega
  split
  all_goals first
    | exact Nat.le_refl 1
    | exact hfirst _
    | exact Nat.le_add_left _ _
    | (split <;> omega)

/-- The token at the front of a text: a blank, or a token whose text it starts with, and which
stands before the rest if more tokens follow. -/
theorem tokensFrom_front {start : Nat} {s : Text} {t : Token} {ts : List Token}
    (h : tokensFrom start s = .ok (t :: ts)) :
    ∃ start' s', tokensFrom start' s' = .ok ts ∧
      (t.kind = .blank ∧ Stopped s ∨
        t.kind ≠ .blank ∧ s = t.text ++ s' ∧ (∃ b r, t.text = b :: r ∧ isBlank b = false) ∧
          (∀ c, t.kind.mark = some c → t.text = [c]) ∧ (ts ≠ [] → Stands t s')) := by
  cases s with
  | nil =>
    rw [tokensFrom] at h
    cases h
  | cons b r =>
    obtain ⟨hstr, hurl, rest, hrest, heq⟩ := tokensFrom_cons h
    obtain ⟨rfl, rfl⟩ := List.cons.inj heq
    refine ⟨_, _, hrest, ?_⟩
    by_cases hcomment : (lengthOf b r).1 = .comment
    · rw [if_pos hcomment]
      refine .inl ⟨rfl, fun c hc => ?_⟩
      cases hc
      exact isStop_of_fronts (by rw [hcomment]; decide)
    rw [if_neg hcomment]
    by_cases hblank : (lengthOf b r).1 = .blank
    · refine .inl ⟨hblank, fun c hc => ?_⟩
      cases hc
      exact isStop_of_fronts (by rw [hblank]; decide)
    obtain ⟨n, hn⟩ : ∃ n, (lengthOf b r).2 = n + 1 :=
      ⟨_, (Nat.sub_add_cancel (one_le_lengthOf b r)).symm⟩
    have htake : (b :: r).take (max (lengthOf b r).2 1) = b :: r.take n := by
      rw [hn, Nat.max_eq_left (Nat.le_add_left _ _), List.take_succ_cons]
    rw [htake, hn, Nat.add_sub_cancel]
    rw [hn, Nat.add_sub_cancel] at hrest
    refine .inr ⟨hblank, ?_, ⟨b, _, rfl, ?_⟩, fun c hmark => ?_, fun hsome => ?_⟩
    · rw [List.cons_append, List.take_append_drop]
    · rw [← Bool.not_eq_true]
      exact fun hb => hblank (by rw [lengthOf_of_isBlank hb])
    · have hlength := lengthOf_mark hmark r
      rw [eq_of_mark hmark] at hn ⊢
      rw [hlength] at hn
      rw [← Nat.succ.inj hn, List.take_zero]
    · have hlt : n ≤ r.length := by
        by_contra hlong
        rw [List.drop_eq_nil_of_le (by omega), tokensFrom] at hrest
        cases hrest
        exact hsome rfl
      refine ⟨⟨hblank, hcomment, hstr, hurl⟩, b, r.take n, rfl, ?_⟩
      rw [List.take_append_drop, List.length_cons, List.length_take_of_le hlt, ← hn]

/-- Every token that a blank follows stands before a single blank. -/
def Apart (ts : List Token) : Prop :=
  ts.IsChain fun t s => t.kind ≠ .blank → s.kind = .blank → Stands t [32]

/-- What may stand in the place of some tokens, as far as a token before them looks ahead: the same
tokens up to a mark or a blank; for a mark another mark, and for a blank a blank or a mark. -/
inductive Fits : List Token → Text → Prop
  | mark {t : Token} {ts : List Token} {k : Kind} {c : UInt8} {u : Text} :
    t.kind = .blank ∨ t.kind.mark ≠ none → k.mark = some c → Fits (t :: ts) (c :: u)
  | blank {t : Token} {ts : List Token} {u : Text} : t.kind = .blank → Fits (t :: ts) (32 :: u)
  | word {t : Token} {ts : List Token} {u : Text} : t.kind ≠ .blank → Fits ts u →
    Fits (t :: ts) (t.text ++ u)

theorem firm_of_not_isBlank {b : UInt8} (h : isBlank b = false) (r : Text) : Firm (b :: r) := by
  refine ⟨b, r, rfl, ?_⟩
  rw [← Bool.not_eq_true] at h ⊢
  exact mt isBlank_of_isBreak h

section

variable {start : Nat} {s u : Text} {t : Token} {ts : List Token}

theorem firm_of_tokensFrom (h : tokensFrom start s = .ok (t :: ts)) (ht : t.kind ≠ .blank) :
    Firm s := by
  obtain ⟨_, _, -, ⟨hblank, -⟩ | ⟨-, rfl, ⟨b, r, htext, hb⟩, -⟩⟩ := tokensFrom_front h
  · exact absurd hblank ht
  · rw [htext]
    exact firm_of_not_isBlank hb _

namespace Fits

theorem firm (hu : Fits ts u) (h : tokensFrom start s = .ok ts) : Firm u := by
  cases hu with
  | mark _ hmark => exact firm_of_not_isBlank (isStop_of_mark hmark).2 _
  | blank => exact ⟨32, _, rfl, by decide⟩
  | word hword =>
    obtain ⟨_, _, -, ⟨hblank, -⟩ | ⟨-, -, ⟨b, r, htext, hb⟩, -⟩⟩ := tokensFrom_front h
    · exact absurd hblank hword
    · rw [htext]
      exact firm_of_not_isBlank hb _

theorem head_not_isBlank (hu : Fits (t :: ts) u) (h : tokensFrom start s = .ok (t :: ts))
    (ht : t.kind ≠ .blank) : u.head?.any isBlank = false := by
  cases hu with
  | mark _ hmark => exact (isStop_of_mark hmark).2
  | blank hblank => exact absurd hblank ht
  | word =>
    obtain ⟨_, _, -, ⟨hblank, -⟩ | ⟨-, -, ⟨b, r, htext, hb⟩, -⟩⟩ := tokensFrom_front h
    · exact absurd hblank ht
    · rw [htext]
      exact hb

/-- A sheet is alike to whatever fits its tokens. -/
theorem alike (hu : Fits ts u) (h : tokensFrom start s = .ok ts) (hapart : Apart ts) :
    Alike s u := by
  induction hu generalizing start s with
  | @mark t ts k c u ht hmark =>
    refine .stopped ?_ fun b hb => by cases hb; exact (isStop_of_mark hmark).1
    obtain ⟨_, _, -, ⟨-, hstopped⟩ | ⟨hword, rfl, -, htext, -⟩⟩ := tokensFrom_front h
    · exact hstopped
    · obtain ⟨d, hd⟩ := Option.ne_none_iff_exists'.1 (ht.resolve_left hword)
      rw [htext d hd]
      exact fun b hb => by cases hb; exact (isStop_of_mark hd).1
  | @blank t ts u ht =>
    obtain ⟨_, _, -, ⟨-, hstopped⟩ | ⟨hword, -⟩⟩ := tokensFrom_front h
    · exact .stopped hstopped fun b hb => by cases hb; decide
    · exact absurd ht hword
  | @word t ts u ht hu ih =>
    obtain ⟨start', s', hrest, ⟨hblank, -⟩ | ⟨-, rfl, -⟩⟩ := tokensFrom_front h
    · exact absurd hblank ht
    refine (ih hrest hapart.tail).append fun hdangling => ⟨?_, hu.firm hrest⟩
    -- A backslash at the end of the token does not escape what follows, so that is no blank.
    cases ts with
    | nil => cases hu
    | cons x ts =>
      have hfollow : x.kind ≠ .blank := fun hx =>
        ((List.isChain_cons_cons.1 hapart).1 ht hx).not_dangling hdangling
      exact firm_of_tokensFrom hrest hfollow

/-- A token of a sheet stands before whatever fits the tokens after it. -/
theorem stands (hu : Fits ts u) (h : tokensFrom start s = .ok (t :: ts)) (hapart : Apart (t :: ts))
    (ht : t.kind ≠ .blank) : Stands t u := by
  obtain ⟨start', s', hrest, ⟨hblank, -⟩ | ⟨-, -, -, -, hstands⟩⟩ := tokensFrom_front h
  · exact absurd hblank ht
  cases ts with
  | nil => cases hu
  | cons x ts =>
    by_cases hx : x.kind = .blank
    · have hfirm := hu.firm hrest
      have hstopped : Stopped u := by
        cases hu with
        | mark _ hmark => exact fun b hb => by cases hb; exact (isStop_of_mark hmark).1
        | blank => exact fun b hb => by cases hb; decide
        | word hword => exact absurd hx hword
      refine ((List.isChain_cons_cons.1 hapart).1 ht hx).near ⟨.stopped ?_ hstopped, ?_, hfirm, ?_⟩
      · exact fun b hb => by cases hb; decide
      · exact ⟨32, [], rfl, by decide⟩
      · exact fun _ => by decide
    · refine (hstands (List.cons_ne_nil _ _)).near ⟨hu.alike hrest hapart.tail,
        firm_of_tokensFrom hrest hx, hu.firm hrest, fun hblank => ?_⟩
      rw [hu.head_not_isBlank hrest hx] at hblank
      cases hblank

end Fits

/-- Tokens each of which stands before whatever fits the tokens after it. -/
inductive Steady : List Token → Prop
  | nil : Steady []
  | cons {t : Token} {ts : List Token} :
    (t.kind ≠ .blank → t.text ≠ [] ∧ ∀ u, Fits ts u → Stands t u) →
    (∀ c, t.kind.mark = some c → t.text = [c]) → Steady ts → Steady (t :: ts)

namespace Steady

theorem of_append {us : List Token} (h : Steady (us ++ ts)) : Steady ts := by
  induction us with
  | nil => exact h
  | cons _ _ ih =>
    cases h with
    | cons _ _ hsteady => exact ih hsteady

theorem after {us : List Token} (h : Steady (us ++ t :: ts)) : Steady ts := by
  cases h.of_append with
  | cons _ _ hsteady => exact hsteady

theorem text_of_mark (h : Steady ts) (ht : t ∈ ts) {c : UInt8} (hmark : t.kind.mark = some c) :
    t.text = [c] := by
  induction h with
  | nil => cases ht
  | cons _ htext _ ih =>
    rcases List.mem_cons.1 ht with rfl | ht
    · exact htext c hmark
    · exact ih ht

end Steady

theorem steady_of_tokensFrom (h : tokensFrom start s = .ok ts) (hapart : Apart ts) : Steady ts := by
  induction ts generalizing start s with
  | nil => exact .nil
  | cons t ts ih =>
    obtain ⟨start', s', hrest, hfront⟩ := tokensFrom_front h
    refine .cons (fun ht => ⟨?_, fun u hu => hu.stands h hapart ht⟩) (fun c hmark => ?_)
      (ih hrest hapart.tail)
    · rcases hfront with ⟨hblank, -⟩ | ⟨-, -, ⟨b, r, htext, -⟩, -⟩
      · exact absurd hblank ht
      · rw [htext]
        exact List.cons_ne_nil _ _
    · rcases hfront with ⟨hblank, -⟩ | ⟨-, -, -, htext, -⟩
      · rw [hblank] at hmark
        cases hmark
      · exact htext c hmark

end

/-! ### Words -/

/-- The kind and the text of a token. -/
def Token.word (t : Token) : Kind × Text := (t.kind, t.text)

/-- The tokens that are no blanks. -/
def words (ts : List Token) : List (Kind × Text) := (ts.filter (·.kind ≠ .blank)).map Token.word

@[simp] theorem words_nil : words [] = [] := rfl

@[simp] theorem words_append (ts us : List Token) : words (ts ++ us) = words ts ++ words us := by
  rw [words, List.filter_append, List.map_append]
  rfl

theorem words_blank {t : Token} (h : t.kind = .blank) (ts : List Token) :
    words (t :: ts) = words ts := by
  rw [words, List.filter_cons_of_neg (by simp [h])]
  rfl

theorem words_word {t : Token} (h : t.kind ≠ .blank) (ts : List Token) :
    words (t :: ts) = t.word :: words ts := by
  rw [words, List.filter_cons_of_pos (by simp [h])]
  rfl

/-- A text reads as some words. -/
inductive Lexes : Text → List (Kind × Text) → Prop
  | nil : Lexes [] []
  | blank {b : UInt8} {s : Text} {ws : List (Kind × Text)} :
    isBlank b = true → Lexes (s.drop (blanks s)) ws → Lexes (b :: s) ws
  | word {t : Token} {u : Text} {ws : List (Kind × Text)} :
    Stands t u → Lexes u ws → Lexes (t.text ++ u) (t.word :: ws)

namespace Lexes

variable {b : UInt8} {s u : Text} {ws : List (Kind × Text)}

/-- What a text reads as is what its tokens are. -/
theorem exists_tokensFrom (h : Lexes s ws) (start : Nat) :
    ∃ ts, tokensFrom start s = .ok ts ∧ words ts = ws := by
  induction h generalizing start with
  | nil => exact ⟨[], by rw [tokensFrom], rfl⟩
  | @blank b s ws hb _ ih =>
    obtain ⟨ts, hts, hwords⟩ := ih (start + max (1 + blanks s) 1)
    rw [tokensFrom, lengthOf_of_isBlank hb]
    dsimp only
    rw [Nat.add_sub_cancel_left, hts]
    exact ⟨_, rfl, (words_blank rfl _).trans hwords⟩
  | @word t u ws ht _ ih =>
    obtain ⟨ts, hts, hwords⟩ := ih (start + t.text.length)
    rw [ht.tokensFrom, hts]
    exact ⟨_, rfl, (words_word (by exact ht.1.blank) _).trans (by rw [hwords]; rfl)⟩

theorem cons_blank (h : Lexes s ws) (hb : isBlank b = true) : Lexes (b :: s) ws := by
  refine .blank hb ?_
  cases h with
  | nil => exact .nil
  | @blank c s ws hc h =>
    rwa [blanks, List.takeWhile_cons_of_pos hc, List.length_cons, List.drop_succ_cons]
  | @word t u ws ht h =>
    obtain ⟨hkind, c, r, htext, hlength⟩ := id ht
    have hc : ¬ isBlank c = true := fun hc => by
      rw [lengthOf_of_isBlank hc] at hlength
      exact hkind.blank (congrArg Prod.fst hlength).symm
    rw [blanks, htext, List.cons_append, List.takeWhile_cons_of_neg hc, List.length_nil,
      List.drop_zero, ← List.cons_append, ← htext]
    exact .word ht h

theorem mark {k : Kind} {c : UInt8} (hk : k.mark = some c) (h : Lexes u ws) :
    Lexes (c :: u) ((k, [c]) :: ws) :=
  .word (stands_mark hk u 0) h

end Lexes

/-! ### Tokens before a mark -/

theorem textFrom_pending (ts : List Token) :
    textFrom true true ts = [] ∨ ∃ u, textFrom true true ts = 32 :: u := by
  induction ts with
  | nil => exact .inl rfl
  | cons t ts ih =>
    rw [textFrom]
    split
    · exact ih
    · exact .inr ⟨_, rfl⟩

section

variable {ts rest : List Token} {t : Token} {k : Kind} {c : UInt8} {u : Text}
  {ws : List (Kind × Text)}

theorem fits_textFrom (ht : t.kind.mark ≠ none) (hk : k.mark = some c) (ts rest : List Token)
    (u : Text) : Fits (ts ++ t :: rest) (textFrom true false ts ++ c :: u) := by
  induction ts with
  | nil => exact .mark (.inr ht) hk
  | cons x ts ih =>
    rw [textFrom, List.cons_append]
    split
    · rename_i hx
      obtain hnone | ⟨v, hv⟩ := textFrom_pending ts
      · rw [hnone]
        exact .mark (.inl hx) hk
      · rw [hv]
        exact .blank hx
    · rename_i hx
      rw [List.append_assoc, List.append_assoc]
      exact .word hx ih

theorem Steady.lexes_textFrom (h : Steady (ts ++ t :: rest)) (ht : t.kind.mark ≠ none)
    (hk : k.mark = some c) (hu : Lexes (c :: u) ws) (started pending : Bool) :
    Lexes (textFrom started pending ts ++ c :: u) (words ts ++ ws) := by
  induction ts generalizing started pending with
  | nil => exact hu
  | cons x ts ih =>
    cases h with
    | cons hstands _ hsteady =>
      rw [textFrom]
      split
      · rename_i hx
        rw [words_blank hx]
        exact ih hsteady started true
      · rename_i hx
        have hword : Lexes (x.text ++ (textFrom true false ts ++ c :: u))
            (x.word :: (words ts ++ ws)) :=
          .word ((hstands hx).2 _ (fits_textFrom ht hk ts rest u)) (ih hsteady true false)
        rw [words_word hx, List.append_assoc, List.append_assoc]
        split
        · exact hword.cons_blank (by decide)
        · exact hword

/-- A text that reads as some words before a byte. -/
def PutsBefore (c : UInt8) (s : Text) (ws : List (Kind × Text)) : Prop :=
  ∀ {u vs}, Lexes (c :: u) vs → Lexes (s ++ c :: u) (ws ++ vs)

/-- Tokens before a mark, put down before another mark, are read back. -/
theorem Steady.putsBefore (h : Steady (ts ++ t :: rest)) (ht : t.kind.mark ≠ none)
    (hk : k.mark = some c) : PutsBefore c (textOf ts) (words ts) :=
  fun hu => h.lexes_textFrom ht hk hu false false

end

end Reactive.Css
