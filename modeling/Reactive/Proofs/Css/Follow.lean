/-
Tokens of style sheets before what follows them.

A token that ends within a text, before one of two texts that it cannot tell
apart, ends there before the other text too, and is of the same kind.

* `stringLength_near`, `address_near` — strings and addresses;
* `numeric_agree`, `identLike_agree` — numbers and names with what follows them;
* `lengthOf_near` — any token.
-/
import Mathlib.Data.List.Forall2
import Reactive.Proofs.Css.Lookahead

namespace Reactive.Css

/-! ### Strings and addresses -/

theorem stringLength_break {q b : UInt8} (h : isBreak b = true) (r : Text) :
    stringLength q (b :: r) = (1, false) := by
  rw [stringLength.eq_def]
  exact if_pos h

theorem stringLength_quote {q : UInt8} (h : isBreak q = false) (r : Text) :
    stringLength q (q :: r) = (1, true) := by
  rw [stringLength.eq_def]
  dsimp only
  rw [if_neg (by simp [h]), if_pos rfl]

/-- How far a backslash in a string reaches. -/
def slashLength (r : Text) : Nat :=
  if escapeLength r = 0 then if r.take 2 = [13, 10] then 3 else if r = [] then 1 else 2
  else escapeLength r

theorem stringLength_slash {q : UInt8} (h : ('\\' : UInt8) ≠ q) (r : Text) :
    stringLength q ('\\' :: r) = ((stringLength q (r.drop (slashLength r - 1))).1 + slashLength r,
      (stringLength q (r.drop (slashLength r - 1))).2) := by
  rw [stringLength.eq_def]
  dsimp only
  rw [if_neg (by decide), if_neg h, if_pos rfl]
  unfold slashLength
  split
  · split
    · rfl
    · rename_i c t hother _
      have htake : (c :: t).take 2 ≠ [13, 10] := fun htake => by
        cases t with
        | nil => cases htake
        | cons d t =>
          cases htake
          exact hother t rfl rfl
      rw [if_neg htake, if_neg (List.cons_ne_nil _ _)]
    · rfl
  · rfl

theorem stringLength_other {q b : UInt8} (hbreak : isBreak b = false) (hquote : b ≠ q)
    (hslash : b ≠ '\\') (r : Text) :
    stringLength q (b :: r) = ((stringLength q r).1 + 1, (stringLength q r).2) := by
  rw [stringLength.eq_def]
  dsimp only
  rw [if_neg (by simp [hbreak]), if_neg hquote, if_neg hslash]

theorem one_le_slashLength (r : Text) : 1 ≤ slashLength r := by
  unfold slashLength
  split
  · split
    · omega
    · split <;> omega
  · omega

theorem one_le_stringLength {q : UInt8} {s : Text} (h : s ≠ []) : 1 ≤ (stringLength q s).1 := by
  cases s with
  | nil => exact absurd rfl h
  | cons b r =>
    by_cases hbreak : isBreak b = true
    · rw [stringLength_break hbreak]
    have hbreak' : isBreak b = false := by simpa using hbreak
    by_cases hquote : b = q
    · subst hquote
      rw [stringLength_quote hbreak']
    by_cases hslash : b = '\\'
    · rw [hslash, stringLength_slash (by rwa [← hslash])]
      exact Nat.le_add_left_of_le (one_le_slashLength r)
    · rw [stringLength_other hbreak' hquote hslash]
      exact Nat.le_add_left _ _

section

variable {u u' : Text} (h : Near u u')

include h

theorem slashLength_near {w : Text} (hle : slashLength (w ++ u) ≤ w.length) :
    slashLength (w ++ u') = slashLength (w ++ u) := by
  have hescape : escapeLength (w ++ u') = escapeLength (w ++ u) := by
    apply escapeLength_near h
    unfold slashLength at hle
    split at hle <;> omega
  have hnil : ∀ w : Text, w ++ u ≠ [] := h.firm.append
  have hnil' : ∀ w : Text, w ++ u' ≠ [] := h.firm'.append
  unfold slashLength at hle ⊢
  rw [hescape]
  split
  · rename_i hnone
    rw [if_pos hnone, if_neg (hnil w)] at hle
    have htwo : 2 ≤ w.length := by split at hle <;> omega
    rw [List.take_append_of_le_length htwo, List.take_append_of_le_length htwo, if_neg (hnil w),
      if_neg (hnil' w)]
  · rfl

/-- A string that ends within a text. -/
theorem stringLength_near {q : UInt8} {w : Text}
    (hle : (stringLength q (w ++ u)).1 ≤ w.length) :
    stringLength q (w ++ u') = stringLength q (w ++ u) := by
  induction hn : w.length using Nat.strongRecOn generalizing w with
  | _ n ih =>
    cases w with
    | nil =>
      have := one_le_stringLength (q := q) (h.firm.append [])
      rw [List.length_nil] at hle
      omega
    | cons b w =>
      rw [List.cons_append, List.cons_append] at *
      rw [List.length_cons] at hn hle
      by_cases hbreak : isBreak b = true
      · rw [stringLength_break hbreak, stringLength_break hbreak]
      have hbreak' : isBreak b = false := by simpa using hbreak
      by_cases hquote : b = q
      · subst hquote
        rw [stringLength_quote hbreak', stringLength_quote hbreak']
      by_cases hslash : b = '\\'
      · subst hslash
        rw [stringLength_slash hquote] at hle ⊢
        rw [stringLength_slash hquote]
        have hone := one_le_slashLength (w ++ u)
        -- The string goes on after the backslash, so that ends within the text.
        have hinside : slashLength (w ++ u) ≤ w.length := by
          by_cases hend : (w ++ u).drop (slashLength (w ++ u) - 1) = []
          · have hlen := List.drop_eq_nil_iff.1 hend
            have hpos := List.length_pos_iff.2 (h.firm.append [])
            rw [List.nil_append] at hpos
            rw [List.length_append] at hlen
            omega
          · have := one_le_stringLength (q := q) hend
            omega
        rw [slashLength_near h hinside]
        have hdrop : slashLength (w ++ u) - 1 ≤ w.length := by omega
        rw [List.drop_append_of_le_length hdrop] at hle ⊢
        rw [List.drop_append_of_le_length hdrop]
        have hlen : (w.drop (slashLength (w ++ u) - 1)).length =
            w.length - (slashLength (w ++ u) - 1) := List.length_drop
        rw [ih _ (by omega) (by omega) rfl]
      · rw [stringLength_other hbreak' hquote hslash] at hle ⊢
        rw [stringLength_other hbreak' hquote hslash, ih w.length (by omega) (by omega) rfl]

end

theorem addressLength_slash (r : Text) : addressLength ('\\' :: r) =
    if escapeLength r = 0 then (0, false)
    else ((addressLength (r.drop (escapeLength r - 1))).1 + escapeLength r,
      (addressLength (r.drop (escapeLength r - 1))).2) := by
  rw [addressLength.eq_def]
  dsimp only
  rw [if_neg (by decide), if_pos rfl]

/-- Bytes before which an address without quotes ends. -/
def endsAddress (b : UInt8) : Bool :=
  b = '"' || b = '\'' || b = '(' || b ≤ 0x20 || b = 0x7F

theorem addressLength_other {b : UInt8} (hslash : b ≠ '\\') (r : Text) :
    addressLength (b :: r) =
      if b = ')' then (0, true)
      else if endsAddress b then (0, false)
      else ((addressLength r).1 + 1, (addressLength r).2) := by
  rw [addressLength.eq_def]
  dsimp only
  rw [if_neg hslash]
  rfl

section

variable {u u' : Text} (h : Near u u')

include h

/-- An address that ends before the end of a text. -/
theorem addressLength_near {w : Text} (hlt : (addressLength (w ++ u)).1 < w.length) :
    addressLength (w ++ u') = addressLength (w ++ u) := by
  induction hn : w.length using Nat.strongRecOn generalizing w with
  | _ n ih =>
    cases w with
    | nil => cases hlt
    | cons b w =>
      rw [List.cons_append, List.cons_append] at *
      rw [List.length_cons] at hn hlt
      by_cases hslash : b = '\\'
      · rw [hslash, addressLength_slash] at hlt ⊢
        rw [addressLength_slash]
        have hescape : escapeLength (w ++ u') = escapeLength (w ++ u) := by
          apply escapeLength_near h
          split at hlt <;> omega
        rw [hescape]
        split
        · rfl
        · rename_i hsome
          rw [if_neg hsome] at hlt
          dsimp only at hlt
          have hinside : escapeLength (w ++ u) - 1 ≤ w.length := by omega
          rw [List.drop_append_of_le_length hinside] at hlt ⊢
          rw [List.drop_append_of_le_length hinside]
          have hlen : (w.drop (escapeLength (w ++ u) - 1)).length =
              w.length - (escapeLength (w ++ u) - 1) := List.length_drop
          rw [ih _ (by omega) (by omega) rfl]
      · rw [addressLength_other hslash] at hlt ⊢
        rw [addressLength_other hslash]
        by_cases hclose : b = ')'
        · rw [if_pos hclose, if_pos hclose]
        rw [if_neg hclose] at hlt ⊢
        rw [if_neg hclose]
        split
        · rfl
        · rename_i hinside
          rw [if_neg hinside] at hlt
          rw [ih w.length (by omega) (by omega) rfl]

end

theorem blanks_append {w u u' : Text} (hlt : blanks (w ++ u) < w.length) :
    blanks (w ++ u') = blanks (w ++ u) := by
  unfold blanks at hlt ⊢
  rw [List.takeWhile_append] at hlt ⊢
  rw [List.takeWhile_append]
  split
  · rename_i hall
    rw [if_pos hall, List.length_append] at hlt
    omega
  · rfl

theorem closeAddress_eq (n : Nat) (s : Text) : closeAddress n s =
    if (s.drop (blanks s)).head? = some 41 then (.url, n + blanks s + 1)
    else if s.drop (blanks s) = [] then (.url, n + blanks s)
    else (.badUrl, n + blanks s) := by
  unfold closeAddress
  dsimp only
  split
  · rename_i r hdrop
    rw [hdrop]
    rfl
  · rename_i hdrop
    rw [hdrop]
    rfl
  · rename_i hclose hnil
    have hhead : (s.drop (blanks s)).head? ≠ some 41 := fun hhead => by
      obtain ⟨r, hr⟩ := List.head?_eq_some_iff.1 hhead
      exact hclose r hr
    rw [if_neg hhead, if_neg hnil]

/-- An address ends after its blanks, and past a text that is not empty. -/
theorem le_closeAddress {n : Nat} {s : Text} (hkind : (closeAddress n s).1 ≠ .badUrl) :
    n + min 1 s.length ≤ (closeAddress n s).2 := by
  rw [closeAddress_eq] at hkind ⊢
  split at hkind
  · rename_i hclose
    rw [if_pos hclose]
    omega
  · rename_i hclose
    rw [if_neg hclose]
    split at hkind
    · rename_i hnil
      rw [if_pos hnil]
      have := List.drop_eq_nil_iff.1 hnil
      omega
    · exact absurd rfl hkind

/-- An address after its blanks: a string, or bytes up to a blank or the closing parenthesis. -/
theorem address_eq {n : Nat} {s : Text} {q : UInt8} {r : Text} (hs : s.drop (blanks s) = q :: r) :
    address n s =
      if q = '"' || q = '\'' then
        if (stringLength q r).2 then
          closeAddress (n + blanks s + 1 + (stringLength q r).1) (r.drop (stringLength q r).1)
        else (.badUrl, n + blanks s + 1 + (stringLength q r).1)
      else if (addressLength (q :: r)).2 ||
          ((q :: r).drop (addressLength (q :: r)).1).head?.any isBlank then
        closeAddress (n + blanks s + (addressLength (q :: r)).1)
          ((q :: r).drop (addressLength (q :: r)).1)
      else (.badUrl, n + blanks s + (addressLength (q :: r)).1) := by
  unfold address
  dsimp only
  rw [hs]

theorem address_nil {n : Nat} {s : Text} (hs : s.drop (blanks s) = []) :
    address n s = closeAddress (n + blanks s) [] := by
  unfold address
  dsimp only
  rw [hs]

theorem lt_address {n : Nat} {s : Text} (hkind : (address n s).1 ≠ .badUrl)
    (hs : s.drop (blanks s) ≠ []) : n + blanks s < (address n s).2 := by
  obtain ⟨q, r, hs⟩ := List.exists_cons_of_ne_nil hs
  rw [address_eq hs] at hkind ⊢
  split at hkind
  · rename_i hquote
    rw [if_pos hquote]
    split at hkind
    · rename_i hsound
      rw [if_pos hsound]
      have := le_closeAddress hkind
      omega
    · exact absurd rfl hkind
  · rename_i hquote
    rw [if_neg hquote]
    split at hkind
    · rename_i hsound
      rw [if_pos hsound]
      have := le_closeAddress hkind
      rw [List.length_drop, List.length_cons] at this
      omega
    · exact absurd rfl hkind

theorem le_address (n : Nat) (s : Text) : n ≤ (address n s).2 := by
  have hclose : ∀ m t, n ≤ m → n ≤ (closeAddress m t).2 := by
    intro m t hm
    rw [closeAddress_eq]
    split
    · exact Nat.le_add_right_of_le (Nat.le_add_right_of_le hm)
    · split <;> exact Nat.le_add_right_of_le hm
  cases hs : s.drop (blanks s) with
  | nil =>
    rw [address_nil hs]
    exact hclose _ _ (Nat.le_add_right _ _)
  | cons q r =>
    rw [address_eq hs]
    split
    · split
      · exact hclose _ _ (by omega)
      · dsimp only
        omega
    · split
      · exact hclose _ _ (by omega)
      · dsimp only
        omega

section

variable {u u' : Text} (h : Near u u')

include h

/-- The end of an address within a text. -/
theorem closeAddress_near {n : Nat} {w : Text} (hle : (closeAddress n (w ++ u)).2 ≤ n + w.length)
    (hkind : (closeAddress n (w ++ u)).1 ≠ .badUrl) :
    closeAddress n (w ++ u') = closeAddress n (w ++ u) := by
  have hpos := List.length_pos_iff.2 (h.firm.append [])
  rw [List.nil_append] at hpos
  have hinside : blanks (w ++ u) < w.length := by
    rw [closeAddress_eq] at hle hkind
    split at hkind
    · rename_i hclose
      rw [if_pos hclose] at hle
      omega
    · rename_i hclose
      rw [if_neg hclose] at hle
      split at hkind
      · rename_i hnil
        rw [if_pos hnil] at hle
        have hlen := List.drop_eq_nil_iff.1 hnil
        rw [List.length_append] at hlen
        omega
      · exact absurd rfl hkind
  rw [closeAddress_eq, closeAddress_eq, blanks_append hinside,
    List.drop_append_of_le_length (Nat.le_of_lt hinside),
    List.drop_append_of_le_length (Nat.le_of_lt hinside)]
  cases hdrop : w.drop (blanks (w ++ u)) with
  | nil => exact absurd (List.drop_eq_nil_iff.1 hdrop) (Nat.not_le_of_lt hinside)
  | cons c t => rfl

/-- An address within a text. -/
theorem address_near {n : Nat} {w : Text} (hle : (address n (w ++ u)).2 ≤ n + w.length)
    (hkind : (address n (w ++ u)).1 ≠ .badUrl) :
    address n (w ++ u') = address n (w ++ u) := by
  have hpos := List.length_pos_iff.2 (h.firm.append [])
  rw [List.nil_append] at hpos
  have hinside : blanks (w ++ u) < w.length := by
    by_cases hnil : (w ++ u).drop (blanks (w ++ u)) = []
    · have hlen := List.drop_eq_nil_iff.1 hnil
      rw [address_nil hnil] at hle hkind
      have := le_closeAddress hkind
      rw [List.length_append] at hlen
      omega
    · have := lt_address hkind hnil
      omega
  have hdrop : ∀ s : Text, (w ++ s).drop (blanks (w ++ u)) = w.drop (blanks (w ++ u)) ++ s :=
    fun s => List.drop_append_of_le_length (Nat.le_of_lt hinside)
  have hblanks : blanks (w ++ u') = blanks (w ++ u) := blanks_append hinside
  obtain ⟨q, x, hx⟩ := List.exists_cons_of_ne_nil
    (fun hnil => absurd (List.drop_eq_nil_iff.1 hnil) (Nat.not_le_of_lt hinside) :
      w.drop (blanks (w ++ u)) ≠ [])
  have hlen : x.length + 1 = w.length - blanks (w ++ u) := by
    rw [← List.length_cons, ← hx, List.length_drop]
  have hs : (w ++ u).drop (blanks (w ++ u)) = q :: (x ++ u) := by rw [hdrop, hx]; rfl
  have hs' : (w ++ u').drop (blanks (w ++ u')) = q :: (x ++ u') := by rw [hblanks, hdrop, hx]; rfl
  rw [address_eq hs] at hle hkind ⊢
  rw [address_eq hs', hblanks]
  generalize blanks (w ++ u) = m at hle hkind hlen ⊢
  split
  · rename_i hquote
    rw [if_pos hquote] at hle hkind
    split at hkind
    · rename_i hsound
      rw [if_pos hsound] at hle ⊢
      have hend := le_closeAddress hkind
      have hstring : (stringLength q (x ++ u)).1 ≤ x.length := by omega
      rw [stringLength_near h hstring, if_pos hsound]
      rw [List.drop_append_of_le_length hstring] at hle hkind ⊢
      rw [List.drop_append_of_le_length hstring]
      have hrest : (x.drop (stringLength q (x ++ u)).1).length =
          x.length - (stringLength q (x ++ u)).1 := List.length_drop
      exact closeAddress_near h (by omega) hkind
    · exact absurd rfl hkind
  · rename_i hquote
    rw [if_neg hquote] at hle hkind
    rw [← List.cons_append] at hle hkind ⊢
    rw [← List.cons_append]
    have hcount : (q :: x).length = x.length + 1 := rfl
    generalize q :: x = y at hle hkind hcount ⊢
    split at hkind
    · rename_i hsound
      rw [if_pos hsound] at hle ⊢
      have hend := le_closeAddress hkind
      rw [List.length_drop, List.length_append] at hend
      have haddress : (addressLength (y ++ u)).1 < y.length := by omega
      rw [addressLength_near h haddress]
      have hfront : ∀ s : Text, (y ++ s).drop (addressLength (y ++ u)).1 =
          y.drop (addressLength (y ++ u)).1 ++ s :=
        fun s => List.drop_append_of_le_length (Nat.le_of_lt haddress)
      rw [hfront] at hle hkind hsound ⊢
      rw [hfront]
      have hrest : (y.drop (addressLength (y ++ u)).1).length =
          y.length - (addressLength (y ++ u)).1 := List.length_drop
      have hhead : ∀ s : Text, (y.drop (addressLength (y ++ u)).1 ++ s).head? =
          (y.drop (addressLength (y ++ u)).1).head? := by
        intro s
        cases hdrop : y.drop (addressLength (y ++ u)).1 with
        | nil => exact absurd (List.drop_eq_nil_iff.1 hdrop) (Nat.not_le_of_lt haddress)
        | cons c t => rfl
      rw [hhead] at hsound ⊢
      rw [if_pos hsound]
      exact closeAddress_near h (by omega) hkind
    · exact absurd rfl hkind

end

/-! ### Numbers and names -/

/-- A number with what follows it. -/
theorem numeric_eq (s : Text) : numeric s =
    if numberLength s = 0 then (.number, 0)
    else if (s.drop (numberLength s)).head? = some 37 then (.percentage, numberLength s + 1)
    else if identLength (s.drop (numberLength s)) = 0 then (.number, numberLength s)
    else (.dimension, numberLength s + identLength (s.drop (numberLength s))) := by
  unfold numeric
  dsimp only
  split
  · rfl
  · split
    · rename_i t hdrop
      rw [hdrop]
      rfl
    · rename_i hother
      have hhead : (s.drop (numberLength s)).head? ≠ some 37 := fun hhead => by
        obtain ⟨t, ht⟩ := List.head?_eq_some_iff.1 hhead
        exact hother t ht
      rw [if_neg hhead]

/-- An identifier with what follows it. -/
theorem identLike_eq (s : Text) : identLike s =
    if identLength s = 0 then (.ident, 0)
    else if (s.drop (identLength s)).head? = some 40 then
      if ((s.take (identLength s)).filter fun b => b != 92).map Text.asciiLower = "url" then
        address (identLength s + 1) (s.drop (identLength s + 1))
      else (.function, identLength s + 1)
    else (.ident, identLength s) := by
  unfold identLike
  dsimp only
  have hnext : s.drop (identLength s + 1) = (s.drop (identLength s)).drop 1 := by
    rw [List.drop_drop]
  rw [hnext]
  split
  · rfl
  · split
    · rename_i r hdrop
      rw [hdrop]
      rfl
    · rename_i hother
      have hhead : (s.drop (identLength s)).head? ≠ some 40 := fun hhead => by
        obtain ⟨r, hr⟩ := List.head?_eq_some_iff.1 hhead
        exact hother r hr
      rw [if_neg hhead]

theorem numeric_ne_badUrl (s : Text) : (numeric s).1 ≠ .badUrl := by
  rw [numeric_eq]
  split
  · simp
  · split
    · simp
    · split <;> simp

theorem identLike_ne_badUrl {s : Text} (h : (identLike s).2 = 0) : (identLike s).1 ≠ .badUrl := by
  rw [identLike_eq] at h ⊢
  split
  · decide
  · rename_i hsome
    rw [if_neg hsome] at h
    split
    · rename_i hparen
      rw [if_pos hparen] at h
      split
      · rename_i hurl
        rw [if_pos hurl] at h
        have := le_address (identLength s + 1) (s.drop (identLength s + 1))
        omega
      · simp
    · simp

/-- A kind of token that stays as it is: no blank, and no mistake. -/
structure Kind.Lasting (k : Kind) : Prop where
  blank : k ≠ .blank
  comment : k ≠ .comment
  str : k ≠ .badStr
  url : k ≠ .badUrl

/-- Two attempts at a token do the same, so far as the first one succeeds within `n` bytes. -/
def Agree (n : Nat) (a a' : Kind × Nat) : Prop := a.2 ≤ n → a.1 ≠ .badUrl → a' = a

theorem firstOf_agree {n : Nat} {as as' : List (Kind × Nat)} (h : List.Forall₂ (Agree n) as as')
    (hzero : ∀ a ∈ as, a.2 = 0 → a.1 ≠ .badUrl) : Agree n (firstOf as) (firstOf as') := by
  induction h with
  | nil => exact fun _ _ => rfl
  | @cons a a' as as' ha _ ih =>
    rw [List.forall_mem_cons] at hzero
    intro hle hkind
    rw [firstOf] at hle hkind ⊢
    rw [firstOf]
    split at hle
    · rename_i hnone
      rw [if_pos hnone] at hkind ⊢
      rw [ha (by omega) (hzero.1 hnone), if_pos hnone]
      exact ih hzero.2 hle hkind
    · rename_i hsome
      rw [if_neg hsome] at hkind ⊢
      rw [ha hle hkind, if_neg hsome]

section

variable {u u' : Text} (h : Near u u')

include h

theorem alike_append (w : Text) : Alike (w ++ u) (w ++ u') :=
  h.alike.append fun _ => ⟨h.firm, h.firm'⟩

theorem head_append {c : UInt8} (hc : isStop c = false) (w : Text) :
    (w ++ u').head? = some c ↔ (w ++ u).head? = some c := by
  cases w with
  | nil => exact (h.alike.head hc).symm
  | cons => rfl

theorem numberLength_near (w : Text) : numberLength (w ++ u') = numberLength (w ++ u) := by
  rw [← numberLength_run, ← (alike_append h w).run_eq, numberLength_run]

theorem numeric_agree (w : Text) : Agree w.length (numeric (w ++ u)) (numeric (w ++ u')) := by
  intro hle _
  rw [numeric_eq] at hle
  rw [numeric_eq, numeric_eq, numberLength_near h]
  split
  · rfl
  rename_i hsome
  rw [if_neg hsome] at hle
  have hinside : numberLength (w ++ u) ≤ w.length := by
    split at hle
    · exact Nat.le_of_succ_le hle
    · split at hle
      · exact hle
      · exact Nat.le_trans (Nat.le_add_right _ _) hle
  rw [List.drop_append_of_le_length hinside] at hle ⊢
  rw [List.drop_append_of_le_length hinside]
  simp only [head_append h (show isStop 37 = false by decide)]
  split
  · rfl
  rename_i hpercent
  rw [if_neg hpercent] at hle
  have hlen : (w.drop (numberLength (w ++ u))).length = w.length - numberLength (w ++ u) :=
    List.length_drop
  rw [identLength_near h]
  split at hle <;> omega

theorem identLike_agree (w : Text) : Agree w.length (identLike (w ++ u)) (identLike (w ++ u')) := by
  intro hle hkind
  rw [identLike_eq] at hle hkind
  have hinside : identLength (w ++ u) ≤ w.length := by
    split at hkind
    · omega
    rename_i hsome
    rw [if_neg hsome] at hle
    split at hkind
    · rename_i hparen
      rw [if_pos hparen] at hle
      split at hkind
      · rename_i hurl
        rw [if_pos hurl] at hle
        have := le_address (identLength (w ++ u) + 1) ((w ++ u).drop (identLength (w ++ u) + 1))
        omega
      · rename_i hurl
        rw [if_neg hurl] at hle
        exact Nat.le_of_succ_le hle
    · rename_i hparen
      rwa [if_neg hparen] at hle
  rw [identLike_eq, identLike_eq, identLength_near h hinside]
  split
  · rfl
  rename_i hsome
  rw [if_neg hsome] at hle hkind
  rw [List.drop_append_of_le_length hinside, List.take_append_of_le_length hinside] at hle hkind ⊢
  rw [List.drop_append_of_le_length hinside, List.take_append_of_le_length hinside]
  simp only [head_append h (show isStop 40 = false by decide)]
  split
  · rename_i hparen
    rw [if_pos hparen] at hle hkind
    split
    · rename_i hurl
      rw [if_pos hurl] at hle hkind
      have hnext : identLength (w ++ u) + 1 ≤ w.length := Nat.le_trans (le_address _ _) hle
      rw [List.drop_append_of_le_length hnext] at hle hkind ⊢
      rw [List.drop_append_of_le_length hnext]
      have hlen : (w.drop (identLength (w ++ u) + 1)).length =
          w.length - (identLength (w ++ u) + 1) := List.length_drop
      exact address_near h (by omega) hkind
    · rfl
  · rfl

/-- A mark at the front of a text. -/
theorem take_near {p : Text} (hp : p ≠ []) (hrun : ∀ b ∈ p.dropLast, goesOn b = true)
    (hlast : isStop (p.getLast hp) = false) (w : Text) :
    (w ++ u').take p.length = p ↔ (w ++ u).take p.length = p := by
  rw [eq_comm, ← List.prefix_iff_eq_take, eq_comm, ← List.prefix_iff_eq_take]
  exact ((alike_append h w).prefix_iff hp hrun hlast).symm

/-- A name that starts one byte into a token. -/
theorem ident_agree (k : Kind) (w : Text) : Agree (w.length + 1)
    (k, if identLength (w ++ u) = 0 then 0 else identLength (w ++ u) + 1)
    (k, if identLength (w ++ u') = 0 then 0 else identLength (w ++ u') + 1) := by
  intro hle _
  rw [identLength_near h]
  split at hle <;> omega

theorem customName_agree (w : Text) : Agree (w.length + 1)
    (.customName, let n := if (w ++ u).head? = some '-' then identLength (w ++ u) else 0
      if n = 0 then 0 else n + 1)
    (.customName, let n := if (w ++ u').head? = some '-' then identLength (w ++ u') else 0
      if n = 0 then 0 else n + 1) := by
  intro hle hkind
  have hminus : (w ++ u').head? = some '-' ↔ (w ++ u).head? = some '-' :=
    head_append h (by decide) w
  dsimp only at hle ⊢
  by_cases hfront : (w ++ u).head? = some '-'
  · rw [if_pos hfront] at hle ⊢
    rw [if_pos (hminus.2 hfront)]
    exact ident_agree h .customName w hle hkind
  · rw [if_neg hfront, if_neg (mt hminus.1 hfront)]

theorem attrMatch_agree (n : Nat) (w : Text) : Agree n (attrMatch (w ++ u)) (attrMatch (w ++ u')) :=
  fun _ _ => by
    have hequals : (w ++ u').head? = some '=' ↔ (w ++ u).head? = some '=' :=
      head_append h (by decide) w
    unfold attrMatch
    simp only [hequals]

theorem unicodeRangeLength_near (w : Text) :
    unicodeRangeLength (w ++ u') = unicodeRangeLength (w ++ u) := by
  rw [← unicodeRangeLength_run, ← (alike_append h w).run_eq, unicodeRangeLength_run]

/-- A token that ends within a text. -/
theorem lengthOf_near {b : UInt8} {w : Text} (hle : (lengthOf b (w ++ u)).2 ≤ w.length + 1)
    (hkind : (lengthOf b (w ++ u)).1.Lasting) :
    lengthOf b (w ++ u') = lengthOf b (w ++ u) := by
  have hnumeric := numeric_agree h (b :: w)
  have hident := identLike_agree h (b :: w)
  revert hle hkind
  unfold lengthOf
  dsimp only
  split
  · exact fun _ hkind => absurd rfl hkind.blank
  split
  -- Marks of one byte; then names, strings, and attempts one after another.
  case h_1 | h_2 | h_3 | h_4 | h_5 | h_6 | h_7 | h_8 | h_9 => exact fun _ _ => rfl
  case h_10 =>
    intro hle _
    rw [nameLength_near h]
    split at hle <;> omega
  case h_11 | h_12 =>
    intro hle _
    rw [stringLength_near h (Nat.le_of_succ_le_succ hle)]
  case h_13 | h_14 =>
    intro hle hkind
    exact firstOf_agree (.cons hnumeric .nil) (by simp [numeric_ne_badUrl]) hle hkind.url
  case h_15 =>
    intro hle hkind
    have hclose : Agree (w.length + 1)
        (.commentClose, if (w ++ u).take 2 = "->" then 3 else 0)
        (.commentClose, if (w ++ u').take 2 = "->" then 3 else 0) := fun _ _ => by
      have hmark : (w ++ u').take 2 = "->" ↔ (w ++ u).take 2 = "->" :=
        take_near h (p := "->") (by decide) (by decide +kernel) (by decide) w
      simp only [hmark]
    exact firstOf_agree (.cons hnumeric (.cons hident (.cons hclose
      (.cons (customName_agree h w) .nil))))
      (by simpa [numeric_ne_badUrl] using identLike_ne_badUrl) hle hkind.url
  case h_16 =>
    intro hle hkind
    exact firstOf_agree (.cons (ident_agree h .atKeyword w) .nil) (by simp) hle hkind.url
  case h_17 | h_18 | h_19 | h_20 =>
    intro hle hkind
    exact firstOf_agree (.cons (attrMatch_agree h _ w) .nil) (by simp [attrMatch]) hle hkind.url
  case h_21 =>
    intro _ hkind
    have hstar : (w ++ u').head? = some '*' ↔ (w ++ u).head? = some '*' :=
      head_append h (by decide) w
    split at hkind
    · exact absurd rfl hkind.comment
    · rename_i hnone
      rw [if_neg hnone, if_neg (mt hstar.1 hnone)]
  case h_22 =>
    intro _ _
    have hmark : (w ++ u').take 3 = "!--" ↔ (w ++ u).take 3 = "!--" :=
      take_near h (p := "!--") (by decide) (by decide +kernel) (by decide) w
    simp only [hmark]
  case h_23 =>
    intro hle hkind
    have hcolumn : Agree (w.length + 1)
        (.column, if (w ++ u).head? = some '|' then 2 else 0)
        (.column, if (w ++ u').head? = some '|' then 2 else 0) := fun _ _ => by
      have hbar : (w ++ u').head? = some '|' ↔ (w ++ u).head? = some '|' :=
        head_append h (by decide) w
      simp only [hbar]
    exact firstOf_agree (.cons (attrMatch_agree h _ w) (.cons hcolumn .nil)) (by simp [attrMatch])
      hle hkind.url
  case h_24 | h_25 =>
    intro hle hkind
    refine firstOf_agree (.cons ?_ (.cons hident .nil)) (by simpa using identLike_ne_badUrl)
      hle hkind.url
    intro _ _
    rw [← List.cons_append, ← List.cons_append, unicodeRangeLength_near h]
  case h_26 =>
    intro hle hkind
    exact firstOf_agree (.cons hnumeric (.cons hident .nil))
      (by simpa [numeric_ne_badUrl] using identLike_ne_badUrl) hle hkind.url

end

end Reactive.Css
