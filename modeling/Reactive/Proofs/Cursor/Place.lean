/-
Places looked up in a table of lines.

The line of an offset is looked up in the offsets at which the lines of a source
start, and the frame around a place shows lines of the source by their number.
Both read a table at an index; none of these is outside of its table, and what
comes out is the place of the offset and the frame around it.

* `Cursor.run_place` — the place of an offset;
* `Cursor.run_frame` — the lines around a place.
-/
import Mathlib.Data.List.Induction
import Reactive.Template.Position
import Reactive.Proofs.Cursor.Basic

namespace Reactive

namespace Cursor

variable {ε : Type}

/-! ### Looking up -/

/-- The offsets after the line feeds of a text that starts at an offset. -/
def startsAfter : Nat → Text → List Nat
  | _, [] => []
  | i, b :: r => if b = 10 then (i + 1) :: startsAfter (i + 1) r else startsAfter (i + 1) r

/-- The offsets at which the lines of a source start. -/
def lineStarts (src : Text) : List Nat := 0 :: startsAfter 0 src

/-- The offsets at which lines start, in order. -/
abbrev Starts : Type := List Nat

/-- The first line from `i` on that starts after an offset, or the number of lines. -/
def Starts.lineLoop (starts : Starts) (offset i : Nat) : Cursor ε Nat := do
  if i < starts.length then
    let s ← item starts i
    if offset < s then pure i else starts |>.lineLoop offset (i + 1)
  else pure i
partial_fixpoint

open Starts

/-- The place of an offset: its line is the one before the first that starts after it. -/
def place (src : Text) (offset : Nat) : Cursor ε Position := do
  let n ← lineLoop (lineStarts src) offset 0
  let start ← item (lineStarts src) (n - 1)
  pure ⟨n - 1 + 1, offset - start + 1, offset⟩

/-- A line of a source with its number. -/
def shownLine (src : Text) (width n : Nat) : Cursor ε Text := do
  let line ← item (Text.lines src) (n - 1)
  pure (Text.padLeft width (Text.ofNat n) ++ " | " ++ line ++ "\n" : Text)

/-- The line of a place, with the line before it and a mark under the column. -/
def frame (src : Text) (p : Position) : Cursor ε Text := do
  let width := (Text.ofNat p.line).length
  if p.line < 1 || p.line > (Text.lines src).length then pure []
  else
    let above ← if p.line > 1 then shownLine src width (p.line - 1) else pure []
    let line ← shownLine src width p.line
    pure (above ++ line ++ Text.blanks width ++ " | " ++ Text.blanks (p.column - 1) ++ "^" : Text)

/-! ### The table of lines -/

theorem lt_of_mem_startsAfter {i x : Nat} {s : Text} (h : x ∈ startsAfter i s) : i < x := by
  induction s generalizing i with
  | nil => cases h
  | cons b r ih =>
    rw [startsAfter] at h
    split at h
    · rcases List.mem_cons.1 h with rfl | h
      · exact Nat.lt_succ_self i
      · exact Nat.lt_of_succ_lt (ih h)
    · exact Nat.lt_of_succ_lt (ih h)

theorem length_startsAfter (i : Nat) (s : Text) : (startsAfter i s).length = s.count 10 := by
  induction s generalizing i with
  | nil => rfl
  | cons b r ih =>
    rw [startsAfter, List.count_cons]
    split
    · rename_i hb
      rw [List.length_cons, ih, if_pos (beq_iff_eq.2 hb)]
    · rename_i hb
      rw [ih, if_neg fun hbeq => hb (beq_iff_eq.1 hbeq), Nat.add_zero]

/-- The lines that start up to an offset are those of the text before it. -/
theorem takeWhile_startsAfter {i offset : Nat} (h : i ≤ offset) (s : Text) :
    (startsAfter i s).takeWhile (fun x => decide (x ≤ offset)) =
      startsAfter i (s.take (offset - i)) := by
  induction s generalizing i with
  | nil =>
    rw [List.take_nil]
    rfl
  | cons b r ih =>
    rcases Nat.eq_or_lt_of_le h with rfl | hlt
    · rw [Nat.sub_self, List.take_zero]
      cases hs : startsAfter i (b :: r) with
      | nil => rfl
      | cons x xs =>
        have hx : i < x := lt_of_mem_startsAfter (s := b :: r) (by rw [hs]; exact List.mem_cons_self)
        rw [List.takeWhile_cons_of_neg (by simpa using hx)]
        rfl
    · obtain ⟨d, rfl⟩ := Nat.exists_eq_add_of_lt hlt
      rw [show i + d + 1 - i = (i + d + 1 - (i + 1)) + 1 by omega, List.take_succ_cons, startsAfter,
        startsAfter]
      split
      · rw [List.takeWhile_cons_of_pos (by simp), ih (by omega)]
      · rw [ih (by omega)]

theorem startsAfter_append (i : Nat) (s : Text) (b : UInt8) :
    startsAfter i (s ++ [b]) = startsAfter i s ++ if b = 10 then [i + s.length + 1] else [] := by
  induction s generalizing i with
  | nil =>
    simp only [List.nil_append, startsAfter, List.length_nil, Nat.add_zero]
  | cons c r ih =>
    rw [List.cons_append, startsAfter, startsAfter, ih, List.length_cons,
      show i + 1 + r.length + 1 = i + (r.length + 1) + 1 by omega]
    split <;> rfl

/-- The last line of a text starts after its last line feed. -/
theorem getLast_startsAfter (s : Text) :
    (0 :: startsAfter 0 s).getLast (List.cons_ne_nil _ _) =
      (s.reverse.dropWhile (· != 10)).length := by
  induction s using List.reverseRecOn with
  | nil => rfl
  | append_singleton s b ih =>
    simp only [startsAfter_append, List.reverse_append, List.reverse_singleton,
      List.singleton_append]
    split
    · rename_i hb
      subst hb
      rw [List.dropWhile_cons_of_neg (by simp)]
      simp [List.getLast_eq_getElem]
    · rename_i hb
      rw [List.dropWhile_cons_of_pos (by simpa using hb), ← ih]
      simp

/-! ### Places and frames -/

section

variable {starts rest : List Nat} {offset i k : Nat}

theorem run_lineLoop (h : At starts i rest) :
    (lineLoop starts offset i : Cursor ε Nat).run k =
      pure (i + (rest.takeWhile (fun x => decide (x ≤ offset))).length, k) := by
  induction rest generalizing i with
  | nil =>
    have hlen := h.eq_length
    rw [lineLoop, if_neg (by omega)]
    rfl
  | cons s r ih =>
    rw [lineLoop, if_pos h.lt, StateT.run_bind, h.run_item, pure_bind]
    by_cases hs : offset < s
    · rw [if_pos hs, List.takeWhile_cons_of_neg (by simpa using hs)]
      rfl
    · rw [if_neg hs, ih h.cons, List.takeWhile_cons_of_pos (by simpa using hs), List.length_cons]
      congr 2
      omega

end

/-- The place of an offset is found in the table of lines. -/
theorem run_place (src : Text) (offset k : Nat) :
    (place src offset : Cursor ε Position).run k = pure (Position.ofOffset src offset, k) := by
  have hbefore : (lineStarts src).takeWhile (fun x => decide (x ≤ offset)) =
      0 :: startsAfter 0 (src.take offset) := by
    rw [lineStarts, List.takeWhile_cons_of_pos (by simp), takeWhile_startsAfter (Nat.zero_le _),
      Nat.sub_zero]
  have hline : (startsAfter 0 (src.take offset)).length = (src.take offset).count 10 :=
    length_startsAfter 0 _
  -- the last line that starts up to the offset
  have hstart : (lineStarts src)[(src.take offset).count 10]? =
      some ((src.take offset).reverse.dropWhile (· != 10)).length := by
    obtain ⟨after, hafter⟩ := List.takeWhile_prefix (l := lineStarts src)
      (fun x => decide (x ≤ offset))
    rw [← hafter, hbefore, List.getElem?_append_left (by rw [List.length_cons, hline]; omega),
      ← getLast_startsAfter, List.getLast_eq_getElem, ← hline]
    simp
  have hloop : (lineLoop (lineStarts src) offset 0 : Cursor ε Nat).run k =
      pure ((src.take offset).count 10 + 1, k) := by
    rw [run_lineLoop (At.front _), hbefore, List.length_cons, hline, Nat.zero_add]
  rw [place, StateT.run_bind, hloop, pure_bind, Nat.add_sub_cancel, item, hstart]
  rfl

/-- The frame around a place is shown with lines of the source. -/
theorem run_frame (src : Text) (p : Position) (k : Nat) :
    (frame src p : Cursor ε Text).run k = pure (p.frame src, k) := by
  have hshown : ∀ {width n : Nat}, n - 1 < (Text.lines src).length →
      (shownLine src width n : Cursor ε Text).run k =
        pure (Text.padLeft width (Text.ofNat n) ++ " | " ++ (Text.lines src).getD (n - 1) [] ++ "\n",
          k) := by
    intro width n hn
    rw [shownLine, item, List.getD_eq_getElem?_getD, List.getElem?_eq_getElem hn]
    rfl
  rw [frame, Position.frame]
  by_cases hout : (p.line < 1 || p.line > (Text.lines src).length) = true
  · simp only [if_pos hout]
    rfl
  simp only [if_neg hout]
  rw [Bool.or_eq_true, decide_eq_true_eq, decide_eq_true_eq, not_or, Nat.not_lt, Nat.not_lt] at hout
  by_cases hfirst : p.line > 1
  · rw [if_pos hfirst, if_pos hfirst, StateT.run_bind, hshown (by omega), pure_bind,
      StateT.run_bind, hshown (by omega)]
    rfl
  · rw [if_neg hfirst, if_neg hfirst, pure_bind, StateT.run_bind, hshown (by omega)]
    rfl

end Cursor

end Reactive
