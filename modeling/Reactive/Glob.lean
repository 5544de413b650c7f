/-
Name patterns.

`*` stands for any bytes and `?` for one character, neither of them for a
slash; `[...]` stands for one character of a class and a backslash takes the
next character as it is.  A malformed pattern fits no name.

* `Glob.parse?` — the items of a pattern;
* `Glob.fits` — whether they cover a whole name.
-/
import Reactive.Text.CodePoint

namespace Reactive

namespace Glob

/-- A part of a pattern. -/
inductive Item where
  | star
  | any
  | cls (negated : Bool) (ranges : List (Nat × Nat))
  | byte (b : UInt8)

/-- The character that `b :: r` starts with, if it is well formed and not the last one. -/
def innerChar? (b : UInt8) (r : Text) : Option (Nat × Text) :=
  let n := Text.next b r
  if n.2.isEmpty || (n.1 = Text.replacement && n.2.length = r.length) then none else some n

theorem length_innerChar? {b : UInt8} {r : Text} {x : Nat × Text} (h : innerChar? b r = some x) :
    x.2.length ≤ r.length := by
  simp only [innerChar?] at h
  split at h
  · simp at h
  · simp only [Option.some.injEq] at h
    subst h
    exact Text.length_next_le b r

/-- A character of a class, with something after it. -/
def classChar? : Text → Option (Nat × Text)
  | [] => none
  | b :: r =>
    if b = '-' || b = ']' then none
    else if b = '\\' then
      match r with
      | [] => none
      | c :: s => innerChar? c s
    else innerChar? b r

theorem length_classChar? {t : Text} {x : Nat × Text} (h : classChar? t = some x) :
    x.2.length < t.length := by
  cases t with
  | nil => simp [classChar?] at h
  | cons b r =>
    simp only [classChar?] at h
    split at h
    · simp at h
    · split at h
      · cases r with
        | nil => simp at h
        | cons c s =>
          have := length_innerChar? h
          simp only [List.length_cons]
          omega
      · have := length_innerChar? h
        simp only [List.length_cons]
        omega

/-- One range of a class: a character, or two with a minus sign between them. -/
def classRange? (t : Text) : Option ((Nat × Nat) × Text) :=
  match classChar? t with
  | none => none
  | some (lo, 45 :: s) => (classChar? s).map fun x => ((lo, x.1), x.2)  -- -
  | some (lo, s) => some ((lo, lo), s)

theorem length_classRange? {t : Text} {x : (Nat × Nat) × Text} (h : classRange? t = some x) :
    x.2.length < t.length := by
  unfold classRange? at h
  split at h
  · simp at h
  · rename_i lo s hc
    obtain ⟨y, hy, rfl⟩ := Option.map_eq_some_iff.1 h
    have h1 := length_classChar? hc
    have h2 := length_classChar? hy
    simp only [List.length_cons] at h1
    show y.2.length < _
    omega
  · rename_i lo s hn hc
    simp only [Option.some.injEq] at h
    subst h
    exact length_classChar? hc

/-- The ranges of a class and what follows its closing bracket. -/
def classRanges? (acc : List (Nat × Nat)) (t : Text) : Option (List (Nat × Nat) × Text) :=
  if t.head? = some ']' && !acc.isEmpty then some (acc.reverse, t.tail)
  else
    match _h : classRange? t with
    | none => none
    | some (range, r) => classRanges? (range :: acc) r
termination_by t.length
decreasing_by exact length_classRange? _h

theorem length_classRanges? {acc : List (Nat × Nat)} {t : Text} {x : List (Nat × Nat) × Text}
    (h : classRanges? acc t = some x) : x.2.length ≤ t.length := by
  fun_induction classRanges? acc t with
  | case1 acc t hc =>
    simp only [Option.some.injEq] at h
    subst h
    simp
  | case2 => simp at h
  | case3 acc t hc range r hr ih =>
    have h1 := ih h
    have h2 := length_classRange? hr
    exact Nat.le_trans h1 (Nat.le_of_lt h2)

/-- A class after its opening bracket, and what follows it. -/
def class? (t : Text) : Option (Item × Text) :=
  match t with
  | 94 :: r => (classRanges? [] r).map fun x => (.cls true x.1, x.2)  -- ^
  | r => (classRanges? [] r).map fun x => (.cls false x.1, x.2)

theorem length_class? {t : Text} {x : Item × Text} (h : class? t = some x) :
    x.2.length ≤ t.length := by
  unfold class? at h
  split at h
  all_goals
    obtain ⟨y, hy, rfl⟩ := Option.map_eq_some_iff.1 h
    have := length_classRanges? hy
    simp only [List.length_cons] at *
    omega

/-- The items of a pattern; nothing if it is malformed. -/
def parse? (t : Text) : Option (List Item) :=
  match t with
  | [] => some []
  | b :: r =>
    if b = '*' then (parse? r).map (.star :: ·)
    else if b = '?' then (parse? r).map (.any :: ·)
    else if b = '\\' then
      match r with
      | [] => none
      | c :: s => (parse? s).map (.byte c :: ·)
    else if b = '[' then
      match _h : class? r with
      | none => none
      | some (item, s) => (parse? s).map (item :: ·)
    else (parse? r).map (.byte b :: ·)
termination_by t.length
decreasing_by
  all_goals simp only [List.length_cons]
  all_goals first
    | omega
    | exact Nat.lt_succ_of_le (length_class? _h)

/-- Whether the items cover a name. -/
def fits (items : List Item) (name : Text) : Bool :=
  match items, name with
  | [], n => n.isEmpty
  | .star :: r, n => fits r n || (match n with
      | [] => false
      | b :: s => b != '/' && fits (.star :: r) s)
  | _ :: _, [] => false
  | .byte c :: r, b :: s => b == c && fits r s
  | .any :: r, b :: s => b != '/' && fits r (Text.next b s).2
  | .cls negated ranges :: r, b :: s =>
    let n := Text.next b s
    (ranges.any fun x => x.1 ≤ n.1 && n.1 ≤ x.2) != negated && fits r n.2
termination_by (items.length, name.length)

end Glob

/-- Whether a pattern fits a name. -/
def Text.fitsPattern (name pattern : Text) : Bool :=
  match Glob.parse? pattern with
  | none => false
  | some items => Glob.fits items name

end Reactive
