/-
Programs that read an input at a position.

A program may move its position as it likes, may read outside of its input, and
may go on for ever: nothing in its type says that it ends.  The functions that
read a text or some tokens from the front return what they leave, so they do end.
A program agrees with such a function (`Agrees`) if from where the input of the
function starts it comes to the same result, and then stands where the rest
starts.

* `Cursor` — programs with a position;
* `Agrees.bind`, `Agrees.bind_error` — one program after another.
-/
import Reactive.Text.Basic

namespace Reactive

/-- How a program with a position stops without a result. -/
inductive Stop (ε : Type) where
  /-- It read outside of its input. -/
  | outside
  /-- It refused its input. -/
  | refused (e : ε)

/-- A program that reads an input at a position and may move it.  Where it goes on for ever it has
no answer, `none`. -/
abbrev Cursor (ε : Type) : Type → Type := StateT Nat (ExceptT (Stop ε) Option)

namespace Cursor

variable {ε α β γ : Type}

/-- The answer of a program that starts at the front of its input. -/
def answer (x : Cursor ε α) : Option (Except (Stop ε) α) := (x.run' 0).run

/-- Refuse the input. -/
def refuse (e : ε) : Cursor ε α := throw (.refused e)

/-- The item of an input at an offset, which must be one of the input. -/
def item (xs : List α) (i : Nat) : Cursor ε α :=
  match xs[i]? with
  | some x => pure x
  | none => throw .outside

/-- The part of a text from an offset to another one, which must be offsets of the text, in order. -/
def slice (src : Text) (a b : Nat) : Cursor ε Text :=
  if a ≤ b ∧ b ≤ src.length then pure (src.slice a b) else throw .outside

/-- Run a program on an input of its own, and go on with what comes of it. -/
def own {δ : Type} (x : Cursor δ α) : Cursor ε (Except δ α) := fun i => ExceptT.mk <|
  x.answer.map fun
    | .ok a => .ok (.ok a, i)
    | .error (.refused e) => .ok (.error e, i)
    | .error .outside => .error .outside

section

variable (toks : List α)

/-- The token at the position. -/
def look : Cursor ε α := do
  let i ← get
  item toks i

/-- The token some places ahead, the last one past the end. -/
def lookAhead (n : Nat) : Cursor ε α := do
  let i ← get
  if toks.length ≤ i + n then item toks (toks.length - 1) else item toks (i + n)

/-- Take the token at the position; the last one is not passed. -/
def take : Cursor ε α := do
  let i ← get
  let t ← item toks i
  if i + 1 < toks.length then
    set (i + 1)
    pure t
  else pure t

end

/-! ### Agreement -/

/-- The rest of an input at an offset. -/
def At (xs : List β) (i : Nat) (rest : List β) : Prop := i ≤ xs.length ∧ xs.drop i = rest

/-- From an offset a program comes to the same result as a function that takes what it needs from the
front of what is left there. -/
def Agrees (xs : List β) (x : Cursor ε α) (i : Nat) : Except ε (α × List β) → Prop
  | .error e => x.run i = throw (.refused e)
  | .ok (a, rest) => ∃ j, i ≤ j ∧ At xs j rest ∧ x.run i = pure (a, j)

section

variable {xs rest : List β} {i j : Nat} {b : β}

theorem At.front (xs : List β) : At xs 0 xs := ⟨Nat.zero_le _, rfl⟩

theorem At.cons (h : At xs i (b :: rest)) : At xs (i + 1) rest := by
  obtain ⟨hi, hrest⟩ := h
  refine ⟨?_, by rw [← List.tail_drop, hrest, List.tail_cons]⟩
  have hlen := congrArg List.length hrest
  rw [List.length_drop, List.length_cons] at hlen
  omega

theorem At.length (h : At xs i rest) : i + rest.length = xs.length := by
  obtain ⟨hi, rfl⟩ := h
  rw [List.length_drop]
  omega

theorem At.drop (h : At xs i rest) {n : Nat} (hn : n ≤ rest.length) :
    At xs (i + n) (rest.drop n) := by
  have hlen := h.length
  refine ⟨by omega, ?_⟩
  rw [← h.2, List.drop_drop]

theorem At.suffix (hi : At xs i rest) {r : List β} (hj : At xs j r) (hij : i ≤ j) : r <:+ rest := by
  obtain ⟨d, rfl⟩ := Nat.exists_eq_add_of_le hij
  rw [← hi.2, ← hj.2, ← List.drop_drop]
  exact List.drop_suffix _ _

theorem At.getElem? (h : At xs i (b :: rest)) : xs[i]? = some b := by
  rw [← List.head?_drop, h.2, List.head?_cons]

theorem At.mem (h : At xs i (b :: rest)) : b ∈ xs :=
  List.mem_of_getElem? h.getElem?

theorem At.lt (h : At xs i (b :: rest)) : i < xs.length := by
  have hlen := h.length
  rw [List.length_cons] at hlen
  omega

theorem At.eq_length (h : At xs i []) : i = xs.length := h.length

/-- What an item is that is read at an offset. -/
theorem At.run_item (h : At xs i (b :: rest)) (k : Nat) :
    (item xs i : Cursor ε β).run k = pure (b, k) := by
  rw [item, h.getElem?]
  rfl

end

section

variable {xs r : List β} {i j : Nat} {x : Cursor ε α} {k : α → Cursor ε γ} {o' : Except ε (γ × List β)}

theorem answer_ok {a : α} (h : x.run 0 = Pure.pure (a, j)) : x.answer = some (.ok a) := by
  rw [answer, StateT.run', show x 0 = _ from h]
  rfl

theorem answer_error {e : ε} (h : x.run 0 = throw (.refused e)) :
    x.answer = some (.error (.refused e)) := by
  rw [answer, StateT.run', show x 0 = _ from h]
  rfl

theorem Agrees.answer {o : Except ε (α × List β)} (h : Agrees xs x 0 o) :
    x.answer = some ((o.map Prod.fst).mapError .refused) := by
  cases o with
  | error e => exact answer_error h
  | ok v =>
    obtain ⟨j, -, -, h⟩ := h
    exact answer_ok h

theorem Agrees.pure (h : At xs i r) {a : α} : Agrees xs (pure a : Cursor ε α) i (.ok (a, r)) :=
  ⟨i, Nat.le_refl i, h, rfl⟩

theorem Agrees.refuse (xs : List β) (i : Nat) (e : ε) :
    Agrees xs (Cursor.refuse e : Cursor ε α) i (.error e) :=
  rfl

theorem Agrees.congr {y : Cursor ε α} {o : Except ε (α × List β)} (hrun : x.run i = y.run i)
    (hy : Agrees xs y i o) : Agrees xs x i o := by
  cases o with
  | error e => exact hrun.trans hy
  | ok v =>
    obtain ⟨j, hij, hat, hy⟩ := hy
    exact ⟨j, hij, hat, hrun.trans hy⟩

/-- A program does a step that does not fail, and then the rest of it. -/
theorem Agrees.step {a : α} (hx : x.run i = Pure.pure (a, j)) (hij : i ≤ j)
    (hk : Agrees xs (k a) j o') : Agrees xs (x >>= k) i o' := by
  have hrun : (x >>= k).run i = (k a).run j := by
    rw [StateT.run_bind, hx, pure_bind]
  cases o' with
  | error e => exact hrun.trans hk
  | ok v =>
    obtain ⟨l, hjl, hat, hk⟩ := hk
    exact ⟨l, Nat.le_trans hij hjl, hat, hrun.trans hk⟩

theorem Agrees.bind_error {e : ε} (hx : Agrees xs x i (.error e)) :
    Agrees xs (x >>= k) i (.error e) := by
  change (x >>= k).run i = throw (.refused e)
  rw [StateT.run_bind, hx]
  rfl

theorem Agrees.bind {a : α} (hx : Agrees xs x i (.ok (a, r)))
    (hk : ∀ j, i ≤ j → At xs j r → Agrees xs (k a) j o') : Agrees xs (x >>= k) i o' := by
  obtain ⟨j, hij, hat, hx⟩ := hx
  exact .step hx hij (hk j hij hat)

theorem Agrees.get {k : Nat → Cursor ε γ} (hk : Agrees xs (k i) i o') :
    Agrees xs (get >>= k) i o' :=
  .step rfl (Nat.le_refl i) hk

theorem Agrees.set {k : PUnit → Cursor ε γ} (hij : i ≤ j) (hk : Agrees xs (k ⟨⟩) j o') :
    Agrees xs (set j >>= k) i o' :=
  .step rfl hij hk

theorem Agrees.item {b : β} {k : β → Cursor ε γ} (h : At xs i (b :: r)) (hk : Agrees xs (k b) i o') :
    Agrees xs (Cursor.item xs i >>= k) i o' :=
  .step (h.run_item i) (Nat.le_refl i) hk

end

/-- A program that comes to an end on its own input is run to it. -/
theorem run_own {δ : Type} {x : Cursor δ α} {o : Except δ α} (h : x.answer = some (o.mapError .refused))
    (i : Nat) : (own x : Cursor ε (Except δ α)).run i = Pure.pure (o, i) := by
  change ExceptT.mk (Option.map _ x.answer) = _
  rw [h]
  cases o <;> rfl

/-! ### Tokens before an end -/

section

variable {all ts r : List β} {last t : β} {i j k : Nat}

theorem length_before (all : List β) (last : β) : (all ++ [last]).length = all.length + 1 :=
  List.length_append

theorem At.run_token (h : At all i ts) :
    (item (all ++ [last]) i : Cursor ε β).run k = Pure.pure (ts.headD last, k) := by
  have htoken : (all ++ [last])[i]? = some (ts.headD last) := by
    cases ts with
    | nil =>
      rw [h.eq_length]
      exact List.getElem?_concat_length
    | cons t r =>
      rw [List.getElem?_append_left h.lt]
      exact h.getElem?
  rw [item, htoken]
  rfl

theorem At.run_look (h : At all i ts) :
    (look (all ++ [last]) : Cursor ε β).run i = Pure.pure (ts.headD last, i) := by
  rw [look, StateT.run_bind, StateT.run_get, pure_bind]
  exact h.run_token

theorem At.run_lookAhead {n : Nat} (h : At all j ts) (hj : i + n = j) :
    (lookAhead (all ++ [last]) n : Cursor ε β).run i = Pure.pure (ts.headD last, i) := by
  have hle := h.1
  rw [lookAhead, StateT.run_bind, StateT.run_get, pure_bind,
    if_neg (by rw [length_before]; omega), hj]
  exact h.run_token

theorem At.run_take (h : At all i (t :: r)) :
    (take (all ++ [last]) : Cursor ε β).run i = Pure.pure (t, i + 1) := by
  have hlt := h.lt
  rw [take, StateT.run_bind, StateT.run_get, pure_bind, StateT.run_bind, h.run_token, pure_bind,
    if_pos (by rw [length_before]; omega)]
  rfl

theorem At.run_take_end (h : At all i []) :
    (take (all ++ [last]) : Cursor ε β).run i = Pure.pure (last, i) := by
  rw [take, StateT.run_bind, StateT.run_get, pure_bind, StateT.run_bind, h.run_token, pure_bind,
    if_neg (by rw [length_before, h.eq_length]; omega)]
  rfl

end

/-! ### Agreement with a parser -/

section

variable {δ : Type} {report : δ → ε} {all r : List β} {i : Nat} {x : Cursor ε α}
  {P : α × List β → Prop} {Q : γ × List β → Prop}

/-- From a position a program comes to the same outcome as a parser of the tokens there, whose
failures are reported in a given form. -/
def Twin (report : δ → ε) (all : List β) (x : Cursor ε α) (i : Nat)
    (o : Except δ { y : α × List β // P y }) : Prop :=
  Agrees all x i ((o.map Subtype.val).mapError report)

theorem Twin.bind_error {k : α → Cursor ε γ} {o : Except δ { y : α × List β // P y }} {e : δ}
    (hx : Twin report all x i o) (ho : o = .error e) :
    Twin report all (x >>= k) i (.error e : Except δ { y : γ × List β // Q y }) := by
  rw [ho] at hx
  exact Agrees.bind_error hx

theorem Twin.bind {k : α → Cursor ε γ} {o : Except δ { y : α × List β // P y }}
    {o' : Except δ { y : γ × List β // Q y }} {a : α} {h} (hx : Twin report all x i o)
    (ho : o = .ok ⟨(a, r), h⟩) (hk : ∀ j, i ≤ j → At all j r → Twin report all (k a) j o') :
    Twin report all (x >>= k) i o' := by
  rw [ho] at hx
  exact Agrees.bind hx hk

theorem Twin.step {k : α → Cursor ε γ} {o' : Except δ { y : γ × List β // Q y }} {a : α}
    (hx : x.run i = Pure.pure (a, i)) (hk : Twin report all (k a) i o') :
    Twin report all (x >>= k) i o' :=
  Agrees.step hx (Nat.le_refl i) hk

theorem Twin.ok {a : α} {h : P (a, r)} (hr : At all i r) :
    Twin report all (Pure.pure a) i (.ok ⟨(a, r), h⟩ : Except δ { y : α × List β // P y }) :=
  Agrees.pure hr

theorem Twin.error {e : δ} :
    Twin report all (Cursor.refuse (report e)) i (.error e : Except δ { y : α × List β // P y }) :=
  Agrees.refuse all i _

end

end Cursor

end Reactive
