/-
A stable sort in place with an effectful comparison.

The comparison may have effects and need not be an order, so the comparisons
that are made, and their order, are part of what the sort does: blocks of
twenty by insertion, then merges of neighbouring blocks by symmetric
rotation.
-/
namespace Reactive.Sort

variable {m : Type → Type} [Monad m] {α : Type}

/-- Whether the item at `i` comes before the one at `j`. -/
def before (less : α → α → m Bool) (a : Array α) (i j : Nat) : m Bool :=
  match a[i]?, a[j]? with
  | some x, some y => less x y
  | _, _ => pure false

/-- Move the item at `lo + k` down while it comes before its left neighbour. -/
def sink (less : α → α → m Bool) (a : Array α) (lo : Nat) : Nat → m (Array α)
  | 0 => pure a
  | k + 1 => do
    if ← before less a (lo + k + 1) (lo + k) then
      sink less (a.swapIfInBounds (lo + k + 1) (lo + k)) lo k
    else pure a

/-- Sort the items from `lo` by insertion; `n` of them are left after the first `k`. -/
def insertion (less : α → α → m Bool) (a : Array α) (lo : Nat) (k : Nat) : Nat → m (Array α)
  | 0 => pure a
  | n + 1 => do insertion less (← sink less a lo k) lo (k + 1) n

/-- The first place in `[i, j)` where a test fails, by halving; `steps` bounds the halvings. -/
def bisect (test : Nat → m Bool) (i j : Nat) : Nat → m Nat
  | 0 => pure i
  | steps + 1 =>
    if i < j then do
      let h := (i + j) / 2
      if ← test h then bisect test (h + 1) j steps else bisect test i h steps
    else pure i

/-- The items in `[lo, mid)` and `[mid, hi)` change places. -/
def rotate (a : Array α) (lo mid hi : Nat) : Array α :=
  a.extract 0 lo ++ a.extract mid hi ++ a.extract lo mid ++ a.extract hi a.size

/-- Merge the sorted parts `[lo, mid)` and `[mid, hi)`; `depth` bounds the nesting. -/
def merge (less : α → α → m Bool) : Nat → Array α → Nat → Nat → Nat → m (Array α)
  | 0, a, _, _, _ => pure a
  | depth + 1, a, lo, mid, hi => do
    if mid - lo = 1 then
      let i ← bisect (fun h => before less a h lo) mid hi (hi - mid + 1)
      pure (rotate a lo mid i)
    else if hi - mid = 1 then
      let i ← bisect (fun h => do return !(← before less a mid h)) lo mid (mid - lo + 1)
      pure (rotate a i mid hi)
    else
      let half := (lo + hi) / 2
      let n := half + mid
      let (start, r) := if mid > half then (n - hi, half) else (lo, mid)
      let p := n - 1
      let start ← bisect (fun c => do return !(← before less a (p - c) c)) start r (r - start + 1)
      let stop := n - start
      let a := if start < mid && mid < stop then rotate a start mid stop else a
      let a ← if lo < start && start < half then merge less depth a lo start half else pure a
      if half < stop && stop < hi then merge less depth a half stop hi else pure a

/-- Sort each block of `size` items by insertion; `blocks` bounds their number. -/
def sortBlocks (less : α → α → m Bool) (size : Nat) : Nat → Array α → Nat → m (Array α)
  | 0, a, _ => pure a
  | blocks + 1, a, lo => do
    if lo + size ≤ a.size then
      sortBlocks less size blocks (← insertion less a lo 0 size) (lo + size)
    else insertion less a lo 0 (a.size - lo)

/-- Merge neighbouring blocks of `size` items; `blocks` bounds their number. -/
def mergeBlocks (less : α → α → m Bool) (size : Nat) : Nat → Array α → Nat → m (Array α)
  | 0, a, _ => pure a
  | blocks + 1, a, lo => do
    if lo + 2 * size ≤ a.size then
      mergeBlocks less size blocks (← merge less a.size a lo (lo + size) (lo + 2 * size))
        (lo + 2 * size)
    else if lo + size < a.size then merge less a.size a lo (lo + size) a.size
    else pure a

/-- Merge blocks of doubling size until one block is left; `rounds` bounds the doublings. -/
def mergeRounds (less : α → α → m Bool) : Nat → Nat → Array α → m (Array α)
  | 0, _, a => pure a
  | rounds + 1, size, a => do
    if size < a.size then
      mergeRounds less rounds (2 * size) (← mergeBlocks less size (a.size + 1) a 0)
    else pure a

/-- The items in a stable order. -/
def sort (less : α → α → m Bool) (xs : List α) : m (List α) := do
  let a ← sortBlocks less 20 (xs.length + 1) xs.toArray 0
  return (← mergeRounds less (a.size + 1) 20 a).toList

end Reactive.Sort
