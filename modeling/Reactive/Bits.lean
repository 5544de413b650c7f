/-
Dirty masks.

Each of the first 31 keys of a component has a bit of its own; later keys
have none.  A set of keys is then a mask, and whether two sets meet is one
bitwise test.

* `Bits.ofNames` — the bits of a list of keys, by first occurrence;
* `Bits.mask` — the mask of a list of names;
* `Bits.names` — the keys of a mask, the lowest bit first.
-/
import Reactive.Dict

namespace Reactive

/-- A set of keys. -/
abbrev Mask := UInt32

/-- The bit of each key. -/
abbrev Bits := Dict Mask

namespace Bits

/-- How many keys have a bit. -/
def maxKeys : Nat := 31

/-- The bit of the key at a place. -/
def bitAt (i : Nat) : Mask := if i < maxKeys then (1 : UInt32) <<< UInt32.ofNat i else 0

/-- The bits of some keys, by first occurrence. -/
def ofNames (names : List Text) : Bits := (Text.distinct names).mapIdx fun i n => (n, bitAt i)

/-- The bit of a key; an unknown name has none. -/
def bit (bits : Bits) (name : Text) : Mask := (bits.get? name).getD 0

/-- The mask of some names. -/
def mask (bits : Bits) (names : List Text) : Mask := names.foldl (fun m n => m ||| bits.bit n) 0

/-- The keys of a mask, the lowest bit first. -/
def names (bits : Bits) (m : Mask) : List Text :=
  ((bits.filter fun p => p.2 != 0 && m &&& p.2 != 0).map Prod.fst).mergeSort
    fun n n' => bits.bit n ≤ bits.bit n'

end Bits

end Reactive
