/-
Values in memory.

A list refers to an array of items.  An object refers to an array of names, in
order, and to a table of what the names stand for.  Arrays and tables are
written in place and can be shared, so two things that the rest of the library
takes for granted are the work of the operations here: the names of an object
are those of its table, and a value never changes once it is made.  Whoever
changes a value copies it and writes to the copy.

* `Memory.insert`, `Memory.ofPairs`, `Memory.merge`, `Memory.ofPlain`,
  `Memory.setItem`, `Memory.append` — the operations;
* `Memory.ofValue` — a value put into memory;
* `Memory.image` — a value with all that it refers to;
* `Image.equal` — deep equality, which counts names and looks up in tables;
* `Memory.value` — the value, the properties of its objects in the order of
  their names.
-/
import Reactive.Value.Plain

namespace Reactive

/-- The front of an array. -/
structure Slice where
  array : Nat
  length : Nat
deriving DecidableEq

/-- An object: its names in order, and the table of what they stand for. -/
structure Record where
  names : Slice
  table : Nat
deriving DecidableEq

/-- A value as it is handed around.  What it is made of lies in memory. -/
inductive Handle where
  | null
  | undefined
  | bool (value : Bool)
  | number (value : Num)
  | str (value : Text)
  | func (f : Func)
  | list (items : Slice)
  | map (record : Record)

instance : Inhabited Handle := ⟨.undefined⟩

/-- A piece of memory.  All of an array is there, also what lies behind the slices of it. -/
inductive Piece where
  | names (cells : List Text)
  | items (cells : List Handle)
  /-- The entries in the order in which a walk happens to meet them. -/
  | table (entries : Dict Handle)

/-- The pieces of memory, the newest first.  Addresses count from the oldest. -/
abbrev Memory := List Piece

namespace Memory

/-! ### Pieces -/

/-- The piece at an address. -/
def piece? : Memory → Nat → Option Piece
  | [], _ => none
  | p :: m, a => if a = m.length then some p else piece? m a

/-- The piece at an address written over. -/
def write : Memory → Nat → Piece → Memory
  | [], _, _ => []
  | p :: m, a, q => if a = m.length then q :: m else p :: write m a q

/-- The names in a slice. -/
def names (m : Memory) (s : Slice) : List Text :=
  match m.piece? s.array with
  | some (.names cells) => cells.take s.length
  | _ => []

/-- The items in a slice. -/
def items (m : Memory) (s : Slice) : List Handle :=
  match m.piece? s.array with
  | some (.items cells) => cells.take s.length
  | _ => []

/-- The entries of a table. -/
def entries (m : Memory) (table : Nat) : Dict Handle :=
  match m.piece? table with
  | some (.table es) => es
  | _ => []

/-- A name written behind a slice: in the same array if there is room, else in a larger copy of it.
How much larger is not seen from outside. -/
def appendName (m : Memory) (s : Slice) (name : Text) : Slice × Memory :=
  match m.piece? s.array with
  | some (.names cells) =>
    if s.length < cells.length then
      (⟨s.array, s.length + 1⟩, m.write s.array (.names (cells.set s.length name)))
    else
      let copy := cells.take s.length ++ name :: List.replicate s.length []
      (⟨m.length, s.length + 1⟩, .names copy :: m)
  | _ => (s, m)

/-- An entry of a table set. -/
def put (m : Memory) (table : Nat) (name : Text) (v : Handle) : Memory :=
  m.write table (.table ((name, v) :: (m.entries table).erase name))

/-! ### Objects -/

/-- The names of an object, in order. -/
def keys (m : Memory) (r : Record) : List Text := m.names r.names

/-- What a name stands for in an object. -/
def get? (m : Memory) (r : Record) (name : Text) : Option Handle := (m.entries r.table).get? name

/-- An object without properties. -/
def newMap (m : Memory) : Record × Memory :=
  (⟨⟨m.length, 0⟩, m.length + 1⟩, .table [] :: .names [] :: m)

/-- A property of an object set in place: a new name goes behind the others. -/
def bind (m : Memory) (r : Record) (name : Text) (v : Handle) : Record × Memory :=
  if (m.get? r name).isSome then (r, m.put r.table name v)
  else
    let (names, m) := m.appendName r.names name
    (⟨names, r.table⟩, m.put r.table name v)

/-- An object made of pairs; of two pairs with one name the later one counts. -/
def ofPairs (m : Memory) (ps : List (Text × Handle)) : Record × Memory :=
  ps.foldl (fun (r, m) p => m.bind r p.1 p.2) m.newMap

/-- A copy of an object that has room for one more name. -/
def copy (m : Memory) (r : Record) : Record × Memory :=
  let names := m.keys r
  (⟨⟨m.length, names.length⟩, m.length + 1⟩,
    .table (m.entries r.table) :: .names (names ++ [[]]) :: m)

/-- An object with a property set. -/
def insert (m : Memory) (r : Record) (name : Text) (v : Handle) : Record × Memory :=
  let (r, m) := m.copy r
  m.bind r name v

/-- The properties of an object set in another one, name by name. -/
def mergeOne (source : Record) (x : Record × Memory) : Record × Memory :=
  (x.2.keys source).foldl
    (fun (r, m) name => m.insert r name ((m.get? source name).getD .undefined)) x

/-- Objects merged from left to right into a new one; other values are left out. -/
def merge (m : Memory) (vs : List Handle) : Record × Memory :=
  vs.foldl (fun x v =>
    match v with
    | .map r => mergeOne r x
    | _ => x) m.newMap

/-! ### Lists -/

/-- A list that owns its items. -/
def newList (m : Memory) (vs : List Handle) : Slice × Memory :=
  (⟨m.length, vs.length⟩, .items vs :: m)

/-- A list with an item set, grown with undefined items if need be. -/
def setItem (m : Memory) (s : Slice) (i : Nat) (v : Handle) : Slice × Memory :=
  let vs := m.items s
  m.newList ((vs ++ List.replicate (i + 1 - vs.length) Handle.undefined).set i v)

/-- A list with more items behind its own. -/
def append (m : Memory) (s : Slice) (vs : List Handle) : Slice × Memory :=
  m.newList (m.items s ++ vs)

/-! ### Plain data and values -/

mutual

/-- The value of plain data. -/
def ofPlain : Plain → Memory → Handle × Memory
  | .null, m => (.null, m)
  | .bool b, m => (.bool b, m)
  | .int i, m => (.number (.int i), m)
  | .float f, m => (.number (Num.ofFloat f), m)
  | .str s, m => (.str s, m)
  | .list ps, m =>
    let (vs, m) := ofPlains ps m
    let (s, m) := m.newList vs
    (.list s, m)
  | .dict es, m =>
    let (ps, m) := ofMembers es m
    let (r, m) := m.ofPairs ps
    (.map r, m)

/-- The values of several data. -/
def ofPlains : List Plain → Memory → List Handle × Memory
  | [], m => ([], m)
  | p :: r, m =>
    let (v, m) := ofPlain p m
    let (vs, m) := ofPlains r m
    (v :: vs, m)

/-- The values of the data of a dictionary, with their names. -/
def ofMembers : List (Text × Plain) → Memory → List (Text × Handle) × Memory
  | [], m => ([], m)
  | (k, p) :: r, m =>
    let (v, m) := ofPlain p m
    let (ps, m) := ofMembers r m
    ((k, v) :: ps, m)

end

mutual

/-- A value put into memory. -/
def ofValue : Value → Memory → Handle × Memory
  | .null, m => (.null, m)
  | .undefined, m => (.undefined, m)
  | .bool b, m => (.bool b, m)
  | .number n, m => (.number n, m)
  | .str s, m => (.str s, m)
  | .func f, m => (.func f, m)
  | .list vs, m =>
    let (hs, m) := ofValues vs m
    let (s, m) := m.newList hs
    (.list s, m)
  | .map es, m =>
    let (ps, m) := ofEntries es m
    let (r, m) := m.ofPairs ps
    (.map r, m)

/-- Several values put into memory. -/
def ofValues : List Value → Memory → List Handle × Memory
  | [], m => ([], m)
  | v :: r, m =>
    let (h, m) := ofValue v m
    let (hs, m) := ofValues r m
    (h :: hs, m)

/-- Properties put into memory. -/
def ofEntries : List (Text × Value) → Memory → List (Text × Handle) × Memory
  | [], m => ([], m)
  | (k, v) :: r, m =>
    let (h, m) := ofValue v m
    let (ps, m) := ofEntries r m
    ((k, h) :: ps, m)

end

end Memory

/-! ### What a value refers to -/

/-- A value with all that it refers to: of an object the names and, apart from them, the table. -/
inductive Image where
  | null
  | undefined
  | bool (value : Bool)
  | number (value : Num)
  | str (value : Text)
  | func (f : Func)
  | list (items : List Image)
  | map (names : List Text) (table : List (Text × Image))

instance : Inhabited Image := ⟨.undefined⟩

/-- The image of a value.  What a piece refers to is older than the piece. -/
def Memory.image : Memory → Handle → Image
  | _, .null => .null
  | _, .undefined => .undefined
  | _, .bool b => .bool b
  | _, .number n => .number n
  | _, .str s => .str s
  | _, .func f => .func f
  | [], .list _ => .list []
  | [], .map _ => .map [] []
  | p :: m, .list s => .list ((items (p :: m) s).map fun v => image m v)
  | p :: m, .map r =>
    .map (keys (p :: m) r) ((entries (p :: m) r.table).map fun e => (e.1, image m e.2))

namespace Image

mutual

/-- Deep equality.  Objects are compared by how many names they have, and entry by entry of the
first table. -/
def equal : Image → Image → Bool
  | .null, .null => true
  | .undefined, .undefined => true
  | .bool a, .bool b => a == b
  | .number a, .number b => a.equal b
  | .str a, .str b => a == b
  | .list as, .list bs => equalItems as bs
  | .map ks as, .map ls bs => ks.length == ls.length && equalEntries as bs
  | .func f, .func g => f.same g
  | _, _ => false

/-- Equality of lists, item by item. -/
def equalItems : List Image → List Image → Bool
  | [], [] => true
  | a :: as, b :: bs => equal a b && equalItems as bs
  | _, _ => false

/-- Whether every entry is there with an equal value. -/
def equalEntries : List (Text × Image) → List (Text × Image) → Bool
  | [], _ => true
  | (k, a) :: r, bs =>
    (match Dict.get? bs k with
      | some b => equal a b
      | none => false) && equalEntries r bs

end

mutual

/-- The value that an image is of. -/
def toValue : Image → Value
  | .null => .null
  | .undefined => .undefined
  | .bool b => .bool b
  | .number n => .number n
  | .str s => .str s
  | .func f => .func f
  | .list as => .list (toValues as)
  | .map ks es => .map (ks.map fun k => (k, ((toEntries es).get? k).getD .undefined))

/-- The values of several images. -/
def toValues : List Image → List Value
  | [] => []
  | a :: r => toValue a :: toValues r

/-- The entries of a table with their values. -/
def toEntries : List (Text × Image) → Dict Value
  | [] => []
  | (k, a) :: r => (k, toValue a) :: toEntries r

end

end Image

/-- The value of what is handed around. -/
def Memory.value (m : Memory) (v : Handle) : Value := (m.image v).toValue

end Reactive
