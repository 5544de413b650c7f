/-
Operations on values in memory.

An object in memory has its names apart from its table, and nothing keeps the two
together but the operations: whatever they make, one after another, has the names
of its tables, each of them once.  What an operation makes in memory is what it
makes of values, for which an object is a list of properties.

* `Image.Sound` — objects with the names of their tables, at any depth;
* `Memory.Gives` — a value made in memory, for a value;
* `Memory.gives_insert`, `gives_ofPairs`, `gives_merge`, `gives_setItem`,
  `gives_ofValue` — the operations;
* `Memory.Op.gives`, `Memory.Desk.after_run` — one operation of a program, and
  operations one after another;
* `Memory.sets` — what a property that is set leaves alone.
-/
import Mathlib.Data.List.GetD
import Reactive.Proofs.Value.Memory
import Reactive.Proofs.Value.Orderly

namespace Reactive

/-! ### Images -/

namespace Image

/-- Induction on images: through lists and tables. -/
theorem induction {P : Image → Prop} (null : P .null) (undefined : P .undefined)
    (bool : ∀ b, P (.bool b)) (number : ∀ n, P (.number n)) (str : ∀ t, P (.str t))
    (func : ∀ f, P (.func f)) (list : ∀ as, (∀ a ∈ as, P a) → P (.list as))
    (map : ∀ (ks : List Text) (es : List (Text × Image)), (∀ e ∈ es, P e.2) → P (.map ks es)) :
    ∀ a, P a := by
  refine @Image.rec P (fun as => ∀ a ∈ as, P a) (fun es => ∀ e ∈ es, P e.2) (fun e => P e.2)
    null undefined bool number str func list map ?nil ?cons ?nilEntry ?consEntry ?entry
  case nil => intro a h; cases h
  case cons => intro a r ha hr; exact List.forall_mem_cons.2 ⟨ha, hr⟩
  case nilEntry => intro e h; cases h
  case consEntry => intro e r he hr; exact List.forall_mem_cons.2 ⟨he, hr⟩
  case entry => intro k a ha; exact ha

mutual

/-- Every object names each of its properties once, and its names are those of its table. -/
def Sound : Image → Prop
  | .list as => soundItems as
  | .map ks es => (Bound.mk ks es).Matched ∧ soundEntries es
  | _ => True

/-- The same of several images. -/
def soundItems : List Image → Prop
  | [] => True
  | a :: r => a.Sound ∧ soundItems r

/-- The same of what stands in a table. -/
def soundEntries : List (Text × Image) → Prop
  | [] => True
  | (_, a) :: r => a.Sound ∧ soundEntries r

end

theorem sound_list {as : List Image} : (Image.list as).Sound ↔ ∀ a ∈ as, a.Sound := by
  rw [Sound]
  induction as with
  | nil => simp [soundItems]
  | cons a r ih => rw [soundItems, ih, List.forall_mem_cons]

theorem sound_map {b : Bound Image} :
    (Image.map b.names b.table).Sound ↔ b.Matched ∧ ∀ e ∈ b.table, e.2.Sound := by
  have hentries : ∀ es, soundEntries es ↔ ∀ e ∈ es, e.2.Sound := by
    intro es
    induction es with
    | nil => simp [soundEntries]
    | cons e r ih =>
      obtain ⟨k, a⟩ := e
      rw [soundEntries, ih, List.forall_mem_cons]
  rw [Sound, hentries]

theorem toValue_list (as : List Image) : (Image.list as).toValue = .list (as.map toValue) := by
  rw [toValue]
  congr 1
  induction as with
  | nil => rfl
  | cons a r ih => rw [toValues, ih, List.map_cons]

theorem toEntries_eq (es : List (Text × Image)) :
    toEntries es = es.map fun e => (e.1, e.2.toValue) := by
  induction es with
  | nil => rfl
  | cons e r ih =>
    obtain ⟨k, a⟩ := e
    rw [toEntries, ih, List.map_cons]

theorem toValue_map (b : Bound Image) :
    (Image.map b.names b.table).toValue = .map (b.map toValue).toDict := by
  rw [toValue, toEntries_eq]
  rfl

theorem orderly_toValue {a : Image} (ha : a.Sound) : a.toValue.Orderly := by
  induction a using Image.induction with
  | list as ih =>
    rw [toValue_list, Value.orderly_list, List.forall_mem_map]
    exact fun a hmem => ih a hmem (sound_list.1 ha a hmem)
  | map ks es ih =>
    obtain ⟨hmatched, hes⟩ := sound_map (b := ⟨ks, es⟩).1 ha
    have hmatched' := Bound.matched_map (f := toValue).2 hmatched
    rw [toValue_map ⟨ks, es⟩, Value.orderly_map, Bound.keys_toDict]
    refine ⟨hmatched.nodup, fun p hp => ?_⟩
    obtain ⟨e, he, rfl⟩ := List.mem_map.1 (hmatched'.perm_toDict.mem_iff.1 hp)
    exact ih e he (hes e he)
  | _ => trivial

end Image

/-! ### Operations -/

namespace Memory

variable {m : Memory} {v : Handle}

/-- A value made from a memory, its objects with the names of their tables. -/
structure Gives (m : Memory) (x : Handle × Memory) (w : Value) : Prop extends Makes m x where
  image : (x.2.image x.1).Sound
  value : x.2.value x.1 = w

/-- A value that may be worked on: what it refers to is there, with the names of its tables. -/
structure Usable (m : Memory) (v : Handle) : Prop where
  below : v.Below m.length
  image : (m.image v).Sound

theorem Usable.gives {w : Value} (hv : m.Usable v) (hm : m.Sound) (h : m.value v = w) :
    Gives m (v, m) w :=
  ⟨makes_self hm hv.below, hv.image, h⟩

/-- A value made after others. -/
theorem Gives.after {m' : Memory} {x : Handle × Memory} {w : Value} (h : Gives m' x w)
    (hkeeps : Keeps m.length m m') : Gives m x w :=
  ⟨⟨hkeeps.trans (h.keeps.mono hkeeps.after), h.sound, h.below⟩, h.image, h.value⟩

theorem Gives.usable {x : Handle × Memory} {w : Value} (h : Gives m x w) : x.2.Usable x.1 :=
  ⟨h.below, h.image⟩

theorem gives_newList (hm : m.Sound) {vs : List Handle} (hvs : ∀ v ∈ vs, m.Usable v) :
    Gives m (.list (m.newList vs).1, (m.newList vs).2) (.list (vs.map m.value)) := by
  have himage := image_newList hm fun v hv => (hvs v hv).below
  refine ⟨makes_newList hm fun v hv => (hvs v hv).below, ?_, ?_⟩
  · rw [himage, Image.sound_list, List.forall_mem_map]
    exact fun v hv => (hvs v hv).image
  · rw [value, himage, Image.toValue_list, List.map_map]
    rfl

theorem Draft.gives {x : Record × Memory} {b : Bound Handle} (h : Draft m x b) (hm : m.Sound)
    (hb : b.Matched) (hes : ∀ e ∈ b.table, m.Usable e.2) :
    Gives m (.map x.1, x.2) (.map (b.map m.value).toDict) := by
  have himage := h.image hm fun e he => (hes e he).below
  refine ⟨h.makes, ?_, ?_⟩
  · rw [himage, Image.sound_map]
    exact ⟨Bound.matched_map.2 hb, List.forall_mem_map.2 fun e he => (hes e he).image⟩
  · rw [value, himage, Image.toValue_map, Bound.map, Bound.map, List.map_map]
    rfl

/-- What a usable object binds. -/
theorem Usable.bound {r : Record} (hr : m.Usable (.map r)) (hm : m.Sound) :
    (m.bound r).Matched ∧ (∀ e ∈ (m.bound r).table, m.Usable e.2) ∧
      m.value (.map r) = .map ((m.bound r).map m.value).toDict := by
  have himage : m.image (.map r) =
      .map ((m.bound r).map m.image).names ((m.bound r).map m.image).table := image_map hm r
  have hsound := hr.image
  rw [himage, Image.sound_map, Bound.matched_map] at hsound
  refine ⟨hsound.1, fun e he => ⟨?_, ?_⟩, ?_⟩
  · exact (hm.entries_below r.table e he).mono (Nat.le_of_lt hr.below.2)
  · exact hsound.2 _ (List.mem_map_of_mem he)
  · rw [value, himage, Image.toValue_map, Bound.map, Bound.map, List.map_map]
    rfl

theorem gives_insert (hm : m.Sound) {r : Record} (hr : m.Usable (.map r)) (k : Text)
    (hv : m.Usable v) : Gives m (.map (m.insert r k v).1, (m.insert r k v).2)
      (.map ((((m.bound r).map m.value).toDict).insert k (m.value v))) := by
  obtain ⟨hmatched, hes, -⟩ := hr.bound hm
  rw [← (Bound.matched_map.2 hmatched).toDict_set, ← Bound.map_set]
  refine (draft_insert hm hr.below k hv.below).gives hm (hmatched.set k v) fun e he => ?_
  rcases Bound.mem_set he with rfl | he
  · exact hv
  · exact hes e he

theorem gives_ofPairs (hm : m.Sound) {ps : List (Text × Handle)} (hps : ∀ p ∈ ps, m.Usable p.2) :
    Gives m (.map (m.ofPairs ps).1, (m.ofPairs ps).2)
      (Value.ofPairs (ps.map fun p => (p.1, m.value p.2))) := by
  rw [Value.ofPairs, ← Bound.toDict_ofPairs, ← Bound.map_ofPairs]
  exact (draft_ofPairs hm fun p hp => (hps p hp).below).gives hm (Bound.matched_ofPairs ps)
    fun e he => hps e (Bound.mem_ofPairs he)

/-- The properties of a usable value, as those of its value. -/
theorem Usable.properties (hv : m.Usable v) (hm : m.Sound) :
    (∀ p ∈ m.properties v, m.Usable p.2) ∧
      ((m.properties v).map fun p => (p.1, m.value p.2)) =
        match m.value v with
        | .map es => es
        | _ => [] := by
  cases v with
  | map r =>
    obtain ⟨hmatched, hes, hvalue⟩ := hv.bound hm
    have hprops : m.properties (.map r) = (m.bound r).toDict := rfl
    have hundefined : m.value default = default := by cases m <;> rfl
    rw [hvalue, hprops, Bound.toDict_map hundefined]
    exact ⟨fun p hp => hes p (hmatched.perm_toDict.mem_iff.1 hp), rfl⟩
  | _ => exact ⟨List.forall_mem_nil _, by cases m <;> rfl⟩

theorem gives_merge (hm : m.Sound) {vs : List Handle} (hvs : ∀ v ∈ vs, m.Usable v) :
    Gives m (.map (m.merge vs).1, (m.merge vs).2) (.map (mergeObjects (vs.map m.value))) := by
  -- Values are merged by reading all their properties first, objects in memory one by one.
  have hpairs : mergeObjects (vs.map m.value) =
      Dict.ofPairs ((vs.flatMap m.properties).map fun p => (p.1, m.value p.2)) := by
    rw [mergeObjects, List.flatMap_map, List.map_flatMap]
    congr 1
    exact (List.flatMap_congr fun v hv => ((hvs v hv).properties hm).2).symm
  rw [hpairs, ← Bound.toDict_ofPairs, ← Bound.map_ofPairs]
  refine (draft_merge hm fun v hv => (hvs v hv).below).gives hm (Bound.matched_ofPairs _)
    fun e he => ?_
  obtain ⟨v, hv, he⟩ := List.mem_flatMap.1 (Bound.mem_ofPairs he)
  exact ((hvs v hv).properties hm).1 e he

/-- What was usable stays usable, and its value stays. -/
theorem Usable.later {m' : Memory} (hv : m.Usable v) (hm : m.Sound) (h : Keeps m.length m m') :
    m'.Usable v ∧ m'.value v = m.value v := by
  have himage := h.image hm hv.below
  exact ⟨⟨hv.below.mono h.after, himage ▸ hv.image⟩, congrArg Image.toValue himage⟩

mutual

/-- **A value put into memory** is there. -/
theorem gives_ofValue : ∀ (v : Value) {m : Memory}, m.Sound → v.Orderly → Gives m (ofValue v m) v
  | .null, m, hm, _ | .undefined, m, hm, _ | .bool _, m, hm, _ | .number _, m, hm, _
  | .str _, m, hm, _ | .func _, m, hm, _ =>
    ⟨makes_self hm trivial, by cases m <;> trivial, by cases m <;> rfl⟩
  | .list vs, m, hm, hv => by
    obtain ⟨hkeeps, hsound, husable, hvalues⟩ := gives_ofValues vs hm (Value.orderly_list.1 hv)
    have hgives := gives_newList hsound husable
    rw [hvalues] at hgives
    exact hgives.after hkeeps
  | .map es, m, hm, hv => by
    obtain ⟨hkeys, hes⟩ := Value.orderly_map.1 hv
    obtain ⟨hkeeps, hsound, husable, hvalues⟩ := gives_ofEntries es hm hes
    have hgives := gives_ofPairs hsound husable
    rw [hvalues, Value.ofPairs, Dict.ofPairs_of_nodup hkeys] at hgives
    exact hgives.after hkeeps

theorem gives_ofValues : ∀ (vs : List Value) {m : Memory}, m.Sound → (∀ v ∈ vs, v.Orderly) →
    Keeps m.length m (ofValues vs m).2 ∧ (ofValues vs m).2.Sound ∧
      (∀ h ∈ (ofValues vs m).1, (ofValues vs m).2.Usable h) ∧
      (ofValues vs m).1.map (ofValues vs m).2.value = vs
  | [], m, hm, _ => ⟨.refl m, hm, List.forall_mem_nil _, rfl⟩
  | v :: r, m, hm, hvs => by
    obtain ⟨hv, hr⟩ := List.forall_mem_cons.1 hvs
    have hgives := gives_ofValue v hm hv
    obtain ⟨hkeeps, hsound, husable, hvalues⟩ := gives_ofValues r hgives.sound hr
    obtain ⟨hlater, hvalue⟩ := hgives.usable.later hgives.sound hkeeps
    refine ⟨hgives.keeps.trans (hkeeps.mono hgives.keeps.after), hsound,
      List.forall_mem_cons.2 ⟨hlater, husable⟩, ?_⟩
    exact congrArg₂ List.cons (hvalue.trans hgives.value) hvalues

theorem gives_ofEntries : ∀ (es : List (Text × Value)) {m : Memory}, m.Sound →
    (∀ e ∈ es, e.2.Orderly) →
    Keeps m.length m (ofEntries es m).2 ∧ (ofEntries es m).2.Sound ∧
      (∀ p ∈ (ofEntries es m).1, (ofEntries es m).2.Usable p.2) ∧
      ((ofEntries es m).1.map fun p => (p.1, (ofEntries es m).2.value p.2)) = es
  | [], m, hm, _ => ⟨.refl m, hm, List.forall_mem_nil _, rfl⟩
  | (k, v) :: r, m, hm, hes => by
    obtain ⟨hv, hr⟩ := List.forall_mem_cons.1 hes
    have hgives := gives_ofValue v hm hv
    obtain ⟨hkeeps, hsound, husable, hvalues⟩ := gives_ofEntries r hgives.sound hr
    obtain ⟨hlater, hvalue⟩ := hgives.usable.later hgives.sound hkeeps
    refine ⟨hgives.keeps.trans (hkeeps.mono hgives.keeps.after), hsound,
      List.forall_mem_cons.2 ⟨hlater, husable⟩, ?_⟩
    exact congrArg₂ List.cons (congrArg (k, ·) (hvalue.trans hgives.value)) hvalues

end

mutual

/-- Plain data are put into memory as their value is. -/
theorem ofPlain_eq : ∀ (p : Plain) (m : Memory), ofPlain p m = ofValue p.toValue m
  | .null, _ | .bool _, _ | .int _, _ | .float _, _ | .str _, _ => rfl
  | .list ps, m => by rw [ofPlain, ofPlains_eq ps m, Plain.toValue, ofValue]
  | .dict es, m => by rw [ofPlain, ofMembers_eq es m, Plain.toValue, ofValue]

theorem ofPlains_eq : ∀ (ps : List Plain) (m : Memory),
    ofPlains ps m = ofValues (Plain.toValues ps) m
  | [], _ => rfl
  | p :: r, m => by
    simp only [ofPlains, ofPlain_eq p m, ofPlains_eq r, Plain.toValues, ofValues]

theorem ofMembers_eq : ∀ (es : List (Text × Plain)) (m : Memory),
    ofMembers es m = ofEntries (Plain.toEntries es) m
  | [], _ => rfl
  | (k, p) :: r, m => by
    simp only [ofMembers, ofPlain_eq p m, ofMembers_eq r, Plain.toEntries, ofEntries]

end

theorem gives_ofPlain (hm : m.Sound) {p : Plain} (hp : p.Keyed) : Gives m (ofPlain p m) p.toValue :=
  ofPlain_eq p m ▸ gives_ofValue p.toValue hm (p.orderly_toValue hp)

theorem map_itemsSet {s : Slice} (f : Handle → Value) (hf : f .undefined = .undefined) (i : Nat)
    (v : Handle) : (m.itemsSet s i v).map f = Value.setItem ((m.items s).map f) i (f v) := by
  rw [itemsSet, List.map_set, List.map_append, List.map_replicate, hf, Value.setItem,
    List.length_map]
  split
  · rename_i hi
    rw [Nat.sub_eq_zero_of_le hi, List.replicate_zero, List.append_nil]
  · rename_i hi
    have hgap : i + 1 - (m.items s).length = (i - (m.items s).length) + 1 := by omega
    rw [hgap, List.replicate_succ', ← List.append_assoc, List.set_append_right _ _ (by simp; omega)]
    congr 1
    simp [Nat.add_sub_cancel' (Nat.le_of_not_lt hi)]

theorem Usable.items {s : Slice} (hs : m.Usable (.list s)) (hm : m.Sound) :
    (∀ v ∈ m.items s, m.Usable v) ∧ m.value (.list s) = .list ((m.items s).map m.value) := by
  have himages := hs.image
  rw [image_list hm, Image.sound_list, List.forall_mem_map] at himages
  refine ⟨fun v hv => ⟨items_below hm hs.below v hv, himages v hv⟩, ?_⟩
  rw [value, image_list hm, Image.toValue_list, List.map_map]
  rfl

theorem usable_undefined (m : Memory) : m.Usable .undefined := ⟨trivial, by cases m <;> trivial⟩

theorem value_undefined (m : Memory) : m.value .undefined = .undefined := by cases m <;> rfl

theorem gives_setItem (hm : m.Sound) {s : Slice} (hs : m.Usable (.list s)) (i : Nat)
    (hv : m.Usable v) : Gives m (.list (m.setItem s i v).1, (m.setItem s i v).2)
      (.list (Value.setItem ((m.items s).map m.value) i (m.value v))) := by
  rw [← map_itemsSet m.value m.value_undefined]
  refine gives_newList hm fun w hw => ?_
  rcases List.mem_or_eq_of_mem_set hw with hw | rfl
  · rcases List.mem_append.1 hw with hw | hw
    · exact (hs.items hm).1 w hw
    · rw [List.eq_of_mem_replicate hw]
      exact m.usable_undefined
  · exact hv

theorem gives_append (hm : m.Sound) {s : Slice} (hs : m.Usable (.list s)) {vs : List Handle}
    (hvs : ∀ v ∈ vs, m.Usable v) : Gives m (.list (m.append s vs).1, (m.append s vs).2)
      (.list ((m.items s).map m.value ++ vs.map m.value)) := by
  rw [← List.map_append]
  refine gives_newList hm fun w hw => ?_
  rcases List.mem_append.1 hw with hw | hw
  · exact (hs.items hm).1 w hw
  · exact hvs w hw

theorem exists_of_value_list {vs : List Value} (h : m.value v = .list vs) : ∃ s, v = .list s := by
  cases v with
  | list s => exact ⟨s, rfl⟩
  | _ => cases m <;> cases h

theorem exists_of_value_map {es : Dict Value} (h : m.value v = .map es) : ∃ r, v = .map r := by
  cases v with
  | map r => exact ⟨r, rfl⟩
  | _ => cases m <;> cases h

theorem Usable.getD {vs : List Handle} (hvs : ∀ v ∈ vs, m.Usable v) (i : Nat) :
    m.Usable (vs.getD i .undefined) := by
  rw [List.getD_eq_getElem?_getD]
  cases hi : vs[i]? with
  | none => exact m.usable_undefined
  | some v => exact hvs v (List.mem_of_getElem? hi)

/-- What a name stands for in a usable object. -/
theorem Usable.property {r : Record} (hr : m.Usable (.map r)) (hm : m.Sound) (k : Text) :
    m.Usable ((m.get? r k).getD .undefined) ∧ m.value ((m.get? r k).getD .undefined) =
      (Dict.get? ((m.bound r).map m.value).toDict k).getD .undefined := by
  obtain ⟨hmatched, hes, -⟩ := hr.bound hm
  rw [(Bound.matched_map.2 hmatched).get?_toDict, Bound.map, Dict.get?_map_snd]
  show m.Usable (((m.bound r).table.get? k).getD _) ∧
    m.value (((m.bound r).table.get? k).getD _) = _
  cases hk : (m.bound r).table.get? k with
  | none => exact ⟨m.usable_undefined, m.value_undefined⟩
  | some v => exact ⟨hes _ (Dict.mem_of_get? hk), rfl⟩

/-! ### Operations one after another -/

/-- An operation.  What it works on is given by places among the values at hand. -/
inductive Op where
  | literal (l : Literal)
  | func (f : Func)
  | list (places : List Nat)
  | setItem (place index item : Nat)
  | append (place : Nat) (items : List Nat)
  | newMap
  | ofPairs (pairs : List (Text × Nat))
  | insert (place : Nat) (name : Text) (property : Nat)
  | item (place index : Nat)
  | property (place : Nat) (name : Text)
  | ofPlain (p : { p : Plain // p.Keyed })
  /-- A document read. -/
  | parse (t : Text)
  | merge (places : List Nat)

/-- A memory, and the values at hand. -/
structure Desk where
  memory : Memory := []
  hand : List Handle := []

/-- What lies at a place. -/
def Desk.held (d : Desk) (place : Nat) : Handle := d.hand.getD place .undefined

/-- A constant. -/
def ofLiteral : Literal → Handle
  | .null => .null
  | .undefined => .undefined
  | .bool b => .bool b
  | .number n => .number n
  | .str s => .str s

/-- The plain data of a document. -/
def readPlain? (t : Text) : Option Plain :=
  (Json.read t).toOption.bind fun j => (Plain.ofJson j).toOption

/-- What is made of the list at a place; anything else is given back as it is. -/
def Desk.onList (d : Desk) (place : Nat) (f : Slice → Handle × Memory) : Handle × Memory :=
  match d.held place with
  | .list s => f s
  | v => (v, d.memory)

/-- What is made of the object at a place; anything else is given back as it is. -/
def Desk.onObject (d : Desk) (place : Nat) (f : Record → Handle × Memory) : Handle × Memory :=
  match d.held place with
  | .map r => f r
  | v => (v, d.memory)

/-- A list that was made. -/
def ofList (x : Slice × Memory) : Handle × Memory := (.list x.1, x.2)

/-- An object that was made. -/
def ofObject (x : Record × Memory) : Handle × Memory := (.map x.1, x.2)

/-- An operation carried out. -/
def Op.perform (d : Desk) : Op → Handle × Memory
  | .literal l => (ofLiteral l, d.memory)
  | .func f => (.func f, d.memory)
  | .list is => ofList (d.memory.newList (is.map d.held))
  | .setItem i n j => d.onList i fun s => ofList (d.memory.setItem s n (d.held j))
  | .append i js => d.onList i fun s => ofList (d.memory.append s (js.map d.held))
  | .newMap => ofObject d.memory.newMap
  | .ofPairs ps => ofObject (d.memory.ofPairs (ps.map fun p => (p.1, d.held p.2)))
  | .insert i k j => d.onObject i fun r => ofObject (d.memory.insert r k (d.held j))
  | .item i n => d.onList i fun s => ((d.memory.items s).getD n .undefined, d.memory)
  | .property i k => d.onObject i fun r => ((d.memory.get? r k).getD .undefined, d.memory)
  | .ofPlain p => Memory.ofPlain p.1 d.memory
  | .parse t =>
    match readPlain? t with
    | some p => Memory.ofPlain p d.memory
    | none => (.undefined, d.memory)
  | .merge is => ofObject (d.memory.merge (is.map d.held))

/-- What is made of the items of a list; anything else is given back as it is. -/
def onItems (v : Value) (f : List Value → Value) : Value :=
  match v with
  | .list us => f us
  | v => v

/-- What is made of the properties of an object; anything else is given back as it is. -/
def onEntries (v : Value) (f : Dict Value → Value) : Value :=
  match v with
  | .map es => f es
  | v => v

/-- An operation on values. -/
def Op.value (vs : List Value) : Op → Value
  | .literal l => l.value
  | .func f => .func f
  | .list is => .list (is.map (vs.getD · .undefined))
  | .setItem i n j => onItems (vs.getD i .undefined) fun us =>
    .list (Value.setItem us n (vs.getD j .undefined))
  | .append i js => onItems (vs.getD i .undefined) fun us =>
    .list (us ++ js.map (vs.getD · .undefined))
  | .newMap => .map []
  | .ofPairs ps => Value.ofPairs (ps.map fun p => (p.1, vs.getD p.2 .undefined))
  | .insert i k j => onEntries (vs.getD i .undefined) fun es =>
    .map (es.insert k (vs.getD j .undefined))
  | .item i n => onItems (vs.getD i .undefined) fun us => us.getD n .undefined
  | .property i k => onEntries (vs.getD i .undefined) fun es => (es.get? k).getD .undefined
  | .ofPlain p => p.1.toValue
  | .parse t => (parseJson t).toOption.getD .undefined
  | .merge is => .map (mergeObjects (is.map (vs.getD · .undefined)))

/-- Operations on values, one after another. -/
def Op.values (ops : List Op) : List Value := ops.foldl (fun vs op => vs ++ [op.value vs]) []

namespace Desk

/-- The values at hand. -/
def values (d : Desk) : List Value := d.hand.map d.memory.value

/-- An operation whose result is taken to hand. -/
def step (d : Desk) (op : Op) : Desk where
  memory := (op.perform d).2
  hand := d.hand ++ [(op.perform d).1]

/-- Operations one after another. -/
def run (d : Desk) (ops : List Op) : Desk := ops.foldl step d

/-- What is at hand may be worked on. -/
structure Fit (d : Desk) : Prop where
  sound : d.memory.Sound
  usable : ∀ v ∈ d.hand, d.memory.Usable v

variable {d : Desk}

theorem Fit.held (hd : d.Fit) (i : Nat) : d.memory.Usable (d.held i) := Usable.getD hd.usable i

theorem Fit.held_all (hd : d.Fit) (is : List Nat) : ∀ v ∈ is.map d.held, d.memory.Usable v :=
  List.forall_mem_map.2 fun i _ => hd.held i

theorem getD_values (d : Desk) (i : Nat) :
    d.values.getD i .undefined = d.memory.value (d.held i) := by
  have hmap := List.getD_map d.hand .undefined (n := i) d.memory.value
  rwa [value_undefined] at hmap

theorem map_getD_values (d : Desk) (is : List Nat) :
    is.map (d.values.getD · .undefined) = (is.map d.held).map d.memory.value := by
  rw [List.map_map]
  exact List.map_congr_left fun i _ => d.getD_values i

end Desk

theorem parseJson_eq (t : Text) :
    (parseJson t).toOption = (readPlain? t).map Plain.toValue := by
  unfold parseJson readPlain?
  cases Json.read t with
  | error e => rfl
  | ok j => cases hj : Plain.ofJson j <;> simp [Except.toOption, hj]

theorem keyed_readPlain {t : Text} {p : Plain} (h : readPlain? t = some p) : p.Keyed := by
  unfold readPlain? at h
  obtain ⟨j, -, hj⟩ := Option.bind_eq_some_iff.1 h
  cases hp : Plain.ofJson j with
  | error e => rw [hp] at hj; cases hj
  | ok q =>
    rw [hp] at hj
    cases hj
    exact Plain.keyed_ofJson j p hp

theorem value_ofLiteral (m : Memory) (l : Literal) :
    m.Usable (ofLiteral l) ∧ m.value (ofLiteral l) = l.value := by
  cases l <;> exact ⟨⟨trivial, by cases m <;> trivial⟩, by cases m <;> rfl⟩

theorem gives_onList {d : Desk} (hd : d.Fit) (i : Nat) {f : Slice → Handle × Memory}
    {g : List Value → Value} (h : ∀ s, d.memory.Usable (.list s) →
      Gives d.memory (f s) (g ((d.memory.items s).map d.memory.value))) :
    Gives d.memory (d.onList i f) (onItems (d.values.getD i .undefined) g) := by
  have hi := hd.held i
  rw [d.getD_values]
  unfold Desk.onList onItems
  split
  · rename_i s hs
    rw [hs] at hi ⊢
    rw [(hi.items hd.sound).2]
    exact h s hi
  · -- What is not a list in memory is not a list as a value: both sides give it back.
    rename_i v hv
    split
    · rename_i us hus
      obtain ⟨s, hs⟩ := exists_of_value_list hus
      exact absurd hs (hv s)
    · exact hi.gives hd.sound rfl

theorem gives_onObject {d : Desk} (hd : d.Fit) (i : Nat) {f : Record → Handle × Memory}
    {g : Dict Value → Value} (h : ∀ r, d.memory.Usable (.map r) →
      Gives d.memory (f r) (g ((d.memory.bound r).map d.memory.value).toDict)) :
    Gives d.memory (d.onObject i f) (onEntries (d.values.getD i .undefined) g) := by
  have hi := hd.held i
  rw [d.getD_values]
  unfold Desk.onObject onEntries
  split
  · rename_i r hr
    rw [hr] at hi ⊢
    rw [(hi.bound hd.sound).2.2]
    exact h r hi
  · rename_i v hv
    split
    · rename_i es hes
      obtain ⟨r, hr⟩ := exists_of_value_map hes
      exact absurd hr (hv r)
    · exact hi.gives hd.sound rfl

/-- **An operation in memory** makes what the operation on values makes. -/
theorem Op.gives {d : Desk} (hd : d.Fit) (op : Op) :
    Gives d.memory (op.perform d) (op.value d.values) := by
  have hm := hd.sound
  cases op with
  | literal l =>
    obtain ⟨husable, hvalue⟩ := value_ofLiteral d.memory l
    exact husable.gives hm hvalue
  | func f =>
    have husable : d.memory.Usable (.func f) := ⟨trivial, by cases d.memory <;> trivial⟩
    exact husable.gives hm (by cases d.memory <;> rfl)
  | list is =>
    rw [Op.value, d.map_getD_values]
    exact gives_newList hm (hd.held_all is)
  | setItem i n j =>
    rw [Op.value, d.getD_values j]
    exact gives_onList hd i fun s hs => gives_setItem hm hs n (hd.held j)
  | append i js =>
    rw [Op.value, d.map_getD_values]
    exact gives_onList hd i fun s hs => gives_append hm hs (hd.held_all js)
  | newMap => exact (draft_newMap hm).gives hm Bound.matched_empty (List.forall_mem_nil _)
  | ofPairs ps =>
    have hpairs : (ps.map fun p => (p.1, d.values.getD p.2 .undefined)) =
        (ps.map fun p => (p.1, d.held p.2)).map fun p => (p.1, d.memory.value p.2) := by
      rw [List.map_map]
      exact List.map_congr_left fun p _ => congrArg (p.1, ·) (d.getD_values p.2)
    rw [Op.value, hpairs]
    exact gives_ofPairs hm (List.forall_mem_map.2 fun p _ => hd.held p.2)
  | insert i k j =>
    rw [Op.value, d.getD_values j]
    exact gives_onObject hd i fun r hr => gives_insert hm hr k (hd.held j)
  | item i n =>
    refine gives_onList hd i fun s hs => ?_
    have hget := List.getD_map (d.memory.items s) .undefined (n := n) d.memory.value
    rw [value_undefined] at hget
    exact (Usable.getD (hs.items hm).1 n).gives hm hget.symm
  | property i k =>
    refine gives_onObject hd i fun r hr => ?_
    obtain ⟨husable, hvalue⟩ := hr.property hm k
    exact husable.gives hm hvalue
  | ofPlain p => exact gives_ofPlain hm p.2
  | parse t =>
    rw [perform, Op.value, parseJson_eq]
    cases hp : readPlain? t with
    | none => exact d.memory.usable_undefined.gives hm d.memory.value_undefined
    | some p => exact gives_ofPlain hm (keyed_readPlain hp)
  | merge is =>
    rw [Op.value, d.map_getD_values]
    exact gives_merge hm (hd.held_all is)

namespace Desk

variable {d : Desk}

/-- What one operation leaves of what is at hand. -/
theorem after_step (hd : d.Fit) (op : Op) :
    (d.step op).Fit ∧ Keeps d.memory.length d.memory (d.step op).memory ∧
      (d.step op).values = d.values ++ [op.value d.values] := by
  have hgives := op.gives hd
  -- What is made leaves the memory before it alone, and with it all that was at hand.
  have hlater := fun v hv => (hd.usable v hv).later hd.sound hgives.keeps
  refine ⟨⟨hgives.sound, fun v hv => ?_⟩, hgives.keeps, ?_⟩
  · rcases List.mem_append.1 hv with hv | hv
    · exact (hlater v hv).1
    · rw [List.mem_singleton.1 hv]
      exact hgives.usable
  · rw [values, step, List.map_append, List.map_singleton, hgives.value]
    congr 1
    exact List.map_congr_left fun v hv => (hlater v hv).2

/-- What operations leave of what is at hand. -/
theorem after_run (ops : List Op) : ∀ {d : Desk}, d.Fit →
    (d.run ops).Fit ∧ Keeps d.memory.length d.memory (d.run ops).memory ∧
      d.hand <+: (d.run ops).hand ∧
      (d.run ops).values = ops.foldl (fun vs op => vs ++ [op.value vs]) d.values := by
  induction ops with
  | nil => exact fun hd => ⟨hd, .refl _, List.prefix_rfl, rfl⟩
  | cons op ops ih =>
    intro d hd
    obtain ⟨hfit, hkeeps, hvalues⟩ := after_step hd op
    obtain ⟨hfit', hkeeps', hhand, hvalues'⟩ := ih hfit
    refine ⟨hfit', hkeeps.trans (hkeeps'.mono hkeeps.after), ?_, ?_⟩
    · exact (List.prefix_append _ _).trans hhand
    · rw [List.foldl_cons, ← hvalues]
      exact hvalues'

theorem fit_empty : Fit {} := ⟨sound_nil, List.forall_mem_nil _⟩

end Desk

/-- What operations one after another leave, from nothing. -/
def Op.performAll (ops : List Op) : Desk := Desk.run {} ops

/-- A property set in an object: it is read back; the other properties and the order of the names
stay, a new name goes behind them; and nothing that was there changes. -/
structure Sets (m : Memory) (r : Record) (k : Text) (v : Handle) : Prop where
  found : (m.insert r k v).2.get? (m.insert r k v).1 k = some v
  others : ∀ j, j ≠ k → (m.insert r k v).2.get? (m.insert r k v).1 j = m.get? r j
  order : (m.insert r k v).2.keys (m.insert r k v).1 =
    if k ∈ m.keys r then m.keys r else m.keys r ++ [k]
  origin : (m.insert r k v).2.keys r = m.keys r ∧ (m.insert r k v).2.get? r = m.get? r
  images : ∀ u : Handle, u.Below m.length → (m.insert r k v).2.image u = m.image u

theorem sets (hm : m.Sound) {r : Record} (hr : m.Usable (.map r)) (k : Text)
    (hv : v.Below m.length) :
    m.Sets r k v := by
  have hdraft := draft_insert hm hr.below k hv
  have hget : ∀ j, (m.insert r k v).2.get? (m.insert r k v).1 j =
      if k = j then some v else m.get? r j := fun j =>
    (hdraft.get? j).trans (Bound.get?_set _ k v j)
  refine ⟨by rw [hget, if_pos rfl], fun j hj => by rw [hget, if_neg hj.symm], ?_, ⟨?_, ?_⟩,
    fun u hu => hdraft.keeps.image hm hu⟩
  · rw [hdraft.keys]
    exact if_congr ((hr.bound hm).1.same k).symm rfl rfl
  · exact hdraft.keeps.names hr.below.1
  · funext j
    rw [get?, get?, hdraft.keeps.entries hr.below.2]

end Memory

end Reactive
