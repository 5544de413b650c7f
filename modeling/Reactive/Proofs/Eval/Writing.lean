/-
What a write to a part of a value leaves alone.

Reads and writes walk along the same steps.  Where a write gets to the end of
its steps, a read along them gets what was written, and a read that leaves
them at some step gets what it got before: the item or property it turns to
there is another one.  Only what a list makes of all its items shows the
write, which is its length, if the list grew, and its methods.

* `Step.part_withPart`, `Step.read_withPart` — one step;
* `readLinks_withPartAt` — a read that leaves the steps of a write;
* `Expr.Names.link_eq` — a read of a target whose index values are fixed;
* `Memory.gives_writeAt` — a write in memory, which changes nothing that was
  there;
* `assignment_writes_part` — a whole assignment over a store that may be
  written.
-/
import Reactive.Proofs.Eval.Chain
import Reactive.Proofs.Eval.Scoping
import Reactive.Proofs.Eval.Target
import Reactive.Proofs.Value.Operations

namespace Reactive

variable {ω : Type}

namespace Value

/-! ### Items and properties -/

/-- What a step turns to: an item of a list or a character of a string, or a property. -/
inductive Slot where
  | property (name : Text)
  | item (i : Nat)

/-- The item or property that a step turns to in a value. -/
def Step.slot (v : Value) : Step → Slot
  | .member name => .property name
  | .item key =>
    match v, indexOf? key with
    | .list _, some i | .str _, some i => .item i
    | _, _ => .property key.toText

/-- A read of one step. -/
def Step.read (v : Value) : Step → Eval ω Value
  | .member name => Reactive.member v name
  | .item key => itemAt v key

/-- What is read has nothing to do with what is written.  A list makes its methods and its length
of all its items; the length stays if the item that is written was there. -/
structure Slot.Apart (v : Value) (written read : Slot) : Prop where
  ne : read ≠ written
  method : ∀ vs name, v = .list vs → read = .property name → ∀ m ∈ ListMethod.all, m.name ≠ name
  length : ∀ vs i, v = .list vs → read = .property "length" → written = .item i → i < vs.length

theorem length_setItem (vs : List Value) (i : Nat) (v : Value) :
    (setItem vs i v).length = max vs.length (i + 1) := by
  rw [setItem]
  split
  · rw [List.length_set]
    omega
  · simp only [List.length_append, List.length_replicate, List.length_singleton]
    omega

/-- An item of a list after a write; items in a gap are undefined. -/
theorem item_setItem (vs : List Value) (i j : Nat) (v : Value) :
    item (setItem vs i v) j = if j = i then v else item vs j := by
  have hnat (ws : List Value) : item ws j = ws.getD j .undefined := by
    rw [item, if_neg (by omega), Int.toNat_natCast]
  rw [hnat, hnat, setItem, List.getD_eq_getElem?_getD, List.getD_eq_getElem?_getD]
  by_cases hi : i < vs.length
  · rw [if_pos hi, List.getElem?_set]
    by_cases hj : j = i
    · simp [hj, hi]
    · simp [hj, Ne.symm hj]
  · rw [if_neg hi, List.append_assoc, List.getElem?_append]
    by_cases hj : j < vs.length
    · rw [if_pos hj, if_neg (by omega)]
    · rw [if_neg hj, List.getElem?_append, List.getElem?_replicate, List.length_replicate,
        List.getElem?_eq_none (l := vs) (by omega), Option.getD_none, List.getElem?_singleton]
      by_cases hlt : j < i
      · rw [if_pos (by omega), if_pos (by omega), if_neg (by omega), Option.getD_some]
      · rw [if_neg (by omega)]
        by_cases hj : j = i
        · rw [if_pos (by omega), if_pos hj, Option.getD_some]
        · rw [if_neg (by omega), if_neg hj, Option.getD_none]

/-! ### One step -/

namespace Step

variable {v w : Value} {s s' : Step} {es : List (Text × Value)} {vs : List Value} {key : Value}
  {i : Nat}

/-- The property that a step turns to in an object. -/
def name : Step → Text
  | .member name => name
  | .item key => key.toText

@[simp] theorem slot_map (s : Step) (es : List (Text × Value)) :
    s.slot (.map es) = .property s.name := by
  cases s <;> rfl

@[simp] theorem part_map (s : Step) (es : List (Text × Value)) :
    s.part (.map es) = .ok ((Dict.get? es s.name).getD .undefined) := by
  cases s <;> rfl

@[simp] theorem withPart_map (s : Step) (es : List (Text × Value)) (new : Value) :
    s.withPart (.map es) new = .map (Dict.insert es s.name new) := by
  cases s <;> rfl

@[simp] theorem read_map (s : Step) (es : List (Text × Value)) :
    (s.read (.map es) : Eval ω Value) = pure ((Dict.get? es s.name).getD .undefined) := by
  cases s <;> rfl

theorem slot_list (key : Value) (vs : List Value) : (Step.item key).slot (.list vs) =
    match indexOf? key with
      | some i => .item i
      | none => .property key.toText := by
  cases hkey : indexOf? key <;> simp only [slot, hkey]

theorem part_list (h : indexOf? key = some i) (vs : List Value) :
    (Step.item key).part (.list vs) = .ok (Value.item vs i) := by
  rw [part, h]

theorem withPart_list (h : indexOf? key = some i) (vs : List Value) (new : Value) :
    (Step.item key).withPart (.list vs) new = .list (setItem vs i new) := by
  rw [withPart, h]

/-- A step that turns to an item of a list reads that item. -/
theorem read_item (h : s.slot (.list vs) = .item i) :
    (s.read (.list vs) : Eval ω Value) = pure (Value.item vs i) := by
  cases s with
  | member name => cases h
  | item key =>
    rw [slot_list] at h
    cases hkey : indexOf? key with
    | none => simp [hkey] at h
    | some j =>
      obtain rfl : j = i := by simpa [hkey] using h
      simp only [read, itemAt, hkey]

/-- A step that turns to a property of a list reads that property. -/
theorem read_property {name : Text} (h : s.slot (.list vs) = .property name) :
    (s.read (.list vs) : Eval ω Value) = Reactive.member (.list vs) name := by
  cases s with
  | member other =>
    cases h
    rfl
  | item key =>
    rw [slot_list] at h
    cases hkey : indexOf? key with
    | some j => simp [hkey] at h
    | none =>
      obtain rfl : key.toText = name := by simpa [hkey] using h
      simp only [read, itemAt, hkey]

/-- A part can be written in an object, and at an index in a list. -/
theorem of_part_eq_ok (h : s.part v = .ok w) :
    (∃ es, v = .map es) ∨ ∃ vs key i, v = .list vs ∧ s = .item key ∧ indexOf? key = some i := by
  cases v with
  | map es => exact .inl ⟨es, rfl⟩
  | list vs =>
    cases s with
    | member name => cases h
    | item key =>
      cases hkey : indexOf? key with
      | some i => exact .inr ⟨vs, key, i, rfl, rfl, hkey⟩
      | none =>
        rw [part, hkey] at h
        cases h
  | _ => cases s <;> cases h

/-- What is written is found again. -/
theorem part_withPart (h : s.part v = .ok w) (new : Value) :
    s.part (s.withPart v new) = .ok new := by
  rcases of_part_eq_ok h with ⟨es, rfl⟩ | ⟨vs, key, i, rfl, rfl, hkey⟩
  · simp [Dict.get?_insert]
  · rw [withPart_list hkey, part_list hkey, item_setItem, if_pos rfl]

/-- A write to a part leaves the kind of value that it is a part of. -/
theorem slot_withPart (h : s.part v = .ok w) (new : Value) (s' : Step) :
    s'.slot (s.withPart v new) = s'.slot v := by
  rcases of_part_eq_ok h with ⟨es, rfl⟩ | ⟨vs, key, i, rfl, rfl, hkey⟩
  · simp
  · rw [withPart_list hkey]
    cases s' with
    | member name => rfl
    | item other => rw [slot_list, slot_list]

theorem not_nullish_of_part (h : s.part v = .ok w) : v.isNullish = false := by
  rcases of_part_eq_ok h with ⟨es, rfl⟩ | ⟨vs, key, i, rfl, -, -⟩ <;> rfl

/-- A step that turns to the same item or property reads it. -/
theorem read_of_part (h : s.part v = .ok w) (hslot : s'.slot v = s.slot v) :
    (s'.read v : Eval ω Value) = pure w := by
  rcases of_part_eq_ok h with ⟨es, rfl⟩ | ⟨vs, key, i, rfl, rfl, hkey⟩
  · simp only [slot_map, Slot.property.injEq] at hslot
    simp only [part_map, Except.ok.injEq] at h
    rw [read_map, hslot, h]
  · rw [part_list hkey, Except.ok.injEq] at h
    rw [slot_list, hkey] at hslot
    rw [read_item hslot, h]

/-- **A write to a part leaves what is apart from it.** -/
theorem read_withPart (h : s.part v = .ok w) (new : Value)
    (hapart : Slot.Apart v (s.slot v) (s'.slot v)) :
    (s'.read (s.withPart v new) : Eval ω Value) = s'.read v := by
  have hsame := slot_withPart h new s'
  rcases of_part_eq_ok h with ⟨es, rfl⟩ | ⟨vs, key, i, rfl, rfl, hkey⟩
  · have hne : s.name ≠ s'.name := fun hname => hapart.ne (by simp [hname])
    simp [Dict.get?_insert, hne]
  · rw [withPart_list hkey] at hsame ⊢
    have hwritten : (Step.item key).slot (.list vs) = .item i := by rw [slot_list, hkey]
    cases hread : s'.slot (.list vs) with
    | item j =>
      have hne : j ≠ i := fun hj => hapart.ne (by rw [hread, hwritten, hj])
      rw [read_item (hsame.trans hread), read_item hread, item_setItem, if_neg hne]
    | property name =>
      rw [read_property (hsame.trans hread), read_property hread]
      have hmethod := hapart.method vs name rfl hread
      have hfind : (ListMethod.all.find? fun m => m.name == name) = none :=
        List.find?_eq_none.2 fun m hm => by simpa using hmethod m hm
      simp only [Reactive.member, hfind]
      by_cases hlength : name = "length"
      · have hlt := hapart.length vs i rfl (hlength ▸ hread) hwritten
        rw [length_setItem, Nat.max_eq_left hlt]
      · simp only [if_neg hlength]

end Step

/-! ### Several steps -/

/-- What is written at the end of some steps is found there. -/
theorem partAt_withPartAt {v w : Value} {path : List Step} (h : v.partAt path = .ok w)
    (new : Value) : (v.withPartAt new path).partAt path = .ok new := by
  induction path generalizing v with
  | nil => rfl
  | cons s r ih =>
    rw [partAt] at h
    cases hpart : s.part v with
    | error e =>
      rw [hpart] at h
      cases h
    | ok u =>
      rw [hpart] at h
      rw [withPartAt, hpart, partAt, Step.part_withPart hpart]
      exact ih h

theorem partAt_append (v : Value) (l r : List Step) :
    v.partAt (l ++ r) = (do (← v.partAt l).partAt r) := by
  induction l generalizing v with
  | nil => rfl
  | cons s l ih =>
    rw [List.cons_append, partAt, partAt, bind_assoc]
    exact bind_congr ih

/-- The last step to a part. -/
theorem exists_of_partAt_snoc {v w : Value} {path : List Step} {s : Step}
    (h : v.partAt (path ++ [s]) = .ok w) : ∃ u, v.partAt path = .ok u ∧ s.part u = .ok w := by
  rw [partAt_append] at h
  cases hpath : v.partAt path with
  | error e =>
    rw [hpath] at h
    cases h
  | ok u =>
    rw [hpath] at h
    have hpart : s.part u >>= pure = .ok w := h
    rw [bind_pure] at hpart
    exact ⟨u, rfl, hpart⟩

/-- A path that goes along another one for a while and then turns to something apart from it. -/
inductive Leaves : Value → List Step → List Step → Prop
  | fork {v : Value} {s s' : Step} {r r' : List Step} :
    Slot.Apart v (s.slot v) (s'.slot v) → Leaves v (s :: r) (s' :: r')
  | along {v w : Value} {s s' : Step} {r r' : List Step} :
    s'.slot v = s.slot v → s.part v = .ok w → Leaves w r r' → Leaves v (s :: r) (s' :: r')

end Value

open Value (Step)

/-! ### Writes in memory -/

namespace Memory

/-- The part of a value that a step leads to, if it can be written. -/
def part? (m : Memory) (v : Handle) (s : Step) : Option Handle :=
  match v, s with
  | .map r, s => some ((m.get? r s.name).getD .undefined)
  | .list xs, .item key => (indexOf? key).map fun i => (m.items xs).getD i .undefined
  | _, _ => none

/-- A value with one part replaced. -/
def withPart (m : Memory) (v new : Handle) (s : Step) : Handle × Memory :=
  match v, s with
  | .map r, s => ofObject (m.insert r s.name new)
  | .list xs, .item key =>
    match indexOf? key with
    | some i => ofList (m.setItem xs i new)
    | none => (v, m)
  | _, _ => (v, m)

/-- A value with the part at the end of some steps replaced: what the steps pass is rebuilt, the
innermost first. -/
def writeAt (m : Memory) (v new : Handle) : List Step → Option (Handle × Memory)
  | [] => some (new, m)
  | s :: r => do
    let x ← writeAt m (← m.part? v s) new r
    return x.2.withPart v x.1 s

variable {m : Memory} {v new : Handle} {s : Step}

theorem Usable.part {w : Value} (hv : m.Usable v) (hm : m.Sound)
    (h : s.part (m.value v) = .ok w) : ∃ u, m.part? v s = some u ∧ m.Usable u ∧ m.value u = w := by
  rcases Step.of_part_eq_ok h with ⟨es, hes⟩ | ⟨vs, key, i, hvs, rfl, hkey⟩
  · obtain ⟨r, rfl⟩ := exists_of_value_map hes
    obtain ⟨husable, hvalue⟩ := hv.property hm s.name
    rw [(hv.bound hm).2.2, Step.part_map] at h
    exact ⟨_, rfl, husable, hvalue.trans (Except.ok.inj h)⟩
  · obtain ⟨xs, rfl⟩ := exists_of_value_list hvs
    obtain ⟨hitems, hvalue⟩ := hv.items hm
    have hget := List.getD_map (m.items xs) .undefined (n := i) m.value
    rw [value_undefined] at hget
    rw [hvalue, Step.part_list hkey, Value.item, if_neg (by omega), Int.toNat_natCast] at h
    exact ⟨_, by rw [part?, hkey]; rfl, Usable.getD hitems i, hget.symm.trans (Except.ok.inj h)⟩

theorem gives_withPart {w : Value} (hm : m.Sound) (hv : m.Usable v) (hnew : m.Usable new)
    (h : s.part (m.value v) = .ok w) :
    Gives m (m.withPart v new s) (s.withPart (m.value v) (m.value new)) := by
  rcases Step.of_part_eq_ok h with ⟨es, hes⟩ | ⟨vs, key, i, hvs, rfl, hkey⟩
  · obtain ⟨r, rfl⟩ := exists_of_value_map hes
    rw [(hv.bound hm).2.2, Step.withPart_map]
    exact gives_insert hm hv s.name hnew
  · obtain ⟨xs, rfl⟩ := exists_of_value_list hvs
    rw [(hv.items hm).2, Step.withPart_list hkey, withPart, hkey]
    exact gives_setItem hm hv i hnew

/-- **A write in memory** gives the value with the part replaced, and changes nothing that was
there. -/
theorem gives_writeAt {path : List Step} {old : Value} (hm : m.Sound) (hv : m.Usable v)
    (hnew : m.Usable new) (h : (m.value v).partAt path = .ok old) :
    ∃ x, m.writeAt v new path = some x ∧ Gives m x ((m.value v).withPartAt (m.value new) path) := by
  induction path generalizing v with
  | nil => exact ⟨_, rfl, hnew.gives hm rfl⟩
  | cons s r ih =>
    rw [Value.partAt] at h
    cases hpart : s.part (m.value v) with
    | error e =>
      rw [hpart] at h
      cases h
    | ok w =>
      rw [hpart] at h
      obtain ⟨u, hu, husable, rfl⟩ := hv.part hm hpart
      obtain ⟨x, hx, hgives⟩ := ih husable h
      obtain ⟨hlater, hvalue⟩ := hv.later hm hgives.keeps
      refine ⟨x.2.withPart v x.1 s, by rw [writeAt, hu]; simp [hx], ?_⟩
      have hpart' : s.part (x.2.value v) = .ok (m.value u) := hvalue ▸ hpart
      have hwith := gives_withPart hgives.sound hlater hgives.usable hpart'
      rw [hvalue, hgives.value] at hwith
      rw [Value.withPartAt, hpart]
      exact hwith.after hgives.keeps

end Memory

/-- A read along the links of a chain, each a step that may be optional; nothing if the chain is
cut short. -/
def readLinks (v : Value) : List (Step × Bool) → Eval ω (Option Value)
  | [] => return some v
  | (s, optional) :: r => do
    match ← guarded optional v (s.read v) with
    | none => return none
    | some w => readLinks w r

theorem readLinks_cons {v w : Value} {s s' : Step} (h : s.part v = .ok w)
    (hslot : s'.slot v = s.slot v) (optional : Bool) (r : List (Step × Bool)) :
    (readLinks v ((s', optional) :: r) : Eval ω (Option Value)) = readLinks w r := by
  rw [readLinks, guarded_of_not_nullish (Step.not_nullish_of_part h), Step.read_of_part h hslot]
  rfl

/-- **A read that leaves the steps of a write gets what it got before.** -/
theorem readLinks_withPartAt {v : Value} {path : List Step} {links : List (Step × Bool)}
    (hleaves : v.Leaves path (links.map Prod.fst)) {w : Value} (h : v.partAt path = .ok w)
    (new : Value) :
    (readLinks (v.withPartAt new path) links : Eval ω (Option Value)) = readLinks v links := by
  generalize hpath' : links.map Prod.fst = path' at hleaves
  induction hleaves generalizing links with
  | @fork v s s' r r' hapart =>
    obtain ⟨⟨s', optional⟩, links, rfl, rfl, rfl⟩ := List.map_eq_cons_iff.1 hpath'
    rw [Value.partAt] at h
    cases hpart : s.part v with
    | error e =>
      rw [hpart] at h
      cases h
    | ok u =>
      have hnew := Step.part_withPart hpart (u.withPartAt new r)
      rw [Value.withPartAt, hpart]
      simp only [readLinks, guarded_of_not_nullish (Step.not_nullish_of_part hpart),
        guarded_of_not_nullish (Step.not_nullish_of_part hnew),
        Step.read_withPart hpart _ hapart]
  | @along v u s s' r r' hslot hpart _ ih =>
    obtain ⟨⟨s', optional⟩, links, rfl, rfl, rfl⟩ := List.map_eq_cons_iff.1 hpath'
    rw [Value.partAt, hpart] at h
    have hnew := Step.part_withPart hpart (u.withPartAt new r)
    have hslot' : s'.slot (s.withPart v (u.withPartAt new r)) =
        s.slot (s.withPart v (u.withPartAt new r)) := by
      rw [Step.slot_withPart hpart, Step.slot_withPart hpart, hslot]
    rw [Value.withPartAt, hpart]
    dsimp only
    rw [readLinks_cons hnew hslot', readLinks_cons hpart hslot]
    exact ih h rfl

theorem readLinks_append (v : Value) (l r : List (Step × Bool)) :
    (readLinks v (l ++ r) : Eval ω (Option Value)) = (do
      match ← readLinks v l with
      | none => return none
      | some w => readLinks w r) := by
  induction l generalizing v with
  | nil => rfl
  | cons x l ih =>
    obtain ⟨s, optional⟩ := x
    simp only [List.cons_append, readLinks, bind_assoc]
    refine bind_congr fun o => ?_
    cases o with
    | none => rfl
    | some w => exact ih w

/-- One more link at the end. -/
theorem readLinks_snoc (v : Value) (l : List (Step × Bool)) (s : Step) (optional : Bool) :
    (readLinks v (l ++ [(s, optional)]) : Eval ω (Option Value)) = (do
      match ← readLinks v l with
      | none => return none
      | some w => guarded optional w (s.read w)) := by
  rw [readLinks_append]
  refine bind_congr fun o => ?_
  cases o with
  | none => rfl
  | some w =>
    show (guarded optional w (s.read w) >>= fun o => _) = guarded optional w (s.read w)
    refine Eq.trans (bind_congr fun o => ?_) (bind_pure _)
    cases o <;> rfl

/-! ### Targets and the links they name -/

/-- A target made of a name and links; `gives` tells the value of each index. -/
inductive Expr.Names (gives : Expr → Value → Prop) : Expr → Text → List (Step × Bool) → Prop
  | ident (p : Nat) (n : Text) : Names gives (.ident p n) n []
  | member {o : Expr} {n : Text} {links : List (Step × Bool)} (p : Nat) (x : Text)
    (optional : Bool) : Names gives o n links →
    Names gives (.member p o x optional) n (links ++ [(.member x, optional)])
  | index {o k : Expr} {n : Text} {links : List (Step × Bool)} {key : Value} (p : Nat)
    (optional : Bool) : Names gives o n links → gives k key →
    Names gives (.index p o k optional) n (links ++ [(.item key, optional)])

/-- A target whose index values are fixed. -/
abbrev Expr.Fixed (c : Caller ω) (env : Nat) : Expr → Text → List (Step × Bool) → Prop :=
  Expr.Names fun k key => eval c env k = pure key

/-- A target whose index values are fixed on a machine, which they leave as it is. -/
abbrev Expr.FixedAt (c : Caller ω) (env : Nat) (m : Machine ω) :
    Expr → Text → List (Step × Bool) → Prop :=
  Expr.Names fun k key => (eval c env k).Answers m key m

theorem answers_resolve {h : Host ω} {env : Nat} {m : Machine ω} {n : Text} {v : Value}
    (hv : m.lookup h env n = some v) : (resolve h env n).Answers m v m := by
  show (resolve h env n).run m = _
  rw [resolve_run, hv]
  rfl

namespace Expr.Names

variable {c : Caller ω} {env : Nat} {m : Machine ω} {t : Expr} {n : Text}
  {links : List (Step × Bool)}

/-- Reading a target is reading its name and then along its links. -/
theorem link_eq (h : t.Fixed c env n links) :
    link c env t = (do readLinks (← resolve c.host env n) links) := by
  induction h with
  | ident p n =>
    rw [link, map_eq_pure_bind]
    rfl
  | @member o n links p x optional _ ih =>
    rw [link_member, ih, follow, bind_assoc]
    exact bind_congr fun root => (readLinks_snoc root links (.member x) optional).symm
  | @index o k n links key p optional _ hkey ih =>
    rw [link_index, ih, hkey, follow, bind_assoc]
    refine bind_congr fun root => ?_
    simp only [pure_bind]
    exact (readLinks_snoc root links (.item key) optional).symm

/-- Reading a target where its part is there gets the part. -/
theorem answers_link (h : t.FixedAt c env m n links) {root w : Value}
    (hroot : m.lookup c.host env n = some root) (hpart : root.partAt (links.map Prod.fst) = .ok w) :
    (link c env t).Answers m (some w) m := by
  induction h generalizing w with
  | ident p n =>
    rw [link, Eval.answers_map]
    cases hpart
    exact ⟨root, answers_resolve hroot, rfl⟩
  | member p x optional _ ih =>
    rw [List.map_append] at hpart
    obtain ⟨u, hu, hw⟩ := Value.exists_of_partAt_snoc hpart
    have hread : Reactive.member u x = (pure w : Eval ω Value) := Step.read_of_part hw rfl
    rw [link_member, answers_follow_some (needsValue_member x)]
    exact ⟨u, m, ih hroot hu, by simp [hread]⟩
  | @index o k n links key p optional _ hkey ih =>
    rw [List.map_append] at hpart
    obtain ⟨u, hu, hw⟩ := Value.exists_of_partAt_snoc hpart
    have hread : itemAt u key = (pure w : Eval ω Value) := Step.read_of_part hw rfl
    rw [link_index, answers_follow_some (needsValue_itemAt _)]
    refine ⟨u, m, ih hroot hu, ?_⟩
    rw [Eval.answers_bind]
    exact ⟨key, m, hkey, by simp [hread]⟩

/-- The place that a target names. -/
theorem answers_place (h : t.FixedAt c env m n links) (path : List Step) :
    (t.place c env path).Answers m (n, links.map Prod.fst ++ path) m := by
  induction h generalizing path with
  | ident p n => rfl
  | member p x optional _ ih =>
    rw [place, List.map_append, List.append_assoc]
    exact ih (.member x :: path)
  | @index o k n links key p optional _ hkey ih =>
    rw [place, Eval.answers_bind, List.map_append, List.append_assoc]
    exact ⟨key, m, hkey, ih (.item key :: path)⟩

end Expr.Names

/-! ### Reads depend on values only -/

/-- A computation whose outcome depends on how many functions were made, and which changes nothing
else: the methods that it reads are new functions. -/
def Eval.Looks {α : Type} (x : Eval ω α) : Prop :=
  ∀ k : Nat, ∃ r k', ∀ m : Machine ω, m.funcs = k → x.run m = .ok (r, { m with funcs := k' })

namespace Eval.Looks

variable {α β : Type}

theorem pure (a : α) : (Pure.pure a : Eval ω α).Looks := fun k =>
  ⟨.ok a, k, fun m hm => by subst hm; rfl⟩

theorem throw (e : EvalError) : (MonadExcept.throw e : Eval ω α).Looks := fun k =>
  ⟨.error e, k, fun m hm => by subst hm; rfl⟩

theorem bind {x : Eval ω α} {f : α → Eval ω β} (hx : x.Looks) (hf : ∀ a, (f a).Looks) :
    (x >>= f).Looks := fun k => by
  obtain ⟨r, k', hr⟩ := hx k
  cases r with
  | error e =>
    refine ⟨.error e, k', fun m hm => ?_⟩
    rw [ExceptT.run_bind, Run.bind_ok (hr m hm)]
    rfl
  | ok a =>
    obtain ⟨r', k'', hr'⟩ := hf a k'
    refine ⟨r', k'', fun m hm => ?_⟩
    rw [ExceptT.run_bind, Run.bind_ok (hr m hm)]
    exact hr' { m with funcs := k' } rfl

theorem newFunc (name : Text) (code : Code) :
    (do return Value.func (← sure (Reactive.newFunc name code)) : Eval ω Value).Looks := fun k =>
  ⟨.ok (.func (.mk name k code)), k + 1, fun m hm => by subst hm; rfl⟩

theorem member (v : Value) (name : Text) : (Reactive.member v name : Eval ω Value).Looks := by
  unfold Reactive.member
  split
  · exact .pure _
  · split
    · exact .pure _
    · split
      · exact .newFunc _ _
      · exact .pure _
  · split
    · exact .pure _
    · split
      · exact .newFunc _ _
      · exact .pure _
  · split
    · exact .newFunc _ _
    · split
      · exact .newFunc _ _
      · exact .pure _
  · split
    · exact .newFunc _ _
    · exact .pure _
  · exact .throw _
  · exact .throw _
  · exact .pure _

theorem itemAt (v key : Value) : (Reactive.itemAt v key : Eval ω Value).Looks := by
  unfold Reactive.itemAt
  split
  · exact .pure _
  · exact .pure _
  · exact .member _ _

theorem readLinks (v : Value) (links : List (Step × Bool)) :
    (Reactive.readLinks v links : Eval ω (Option Value)).Looks := by
  induction links generalizing v with
  | nil => exact .pure _
  | cons l r ih =>
    obtain ⟨s, optional⟩ := l
    have hread : (s.read v : Eval ω Value).Looks := by
      cases s with
      | member name => exact .member v name
      | item key => exact .itemAt v key
    refine .bind ?_ fun o => ?_
    · rw [guarded]
      split
      · exact .pure _
      · rw [map_eq_pure_bind]
        exact hread.bind fun w => .pure _
    · cases o with
      | none => exact .pure _
      | some w => exact ih w

end Eval.Looks

/-- A computation with one outcome on two machines, of which it changes no more than how many
functions were made. -/
def Eval.SameOn {α : Type} (x : Eval ω α) (m m' : Machine ω) : Prop :=
  ∃ r k, x.run m = .ok (r, { m with funcs := k }) ∧ x.run m' = .ok (r, { m' with funcs := k })

theorem Eval.Looks.sameOn {α : Type} {x : Eval ω α} (h : x.Looks) {m m' : Machine ω}
    (hfuncs : m'.funcs = m.funcs) : x.SameOn m m' := by
  obtain ⟨r, k, hr⟩ := h m.funcs
  exact ⟨r, k, hr m rfl, hr m' hfuncs⟩

/-! ### Assignments -/

/-- The value that a name stands for at a machine, read along some links. -/
theorem run_of_lookup {c : Caller ω} {env : Nat} {t : Expr} {n : Text}
    {links : List (Step × Bool)} (ht : t.Fixed c env n links) {m : Machine ω} {root : Value}
    (hroot : m.lookup c.host env n = some root) :
    (eval c env t).run m = (chainValue (readLinks root links)).run m := by
  rw [eval, ht.link_eq, chainValue, chainValue, bind_assoc, ExceptT.run_bind,
    Run.bind_ok (answers_resolve hroot)]

namespace Machine

/-- What holds after `v` was assigned to the part of the value of `n` that some links lead to. -/
structure Written (m m' : Machine (Dict Value)) (nest : List Nat) (n : Text)
    (links : List (Step × Bool)) (v : Value) : Prop where
  /-- One binding is different, the one that the name stands for. -/
  rebound : ∃ p root, m.binder? nest n = some p ∧ m.at? p n = some (root, false) ∧
    m.Rebound m' p n (root.withPartAt v (links.map Prod.fst))
  /-- Wherever a name stands for another binding, it stands for what it stood for. -/
  others : ∀ nest' x, m.Nested nest' → ¬(x = n ∧ m.binder? nest' x = m.binder? nest n) →
    m'.lookup dictHost (nest'.headD 0) x = m.lookup dictHost (nest'.headD 0) x
  /-- What was assigned is read. -/
  found : ∀ t, t.FixedAt dictHost.caller (nest.headD 0) m' n links →
    (evalIn (nest.headD 0) t).Answers m' v m'
  /-- A read that leaves the path gets what it got before. -/
  left : ∀ t links' root, t.Fixed dictHost.caller (nest.headD 0) n links' →
    m.lookup dictHost (nest.headD 0) n = some root →
    root.Leaves (links.map Prod.fst) (links'.map Prod.fst) → (evalIn (nest.headD 0) t).SameOn m m'
  /-- So does a read from a value that was obtained before. -/
  held : ∀ w links', (readLinks w links').SameOn m m'
  /-- Nor does the write change a value that was obtained before: in memory it copies what it
  rebuilds. -/
  kept : ∀ root, m.lookup dictHost (nest.headD 0) n = some root →
    ∀ (memory : Memory) (r new : Handle), memory.Sound → memory.Usable r → memory.Usable new →
      memory.value r = root → memory.value new = v →
        ∃ x, memory.writeAt r new (links.map Prod.fst) = some x ∧
          x.2.value x.1 = root.withPartAt v (links.map Prod.fst) ∧
          ∀ w : Handle, w.Below memory.length → x.2.image w = memory.image w

/-- The part that some links lead to can be written: a binding that is not constant has it. -/
def CanWrite (m : Machine (Dict Value)) (nest : List Nat) (n : Text)
    (links : List (Step × Bool)) : Prop :=
  ∃ p root old, m.binder? nest n = some p ∧ m.at? p n = some (root, false) ∧
    root.partAt (links.map Prod.fst) = .ok old

variable {m m₁ : Machine (Dict Value)} {nest : List Nat} {n : Text}

/-- The value that a write starts from. -/
theorem Nested.root_eq (h : m.Nested nest) {p : Binder} {root : Value} {const : Bool}
    (hbinder : m.binder? nest n = some p) (hat : m.at? p n = some (root, const)) :
    m.root dictHost.caller (nest.headD 0) n = root := by
  show (m.lookup dictHost (nest.headD 0) n).getD .undefined = root
  simp only [h.lookup, hbinder, hat, Option.map_some, Option.getD_some]

theorem Nested.written (h : m.Nested nest) {links : List (Step × Bool)} {p : Binder}
    {root old : Value} (hbinder : m.binder? nest n = some p) (hat : m.at? p n = some (root, false))
    (hpart : root.partAt (links.map Prod.fst) = .ok old) (v : Value) :
    m.Written (m.rebind p n (root.withPartAt v (links.map Prod.fst))) nest n links v := by
  have hroot : m.lookup dictHost (nest.headD 0) n = some root := by
    simp only [h.lookup, hbinder, hat, Option.map_some]
  have hroot' : (m.rebind p n (root.withPartAt v (links.map Prod.fst))).lookup dictHost
      (nest.headD 0) n = some (root.withPartAt v (links.map Prod.fst)) := by
    rw [h.lookup_rebind hat, if_pos ⟨rfl, hbinder⟩]
  have hfuncs := (rebound_rebind hat (root.withPartAt v (links.map Prod.fst))).funcs
  constructor
  case rebound => exact ⟨p, root, hbinder, hat, rebound_rebind hat _⟩
  case others =>
    intro nest' x h' hx
    rw [h'.lookup_rebind hat, if_neg fun hxp => hx ⟨hxp.1, hxp.2.trans hbinder.symm⟩]
  case found =>
    intro t ht
    rw [evalIn, eval, chainValue, Eval.answers_bind]
    exact ⟨some v, _, ht.answers_link hroot' (Value.partAt_withPartAt hpart v), by simp⟩
  case left =>
    intro t links' root' ht hlookup hleaves
    obtain rfl : root' = root := Option.some.inj (hlookup.symm.trans hroot)
    have hlooks : (chainValue (readLinks root' links') : Eval (Dict Value) Value).Looks :=
      .bind (.readLinks root' links') fun o => .pure _
    obtain ⟨r, k, hr, hr'⟩ := hlooks.sameOn hfuncs
    refine ⟨r, k, (run_of_lookup ht hroot).trans hr, ?_⟩
    rw [evalIn, run_of_lookup ht hroot', readLinks_withPartAt hleaves hpart v]
    exact hr'
  case held => exact fun w links' => Eval.Looks.sameOn (.readLinks w links') hfuncs
  case kept =>
    rintro root' hlookup memory r new hsound hr hnew rfl rfl
    obtain rfl : memory.value r = root := Option.some.inj (hlookup.symm.trans hroot)
    obtain ⟨x, hx, hgives⟩ := Memory.gives_writeAt hsound hr hnew hpart
    exact ⟨x, hx, hgives.value, fun w hw => hgives.keeps.image hsound hw⟩

end Machine

/-- A plain assignment is a write to its target, after its right side. -/
theorem run_assignment {c : Caller ω} {env p : Nat} {t e : Expr} {v : Value} {m m₁ : Machine ω}
    (he : (eval c env e).Answers m v m₁) : (eval c env (.assign p .set t e)).run m =
      (update c env t fun _ => return (v, v)).run m₁ := by
  have heq : eval c env (.assign p .set t e) = (do
      let new ← eval c env e
      update c env t fun _ => return (new, new)) := by
    simp only [eval, link]
    rw [chainValue, bind_assoc]
    exact bind_congr fun new => chainValue_some _
  rw [heq, ExceptT.run_bind, Run.bind_ok he]

/-- A write to a target: the root is read, the part is looked for, and the root is assigned. -/
theorem run_update {c : Caller ω} {env : Nat} {t : Expr} {n : Text} {links : List (Step × Bool)}
    {m : Machine ω} (ht : t.FixedAt c env m n links) (v : Value) :
    (update c env t fun _ => return (v, v)).run m =
      match (m.root c env n).partAt (links.map Prod.fst) with
      | .error err => .ok (.error err, m)
      | .ok _ => (do
          assign c.host env n ((m.root c env n).withPartAt v (links.map Prod.fst))
          return v : Eval ω Value).run m := by
  have hget : (get : Eval ω (Machine ω)).run m = .ok (.ok m, m) := rfl
  have hplace := ht.answers_place []
  rw [List.append_nil, Eval.Answers] at hplace
  rw [update_eq, ExceptT.run_bind, Run.bind_ok hplace]
  dsimp only [ExceptT.bindCont]
  rw [ExceptT.run_bind, Run.bind_ok hget]
  dsimp only
  cases (m.root c env n).partAt (links.map Prod.fst) with
  | error err =>
    have hfail : (ofOutcome (.error err) : Eval ω Value).run m = .ok (.error err, m) := rfl
    rw [ExceptT.run_bind, Run.bind_ok hfail]
    rfl
  | ok old => rw [ofOutcome, pure_bind, pure_bind]

/-- **An assignment to a part of a value writes that part and nothing else.**  It succeeds exactly
if the part can be written; otherwise nothing happens after its right side was evaluated. -/
theorem assignment_writes_part {nest : List Nat} {p : Nat} {t e : Expr} {n : Text}
    {links : List (Step × Bool)} {v : Value} {m m₁ : Machine (Dict Value)}
    (ht : t.FixedAt dictHost.caller (nest.headD 0) m₁ n links) (hnest : m₁.Nested nest)
    (he : (evalIn (nest.headD 0) e).Answers m v m₁) :
    (m₁.CanWrite nest n links → ∃ m', m₁.Written m' nest n links v ∧
      (evalIn (nest.headD 0) (.assign p .set t e)).Answers m v m') ∧
    (¬m₁.CanWrite nest n links → ∃ err,
      (evalIn (nest.headD 0) (.assign p .set t e)).run m = .ok (.error err, m₁)) := by
  have hrun : (evalIn (nest.headD 0) (.assign p .set t e)).run m =
      match (m₁.root dictHost.caller (nest.headD 0) n).partAt (links.map Prod.fst) with
      | .error err => .ok (.error err, m₁)
      | .ok _ => (do
          assign dictHost (nest.headD 0) n
            ((m₁.root dictHost.caller (nest.headD 0) n).withPartAt v (links.map Prod.fst))
          return v : Eval (Dict Value) Value).run m₁ :=
    (run_assignment he).trans (run_update ht v)
  constructor
  · rintro ⟨q, root, old, hbinder, hat, hpart⟩
    refine ⟨_, hnest.written hbinder hat hpart v, ?_⟩
    have hassign := (hnest.answers_assign n (root.withPartAt v (links.map Prod.fst))).2
      ⟨q, root, hbinder, hat, rfl⟩
    rw [Eval.Answers, hrun, hnest.root_eq hbinder hat, hpart]
    dsimp only
    rw [ExceptT.run_bind, Run.bind_ok hassign]
    rfl
  · intro hcannot
    rw [hrun]
    cases hpart : (m₁.root dictHost.caller (nest.headD 0) n).partAt (links.map Prod.fst) with
    | error err => exact ⟨err, rfl⟩
    | ok old =>
      obtain ⟨err, hfail⟩ : ∃ err, (assign dictHost (nest.headD 0) n
          ((m₁.root dictHost.caller (nest.headD 0) n).withPartAt v (links.map Prod.fst))).run m₁ =
            .ok (.error err, m₁) := by
        rw [hnest.assign]
        cases hbinder : m₁.binder? nest n with
        | none => exact ⟨_, rfl⟩
        | some q =>
          obtain ⟨⟨root, const⟩, hat⟩ := Machine.exists_of_binder? hbinder
          cases const with
          | true => exact ⟨.constantAssigned n, by simp [hat]⟩
          | false =>
            -- the name stands for a root that may be written, and the part is there
            have hroot := hnest.root_eq hbinder hat
            exact absurd ⟨q, root, old, hbinder, hat, hroot ▸ hpart⟩ hcannot
      dsimp only
      rw [ExceptT.run_bind, Run.bind_ok hfail]
      exact ⟨err, rfl⟩

/-- A store with an object that holds a list, and a number. -/
def shelf : Machine (Dict Value) :=
  Machine.start (.host .writable) [("a", .map [("xs", .list [.int 1, .int 2])]), ("i", .int 3)]

/-- A write behind the end of that list: `a.xs[i] = null`. -/
theorem assignment_writes_part_shelf :
    let item : Expr := .index 0 (.member 0 (.ident 0 "a") "xs" false) (.ident 0 "i") false
    let links : List (Step × Bool) := [(.member "xs", false), (.item (.int 3), false)]
    item.FixedAt dictHost.caller 0 shelf "a" links ∧ shelf.Nested [0] ∧
      (evalIn 0 (.literal 0 .null)).Answers shelf .null shelf ∧ shelf.CanWrite [0] "a" links ∧
      ∃ m, shelf.Written m [0] "a" links .null ∧
        (evalIn 0 (.assign 0 .set item (.literal 0 .null))).Answers shelf .null m := by
  intro item links
  have hxs : Expr.FixedAt dictHost.caller 0 shelf (.member 0 (.ident 0 "a") "xs" false) "a"
      [(.member "xs", false)] := .member 0 "xs" false (.ident 0 "a")
  have hitem : item.FixedAt dictHost.caller 0 shelf "a" links :=
    .index 0 false hxs (by with_unfolding_all rfl)
  have hnest : shelf.Nested [0] := .root rfl
  have hnull : (evalIn 0 (.literal 0 .null)).Answers shelf .null shelf := rfl
  have hcan : shelf.CanWrite [0] "a" links :=
    ⟨.store, .map [("xs", .list [.int 1, .int 2])], .undefined, by with_unfolding_all rfl,
      by with_unfolding_all rfl, by with_unfolding_all rfl⟩
  have hwrite := @assignment_writes_part [0] 0 item (.literal 0 .null) "a" links .null shelf shelf
    hitem hnest hnull
  exact ⟨hitem, hnest, hnull, hcan, hwrite.1 hcan⟩

/-- A method of a list shows a write to an item: it is bound to the list that it is read from. -/
theorem method_shows_write :
    let item : Expr := .index 0 (.member 0 (.ident 0 "a") "xs" false)
      (.literal 0 (.number (.int 0))) false
    let method : Expr := .member 0 (.member 0 (.ident 0 "a") "xs" false) "join" false
    ∃ m f g m₁ m₂, (evalIn 0 (.assign 0 .set item (.literal 0 .null))).Answers shelf .null m ∧
      (evalIn 0 method).Answers shelf f m₁ ∧ (evalIn 0 method).Answers m g m₂ ∧ f ≠ g := by
  intro item method
  let m : Machine (Dict Value) :=
    { shelf with host := [("a", .map [("xs", .list [.null, .int 2])]), ("i", .int 3)] }
  let join (items : List Value) : Value := .func (.mk "join" 0 (.listMethod items .join))
  have hwrite : (evalIn 0 (.assign 0 .set item (.literal 0 .null))).Answers shelf .null m := by
    with_unfolding_all rfl
  have hbefore : (evalIn 0 method).Answers shelf (join [.int 1, .int 2])
      { shelf with funcs := 1 } := by
    with_unfolding_all rfl
  have hafter : (evalIn 0 method).Answers m (join [.null, .int 2]) { m with funcs := 1 } := by
    with_unfolding_all rfl
  refine ⟨m, _, _, _, _, hwrite, hbefore, hafter, fun h => ?_⟩
  injection h with h
  injection h with _ _ h
  injection h with h
  injection h with h
  exact Value.noConfusion h

end Reactive
