/-
What bindings are worth in a view whose expressions call no function from before.

A binding that calls no function of the source from before, and whose value holds
no function that its own evaluation made, is worth the same whenever it is
evaluated over the same values.

* `Block.discreetIn` — the outcome of such an expression;
* `Block.valueOf` — what such a binding is worth;
* `Block.discreetReading` — bindings read as that;
* `Block.SameAttrs` — attributes that such a view may show in one state.
-/
import Reactive.Proofs.Block.Discreet
import Reactive.Proofs.Block.Parts

namespace Reactive

variable {ω σ : Type}

/-! ### Hosts that are only read -/

/-- A host that can be read only. -/
def Host.asRead (read : ω → Text → Option Value) : Host ω where
  read := read
  write name _ := throw (.assignedWhileRendering name)

/-- A host that can be read only keeps all that growing keeps, if what it reads was made. -/
theorem Host.tends_asRead (read : ω → Text → Option Value) :
    (Host.asRead read).Tends fun m => ∀ n v, read m.host n = some v → v.All m.Made where
  stable := by
    intro m m' hm hgrow hhost n v hv
    rw [hhost] at hv
    exact hgrow.all (hm n v hv)
  read hm n v hv := hm n v hv
  write hwhole hm name v _ := ⟨.refl _, hwhole, hm⟩

/-- An answer that may be given: over a snapshot, one that holds no function made since fewer than `n`
functions were there. -/
def Store.Admits (n : Nat) : Store → Except EvalError Value → Prop
  | .snapshot _, .ok v => v.All (Func.Before n)
  | _, _ => True

instance (n : Nat) : ∀ (st : Store) (r : Except EvalError Value), Decidable (st.Admits n r)
  | .snapshot _, .ok v => inferInstanceAs (Decidable (v.All (Func.Before n)))
  | .snapshot _, .error _ | .empty, _ | .host _, _ => .isTrue trivial

namespace Block

open Dom (NodeId)

variable {h h₁ h₂ : Host (Stage σ)} {N : Text → Prop} {m k : Machine (Stage σ)} {frame : Frame}
  {e : Expr}

/-! ### Outcomes -/

/-- The outcome of an expression that calls no function of the source from before.  Over a snapshot its
value may hold no function that this evaluation made; otherwise the run stops. -/
def discreetIn (h : Host (Stage σ)) (st : Store) (frame : Frame) (e : Expr) :
    Run (Stage σ) (Except EvalError Value) := do
  let m ← get
  let r ← outcomeIn (h.discreet m.funcs) st frame e
  if st.Admits m.funcs r then return r else halt .outOfRange

/-- An evaluation that answers. -/
theorem outcome_of_discreetIn {st : Store} {r : Except EvalError Value} {m' : Machine (Stage σ)}
    (hrun : discreetIn h st frame e m = .ok (r, m')) :
    outcomeIn (h.discreet m.funcs) st frame e m = .ok (r, m') ∧ st.Admits m.funcs r := by
  have hrun : (outcomeIn (h.discreet m.funcs) st frame e >>= fun r =>
      if st.Admits m.funcs r then pure r else halt .outOfRange : Run _ _) m = .ok (r, m') := hrun
  cases hout : outcomeIn (h.discreet m.funcs) st frame e m with
  | error halted =>
    rw [Run.bind_error hout] at hrun
    cases hrun
  | ok p =>
    obtain ⟨r', m₁⟩ := p
    rw [Run.bind_ok hout] at hrun
    split at hrun
    · cases hrun
      exact ⟨rfl, ‹_›⟩
    · cases hrun

/-- Such an evaluation leaves the host alone, keeps a whole machine whole, and answers what was
made. -/
theorem whole_of_outcome {read : Stage σ → Text → Option Value} {st : Store} {r : Except EvalError Value}
    {m' : Machine (Stage σ)} (hm : m.Whole) (hread : ∀ n v, read m.host n = some v → v.All m.Made)
    (hst : m.Leads m.scopes.size (.store st)) (hsame : Store.Alike h (.asRead read) N m m st st)
    (hframe : frame.Made m) (he : e.Uses False fun n => N n ∨ frame.Binds n)
    (hrun : outcomeIn (h.discreet m.funcs) st frame e m = .ok (r, m')) :
    m'.host = m.host ∧ m.Grows m' ∧ m'.Whole ∧ ∀ v, r = .ok v → v.All m'.Made := by
  obtain ⟨hhost, hrun'⟩ := outcomeIn_elsewhere hsame hframe.before he hrun
  have hafter := (Host.tends_asRead read).after_outcomeIn hm hread (fun _ f => f.isOlder m.funcs) hst
    hframe e
  obtain ⟨hgrow, hwhole, -, hmade⟩ := hafter.of_ok hrun'
  exact ⟨hhost, hgrow, hwhole, hmade⟩

/-! ### Bindings -/

/-- The names of the state that a binding can read. -/
def Open (b : View.Binding) (n : Text) : Prop := n ∈ b.state ∨ n = "this"

/-- A binding that declares no function and reads the state it mentions and loop variables only. -/
def Readable (locals : List Text) (b : View.Binding) : Prop :=
  b.expr.Uses False fun n => Open b n ∨ n ∈ locals

variable (σ) in
open Classical in
/-- What a binding is worth, whenever it is evaluated; `undefined` if that fails. -/
noncomputable def valueOf (b : View.Binding) (frame : Frame) (st : Dict Value) : Value :=
  (epsilon fun r => ∃ (h : Host (Stage σ)) (m : Machine (Stage σ)),
    Answers h (Open b) st frame b.expr m r).toOption.getD .undefined

section

variable {locals : List Text} {b : View.Binding} {A B : Dict Value} {r : Except EvalError Value}

theorem Readable.uses (hb : Readable locals b) (hcov : frame.Covers locals) :
    b.expr.Uses False fun n => Open b n ∨ frame.Binds n :=
  hb.mono fun n => Or.imp_right (hcov n)

/-- Any answer is what the binding is worth. -/
theorem Answers.valueOf (h : Answers h₁ (Open b) A frame b.expr m r) (hb : Readable locals b)
    (hcov : frame.Covers locals) : r.toOption.getD .undefined = Block.valueOf σ b frame A := by
  obtain ⟨h₂, k, h'⟩ := Classical.epsilon_spec (p := fun r => ∃ (h : Host (Stage σ))
    (m : Machine (Stage σ)), Answers h (Open b) A frame b.expr m r) ⟨r, h₁, m, h⟩
  rw [h.eq h' (fun _ _ => rfl) (hb.uses hcov)]
  rfl

theorem valueOf_congr (hb : Readable locals b) (hcov : frame.Covers locals)
    (hsame : ∀ n, Open b n → A.get? n = B.get? n) : valueOf σ b frame A = valueOf σ b frame B := by
  have hmoment : ∀ m : Machine (Stage σ), m.Precedes m := fun _ => ⟨Nat.le_refl _, Nat.le_refl _⟩
  have heq : (fun r => ∃ (h : Host (Stage σ)) (m : Machine (Stage σ)),
      Answers h (Open b) A frame b.expr m r) = fun r => ∃ (h : Host (Stage σ))
      (m : Machine (Stage σ)), Answers h (Open b) B frame b.expr m r := by
    funext r
    refine propext ⟨?_, ?_⟩
    · rintro ⟨h, m, ha⟩
      exact ⟨h, m, ha.later (hmoment m) (fun n hn => (hsame n hn).symm) (hb.uses hcov)⟩
    · rintro ⟨h, m, ha⟩
      exact ⟨h, m, ha.later (hmoment m) hsame (hb.uses hcov)⟩
  rw [valueOf, valueOf, heq]

/-- Over values that were made the outcome of a binding is what it is worth. -/
theorem after_discreetIn (hb : Readable locals b) (hcov : frame.Covers locals) (hm : m.Whole)
    (hframe : frame.Made m) (hA : ∀ n v, A.get? n = some v → v.All m.Made) :
    Run.After Halt.Any (discreetIn h (.snapshot A) frame b.expr) (fun r m' =>
      r.toOption.getD .undefined = Block.valueOf σ b frame A ∧ m'.host = m.host ∧ m.Grows m' ∧
      m'.Whole ∧ ∀ v, r = .ok v → v.All m'.Made) m := by
  unfold Run.After
  split
  · rename_i r m' hrun
    obtain ⟨hrun, hadmits⟩ := outcome_of_discreetIn hrun
    have hover : Over (Open b) m A :=
      fun n v _ hv => Value.All.mono (fun _ hmade => hmade.1) (hA n v hv)
    have hsame : Store.Alike h (.asRead fun _ _ => none) (Open b) m m (.snapshot A) (.snapshot A) :=
      .snapshot fun n hn => ⟨rfl, fun v hv => hover n v hn hv⟩
    have hleads : m.Leads m.scopes.size (.store (.snapshot A)) := hA
    obtain ⟨hhost, hgrow, hwhole, hmade⟩ := whole_of_outcome hm (fun _ _ hv => by cases hv) hleads
      hsame hframe (hb.uses hcov) hrun
    have hanswer : Answers h (Open b) A frame b.expr m r :=
      ⟨hover, hframe.before, ⟨m', hrun⟩, fun v hv => by rwa [hv] at hadmits⟩
    exact ⟨hanswer.valueOf hb hcov, hhost, hgrow, hwhole, hmade⟩
  · trivial

end

/-! ### A reading -/

/-- The variables of a round over what was made were made. -/
theorem made_round {vs : List Value} (hvs : ∀ v ∈ vs, v.All m.Made) {x : Value} {i : Nat}
    (hx : (x, i) ∈ vs.zipIdx) (item index : Text) : ∀ p ∈ roundVars item index i x, p.2.All m.Made := by
  have hone : ∀ p ∈ ([(item, x)] : Dict Value), p.2.All m.Made := by
    intro p hp
    rw [List.mem_singleton.1 hp]
    exact hvs x (List.fst_mem_of_mem_zipIdx hx)
  unfold roundVars
  split
  · exact hone
  · exact Value.all_insert hone trivial

/-- Values that were made; what `this` stands for is settled. -/
structure Stored (me : Option Value) (m : Machine (Stage σ)) (st : Dict Value) : Prop where
  this : st.get? "this" = me
  made : ∀ n v, st.get? n = some v → v.All m.Made

theorem Stored.grow {me : Option Value} {st : Dict Value} (h : Stored me m st) (hgrow : m.Grows k) :
    Stored me k st :=
  ⟨h.this, fun n v hv => hgrow.all (h.made n v hv)⟩

/-- Bindings read as what they are worth, where `this` always stands for the same. -/
noncomputable def discreetReading (s : Site σ) (me : Option Value) : Reading s where
  stops := Halt.Any
  Sane := Machine.Whole
  Later := Machine.Grows
  Fits m f := f.Made m
  Known := Stored me
  face := id
  val := valueOf σ
  Near b f w st := w = valueOf σ b f st ∨ (valueOf σ b f st).equal w = true
  Reads := Readable
  Attr := Readable

section

variable {s : Site σ} {me : Option Value}

@[simp] theorem faces_discreet (f : Frame) : (discreetReading s me).faces f = f := by
  refine (List.map_congr_left fun vars _ => ?_).trans (List.map_id f)
  exact List.map_id vars

theorem lawful_discreet (hs : s.outcome = discreetIn h) : (discreetReading s me).Lawful where
  sane_congr hscopes hfuncs _ hm := hm.congr hscopes hfuncs
  later_congr := .of_same
  later_trans := Machine.Grows.trans
  fits_later hlater hf := hf.grow hlater
  known_later hlater hst := hst.grow hlater
  reads_of_attr hb := hb
  display _ := rfl
  truthy _ := rfl
  items v := (List.map_id _).symm
  int _ := rfl
  eval := by
    intro locals b m f st hb hcov hm hf hst
    unfold Site.evaluate
    rw [hs, faces_discreet]
    refine (after_discreetIn hb hcov hm hf hst.made).bind ?_
    rintro r m' ⟨hvalue, hhost, hgrow, hwhole, hmade⟩
    cases r with
    | error e =>
      -- the failure is logged, and what reads as undefined has no rounds
      exact ⟨hvalue, hhost, hwhole.congr rfl rfl, ⟨hgrow.size, hgrow.funcs, hgrow.scope⟩,
        fun _ _ _ _ hx => absurd hx List.not_mem_nil⟩
    | ok v =>
      refine ⟨hvalue, hhost, hwhole, hgrow, fun x i item index hx vars hvars p hp => ?_⟩
      rcases List.mem_cons.1 hvars with rfl | hvars
      · refine made_round (fun w hw => ?_) hx item index p hp
        cases v with
        | list vs => exact (Value.all_list vs).1 (hmade _ rfl) w hw
        | _ => cases hw
      · exact hf.grow hgrow vars hvars p hp
  near_new {_ b _ f _ _} _ _ _ hv := .inl (by rwa [faces_discreet] at hv)

theorem tracks_discreet : (discreetReading s me).Tracks where
  deps := by
    intro locals b m f st st' hb hcov _ hst hst' heq
    rw [faces_discreet]
    refine valueOf_congr hb hcov ?_
    rintro n (hn | rfl)
    · exact heq n hn
    · rw [hst.this, hst'.this]
  near_keep := by
    intro b f st st' w hw hval
    rw [faces_discreet] at hval
    have hval : valueOf σ b f st = valueOf σ b f st' := hval
    exact hw.imp (fun h => h.trans hval) fun h => hval ▸ h
  near_equal {_ b _ f _ st' v w} _ _ _ _ _ hv heq := by
    rw [faces_discreet] at hv
    have hv : v = valueOf σ b f st' := hv
    exact .inr (hv ▸ heq)

end

/-! ### Attributes -/

/-- The texts of an attribute for two values that may stand for one: each is that value, or one that
it equals. -/
def EqualTexts (a b : Option Text) : Prop :=
  a = b ∨ ∃ u v w : Value, (v = u ∨ u.equal v = true) ∧ (w = u ∨ u.equal w = true) ∧
    a = attrText v ∧ b = attrText w

/-- The same attributes in some order, with texts of values that may stand for one. -/
structure SameAttrs (as as' : List (Text × Text)) : Prop where
  keys : (Dict.keys as).Perm (Dict.keys as')
  text : ∀ name, EqualTexts (Dict.get? as name) (Dict.get? as' name)

theorem isSome_attrText {v w : Value} (h : v.equal w = true) :
    (attrText v).isSome = (attrText w).isSome := by
  cases v with
  | bool a =>
    cases w with
    | bool b =>
      obtain rfl : a = b := by simpa [Value.equal] using h
      rfl
    | _ => simp [Value.equal] at h
  | null | undefined =>
    cases w <;> simp [Value.equal] at h
    rfl
  | _ =>
    cases w with
    | bool | null | undefined => simp [Value.equal] at h
    | _ => rfl

theorem EqualTexts.isSome {a b : Option Text} (h : EqualTexts a b) : a.isSome = b.isSome := by
  have hone : ∀ {u v : Value}, (v = u ∨ u.equal v = true) →
      (attrText u).isSome = (attrText v).isSome := by
    rintro u v (rfl | heq)
    · rfl
    · exact isSome_attrText heq
  obtain rfl | ⟨u, v, w, hv, hw, rfl, rfl⟩ := h
  · rfl
  · exact (hone hv).symm.trans (hone hw)

section

variable {s : Site σ} {me : Option Value}

/-- In this reading attributes are the same in some order. -/
theorem matches_discreet (st : Dict Value) : (discreetReading s me).Matches st SameAttrs := by
  intro attrs f f' ws ws' as as' hff hws hws' has has'
  rw [faces_discreet, faces_discreet] at hff
  obtain rfl := hff
  have hbound : ∀ {bound : List (Text × View.Binding)} {ws ws' : List Value},
      List.Forall₂ (fun a w => (discreetReading s me).Near a.2 f w st) bound ws →
      List.Forall₂ (fun a w => (discreetReading s me).Near a.2 f w st) bound ws' → ∀ name,
      EqualTexts ((Dict.get? ((bound.zip ws).map fun p => (p.1.1, attrText p.2)) name).getD none)
        ((Dict.get? ((bound.zip ws').map fun p => (p.1.1, attrText p.2)) name).getD none) := by
    intro bound ws ws' h h' name
    induction h generalizing ws' with
    | nil =>
      cases h'
      exact .inl rfl
    | @cons a w _ _ hw _ ih =>
      obtain ⟨w', rest', hw', hrest', rfl⟩ := List.forall₂_cons_left_iff.1 h'
      simp only [List.zip_cons_cons, List.map_cons, Dict.get?]
      split
      · exact .inr ⟨_, _, _, hw, hw', rfl, rfl⟩
      · exact ih hrest'
  have htext : ∀ name, EqualTexts (Dict.get? as name) (Dict.get? as' name) := by
    intro name
    rw [has.get, has'.get, Reading.attrSpec, Reading.attrSpec, Dict.get?_append, Dict.get?_append]
    cases Dict.get? ((View.fixedAttrs attrs).map fun a => (a.1, some a.2)) name with
    | some t => exact .inl rfl
    | none => exact hbound hws hws' name
  refine ⟨(List.perm_ext_iff_of_nodup has.nodup has'.nodup).2 fun name => ?_, htext⟩
  have hsome := (htext name).isSome
  rw [← Dict.has_iff_mem_keys, ← Dict.has_iff_mem_keys, Dict.has, Dict.has, hsome]

end

/-! ### Another site -/

namespace Reading

variable {s s' : Site σ} {R : Reading s} {R' : Reading s'} {st : Dict Value}

/-- Readings, of two sites even, by which bindings have the same values. -/
structure Agrees (R : Reading s) (R' : Reading s') : Prop where
  val : R'.val = R.val
  face : R'.face = R.face
  near : R'.Near = R.Near

/-- What a binding is worth does not depend on the site. -/
theorem agrees_discreet (s s' : Site σ) (me : Option Value) :
    (discreetReading s me).Agrees (discreetReading s' me) :=
  ⟨rfl, rfl, rfl⟩

theorem Agrees.faces (h : R.Agrees R') (f : Frame) : R'.faces f = R.faces f := by
  rw [Reading.faces, Reading.faces, h.face]

theorem Agrees.firstTrue (h : R.Agrees R') (f : Frame) (i : Nat) (tests : List View.Binding) :
    R'.firstTrue f st i tests = R.firstTrue f st i tests := by
  induction tests generalizing i with
  | nil => rfl
  | cons t r ih => rw [Reading.firstTrue, Reading.firstTrue, h.val, h.faces, ih]

theorem Agrees.choice (h : R.Agrees R') (f : Frame) (branches : List View.Branch)
    (other : View.Otherwise) : R'.choice f st branches other = R.choice f st branches other := by
  rw [Reading.choice, Reading.choice, h.firstTrue]

mutual

/-- What a tree shows by one reading it shows by the other. -/
theorem Agrees.shows (h : R.Agrees R') : ∀ (v : View.Node) {f : Frame} {t : Tree},
    R.Shows st f v t → R'.Shows st f v t
  | .fixed _ value, _, _, ht => ht
  | .text _ b, f, _, ht => by
    obtain ⟨i, cell, n, rfl, hcell⟩ := ht
    exact ⟨i, cell, n, by rw [h.val, h.faces], hcell⟩
  | .elem _ tag attrs _ _ children, f, _, ht => by
    obtain ⟨i, cell, n, as, kids, rfl, hcell, hids, hnear, has, hkids⟩ := ht
    refine ⟨i, cell, n, as, kids, rfl, hcell, hids, ?_, has, h.showsAll children hkids⟩
    rwa [h.near]
  | .cond _ branches other, f, _, ht => by
    obtain ⟨i, cell, a, kids, rfl, hcell, hchoice, hkids⟩ := ht
    refine ⟨i, cell, a, kids, rfl, hcell, hchoice.trans (h.choice f branches other).symm, ?_⟩
    cases hshown : cell.shown with
    | none =>
      rw [hshown] at hkids
      exact hkids
    | some x =>
      obtain ⟨key, b⟩ := x
      rw [hshown] at hkids
      obtain ⟨kid, rfl, hid, hkid⟩ := hkids
      refine ⟨kid, rfl, hid, ?_⟩
      by_cases hlt : key < branches.length
      · rw [if_pos hlt] at hkid ⊢
        exact h.showsBranch branches hkid
      · rw [if_neg hlt] at hkid ⊢
        exact h.showsOtherwise other hkid
  | .each _ list item index body, f, _, ht => by
    obtain ⟨i, cell, a, kids, rfl, hcell, hids, xs, hxs, hkids⟩ := ht
    refine ⟨i, cell, a, kids, rfl, hcell, hids, xs, by rw [h.val, h.faces, h.face, hxs], ?_⟩
    exact hkids.imp fun _ _ hkid => h.shows body hkid
  | .fragment _ children, f, _, ht => by
    obtain ⟨i, cell, a, kids, rfl, hcell, hmounted, hids, hkids⟩ := ht
    exact ⟨i, cell, a, kids, rfl, hcell, hmounted, hids, h.showsAll children hkids⟩

theorem Agrees.showsAll (h : R.Agrees R') : ∀ (vs : List View.Node) {f : Frame} {ts : List Tree},
    R.showsAll st f vs ts → R'.showsAll st f vs ts
  | [], _, _, ht => ht
  | v :: rest, _, _, ht => by
    obtain ⟨t, ts, rfl, ht, hts⟩ := ht
    exact ⟨t, ts, rfl, h.shows v ht, h.showsAll rest hts⟩

theorem Agrees.showsBranch (h : R.Agrees R') : ∀ (branches : List View.Branch) {k : Nat} {f : Frame}
    {t : Tree}, R.showsBranch st f k branches t → R'.showsBranch st f k branches t
  | .mk _ body :: _, 0, _, _, ht => h.shows body ht
  | _ :: rest, _ + 1, _, _, ht => h.showsBranch rest ht

theorem Agrees.showsOtherwise (h : R.Agrees R') : ∀ (o : View.Otherwise) {f : Frame} {t : Tree},
    R.showsOtherwise st f o t → R'.showsOtherwise st f o t
  | .body n, _, _, ht => h.shows n ht

end

/-- A part that shows its view by one reading shows it by the other. -/
theorem Agrees.stands (h : R.Agrees R') {part : Part} {f : Frame} {id : BlockId} {w : Stage σ}
    {ts : List Tree} (hs : R.Stands st f id w ts part) : R'.Stands st f id w ts part := by
  cases part with
  | node v =>
    obtain ⟨t, rfl, hid, ht⟩ := hs
    exact ⟨t, rfl, hid, h.shows v ht⟩
  | whole vs => exact ⟨hs.1, hs.2.1, h.showsAll vs hs.2.2⟩

end Reading

end Block

end Reactive
