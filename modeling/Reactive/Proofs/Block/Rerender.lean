/-
Patching agrees with rendering anew.

A part of a view is rendered in one state and then patched, step by step, with
other states.  Each step comes with a mask that has a bit of every key whose
value differs.  If what a binding is worth depends only on the loop variables
around it and on the state it mentions, then in the end the document is the
one that rendering in the last state would have given.

* `Site.Steady`, `Site.Prints` — what is asked of bindings;
* `Bits.Marks.get?_eq` — a mask that misses a binding misses all that it
  mentions;
* `Site.patches_agree_with_render` — the agreement.
-/
import Reactive.Block.Session
import Reactive.Proofs.Bits
import Reactive.Proofs.Block.Parts

namespace Reactive

/-! ### Masks -/

namespace Bits

theorem and_mask_eq_zero (bits : Bits) {dirty : Mask} {names : List Text}
    (h : dirty &&& bits.mask names = 0) : ∀ n ∈ names, dirty &&& bits.bit n = 0 := by
  intro n hn
  by_contra hne
  obtain ⟨i, hi⟩ := ne_zero_iff.1 hne
  rw [hasPlace_and] at hi
  exact ne_zero_iff.2 ⟨i, hasPlace_and.2 ⟨hi.1, hasPlace_mask.2 ⟨n, hn, hi.2⟩⟩⟩ h

/-- A mask that has a bit of every key whose value differs. -/
def Marks (bits : Bits) (dirty : Mask) (st st' : Dict Value) : Prop :=
  ∀ key, st.get? key ≠ st'.get? key → dirty &&& bits.bit key ≠ 0

/-- A mask that misses a binding misses all that it mentions. -/
theorem Marks.get?_eq {bits : Bits} {dirty : Mask} {st st' : Dict Value}
    (h : bits.Marks dirty st st') {names : List Text} (hmask : dirty &&& bits.mask names = 0) :
    ∀ n ∈ names, st.get? n = st'.get? n := by
  intro n hn
  by_contra hne
  exact h n hne (bits.and_mask_eq_zero hmask n hn)

end Bits

namespace Block

open Dom (NodeId)
open Reactive.Block.Tree (htmlAll)

variable {σ : Type}

/-! ### Runs -/

/-- Render a part into a new element; also its block. -/
def Part.render (part : Part) (s : Site σ) (frame : Frame) (state : Dict Value) :
    Run (Stage σ) (BlockId × NodeId) := do
  let div ← onDoc (·.createElement "div")
  let id ← part.create frame
  part.mount s state id div none
  return (id, div)

/-- Patch a part again and again, each time with a mask and a state. -/
def Part.patches (part : Part) (s : Site σ) (id : BlockId) :
    List (Mask × Dict Value) → Run (Stage σ) Unit
  | [] => return
  | (dirty, state) :: r => do
    part.patch s dirty state id
    part.patches s id r

/-- The state after some steps. -/
def lastState (state : Dict Value) : List (Mask × Dict Value) → Dict Value
  | [] => state
  | (_, state') :: r => lastState state' r

/-- Steps whose masks have a bit of every key whose value differs from the step before. -/
def MarksAll (bits : Bits) (state : Dict Value) : List (Mask × Dict Value) → Prop
  | [] => True
  | (dirty, state') :: r => bits.Marks dirty state state' ∧ MarksAll bits state' r

/-! ### Bindings -/

/-- What an outcome is read as: a failure is undefined. -/
def readOutcome : Except EvalError Value → Value
  | .ok v => v
  | .error _ => .undefined

section

variable (s : Site σ) (frames : Frame → Prop) (states : Dict Value → Prop)
  (answer : View.Binding → Frame → Dict Value → Except EvalError Value)

/-- A binding that is evaluated to an answer that is settled by the loop variables and by the state
that it mentions, without an effect on the stage; in rounds over what it answers, frames are as
they should be. -/
structure Site.Steady (locals : List Text) (b : View.Binding) : Prop where
  answers : ∀ {f : Frame} {st : Dict Value} (m : Machine (Stage σ)), frames f → f.Covers locals →
    states st → ∃ m', s.outcome (.snapshot st) f b.expr m = .ok (answer b f st, m') ∧
      m'.host = m.host
  depends : ∀ {f : Frame} {st st' : Dict Value}, frames f → f.Covers locals → states st →
    states st' → (∀ n ∈ b.state, st.get? n = st'.get? n) → answer b f st = answer b f st'
  rounds : ∀ {f : Frame} {st : Dict Value} {vs : List Value}, frames f → f.Covers locals →
    states st → answer b f st = .ok (.list vs) → ∀ (item index : Text) (x : Value) (i : Nat),
    (x, i) ∈ vs.zipIdx → frames (roundVars item index i x :: f)

/-- A binding whose equal values have the same text. -/
def Prints (locals : List Text) (b : View.Binding) : Prop :=
  ∀ (f : Frame) (st st' : Dict Value), frames f → f.Covers locals → states st → states st' →
    (readOutcome (answer b f st)).equal (readOutcome (answer b f st')) = true →
    (readOutcome (answer b f st)).toText = (readOutcome (answer b f st')).toText

/-- A stage on which all blocks and listeners have frames as they should be. -/
def Stage.Within (w : Stage σ) : Prop :=
  (∀ c ∈ w.cells, frames c.frame) ∧ ∀ l ∈ w.doc.listeners, frames l.action.frame

/-- Bindings read as what they answer. -/
def Site.reading : Reading s where
  stops _ := False
  Sane _ := True
  Later _ _ := True
  Fits _ f := frames f
  Known _ st := states st
  face v := v
  val b f st := readOutcome (answer b f st)
  Near b f w st := attrText w = attrText (readOutcome (answer b f st)) ∧
    ∃ st₀, states st₀ ∧ w = readOutcome (answer b f st₀)
  Reads locals b := s.Steady frames states answer locals b
  Attr locals b := s.Steady frames states answer locals b ∧ Prints frames states answer locals b

end

section

variable {s : Site σ} {frames : Frame → Prop} {states : Dict Value → Prop}
  {answer : View.Binding → Frame → Dict Value → Except EvalError Value}

/-- Equal values of the same text are the same attribute. -/
theorem attrText_of_equal {v w : Value} (h : v.equal w = true) (ht : v.toText = w.toText) :
    attrText v = attrText w := by
  cases v with
  | bool a =>
    cases w with
    | bool b =>
      obtain rfl : a = b := by simpa [Value.equal] using h
      rfl
    | _ => simp [Value.equal] at h
  | null =>
    cases w with
    | null => rfl
    | _ => simp [Value.equal] at h
  | undefined =>
    cases w with
    | undefined => rfl
    | _ => simp [Value.equal] at h
  | _ =>
    cases w with
    | bool | null | undefined => simp [Value.equal] at h
    | _ => exact congrArg some ht

@[simp] theorem faces_reading (f : Frame) :
    (s.reading frames states answer).faces f = f := by
  have hvars : ∀ vars : Dict Value, vars.map (fun p => (p.1, p.2)) = vars := fun vars => List.map_id _
  exact (List.map_congr_left fun vars _ => hvars vars).trans (List.map_id _)

theorem lawful_reading : (s.reading frames states answer).Lawful where
  sane_congr _ _ _ _ := trivial
  later_congr _ _ := trivial
  later_trans _ _ := trivial
  fits_later _ h := h
  known_later _ h := h
  reads_of_attr h := h.1
  display _ := rfl
  truthy _ := rfl
  items v := (List.map_id _).symm
  int _ := rfl
  eval := by
    intro locals b m f st hb hcov _ hf hst
    obtain ⟨m₁, hrun, hhost⟩ := hb.answers m hf hcov hst
    rw [faces_reading]
    unfold Site.evaluate
    rw [Run.after_bind, Run.after_of_ok hrun]
    have hrounds := @hb.rounds f st
    cases hanswer : answer b f st with
    | ok v =>
      refine ⟨congrArg readOutcome hanswer.symm, hhost, trivial, trivial, ?_⟩
      intro x i item index hmem
      cases v with
      | list vs => exact hrounds hf hcov hst hanswer item index x i hmem
      | _ => cases hmem
    | error e =>
      refine ⟨congrArg readOutcome hanswer.symm, hhost, trivial, trivial, ?_⟩
      intro x i item index hmem
      cases hmem
  near_new := by
    intro locals b m f st v _ _ hst hv
    rw [faces_reading] at hv
    have hv : v = readOutcome (answer b f st) := hv
    exact ⟨congrArg attrText hv, st, hst, hv⟩

theorem tracks_reading : (s.reading frames states answer).Tracks where
  deps := by
    intro locals b m f st st' hb hcov hf hst hst' heq
    rw [faces_reading]
    exact congrArg readOutcome (hb.depends hf hcov hst hst' heq)
  near_keep := by
    intro b f st st' w hnear hval
    rw [faces_reading] at hval
    exact ⟨hnear.1.trans (congrArg attrText hval), hnear.2⟩
  near_equal := by
    rintro locals b m f st st' v w hb hcov hf hst' ⟨-, st₀, hst₀, rfl⟩ hv heq
    rw [faces_reading] at hv
    have hv : v = readOutcome (answer b f st') := hv
    rw [hv] at heq
    refine ⟨(attrText_of_equal heq ?_).symm, st₀, hst₀, rfl⟩
    exact hb.2 f st' st₀ hf hcov hst' hst₀ heq

/-- In this reading attributes are the same in some order. -/
theorem matches_reading (st : Dict Value) :
    (s.reading frames states answer).Matches st List.Perm := by
  intro attrs f f' ws ws' as as' hff hws hws' has has'
  rw [faces_reading, faces_reading] at hff
  subst hff
  have htexts : ∀ {bound : List (Text × View.Binding)} {ws ws' : List Value},
      List.Forall₂ (fun a w => (s.reading frames states answer).Near a.2 f w st) bound ws →
      List.Forall₂ (fun a w => (s.reading frames states answer).Near a.2 f w st) bound ws' →
      (bound.zip ws).map (fun p => (p.1.1, attrText p.2)) =
        (bound.zip ws').map fun p => (p.1.1, attrText p.2) := by
    intro bound ws ws' h h'
    induction h generalizing ws' with
    | nil =>
      cases h'
      rfl
    | cons hw _ ih =>
      obtain ⟨w', rest', hw', hrest', rfl⟩ := List.forall₂_cons_left_iff.1 h'
      rw [List.zip_cons_cons, List.zip_cons_cons, List.map_cons, List.map_cons, ih hrest', hw.1,
        hw'.1]
  refine has.perm ?_
  rw [Reading.attrSpec, htexts hws hws']
  exact has'

end

/-! ### Names as bindings -/

/-- What a name stands for in a frame over a state. -/
def nameIn (n : Text) (st : Dict Value) : Frame → Option Value
  | [] => (st.get? n).or (Globals.get? n)
  | vars :: outer => (vars.get? n).or (nameIn n st outer)

/-- The outcome of a name in a frame over a state. -/
def nameOutcome (n : Text) (f : Frame) (st : Dict Value) : Except EvalError Value :=
  match nameIn n st f with
  | some v => .ok v
  | none => if n = "this" then .ok .undefined else .error (.notDefined n)

theorem lookup_push (h : Host (Stage σ)) (m : Machine (Stage σ)) (sc : Scope) (name : Text)
    (id : Nat) (hid : id < m.scopes.size) :
    Machine.lookup h { m with scopes := m.scopes.push sc } id name = m.lookup h id name := by
  induction id using Nat.strongRecOn with
  | ind id ih =>
    rw [Machine.lookup, Machine.lookup]
    have hget : ({ m with scopes := m.scopes.push sc } : Machine (Stage σ)).scopes[id]? =
        m.scopes[id]? := Array.getElem?_push_lt hid |>.trans (Array.getElem?_eq_getElem hid).symm
    rw [hget]
    cases m.scopes[id]? with
    | none => rfl
    | some s =>
      dsimp only
      cases s.vars.get? name with
      | some v => rfl
      | none =>
        dsimp only
        cases s.outer with
        | store st => cases st <;> rfl
        | scope p =>
          dsimp only
          by_cases hp : p < id
          · rw [if_pos hp, if_pos hp]
            exact ih p hp (Nat.lt_trans hp hid)
          · rw [if_neg hp, if_neg hp]

/-- The scope of a frame over a snapshot. -/
theorem frameScope_lookup (h : Host (Stage σ)) (st : Dict Value) : ∀ (f : Frame)
    (m : Machine (Stage σ)), ∃ env m', frameScope (.snapshot st) f m = .ok (env, m') ∧
      env < m'.scopes.size ∧ m'.host = m.host ∧ ∀ n, m'.lookup h env n = nameIn n st f
  | [], m => by
    refine ⟨_, _, rfl, by simp, rfl, fun n => ?_⟩
    rw [Machine.lookup]
    simp only [Array.getElem?_push_size, Dict.get?_nil, Store.read, nameIn]
    cases st.get? n <;> rfl
  | vars :: outer, m => by
    obtain ⟨env, m₁, hrun, hlt, hhost, hlookup⟩ := frameScope_lookup h st outer m
    refine ⟨m₁.scopes.size, { m₁ with scopes := m₁.scopes.push ⟨vars, [], .scope env⟩ }, ?_, by simp,
      hhost, fun n => ?_⟩
    · rw [frameScope, Run.bind_ok hrun]
      rfl
    · rw [Machine.lookup]
      simp only [Array.getElem?_push_size, if_pos hlt, nameIn]
      rw [lookup_push h m₁ _ n env hlt, hlookup]
      cases vars.get? n <;> rfl

theorem outcomeIn_name (c : Caller (Stage σ)) (st : Dict Value) (f : Frame) (pos : Nat) (n : Text)
    (m : Machine (Stage σ)) : ∃ m', outcomeIn c (.snapshot st) f (.ident pos n) m =
      .ok (nameOutcome n f st, m') ∧ m'.host = m.host := by
  obtain ⟨env, m₁, hrun, -, hhost, hlookup⟩ := frameScope_lookup c.host st f m
  refine ⟨m₁, ?_, hhost⟩
  rw [outcomeIn, Run.bind_ok hrun, nameOutcome, ← hlookup]
  have hresolve : ExceptT.run (resolve c.host env n) m₁ =
      .ok (match m₁.lookup c.host env n with
        | some v => .ok v
        | none => if n = "this" then .ok .undefined else .error (.notDefined n), m₁) := by
    rw [resolve_run]
    cases m₁.lookup c.host env n with
    | some v => rfl
    | none =>
      dsimp only
      split <;> rfl
  show (chainValue (some <$> resolve c.host env n)).run m₁ = _
  rw [chainValue, map_eq_pure_bind, bind_assoc, ExceptT.run_bind, Run.bind_ok hresolve]
  cases m₁.lookup c.host env n with
  | some v => rfl
  | none =>
    dsimp only
    split <;> rfl

/-- What a binding that is a name answers. -/
def nameAnswer (b : View.Binding) (f : Frame) (st : Dict Value) : Except EvalError Value :=
  match b.expr with
  | .ident _ n => nameOutcome n f st
  | _ => .ok .undefined

/-- A binding that is a name of the state. -/
def stateName (n : Text) : View.Binding := ⟨n, .ident 0 n, [n], []⟩

/-- A binding that is a loop variable. -/
def loopName (n : Text) : View.Binding := ⟨n, .ident 0 n, [], [n]⟩

theorem nameIn_congr {n : Text} {st st' : Dict Value} (h : st.get? n = st'.get? n) (f : Frame) :
    nameIn n st f = nameIn n st' f := by
  induction f with
  | nil => rw [nameIn, nameIn, h]
  | cons vars r ih => rw [nameIn, nameIn, ih]

theorem nameIn_of_binds {n : Text} {f : Frame} (h : f.Binds n) (st st' : Dict Value) :
    nameIn n st f = nameIn n st' f := by
  induction f with
  | nil =>
    obtain ⟨vars, hmem, -⟩ := h
    cases hmem
  | cons vars r ih =>
    rw [nameIn, nameIn]
    cases hv : vars.get? n with
    | some v => rfl
    | none =>
      obtain ⟨vars', hmem, hhas⟩ := h
      rcases List.mem_cons.1 hmem with rfl | hmem
      · rw [Dict.has, hv] at hhas
        cases hhas
      · rw [ih ⟨vars', hmem, hhas⟩]

theorem steady_stateName (s : Site σ) (hs : s.outcome = outcomeIn s.caller)
    (states : Dict Value → Prop) (locals : List Text) (n : Text) :
    s.Steady (fun _ => True) states nameAnswer locals (stateName n) where
  answers := by
    intro f st m _ _ _
    rw [hs]
    exact outcomeIn_name s.caller st f 0 n m
  depends := by
    intro f st st' _ _ _ _ heq
    show nameOutcome n f st = nameOutcome n f st'
    rw [nameOutcome, nameOutcome, nameIn_congr (heq n List.mem_cons_self)]
  rounds := fun _ _ _ _ _ _ _ _ _ => trivial

theorem steady_loopName (s : Site σ) (hs : s.outcome = outcomeIn s.caller)
    (states : Dict Value → Prop) {locals : List Text} {n : Text} (hn : n ∈ locals) :
    s.Steady (fun _ => True) states nameAnswer locals (loopName n) where
  answers := by
    intro f st m _ _ _
    rw [hs]
    exact outcomeIn_name s.caller st f 0 n m
  depends := by
    intro f st st' _ hcov _ _ _
    show nameOutcome n f st = nameOutcome n f st'
    rw [nameOutcome, nameOutcome, nameIn_of_binds (hcov n hn) st st']
  rounds := fun _ _ _ _ _ _ _ _ _ => trivial

theorem nameIn_of_not_binds {n : Text} {f : Frame} (h : ¬f.Binds n) (st : Dict Value) :
    nameIn n st f = (st.get? n).or (Globals.get? n) := by
  induction f with
  | nil => rfl
  | cons vars r ih =>
    have hv : vars.get? n = none := by
      cases hv : vars.get? n with
      | none => rfl
      | some v => exact absurd ⟨vars, List.mem_cons_self, by rw [Dict.has, hv]; rfl⟩ h
    rw [nameIn, hv, Option.none_or]
    refine ih fun hr => h ?_
    obtain ⟨vars', hmem, hhas⟩ := hr
    exact ⟨vars', List.mem_cons_of_mem _ hmem, hhas⟩

theorem prints_loopName (states : Dict Value → Prop) {locals : List Text} {n : Text}
    (hn : n ∈ locals) : Prints (fun _ => True) states nameAnswer locals (loopName n) := by
  intro f st st' _ hcov _ _ _
  show (readOutcome (nameOutcome n f st)).toText = (readOutcome (nameOutcome n f st')).toText
  rw [nameOutcome, nameOutcome, nameIn_of_binds (hcov n hn) st st']

/-- A name that always stands for a string. -/
theorem prints_stateName {states : Dict Value → Prop} {n : Text}
    (hn : ∀ st, states st → ∃ t, st.get? n = some (.str t)) (locals : List Text) :
    Prints (fun _ => True) states nameAnswer locals (stateName n) := by
  intro f st st' _ _ hst hst' heq
  have hanswer : ∀ st, nameAnswer (stateName n) f st = nameOutcome n f st := fun _ => rfl
  rw [hanswer, hanswer] at heq ⊢
  by_cases hf : f.Binds n
  · rw [nameOutcome, nameOutcome, nameIn_of_binds hf st st']
  · obtain ⟨t, ht⟩ := hn st hst
    obtain ⟨t', ht'⟩ := hn st' hst'
    rw [nameOutcome, nameOutcome, nameIn_of_not_binds hf, nameIn_of_not_binds hf, ht, ht'] at heq ⊢
    have : t = t' := by simpa [readOutcome, Value.equal] using heq
    rw [this]

/-! ### The agreement -/

section

variable {s : Site σ} {frames : Frame → Prop} {states : Dict Value → Prop}
  {answer : View.Binding → Frame → Dict Value → Except EvalError Value} {part : Part}
  {frame : Frame} {st : Dict Value}

/-- A part that is rendered into a new element is all that stands in it. -/
theorem after_render {R : Reading s} (hR : R.Lawful) (hplain : part.Plain)
    (hev : part.Every R.Reads R.Attr []) {m : Machine (Stage σ)} (h : R.Fine m)
    (hf : R.Fits m frame) (hst : R.Known m st) :
    Run.After R.stops (part.render s frame st) (fun x m' => R.Next m m' ∧ ∃ ts,
      Placed m'.host x.2 { content := .element (Text.lower "div") } [] ts [] ∧
      R.Stands st frame x.1 m'.host ts part) m := by
  have hcreate : R.Next m { m with
      host := { m.host with doc := (m.host.doc.createElement "div").2 } } :=
    h.onDoc hR fun _ hl => hl
  have hplace : Placed { m.host with doc := (m.host.doc.createElement "div").2 }
      m.host.doc.nodes.size { content := .element (Text.lower "div") } [] [] [] := by
    refine ⟨?_, rfl, trivial, List.nodup_nil, List.nodup_nil, List.not_mem_nil, List.nodup_nil,
      fun _ hk => absurd hk List.not_mem_nil⟩
    show (m.host.doc.create _).2.nodes[m.host.doc.nodes.size]? = _
    rw [Dom.Document.getElem?_create, if_pos rfl]
    rfl
  unfold Part.render
  rw [Run.after_bind, after_onDoc]
  refine (Reading.after_createPart hR hcreate.fine (hR.fits_later hcreate.later hf) part).bind ?_
  rintro id m₁ ⟨bs, hmakes, hfresh⟩
  have h₁ := hmakes.turns hplace
  have hlater := hR.later_trans hcreate.later h₁.next.later
  refine (Reading.after_mountPart hR hplain hev h₁.fine (hR.fits_later hlater hf)
    (fun _ hn => absurd hn List.not_mem_nil) (hR.known_later hlater hst) hfresh hmakes.nodup
    h₁.placed).bind ?_
  rintro _ m₂ ⟨ts, h₂, hstands⟩
  exact ⟨(hcreate.trans hR h₁.next).trans hR h₂.next, ts, h₂.placed, hstands⟩

/-- A mask with a bit of every key that differs tells blocks all they need. -/
theorem tells_of_marks {dirty : Mask} {st' : Dict Value} (h : s.bits.Marks dirty st st') :
    Reading.Tells s dirty st st' := by
  intro b hb
  refine h.get?_eq ?_
  simpa [Site.isDirty, Site.mask] using hb

/-- A part stays in its place and shows the last state after any number of patches. -/
theorem after_patches {R : Reading s} (hR : R.Lawful) (hT : R.Tracks) (hplain : part.Plain)
    (hev : part.Every R.Reads R.Attr []) {id : BlockId} {p : NodeId} {y : Dom.Node}
    {pre post : List NodeId} : ∀ (steps : List (Mask × Dict Value)) {m : Machine (Stage σ)}
    {st : Dict Value} {ts : List Tree}, R.Fine m → R.Known m st →
    (∀ x ∈ steps, R.Known m x.2) → MarksAll s.bits st steps → R.Stands st frame id m.host ts part →
    Placed m.host p y pre ts post →
    Run.After R.stops (part.patches s id steps) (fun _ m' => R.Fine m' ∧ ∃ ts',
      Placed m'.host p y pre ts' post ∧ R.Stands (lastState st steps) frame id m'.host ts' part) m
  | [], m, st, ts, h, _, _, _, hstands, hp => ⟨h, ts, hp, hstands⟩
  | (dirty, st') :: r, m, st, ts, h, hst, hsteps, hmarks, hstands, hp => by
    obtain ⟨hst', hr⟩ := List.forall_mem_cons.1 hsteps
    refine (Reading.after_patchPart hR hT (tells_of_marks hmarks.1) hplain hev h
      (fun _ hn => absurd hn List.not_mem_nil) hst hst' hstands hp).bind ?_
    rintro _ m₁ ⟨ts₁, h₁, hstands₁⟩
    have hlater := h₁.next.later
    exact after_patches hR hT hplain hev r h₁.fine (hR.known_later hlater hst')
      (fun x hx => hR.known_later hlater (hr x hx)) hmarks.2 hstands₁ h₁.placed

theorem childrenHtml_of_placed {w : Stage σ} {p : NodeId} {y : Dom.Node} {ts : List Tree}
    (h : Placed w p y [] ts []) : w.doc.childrenHtml false p = htmlAll ts := by
  refine h.holds.childrenHtml h.nodes ?_
  rw [h.row, List.nil_append, List.append_nil]

/-- Patching agrees with rendering anew: a part that is rendered and then patched with masks that
tell all changes ends up as the part rendered in the last state, up to the order of attributes.
Both runs give an answer. -/
theorem Site.patches_agree_with_render (s : Site σ) (frames : Frame → Prop)
    (states : Dict Value → Prop)
    (answer : View.Binding → Frame → Dict Value → Except EvalError Value) {part : Part}
    (hplain : part.Plain)
    (hbindings : part.Every (s.Steady frames states answer) (fun locals b =>
      s.Steady frames states answer locals b ∧ Prints frames states answer locals b) [])
    {frame : Frame} (hframe : frames frame) {st : Dict Value} (hst : states st)
    {steps : List (Mask × Dict Value)} (hsteps : ∀ x ∈ steps, states x.2)
    (hmarks : MarksAll s.bits st steps) {m m' : Machine (Stage σ)}
    (hm : m.host.Within frames) (hm' : m'.host.Within frames) :
    ∃ x n x' n',
      (do let x ← part.render s frame st; part.patches s x.1 steps; return x) m = .ok (x, n) ∧
      part.render s frame (lastState st steps) m' = .ok (x', n') ∧
      Html.alikeAll List.Perm (n.host.doc.childrenHtml false x.2)
        (n'.host.doc.childrenHtml false x'.2) := by
  have hR : (s.reading frames states answer).Lawful := lawful_reading
  have hlast : ∀ (steps : List (Mask × Dict Value)) {st : Dict Value}, states st →
      (∀ x ∈ steps, states x.2) → states (lastState st steps) := by
    intro steps
    induction steps with
    | nil => exact fun hst _ => hst
    | cons x r ih =>
      intro st _ hsteps
      exact ih (hsteps x List.mem_cons_self) fun z hz => hsteps z (List.mem_cons_of_mem _ hz)
  -- The run: rendered, then patched.
  have hrun : Run.After (s.reading frames states answer).stops
      (do let x ← part.render s frame st; part.patches s x.1 steps; return x)
      (fun x n => ∃ ts, Placed n.host x.2 { content := .element (Text.lower "div") } [] ts [] ∧
        (s.reading frames states answer).Stands (lastState st steps) frame x.1 n.host ts part) m := by
    refine (after_render hR hplain hbindings ⟨trivial, hm.1, hm.2⟩ hframe hst).bind ?_
    rintro x n₁ ⟨hnext, ts, hplaced, hstands⟩
    refine (after_patches hR tracks_reading hplain hbindings steps hnext.fine hst hsteps hmarks
      hstands hplaced).bind ?_
    rintro _ n₂ ⟨-, ts', hplaced', hstands'⟩
    exact ⟨ts', hplaced', hstands'⟩
  obtain ⟨x, n, hx, ts, hplaced, hstands⟩ := hrun.exists_ok
  obtain ⟨x', n', hx', -, ts', hplaced', hstands'⟩ := (after_render hR hplain hbindings
    ⟨trivial, hm'.1, hm'.2⟩ hframe (hlast steps hst hsteps)).exists_ok
  refine ⟨x, n, x', n', hx, hx', ?_⟩
  rw [childrenHtml_of_placed hplaced, childrenHtml_of_placed hplaced']
  exact Reading.alike_of_stands hR (matches_reading _) rfl hstands hstands'

end

/-- A view with a choice, a loop and bound attributes; nothing has the name `author`. -/
def catalogue : Part :=
  .whole [
    .cond 0 [.mk (stateName "open") (.elem 1 "h2"
        [.fixed "id" "top", .bound "title" (stateName "title")] [] [] [.text 2 (stateName "title")])]
      (.body (.elem 3 "em" [] [] [] [.text 4 (stateName "author")])),
    .each 5 (stateName "items") "item" "" (.elem 6 "li" [.bound "class" (loopName "item")] [] []
      [.text 7 (loopName "item"), .text 8 (stateName "title")])]

/-- A catalogue that is open. -/
def openCatalogue : Dict Value :=
  [("open", .bool true), ("title", .str "a"), ("items", .list [.str "x", .str "y"])]

/-- It is closed, then it gets another title and other items. -/
def catalogueSteps : List (Mask × Dict Value) :=
  [(1, [("open", .bool false), ("title", .str "a"), ("items", .list [.str "x", .str "y"])]),
    (6, [("open", .bool false), ("title", .str "b"), ("items", .list [.str "z", .str "x"])])]

/-- The place of a catalogue. -/
def catalogueSite : Site Sandbox := sandboxSite {} (.ofNames ["open", "title", "items"])

theorem marks_catalogue : MarksAll catalogueSite.bits openCatalogue catalogueSteps := by
  refine ⟨fun key hne => ?_, fun key hne => ?_, trivial⟩
  · by_cases hopen : ("open" : Text) = key
    · rw [← hopen]
      decide
    · exact absurd (by simp [openCatalogue, Dict.get?, hopen]) hne
  · by_cases htitle : ("title" : Text) = key
    · rw [← htitle]
      decide
    by_cases hitems : ("items" : Text) = key
    · rw [← hitems]
      decide
    exact absurd (by simp [Dict.get?, htitle, hitems]) hne

theorem Site.patches_agree_with_render_catalogue :
    MarksAll catalogueSite.bits openCatalogue catalogueSteps ∧ ∃ x n x' n',
      (do let x ← catalogue.render catalogueSite [] openCatalogue
          catalogue.patches catalogueSite x.1 catalogueSteps
          return x) { host := { own := { state := openCatalogue } } } = .ok (x, n) ∧
      catalogue.render catalogueSite [] (lastState openCatalogue catalogueSteps)
        { host := { own := { state := openCatalogue } } } = .ok (x', n') ∧
      Html.alikeAll List.Perm (n.host.doc.childrenHtml false x.2)
        (n'.host.doc.childrenHtml false x'.2) := by
  have hstate : ∀ locals n, catalogueSite.Steady (fun _ => True)
      (fun st => ∃ t, st.get? "title" = some (.str t)) nameAnswer locals (stateName n) :=
    fun locals n => steady_stateName catalogueSite rfl _ locals n
  have hitem : ("item" : Text) ∈ View.loopNames "item" "" [] := by decide
  have hwithin : ∀ w : Stage Sandbox, w.Within fun _ => True :=
    fun w => ⟨fun _ _ => trivial, fun _ _ => trivial⟩
  refine ⟨marks_catalogue, Site.patches_agree_with_render catalogueSite (fun _ => True)
    (fun st => ∃ t, st.get? "title" = some (.str t)) nameAnswer ?_ ?_ trivial ⟨"a", rfl⟩ ?_
    marks_catalogue (hwithin _) (hwithin _)⟩
  · refine ⟨⟨⟨⟨rfl, by decide, trivial, trivial⟩, trivial⟩, rfl, by decide, trivial, trivial⟩, ?_,
      trivial⟩
    exact ⟨rfl, by decide, trivial, trivial, trivial⟩
  · refine ⟨⟨⟨⟨hstate _ _, ?_, hstate _ _, trivial⟩, trivial⟩, ?_, hstate _ _, trivial⟩,
      ⟨hstate _ _, ?_, ?_, hstate _ _, trivial⟩, trivial⟩
    · intro a ha
      rw [List.mem_singleton.1 ha]
      exact ⟨hstate _ _, prints_stateName (fun _ h => h) _⟩
    · exact fun a ha => absurd ha List.not_mem_nil
    · intro a ha
      rw [List.mem_singleton.1 ha]
      exact ⟨steady_loopName catalogueSite rfl _ hitem, prints_loopName _ hitem⟩
    · exact steady_loopName catalogueSite rfl _ hitem
  · intro x hx
    rcases List.mem_cons.1 hx with rfl | hx
    · exact ⟨"a", rfl⟩
    · rw [List.mem_singleton.1 hx]
      exact ⟨"b", rfl⟩

end Block

end Reactive
