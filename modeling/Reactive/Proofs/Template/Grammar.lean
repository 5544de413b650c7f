/-
What the parser of templates reads.

`ReadAs us p` says that the tokens `us` are those of the part `p` of a
template: a node, sibling nodes, or what follows the first branch of a choice
up to its end.  The parser takes tokens from the front that read as its answer
(`readAs_level`), so the tokens of a template read as its nodes
(`readAs_ofTokens`).
-/
import Reactive.Template.Parser

namespace Reactive.Template

/-! ### Tags -/

/-- The kinds of tokens that stand between the name of a tag and its end. -/
def TokenKind.isAttrPart : TokenKind → Bool
  | .name | .equals | .string | .template | .expr => true
  | _ => false

/-- The tokens of an opening tag that starts at an offset and ends with a kind of token. -/
def OpeningTag (start : Nat) (tag : Text) (stop : TokenKind) (us : List Token) : Prop :=
  ∃ o name attrs e, us = o :: name :: (attrs ++ [e]) ∧ o.kind = .tagOpen ∧ o.start = start ∧
    name.kind = .name ∧ name.value = tag ∧ (∀ t ∈ attrs, t.kind.isAttrPart = true) ∧ e.kind = stop

/-- The tokens of a closing tag for a tag, in whatever case it is written. -/
def ClosingTag (tag : Text) (us : List Token) : Prop :=
  ∃ o name e, us = [o, name, e] ∧ o.kind = .tagCloseOpen ∧ name.kind = .name ∧
    Text.equalFold name.value tag = true ∧ e.kind = .tagEnd

/-! ### The grammar -/

/-- A part of a template. -/
inductive Part where
  | node (x : Node)
  | nodes (xs : List Node)
  /-- What follows the first branch of a choice: more branches and what is rendered otherwise. -/
  | clauses (branches : List Branch) (otherwise : Otherwise)

/-- Tokens read as a part of a template. -/
inductive ReadAs : List Token → Part → Prop where
  | text {t : Token} : t.kind = .text ∨ t.kind = .raw → ReadAs [t] (.node (.text t.start t.value))
  | comment {t : Token} : t.kind = .comment → ReadAs [t] (.node (.comment t.start t.value))
  | mustache {t : Token} : t.kind = .expr →
      ReadAs [t] (.node (.mustache t.start t.value t.valueStart))
  | single {start tag attrs stop us} : OpeningTag start tag stop us →
      stop = .selfClose ∨ stop = .tagEnd ∧ isVoid (Text.lower tag) = true →
      ReadAs us (.node (.element start tag attrs []))
  | element {start tag attrs children us vs ws} : OpeningTag start tag .tagEnd us →
      ReadAs vs (.nodes children) → ClosingTag tag ws →
      ReadAs (us ++ (vs ++ ws)) (.node (.element start tag attrs children))
  | each {t e : Token} {head children us} : t.kind = .eachOpen →
      EachHead.ofText? t.value = some head → ReadAs us (.nodes children) → e.kind = .eachClose →
      ReadAs (t :: (us ++ [e])) (.node
        (.each t.start head.list (t.valueStart + head.listStart) head.item head.index children))
  | cond {t : Token} {children branches otherwise us vs} : t.kind = .ifOpen →
      ReadAs us (.nodes children) → ReadAs vs (.clauses branches otherwise) →
      ReadAs (t :: (us ++ vs)) (.node
        (.cond t.start (.mk t.start t.value t.valueStart children :: branches) otherwise))
  | nil : ReadAs [] (.nodes [])
  | cons {x xs us vs} : ReadAs us (.node x) → ReadAs vs (.nodes xs) →
      ReadAs (us ++ vs) (.nodes (x :: xs))
  | endIf {e : Token} : e.kind = .ifClose → ReadAs [e] (.clauses [] .nothing)
  | otherwise {t e : Token} {children us} : t.kind = .else_ → ReadAs us (.nodes children) →
      e.kind = .ifClose → ReadAs (t :: (us ++ [e])) (.clauses [] (.nodes t.start children))
  | elseIf {t : Token} {children branches otherwise us vs} : t.kind = .elseIf →
      ReadAs us (.nodes children) → ReadAs vs (.clauses branches otherwise) →
      ReadAs (t :: (us ++ vs))
        (.clauses (.mk t.start t.value t.valueStart children :: branches) otherwise)

theorem ReadAs.single_node {us : List Token} {x : Node} (h : ReadAs us (.node x)) :
    ReadAs us (.nodes [x]) := by
  have hcons := h.cons .nil
  rwa [List.append_nil] at hcons

/-! ### What the parser takes from the front of its tokens -/

namespace NodeParser

/-- A parser of siblings takes what reads as them. -/
def Reads (eof : Token) {n : Nat} (L : Level n) : Prop :=
  ∀ ⦃phase : Phase⦄ ⦃ts : List Token⦄ ⦃h : ts.length < n⦄ ⦃xs : List Node⦄ ⦃r : List Token⦄ ⦃h'⦄,
    L phase eof ts h = .ok ⟨(xs, r), h'⟩ → ∃ us, ts = us ++ r ∧ ReadAs us (.nodes xs)

theorem attrValue_kind {name v : Token} {a : Attr} (h : attrValue name v = .ok a) :
    v.kind.isAttrPart = true := by
  rw [attrValue] at h
  simp only at h
  split at h
  · rename_i hv
    rw [hv]
    rfl
  · rename_i hv
    rw [hv]
    rfl
  · rename_i hv
    rw [hv]
    rfl
  · cases h

section

variable {eof : Token} (heof : eof.kind = .eof)
include heof

/-- A token that is not the end stands at the front. -/
theorem cur_taken {ts : List Token} (h : (cur eof ts).kind ≠ .eof) : ts = cur eof ts :: ts.drop 1 := by
  cases ts with
  | nil => exact absurd heof h
  | cons t r => rfl

theorem namedAttr_taken {name : Token} {ts r : List Token} {a : Attr} {h}
    (hs : namedAttr eof name ts = .ok ⟨(a, r), h⟩) :
    ∃ us, ts = us ++ r ∧ ∀ t ∈ us, t.kind.isAttrPart = true := by
  rw [namedAttr.eq_def] at hs
  split at hs
  · cases hs
    exact ⟨[], rfl, fun _ hu => absurd hu List.not_mem_nil⟩
  · split at hs
    · rename_i t r' ht
      split at hs <;> cases hs
      rename_i hvalue
      have hv := attrValue_kind hvalue
      have hr := cur_taken heof (fun h => by rw [h] at hv; cases hv)
      refine ⟨[t, cur eof r'], congrArg _ hr, fun u hu => ?_⟩
      rcases List.mem_cons.1 hu with rfl | hu
      · rw [ht]
        rfl
      · rw [List.mem_singleton.1 hu]
        exact hv
    · cases hs
      exact ⟨[], rfl, fun _ hu => absurd hu List.not_mem_nil⟩

theorem attributes_taken {tag : Text} {ts r : List Token} {as : List Attr} {closed : Bool} {h}
    (hs : attributes eof tag ts = .ok ⟨((as, closed), r), h⟩) :
    ∃ us e, ts = us ++ e :: r ∧ (∀ t ∈ us, t.kind.isAttrPart = true) ∧
      e.kind = if closed then .selfClose else .tagEnd := by
  fun_induction attributes eof tag ts generalizing as closed r with
  | case1 => cases hs
  | case2 t r ht =>
    cases hs
    exact ⟨[], t, rfl, nofun, ht⟩
  | case3 t r ht =>
    cases hs
    exact ⟨[], t, rfl, nofun, ht⟩
  | case4 => cases hs
  | case5 => cases hs
  | case6 t r₀ ht a r' h' hattr as' closed' r'' h'' hrest ih =>
    cases hs
    obtain ⟨vs, hr, hvs⟩ := namedAttr_taken heof hattr
    obtain ⟨us, e, hr', hus, he⟩ := ih hrest
    refine ⟨t :: (vs ++ us), e, ?_, ?_, he⟩
    · rw [hr, hr']
      simp only [List.cons_append, List.append_assoc]
    · intro u hu
      rcases List.mem_cons.1 hu with rfl | hu
      · rw [ht]
        rfl
      rcases List.mem_append.1 hu with hu | hu
      · exact hvs u hu
      · exact hus u hu
  | case7 => cases hs
  | case8 t r₀ ht hname as' closed' r' h' hrest ih =>
    cases hs
    obtain ⟨us, e, hr', hus, he⟩ := ih hrest
    refine ⟨t :: us, e, congrArg _ hr', fun u hu => ?_, he⟩
    rcases List.mem_cons.1 hu with rfl | hu
    · rw [ht]
      rfl
    · exact hus u hu
  | case9 => cases hs
  | case10 => cases hs

theorem closingTag_taken {phase : Phase} {start : Nat} {tag : Text} {ts r : List Token} {h}
    (hs : closingTag phase eof start tag ts = .ok ⟨((), r), h⟩) :
    ∃ us, ts = us ++ r ∧ ClosingTag tag us := by
  rw [closingTag.eq_def] at hs
  split at hs
  · cases hs
  rename_i o ts
  split at hs
  · rename_i ho
    simp only at hs
    split at hs
    · rename_i hname
      obtain ⟨hname, hfold⟩ := Bool.and_eq_true_iff.1 hname
      replace hname := of_decide_eq_true hname
      split at hs
      · rename_i hstop
        cases hs
        have hts := cur_taken heof (by rw [hname]; decide)
        have hts' := cur_taken heof (by rw [hstop]; decide)
        rw [List.drop_drop] at hts'
        rw [hts'] at hts
        exact ⟨[o, cur eof ts, cur eof (ts.drop 1)], congrArg _ hts, _, _, _, rfl, ho, hname, hfold,
          hstop⟩
      · cases hs
    · cases hs
  · cases hs

end

theorem loopHead_split {t : Token} {head : EachHead} (h : loopHead t = .ok head) :
    EachHead.ofText? t.value = some head := by
  rw [loopHead] at h
  split at h
  · cases h
  · rename_i hhead
    rw [hhead]
    cases hcheck : checkSource .eachHead _ _ with
    | error e =>
      rw [hcheck] at h
      cases h
    | ok u =>
      rw [hcheck] at h
      cases h
      rfl

section

variable {eof : Token} {n : Nat} {L : Level n}

/-- After what is rendered otherwise only the end of a choice may stand. -/
theorem branches_nodes_taken {phase : Phase} {start at_ : Nat} {children : List Node}
    {o : Otherwise} {ts r : List Token} {h : ts.length < n} {bs : List Branch} {h'}
    (hs : branches L phase eof start (.nodes at_ children) ts h = .ok ⟨((bs, o), r), h'⟩) :
    bs = [] ∧ o = .nodes at_ children ∧ ∃ e, ts = e :: r ∧ e.kind = .ifClose := by
  rw [branches.eq_def] at hs
  split at hs
  · cases hs
  split at hs
  · cases hs
  · cases hs
  · rename_i he
    cases hs
    exact ⟨rfl, rfl, _, rfl, he⟩
  · cases hs

variable (hL : Reads eof L)
include hL

theorem branches_taken {phase : Phase} {start : Nat} {otherwise o : Otherwise} {ts r : List Token}
    {h : ts.length < n} {bs : List Branch} {h'} (hnothing : otherwise = .nothing)
    (hs : branches L phase eof start otherwise ts h = .ok ⟨((bs, o), r), h'⟩) :
    ∃ us, ts = us ++ r ∧ ReadAs us (.clauses bs o) := by
  fun_induction branches L phase eof start otherwise ts h generalizing bs o r with
  | case1 => cases hs
  | case2 => cases hs
  | case3 => cases hs
  | case4 => cases hs
  | case5 => cases hs
  | case6 t _ _ _ ht _ _ _ _ _ hchildren _ _ _ _ hrest _ ih =>
    cases hs
    obtain ⟨us, rfl, hus⟩ := hL hchildren
    obtain ⟨vs, rfl, hvs⟩ := ih rfl hrest
    exact ⟨t :: (us ++ vs), by simp, .elseIf ht hus hvs⟩
  | case7 => cases hs
  | case8 => cases hs
  | case9 => cases hs
  | case10 t _ _ _ ht _ _ _ hchildren _ _ _ hrest =>
    cases hs
    obtain ⟨us, rfl, hus⟩ := hL hchildren
    obtain ⟨rfl, rfl, e, rfl, he⟩ := branches_nodes_taken hrest
    exact ⟨t :: (us ++ [e]), by simp, .otherwise ht hus he⟩
  | case11 _ e _ _ _ he =>
    cases hs
    rw [hnothing]
    exact ⟨[e], rfl, .endIf he⟩
  | case12 => cases hs

theorem choice_taken {phase : Phase} {t : Token} (ht : t.kind = .ifOpen) {ts r : List Token}
    {h : ts.length < n} {x : Node} {h'} (hs : choice L phase eof t ts h = .ok ⟨(x, r), h'⟩) :
    ∃ us, t :: ts = us ++ r ∧ ReadAs us (.node x) := by
  rw [choice.eq_def] at hs
  split at hs
  · cases hs
  split at hs
  · cases hs
  rename_i hchildren
  split at hs <;> cases hs
  rename_i hrest
  obtain ⟨us, rfl, hus⟩ := hL hchildren
  obtain ⟨vs, rfl, hvs⟩ := branches_taken hL rfl hrest
  exact ⟨t :: (us ++ vs), by simp, .cond ht hus hvs⟩

theorem loop_taken {phase : Phase} {t : Token} (ht : t.kind = .eachOpen) {ts r : List Token}
    {h : ts.length < n} {x : Node} {h'} (hs : loop L phase eof t ts h = .ok ⟨(x, r), h'⟩) :
    ∃ us, t :: ts = us ++ r ∧ ReadAs us (.node x) := by
  rw [loop.eq_def] at hs
  split at hs
  · cases hs
  rename_i hhead
  split at hs
  · cases hs
  · cases hs
  rename_i e _ _ hchildren
  split at hs
  · rename_i he
    cases hs
    obtain ⟨us, rfl, hus⟩ := hL hchildren
    exact ⟨t :: (us ++ [e]), by simp, .each ht (loopHead_split hhead) hus he⟩
  · cases hs

variable (heof : eof.kind = .eof)
include heof

theorem elementBody_taken {start : Nat} {tag : Text} {ts r : List Token} {h : ts.length < n}
    {children : List Node} {h'} (hs : elementBody L eof start tag ts h = .ok ⟨(children, r), h'⟩) :
    ∃ us vs, ts = us ++ (vs ++ r) ∧ ReadAs us (.nodes children) ∧ ClosingTag tag vs := by
  rw [elementBody.eq_def] at hs
  split at hs
  · split at hs
    · split at hs <;> cases hs
      rename_i hclose
      obtain ⟨vs, hvs, htag⟩ := closingTag_taken heof hclose
      exact ⟨[], vs, hvs, .nil, htag⟩
    · split at hs
      · rename_i t _ _ ht
        split at hs <;> cases hs
        rename_i hclose
        obtain ⟨vs, rfl, htag⟩ := closingTag_taken heof hclose
        exact ⟨[t], vs, rfl, .single_node (.text (.inr ht)), htag⟩
      · split at hs <;> cases hs
        rename_i hclose
        obtain ⟨vs, hvs, htag⟩ := closingTag_taken heof hclose
        exact ⟨[], vs, hvs, .nil, htag⟩
  · split at hs
    · cases hs
    rename_i hbody
    split at hs <;> cases hs
    rename_i hclose
    obtain ⟨us, rfl, hus⟩ := hL hbody
    obtain ⟨vs, rfl, htag⟩ := closingTag_taken heof hclose
    exact ⟨us, vs, rfl, hus, htag⟩

theorem element_taken {o : Token} (ho : o.kind = .tagOpen) {ts r : List Token} {h : ts.length < n}
    {x : Node} {h'} (hs : element L eof o.start ts h = .ok ⟨(x, r), h'⟩) :
    ∃ us, o :: ts = us ++ r ∧ ReadAs us (.node x) := by
  rw [element.eq_def] at hs
  split at hs
  · cases hs
  rename_i name ts h
  split at hs
  · rename_i hname
    split at hs
    · cases hs
    rename_i attrs closed r₁ h₁ hattrs
    obtain ⟨us, e, rfl, hus, he⟩ := attributes_taken heof hattrs
    have hopen : OpeningTag o.start name.value e.kind (o :: name :: (us ++ [e])) :=
      ⟨o, name, us, e, rfl, ho, rfl, hname, rfl, hus, rfl⟩
    split at hs
    · rename_i hsingle
      cases hs
      refine ⟨o :: name :: (us ++ [e]), by simp, .single hopen ?_⟩
      cases closed with
      | true => exact .inl he
      | false => exact .inr ⟨he, hsingle⟩
    · rename_i hsingle
      split at hs <;> cases hs
      rename_i hbody
      obtain ⟨vs, ws, rfl, hvs, hclose⟩ := elementBody_taken hL heof hbody
      cases closed with
      | true => exact absurd rfl hsingle
      | false =>
        rw [he] at hopen
        exact ⟨_, by simp, .element hopen hvs hclose⟩
  · cases hs

theorem node_taken {phase : Phase} {t : Token} {ts r : List Token} {h : ts.length < n} {x : Node} {h'}
    (hs : node L phase eof t ts h = .ok ⟨(x, r), h'⟩) :
    ∃ us, t :: ts = us ++ r ∧ ReadAs us (.node x) := by
  rw [node.eq_def] at hs
  simp only at hs
  split at hs
  · rename_i ht
    cases hs
    exact ⟨[t], rfl, .text (.inl ht)⟩
  · rename_i ht
    cases hs
    exact ⟨[t], rfl, .text (.inr ht)⟩
  · rename_i ht
    cases hs
    exact ⟨[t], rfl, .comment ht⟩
  · rename_i ht
    rw [mustache] at hs
    split at hs
    · cases hs
    · cases hcheck : checkSource .mustache t.value t.valueStart with
      | error e =>
        rw [hcheck] at hs
        cases hs
      | ok u =>
        rw [hcheck] at hs
        cases hs
        exact ⟨[t], rfl, .mustache ht⟩
  · rename_i ht
    exact choice_taken hL ht hs
  · rename_i ht
    exact loop_taken hL ht hs
  · rename_i ht
    exact element_taken hL heof ht hs
  · cases hs

end

section

variable {eof : Token} (heof : eof.kind = .eof)
include heof

theorem nodes_taken {phase : Phase} {ts r : List Token} {L : Level ts.length} (hL : Reads eof L)
    {xs : List Node} {h} (hs : nodes phase eof ts L = .ok ⟨(xs, r), h⟩) :
    ∃ us, ts = us ++ r ∧ ReadAs us (.nodes xs) := by
  rw [nodes.eq_def] at hs
  split at hs
  · cases hs
    exact ⟨[], rfl, .nil⟩
  split at hs
  · cases hs
    exact ⟨[], rfl, .nil⟩
  split at hs
  · cases hs
  rename_i hnode
  split at hs <;> cases hs
  rename_i hrest
  obtain ⟨us, hus, hx⟩ := node_taken hL heof hnode
  obtain ⟨vs, rfl, hxs⟩ := hL hrest
  exact ⟨us ++ vs, by rw [hus, List.append_assoc], .cons hx hxs⟩

/-- The parser of siblings takes what reads as them. -/
theorem reads_level (n : Nat) : Reads eof (level n) := by
  induction n using Nat.strongRecOn with
  | ind n ih =>
    intro phase ts h xs r h' hs
    rw [level] at hs
    exact nodes_taken heof (ih ts.length h) hs

end

end NodeParser

/-- The tokens of a template read as its nodes. -/
theorem readAs_ofTokens {eof : Token} (heof : eof.kind = .eof) {ts : List Token} {xs : List Node}
    (h : Node.ofTokens eof ts = .ok xs) : ReadAs ts (.nodes xs) := by
  rw [Node.ofTokens] at h
  split at h <;> cases h
  rename_i hnodes
  obtain ⟨us, rfl, hus⟩ := NodeParser.nodes_taken heof (NodeParser.reads_level heof _) hnodes
  rwa [List.append_nil]

end Reactive.Template
