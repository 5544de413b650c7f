/-
Where a template is reported to hold no expression.

The parser of templates reads the expressions in tokens on their own and moves
what is reported there by where they start.  A token holds its value as it
stands in the template, and the list of a loop is a part of that value, so the
place reported lies in the expression or at its end.

* `EachHead.Splits` — the list of a loop in its head;
* `NodeParser.blames_ofTokens` — an invalid expression is one of a token;
* `positions_faithful` — the offsets of expressions, programs and templates.
-/
import Mathlib.Data.List.DropRight
import Reactive.Proofs.Expr.Reported
import Reactive.Proofs.Template.Grammar
import Reactive.Proofs.Template.Tiling
import Reactive.Template.Parser

namespace Reactive

namespace Text

theorem trimLeft_suffix (t : Text) : trimLeft t <:+ t := by
  refine ⟨((pieces t).takeWhile fun p => isSpace p.1).flatMap Prod.snd, ?_⟩
  rw [trimLeft, ← List.flatMap_append, List.takeWhile_append_dropWhile, flatten_pieces]

theorem trimRight_prefix (t : Text) : trimRight t <+: t := by
  obtain ⟨r, hr⟩ := List.rdropWhile_prefix (fun p : Nat × Text => isSpace p.1) (pieces t)
  have htext := flatten_pieces t
  rw [← hr, List.flatMap_append] at htext
  exact ⟨r.flatMap Prod.snd, htext⟩

end Text

namespace Template

open Text

/-! ### The heads of loops -/

/-- The list of a loop stands in its head where it is said to start. -/
def EachHead.Splits (head : Text) (h : EachHead) : Prop :=
  ∃ before after, head = before ++ (h.list ++ after) ∧ before.length = h.listStart

theorem EachHead.splits_of_checked {head : Text} {h h' : EachHead} (hs : h.Splits head)
    (hc : checked h = some h') : h'.Splits head := by
  unfold checked at hc
  split at hc
  · cases hc
    exact hs
  · cases hc

theorem EachHead.splits_of_fitting? {head : Text} {n : Nat} {h : EachHead} (hn : n ≤ head.length)
    (hf : fitting? head n = some h) : h.Splits head := by
  have hfit : ∀ {n : Nat} {h : EachHead}, n ≤ head.length → fitting?.fit head n = some h →
      h.Splits head := by
    intro n h hn hf
    obtain ⟨⟨k, item, index⟩, -, rfl⟩ := Option.map_eq_some_iff.1 hf
    refine ⟨head.take n, (head.drop n).drop k, ?_, List.length_take_of_le hn⟩
    rw [List.take_append_drop, List.take_append_drop]
  induction n with
  | zero => exact hfit hn hf
  | succ n ih =>
    rw [fitting?, Option.or_eq_some_iff] at hf
    rcases hf with hf | ⟨-, hf⟩
    · exact hfit hn hf
    · exact ih (Nat.le_of_succ_le hn) hf

theorem EachHead.splits_of_divided? {head : Text} {h : EachHead} (hd : divided? head = some h) :
    h.Splits head := by
  unfold divided? at hd
  split at hd
  · cases hd
  rename_i i _
  simp only at hd
  split at hd
  · cases hd
  refine splits_of_checked ?_ hd
  obtain ⟨before, hbefore⟩ := trimLeft_suffix (head.take i)
  obtain ⟨after, hafter⟩ := trimRight_prefix (trimLeft (head.take i))
  refine ⟨before, after ++ head.drop i, ?_, ?_⟩
  · rw [trimSpace, ← List.append_assoc (trimRight _), hafter, ← List.append_assoc, hbefore,
      List.take_append_drop]
  · have hlen := congrArg List.length hbefore
    rw [List.length_append] at hlen
    simp only
    omega

/-- The list of a loop is a part of its head. -/
theorem EachHead.splits_of_ofText? {head : Text} {h : EachHead} (ho : ofText? head = some h) :
    h.Splits head := by
  unfold ofText? at ho
  split at ho
  · rename_i hf
    exact splits_of_checked (splits_of_fitting? (List.takeWhile_sublist _).length_le hf) ho
  · exact splits_of_divided? ho

/-! ### Expressions in tokens -/

/-- The kinds of tokens whose whole value may be an expression. -/
def TokenKind.isExpression : TokenKind → Bool
  | .expr | .string | .template | .ifOpen | .elseIf => true
  | _ => false

/-- An expression that a token holds and where it starts: the token's value, or the list of a loop. -/
inductive Token.Holds (t : Token) : Text → Nat → Prop where
  | value : t.kind.isExpression = true → t.Holds t.value t.valueStart
  | list {head : EachHead} : t.kind = .eachOpen → EachHead.ofText? t.value = some head →
      t.Holds head.list (t.valueStart + head.listStart)

/-- An expression stands in the template where the token says it starts. -/
theorem Token.Holds.stands {t : Token} {text src : Text} {at_ : Nat} (h : t.Holds text at_)
    {before after : Text} (ht : src = before ++ (t.value ++ after))
    (hat : before.length = t.valueStart) :
    slice src at_ (at_ + text.length) = text ∧ at_ + text.length ≤ src.length := by
  have hplace : ∃ before after, src = before ++ (text ++ after) ∧ before.length = at_ := by
    cases h with
    | value => exact ⟨before, after, ht, hat⟩
    | list _ hhead =>
      obtain ⟨b, a, hb, hlen⟩ := EachHead.splits_of_ofText? hhead
      refine ⟨before ++ b, a ++ after, ?_, by rw [List.length_append, hat, hlen]⟩
      rw [ht, hb]
      simp
  obtain ⟨before, after, rfl, rfl⟩ := hplace
  refine ⟨slice_of_append rfl rfl, ?_⟩
  simp only [List.length_append]
  omega

/-- If a failure is an invalid expression, it is one that a token holds, at the place where the text
of the expression is wrong. -/
def ParseError.Blames (ts : List Token) (e : ParseError) : Prop :=
  ∀ cause, e.cause = .invalidExpression cause → ∃ t ∈ ts, ∃ text at_ place, t.Holds text at_ ∧
    Expr.parse text = .error ⟨cause, place⟩ ∧ e.offset = at_ + place

theorem ParseError.Blames.mono {ts us : List Token} {e : ParseError} (h : e.Blames ts)
    (hts : ts ⊆ us) : e.Blames us := by
  intro cause hcause
  obtain ⟨t, ht, hholds⟩ := h cause hcause
  exact ⟨t, hts ht, hholds⟩

namespace NodeParser

/-! ### What is blamed -/

/-- A failure for another reason than an invalid expression. -/
theorem blames_other {ts : List Token} {phase : Phase} {cause : ParseCause} {at_ : Nat}
    (h : ∀ c, cause ≠ .invalidExpression c) : (⟨phase, cause, at_⟩ : ParseError).Blames ts :=
  fun c hc => absurd hc (h c)

theorem blames_checkSource {ts : List Token} {phase : Phase} {t : Token} {text : Text} {at_ : Nat}
    (ht : t ∈ ts) (hholds : t.Holds text at_) {e : ParseError}
    (h : checkSource phase text at_ = .error e) : e.Blames ts := by
  unfold checkSource at h
  split at h
  · cases h
  · rename_i err herr
    cases h
    intro cause hcause
    cases hcause
    exact ⟨t, ht, text, at_, err.offset, hholds, herr, rfl⟩

/-- A parser leaves the last of some tokens, or blames one of them. -/
def Settles (ts : List Token) {α : Type} {n : Nat} (o : Outcome α n) : Prop :=
  (∀ x, o = .ok x → x.1.2 <:+ ts) ∧ ∀ e, o = .error e → e.Blames ts

section

variable {α : Type} {n : Nat} {ts r : List Token}

theorem Settles.ok {a : α} {h : r.length < n} (hr : r <:+ ts) :
    Settles ts (.ok ⟨(a, r), h⟩ : Outcome α n) := by
  refine ⟨fun x hx => ?_, fun e he => by cases he⟩
  cases hx
  exact hr

theorem Settles.error {e : ParseError} (he : e.Blames ts) :
    Settles ts (.error e : Outcome α n) := by
  refine ⟨fun x hx => (by cases hx), fun e' he' => ?_⟩
  cases he'
  exact he

/-- Failures other than an invalid expression blame no token. -/
theorem Settles.other {phase : Phase} {cause : ParseCause} {at_ : Nat}
    (h : ∀ c, cause ≠ .invalidExpression c) :
    Settles ts (.error ⟨phase, cause, at_⟩ : Outcome α n) :=
  .error (blames_other h)

/-- What was left of some tokens is left of more. -/
theorem Settles.mono {o : Outcome α n} (h : Settles r o) (hr : r <:+ ts) :
    Settles ts o :=
  ⟨fun x hx => (h.1 x hx).trans hr,
    fun e he => (h.2 e he).mono hr.subset⟩

theorem Settles.left {o : Outcome α n} (h : Settles ts o) {a : α} {hr : r.length < n}
    (ho : o = .ok ⟨(a, r), hr⟩) : r <:+ ts :=
  h.1 _ ho

end

/-- The same where something is made of the source once it is checked. -/
theorem blames_map_checkSource {α : Type} {ts : List Token} {phase : Phase} {t : Token} {text : Text}
    {at_ : Nat} (ht : t ∈ ts) (hholds : t.Holds text at_) {f : Unit → α} {e : ParseError}
    (h : (checkSource phase text at_).map f = .error e) : e.Blames ts := by
  cases hcheck : checkSource phase text at_ with
  | error e' =>
    rw [hcheck] at h
    cases h
    exact blames_checkSource ht hholds hcheck
  | ok u =>
    rw [hcheck] at h
    cases h

section

variable {ts : List Token}

theorem blames_attrValue {name v : Token} (hv : v.kind ≠ .eof → v ∈ ts) {e : ParseError}
    (h : attrValue name v = .error e) : e.Blames ts := by
  -- only a token that holds an expression is checked, and the end of a template holds none
  have hchecked : ∀ {f : Unit → Attr}, v.kind.isExpression = true →
      (checkSource .attrs v.value v.valueStart).map f = .error e → e.Blames ts := by
    intro f hkind h
    exact blames_map_checkSource (hv fun heof => by rw [heof] at hkind; cases hkind) (.value hkind) h
  unfold attrValue at h
  simp only at h
  split at h
  · rename_i hkind
    split at h
    · split at h
      · cases h
        exact blames_other fun _ => ParseCause.noConfusion
      · exact hchecked (by rw [hkind]; rfl) h
    · cases h
  · rename_i hkind
    split at h
    · cases h
      exact blames_other fun _ => ParseCause.noConfusion
    · exact hchecked (by rw [hkind]; rfl) h
  · rename_i hkind
    split at h
    · cases h
      exact blames_other fun _ => ParseCause.noConfusion
    · exact hchecked (by rw [hkind]; rfl) h
  · cases h
    exact blames_other fun _ => ParseCause.noConfusion

theorem blames_checkCondition {t : Token} (ht : t ∈ ts) (hkind : t.kind = .ifOpen ∨ t.kind = .elseIf)
    {e : ParseError} (h : checkCondition t = .error e) : e.Blames ts := by
  unfold checkCondition at h
  split at h
  · cases h
    exact blames_other fun _ => ParseCause.noConfusion
  · refine blames_checkSource ht (.value ?_) h
    rcases hkind with hkind | hkind
    all_goals rw [hkind]; rfl

theorem blames_loopHead {t : Token} (ht : t ∈ ts) (hkind : t.kind = .eachOpen) {e : ParseError}
    (h : loopHead t = .error e) : e.Blames ts := by
  unfold loopHead at h
  split at h
  · cases h
    exact blames_other fun _ => ParseCause.noConfusion
  · rename_i hhead
    exact blames_map_checkSource ht (.list hkind hhead) h

theorem blames_mustache {t : Token} (ht : t ∈ ts) (hkind : t.kind = .expr) {e : ParseError}
    (h : mustache t = .error e) : e.Blames ts := by
  unfold mustache at h
  split at h
  · cases h
    exact blames_other fun _ => ParseCause.noConfusion
  · exact blames_map_checkSource ht (.value (by rw [hkind]; rfl)) h

theorem settles_closingTag (phase : Phase) (eof : Token) (start : Nat) (tag : Text) :
    Settles ts (closingTag phase eof start tag ts) := by
  unfold closingTag
  split
  · exact .other fun _ => ParseCause.noConfusion
  · rename_i t r
    split
    · simp only
      split
      · split
        · exact .ok ((List.drop_suffix 2 r).trans (List.suffix_cons t r))
        · exact .other fun _ => ParseCause.noConfusion
      · exact .other fun _ => ParseCause.noConfusion
    · exact .other fun _ => ParseCause.noConfusion

end

section

variable {eof : Token} (heof : eof.kind = .eof) {ts : List Token}

include heof

theorem settles_namedAttr (name : Token) : Settles ts (namedAttr eof name ts) := by
  unfold namedAttr
  split
  · exact .ok (List.suffix_refl _)
  rename_i t r
  split
  · split
    · rename_i hvalue
      refine .error (blames_attrValue (fun hkind => ?_) hvalue)
      rw [cur_taken heof hkind]
      exact List.mem_cons_of_mem _ List.mem_cons_self
    · exact .ok ((List.drop_suffix 1 r).trans (List.suffix_cons t r))
  · exact .ok (List.suffix_refl _)

theorem settles_attributes (tag : Text) : Settles ts (attributes eof tag ts) := by
  fun_induction attributes eof tag ts with
  | case1 => exact .other fun _ => ParseCause.noConfusion
  | case2 t r => exact .ok (List.suffix_cons t r)
  | case3 t r => exact .ok (List.suffix_cons t r)
  | case4 t r _ e hattr =>
    exact (Settles.error ((settles_namedAttr heof t).2 e hattr)).mono (List.suffix_cons t r)
  | case5 t r _ a r' hr hattr e hrest ih =>
    have hleft := ((settles_namedAttr heof t).left hattr).trans (List.suffix_cons t r)
    exact (Settles.error (ih.2 e hrest)).mono hleft
  | case6 t r _ a r' hr hattr as closed r'' hr' hrest ih =>
    have hleft := ((settles_namedAttr heof t).left hattr).trans (List.suffix_cons t r)
    exact .ok ((ih.left hrest).trans hleft)
  | case7 t r _ _ e hrest ih => exact (Settles.error (ih.2 e hrest)).mono (List.suffix_cons t r)
  | case8 t r _ _ as closed r' hr hrest ih =>
    exact .ok ((ih.left hrest).trans (List.suffix_cons t r))
  | case9 => exact .other fun _ => ParseCause.noConfusion
  | case10 => exact .other fun _ => ParseCause.noConfusion

end

/-- A parser of siblings that settles. -/
def Contained (eof : Token) {n : Nat} (L : Level n) : Prop :=
  ∀ phase ts (h : ts.length < n), Settles ts (L phase eof ts h)

section

variable {eof : Token} {n : Nat} {L : Level n} (hL : Contained eof L) {ts : List Token}

include hL

theorem settles_elementBody (start : Nat) (tag : Text) (h : ts.length < n) :
    Settles ts (elementBody L eof start tag ts h) := by
  unfold elementBody
  split
  · split
    · split
      · rename_i hclose
        exact .error ((settles_closingTag _ _ _ _).2 _ hclose)
      · rename_i hclose
        exact .ok ((settles_closingTag _ _ _ _).left hclose)
    · rename_i t r _
      split
      · split
        · rename_i hclose
          exact (Settles.error ((settles_closingTag _ _ _ _).2 _ hclose)).mono (List.suffix_cons t r)
        · rename_i hclose
          exact .ok (((settles_closingTag _ _ _ _).left hclose).trans (List.suffix_cons t r))
      · split
        · rename_i hclose
          exact .error ((settles_closingTag _ _ _ _).2 _ hclose)
        · rename_i hclose
          exact .ok ((settles_closingTag _ _ _ _).left hclose)
  · split
    · rename_i hbody
      exact .error ((hL _ _ _).2 _ hbody)
    · rename_i hbody
      have hleft := (hL _ _ _).left hbody
      split
      · rename_i hclose
        exact (Settles.error ((settles_closingTag _ _ _ _).2 _ hclose)).mono hleft
      · rename_i hclose
        exact .ok (((settles_closingTag _ _ _ _).left hclose).trans hleft)

theorem settles_branches (phase : Phase) (start : Nat) (otherwise : Otherwise) (h : ts.length < n) :
    Settles ts (branches L phase eof start otherwise ts h) := by
  fun_induction branches L phase eof start otherwise ts h with
  | case1 => exact .other fun _ => ParseCause.noConfusion
  | case2 => exact .other fun _ => ParseCause.noConfusion
  | case3 t r _ _ hkind e hcond =>
    exact .error (blames_checkCondition List.mem_cons_self (.inr hkind) hcond)
  | case4 t r _ _ _ _ _ e hchildren =>
    exact (Settles.error ((hL _ _ _).2 e hchildren)).mono (List.suffix_cons t r)
  | case5 t r _ _ _ _ _ _ _ _ hchildren e hrest _ ih =>
    have hleft := ((hL _ _ _).left hchildren).trans (List.suffix_cons t r)
    exact (Settles.error (ih.2 e hrest)).mono hleft
  | case6 t r _ _ _ _ _ _ _ _ hchildren _ _ _ _ hrest _ ih =>
    have hleft := ((hL _ _ _).left hchildren).trans (List.suffix_cons t r)
    exact .ok ((ih.left hrest).trans hleft)
  | case7 => exact .other fun _ => ParseCause.noConfusion
  | case8 t r _ _ _ e hchildren =>
    exact (Settles.error ((hL _ _ _).2 e hchildren)).mono (List.suffix_cons t r)
  | case9 t r _ _ _ _ _ _ hchildren e hrest _ ih =>
    have hleft := ((hL _ _ _).left hchildren).trans (List.suffix_cons t r)
    exact (Settles.error (ih.2 e hrest)).mono hleft
  | case10 t r _ _ _ _ _ _ hchildren _ _ _ hrest _ ih =>
    have hleft := ((hL _ _ _).left hchildren).trans (List.suffix_cons t r)
    exact .ok ((ih.left hrest).trans hleft)
  | case11 _ t r => exact .ok (List.suffix_cons t r)
  | case12 => exact .other fun _ => ParseCause.noConfusion

theorem settles_choice (phase : Phase) {t : Token} (ht : t.kind = .ifOpen) (h : ts.length < n) :
    Settles (t :: ts) (choice L phase eof t ts h) := by
  unfold choice
  split
  · rename_i hcond
    exact .error (blames_checkCondition List.mem_cons_self (.inl ht) hcond)
  split
  · rename_i hchildren
    exact (Settles.error ((hL _ _ _).2 _ hchildren)).mono (List.suffix_cons t ts)
  rename_i hchildren
  have hleft := ((hL _ _ _).left hchildren).trans (List.suffix_cons t ts)
  split
  · rename_i hrest
    exact (Settles.error ((settles_branches hL _ _ _ _).2 _ hrest)).mono hleft
  · rename_i hrest
    exact .ok (((settles_branches hL _ _ _ _).left hrest).trans hleft)

theorem settles_loop (phase : Phase) {t : Token} (ht : t.kind = .eachOpen) (h : ts.length < n) :
    Settles (t :: ts) (loop L phase eof t ts h) := by
  unfold loop
  split
  · rename_i hhead
    exact .error (blames_loopHead List.mem_cons_self ht hhead)
  split
  · rename_i hchildren
    exact (Settles.error ((hL _ _ _).2 _ hchildren)).mono (List.suffix_cons t ts)
  · exact .other fun _ => ParseCause.noConfusion
  · rename_i u r _ hchildren
    have hleft := ((hL _ _ _).left hchildren).trans (List.suffix_cons t ts)
    split
    · exact .ok ((List.suffix_cons u r).trans hleft)
    · exact .other fun _ => ParseCause.noConfusion

variable (heof : eof.kind = .eof)
include heof

theorem settles_element (start : Nat) (h : ts.length < n) :
    Settles ts (element L eof start ts h) := by
  unfold element
  split
  · exact .other fun _ => ParseCause.noConfusion
  rename_i name r h
  split
  · split
    · rename_i hattrs
      exact (Settles.error ((settles_attributes heof _).2 _ hattrs)).mono (List.suffix_cons name r)
    · rename_i hattrs
      have hleft := ((settles_attributes heof _).left hattrs).trans (List.suffix_cons name r)
      split
      · exact .ok hleft
      · split
        · rename_i hbody
          exact (Settles.error ((settles_elementBody hL _ _ _).2 _ hbody)).mono hleft
        · rename_i hbody
          exact .ok (((settles_elementBody hL _ _ _).left hbody).trans hleft)
  · exact .other fun _ => ParseCause.noConfusion

theorem settles_node (phase : Phase) (t : Token) (h : ts.length < n) :
    Settles (t :: ts) (node L phase eof t ts h) := by
  unfold node
  simp only
  split
  · exact .ok (List.suffix_cons t ts)
  · exact .ok (List.suffix_cons t ts)
  · exact .ok (List.suffix_cons t ts)
  · rename_i ht
    cases hmustache : mustache t with
    | error e => exact .error (blames_mustache List.mem_cons_self ht hmustache)
    | ok x => exact .ok (List.suffix_cons t ts)
  · rename_i ht
    exact settles_choice hL phase ht h
  · rename_i ht
    exact settles_loop hL phase ht h
  · exact (settles_element hL heof _ h).mono (List.suffix_cons t ts)
  · exact .other fun _ => ParseCause.noConfusion

end

section

variable {eof : Token} (heof : eof.kind = .eof)
include heof

theorem settles_nodes (phase : Phase) {ts : List Token} {L : Level ts.length}
    (hL : Contained eof L) : Settles ts (nodes phase eof ts L) := by
  unfold nodes
  split
  · exact .ok (List.suffix_refl _)
  rename_i t r _
  split
  · exact .ok (List.suffix_refl _)
  split
  · rename_i hnode
    exact .error ((settles_node hL heof phase t _).2 _ hnode)
  · rename_i hnode
    have hleft := (settles_node hL heof phase t _).left hnode
    split
    · rename_i hrest
      exact (Settles.error ((hL _ _ _).2 _ hrest)).mono hleft
    · rename_i hrest
      exact .ok (((hL _ _ _).left hrest).trans hleft)

theorem contained_level (n : Nat) : Contained eof (level n) := by
  induction n using Nat.strongRecOn with
  | ind n ih =>
    intro phase ts h
    rw [level]
    exact settles_nodes heof phase (ih ts.length h)

/-- An invalid expression that the parser of templates reports is one that a token holds. -/
theorem blames_ofTokens {ts : List Token} {e : ParseError}
    (h : Node.ofTokens eof ts = .error e) : e.Blames ts := by
  unfold Node.ofTokens at h
  split at h
  · rename_i hnodes
    cases h
    exact (settles_nodes heof .top (contained_level heof _)).2 _ hnodes
  · cases h
  · rename_i t r _ _
    cases h
    refine blames_other fun c => ?_
    split
    all_goals exact ParseCause.noConfusion

end

end NodeParser

/-- The value of each token of a template stands in it where the token says that it starts. -/
theorem value_stands {src : Text} {ts : List Token} (h : Token.scan src.length .data src = .ok ts)
    {t : Token} (ht : t ∈ ts) :
    ∃ before after, src = before ++ (t.value ++ after) ∧ before.length = t.valueStart := by
  obtain ⟨tiles, rfl, htiles⟩ := tiles_scan h
  obtain ⟨tile, htile, rfl⟩ := List.mem_map.1 ht
  obtain ⟨⟨before, after, hlexeme, hvalue, -⟩, a, b, hsrc, hat, -⟩ :=
    htiles.placed (List.nil_append src).symm tile htile
  refine ⟨a ++ before, after ++ b, ?_, ?_⟩
  · rw [hsrc, hlexeme]
    simp only [List.append_assoc]
  · rw [List.length_append, hat, hvalue]

/-- **Offsets are those of the whole source.**  Each identifier of an expression or a program stands at
its offset, also in template literals inside of others, and the source of a function is the text
between the braces of its body.  What is refused is refused at an offset of the source.  Where a
template holds no expression, the failure is in the text of the expression or at its end. -/
theorem positions_faithful (src : Text) :
    (∀ e, Expr.parse src = .ok e → e.Placed src) ∧
    (∀ ss, Stmt.parseProgram src = .ok ss → placedStmts src ss) ∧
    (∀ err, Expr.parse src = .error err → err.offset ≤ src.length) ∧
    (∀ err, Stmt.parseProgram src = .error err → err.offset ≤ src.length) ∧
    ∀ err cause, Node.parse src = .error (.parse err) → err.cause = .invalidExpression cause →
      ∃ ts t text at_ place, Token.scan src.length .data src = .ok ts ∧ t ∈ ts ∧ t.Holds text at_ ∧
        slice src at_ (at_ + text.length) = text ∧ at_ + text.length ≤ src.length ∧
        Expr.parse text = .error ⟨cause, place⟩ ∧ err.offset = at_ + place ∧
        at_ ≤ err.offset ∧ err.offset ≤ at_ + text.length := by
  refine ⟨fun e => Expr.placed_of_parse, fun ss => Stmt.placed_of_parseProgram, fun err h => ?_,
    fun err h => (Stmt.reported_of_parseProgram h).2, fun err cause h hcause => ?_⟩
  · have hwithin := (Expr.reported_of_parseAt h).2
    omega
  · rw [Node.parse] at h
    split at h
    · cases h
    rename_i ts hscan
    split at h
    · rename_i htokens
      cases h
      obtain ⟨t, ht, text, at_, place, hholds, hparse, hplace⟩ :=
        NodeParser.blames_ofTokens rfl htokens cause hcause
      obtain ⟨before, after, hsrc, hat⟩ := value_stands hscan ht
      obtain ⟨hslice, hend⟩ := hholds.stands hsrc hat
      have hwithin := (Expr.reported_of_parseAt hparse).2
      simp only at hwithin
      exact ⟨ts, t, text, at_, place, hscan, ht, hholds, hslice, hend, hparse, hplace, by omega,
        by omega⟩
    · cases h

end Template

end Reactive
