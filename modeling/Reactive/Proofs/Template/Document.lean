/-
Parsing a template loses and repeats nothing.

The items of a template in document order are read off its tokens outside of
tags (`Token.items`) and off its nodes (`itemsAll`).  A template that parses
gives the same items both ways, every element of it has its closing tag, and
every choice has the clauses that stand at its own level (`Token.clauses`).

* `ReadAs.items` — tokens give the items of what they read as;
* `ReadAs.balanced` — the clauses of a choice at its own level are its branches;
* `ReadAs.within` — a node within others is read from some of their tokens;
* `Node.parse_keeps_items` — all of this for a template that parses.
-/
import Reactive.Proofs.Template.Grammar
import Reactive.Proofs.Template.Tiling

namespace Reactive.Template

/-! ### Items -/

/-- What a template shows in document order. -/
inductive Item where
  | text (start : Nat) (value : Text)
  | comment (start : Nat) (value : Text)
  | mustache (start : Nat) (source : Text) (sourceStart : Nat)
  | element (start : Nat) (tag : Text)
  /-- The condition of a branch, which is the first of its choice or a later one. -/
  | condition (first : Bool) (start : Nat) (source : Text) (sourceStart : Nat)
  | otherwise (start : Nat)
  /-- The head of a loop, if it can be taken apart; its list starts at an offset of the template. -/
  | each (start : Nat) (head : Option EachHead)
deriving DecidableEq

mutual

/-- The items of a node. -/
def Node.items : Node → List Item
  | .text start value => [.text start value]
  | .comment start value => [.comment start value]
  | .mustache start source at_ => [.mustache start source at_]
  | .element start tag _ children => .element start tag :: itemsAll children
  | .cond _ branches other => itemsBranches true branches ++ other.items
  | .each start list at_ item index children =>
    .each start (some ⟨list, at_, item, index⟩) :: itemsAll children

/-- The items of several nodes. -/
def itemsAll : List Node → List Item
  | [] => []
  | x :: r => x.items ++ itemsAll r

/-- The items of branches. -/
def itemsBranches (first : Bool) : List Branch → List Item
  | [] => []
  | b :: r => b.items first ++ itemsBranches false r

/-- The items of a branch. -/
def Branch.items (first : Bool) : Branch → List Item
  | .mk start source at_ children => .condition first start source at_ :: itemsAll children

/-- The items of what is rendered when no condition holds. -/
def Otherwise.items : Otherwise → List Item
  | .nothing => []
  | .nodes start children => .otherwise start :: itemsAll children

end

/-- The items of a part. -/
def Part.items : Part → List Item
  | .node x => x.items
  | .nodes xs => itemsAll xs
  | .clauses branches other => itemsBranches false branches ++ other.items

/-- The item of a token outside of tags, given the token after it. -/
def Token.item (t : Token) (next : Option Token) : List Item :=
  match t.kind with
  | .text | .raw => [.text t.start t.value]
  | .comment => [.comment t.start t.value]
  | .expr => [.mustache t.start t.value t.valueStart]
  | .tagOpen => [.element t.start ((next.map Token.value).getD [])]
  | .ifOpen => [.condition true t.start t.value t.valueStart]
  | .elseIf => [.condition false t.start t.value t.valueStart]
  | .else_ => [.otherwise t.start]
  | .eachOpen => [.each t.start ((EachHead.ofText? t.value).map fun head =>
      { head with listStart := t.valueStart + head.listStart })]
  | _ => []

/-- The items of tokens; `inTag` says whether they start inside a tag. -/
def Token.items (inTag : Bool) : List Token → List Item
  | [] => []
  | t :: r => (if inTag then [] else t.item r.head?) ++ Token.items (t.kind.leavesInTag inTag) r

/-! ### Tokens give the items of what they read as -/

theorem items_attrs {us : List Token} (h : ∀ t ∈ us, t.kind.isAttrPart = true) (rest : List Token) :
    Token.items true (us ++ rest) = Token.items true rest := by
  induction us with
  | nil => rfl
  | cons t us ih =>
    have ht : t.kind.leavesInTag true = true := by
      have hpart := h t List.mem_cons_self
      cases hkind : t.kind <;> rw [hkind] at hpart <;> first | rfl | cases hpart
    rw [List.cons_append, Token.items, ht, if_pos rfl]
    exact ih fun u hu => h u (List.mem_cons_of_mem t hu)

/-- An opening tag is one item, whatever stands in it. -/
theorem OpeningTag.items {start : Nat} {tag : Text} {stop : TokenKind} {us : List Token}
    (h : OpeningTag start tag stop us) (hstop : stop.leavesInTag true = false) (rest : List Token) :
    Token.items false (us ++ rest) = .element start tag :: Token.items false rest := by
  obtain ⟨o, name, attrs, e, rfl, ho, rfl, hname, rfl, hattrs, rfl⟩ := h
  have htag : Token.items true (attrs ++ (e :: rest)) = Token.items false rest := by
    rw [items_attrs hattrs, Token.items, hstop, if_pos rfl, List.nil_append]
  simp [Token.items, Token.item, TokenKind.leavesInTag, ho, hname, htag]

theorem ClosingTag.items {tag : Text} {us : List Token} (h : ClosingTag tag us) (rest : List Token) :
    Token.items false (us ++ rest) = Token.items false rest := by
  obtain ⟨o, name, e, rfl, ho, hname, -, he⟩ := h
  simp [Token.items, Token.item, TokenKind.leavesInTag, ho, hname, he]

/-- A token outside of tags that opens none gives its item. -/
theorem items_cons {t : Token} (h : t.kind.leavesInTag false = false) (r : List Token) :
    Token.items false (t :: r) = t.item r.head? ++ Token.items false r := by
  rw [Token.items, h, if_neg Bool.false_ne_true]

/-- Tokens give the items of what they read as, whatever follows them. -/
theorem ReadAs.items {us : List Token} {p : Part} (h : ReadAs us p) (rest : List Token) :
    Token.items false (us ++ rest) = p.items ++ Token.items false rest := by
  induction h generalizing rest with
  | text ht =>
    rcases ht with ht | ht <;>
      simp [Token.items, Token.item, TokenKind.leavesInTag, ht, Part.items, Node.items]
  | comment ht | mustache ht =>
    simp [Token.items, Token.item, TokenKind.leavesInTag, ht, Part.items, Node.items]
  | @single start tag attrs stop us hopen hstop =>
    have hout : stop.leavesInTag true = false := by
      rcases hstop with rfl | ⟨rfl, -⟩ <;> rfl
    rw [hopen.items hout]
    simp [Part.items, Node.items, itemsAll]
  | element hopen _ hclose ih =>
    rw [List.append_assoc, hopen.items rfl, List.append_assoc, ih, hclose.items]
    simp [Part.items, Node.items]
  | each ht hhead _ he ih =>
    rw [List.cons_append, items_cons (by rw [ht]; rfl), List.append_assoc, ih, List.singleton_append,
      items_cons (by rw [he]; rfl)]
    simp [Token.item, ht, hhead, he, Part.items, Node.items]
  | cond ht _ _ ihchildren ihclauses =>
    rw [List.cons_append, items_cons (by rw [ht]; rfl), List.append_assoc, ihchildren, ihclauses]
    simp [Token.item, ht, Part.items, Node.items, itemsBranches, Branch.items]
  | nil => rfl
  | cons _ _ ihx ihxs =>
    rw [List.append_assoc, ihx, ihxs]
    simp [Part.items, itemsAll]
  | endIf he =>
    rw [List.singleton_append, items_cons (by rw [he]; rfl)]
    simp [Token.item, he, Part.items, itemsBranches, Otherwise.items]
  | otherwise ht _ he ih =>
    rw [List.cons_append, items_cons (by rw [ht]; rfl), List.append_assoc, ih, List.singleton_append,
      items_cons (by rw [he]; rfl)]
    simp [Token.item, ht, he, Part.items, itemsBranches, Otherwise.items]
  | elseIf ht _ _ ihchildren ihclauses =>
    rw [List.cons_append, items_cons (by rw [ht]; rfl), List.append_assoc, ihchildren, ihclauses]
    simp [Token.item, ht, Part.items, itemsBranches, Branch.items]

/-! ### The clauses of a choice -/

/-- The clauses of a choice at its own level, from what follows its opening token: those at the depth
0 of choices up to its end. -/
def Token.clauses (depth : Nat) : List Token → List Token
  | [] => []
  | t :: r =>
    match t.kind with
    | .ifOpen => Token.clauses (depth + 1) r
    | .ifClose => if depth = 0 then [] else Token.clauses (depth - 1) r
    | .elseIf | .else_ => if depth = 0 then t :: Token.clauses depth r else Token.clauses depth r
    | _ => Token.clauses depth r

/-- The kinds of tokens that open, divide or end a choice. -/
def TokenKind.isClause : TokenKind → Bool
  | .ifOpen | .elseIf | .else_ | .ifClose => true
  | _ => false

/-- Where a branch starts, its condition, and where that starts. -/
def Branch.head : Branch → Nat × Text × Nat
  | .mk start source at_ _ => (start, source, at_)

/-- Where a token starts, its value, and where that starts. -/
def Token.head (t : Token) : Nat × Text × Nat := (t.start, t.value, t.valueStart)

/-- The tokens that open what is rendered when no condition holds: none, or one where that starts. -/
def Otherwise.OpenedBy : Otherwise → List Token → Prop
  | .nothing, ts => ts = []
  | .nodes start _, ts => ∃ t, ts = [t] ∧ t.kind = .else_ ∧ t.start = start

/-- The clauses are those of the branches in their order, and then of what is rendered otherwise. -/
def ClausesOf (branches : List Branch) (otherwise : Otherwise) (ts : List Token) : Prop :=
  ∃ ifs elses, ts = ifs ++ elses ∧ (∀ t ∈ ifs, t.kind = .elseIf) ∧
    branches.map Branch.head = ifs.map Token.head ∧ otherwise.OpenedBy elses

theorem clauses_skip {t : Token} (h : t.kind.isClause = false) (depth : Nat) (r : List Token) :
    Token.clauses depth (t :: r) = Token.clauses depth r := by
  rw [Token.clauses]
  cases hkind : t.kind <;> rw [hkind] at h <;> first | rfl | cases h

theorem clauses_skipAll {us : List Token} (h : ∀ t ∈ us, t.kind.isClause = false) (depth : Nat)
    (rest : List Token) : Token.clauses depth (us ++ rest) = Token.clauses depth rest := by
  induction us with
  | nil => rfl
  | cons t us ih =>
    rw [List.cons_append, clauses_skip (h t List.mem_cons_self)]
    exact ih fun u hu => h u (List.mem_cons_of_mem t hu)

theorem OpeningTag.not_clause {start : Nat} {tag : Text} {stop : TokenKind} {us : List Token}
    (h : OpeningTag start tag stop us) (hstop : stop.isClause = false) :
    ∀ t ∈ us, t.kind.isClause = false := by
  obtain ⟨o, name, attrs, e, rfl, ho, -, hname, -, hattrs, rfl⟩ := h
  intro t ht
  simp only [List.mem_cons, List.mem_append, List.not_mem_nil, or_false] at ht
  rcases ht with rfl | rfl | ht | rfl
  · rw [ho]
    rfl
  · rw [hname]
    rfl
  · have hpart := hattrs t ht
    cases hkind : t.kind <;> rw [hkind] at hpart <;> first | rfl | cases hpart
  · exact hstop

theorem ClosingTag.not_clause {tag : Text} {us : List Token} (h : ClosingTag tag us) :
    ∀ t ∈ us, t.kind.isClause = false := by
  obtain ⟨o, name, e, rfl, ho, hname, -, he⟩ := h
  intro t ht
  simp only [List.mem_cons, List.not_mem_nil, or_false] at ht
  rcases ht with rfl | rfl | rfl
  · rw [ho]
    rfl
  · rw [hname]
    rfl
  · rw [he]
    rfl

/-- What tokens do to the clauses read before them: nodes leave the depth as it is, and the rest of
a choice ends it; read at its own level, it gives its clauses and nothing more. -/
def Part.Balanced (us : List Token) : Part → Prop
  | .node _ | .nodes _ => ∀ depth rest, Token.clauses depth (us ++ rest) = Token.clauses depth rest
  | .clauses branches otherwise =>
    (∀ depth rest, Token.clauses (depth + 1) (us ++ rest) = Token.clauses depth rest) ∧
      ∀ rest, ClausesOf branches otherwise (Token.clauses 0 (us ++ rest))

theorem ReadAs.balanced {us : List Token} {p : Part} (h : ReadAs us p) : p.Balanced us := by
  induction h with
  | text ht =>
    intro depth rest
    rcases ht with ht | ht <;> exact clauses_skip (by rw [ht]; rfl) depth rest
  | comment ht | mustache ht =>
    intro depth rest
    exact clauses_skip (by rw [ht]; rfl) depth rest
  | @single start tag attrs stop us hopen hstop =>
    intro depth rest
    have hout : stop.isClause = false := by
      rcases hstop with rfl | ⟨rfl, -⟩ <;> rfl
    exact clauses_skipAll (hopen.not_clause hout) depth rest
  | element hopen _ hclose ih =>
    intro depth rest
    rw [List.append_assoc, clauses_skipAll (hopen.not_clause rfl), List.append_assoc, ih,
      clauses_skipAll hclose.not_clause]
  | each ht hhead _ he ih =>
    intro depth rest
    rw [List.cons_append, clauses_skip (by rw [ht]; rfl), List.append_assoc, ih,
      List.singleton_append, clauses_skip (by rw [he]; rfl)]
  | cond ht _ _ ihchildren ihclauses =>
    intro depth rest
    rw [List.cons_append, Token.clauses, ht]
    simp only
    rw [List.append_assoc, ihchildren, ihclauses.1]
  | nil =>
    intro depth rest
    rfl
  | cons _ _ ihx ihxs =>
    intro depth rest
    rw [List.append_assoc, ihx, ihxs]
  | endIf he =>
    refine ⟨fun depth rest => ?_, fun rest => ⟨[], [], ?_, nofun, rfl, rfl⟩⟩
    · rw [List.singleton_append, Token.clauses, he]
      rfl
    · rw [List.singleton_append, Token.clauses, he]
      rfl
  | @otherwise t e children us ht _ he ih =>
    refine ⟨fun depth rest => ?_, fun rest => ⟨[], [t], ?_, nofun, rfl, t, rfl, ht, rfl⟩⟩
    · rw [List.cons_append, Token.clauses, ht]
      simp only [Nat.add_one_ne_zero, if_false]
      rw [List.append_assoc, ih, List.singleton_append, Token.clauses, he]
      rfl
    · rw [List.cons_append, Token.clauses, ht]
      simp only [if_true]
      rw [List.append_assoc, ih, List.singleton_append, Token.clauses, he]
      rfl
  | @elseIf t children branches otherwise us vs ht _ _ ihchildren ihclauses =>
    refine ⟨fun depth rest => ?_, fun rest => ?_⟩
    · rw [List.cons_append, Token.clauses, ht]
      simp only [Nat.add_one_ne_zero, if_false]
      rw [List.append_assoc, ihchildren, ihclauses.1]
    · obtain ⟨ifs, elses, hclauses, hifs, hheads, helse⟩ := ihclauses.2 rest
      refine ⟨t :: ifs, elses, ?_, ?_, congrArg _ hheads, helse⟩
      · rw [List.cons_append, Token.clauses, ht]
        simp only [if_true]
        rw [List.append_assoc, ihchildren, hclauses]
        rfl
      · intro u hu
        rcases List.mem_cons.1 hu with rfl | hu
        · exact ht
        · exact hifs u hu

/-! ### Nodes within nodes -/

/-- A node stands among others, or anywhere below them. -/
inductive Node.Within (x : Node) : List Node → Prop where
  | here {xs} : x ∈ xs → x.Within xs
  | element {start tag attrs children xs} : .element start tag attrs children ∈ xs →
      x.Within children → x.Within xs
  | branch {start branches otherwise at_ source sourceStart children xs} :
      .cond start branches otherwise ∈ xs → .mk at_ source sourceStart children ∈ branches →
      x.Within children → x.Within xs
  | otherwise {start branches at_ children xs} : .cond start branches (.nodes at_ children) ∈ xs →
      x.Within children → x.Within xs
  | each {start list at_ item index children xs} : .each start list at_ item index children ∈ xs →
      x.Within children → x.Within xs

/-- Some of the tokens, one after another, read as a part. -/
def Holds (us : List Token) (p : Part) : Prop :=
  ∃ before vs after, us = before ++ (vs ++ after) ∧ ReadAs vs p

theorem Holds.mono {us vs : List Token} {p : Part} (h : Holds vs p) (hin : vs <:+: us) : Holds us p := by
  obtain ⟨before, ws, after, rfl, hws⟩ := h
  obtain ⟨a, b, rfl⟩ := hin
  exact ⟨a ++ before, ws, after ++ b, by simp only [List.append_assoc], hws⟩

theorem ReadAs.holds {us vs : List Token} {p : Part} (h : ReadAs vs p) (hin : vs <:+: us) : Holds us p := by
  obtain ⟨a, b, rfl⟩ := hin
  exact ⟨a, vs, b, by simp only [List.append_assoc], h⟩

theorem ReadAs.holds_member {us : List Token} {xs : List Node} {x : Node}
    (h : ReadAs us (.nodes xs)) (hx : x ∈ xs) : Holds us (.node x) := by
  induction xs generalizing us with
  | nil => exact absurd hx List.not_mem_nil
  | cons y xs ih =>
    cases h with
    | @cons _ _ vs ws hy hxs =>
      rcases List.mem_cons.1 hx with rfl | hx
      · exact hy.holds (List.prefix_append vs ws).isInfix
      · exact (ih hxs hx).mono (List.suffix_append vs ws).isInfix

theorem ReadAs.holds_branch {us : List Token} {branches : List Branch} {otherwise : Otherwise}
    {start at_ : Nat} {source : Text} {children : List Node}
    (h : ReadAs us (.clauses branches otherwise)) (hb : .mk start source at_ children ∈ branches) :
    Holds us (.nodes children) := by
  induction branches generalizing us with
  | nil => exact absurd hb List.not_mem_nil
  | cons b branches ih =>
    cases h with
    | @elseIf t _ _ _ vs ws ht hchildren hrest =>
      rcases List.mem_cons.1 hb with hb | hb
      · cases hb
        exact hchildren.holds ⟨[t], ws, rfl⟩
      · exact (ih hrest hb).mono (List.suffix_append (t :: vs) ws).isInfix

theorem ReadAs.holds_otherwise {us : List Token} {branches : List Branch} {at_ : Nat}
    {children : List Node} (h : ReadAs us (.clauses branches (.nodes at_ children))) :
    Holds us (.nodes children) := by
  induction branches generalizing us with
  | nil =>
    cases h with
    | @otherwise t e _ vs ht hchildren he => exact hchildren.holds ⟨[t], [e], rfl⟩
  | cons b branches ih =>
    cases h with
    | @elseIf t _ _ _ vs ws ht _ hrest => exact (ih hrest).mono (List.suffix_append (t :: vs) ws).isInfix

/-- A node within others is read from some of their tokens. -/
theorem ReadAs.within {us : List Token} {xs : List Node} {x : Node} (h : ReadAs us (.nodes xs))
    (hx : x.Within xs) : Holds us (.node x) := by
  induction hx generalizing us with
  | here hmem => exact h.holds_member hmem
  | element hmem _ ih =>
    obtain ⟨before, vs, after, rfl, hvs⟩ := h.holds_member hmem
    cases hvs with
    | single => exact (ih .nil).mono List.nil_infix
    | @element _ _ _ _ os body cs _ hbody _ =>
      exact (ih hbody).mono ⟨before ++ os, cs ++ after, by simp only [List.append_assoc]⟩
  | branch hmem hb _ ih =>
    obtain ⟨before, vs, after, rfl, hvs⟩ := h.holds_member hmem
    cases hvs with
    | @cond t _ _ _ body rest ht hbody hrest =>
      rcases List.mem_cons.1 hb with hb | hb
      · cases hb
        exact (ih hbody).mono ⟨before ++ [t], rest ++ after, by simp⟩
      · obtain ⟨a, ws, b, rfl, hws⟩ := hrest.holds_branch hb
        exact (ih hws).mono ⟨before ++ t :: (body ++ a), b ++ after, by simp⟩
  | otherwise hmem _ ih =>
    obtain ⟨before, vs, after, rfl, hvs⟩ := h.holds_member hmem
    cases hvs with
    | @cond t _ _ _ body rest ht _ hrest =>
      obtain ⟨a, ws, b, rfl, hws⟩ := hrest.holds_otherwise
      exact (ih hws).mono ⟨before ++ t :: (body ++ a), b ++ after, by simp⟩
  | each hmem _ ih =>
    obtain ⟨before, vs, after, rfl, hvs⟩ := h.holds_member hmem
    cases hvs with
    | @each t e _ _ body ht _ hbody he =>
      exact (ih hbody).mono ⟨before ++ [t], e :: after, by simp⟩

/-! ### A whole template -/

/-- A template that parses has in document order the items of its tokens.  Every element of it is
closed by a closing tag of its name, in whatever case, unless it closes itself or is void; every choice
has a branch for each condition at its own level, and something to render otherwise if and only if an
else clause stands there, after all of them. -/
theorem Node.parse_keeps_items {src : Text} {xs : List Node} (h : Node.parse src = .ok xs) :
    ∃ ts, Token.ofSource src = .ok ts ∧ itemsAll xs = Token.items false ts ∧
      (∀ start tag attrs children, (Node.element start tag attrs children).Within xs →
        ∃ before us after, ts = before ++ (us ++ after) ∧
          ((∃ stop, OpeningTag start tag stop us ∧ children = [] ∧
              (stop = .selfClose ∨ stop = .tagEnd ∧ isVoid (Text.lower tag) = true)) ∨
            ∃ opening body closing, us = opening ++ (body ++ closing) ∧
              OpeningTag start tag .tagEnd opening ∧ ReadAs body (.nodes children) ∧
              ClosingTag tag closing)) ∧
      ∀ start branches otherwise, (Node.cond start branches otherwise).Within xs →
        ∃ before t after, ts = before ++ t :: after ∧ t.kind = .ifOpen ∧ t.start = start ∧
          ∃ ifs elses, Token.clauses 0 after = ifs ++ elses ∧ (∀ u ∈ ifs, u.kind = .elseIf) ∧
            branches.map Branch.head = (t :: ifs).map Token.head ∧ otherwise.OpenedBy elses := by
  rw [Node.parse] at h
  split at h
  · cases h
  rename_i ts hscan
  split at h <;> cases h
  rename_i hparse
  have hread := readAs_ofTokens rfl hparse
  refine ⟨ts ++ [Token.eof src], ?_, ?_, ?_, ?_⟩
  · rw [Token.ofSource, hscan]
    rfl
  · rw [hread.items]
    exact (List.append_nil _).symm
  · intro start tag attrs children hx
    obtain ⟨before, us, after, rfl, hus⟩ := hread.within hx
    refine ⟨before, us, after ++ [Token.eof src], by simp only [List.append_assoc], ?_⟩
    cases hus with
    | single hopen hstop => exact .inl ⟨_, hopen, rfl, hstop⟩
    | element hopen hbody hclose => exact .inr ⟨_, _, _, rfl, hopen, hbody, hclose⟩
  · intro start branches otherwise hx
    obtain ⟨before, us, after, rfl, hus⟩ := hread.within hx
    cases hus with
    | @cond t _ _ _ body rest ht hbody hrest =>
      refine ⟨before, t, body ++ (rest ++ (after ++ [Token.eof src])), by simp, ht, rfl, ?_⟩
      obtain ⟨ifs, elses, hclauses, hifs, hheads, helse⟩ :=
        hrest.balanced.2 (after ++ [Token.eof src])
      refine ⟨ifs, elses, ?_, hifs, congrArg _ hheads, helse⟩
      rw [hbody.balanced, hclauses]

/-- An element closed in another case, a void one, and a choice within a clause of another. -/
theorem Node.parse_keeps_items_nested :
    let src : Text :=
      "\x7b#if a\x7d<P>x</p>\x7b:else if b\x7d<br>\x7b#if c\x7d\x7b:else\x7d\x7bc\x7d\x7b/if\x7d\x7b/if\x7d"
    let inner : Node := .cond 31 [.mk 31 "c" 36 []] (.nodes 38 [.mustache 45 "c" 46])
    let xs : List Node := [.cond 0 [.mk 0 "a" 5 [.element 7 "P" [] [.text 10 "x"]],
      .mk 15 "b" 25 [.element 27 "br" [] [], inner]] .nothing]
    Node.parse src = .ok xs ∧ inner.Within xs ∧
      ∃ ts, Token.ofSource src = .ok ts ∧ itemsAll xs = Token.items false ts := by
  intro src inner xs
  have hparse : Node.parse src = .ok xs := by with_unfolding_all rfl
  obtain ⟨ts, hts, hitems, -⟩ := Node.parse_keeps_items hparse
  refine ⟨hparse, ?_, ts, hts, hitems⟩
  exact .branch List.mem_cons_self (List.mem_cons_of_mem _ List.mem_cons_self)
    (.here (List.mem_cons_of_mem _ List.mem_cons_self))

end Reactive.Template
