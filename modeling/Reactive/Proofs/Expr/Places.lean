/-
Where the parts of a parsed tree stand in its source.

A source inside a template literal is cut out and parsed on its own, and may
hold template literals in turn.  Each of them is known to stand somewhere in the
outermost source, and offsets count from there: so an identifier stands at its
offset however deep it is nested, and the source of a function is the text
between the braces of its body.

* `Scanned.stands` — the tokens of a source inside of another one;
* `Grammar.Derives.placed` — what is derived from them;
* `Expr.placed_of_parse`, `Stmt.placed_of_parseProgram` — parsed trees.
-/
import Reactive.Proofs.Expr.Sound
import Reactive.Proofs.Expr.Tiling

namespace Reactive

open Text Lexer

/-! ### Places -/

/-- A text stands in a source and ends at an offset of it. -/
def Text.EndsAt (src : Text) (stop : Nat) (s : Text) : Prop :=
  ∃ before after, src = before ++ (s ++ after) ∧ stop = before.length + s.length

section

variable {src x s : Text} {stop : Nat}

theorem Text.endsAt_self (src : Text) : src.EndsAt src.length src :=
  ⟨[], [], by simp, by simp⟩

theorem Text.EndsAt.suffix (h : src.EndsAt stop (x ++ s)) : src.EndsAt stop s := by
  obtain ⟨before, after, rfl, rfl⟩ := h
  exact ⟨before ++ x, after, by simp, by simp [Nat.add_assoc]⟩

theorem Text.EndsAt.offset_add (h : src.EndsAt stop s) :
    offset stop s + s.length = stop ∧ stop ≤ src.length := by
  obtain ⟨before, after, rfl, rfl⟩ := h
  simp only [offset, List.length_append]
  omega

/-- The front part of a text that stands in a source. -/
theorem Text.EndsAt.front (h : src.EndsAt stop (x ++ s)) :
    src.EndsAt (offset stop (x ++ s) + x.length) x := by
  obtain ⟨before, after, rfl, rfl⟩ := h
  refine ⟨before, s ++ after, by simp, ?_⟩
  rw [offset, Nat.add_sub_cancel]

theorem Text.EndsAt.prefix_drop (h : src.EndsAt stop (x ++ s)) :
    x <+: src.drop (offset stop (x ++ s)) := by
  obtain ⟨before, after, rfl, rfl⟩ := h
  rw [offset, Nat.add_sub_cancel, List.drop_left, List.append_assoc]
  exact List.prefix_append x _

/-- A part of a text that stands in a source, by offsets of the source. -/
theorem Text.EndsAt.slice {base a b : Nat} (h : src.EndsAt (base + s.length) s) (ha : base ≤ a)
    (hb : b ≤ base + s.length) : s.slice (a - base) (b - base) = src.slice a b := by
  obtain ⟨before, after, rfl, hbase⟩ := h
  obtain rfl : base = before.length := by omega
  obtain ⟨d, rfl⟩ := Nat.exists_eq_add_of_le ha
  rw [Text.slice, Text.slice, Nat.add_sub_cancel_left, ← List.drop_drop, List.drop_left]
  rw [Nat.sub_sub]
  by_cases hd : d ≤ s.length
  · rw [List.drop_append_of_le_length hd, List.take_append_of_le_length]
    rw [List.length_drop]
    omega
  · rw [show b - (before.length + d) = 0 by omega, List.take_zero, List.take_zero]

end

/-! ### Tokens -/

/-- What a lexeme spells stands in a source at an offset, and the expressions in a template literal
after it. -/
def Lexeme.StandsAt (src : Text) (pos : Nat) : Lexeme → Prop
  | .ident n => n <+: src.drop pos
  | .keyword k => k.text <+: src.drop pos
  | .punct p => p.text <+: src.drop pos
  | .template _ _ parts =>
    ∀ p ∈ parts, pos ≤ p.offset ∧ src.EndsAt (p.offset + p.source.length) p.source
  | _ => True

section

variable {src : Text} {stop : Nat}

theorem Lexer.offset_append (stop : Nat) (u v : Text) : offset stop (u ++ v) ≤ offset stop v := by
  rw [offset, offset, List.length_append]
  omega

theorem Lexer.Holes.stand {rest y : Text} {ps : List Interpolation} (h : Holes stop rest y ps)
    (hy : src.EndsAt stop (y ++ 96 :: rest)) : ∀ p ∈ ps, offset stop (y ++ 96 :: rest) ≤ p.offset ∧
      src.EndsAt (p.offset + p.source.length) p.source := by
  induction h with
  | nil => exact fun p hp => absurd hp List.not_mem_nil
  | @byte b y _ _ _ _ _ ih =>
    exact fun p hp => (ih (hy.suffix (x := [b])) p hp).imp_left
      (Nat.le_trans (offset_append stop [b] _))
  | @escape b y _ _ ih =>
    exact fun p hp => (ih (hy.suffix (x := [92, b])) p hp).imp_left
      (Nat.le_trans (offset_append stop [92, b] _))
  | @hole p y ps hp _ ih =>
    have htext : 36 :: 123 :: (p.source ++ 125 :: y) ++ 96 :: rest =
        [36, 123] ++ (p.source ++ 125 :: (y ++ 96 :: rest)) := by simp
    have hwhole : 36 :: 123 :: (p.source ++ 125 :: y) ++ 96 :: rest =
        36 :: 123 :: (p.source ++ [125]) ++ (y ++ 96 :: rest) := by simp
    rw [htext] at hy ⊢
    have hinner := hy.suffix
    refine List.forall_mem_cons.2 ⟨⟨hp ▸ offset_append stop _ _, hp ▸ hinner.front⟩, fun q hq => ?_⟩
    rw [← htext, hwhole]
    exact (ih (hinner.suffix.suffix (x := [125])) q hq).imp_left
      (Nat.le_trans (offset_append stop _ _))

theorem Lexer.Spells.stands {rest x : Text} {l : Lexeme} (h : Spells stop rest l x)
    (hx : src.EndsAt stop (x ++ rest)) : l.StandsAt src (offset stop (x ++ rest)) := by
  cases h with
  | number | str => trivial
  | template hy =>
    rename_i y _ _
    have htext : 96 :: (y ++ [96]) ++ rest = [96] ++ (y ++ 96 :: rest) := by simp
    rw [htext] at hx ⊢
    exact fun p hp => (hy.stand hx.suffix p hp).imp_left (Nat.le_trans (offset_append stop _ _))
  | ident | keyword | mark => exact hx.prefix_drop

/-- The tokens of a part of a source stand in it, one after another. -/
theorem Lexer.Tiles.stands {s last : Text} {tiles : List Tile} (h : Tiles stop s tiles last)
    (hs : src.EndsAt stop s) : ∀ t ∈ tiles, t.token.lexeme.StandsAt src t.token.pos ∧
      offset stop s ≤ t.token.pos ∧ t.token.pos < stop := by
  induction h with
  | nil => exact fun t ht => absurd ht List.not_mem_nil
  | @cons g x s l tiles last _ hne hspells _ ih =>
    have hx := hs.suffix
    have hend := hx.offset_add
    have hpos : 0 < x.length := List.length_pos_iff.2 hne
    have hlen := @offset_append stop
    refine List.forall_mem_cons.2 ⟨⟨hspells.stands hx, hlen _ _, ?_⟩, fun t ht => ?_⟩
    · rw [List.length_append] at hend
      simp only
      omega
    · obtain ⟨hstands, hleast, hmost⟩ := ih hx.suffix t ht
      exact ⟨hstands, Nat.le_trans (hlen _ _) (Nat.le_trans (hlen _ _) hleast), hmost⟩

end

/-! ### Sources inside of sources -/

namespace Parser

/-- A source that stands in another one, and its tokens. -/
structure Source.Scanned (src : Text) (c : Source) (ts : List Token) : Prop where
  scanned : Token.ofSource c.base c.text = .ok (ts, c.eof)
  ends : src.EndsAt (c.base + c.text.length) c.text

namespace Source.Scanned

variable {src : Text} {c : Source} {ts : List Token}

theorem stands (h : c.Scanned src ts) : ∀ t ∈ ts, t.lexeme.StandsAt src t.pos ∧
    c.base ≤ t.pos ∧ t.pos < c.base + c.text.length := by
  obtain ⟨tiles, last, rfl, htiles, -⟩ := tiles_scan h.scanned
  intro t ht
  obtain ⟨tile, htile, rfl⟩ := List.mem_map.1 ht
  obtain ⟨hstands, hleast, hmost⟩ := htiles.stands h.ends tile htile
  rw [offset, Nat.add_sub_cancel] at hleast
  exact ⟨hstands, hleast, hmost⟩

theorem ordered (h : c.Scanned src ts) : ts.Pairwise fun t u => t.pos < u.pos := by
  obtain ⟨tiles, last, rfl, htiles, -⟩ := tiles_scan h.scanned
  rw [List.pairwise_map]
  refine (htiles.pairwise (Nat.le_add_left _ _)).2.imp_of_mem ?_
  intro t u ht _ htu
  obtain ⟨before, after, hsplit⟩ := List.append_of_mem ht
  have hne : 0 < t.lexeme.length := List.length_pos_iff.2 (htiles.at hsplit).2.1
  omega

/-- The byte of a mark. -/
theorem getElem?_mark (h : c.Scanned src ts) {t : Token} (ht : t ∈ ts) {p : Punct} {b : UInt8}
    (hp : t.lexeme = .punct p) (hb : p.text = [b]) : src[t.pos]? = some b := by
  obtain ⟨hstands, -⟩ := h.stands t ht
  rw [hp, Lexeme.StandsAt, hb] at hstands
  obtain ⟨r, hr⟩ := hstands
  have hhead := congrArg List.head? hr
  rw [List.head?_drop] at hhead
  exact hhead.symm

end Source.Scanned

end Parser

/-! ### Trees -/

namespace Grammar

open Reactive.Parser (Source)

/-- A function declaration of a source inside of another one: its keyword, its name, its parameters in
parentheses and its body in braces.  It spells the body, and its source is the text between the braces. -/
inductive Declares (src : Text) : Nat → Text → List Text → List Stmt → Text → Prop where
  | mk {c : Source} {ts : List Token} {w t l o k : Token} {ns xs n names ss} : c.Scanned src ts →
      w :: t :: l :: (ns ++ o :: (xs ++ [k])) <:+: ts → w.lexeme = .keyword .function →
      t.lexeme = .ident n → l.lexeme = .punct .lparen → Derives c .names ns names →
      o.lexeme = .punct .lbrace → Derives c (.stmts k) xs ss → k.lexeme = .punct .rbrace →
      src[o.pos]? = some 123 → src[k.pos]? = some 125 → o.pos < k.pos →
      Declares src w.pos n names ss (src.slice (o.pos + 1) k.pos)

end Grammar

section

variable (src : Text)

mutual

/-- Each identifier of an expression stands in a source at its offset, and the source of each function
is the text between the braces of its body. -/
def Expr.Placed : Expr → Prop
  | .literal .. => True
  | .ident pos n => n <+: src.drop pos
  | .template _ _ es | .array _ es => placedExprs es
  | .object _ ps => placedProperties ps
  | .spread _ a => a.Placed
  | .member _ o _ _ => o.Placed
  | .index _ o k _ => o.Placed ∧ k.Placed
  | .call _ f args _ => f.Placed ∧ placedExprs args
  | .unary _ _ e => e.Placed
  | .binary _ _ l r => l.Placed ∧ r.Placed
  | .conditional _ t y n => t.Placed ∧ y.Placed ∧ n.Placed
  | .arrow _ _ b => b.Placed
  | .assign _ _ t v => t.Placed ∧ v.Placed
  | .step _ _ _ t => t.Placed

/-- The same for several expressions. -/
def placedExprs : List Expr → Prop
  | [] => True
  | e :: r => e.Placed ∧ placedExprs r

/-- The same for the entries of an object literal. -/
def placedProperties : List Property → Prop
  | [] => True
  | p :: r => p.Placed ∧ placedProperties r

/-- The same for an entry of an object literal. -/
def Property.Placed : Property → Prop
  | .mk _ v _ => v.Placed

/-- The same for the body of an arrow function. -/
def Body.Placed : Body → Prop
  | .expr e => e.Placed
  | .block ss => placedStmts ss

/-- The same for a block. -/
def placedStmts : List Stmt → Prop
  | [] => True
  | s :: r => s.Placed ∧ placedStmts r

/-- The same for a statement. -/
def Stmt.Placed : Stmt → Prop
  | .expr _ e => e.Placed
  | .decl _ _ _ init _ =>
    match init with
    | none => True
    | some e => e.Placed
  | .cond _ test yes no => test.Placed ∧ placedStmts yes ∧ placedStmts no
  | .ret _ value =>
    match value with
    | none => True
    | some e => e.Placed
  | .func pos name params ss source _ =>
    Grammar.Declares src pos name params ss source ∧ placedStmts ss
  | .labeled _ _ s => s.Placed

end

end

namespace Grammar

open Reactive.Parser (Source)

/-- The sources inside a template literal stand in a source. -/
def Sym.StandsIn (src : Text) : Sym → Prop
  | .parts ps => ∀ p ∈ ps, src.EndsAt (p.offset + p.source.length) p.source
  | _ => True

/-- What a nonterminal spells stands in a source. -/
def Sym.Placed (src : Text) : (s : Sym) → s.Out → Prop
  | .parts _, es | .elements _, es => placedExprs src es
  | .primary, e | .operand _, e | .unary _, e | .binary _ _, e | .conditional _, e | .expr _, e
  | .element, e => e.Placed src
  | .property, p => p.Placed src
  | .properties, ps => placedProperties src ps
  | .names, _ => True
  | .arrowBody _, b => b.Placed src
  | .block, b => placedStmts src b.1
  | .stmts _, ss | .body _, ss => placedStmts src ss
  | .stmt _, s => s.Placed src

/-- **What is derived from the tokens of a source stands in it**, and in the source around it. -/
theorem Derives.placed {src : Text} {c : Source} {s : Sym} {xs ts : List Token} {a : s.Out}
    (h : Derives c s xs a) (hc : c.Scanned src ts) (hxs : xs <:+: ts) (hs : s.StandsIn src) :
    s.Placed src a := by
  induction h generalizing ts with
  | noParts | number | str | constant | noElements | noProperties | noNames | lastName | names | noStmts
  | declBare | ret => trivial
  | parts hsrc _ _ ihe ihes =>
    obtain ⟨hp, hps⟩ := List.forall_mem_cons.1 hs
    exact ⟨ihe ⟨hsrc, hp⟩ (List.infix_refl _) trivial, ihes hc hxs hps⟩
  | template ht _ ih =>
    obtain ⟨hstands, -⟩ := hc.stands _ (hxs.subset List.mem_cons_self)
    rw [ht] at hstands
    exact ih hc List.nil_infix fun p hp => (hstands p hp).2
  | ident ht | shorthand ht =>
    obtain ⟨hstands, -⟩ := hc.stands _ (hxs.subset List.mem_cons_self)
    rw [ht] at hstands
    exact hstands
  | @paren c o k xs _ _ _ _ _ ih => exact ih hc (.trans ⟨[o], [k], by simp⟩ hxs) trivial
  | @array c o xs _ _ _ ih | @object c o xs _ _ _ ih =>
    exact ih hc (.trans ⟨[o], [], by simp⟩ hxs) trivial
  | plain _ ih | unmarked _ ih | tight _ ih | looser _ _ _ ih | certain _ ih | value _ ih
  | arrowValue _ _ ih | arrowBlock _ ih | element _ ih | braced _ ih => exact ih hc hxs trivial
  | single _ _ ih => exact ⟨ih hc hxs trivial, trivial⟩
  | @member c d t xs _ _ _ _ _ _ ih => exact ih hc (.trans ⟨[], [d, t], by simp⟩ hxs) trivial
  | @index c o k xs ys _ _ _ _ _ _ _ ihe ihk =>
    exact ⟨ihe hc (.trans ⟨[], o :: (ys ++ [k]), by simp⟩ hxs) trivial,
      ihk hc (.trans ⟨xs ++ [o], [k], by simp⟩ hxs) trivial⟩
  | @optionalIndex c d o k xs ys _ _ _ _ _ _ _ _ ihe ihk =>
    exact ⟨ihe hc (.trans ⟨[], d :: o :: (ys ++ [k]), by simp⟩ hxs) trivial,
      ihk hc (.trans ⟨xs ++ [d, o], [k], by simp⟩ hxs) trivial⟩
  | @call c o xs ys _ _ _ _ _ ihe ihs =>
    exact ⟨ihe hc (.trans ⟨[], o :: ys, by simp⟩ hxs) trivial,
      ihs hc (.trans ⟨xs ++ [o], [], by simp⟩ hxs) trivial⟩
  | @optionalCall c d o xs ys _ _ _ _ _ _ ihe ihs =>
    exact ⟨ihe hc (.trans ⟨[], d :: o :: ys, by simp⟩ hxs) trivial,
      ihs hc (.trans ⟨xs ++ [d, o], [], by simp⟩ hxs) trivial⟩
  | @stepAfter c t xs _ _ _ _ _ _ ih => exact ih hc (.trans ⟨[], [t], by simp⟩ hxs) trivial
  | @unary c t xs _ _ _ _ _ ih | @stepBefore c t xs _ _ _ _ _ _ ih | @spread c t xs _ _ _ _ ih
  | @skip c t _ xs _ _ _ ih => exact ih hc (.trans ⟨[t], [], by simp⟩ hxs) trivial
  | @binary c t _ xs ys _ _ _ _ _ _ _ _ _ _ ihl ihr | @power c t xs ys _ _ _ _ _ _ _ ihl ihr
  | @assign c t xs ys _ _ _ _ _ _ _ _ _ ihl ihr | @elements c t _ xs ys _ _ _ _ _ ihl ihr
  | @properties c t xs ys _ _ _ _ _ ihl ihr =>
    exact ⟨ihl hc (.trans ⟨[], t :: ys, by simp⟩ hxs) trivial,
      ihr hc (.trans ⟨xs ++ [t], [], by simp⟩ hxs) trivial⟩
  | @conditional c q k xs ys zs _ _ _ _ _ _ _ _ _ _ _ iht ihy ihn =>
    exact ⟨iht hc (.trans ⟨[], q :: (ys ++ k :: zs), by simp⟩ hxs) trivial,
      ihy hc (.trans ⟨xs ++ [q], k :: zs, by simp⟩ hxs) trivial,
      ihn hc (.trans ⟨xs ++ q :: (ys ++ [k]), [], by simp⟩ hxs) trivial⟩
  | @arrowOne c t a xs _ _ _ _ _ _ ih | @property c t a xs _ _ _ _ _ _ _ ih
  | @labeled c _ t a xs _ _ _ _ _ ih => exact ih hc (.trans ⟨[t, a], [], by simp⟩ hxs) trivial
  | @arrow c o a ns xs _ _ _ _ _ _ _ _ ih =>
    exact ih hc (.trans ⟨o :: (ns ++ [a]), [], by simp⟩ hxs) trivial
  | @lastElement c k _ xs _ _ _ ih | @lastProperty c k xs _ _ _ ih =>
    exact ⟨ih hc (.trans ⟨[], [k], by simp⟩ hxs) trivial, trivial⟩
  | @block c o k xs _ _ _ _ ih => exact ih hc (.trans ⟨[o], [k], by simp⟩ hxs) trivial
  | @stmts c _ xs ys _ _ _ _ ih ihs =>
    exact ⟨ih hc (.trans ⟨[], ys, by simp⟩ hxs) trivial, ihs hc (.trans ⟨xs, [], by simp⟩ hxs) trivial⟩
  | @exprStmt c _ t xs es _ _ _ _ ih => exact ih hc (.trans ⟨[], es, by simp⟩ hxs) trivial
  | @decl c _ w t a ps xs es _ _ _ _ _ _ _ _ _ _ _ ih =>
    exact ih hc (.trans ⟨ps ++ [w, t, a], es, by simp⟩ hxs) trivial
  | @func c _ w t l ps ns xs _ _ _ _ _ hw ht hl hns hb _ ih =>
    have hbody := ih hc (.trans ⟨ps ++ w :: t :: l :: ns, [], by simp⟩ hxs) trivial
    cases hb with
    | @block _ o k ys ss ho hss hk =>
      have hparts : w :: t :: l :: (ns ++ o :: (ys ++ [k])) <:+: ts := .trans ⟨ps, [], by simp⟩ hxs
      have hbraces : o :: (ys ++ [k]) <:+: ts := .trans ⟨w :: t :: l :: ns, [], by simp⟩ hparts
      have hmem : o ∈ ts ∧ k ∈ ts := ⟨hbraces.subset (by simp), hbraces.subset (by simp)⟩
      obtain ⟨-, hopen, -⟩ := hc.stands o hmem.1
      obtain ⟨-, -, hclose⟩ := hc.stands k hmem.2
      have horder : o.pos < k.pos :=
        (List.pairwise_cons.1 (hc.ordered.sublist hbraces.sublist)).1 k (by simp)
      rw [hc.ends.slice (Nat.le_succ_of_le hopen) (Nat.le_of_lt hclose)]
      exact ⟨.mk hc hparts hw ht hl hns ho hss hk (hc.getElem?_mark hmem.1 ho rfl)
        (hc.getElem?_mark hmem.2 hk rfl) horder, hbody⟩
  | @cond c _ w o k xs ys _ _ _ _ _ _ _ _ _ ih ihy =>
    exact ⟨ih hc (.trans ⟨[w, o], k :: ys, by simp⟩ hxs) trivial,
      ihy hc (.trans ⟨w :: o :: (xs ++ [k]), [], by simp⟩ hxs) trivial, trivial⟩
  | @condElse c _ w o k l xs ys zs _ _ _ _ _ _ _ _ _ _ _ ih ihy ihn =>
    exact ⟨ih hc (.trans ⟨[w, o], k :: (ys ++ l :: zs), by simp⟩ hxs) trivial,
      ihy hc (.trans ⟨w :: o :: (xs ++ [k]), l :: zs, by simp⟩ hxs) trivial,
      ihn hc (.trans ⟨w :: o :: (xs ++ k :: (ys ++ [l])), [], by simp⟩ hxs) trivial⟩
  | @retValue c _ w t xs es _ _ _ _ _ _ ih =>
    exact ih hc (.trans ⟨[w], es, by simp⟩ hxs) trivial

end Grammar

/-! ### Parsed sources -/

/-- What a source inside of another one spells stands there. -/
theorem Expr.placed_of_parseAt {src text : Text} {base : Nat} {e : Expr}
    (h : Expr.parseAt base text = .ok e) (hends : src.EndsAt (base + text.length) text) :
    e.Placed src := by
  obtain ⟨ts, eof, τ, hsrc, hderives⟩ := exists_derives_of_parseAt h
  exact hderives.placed ⟨hsrc, hends⟩ (List.infix_refl _) trivial

theorem Expr.placed_of_parse {src : Text} {e : Expr} (h : Expr.parse src = .ok e) : e.Placed src :=
  placed_of_parseAt h (by simpa using src.endsAt_self)

theorem Parser.placed_of_program {src : Text} {c : Source} {all ts : List Token} {ss : List Stmt}
    (hc : c.Scanned src all) (hts : ts <:+ all) (h : program c ts = .ok ss) : placedStmts src ss := by
  fun_induction program c ts generalizing ss with
  | case1 =>
    cases h
    trivial
  | case2 t r _ ih => exact ih ((List.suffix_cons t r).trans hts) h
  | case3 => cases h
  | case4 => cases h
  | case5 t r _ s r' _ hs ss' hss' ih =>
    cases h
    obtain ⟨xs, hxs, hd⟩ := (statement_reads c (t :: r) (derived_level _)).of_ok hs
    rw [hxs] at hts
    exact ⟨hd.placed hc (.trans ⟨[], r', rfl⟩ hts.isInfix) trivial,
      ih ((List.suffix_append xs r').trans hts) hss'⟩

theorem Stmt.placed_of_parseProgram {src : Text} {ss : List Stmt}
    (h : Stmt.parseProgram src = .ok ss) : placedStmts src ss := by
  unfold Stmt.parseProgram at h
  split at h
  · cases h
  · rename_i hsrc
    have hends : src.EndsAt (0 + src.length) src := by simpa using src.endsAt_self
    exact Parser.placed_of_program ⟨hsrc, hends⟩ (List.suffix_refl _) h

end Reactive
