/-
Texts that spell what the grammar derives.

`Spelled x D` says that a text `x`, after any blanks and before anything that
ends a word, is lexed to tokens with the property `D`.  Such texts are put
together from tokens, and each production of the grammar gives one lemma: the
canonical texts of the parts spell the parts, so the text of the whole spells
the whole.  Trees are compared without offsets.

* `Spelled.seq`, `Spelled.mark` — texts put together;
* `IsOperand`, `IsValue`, `IsStmt` — tokens that derive a given tree.
-/
import Reactive.Proofs.Expr.Canonical
import Reactive.Proofs.Expr.Complete

namespace Reactive.Grammar

open Lexer
open Reactive.Parser (propertyName? prefixOp? infixOp? assignOp?)

/-! ### Texts put together -/

/-- A property of tokens of a source; the flag tells whether a line break stands before them. -/
abbrev Shape := Parser.Source → Bool → List Token → Prop

/-- After blanks and before anything that ends a word, a text is tokens with a property. -/
def Spelled (x : Text) (D : Shape) : Prop :=
  ∀ c stop ws rest, Blank ws → breaks rest = true →
    ∃ xs, Lexes stop (ws ++ x) rest xs ∧ D c (ws.contains 10) xs

/-- One token. -/
def Tok (l : Lexeme) : Shape := fun _ nl xs => ∃ t, xs = [t] ∧ t.lexeme = l ∧ t.newline = nl

/-- Tokens after tokens, with or without a line break between them. -/
def Seq (D : Shape) (nl : Bool) (E : Shape) : Shape := fun c nl' xs =>
  ∃ us vs, xs = us ++ vs ∧ D c nl' us ∧ E c nl vs

/-- Tokens after a token. -/
def After (l : Lexeme) (nl : Bool) (E : Shape) : Shape := fun c nl' xs =>
  ∃ t vs, xs = t :: vs ∧ t.lexeme = l ∧ t.newline = nl' ∧ E c nl vs

theorem Spelled.imp {x : Text} {D E : Shape} (h : Spelled x D)
    (hDE : ∀ c nl xs, D c nl xs → E c nl xs) : Spelled x E := by
  intro c stop ws rest hws hrest
  obtain ⟨xs, hxs, hD⟩ := h c stop ws rest hws hrest
  exact ⟨xs, hxs, hDE _ _ _ hD⟩

theorem Spelled.seq {x y w : Text} {D E : Shape} (hx : Spelled x D) (hy : Spelled y E)
    (hw : Blank w) (hb : ∀ rest, breaks (w ++ y ++ rest) = true) :
    Spelled (x ++ (w ++ y)) (Seq D (w.contains 10) E) := by
  intro c stop ws rest hws hrest
  obtain ⟨us, hus, hD⟩ := hx c stop ws (w ++ y ++ rest) hws (hb rest)
  obtain ⟨vs, hvs, hE⟩ := hy c stop w rest hw hrest
  refine ⟨us ++ vs, ?_, us, vs, rfl, hD, hE⟩
  rw [← List.append_assoc]
  exact hus.append hvs

/-- Blanks before a text are blanks before its first token. -/
theorem Spelled.blanks {x w : Text} {D E : Shape} (hx : Spelled x D) (hw : Blank w)
    (hDE : ∀ c nl nl' xs, D c nl xs → E c nl' xs) : Spelled (w ++ x) E := by
  intro c stop ws rest hws hrest
  obtain ⟨xs, hxs, hD⟩ := hx c stop (ws ++ w) rest (hws.append hw) hrest
  exact ⟨xs, by rwa [← List.append_assoc], hDE _ _ _ _ hD⟩

theorem spelled_token {x : Text} {l : Lexeme} (ho : ∀ rest, breaks rest = true →
    opens (x ++ rest) = true) (hl : ∀ stop rest, breaks rest = true → Reads stop x rest l) :
    Spelled x (Tok l) := by
  intro c stop ws rest hws hrest
  have h := lexes_token hws (ho rest hrest) (hl stop rest hrest)
  exact ⟨_, h, _, rfl, rfl, rfl⟩

/-- A text whose first byte is neither a blank nor a slash. -/
theorem opens_cons {b : UInt8} {r : Text} (hb : b ≠ 47 ∧ b ≠ 10 ∧ b ≠ 32 ∧ b ≠ 9 ∧ b ≠ 13) :
    opens (b :: r) = true := by
  obtain ⟨hslash, hrest⟩ := hb
  unfold opens
  split
  · rename_i heq
    exact absurd (List.cons.inj heq).1 hslash
  · rename_i heq
    obtain ⟨rfl, -⟩ := List.cons.inj heq
    simpa [and_assoc] using hrest
  · rfl

theorem spelled_word {w : Text} (hw : isWord w = true) : Spelled w (Tok (wordLexeme w)) := by
  refine spelled_token (fun rest _ => ?_) fun stop rest hrest => reads_word hw hrest
  obtain ⟨b, r, rfl, hstart⟩ := exists_cons_of_word hw
  refine opens_cons ⟨?_, ?_, ?_, ?_, ?_⟩ <;> rintro rfl <;>
    exact absurd hstart (by rw [Text.decode_ascii (by decide)]; decide)

theorem spelled_ident {n : Text} (hn : isIdentifier n = true) : Spelled n (Tok (.ident n)) := by
  obtain ⟨hword, hkey⟩ := isIdentifier_iff.1 hn
  have h := spelled_word hword
  rwa [wordLexeme, hkey] at h

theorem isWord_keyword (k : Keyword) : isWord k.text = true := by
  cases k <;> decide +kernel

theorem spelled_keyword (k : Keyword) : Spelled k.text (Tok (.keyword k)) := by
  have h := spelled_word (isWord_keyword k)
  have hkey : wordLexeme k.text = .keyword k := by cases k <;> decide +kernel
  rwa [hkey] at h

theorem spelled_number (n : Nat) : Spelled (Text.ofNat n) (Tok (.number (Text.ofNat n))) := by
  refine spelled_token (fun rest _ => ?_) fun stop rest hrest => reads_number hrest
  obtain ⟨b, r, heq⟩ := List.exists_cons_of_ne_nil (ofNat_ne_nil n)
  have hb := isDigit_iff.1 (isDigit_of_mem_ofNat (n := n) (b := b) (by simp [heq]))
  rw [heq]
  refine opens_cons ⟨?_, ?_, ?_, ?_, ?_⟩ <;> rintro rfl <;> exact absurd hb (by decide)

theorem spelled_quote {s : Text} (hs : s.reread = s) : Spelled (Text.quote s) (Tok (.str s)) := by
  refine spelled_token (fun _ _ => opens_cons (by decide)) fun stop rest _ => ?_
  have h := @reads_quote stop s rest
  rwa [hs] at h

/-! ### Marks -/

/-- Marks that no longer mark starts with. -/
def solid : Punct → Bool
  | .lparen | .rparen | .lbracket | .rbracket | .lbrace | .rbrace | .comma | .semicolon | .colon
  | .ellipsis | .arrow | .increment | .decrement => true
  | _ => false

/-- The bytes with which longer marks go on. -/
def continuations (p : Punct) : List UInt8 :=
  Punct.all.filterMap fun q => if p.text.isPrefixOf q.text then q.text[p.text.length]? else none

theorem lengthens_false {p : Punct} {b : UInt8} (hb : b ∉ continuations p) :
    lengthens p b = false := by
  rw [Bool.eq_false_iff]
  intro h
  obtain ⟨q, hq, hstart⟩ := List.any_eq_true.1 h
  obtain ⟨v, hv⟩ := List.isPrefixOf_iff_prefix.1 hstart
  refine hb (List.mem_filterMap.2 ⟨q, hq, ?_⟩)
  rw [if_pos (List.isPrefixOf_iff_prefix.2 ⟨b :: v, by simp [← hv]⟩), ← hv]
  simp

theorem endsBefore_solid {p : Punct} (hp : solid p = true) (r : Text) : endsBefore p r = true := by
  have hnone : continuations p = [] ∧ p ≠ .dot ∧ p ≠ .optional := by
    cases p <;> first | decide | cases hp
  obtain ⟨hcontinue, hdot, hoptional⟩ := hnone
  cases r with
  | nil => rfl
  | cons b r =>
    have hlengthens : lengthens p b = false := lengthens_false (by simp [hcontinue])
    simp [endsBefore, hlengthens, hdot, hoptional]

theorem endsBefore_blank (p : Punct) (r : Text) : endsBefore p (32 :: r) = true := by
  show (!lengthens p 32 && !((p = .dot || p = .optional) && Text.isDigit 32)) = true
  cases p <;> decide

theorem opens_mark {p : Punct} (hp : p ≠ .slash) (r : Text) : opens (p.text ++ r) = true := by
  cases p <;> first | rfl | exact absurd rfl hp

theorem opens_mark_blank (p : Punct) (r : Text) : opens (p.text ++ 32 :: r) = true := by
  cases p <;> rfl

theorem breaks_blank (r : Text) : breaks (32 :: r) = true := by
  rfl

theorem breaks_mark {p : Punct} (hp : p.text.head? ≠ some 46) (r : Text) :
    breaks (p.text ++ r) = true := by
  cases p <;> first | rfl | exact absurd rfl hp

/-- A mark before a text that does not go on with it. -/
theorem Spelled.mark {p : Punct} {y w : Text} {E : Shape} (hy : Spelled y E) (hw : Blank w)
    (hends : ∀ rest, endsBefore p (w ++ y ++ rest) = true)
    (hopens : ∀ rest, opens (p.text ++ (w ++ y ++ rest)) = true) :
    Spelled (p.text ++ (w ++ y)) (After (.punct p) (w.contains 10) E) := by
  intro c stop ws rest hws hrest
  have ht := lexes_token hws (hopens rest) (@reads_mark stop _ _ (hends rest))
  obtain ⟨vs, hvs, hE⟩ := hy c stop w rest hw hrest
  refine ⟨⟨.punct p, offset stop (p.text ++ (w ++ y ++ rest)), ws.contains 10⟩ :: vs, ?_, _, vs,
    rfl, rfl, rfl, hE⟩
  rw [← List.append_assoc]
  exact ht.append hvs

/-- A mark that no longer mark starts with, before a text. -/
theorem Spelled.after {p : Punct} (hp : solid p = true) {y w : Text} {E : Shape} (hy : Spelled y E)
    (hw : Blank w) : Spelled (p.text ++ (w ++ y)) (After (.punct p) (w.contains 10) E) := by
  have hslash : p ≠ .slash := by
    rintro rfl
    cases hp
  exact hy.mark hw (fun _ => endsBefore_solid hp _) fun _ => opens_mark hslash _

/-- A mark with a blank after it. -/
theorem Spelled.spaced {p : Punct} {y : Text} {E : Shape} (hy : Spelled y E) :
    Spelled (p.text ++ ([32] ++ y)) (After (.punct p) false E) :=
  hy.mark (fun _ hb => .inl (List.mem_singleton.1 hb)) (fun _ => endsBefore_blank p _)
    fun _ => opens_mark_blank p _

theorem spelled_mark {p : Punct} (hp : solid p = true) : Spelled p.text (Tok (.punct p)) := by
  have hslash : p ≠ .slash := by
    rintro rfl
    cases hp
  exact spelled_token (fun _ _ => opens_mark hslash _)
    fun _ _ _ => reads_mark (endsBefore_solid hp _)

theorem blank_space : Blank [32] := fun _ hb => .inl (List.mem_singleton.1 hb)

theorem solid_of_separates {p : Punct} (hp : separates p = true) :
    solid p = true ∧ p.text.head? ≠ some 46 := by
  cases p <;> first | decide | cases hp

/-- A text with a closing mark after it. -/
theorem Spelled.close {p : Punct} (hp : separates p = true) {x : Text} {D : Shape}
    (hx : Spelled x D) : Spelled (x ++ p.text) (Seq D false (Tok (.punct p))) :=
  hx.seq (spelled_mark (solid_of_separates hp).1) Blank.nil
    fun _ => breaks_mark (solid_of_separates hp).2 _

/-- Two texts with a separator between them. -/
theorem Spelled.separated {p : Punct} (hp : separates p = true) {x y w : Text} {D E : Shape}
    (hx : Spelled x D) (hw : Blank w) (hy : Spelled y E) :
    Spelled (x ++ (p.text ++ (w ++ y))) (Seq D false (After (.punct p) (w.contains 10) E)) := by
  refine hx.seq (hy.after (solid_of_separates hp).1 hw) Blank.nil fun rest => ?_
  rw [List.nil_append, List.append_assoc]
  exact breaks_mark (solid_of_separates hp).2 _

/-- The tokens of a source that is a text by itself. -/
theorem Spelled.ofSource {x : Text} {D : Shape} (hx : Spelled x D) (base : Nat) :
    ∃ xs eof, Token.ofSource base x = .ok (xs, eof) ∧ D ⟨x, base, eof⟩ false xs := by
  obtain ⟨xs, hxs, hD⟩ := hx ⟨x, base, ⟨.eof, base + x.length, false⟩⟩ (base + x.length) [] []
    Blank.nil rfl
  have hsrc := hxs _ _ (scan_nil _)
  rw [List.nil_append, List.append_nil, List.append_nil] at hsrc
  exact ⟨xs, _, hsrc, hD⟩

/-! ### Operands and values -/

/-- The first token: whether it stands on a new line, and whether it is an opening brace. -/
def Heads (lead nl : Bool) (xs : List Token) : Prop :=
  ∃ t r, xs = t :: r ∧ t.newline = nl ∧ (t.lexeme = .punct .lbrace ↔ lead = true)

/-- Tokens that derive an expression as an operand. -/
def IsOperand (lead : Bool) (e : Expr) : Shape := fun c nl xs =>
  Heads lead nl xs ∧ ∃ e', Derives c (.operand .chain) xs e' ∧ e'.bare = e.bare

/-- Tokens that derive an expression as an operand that may carry an increment or decrement. -/
def IsUnary (lead : Bool) (e : Expr) : Shape := fun c nl xs =>
  Heads lead nl xs ∧ ∃ τ e', Derives c (.unary τ) xs e' ∧ e'.bare = e.bare

/-- Tokens that derive an expression. -/
def IsValue (lead : Bool) (e : Expr) : Shape := fun c nl xs =>
  Heads lead nl xs ∧ ∃ τ e', Derives c (.expr τ) xs e' ∧ e'.bare = e.bare

/-- Tokens that derive elements and the closing mark. -/
def IsElements (close : Punct) (es : List Expr) : Shape := fun c _ xs =>
  ∃ es', Derives c (.elements close) xs es' ∧ bareExprs es' = bareExprs es

/-- Tokens that derive properties and the closing brace. -/
def IsProperties (ps : List Property) : Shape := fun c _ xs =>
  ∃ ps', Derives c .properties xs ps' ∧ bareProperties ps' = bareProperties ps

theorem Heads.append {lead nl : Bool} {xs : List Token} (h : Heads lead nl xs) (ys : List Token) :
    Heads lead nl (xs ++ ys) := by
  obtain ⟨t, r, rfl, h⟩ := h
  exact ⟨t, r ++ ys, rfl, h⟩

theorem heads_of_ne {nl : Bool} {t : Token} {r : List Token} (hnl : t.newline = nl)
    {l : Lexeme} (ht : t.lexeme = l) (hl : l ≠ .punct .lbrace) : Heads false nl (t :: r) :=
  ⟨t, r, rfl, hnl, fun h => absurd (ht.symm.trans h) hl, Bool.noConfusion⟩

theorem Derives.tighten {c : Parser.Source} {τ : Tail} {xs : List Token} {e : Expr} {k : Nat}
    (h : Derives c (.unary τ) xs e) (hk : 1 ≤ k) (hk' : k ≤ 9) : Derives c (.binary k τ) xs e :=
  Parser.looser_of_le (.tight h) hk hk' (Nat.le_refl 9)

theorem Derives.valued {c : Parser.Source} {τ : Tail} {xs : List Token} {e : Expr}
    (h : Derives c (.unary τ) xs e) : Derives c (.expr τ) xs e :=
  .value (.certain (h.tighten (by decide) (by decide)))

theorem Spelled.unary {x : Text} {lead : Bool} {e : Expr} (h : Spelled x (IsOperand lead e)) :
    Spelled x (IsUnary lead e) := by
  refine h.imp ?_
  rintro c nl xs ⟨hhead, e', hd, he⟩
  exact ⟨hhead, _, e', hd.unmarked, he⟩

theorem Spelled.value {x : Text} {lead : Bool} {e : Expr} (h : Spelled x (IsUnary lead e)) :
    Spelled x (IsValue lead e) := by
  refine h.imp ?_
  rintro c nl xs ⟨hhead, τ, e', hd, he⟩
  exact ⟨hhead, τ, e', hd.valued, he⟩

/-- A single token that derives a primary expression. -/
theorem spelled_primary {x : Text} {l : Lexeme} {e : Expr} (hx : Spelled x (Tok l))
    (hl : l ≠ .punct .lbrace)
    (hd : ∀ c t, t.lexeme = l → ∃ e', Derives c .primary [t] e' ∧ e'.bare = e.bare) :
    Spelled x (IsOperand false e) := by
  refine hx.imp ?_
  rintro c nl _ ⟨t, rfl, ht, hnl⟩
  obtain ⟨e', he', hbare⟩ := hd c t ht
  exact ⟨heads_of_ne hnl ht hl, e', .plain he', hbare⟩

theorem spelled_paren {x : Text} {lead : Bool} {e : Expr} (h : Spelled x (IsValue lead e)) :
    Spelled ("(" ++ x ++ ")") (IsOperand false e) := by
  have hwhole := Spelled.after (p := .lparen) rfl (h.close (p := .rparen) rfl) Blank.nil
  rw [List.append_assoc]
  refine hwhole.imp ?_
  rintro c nl _ ⟨o, _, rfl, ho, hnl, xs, _, rfl, ⟨-, τ, e', hd, he⟩, k, rfl, hk, -⟩
  exact ⟨heads_of_ne hnl ho (by decide), e', .plain (.paren ho hd hk), he⟩

/-! ### Links -/

section

variable {x y : Text} {lead lead' : Bool} {o k : Expr} {p : Nat}

/-- A word does not go on with a point. -/
theorem endsBefore_word {n : Text} (hn : isWord n = true) {m : Punct}
    (hm : m = .dot ∨ m = .optional) (r : Text) : endsBefore m (n ++ r) = true := by
  obtain ⟨b, u, rfl, hstart⟩ := exists_cons_of_word hn
  obtain ⟨-, -, -, hpoint, hdigit⟩ := not_special_of_identStart hstart
  have hcontinue : continuations .dot = [46] ∧ continuations .optional = [] := ⟨rfl, rfl⟩
  have hlengthens : lengthens m b = false := by
    refine lengthens_false fun hb => ?_
    rcases hm with rfl | rfl
    · rw [hcontinue.1] at hb
      exact hpoint (List.mem_singleton.1 hb)
    · rw [hcontinue.2] at hb
      cases hb
  simp [endsBefore, hlengthens, hdigit]

theorem breaks_link {n : Text} (hn : isWord n = true) {m : Punct} (hm : m = .dot ∨ m = .optional)
    (r : Text) : breaks (m.text ++ (n ++ r)) = true := by
  rcases hm with rfl | rfl
  · obtain ⟨b, u, rfl, hstart⟩ := exists_cons_of_word hn
    show (!Text.isDigit b) = true
    rw [(not_special_of_identStart hstart).2.2.2.2]
    rfl
  · exact breaks_mark (by decide) _

theorem memberName?_word {n : Text} : memberName? (wordLexeme n) = some n := by
  unfold wordLexeme
  split
  · rename_i k hk
    have hfound := List.find?_some (p := fun k : Keyword => k.text == n) hk
    rw [← eq_of_beq hfound]
    rfl
  · rfl

theorem spelled_member (ho : Spelled x (IsOperand lead o)) {n : Text} (hn : isWord n = true)
    (opt : Bool) : Spelled (x ++ (if opt then "?." else ".") ++ n)
      (IsOperand lead (.member p o n opt)) := by
  have hm : (if opt then Punct.optional else .dot) = .dot ∨
      (if opt then Punct.optional else .dot) = .optional := by
    cases opt <;> decide
  have hname := (spelled_word hn).mark (p := if opt then .optional else .dot) Blank.nil
    (fun _ => endsBefore_word hn hm _) fun _ => opens_mark (by cases opt <;> decide) _
  have hwhole := ho.seq hname Blank.nil fun rest => by
    rw [List.nil_append, List.nil_append, List.append_assoc]
    exact breaks_link hn hm rest
  have htext : (x ++ (if opt then "?." else ".") ++ n : Text) =
      x ++ ([] ++ ((if opt then Punct.optional else .dot).text ++ ([] ++ n))) := by
    rw [List.append_assoc]
    cases opt <;> rfl
  rw [htext]
  refine hwhole.imp ?_
  rintro c nl _ ⟨us, _, rfl, ⟨hhead, o', hd, ho⟩, t, _, rfl, ht, -, u, rfl, hu, -⟩
  have hname : memberName? u.lexeme = some n := by rw [hu, memberName?_word]
  exact ⟨hhead.append _, _, .member opt hd ht hname, by simp [ho]⟩

/-- A mark that may stand after `?.`. -/
theorem Spelled.optional {m : Punct} (hm : m = .lbracket ∨ m = .lparen) {E : Shape}
    (hy : Spelled (m.text ++ y) E) :
    Spelled (Punct.optional.text ++ (m.text ++ y)) (After (.punct .optional) false E) := by
  refine hy.mark Blank.nil (fun rest => ?_) fun rest => opens_mark (by decide) _
  rcases hm with rfl | rfl <;> rfl

theorem spelled_index (ho : Spelled x (IsOperand lead o)) (hk : Spelled y (IsValue lead' k))
    (opt : Bool) : Spelled (x ++ (if opt then "?.[" else "[") ++ y ++ "]")
      (IsOperand lead (.index p o k opt)) := by
  have hkey := Spelled.after (p := .lbracket) rfl (hk.close (p := .rbracket) rfl) Blank.nil
  simp only [List.append_assoc]
  cases opt with
  | false =>
    have hwhole := ho.seq hkey Blank.nil fun _ => breaks_mark (p := .lbracket) (by decide) _
    refine hwhole.imp ?_
    rintro c nl _ ⟨us, _, rfl, ⟨hhead, o', hd, ho⟩, t, _, rfl, ht, -, ys, _, rfl,
      ⟨-, τ, k', hdk, hk⟩, u, rfl, hu, -⟩
    exact ⟨hhead.append _, _, .index hd ht hdk hu, by simp [ho, hk]⟩
  | true =>
    have hwhole := ho.seq (Spelled.optional (.inl rfl) hkey) Blank.nil
      fun _ => breaks_mark (p := .optional) (by decide) _
    refine hwhole.imp ?_
    rintro c nl _ ⟨us, _, rfl, ⟨hhead, o', hd, ho⟩, d, _, rfl, hdot, -, t, _, rfl, ht, -, ys, _,
      rfl, ⟨-, τ, k', hdk, hk⟩, u, rfl, hu, -⟩
    exact ⟨hhead.append _, _, .optionalIndex hd hdot ht hdk hu, by simp [ho, hk]⟩

theorem spelled_call (ho : Spelled x (IsOperand lead o)) {es : List Expr}
    (hes : Spelled y (IsElements .rparen es)) (opt : Bool) :
    Spelled (x ++ (if opt then "?.(" else "(") ++ y) (IsOperand lead (.call p o es opt)) := by
  have hargs := Spelled.after (p := .lparen) rfl hes Blank.nil
  simp only [List.append_assoc]
  cases opt with
  | false =>
    have hwhole := ho.seq hargs Blank.nil fun _ => breaks_mark (p := .lparen) (by decide) _
    refine hwhole.imp ?_
    rintro c nl _ ⟨us, _, rfl, ⟨hhead, o', hd, ho⟩, t, ys, rfl, ht, -, es', hdes, hes⟩
    exact ⟨hhead.append _, _, .call hd ht hdes, by simp [ho, hes]⟩
  | true =>
    have hwhole := ho.seq (Spelled.optional (.inr rfl) hargs) Blank.nil
      fun _ => breaks_mark (p := .optional) (by decide) _
    refine hwhole.imp ?_
    rintro c nl _ ⟨us, _, rfl, ⟨hhead, o', hd, ho⟩, d, _, rfl, hdot, -, t, ys, rfl, ht, -, es',
      hdes, hes⟩
    exact ⟨hhead.append _, _, .optionalCall hd hdot ht hdes, by simp [ho, hes]⟩

end

/-! ### Operators -/

section

variable {x y z : Text} {lead lead₁ lead₂ : Bool} {e e₁ e₂ : Expr} {p : Nat}

/-- A text with whose first byte no sign goes on. -/
def Fresh (x : Text) : Prop := ∃ b r, x = b :: r ∧ b ≠ 43 ∧ b ≠ 45 ∧ b ≠ 61

/-- A text before which a prefix operator ends. -/
def ClearOf (op : UnaryOp) (x : Text) : Prop :=
  ∀ m : Punct, prefixOp? (.punct m) = some op → ∀ r, endsBefore m (x ++ r) = true

/-- The marks of prefix operators, and the bytes with which longer marks go on. -/
theorem prefixMark_continuations {m : Punct} {op : UnaryOp} (h : prefixOp? (.punct m) = some op) :
    m ≠ .slash ∧ m ≠ .lbrace ∧ m ≠ .dot ∧ m ≠ .optional ∧
      ∀ b ∈ continuations m, b = 61 ∨ (b = 45 ∧ op = .neg) ∨ (b = 43 ∧ op = .plus) := by
  cases m <;> cases h <;> decide +kernel

theorem clearOf_of_ne {op : UnaryOp} {b : UInt8} {x : Text} (hequals : b ≠ 61)
    (hminus : op = .neg → b ≠ 45) (hplus : op = .plus → b ≠ 43) : ClearOf op (b :: x) := by
  intro m hm r
  obtain ⟨-, -, hdot, hoptional, hgoes⟩ := prefixMark_continuations hm
  have hlengthens : lengthens m b = false := by
    refine lengthens_false fun hb => ?_
    rcases hgoes b hb with h | ⟨h, hop⟩ | ⟨h, hop⟩
    · exact hequals h
    · exact hminus hop h
    · exact hplus hop h
  simp [endsBefore, hlengthens, hdot, hoptional]

theorem Fresh.clearOf (hx : Fresh x) (op : UnaryOp) : ClearOf op x := by
  obtain ⟨b, u, rfl, hplus, hminus, hequals⟩ := hx
  exact clearOf_of_ne hequals (fun _ => hminus) fun _ => hplus

/-- A token that is a prefix operator, and more tokens. -/
def Prefixed (op : UnaryOp) (E : Shape) : Shape := fun c nl xs =>
  ∃ t vs, xs = t :: vs ∧ t.newline = nl ∧ prefixOp? t.lexeme = some op ∧
    t.lexeme ≠ .punct .lbrace ∧ E c false vs

theorem spelled_sign {m : Punct} {op : UnaryOp} (hop : prefixOp? (.punct m) = some op)
    (hclear : ClearOf op x) {E : Shape} (hx : Spelled x E) :
    Spelled (m.text ++ x) (Prefixed op E) := by
  obtain ⟨hslash, hbrace, -⟩ := prefixMark_continuations hop
  have hwhole := hx.mark (p := m) Blank.nil (fun _ => hclear m hop _) fun _ => opens_mark hslash _
  refine hwhole.imp ?_
  rintro c nl _ ⟨t, vs, rfl, ht, hnl, hvs⟩
  refine ⟨t, vs, rfl, hnl, by rw [ht, hop], ?_, hvs⟩
  rw [ht]
  exact fun h => hbrace (Lexeme.punct.inj h)

theorem spelled_unary {op : UnaryOp} (hclear : ClearOf op x) (hx : Spelled x (IsUnary lead e)) :
    Spelled (op.text ++ (if op = .typeof then [32] else []) ++ x)
      (IsUnary false (.unary p op e)) := by
  have hwhole : Spelled (op.text ++ (if op = .typeof then [32] else []) ++ x)
      (Prefixed op (IsUnary lead e)) := by
    rw [List.append_assoc]
    cases op with
    | not => exact spelled_sign (m := .bang) rfl hclear hx
    | neg => exact spelled_sign (m := .minus) rfl hclear hx
    | plus => exact spelled_sign (m := .plus) rfl hclear hx
    | typeof =>
      refine ((spelled_keyword .typeof).seq hx blank_space fun _ => breaks_blank _).imp ?_
      rintro c nl _ ⟨_, vs, rfl, ⟨t, rfl, ht, hnl⟩, hvs⟩
      exact ⟨t, vs, rfl, hnl, by rw [ht]; rfl, by rw [ht]; exact Lexeme.noConfusion, hvs⟩
  refine hwhole.imp ?_
  rintro c nl _ ⟨t, vs, rfl, hnl, hop, hne, -, τ, e', hd, he⟩
  exact ⟨heads_of_ne hnl rfl hne, τ, _, .unary hop hd, by simp [he]⟩

/-- The mark of an increment or decrement. -/
def stepMark : StepOp → Punct
  | .increment => .increment
  | .decrement => .decrement

/-- An increment or decrement before or after its target. -/
theorem spelled_step (hx : Spelled x (IsOperand lead e)) (htarget : e.isAssignable = true)
    (op : StepOp) (before : Bool) :
    Spelled (if before then op.text ++ x else x ++ op.text)
      (IsUnary (!before && lead) (.step p op before e)) := by
  have hsolid : solid (stepMark op) = true := by cases op <;> rfl
  have hbreaks : (stepMark op).text.head? ≠ some 46 := by cases op <;> decide
  have hbrace : stepMark op ≠ .lbrace := by cases op <;> decide
  have htext : op.text = (stepMark op).text := by cases op <;> rfl
  have hstep : stepOp? (.punct (stepMark op)) = some op := by cases op <;> rfl
  have hassign : ∀ e' : Expr, e'.bare = e.bare → e'.isAssignable = true := by
    intro e' he
    rw [← Expr.isAssignable_bare, he, Expr.isAssignable_bare, htarget]
  rw [htext]
  cases before with
  | true =>
    refine (hx.after hsolid Blank.nil).imp ?_
    rintro c nl _ ⟨t, vs, rfl, ht, hnl, -, e', hd, he⟩
    exact ⟨heads_of_ne hnl ht fun h => hbrace (Lexeme.punct.inj h), _, _,
      .stepBefore (by rw [ht]; exact hstep) hd.unmarked (hassign e' he), by simp [he]⟩
  | false =>
    refine (hx.seq (spelled_mark hsolid) Blank.nil fun _ => breaks_mark hbreaks _).imp ?_
    rintro c nl _ ⟨us, _, rfl, ⟨hhead, e', hd, he⟩, t, rfl, ht, hnl⟩
    exact ⟨hhead.append _, _, _, .unmarked (.stepAfter hd (hassign e' he)
      (by rw [ht]; exact hstep) hnl), by simp [he]⟩

theorem exists_operatorMark (op : BinaryOp) :
    ∃ m : Punct, m.text = op.text ∧ infixOp? (.punct m) = some op := by
  cases op with
  | nullish => exact ⟨.nullish, rfl, rfl⟩
  | or => exact ⟨.or, rfl, rfl⟩
  | and => exact ⟨.and, rfl, rfl⟩
  | looseEq => exact ⟨.looseEq, rfl, rfl⟩
  | looseNe => exact ⟨.looseNe, rfl, rfl⟩
  | strictEq => exact ⟨.strictEq, rfl, rfl⟩
  | strictNe => exact ⟨.strictNe, rfl, rfl⟩
  | lt => exact ⟨.lt, rfl, rfl⟩
  | gt => exact ⟨.gt, rfl, rfl⟩
  | le => exact ⟨.le, rfl, rfl⟩
  | ge => exact ⟨.ge, rfl, rfl⟩
  | add => exact ⟨.plus, rfl, rfl⟩
  | sub => exact ⟨.minus, rfl, rfl⟩
  | mul => exact ⟨.star, rfl, rfl⟩
  | div => exact ⟨.slash, rfl, rfl⟩
  | mod => exact ⟨.percent, rfl, rfl⟩
  | pow => exact ⟨.pow, rfl, rfl⟩

/-- Operands of an infix operator are tighter than the operator, whatever it is. -/
theorem Derives.infixed {c : Parser.Source} {t : Token} {us vs : List Token} {a b : Expr}
    {op : BinaryOp} {τ τ' : Tail} (ha : Derives c (.unary τ) us a)
    (ht : infixOp? t.lexeme = some op) (hb : Derives c (.unary τ') vs b) :
    Derives c (.expr τ') (us ++ t :: vs) (.binary a.pos op a b) := by
  obtain ⟨hlow, hhigh⟩ := Parser.precedence_bounds op
  refine .value (.certain ?_)
  by_cases hop : op = .pow
  · subst hop
    exact Parser.looser_of_le (.power (.tight ha) ht (hb.tighten (by decide) (by decide)))
      (by decide) (by decide) (by decide)
  · exact Parser.looser_of_le (.binary (ha.tighten hlow (by omega)) ht rfl hop
      (hb.tighten (by omega) (by omega))) (by decide) hlow (by omega)

theorem spelled_binary (hx : Spelled x (IsUnary lead e₁)) (hy : Spelled y (IsUnary lead₂ e₂))
    (op : BinaryOp) : Spelled (x ++ " " ++ op.text ++ " " ++ y)
      (IsValue lead (.binary p op e₁ e₂)) := by
  obtain ⟨m, htext, hop⟩ := exists_operatorMark op
  have hwhole := hx.seq (hy.spaced (p := m)) blank_space fun _ => breaks_blank _
  rw [htext] at hwhole
  simp only [List.append_assoc]
  refine hwhole.imp ?_
  rintro c nl _ ⟨us, _, rfl, ⟨hhead, τ, a, ha, hea⟩, t, vs, rfl, ht, -, -, τ', b, hb, heb⟩
  exact ⟨hhead.append _, _, _, ha.infixed (by rw [ht]; exact hop) hb,
    by simp [hea, heb]⟩

theorem spelled_conditional (hx : Spelled x (IsUnary lead e))
    (hy : Spelled y (IsValue lead₁ e₁)) (hz : Spelled z (IsValue lead₂ e₂)) :
    Spelled (x ++ " ? " ++ y ++ " : " ++ z) (IsValue lead (.conditional p e e₁ e₂)) := by
  have hwhole := hx.seq ((hy.seq (hz.spaced (p := .colon)) blank_space
    fun _ => breaks_blank _).spaced (p := .question)) blank_space fun _ => breaks_blank _
  simp only [List.append_assoc]
  refine hwhole.imp ?_
  rintro c nl _ ⟨us, _, rfl, ⟨hhead, τ₀, a, ha, hea⟩, q, _, rfl, hq, -, ys, _, rfl,
    ⟨-, τ, b, hb, heb⟩, k, zs, rfl, hk, -, -, τ', d, hd, hed⟩
  exact ⟨hhead.append _, _, _, .value (.conditional (ha.tighten (by decide) (by decide)) hq
    hb hk hd), by simp [hea, heb, hed]⟩

theorem text_assign? {m : Punct} {op : AssignOp} (h : m.assign? = some op) : m.text = op.text := by
  cases m <;> cases h <;> rfl

theorem spelled_assign (hx : Spelled x (IsOperand lead e₁)) (htarget : e₁.isAssignable = true)
    (hy : Spelled y (IsValue lead₂ e₂)) {op : AssignOp} (hop : ∃ m : Punct, m.assign? = some op) :
    Spelled (x ++ " " ++ op.text ++ " " ++ y) (IsValue lead (.assign p op e₁ e₂)) := by
  obtain ⟨m, hop⟩ := hop
  have hwhole := hx.seq (hy.spaced (p := m)) blank_space fun _ => breaks_blank _
  rw [text_assign? hop] at hwhole
  simp only [List.append_assoc]
  refine hwhole.imp ?_
  rintro c nl _ ⟨us, _, rfl, ⟨hhead, a, ha, hea⟩, t, vs, rfl, ht, -, -, τ, b, hb, heb⟩
  have hassign : Expr.isAssignable a = true := by
    rw [← Expr.isAssignable_bare, hea, Expr.isAssignable_bare, htarget]
  exact ⟨hhead.append _, _, _, .assign (.certain (ha.unmarked.tighten (by decide) (by decide)))
    hassign (by rw [ht]; exact hop) hb, by simp [hea, heb]⟩

end

/-! ### Lists -/

/-- Tokens that derive an element. -/
def IsElement (e : Expr) : Shape := fun c _ xs =>
  ∃ e', Derives c .element xs e' ∧ e'.bare = e.bare

/-- Tokens that derive a property. -/
def IsProperty (p : Property) : Shape := fun c _ xs =>
  ∃ p', Derives c .property xs p' ∧ p'.bare = p.bare

/-- Tokens that derive parameter names and the closing parenthesis. -/
def IsNames (ns : List Text) : Shape := fun c _ xs => Derives c .names xs ns

section

variable {x y : Text} {lead : Bool} {e : Expr} {p : Nat}

theorem Spelled.element (hx : Spelled x (IsValue lead e)) : Spelled x (IsElement e) := by
  refine hx.imp ?_
  rintro c nl xs ⟨-, τ, e', hd, he⟩
  exact ⟨e', .element hd, he⟩

theorem spelled_spread (hx : Spelled x (IsUnary lead e)) :
    Spelled ("..." ++ x) (IsElement (.spread p e)) := by
  have hwhole := Spelled.after (p := .ellipsis) rfl hx.value Blank.nil
  refine hwhole.imp ?_
  rintro c nl _ ⟨t, xs, rfl, ht, -, -, τ, e', hd, he⟩
  exact ⟨_, .spread ht hd, by simp [he]⟩

variable {close : Punct} {es : List Expr}

theorem spelled_noElements (hclose : separates close = true) :
    Spelled close.text (IsElements close []) := by
  refine (spelled_mark (solid_of_separates hclose).1).imp ?_
  rintro c nl _ ⟨t, rfl, ht, -⟩
  exact ⟨[], .noElements ht, rfl⟩

theorem spelled_lastElement (hclose : separates close = true) (hx : Spelled x (IsElement e)) :
    Spelled (x ++ close.text) (IsElements close [e]) := by
  refine (hx.close hclose).imp ?_
  rintro c nl _ ⟨us, _, rfl, ⟨e', hd, he⟩, t, rfl, ht, -⟩
  exact ⟨[e'], .lastElement hd ht, by simp [he]⟩

theorem spelled_elements (hx : Spelled x (IsElement e)) (hy : Spelled y (IsElements close es)) :
    Spelled (x ++ ", " ++ y) (IsElements close (e :: es)) := by
  have hwhole := hx.separated (p := .comma) rfl blank_space hy
  rw [List.append_assoc]
  refine hwhole.imp ?_
  rintro c nl _ ⟨us, _, rfl, ⟨e', hd, he⟩, t, vs, rfl, ht, -, es', hds, hes⟩
  exact ⟨e' :: es', .elements hd ht hds, by simp [he, hes]⟩

theorem spelled_array (hy : Spelled y (IsElements .rbracket es)) :
    Spelled ("[" ++ y) (IsOperand false (.array p es)) := by
  have hwhole := Spelled.after (p := .lbracket) rfl hy Blank.nil
  refine hwhole.imp ?_
  rintro c nl _ ⟨t, vs, rfl, ht, hnl, es', hd, hes⟩
  exact ⟨heads_of_ne hnl ht (by decide), _, .plain (.array ht hd), by simp [hes]⟩

variable {pr : Property} {ps : List Property}

theorem spelled_shorthand {k : Text} (hk : isIdentifier k = true) :
    Spelled k (IsProperty (.mk k (.ident p k) true)) := by
  refine (spelled_ident hk).imp ?_
  rintro c nl _ ⟨t, rfl, ht, -⟩
  exact ⟨_, .shorthand ht, rfl⟩

theorem spelled_property {k : Text} (hk : isIdentifier k = false → k.reread = k)
    (hx : Spelled x (IsValue lead e)) :
    Spelled (Printer.key k ++ ": " ++ x) (IsProperty (.mk k e false)) := by
  have hkey : Spelled (Printer.key k) fun _ _ xs =>
      ∃ t isIdent, xs = [t] ∧ propertyName? t.lexeme = some (k, isIdent) := by
    unfold Printer.key
    split
    · rename_i hident
      refine (spelled_ident hident).imp ?_
      rintro c nl _ ⟨t, rfl, ht, -⟩
      exact ⟨t, true, rfl, by rw [ht]; rfl⟩
    · rename_i hident
      refine (spelled_quote (hk (by simpa using hident))).imp ?_
      rintro c nl _ ⟨t, rfl, ht, -⟩
      exact ⟨t, false, rfl, by rw [ht]; rfl⟩
  have hwhole := hkey.separated (p := .colon) rfl blank_space hx
  rw [List.append_assoc]
  refine hwhole.imp ?_
  rintro c nl _ ⟨_, _, rfl, ⟨t, isIdent, rfl, ht⟩, d, vs, rfl, hd, -, -, τ, e', hde, he⟩
  exact ⟨_, .property ht hd hde, by simp [he]⟩

theorem spelled_noProperties : Spelled "\x7d" (IsProperties []) := by
  refine (spelled_mark (p := .rbrace) rfl).imp ?_
  rintro c nl _ ⟨t, rfl, ht, -⟩
  exact ⟨[], .noProperties ht, rfl⟩

theorem spelled_lastProperty (hx : Spelled x (IsProperty pr)) :
    Spelled (x ++ "\x7d") (IsProperties [pr]) := by
  refine (hx.close (p := .rbrace) rfl).imp ?_
  rintro c nl _ ⟨us, _, rfl, ⟨pr', hd, hpr⟩, t, rfl, ht, -⟩
  exact ⟨[pr'], .lastProperty hd ht, by simp [hpr]⟩

theorem spelled_properties (hx : Spelled x (IsProperty pr)) (hy : Spelled y (IsProperties ps)) :
    Spelled (x ++ ", " ++ y) (IsProperties (pr :: ps)) := by
  have hwhole := hx.separated (p := .comma) rfl blank_space hy
  rw [List.append_assoc]
  refine hwhole.imp ?_
  rintro c nl _ ⟨us, _, rfl, ⟨pr', hd, hpr⟩, t, vs, rfl, ht, -, ps', hds, hps⟩
  exact ⟨pr' :: ps', .properties hd ht hds, by simp [hpr, hps]⟩

theorem spelled_object (hy : Spelled y (IsProperties ps)) :
    Spelled ("\x7b" ++ y) (IsOperand true (.object p ps)) := by
  have hwhole := Spelled.after (p := .lbrace) rfl hy Blank.nil
  refine hwhole.imp ?_
  rintro c nl _ ⟨t, vs, rfl, ht, hnl, ps', hd, hps⟩
  exact ⟨⟨t, vs, rfl, hnl, fun _ => rfl, fun _ => ht⟩, _, .plain (.object ht hd), by simp [hps]⟩

theorem spelled_names {ns : List Text} (hns : ∀ n ∈ ns, isIdentifier n = true) :
    Spelled (Text.join ", " ns ++ ")") (IsNames ns) := by
  fun_induction Text.join ", " ns with
  | case1 =>
    refine (spelled_mark (p := .rparen) rfl).imp ?_
    rintro c nl _ ⟨t, rfl, ht, -⟩
    exact .noNames ht
  | case2 n =>
    refine ((spelled_ident (hns n List.mem_cons_self)).close (p := .rparen) rfl).imp ?_
    rintro c nl _ ⟨_, _, rfl, ⟨t, rfl, ht, -⟩, k, rfl, hk, -⟩
    exact .lastName ht hk
  | case3 n m r ih =>
    have hrest := ih fun k hk => hns k (List.mem_cons_of_mem _ hk)
    have hwhole := (spelled_ident (hns n List.mem_cons_self)).separated (p := .comma) rfl
      blank_space hrest
    rw [List.append_assoc, List.append_assoc]
    refine hwhole.imp ?_
    rintro c nl _ ⟨_, _, rfl, ⟨t, rfl, ht, -⟩, d, vs, rfl, hd, -, hvs⟩
    exact .names ht hd hvs

end

/-! ### Template literals -/

/-- Each expression inside a template literal is parsed from its own text. -/
theorem derives_parts {indent : Nat} {es : List Expr} {parts : List Interpolation}
    (hparts : parts.map Interpolation.source = es.map (Printer.expr indent))
    (hes : ∀ e ∈ es, ∃ lead, Spelled (Printer.expr indent e) (IsValue lead e))
    (c : Parser.Source) :
    ∃ es', Derives c (.parts parts) [] es' ∧ bareExprs es' = bareExprs es := by
  induction es generalizing parts with
  | nil =>
    obtain rfl := List.map_eq_nil_iff.1 hparts
    exact ⟨[], .noParts, rfl⟩
  | cons e es ih =>
    obtain ⟨part, parts, rfl, hpart, hparts⟩ := List.map_eq_cons_iff.1 hparts
    obtain ⟨es', hds, hbares⟩ := ih hparts fun e he => hes e (List.mem_cons_of_mem _ he)
    obtain ⟨lead, hspelled⟩ := hes e List.mem_cons_self
    obtain ⟨xs, eof, hsrc, -, τ, e', hd, hbare⟩ := hspelled.ofSource part.offset
    rw [← hpart] at hsrc hd
    exact ⟨e' :: es', .parts hsrc hd hds, by simp [hbare, hbares]⟩

theorem spelled_template {indent p : Nat} {es : List Expr} {quasis : List Text}
    (hlen : quasis.length = es.length + 1) (hskips : ∀ e ∈ es, Skips (Printer.expr indent e))
    (hes : ∀ e ∈ es, ∃ lead, Spelled (Printer.expr indent e) (IsValue lead e)) :
    Spelled ("`" ++ Printer.template indent quasis es ++ "`")
      (IsOperand false (.template p quasis es)) := by
  intro c stop ws rest hws hrest
  obtain ⟨raw, parts, hreads, hparts⟩ := @reads_template stop indent es quasis rest hlen hskips
  have hlex := lexes_token hws (opens_cons (by decide)) hreads
  obtain ⟨es', hds, hbares⟩ := derives_parts hparts hes c
  exact ⟨_, hlex, heads_of_ne rfl rfl Lexeme.noConfusion, _, .plain (.template rfl hds),
    by simp [hbares]⟩

/-! ### Blocks and arrow functions -/

/-- Tokens that derive statements, with the closing brace after them. -/
def IsStmts (ss : List Stmt) : Shape := fun c _ xs =>
  ∃ k ys ss', xs = ys ++ [k] ∧ k.lexeme = .punct .rbrace ∧ Derives c (.stmts k) ys ss' ∧
    bareStmts ss' = bareStmts ss

/-- Tokens that derive a block. -/
def IsBlock (ss : List Stmt) : Shape := fun c _ xs =>
  ∃ b, Derives c .block xs b ∧ bareStmts b.1 = bareStmts ss

/-- Tokens that derive a statement, before anything but an `else`. -/
def IsStmt (s : Stmt) : Shape := fun c _ xs =>
  ∃ s', (∀ next : Option Token, (∀ t ∈ next, t.lexeme ≠ .keyword .else_) →
    Derives c (.stmt next) xs s') ∧ s'.bare = s.bare

/-- Tokens that derive the body of an arrow function. -/
def IsBody (b : Body) : Shape := fun c _ xs =>
  ∃ τ b', Derives c (.arrowBody τ) xs b' ∧ b'.bare = b.bare

section

variable {x y : Text} {lead lead' : Bool} {e : Expr} {s : Stmt} {ss : List Stmt} {p : Nat}

theorem spelled_noStmts {w : Text} (hw : Blank w) : Spelled (w ++ "\x7d") (IsStmts []) := by
  refine (spelled_mark (p := .rbrace) rfl).blanks hw ?_
  rintro c nl nl' _ ⟨k, rfl, hk, -⟩
  exact ⟨k, [], [], rfl, hk, .noStmts, rfl⟩

theorem spelled_stmts {w : Text} (hw : Blank w) (hx : Spelled x (IsStmt s))
    (hy : Spelled y (IsStmts ss)) : Spelled (w ++ x ++ "\n" ++ y) (IsStmts (s :: ss)) := by
  have hline : Blank [10] := fun _ hb => .inr (List.mem_singleton.1 hb)
  have hboth := hx.seq hy hline fun _ => rfl
  simp only [List.append_assoc]
  refine hboth.blanks hw ?_
  rintro c nl nl' _ ⟨us, _, rfl, ⟨s', hs, hbare⟩, k, ys, ss', rfl, hk, hds, hbares⟩
  refine ⟨k, us ++ ys, s' :: ss', by simp, hk, .stmts (hs _ ?_) hds, ?_⟩
  · -- Neither a statement nor the closing brace starts with `else`.
    intro t ht
    rcases hds.starts with rfl | hstarts
    · cases ht
      rw [hk]
      exact Lexeme.noConfusion
    · obtain ⟨u, r, rfl, hu⟩ := hstarts.exists_cons
      cases ht
      intro helse
      rw [helse] at hu
      exact absurd hu (by decide)
  · simp [hbare, hbares]

theorem spelled_block (hx : Spelled x (IsStmts ss)) : Spelled ("\x7b\n" ++ x) (IsBlock ss) := by
  have hline : Blank [10] := fun _ hb => .inr (List.mem_singleton.1 hb)
  refine (hx.after (p := .lbrace) rfl hline).imp ?_
  rintro c nl _ ⟨o, _, rfl, ho, -, k, ys, ss', rfl, hk, hds, hbares⟩
  exact ⟨_, .block ho hds hk, hbares⟩

theorem spelled_bodyBlock (hx : Spelled x (IsBlock ss)) : Spelled x (IsBody (.block ss)) := by
  refine hx.imp ?_
  rintro c nl xs ⟨b, hd, hbare⟩
  exact ⟨_, _, .arrowBlock hd, by simp [hbare]⟩

theorem spelled_bodyExpr (hx : Spelled x (IsValue false e)) : Spelled x (IsBody (.expr e)) := by
  refine hx.imp ?_
  rintro c nl _ ⟨⟨t, r, rfl, -, hbrace⟩, τ, e', hd, hbare⟩
  have hmark : Parser.isMark .lbrace (t :: r) = false :=
    Parser.isMark_cons_ne fun h => Bool.noConfusion (hbrace.1 h)
  exact ⟨τ, _, .arrowValue hd hmark, by simp [hbare]⟩

theorem spelled_arrow {ns : List Text} (hns : ∀ n ∈ ns, isIdentifier n = true) {b : Body}
    (hx : Spelled x (IsBody b)) :
    Spelled ("(" ++ Text.join ", " ns ++ ") => " ++ x) (IsValue false (.arrow p ns b)) := by
  have hwhole := ((spelled_names hns).seq (hx.spaced (p := .arrow)) blank_space
    fun _ => breaks_blank _).after (p := .lparen) rfl Blank.nil
  simp only [List.append_assoc] at hwhole ⊢
  refine hwhole.imp ?_
  rintro c nl _ ⟨o, _, rfl, ho, hnl, us, _, rfl, hnames, a, vs, rfl, ha, -, τ, b', hd, hbare⟩
  exact ⟨heads_of_ne hnl ho (by decide), _, _, .arrow ho hnames ha hd, by simp [hbare]⟩

/-! ### Statements -/

theorem ends_semicolon {goesOn : Lexeme → Bool} {next : Option Token} {t : Token}
    (ht : t.lexeme = .punct .semicolon) : Ends goesOn next [t] :=
  .inl ⟨t, rfl, ht⟩

theorem spelled_exprStmt (hx : Spelled x (IsValue lead e)) :
    Spelled (x ++ ";") (IsStmt (.expr p e)) := by
  refine (hx.close (p := .semicolon) rfl).imp ?_
  rintro c nl _ ⟨_, _, rfl, ⟨⟨t, r, rfl, -⟩, τ, e', hd, hbare⟩, k, rfl, hk, -⟩
  exact ⟨_, fun next _ => .exprStmt hd (ends_semicolon hk), by simp [hbare]⟩

theorem spelled_ret : Spelled "return;" (IsStmt (.ret p none)) := by
  refine ((spelled_keyword .return_).close (p := .semicolon) rfl).imp ?_
  rintro c nl _ ⟨_, _, rfl, ⟨t, rfl, ht, -⟩, k, rfl, hk, -⟩
  exact ⟨_, fun next _ => .ret ht (ends_semicolon hk), rfl⟩

theorem spelled_retValue (hx : Spelled x (IsValue lead e)) :
    Spelled ("return" ++ 32 :: x ++ ";") (IsStmt (.ret p (some e))) := by
  have hwhole := (spelled_keyword .return_).seq (hx.close (p := .semicolon) rfl) blank_space
    fun _ => breaks_blank _
  rw [List.append_assoc]
  refine hwhole.imp ?_
  rintro c nl _ ⟨_, _, rfl, ⟨w, rfl, hw, -⟩, _, _, rfl, ⟨⟨t, r, rfl, hnl, -⟩, τ, e', hd, hbare⟩,
    k, rfl, hk, -⟩
  exact ⟨_, fun next _ => .retValue hw hnl hd (ends_semicolon hk), by simp [hbare]⟩

theorem spelled_labeled {label : Text} (hlabel : isIdentifier label = true)
    (hx : Spelled x (IsStmt s)) : Spelled (label ++ ": " ++ x) (IsStmt (.labeled p label s)) := by
  have hwhole := (spelled_ident hlabel).separated (p := .colon) rfl blank_space hx
  rw [List.append_assoc]
  refine hwhole.imp ?_
  rintro c nl _ ⟨_, _, rfl, ⟨t, rfl, ht, -⟩, d, vs, rfl, hd, -, s', hs, hbare⟩
  exact ⟨_, fun next hnext => .labeled ht hd (hs next hnext), by simp [hbare]⟩

/-- Tokens after what stands before a declaration. -/
def Exported (exported : Bool) (E : Shape) : Shape := fun c _ xs =>
  ∃ ps nl vs, xs = ps ++ vs ∧ Exports ps exported ∧ E c nl vs

theorem spelled_exported {E : Shape} (hx : Spelled x E) (exported : Bool) :
    Spelled ((if exported then ("export " : Text) else []) ++ x) (Exported exported E) := by
  cases exported with
  | false =>
    refine hx.imp ?_
    rintro c nl xs hE
    exact ⟨[], nl, xs, rfl, .inl ⟨rfl, rfl⟩, hE⟩
  | true =>
    refine ((spelled_keyword .export_).seq hx blank_space fun _ => breaks_blank _).imp ?_
    rintro c nl _ ⟨_, vs, rfl, ⟨t, rfl, ht, -⟩, hE⟩
    exact ⟨[t], _, vs, rfl, .inr ⟨t, rfl, ht, rfl⟩, hE⟩

theorem exists_declKeyword (kind : DeclKind) :
    ∃ k : Keyword, k.text = kind.text ∧ k.decl? = some kind := by
  cases kind with
  | let_ => exact ⟨.let_, rfl, rfl⟩
  | const => exact ⟨.const, rfl, rfl⟩
  | var => exact ⟨.var, rfl, rfl⟩

theorem spelled_declBare {kind : DeclKind} (hkind : kind ≠ .const) {n : Text}
    (hn : isIdentifier n = true) (exported : Bool) :
    Spelled ((if exported then ("export " : Text) else []) ++ (kind.text ++ ([32] ++
      (n ++ Punct.semicolon.text))))
      (IsStmt (.decl p kind n none exported)) := by
  obtain ⟨k, htext, hk⟩ := exists_declKeyword kind
  have hwhole := spelled_exported ((spelled_keyword k).seq
    ((spelled_ident hn).close (p := .semicolon) rfl) blank_space fun _ => breaks_blank _) exported
  rw [htext] at hwhole
  refine hwhole.imp ?_
  rintro c nl _ ⟨ps, _, _, rfl, hps, _, _, rfl, ⟨w, rfl, hw, -⟩, _, _, rfl, ⟨t, rfl, ht, -⟩,
    u, rfl, hu, -⟩
  have hdecl : declKind? w.lexeme = some kind := by rw [hw]; exact hk
  exact ⟨_, fun next _ => .declBare hps hdecl ht hkind (ends_semicolon hu), rfl⟩

theorem spelled_decl {kind : DeclKind} {n : Text} (hn : isIdentifier n = true)
    (hx : Spelled x (IsValue lead e)) (exported : Bool) :
    Spelled ((if exported then ("export " : Text) else []) ++
        (kind.text ++ ([32] ++ (n ++ ([32] ++ (Punct.assign.text ++ ([32] ++
          (x ++ Punct.semicolon.text))))))))
      (IsStmt (.decl p kind n (some e) exported)) := by
  obtain ⟨k, htext, hk⟩ := exists_declKeyword kind
  have hinit := (hx.close (p := .semicolon) rfl).spaced (p := .assign)
  have hwhole := spelled_exported ((spelled_keyword k).seq
    ((spelled_ident hn).seq hinit blank_space fun _ => breaks_blank _) blank_space
    fun _ => breaks_blank _) exported
  rw [htext] at hwhole
  refine hwhole.imp ?_
  rintro c nl _ ⟨ps, _, _, rfl, hps, _, _, rfl, ⟨w, rfl, hw, -⟩, _, _, rfl, ⟨t, rfl, ht, -⟩,
    a, _, rfl, ha, -, vs, _, rfl, ⟨-, τ, e', hd, hbare⟩, u, rfl, hu, -⟩
  have hdecl : declKind? w.lexeme = some kind := by rw [hw]; exact hk
  exact ⟨_, fun next _ => .decl hps hdecl ht ha hd (ends_semicolon hu), by simp [hbare]⟩

theorem spelled_func {n : Text} (hn : isIdentifier n = true) {ns : List Text}
    (hns : ∀ m ∈ ns, isIdentifier m = true) (hx : Spelled x (IsBlock ss)) (src : Text)
    (exported : Bool) :
    Spelled ((if exported then ("export " : Text) else []) ++ (Keyword.function.text ++ ([32] ++
        (n ++ (Punct.lparen.text ++ ((Text.join ", " ns ++ Punct.rparen.text) ++ ([32] ++ x)))))))
      (IsStmt (.func p n ns ss src exported)) := by
  have hparams := (((spelled_names hns).seq hx blank_space fun _ => breaks_blank _).after
    (p := .lparen) rfl Blank.nil)
  have hwhole := spelled_exported ((spelled_keyword .function).seq
    ((spelled_ident hn).seq hparams Blank.nil fun _ => breaks_mark (p := .lparen) (by decide) _)
    blank_space fun _ => breaks_blank _) exported
  refine hwhole.imp ?_
  rintro c nl _ ⟨ps, _, _, rfl, hps, _, _, rfl, ⟨w, rfl, hw, -⟩, _, _, rfl, ⟨t, rfl, ht, -⟩,
    o, _, rfl, ho, -, us, vs, rfl, hnames, b, hd, hbare⟩
  exact ⟨_, fun next _ => .func hps hw ht ho hnames hd, by simp [hbare]⟩

theorem spelled_cond (hx : Spelled x (IsValue lead e)) (hy : Spelled y (IsBlock ss)) :
    Spelled (Keyword.if_.text ++ ([32] ++ (Punct.lparen.text ++ (x ++ (Punct.rparen.text ++
      ([32] ++ y)))))) (IsStmt (.cond p e ss [])) := by
  have hwhole := (spelled_keyword .if_).seq
    ((hx.separated (p := .rparen) rfl blank_space hy).after (p := .lparen) rfl Blank.nil)
    blank_space fun _ => breaks_blank _
  refine hwhole.imp ?_
  rintro c nl _ ⟨_, _, rfl, ⟨w, rfl, hw, -⟩, o, _, rfl, ho, -, us, _, rfl, ⟨-, τ, e', hd, hbare⟩,
    k, vs, rfl, hk, -, b, hblock, hbares⟩
  exact ⟨_, fun next hnext => .cond hw ho hd hk (.braced hblock) hnext,
    by simp [hbare, hbares]⟩

theorem spelled_condElse {z : Text} {no : List Stmt} (hx : Spelled x (IsValue lead e))
    (hy : Spelled y (IsBlock ss)) (hz : Spelled z (IsBlock no)) :
    Spelled (Keyword.if_.text ++ ([32] ++ (Punct.lparen.text ++ (x ++ (Punct.rparen.text ++
      ([32] ++ (y ++ ([32] ++ (Keyword.else_.text ++ ([32] ++ z))))))))))
      (IsStmt (.cond p e ss no)) := by
  have helse := hy.seq ((spelled_keyword .else_).seq hz blank_space fun _ => breaks_blank _)
    blank_space fun _ => breaks_blank _
  have hwhole := (spelled_keyword .if_).seq
    ((hx.separated (p := .rparen) rfl blank_space helse).after (p := .lparen) rfl Blank.nil)
    blank_space fun _ => breaks_blank _
  refine hwhole.imp ?_
  rintro c nl _ ⟨_, _, rfl, ⟨w, rfl, hw, -⟩, o, _, rfl, ho, -, us, _, rfl, ⟨-, τ, e', hd, hbare⟩,
    k, _, rfl, hk, -, ys, _, rfl, ⟨b, hyes, hbareYes⟩, _, zs, rfl, ⟨l, rfl, hl, -⟩, b', hno,
    hbareNo⟩
  exact ⟨_, fun next _ => .condElse hw ho hd hk (.braced hyes) hl (.braced hno),
    by simp [hbare, hbareYes, hbareNo]⟩

end

end Reactive.Grammar
