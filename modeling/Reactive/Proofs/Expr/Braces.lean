/-
Braces in a printed text.

An expression inside a template literal ends at the brace that matches the
opening one; braces in strings and in template literals of its own do not
count.  `Skips` says of a text that the search for that brace passes over it.

* `Skips.append`, `Skips.braces`, `skips_quote`, `skips_template` — texts that
  are passed over;
* `cuts_template` — a template literal is cut at its backticks and braces.
-/
import Reactive.Expr.Printer
import Reactive.Proofs.Expr.Quoting

namespace Reactive.Lexer

open Text

/-! ### The closing brace -/

/-- The search for the closing brace ends, and this follows the brace. -/
def Closes (stop start depth : Nat) (s r : Text) : Prop :=
  ∃ h, closingBrace stop start depth s = .ok ⟨r, h⟩

/-- The search for the closing brace passes over a text. -/
def Skips (x : Text) : Prop :=
  ∀ stop start depth rest r, 1 ≤ depth → Closes stop start depth rest r →
    Closes stop start depth (x ++ rest) r

/-- Bytes that neither are braces nor start a string or a template literal. -/
def isPlain (b : UInt8) : Bool := b != 123 && b != 125 && b != 34 && b != 39 && b != 96

theorem isPlain_iff {b : UInt8} :
    isPlain b = true ↔ b ≠ 123 ∧ b ≠ 125 ∧ b ≠ 34 ∧ b ≠ 39 ∧ b ≠ 96 := by
  simp [isPlain, and_assoc]

theorem closes_rbrace {stop start : Nat} {r : Text} : Closes stop start 1 (125 :: r) r := by
  refine ⟨by simp, ?_⟩
  rw [closingBrace]
  rfl

theorem closes_plain {stop start depth : Nat} {b : UInt8} {s r : Text} (hb : isPlain b = true)
    (h : Closes stop start depth s r) : Closes stop start depth (b :: s) r := by
  obtain ⟨hlt, h⟩ := h
  obtain ⟨hl, hr, hq, hq', ht⟩ := isPlain_iff.1 hb
  refine ⟨by simp only [List.length_cons]; omega, ?_⟩
  have hquote := not_quote hq hq'
  have hl' : ¬ b = ('{' : Char).toUInt8 := hl
  have hr' : ¬ b = ('}' : Char).toUInt8 := hr
  have ht' : ¬ b = ('`' : Char).toUInt8 := ht
  rw [closingBrace]
  simp only [if_neg hl', if_neg hr', if_neg hquote, if_neg ht', h]

theorem Skips.nil : Skips [] := fun _ _ _ _ _ _ h => h

theorem Skips.append {x y : Text} (hx : Skips x) (hy : Skips y) : Skips (x ++ y) := by
  intro stop start depth rest r hdepth h
  rw [List.append_assoc]
  exact hx _ _ _ _ _ hdepth (hy _ _ _ _ _ hdepth h)

theorem skips_plain {x : Text} (hx : x.all isPlain = true) : Skips x := by
  intro stop start depth rest r _ h
  induction x with
  | nil => exact h
  | cons b x ih =>
    rw [List.all_cons, Bool.and_eq_true] at hx
    exact closes_plain hx.1 (ih hx.2)

theorem Skips.braces {x : Text} (hx : Skips x) : Skips (123 :: (x ++ [125])) := by
  intro stop start depth rest r hdepth h
  -- The closing brace leads back to the depth before the opening one.
  have hclose : Closes stop start (depth + 1) (125 :: rest) r := by
    obtain ⟨hlt, h⟩ := h
    refine ⟨by simp only [List.length_cons]; omega, ?_⟩
    have hl : ¬ (125 : UInt8) = ('{' : Char).toUInt8 := by decide
    have hr : (125 : UInt8) = ('}' : Char).toUInt8 := by decide
    have hone : ¬ depth + 1 ≤ 1 := by omega
    rw [closingBrace]
    simp only [if_neg hl, if_pos hr, if_neg hone, Nat.add_sub_cancel, h]
  obtain ⟨hlt, hinner⟩ := hx stop start (depth + 1) _ _ (by omega) hclose
  have htext : 123 :: (x ++ [125]) ++ rest = 123 :: (x ++ 125 :: rest) := by simp
  rw [htext]
  refine ⟨by simp only [List.length_cons]; omega, ?_⟩
  have hl : (123 : UInt8) = ('{' : Char).toUInt8 := by decide
  rw [closingBrace]
  simp only [if_pos hl, hinner]

theorem skips_quote (s : Text) : Skips (quote s) := by
  intro stop start depth rest r _ h
  obtain ⟨hlt, h⟩ := h
  rw [quote_eq, List.cons_append]
  refine ⟨by simp only [List.length_cons, List.length_append]; omega, ?_⟩
  have hl : ¬ (34 : UInt8) = ('{' : Char).toUInt8 := by decide
  have hr : ¬ (34 : UInt8) = ('}' : Char).toUInt8 := by decide
  have hquote : (decide ((34 : UInt8) = ('"' : Char).toUInt8) ||
      decide ((34 : UInt8) = ('\'' : Char).toUInt8)) = true := by decide
  rw [closingBrace]
  simp only [if_neg hl, if_neg hr, if_pos hquote]
  split
  · rename_i heq
    rw [stringBody_quote] at heq
    cases heq
  · rename_i heq
    rw [stringBody_quote] at heq
    cases heq
    simp only [h]

/-! ### Words and numerals -/

theorem isPlain_of_outside {b : UInt8} (hb : 0x80 ≤ b) : isPlain b = true := by
  rw [isPlain_iff]
  refine ⟨?_, ?_, ?_, ?_, ?_⟩ <;> rintro rfl <;> exact absurd hb (by decide)

theorem isPlain_of_word {w : Text} (hw : isWord w = true) {b : UInt8} (hb : b ∈ w) :
    isPlain b = true := by
  rw [← flatten_pieces w, List.mem_flatMap] at hb
  obtain ⟨p, hp, hb⟩ := hb
  have hpart := identPart_of_word hw hp
  rcases mem_pieces hp with ⟨a, ha, rfl⟩ | hbytes
  · obtain rfl := List.mem_singleton.1 hb
    rw [isPlain_iff]
    refine ⟨?_, ?_, ?_, ?_, ?_⟩ <;> rintro rfl <;> exact absurd hpart (by decide +kernel)
  · exact isPlain_of_outside (hbytes b hb)

theorem skips_word {w : Text} (hw : isWord w = true) : Skips w :=
  skips_plain (List.all_eq_true.2 fun _ hb => isPlain_of_word hw hb)

theorem skips_ofNat (n : Nat) : Skips (Text.ofNat n) := by
  refine skips_plain (List.all_eq_true.2 fun b hb => ?_)
  have hd := isDigit_iff.1 (isDigit_of_mem_ofNat hb)
  rw [isPlain_iff]
  refine ⟨?_, ?_, ?_, ?_, ?_⟩ <;> rintro rfl <;> exact absurd hd (by decide)

/-! ### Template literals -/

/-- A template literal after its opening backtick is read. -/
def Cuts (stop start : Nat) (acc s : Text) (t : TemplateRead) : Prop :=
  ∃ h, templateBody stop start acc s = .ok ⟨t, h⟩

theorem cuts_tick {stop start : Nat} {acc r : Text} :
    Cuts stop start acc (96 :: r) ⟨[acc.reverse], [], r⟩ := by
  refine ⟨by simp [partsLength], ?_⟩
  rw [templateBody]

theorem cuts_escape {stop start : Nat} {acc r : Text} {b : UInt8} {t : TemplateRead}
    (he : escape (b :: r) = .ok ([b], r)) (h : Cuts stop start (b :: acc) r t) :
    Cuts stop start acc (92 :: b :: r) t := by
  obtain ⟨hlt, h⟩ := h
  refine ⟨by simp only [List.length_cons]; omega, ?_⟩
  rw [templateBody]
  split
  · rename_i heq
    rw [he] at heq
    cases heq
  · rename_i heq
    rw [he] at heq
    cases heq
    simp only [List.reverse_cons, List.reverse_nil, List.nil_append, List.singleton_append, h]

theorem cuts_byte {stop start : Nat} {acc r : Text} {b : UInt8} {t : TemplateRead}
    (htick : b ≠ 96) (hslash : b ≠ 92) (hbrace : b = 36 → ∀ u, r ≠ 123 :: u)
    (h : Cuts stop start (b :: acc) r t) : Cuts stop start acc (b :: r) t := by
  obtain ⟨hlt, h⟩ := h
  refine ⟨by simp only [List.length_cons]; omega, ?_⟩
  rw [templateBody]
  · simp only [h]
  · exact htick
  · exact hslash
  · exact fun u hb hr => hbrace hb u hr

/-- A fixed part is written with a brace in front only if it starts with one. -/
theorem quasi_append_ne {q u : Text} (hq : ∀ r, q ≠ 123 :: r) (hu : ∀ v, u ≠ 123 :: v) (v : Text) :
    Printer.quasi q ++ u ≠ 123 :: v := by
  fun_cases Printer.quasi q with
  | case1 => exact fun h => absurd (List.cons.inj h).1 (by decide)
  | case2 => exact fun h => absurd (List.cons.inj h).1 (by decide)
  | case3 => exact fun h => absurd (List.cons.inj h).1 (by decide)
  | case4 b r => exact fun h => hq r (congrArg (· :: r) (List.cons.inj h).1)
  | case5 => exact hu v

/-- A fixed part is read back, if what follows it does not start with a brace. -/
theorem cuts_quasi {stop start : Nat} {q acc u : Text} {t : TemplateRead}
    (hu : ∀ v, u ≠ 123 :: v) (h : Cuts stop start (q.reverse ++ acc) u t) :
    Cuts stop start acc (Printer.quasi q ++ u) t := by
  fun_induction Printer.quasi q generalizing acc with
  | case1 r ih =>
    refine cuts_escape rfl (ih ?_)
    simpa using h
  | case2 r ih =>
    refine cuts_escape rfl (ih ?_)
    simpa using h
  | case3 r ih =>
    refine cuts_escape rfl (cuts_byte (by decide) (by decide) (fun hb => by cases hb) (ih ?_))
    simpa using h
  | case4 b r hslash htick hbrace ih =>
    refine cuts_byte htick hslash ?_ (ih ?_)
    · rintro rfl
      exact quasi_append_ne (fun r' hr => hbrace r' rfl hr) hu
    · simpa using h
  | case5 => exact h

/-- An expression between braces is cut out, if the search for its closing brace passes over it. -/
theorem cuts_interpolation {stop start : Nat} {acc x r : Text} {t : TemplateRead} (hx : Skips x)
    (h : Cuts stop start [] r t) :
    ∃ offset, Cuts stop start acc (36 :: 123 :: (x ++ 125 :: r))
      ⟨acc.reverse :: t.quasis, ⟨x, offset⟩ :: t.parts, t.rest⟩ := by
  have hclose := hx stop (offset stop (36 :: 123 :: (x ++ 125 :: r))) 1 _ _ (Nat.le_refl 1)
    (closes_rbrace (r := r))
  obtain ⟨hlt, h⟩ := h
  obtain ⟨hlt', hclose⟩ := hclose
  have htake : (x ++ 125 :: r).take ((x ++ 125 :: r).length - r.length - 1) = x := by
    rw [List.length_append, List.length_cons, show x.length + (r.length + 1) - r.length - 1 =
      x.length by omega, List.take_left]
  refine ⟨offset stop (x ++ 125 :: r), ?_, ?_⟩
  · have hsize : partsLength (⟨x, offset stop (x ++ 125 :: r)⟩ :: t.parts) =
        x.length + partsLength t.parts := rfl
    simp only [hsize, List.length_cons, List.length_append]
    omega
  · rw [templateBody]
    simp only [hclose, h, htake]

/-- A template literal is cut into its fixed parts and the texts of its expressions. -/
theorem cuts_template {stop start indent : Nat} {es : List Expr} {quasis : List Text} {rest : Text}
    (hlen : quasis.length = es.length + 1) (hes : ∀ e ∈ es, Skips (Printer.expr indent e)) :
    ∃ t, Cuts stop start [] (Printer.template indent quasis es ++ 96 :: rest) t ∧
      t.quasis = quasis ∧ t.parts.map Interpolation.source = es.map (Printer.expr indent) ∧
      t.rest = rest := by
  induction es generalizing quasis with
  | nil =>
    obtain ⟨q, rfl⟩ := List.length_eq_one_iff.1 hlen
    have hcut : Cuts stop start [] (Printer.quasi q ++ 96 :: rest) ⟨[q], [], rest⟩ := by
      refine cuts_quasi (fun v h => absurd (List.cons.inj h).1 (by decide)) ?_
      have htick := @cuts_tick stop start (q.reverse ++ []) rest
      rwa [List.append_nil, List.reverse_reverse, ← List.append_nil q.reverse] at htick
    have htext : Printer.template indent [q] [] = Printer.quasi q := by simp [Printer.template]
    exact ⟨⟨[q], [], rest⟩, by rwa [htext], rfl, rfl, rfl⟩
  | cons e es ih =>
    obtain ⟨q, qs, rfl⟩ := List.exists_cons_of_length_eq_add_one hlen
    obtain ⟨t, hcut, hquasis, hparts, hrest⟩ :=
      @ih qs (Nat.succ.inj hlen) fun e he => hes e (List.mem_cons_of_mem _ he)
    obtain ⟨offset, hinter⟩ := @cuts_interpolation stop start q.reverse _ _ _
      (hes e List.mem_cons_self) hcut
    refine ⟨⟨q :: qs, ⟨Printer.expr indent e, offset⟩ :: t.parts, rest⟩, ?_, rfl, ?_, rfl⟩
    · have htext : Printer.template indent (q :: qs) (e :: es) ++ 96 :: rest =
          Printer.quasi q ++ 36 :: 123 :: (Printer.expr indent e ++
            125 :: (Printer.template indent qs es ++ 96 :: rest)) := by
        rw [Printer.template]
        simp only [List.append_assoc]
        rfl
      rw [htext]
      refine cuts_quasi (fun v h => absurd (List.cons.inj h).1 (by decide)) ?_
      rwa [List.reverse_reverse, hquasis, hrest, ← List.append_nil q.reverse] at hinter
    · simp [hparts]

/-- A template literal is one lexeme, with the texts of its expressions as parts. -/
theorem reads_template {stop indent : Nat} {es : List Expr} {quasis : List Text} {rest : Text}
    (hlen : quasis.length = es.length + 1) (hes : ∀ e ∈ es, Skips (Printer.expr indent e)) :
    ∃ raw parts, Reads stop (96 :: (Printer.template indent quasis es ++ [96])) rest
        (.template raw quasis parts) ∧
      parts.map Interpolation.source = es.map (Printer.expr indent) := by
  obtain ⟨t, hcut, hquasis, hparts, hrest⟩ := @cuts_template stop
    (offset stop (96 :: (Printer.template indent quasis es ++ 96 :: rest))) indent es quasis rest
    hlen hes
  subst hquasis hrest
  generalize hs : Printer.template indent t.quasis es = s at hcut ⊢
  have htext : s ++ [96] ++ t.rest = s ++ 96 :: t.rest := by simp
  rw [← htext] at hcut
  obtain ⟨hlt, hcut⟩ := hcut
  refine ⟨(96 :: (s ++ [96] ++ t.rest)).take
    ((96 :: (s ++ [96] ++ t.rest)).length - t.rest.length), t.parts, ⟨96, s ++ [96], ?_, rfl, ?_⟩,
    hparts⟩
  · rw [List.length_cons]
    simp only [Lexeme.weight]
    unfold partsLength at hlt
    omega
  · have hquote := not_quote (b := 96) (by decide) (by decide)
    have htick : (96 : UInt8) = ('`' : Char).toUInt8 := by decide
    rw [lexeme]
    simp only [if_neg hquote, if_pos htick, hcut]

/-- A template literal is passed over. -/
theorem skips_template {indent : Nat} {es : List Expr} {quasis : List Text}
    (hlen : quasis.length = es.length + 1) (hes : ∀ e ∈ es, Skips (Printer.expr indent e)) :
    Skips (96 :: (Printer.template indent quasis es ++ [96])) := by
  intro stop start depth rest r _ h
  obtain ⟨hlt, h⟩ := h
  have htext : 96 :: (Printer.template indent quasis es ++ [96]) ++ rest =
      96 :: (Printer.template indent quasis es ++ 96 :: rest) := by simp
  rw [htext]
  obtain ⟨⟨_, _, _⟩, ⟨_, hcut⟩, -, -, rfl⟩ := @cuts_template stop
    (offset stop (96 :: (Printer.template indent quasis es ++ 96 :: rest))) indent es quasis rest
    hlen hes
  refine ⟨?_, ?_⟩
  · rw [← htext, List.length_append]
    exact Nat.lt_of_lt_of_le hlt (Nat.le_add_left _ _)
  have hl : ¬ (96 : UInt8) = ('{' : Char).toUInt8 := by decide
  have hr : ¬ (96 : UInt8) = ('}' : Char).toUInt8 := by decide
  have hquote := not_quote (b := 96) (by decide) (by decide)
  have htick : (96 : UInt8) = ('`' : Char).toUInt8 := by decide
  rw [closingBrace]
  simp only [if_neg hl, if_neg hr, if_neg hquote, if_pos htick, hcut, h]

end Reactive.Lexer
