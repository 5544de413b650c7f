/-
Heads of loops split back into their parts.

The list of a head is any text without blanks at its ends, so it may hold the
word `as`, commas and brackets itself.  The head is still cut in one place
only: were the names to start at an earlier `as`, the last `as` with the name
after it would have to be one of the names, and no name follows a name without
a comma.

* `Spells` — the ways to write a head;
* `tail?_of_ends` — no earlier `as` fits;
* `ofText?_of_spells` — the parts of a head that is written so.
-/
import Mathlib.Data.List.TakeWhile
import Reactive.Proofs.Expr.Lexing
import Reactive.Template.EachHead

namespace Reactive.Template.EachHead

open Text

/-! ### Heads as they may be written -/

/-- A text of blanks. -/
def Blanks (t : Text) : Prop := ∀ b ∈ t, isMarkupBlank b = true

instance (t : Text) : Decidable (Blanks t) :=
  inferInstanceAs (Decidable (∀ b ∈ t, isMarkupBlank b = true))

/-- A text that does not end with a blank. -/
def Ends (t : Text) : Prop := ∀ b ∈ t.getLast?, isMarkupBlank b = false

instance (t : Text) : Decidable (Ends t) :=
  inferInstanceAs (Decidable (∀ b ∈ t.getLast?, isMarkupBlank b = false))

/-- A text that neither starts nor ends with a blank. -/
structure Bare (t : Text) : Prop where
  ne_nil : t ≠ []
  start : ∀ b ∈ t.head?, isMarkupBlank b = false
  ends : Ends t

/-- An identifier in ASCII that is not reserved. -/
structure IsName (n : Text) : Prop where
  ascii : ∀ b ∈ n, b < 0x80
  identifier : isIdentifier n = true
  free : isReserved n = false

/-- The ways to write the names after `as`: the item, then a comma and the index if there is one, with
blanks around them. -/
inductive SpellsNames : Text → Text → Text → Prop
  | item {item trail : Text} (hitem : IsName item) (htrail : Blanks trail) :
    SpellsNames item [] (item ++ trail)
  | index {item before after index trail : Text} (hitem : IsName item) (hbefore : Blanks before)
    (hafter : Blanks after) (hindex : IsName index) (htrail : Blanks trail) :
    SpellsNames item index (item ++ before ++ "," ++ after ++ index ++ trail)

/-- The ways to write a head: the list, the word `as` between blanks, and the names. -/
inductive Spells : EachHead → Text → Prop
  | head {lead list gap gap' item index names : Text} (hlead : Blanks lead) (hlist : Bare list)
    (hgap : Blanks gap) (hsome : gap ≠ []) (hgap' : Blanks gap') (hsome' : gap' ≠ [])
    (hnames : SpellsNames item index names) :
    Spells ⟨list, lead.length, item, index⟩ (lead ++ list ++ gap ++ "as" ++ gap' ++ names)

/-! ### Blanks -/

theorem Blanks.dropWhile {ws : Text} (h : Blanks ws) (t : Text) :
    (ws ++ t).dropWhile isMarkupBlank = t.dropWhile isMarkupBlank :=
  List.dropWhile_append_of_pos h

theorem Blanks.dropWhile_self {ws : Text} (h : Blanks ws) : ws.dropWhile isMarkupBlank = [] :=
  List.dropWhile_eq_nil_iff.2 h

theorem dropWhile_start {b : UInt8} {t : Text} (h : isMarkupBlank b = false) :
    (b :: t).dropWhile isMarkupBlank = b :: t :=
  List.dropWhile_cons_of_neg (by simp [h])

/-- What is left after at least one blank. -/
theorem blanks?_eq_some {s r : Text} (h : blanks? s = some r) : r = s.dropWhile isMarkupBlank := by
  unfold blanks? at h
  split at h
  · split at h
    · rename_i hb
      rw [List.dropWhile_cons_of_pos hb]
      exact (Option.some.inj h).symm
    · cases h
  · cases h

theorem blanks?_append {ws : Text} (h : Blanks ws) (hsome : ws ≠ []) (t : Text) :
    blanks? (ws ++ t) = some (t.dropWhile isMarkupBlank) := by
  cases ws with
  | nil => exact absurd rfl hsome
  | cons b ws =>
    obtain ⟨hb, hws⟩ := List.forall_mem_cons.1 h
    show (if isMarkupBlank b = true then some ((ws ++ t).dropWhile isMarkupBlank) else none) = _
    rw [if_pos hb, Blanks.dropWhile hws]

theorem Ends.suffix {l l' : Text} (h : Ends l) (hs : l' <:+ l) : Ends l' := by
  obtain ⟨p, rfl⟩ := hs
  intro b hb
  exact h b (by rw [List.getLast?_append, Option.mem_def.1 hb]; rfl)

/-- Blanks at the front of a text that ends without one are not all of it. -/
theorem Ends.dropWhile {l : Text} (h : Ends l) (hl : l ≠ []) (t : Text) :
    (l ++ t).dropWhile isMarkupBlank = l.dropWhile isMarkupBlank ++ t ∧
      l.dropWhile isMarkupBlank ≠ [] := by
  have hne : l.dropWhile isMarkupBlank ≠ [] := by
    intro hnil
    have hlast := h _ (List.getLast?_eq_some_getLast hl)
    rw [List.dropWhile_eq_nil_iff.1 hnil _ (List.getLast_mem hl)] at hlast
    cases hlast
  refine ⟨?_, hne⟩
  rw [List.dropWhile_append, if_neg (by simpa using hne)]

/-! ### Names -/

theorem isNamePart_of_isIdentPart : ∀ n < 128, isIdentPart n = true → isNamePart (UInt8.ofNat n) := by
  decide +kernel

theorem isNameStart_of_isIdentStart :
    ∀ n < 128, isIdentStart n = true → isNameStart (UInt8.ofNat n) := by
  decide +kernel

theorem not_namePart_of_blank {b : UInt8} (h : isMarkupBlank b = true) : isNamePart b = false := by
  simp only [isMarkupBlank, Bool.or_eq_true, beq_iff_eq] at h
  rcases h with (((rfl | rfl) | rfl) | rfl) | rfl <;> decide

theorem not_blank_of_nameStart {b : UInt8} (h : isNameStart b = true) : isMarkupBlank b = false := by
  rw [Bool.eq_false_iff]
  intro hblank
  have hpart := not_namePart_of_blank hblank
  rw [isNamePart, h] at hpart
  cases hpart

namespace IsName

variable {n : Text}

theorem isWord (h : IsName n) : isWord n = true := (isIdentifier_iff.1 h.identifier).1

theorem namePart (h : IsName n) : ∀ b ∈ n, isNamePart b = true := by
  intro b hb
  have hascii := h.ascii b hb
  have hpart := isNamePart_of_isIdentPart b.toNat (UInt8.lt_iff_toNat_lt.1 hascii)
    (Lexer.identPart_of_word h.isWord (mem_pieces_of_ascii hb hascii))
  rwa [UInt8.ofNat_toNat] at hpart

theorem exists_cons (h : IsName n) : ∃ b r, n = b :: r ∧ isNameStart b = true := by
  obtain ⟨b, r, rfl, hstart⟩ := Lexer.exists_cons_of_word h.isWord
  have hascii := h.ascii b List.mem_cons_self
  rw [decode_ascii hascii] at hstart
  have hname := isNameStart_of_isIdentStart b.toNat (UInt8.lt_iff_toNat_lt.1 hascii) hstart
  rw [UInt8.ofNat_toNat] at hname
  exact ⟨b, r, rfl, hname⟩

theorem isAlias (h : IsName n) : isAlias n = true := by
  rw [EachHead.isAlias, h.identifier, h.free]
  rfl

end IsName

/-- Whether a name ends before a text. -/
def Breaks (t : Text) : Prop := ∀ b ∈ t.head?, isNamePart b = false

theorem Breaks.blanks {ws : Text} (h : Blanks ws) {t : Text} (ht : Breaks t) : Breaks (ws ++ t) := by
  cases ws with
  | nil => exact ht
  | cons b ws =>
    intro c hc
    rw [← Option.some.inj hc]
    exact not_namePart_of_blank (h b List.mem_cons_self)

theorem Breaks.takeWhile {t : Text} (h : Breaks t) : t.takeWhile isNamePart = [] := by
  cases t with
  | nil => rfl
  | cons b t => rw [List.takeWhile_cons_of_neg (by simp [h b rfl])]

theorem Breaks.dropWhile {t : Text} (h : Breaks t) : t.dropWhile isNamePart = t := by
  cases t with
  | nil => rfl
  | cons b t => rw [List.dropWhile_cons_of_neg (by simp [h b rfl])]

/-- A name is read up to where it ends. -/
theorem name?_append {l t : Text} (hl : ∀ b ∈ l, isNamePart b = true)
    (hstart : ∀ b ∈ l.head?, isNameStart b = true) (hsome : l ≠ []) (ht : Breaks t) :
    name? (l ++ t) = some (l, t) := by
  cases l with
  | nil => exact absurd rfl hsome
  | cons b r =>
    have hr : ∀ b ∈ r, isNamePart b = true := fun c hc => hl c (List.mem_cons_of_mem _ hc)
    show (if isNameStart b = true then
      some (b :: (r ++ t).takeWhile isNamePart, (r ++ t).dropWhile isNamePart) else none) = _
    rw [if_pos (hstart b rfl), List.takeWhile_append_of_pos hr, List.dropWhile_append_of_pos hr,
      ht.takeWhile, ht.dropWhile, List.append_nil]

theorem IsName.name?_append {n t : Text} (h : IsName n) (ht : Breaks t) :
    name? (n ++ t) = some (n, t) := by
  obtain ⟨b, r, rfl, hstart⟩ := h.exists_cons
  refine EachHead.name?_append h.namePart ?_ (List.cons_ne_nil b r) ht
  intro c hc
  rw [← Option.some.inj hc]
  exact hstart

/-- Names are read as they are written. -/
theorem SpellsNames.names? {item index names : Text} (h : SpellsNames item index names) :
    names? names = some (item, index) := by
  have hnil : Breaks [] := fun b hb => by cases hb
  cases h with
  | @item trail hitem htrail =>
    have hbreaks : Breaks trail := by simpa using hnil.blanks htrail
    rw [EachHead.names?, hitem.name?_append hbreaks]
    simp only [htrail.dropWhile_self]
  | @index before after _ trail hitem hbefore hafter hindex htrail =>
    have hcomma : Breaks ((',' : UInt8) :: (after ++ (index ++ trail))) := fun b hb => by
      rw [← Option.some.inj hb]
      decide
    have hbreaks : Breaks trail := by simpa using hnil.blanks htrail
    have hnext : (index ++ trail).dropWhile isMarkupBlank = index ++ trail := by
      obtain ⟨b, r, rfl, hb⟩ := hindex.exists_cons
      exact dropWhile_start (not_blank_of_nameStart hb)
    have hwhole : item ++ before ++ "," ++ after ++ index ++ trail =
        item ++ (before ++ (',' : UInt8) :: (after ++ (index ++ trail))) := by
      simp only [List.append_assoc]
      rfl
    have hmark : (before ++ (',' : UInt8) :: (after ++ (index ++ trail))).dropWhile isMarkupBlank =
        44 :: (after ++ (index ++ trail)) := by
      rw [hbefore.dropWhile]
      exact dropWhile_start (by decide)
    rw [hwhole, EachHead.names?, hitem.name?_append (hcomma.blanks hbefore)]
    simp only [hmark]
    split
    · rename_i heq
      cases heq
    · rename_i r heq
      rw [← (List.cons.inj heq).2, hafter.dropWhile, hnext, hindex.name?_append hbreaks]
      simp only [htrail.dropWhile_self]
      rfl
    · rename_i hother
      exact absurd rfl (hother _)

/-- Names start with the item. -/
theorem SpellsNames.exists_cons {item index names : Text} (h : SpellsNames item index names) :
    ∃ b r, names = b :: r ∧ isNameStart b = true := by
  cases h with
  | item hitem =>
    obtain ⟨b, r, rfl, hb⟩ := hitem.exists_cons
    exact ⟨b, _, rfl, hb⟩
  | index hitem =>
    obtain ⟨b, r, rfl, hb⟩ := hitem.exists_cons
    exact ⟨b, _, rfl, hb⟩

/-! ### The word between list and names -/

/-- What follows the list of a head: blanks, `as`, blanks, and a text that starts with a name. -/
structure Follows (t : Text) : Prop where
  blank : ∃ b r, t = b :: r ∧ isMarkupBlank b = true
  word : ∃ u, t.dropWhile isMarkupBlank = "as" ++ u ∧ Breaks u ∧
    ∃ b r, u.dropWhile isMarkupBlank = b :: r ∧ isNameStart b = true

theorem follows_append {gap gap' names : Text} (hgap : Blanks gap) (hsome : gap ≠ [])
    (hgap' : Blanks gap') (hsome' : gap' ≠ []) (hnames : ∃ b r, names = b :: r ∧ isNameStart b = true) :
    Follows (gap ++ ("as" ++ (gap' ++ names))) := by
  constructor
  · cases gap with
    | nil => exact absurd rfl hsome
    | cons b r => exact ⟨b, _, rfl, hgap b List.mem_cons_self⟩
  · refine ⟨gap' ++ names, ?_, ?_, ?_⟩
    · rw [hgap.dropWhile]
      rfl
    · cases gap' with
      | nil => exact absurd rfl hsome'
      | cons b r =>
        intro c hc
        rw [← Option.some.inj hc]
        exact not_namePart_of_blank (hgap' b List.mem_cons_self)
    · obtain ⟨b, r, rfl, hb⟩ := hnames
      exact ⟨b, r, by rw [hgap'.dropWhile, dropWhile_start (not_blank_of_nameStart hb)], hb⟩

theorem tail?_eq_some {s : Text} {x : Text × Text} :
    tail? s = some x ↔ ∃ r, blanks? s = some r ∧ ∃ r', dropPrefix? r "as" = some r' ∧
      ∃ r'', blanks? r' = some r'' ∧ names? r'' = some x := by
  simp only [tail?, Option.bind_eq_bind, Option.bind_eq_some_iff]

namespace Follows

variable {t : Text}

theorem breaks (h : Follows t) : Breaks t := by
  obtain ⟨b, r, rfl, hb⟩ := h.blank
  intro c hc
  rw [← Option.some.inj hc]
  exact not_namePart_of_blank hb

/-- A name that is read inside the list, up to its end at most. -/
theorem name?_eq_some (h : Follows t) {l n r : Text} (hl : Ends l) (hsome : l ≠ [])
    (hname : name? (l ++ t) = some (n, r)) : ∃ l', r = l' ++ t ∧ Ends l' := by
  cases l with
  | nil => exact absurd rfl hsome
  | cons b l =>
    have hr : r = (l ++ t).dropWhile isNamePart := by
      rw [List.cons_append, name?] at hname
      split at hname
      · exact (Prod.mk.inj (Option.some.inj hname)).2.symm
      · cases hname
    refine ⟨l.dropWhile isNamePart, ?_, ?_⟩
    · rw [hr, List.dropWhile_append]
      split
      · rename_i hnil
        rw [List.isEmpty_iff.1 hnil, h.breaks.dropWhile, List.nil_append]
      · rfl
    · exact hl.suffix ((List.dropWhile_suffix _).trans (List.suffix_cons b l))

/-- After a part of the list there is always more to read. -/
theorem dropWhile_ne_nil (h : Follows t) {l : Text} (hl : Ends l) :
    (l ++ t).dropWhile isMarkupBlank ≠ [] := by
  by_cases hsome : l = []
  · obtain ⟨u, hu, -⟩ := h.word
    rw [hsome, List.nil_append, hu]
    exact List.cons_ne_nil _ _
  · obtain ⟨hdrop, hne⟩ := hl.dropWhile hsome t
    rw [hdrop]
    exact List.append_ne_nil_of_left_ne_nil hne t

/-- The word `as` that follows the list, read as a name. -/
theorem name?_word (h : Follows t) :
    ∃ u, name? (t.dropWhile isMarkupBlank) = some (Text.ofString "as", u) ∧
      ∃ b r, u.dropWhile isMarkupBlank = b :: r ∧ isNameStart b = true := by
  obtain ⟨u, hu, hbreaks, hnext⟩ := h.word
  refine ⟨u, ?_, hnext⟩
  rw [hu]
  exact name?_append (by decide +kernel) (by decide +kernel) (by decide +kernel) hbreaks

/-- A comma that is read inside the list. -/
theorem comma_inside (h : Follows t) {l r : Text} (hl : Ends l)
    (hcomma : (l ++ t).dropWhile isMarkupBlank = (',' : UInt8) :: r) :
    ∃ l', r = l' ++ t ∧ Ends l' := by
  by_cases hsome : l = []
  · obtain ⟨u, hu, -⟩ := h.word
    rw [hsome, List.nil_append, hu] at hcomma
    exact absurd (List.cons.inj hcomma).1 (by decide)
  · obtain ⟨hdrop, hne⟩ := hl.dropWhile hsome t
    rw [hdrop] at hcomma
    cases hrest : l.dropWhile isMarkupBlank with
    | nil => exact absurd hrest hne
    | cons b l' =>
      rw [hrest] at hcomma
      refine ⟨l', (List.cons.inj hcomma).2.symm, hl.suffix ?_⟩
      exact (List.suffix_cons b l').trans (hrest ▸ List.dropWhile_suffix _)

/-- Behind a comma in the list no index ends the head: at the latest the name after `as` follows it. -/
theorem index_unfit (h : Follows t) {l n r : Text} (hl : Ends l)
    (hname : name? ((l ++ t).dropWhile isMarkupBlank) = some (n, r)) :
    r.dropWhile isMarkupBlank ≠ [] := by
  by_cases hsome : l = []
  · obtain ⟨u, hu, b, r', hnext, -⟩ := h.name?_word
    rw [hsome, List.nil_append, hu] at hname
    rw [← (Prod.mk.inj (Option.some.inj hname)).2, hnext]
    exact List.cons_ne_nil b r'
  · obtain ⟨hdrop, hne⟩ := hl.dropWhile hsome t
    rw [hdrop] at hname
    obtain ⟨l', rfl, hl'⟩ := h.name?_eq_some (hl.suffix (List.dropWhile_suffix _)) hne hname
    exact h.dropWhile_ne_nil hl'

/-- No names start inside the list, nor with the word `as` behind it. -/
theorem names?_unfit (h : Follows t) {l : Text} (hl : Ends l) :
    names? ((l ++ t).dropWhile isMarkupBlank) = none := by
  rw [names?]
  split
  · rfl
  · rename_i item r hname
    by_cases hsome : l = []
    · -- the item would be `as`, and a name follows it without a comma
      obtain ⟨u, hu, b, r', hnext, hb⟩ := h.name?_word
      rw [hsome, List.nil_append, hu] at hname
      rw [← (Prod.mk.inj (Option.some.inj hname)).2, hnext]
      split
      · rename_i hnil
        cases hnil
      · rename_i hcomma
        rw [(List.cons.inj hcomma).1] at hb
        cases hb
      · rfl
    · obtain ⟨hdrop, hne⟩ := hl.dropWhile hsome t
      rw [hdrop] at hname
      obtain ⟨l', rfl, hl'⟩ := h.name?_eq_some (hl.suffix (List.dropWhile_suffix _)) hne hname
      split
      · rename_i hnil
        exact absurd hnil (h.dropWhile_ne_nil hl')
      · rename_i r' hcomma
        obtain ⟨l'', rfl, hl''⟩ := h.comma_inside hl' hcomma
        split
        · rfl
        · rename_i hindex
          rw [if_neg (by simpa using h.index_unfit hl'' hindex)]
      · rfl

/-- The word `as` is not read across the end of the list, which a blank follows. -/
theorem word_inside (h : Follows t) {l r : Text} (hl : Ends l) (hsome : l ≠ [])
    (hword : l ++ t = Text.ofString "as" ++ r) : ∃ l', r = l' ++ t ∧ Ends l' := by
  match l, hsome with
  | [_], _ =>
    obtain ⟨b, t', rfl, hb⟩ := h.blank
    rw [(List.cons.inj (List.cons.inj hword).2).1] at hb
    exact absurd hb (by decide)
  | c :: d :: l, _ =>
    exact ⟨l, (List.cons.inj (List.cons.inj hword).2).2.symm, hl.suffix ⟨[c, d], rfl⟩⟩

/-- No earlier `as` fits. -/
theorem tail?_of_ends (h : Follows t) {l : Text} (hl : Ends l) (hsome : l ≠ []) :
    tail? (l ++ t) = none := by
  rw [Option.eq_none_iff_forall_ne_some]
  intro x hx
  obtain ⟨r, hgap, r', hword, r'', hgap', hnames⟩ := tail?_eq_some.1 hx
  obtain ⟨hdrop, hne⟩ := hl.dropWhile hsome t
  rw [blanks?_eq_some hgap, hdrop, dropPrefix?_eq_some] at hword
  obtain ⟨l', rfl, hl'⟩ := h.word_inside (hl.suffix (List.dropWhile_suffix _)) hne hword
  rw [blanks?_eq_some hgap', h.names?_unfit hl'] at hnames
  cases hnames

end Follows

/-! ### Whole heads -/

/-- The last `as` fits. -/
theorem tail?_append {gap gap' item index names : Text} (hgap : Blanks gap) (hsome : gap ≠ [])
    (hgap' : Blanks gap') (hsome' : gap' ≠ []) (hnames : SpellsNames item index names) :
    tail? (gap ++ ("as" ++ (gap' ++ names))) = some (item, index) := by
  obtain ⟨b, r, hstart, hb⟩ := hnames.exists_cons
  have hself : names.dropWhile isMarkupBlank = names := by
    rw [hstart]
    exact dropWhile_start (not_blank_of_nameStart hb)
  refine tail?_eq_some.2 ⟨"as" ++ (gap' ++ names), ?_, gap' ++ names, dropPrefix?_eq_some.2 rfl,
    names, ?_, hnames.names?⟩
  · rw [blanks?_append hgap hsome]
    rfl
  · rw [blanks?_append hgap' hsome', hself]

theorem shortest?_fit {n : Nat} {s : Text} {x : Text × Text} (h : tail? s = some x) :
    shortest? (n + 1) s = some (n + 1, x) := by
  cases s with
  | nil => cases h
  | cons b r => simp only [shortest?, h]

theorem shortest?_unfit {n : Nat} {b : UInt8} {r : Text} (h : tail? (b :: r) = none) :
    shortest? n (b :: r) = shortest? (n + 1) r := by
  cases n <;> simp [shortest?, h]

/-- The shortest list ends at the first place where the rest fits. -/
theorem shortest?_append {n : Nat} {l t : Text} {x : Text × Text} (hn : n ≠ 0 ∨ l ≠ [])
    (hnone : ∀ l', l' <:+ l → l' ≠ [] → tail? (l' ++ t) = none) (ht : tail? t = some x) :
    shortest? n (l ++ t) = some (n + l.length, x) := by
  induction l generalizing n with
  | nil =>
    obtain ⟨n, rfl⟩ := Nat.exists_eq_succ_of_ne_zero (hn.resolve_right (· rfl))
    exact shortest?_fit ht
  | cons b l ih =>
    have hunfit : tail? (b :: (l ++ t)) = none := hnone (b :: l) List.suffix_rfl (List.cons_ne_nil b l)
    rw [List.cons_append, shortest?_unfit hunfit,
      ih (.inl (Nat.succ_ne_zero n)) fun l' hl' => hnone l' (hl'.trans (List.suffix_cons b l))]
    congr 2
    rw [List.length_cons]
    omega

theorem fitting?_of_fit {head : Text} {n : Nat} {h : EachHead} (hfit : fitting?.fit head n = some h) :
    fitting? head n = some h := by
  cases n with
  | zero => exact hfit
  | succ n => rw [fitting?, hfit, Option.some_or]

theorem SpellsNames.checked {item index names list : Text} {n : Nat}
    (h : SpellsNames item index names) :
    checked ⟨list, n, item, index⟩ = some ⟨list, n, item, index⟩ := by
  cases h with
  | item hitem => simp [EachHead.checked, hitem.isAlias]
  | index hitem _ _ hindex => simp [EachHead.checked, hitem.isAlias, hindex.isAlias]

/-- **Heads split back into their parts.**  However a head is written, with a list that may hold the word
`as`, commas and line breaks itself, it is split into the list as it stands there, the offset of the
list, the item and the index. -/
theorem ofText?_of_spells {h : EachHead} {head : Text} (hs : Spells h head) :
    ofText? head = some h := by
  cases hs with
  | @head lead list gap gap' item index names hlead hlist hgap hsome hgap' hsome' hnames =>
    have hwhole : lead ++ list ++ gap ++ "as" ++ gap' ++ names =
        lead ++ (list ++ (gap ++ ("as" ++ (gap' ++ names)))) := by
      simp only [List.append_assoc]
    have hfollows := follows_append hgap hsome hgap' hsome' hnames.exists_cons
    have htail := tail?_append hgap hsome hgap' hsome' hnames
    generalize gap ++ ("as" ++ (gap' ++ names)) = t at hwhole hfollows htail
    have hlead' : ((lead ++ (list ++ t)).takeWhile isMarkupBlank).length = lead.length := by
      obtain ⟨b, r, rfl⟩ := List.exists_cons_of_ne_nil hlist.ne_nil
      rw [List.takeWhile_append_of_pos hlead, List.cons_append,
        List.takeWhile_cons_of_neg (by simp [hlist.start b rfl]), List.append_nil]
    have hshortest : shortest? 0 (list ++ t) = some (0 + list.length, item, index) :=
      shortest?_append (.inr hlist.ne_nil)
        (fun l' hl' hne => hfollows.tail?_of_ends (hlist.ends.suffix hl') hne) htail
    have hfit : fitting?.fit (lead ++ (list ++ t)) lead.length =
        some ⟨list, lead.length, item, index⟩ := by
      rw [fitting?.fit, List.drop_left, hshortest]
      simp
    rw [hwhole, ofText?, hlead', fitting?_of_fit hfit]
    exact hnames.checked

/-- A list that holds the word `as` and a comma, and ends with the word. -/
theorem ofText?_of_spells_rows :
    Spells ⟨"rows as cells, as", 2, "item", "i"⟩ "  rows as cells, as as item , i" ∧
      ofText? "  rows as cells, as as item , i" = some ⟨"rows as cells, as", 2, "item", "i"⟩ := by
  have hitem : IsName "item" := ⟨by decide +kernel, by decide +kernel, by decide +kernel⟩
  have hindex : IsName "i" := ⟨by decide +kernel, by decide +kernel, by decide +kernel⟩
  have hlist : Bare "rows as cells, as" := ⟨by decide +kernel, by decide +kernel, by decide +kernel⟩
  have hnames : SpellsNames "item" "i" "item , i" :=
    @SpellsNames.index "item" " " " " "i" "" hitem (by decide +kernel) (by decide +kernel) hindex
      (by decide +kernel)
  have hspells : Spells ⟨"rows as cells, as", 2, "item", "i"⟩ "  rows as cells, as as item , i" :=
    @Spells.head "  " "rows as cells, as" " " " " "item" "i" "item , i" (by decide +kernel) hlist
      (by decide +kernel) (by decide +kernel) (by decide +kernel) (by decide +kernel) hnames
  exact ⟨hspells, ofText?_of_spells hspells⟩

end Reactive.Template.EachHead
