/-
What is left of a style sheet of which every selector is kept.

Rules, selectors and declarations stay as they are and in their places.  What goes is
what has nothing in it: a group without rules, a selector that is blank with its
comma, and a style rule without selectors.

* `Keeps` — the words that are kept of a sheet;
* `Keeps.sublist`, `Keeps.eq_words` — nothing moves, and nothing goes but what is empty;
* `build_keep` — the words of the sheet that is built;
* `build_keep_whole` — if nothing is empty, they are the words of the sheet it is built from.
-/
import Reactive.Proofs.Css.Reread

namespace Reactive.Css

/-! ### What is kept -/

/-- A prelude and its block, at the front of some tokens. -/
structure Braced where
  head : List Token
  opening : Token
  body : List Token
  closing : Token
  rest : List Token
  plain : ∀ t ∈ head, ¬ t.kind.Ends
  head_ne : words head ≠ []
  opening_kind : opening.kind = .leftBrace
  closing_kind : closing.kind = .rightBrace
  split : splitClose 0 [] (body ++ closing :: rest) = some (body, rest)

namespace Braced

/-- All the tokens. -/
def tokens (b : Braced) : List Token :=
  b.head ++ b.opening :: (b.body ++ b.closing :: b.rest)

/-- Some words with the block around others. -/
def wrap (b : Braced) (prelude inner : List (Kind × Text)) : List (Kind × Text) :=
  prelude ++ b.opening.word :: (inner ++ [b.closing.word])

/-- The selectors that are not blank. -/
def parts (b : Braced) : List (List Token) :=
  (splitCommas 0 [] b.head).filter fun p => !(words p).isEmpty

end Braced

/-- A comma between selectors. -/
def commaWord : Kind × Text := (.comma, ",")

/-- The words that are kept of a sheet with some tokens. -/
inductive Keeps : List Token → List (Kind × Text) → Prop
  | nil : Keeps [] []
  | blank {t : Token} {ts : List Token} {ws : List (Kind × Text)} :
    t.kind = .blank → Keeps ts ws → Keeps (t :: ts) ws
  | statement {head rest : List Token} {stop : Token} {ws : List (Kind × Text)} :
    (∀ t ∈ head, ¬ t.kind.Ends) → stop.kind = .semicolon → Keeps rest ws →
    Keeps (head ++ stop :: rest) (words head ++ [stop.word] ++ ws)
  /-- A group goes if nothing is kept of its rules. -/
  | group {b : Braced} {inner ws : List (Kind × Text)} : isGroup (textOf b.head) = true →
    Keeps b.body inner → Keeps b.rest ws →
    Keeps b.tokens ((if inner = [] then [] else b.wrap (words b.head) inner) ++ ws)
  | block {b : Braced} {ws : List (Kind × Text)} : isGroup (textOf b.head) = false →
    Text.startsWith (textOf b.head) "@" = true → Keeps b.rest ws →
    Keeps b.tokens (b.wrap (words b.head) (words b.body) ++ ws)
  /-- A style rule goes if all its selectors are blank. -/
  | style {b : Braced} {ws : List (Kind × Text)} : isGroup (textOf b.head) = false →
    Text.startsWith (textOf b.head) "@" = false → Keeps b.rest ws →
    Keeps b.tokens ((if b.parts = [] then []
      else b.wrap ([commaWord].intercalate (b.parts.map words)) (words b.body)) ++ ws)

section

variable {ts : List Token} {ws : List (Kind × Text)}

theorem Keeps.blanks {lead : List Token} (hlead : ∀ t ∈ lead, t.kind = .blank) (h : Keeps ts ws) :
    Keeps (lead ++ ts) ws := by
  induction lead with
  | nil => exact h
  | cons t lead ih =>
    rw [List.forall_mem_cons] at hlead
    exact .blank hlead.1 (ih hlead.2)

theorem words_word_of_mark {t : Token} (h : t.kind.mark ≠ none) (ts : List Token) :
    words (t :: ts) = t.word :: words ts :=
  words_word (fun hblank => h (by rw [hblank]; rfl)) ts

theorem Braced.mark_opening (b : Braced) : b.opening.kind.mark = some '{' := by
  rw [b.opening_kind]
  rfl

theorem Braced.mark_closing (b : Braced) : b.closing.kind.mark = some '}' := by
  rw [b.closing_kind]
  rfl

theorem Braced.forall_tokens (b : Braced) {P : Token → Prop} (h : ∀ t ∈ b.tokens, P t) :
    (∀ t ∈ b.head, P t) ∧ (∀ t ∈ b.body, P t) ∧ ∀ t ∈ b.rest, P t := by
  simp only [tokens, List.forall_mem_append, List.forall_mem_cons] at h
  exact ⟨h.1, h.2.2.1, h.2.2.2.2⟩

theorem Braced.words_tokens (b : Braced) :
    words b.tokens = b.wrap (words b.head) (words b.body) ++ words b.rest := by
  rw [tokens, wrap, words_append, words_word_of_mark (by simp [b.mark_opening]), words_append,
    words_word_of_mark (by simp [b.mark_closing])]
  simp

/-! ### Nothing moves -/

theorem splitCommas_ne_nil (depth : Int) (part ts : List Token) :
    splitCommas depth part ts ≠ [] := by
  induction ts generalizing depth part with
  | nil => exact List.cons_ne_nil _ _
  | cons t ts ih =>
    rw [splitCommas]
    split
    · exact List.cons_ne_nil _ _
    · exact ih _ _

/-- The words of a prelude are those of its parts with commas between them. -/
theorem words_splitCommas (hcomma : ∀ t ∈ ts, t.kind = .comma → t.text = ",") (depth : Int)
    (part : List Token) : [commaWord].intercalate ((splitCommas depth part ts).map words) =
      words (part.reverse ++ ts) := by
  induction ts generalizing depth part with
  | nil => rw [splitCommas, List.map_singleton, List.intercalate_singleton, List.append_nil]
  | cons t ts ih =>
    rw [List.forall_mem_cons] at hcomma
    rw [splitCommas]
    split
    · rename_i hsplit
      rw [Bool.and_eq_true, decide_eq_true_eq, decide_eq_true_eq] at hsplit
      obtain ⟨p, ps, hps⟩ :=
        List.exists_cons_of_ne_nil (splitCommas_ne_nil (depth + t.kind.nesting) [] ts)
      have hrest := ih hcomma.2 (depth + t.kind.nesting) []
      rw [hps] at hrest ⊢
      rw [List.map_cons] at hrest ⊢
      rw [List.map_cons, List.intercalate_cons_cons, hrest, words_append part.reverse (t :: ts),
        words_word (by rw [hsplit.1]; decide), Token.word, hsplit.1, hcomma.1 hsplit.1,
        List.append_assoc]
      rfl
    · rw [ih hcomma.2, List.reverse_cons, List.append_assoc]
      rfl

theorem intercalate_filter_sublist {α : Type} (sep : List α) (ls : List (List α)) :
    (sep.intercalate (ls.filter fun l => !l.isEmpty)).Sublist (sep.intercalate ls) := by
  induction ls with
  | nil => exact List.Sublist.refl _
  | cons l ls ih =>
    have htail : (sep.intercalate ls).Sublist (sep.intercalate (l :: ls)) := by
      cases ls with
      | nil => exact List.nil_sublist _
      | cons m ls =>
        rw [List.intercalate_cons_cons]
        exact List.sublist_append_right _ _
    cases hl : l.isEmpty with
    | true =>
      rw [List.filter_cons_of_neg (by simp [hl])]
      exact ih.trans htail
    | false =>
      rw [List.filter_cons_of_pos (by simp [hl])]
      cases hls : ls.filter fun l => !l.isEmpty with
      | nil =>
        cases ls with
        | nil => exact List.Sublist.refl _
        | cons m ls =>
          rw [List.intercalate_singleton, List.intercalate_cons_cons, List.append_assoc]
          exact List.sublist_append_left _ _
      | cons k ks =>
        cases ls with
        | nil => cases hls
        | cons m ls =>
          rw [hls] at ih
          rw [List.intercalate_cons_cons, List.intercalate_cons_cons]
          exact (List.Sublist.refl _).append ih

theorem Braced.parts_sublist (b : Braced)
    (hcomma : ∀ t ∈ b.head, t.kind = .comma → t.text = ",") :
    ([commaWord].intercalate (b.parts.map words)).Sublist (words b.head) := by
  have hmap : b.parts.map words =
      ((splitCommas 0 [] b.head).map words).filter fun l => !l.isEmpty := by
    rw [List.filter_map]
    rfl
  have hall := words_splitCommas hcomma 0 []
  rw [List.reverse_nil, List.nil_append] at hall
  rw [hmap, ← hall]
  exact intercalate_filter_sublist _ _

theorem Braced.wrap_sublist (b : Braced) {prelude inner : List (Kind × Text)}
    (hprelude : prelude.Sublist (words b.head)) (hinner : inner.Sublist (words b.body)) :
    (b.wrap prelude inner).Sublist (b.wrap (words b.head) (words b.body)) :=
  hprelude.append ((hinner.append (List.Sublist.refl _)).cons_cons _)

/-- What is kept of a sheet stands in it in the same order. -/
theorem Keeps.sublist (h : Keeps ts ws)
    (hcomma : ∀ t ∈ ts, t.kind = .comma → t.text = ",") : ws.Sublist (words ts) := by
  induction h with
  | nil => exact List.Sublist.refl _
  | blank ht _ ih =>
    rw [words_blank ht]
    exact ih fun t ht => hcomma t (List.mem_cons_of_mem _ ht)
  | @statement head rest stop ws _ hstop _ ih =>
    rw [words_append, words_word (by rw [hstop]; decide), List.append_assoc]
    exact (List.Sublist.refl _).append ((ih fun t ht =>
      hcomma t (List.mem_append_right _ (List.mem_cons_of_mem _ ht))).cons_cons _)
  | @group b inner ws _ _ _ ihbody ihrest =>
    obtain ⟨-, hbody, hrest⟩ := b.forall_tokens hcomma
    rw [b.words_tokens]
    refine List.Sublist.append ?_ (ihrest hrest)
    split
    · exact List.nil_sublist _
    · exact b.wrap_sublist (List.Sublist.refl _) (ihbody hbody)
  | @block b ws _ _ _ ih =>
    rw [b.words_tokens]
    exact (List.Sublist.refl _).append (ih (b.forall_tokens hcomma).2.2)
  | @style b ws _ _ _ ih =>
    obtain ⟨hhead, -, hrest⟩ := b.forall_tokens hcomma
    rw [b.words_tokens]
    refine List.Sublist.append ?_ (ih hrest)
    split
    · exact List.nil_sublist _
    · exact b.wrap_sublist (b.parts_sublist hhead) (List.Sublist.refl _)

/-! ### Nothing goes but what is empty -/

/-- Marks with something missing between them: a block without anything in it, or a comma without
a selector before or after it. -/
def Gap (j k : Kind) : Prop :=
  j = .leftBrace ∧ k = .rightBrace ∨ j.mark ≠ none ∧ k = .comma ∨ j = .comma ∧ k = .leftBrace

/-- The kinds of some words have no gaps after a mark. -/
def Whole (k : Kind) (ws : List (Kind × Text)) : Prop :=
  (k :: ws.map Prod.fst).IsChain fun j k => ¬ Gap j k

theorem Whole.left {k : Kind} {vs ws : List (Kind × Text)} (h : Whole k (vs ++ ws)) :
    Whole k vs := by
  rw [Whole, List.map_append, ← List.cons_append] at h
  exact h.left_of_append

theorem Whole.append {k : Kind} {vs ws : List (Kind × Text)} {w : Kind × Text}
    (h : Whole k (vs ++ w :: ws)) : Whole k vs ∧ Whole w.1 ws := by
  rw [Whole, List.map_append, List.map_cons, ← List.cons_append] at h
  exact ⟨h.left_of_append, h.right_of_append⟩

/-- A sheet without gaps has none within a block, nor after it, and the block is not empty. -/
theorem Braced.whole (b : Braced) {k : Kind} (h : Whole k (words b.tokens)) :
    Whole k (words b.head ++ [b.opening.word]) ∧ Whole .leftBrace (words b.body) ∧
      words b.body ≠ [] ∧ Whole .rightBrace (words b.rest) := by
  have hsplit : words b.tokens = words b.head ++ b.opening.word ::
      (words b.body ++ b.closing.word :: words b.rest) := by
    rw [b.words_tokens, wrap]
    simp
  rw [hsplit] at h
  have hopening : b.opening.word.1 = .leftBrace := b.opening_kind
  have hclosing : b.closing.word.1 = .rightBrace := b.closing_kind
  have hbody := h.append.2
  rw [hopening] at hbody
  have hrest := hbody.append.2
  rw [hclosing] at hrest
  refine ⟨?_, hbody.append.1, fun hnone => ?_, hrest⟩
  · rw [← List.singleton_append, ← List.append_assoc] at h
    exact h.left
  · rw [hnone, Whole, List.nil_append, List.map_cons, List.isChain_cons_cons, hclosing] at hbody
    exact hbody.1 (.inl ⟨rfl, rfl⟩)

/-- No part of a prelude is blank if no comma has something missing beside it. -/
theorem words_ne_nil_of_splitCommas (depth : Int) (part : List Token) {k : Kind} {t : Token}
    (ht : t.kind = .leftBrace) (hk : k.mark ≠ none)
    (hwhole : Whole k (words (part.reverse ++ ts) ++ [t.word]))
    (hsome : k = .comma ∨ words (part.reverse ++ ts) ≠ []) {p : List Token}
    (hp : p ∈ splitCommas depth part ts) : words p ≠ [] := by
  induction ts generalizing k depth part with
  | nil =>
    rw [splitCommas, List.mem_singleton] at hp
    rw [List.append_nil] at hwhole hsome
    subst hp
    refine hsome.elim (fun hcomma hnone => ?_) id
    rw [hnone, Whole, List.nil_append, List.map_singleton, List.isChain_cons_cons] at hwhole
    exact hwhole.1 (.inr (.inr ⟨hcomma, ht⟩))
  | cons x ts ih =>
    rw [splitCommas] at hp
    split at hp
    · rename_i hsplit
      rw [Bool.and_eq_true, decide_eq_true_eq] at hsplit
      have hx : x.kind.mark ≠ none := by rw [hsplit.1]; decide
      rw [words_append, words_word_of_mark hx, List.append_assoc, List.cons_append] at hwhole
      rcases List.mem_cons.1 hp with rfl | hp
      · intro hnone
        rw [hnone, Whole, List.nil_append, List.map_cons, List.isChain_cons_cons] at hwhole
        exact hwhole.1 (.inr (.inl ⟨hk, hsplit.1⟩))
      · exact ih _ [] hx hwhole.append.2 (.inl hsplit.1) hp
    · rw [← List.singleton_append, ← List.append_assoc, ← List.reverse_cons] at hwhole hsome
      exact ih _ _ hk hwhole hsome hp

/-- All that is lost of a sheet is lost between marks. -/
theorem Keeps.eq_words (h : Keeps ts ws) (hcomma : ∀ t ∈ ts, t.kind = .comma → t.text = ",")
    {k : Kind} (hk : k.mark ≠ none) (hwhole : Whole k (words ts)) : ws = words ts := by
  induction h generalizing k with
  | nil => rfl
  | blank ht _ ih =>
    rw [words_blank ht] at hwhole ⊢
    exact ih (fun t ht => hcomma t (List.mem_cons_of_mem _ ht)) hk hwhole
  | @statement head rest stop ws _ hstop _ ih =>
    have hmark : stop.kind.mark ≠ none := by rw [hstop]; decide
    rw [words_append, words_word_of_mark hmark] at hwhole ⊢
    rw [List.append_assoc, List.singleton_append,
      ih (fun t ht => hcomma t (List.mem_append_right _ (List.mem_cons_of_mem _ ht))) hmark
        hwhole.append.2]
  | @group b inner ws _ _ _ ihbody ihrest =>
    obtain ⟨-, hbody, hnone, hrest⟩ := b.whole hwhole
    obtain ⟨-, hbodyComma, hrestComma⟩ := b.forall_tokens hcomma
    have hinner := ihbody hbodyComma (by decide) hbody
    rw [b.words_tokens, if_neg (by rwa [hinner]), hinner, ihrest hrestComma (by decide) hrest]
  | @block b ws _ _ _ ih =>
    obtain ⟨-, -, -, hrest⟩ := b.whole hwhole
    rw [b.words_tokens, ih (b.forall_tokens hcomma).2.2 (by decide) hrest]
  | @style b ws _ _ _ ih =>
    obtain ⟨hhead, -, -, hrest⟩ := b.whole hwhole
    obtain ⟨hheadComma, -, hrestComma⟩ := b.forall_tokens hcomma
    have hparts : b.parts = splitCommas 0 [] b.head := by
      rw [Braced.parts, List.filter_eq_self]
      intro p hp
      simpa using
        words_ne_nil_of_splitCommas 0 [] b.opening_kind hk hhead (.inr b.head_ne) hp
    have hprelude := words_splitCommas hheadComma 0 []
    rw [b.words_tokens, hparts, if_neg (splitCommas_ne_nil _ _ _), hprelude,
      ih hrestComma (by decide) hrest]
    rfl

end

/-! ### Rules and the tokens they are read from -/

/-- The tokens within a block end at the brace that closes it. -/
theorem splitClose_eq {depth : Nat} {part ts body rest : List Token}
    (h : splitClose depth part ts = some (body, rest)) :
    ∃ t, t.kind = .rightBrace ∧ part.reverse ++ ts = body ++ t :: rest := by
  fun_induction splitClose depth part ts with
  | case1 => cases h
  | case2 depth part t ts _ ih =>
    obtain ⟨x, hx, heq⟩ := ih h
    exact ⟨x, hx, by rw [← heq, List.reverse_cons, List.append_assoc]; rfl⟩
  | case3 part t ts _ ht =>
    cases h
    exact ⟨t, ht, rfl⟩
  | case4 part t ts _ _ depth ih =>
    obtain ⟨x, hx, heq⟩ := ih h
    exact ⟨x, hx, by rw [← heq, List.reverse_cons, List.append_assoc]; rfl⟩
  | case5 depth part t ts _ _ ih =>
    obtain ⟨x, hx, heq⟩ := ih h
    exact ⟨x, hx, by rw [← heq, List.reverse_cons, List.append_assoc]; rfl⟩

/-- What a block is, by its prelude. -/
inductive Braced.Reads (b : Braced) : Rule → Prop
  | group {rs : List Rule} : isGroup (textOf b.head) = true → rules b.body = .ok rs →
    b.Reads (.group (textOf b.head) rs)
  | block : isGroup (textOf b.head) = false → Text.startsWith (textOf b.head) "@" = true →
    b.Reads (.block (textOf b.head) (textOf b.body))
  | style : isGroup (textOf b.head) = false → Text.startsWith (textOf b.head) "@" = false →
    b.Reads (.style (selectors b.head) (textOf b.body))

theorem textFrom_of_words {ts : List Token} (h : words ts = []) (pending : Bool) :
    textFrom false pending ts = [] := by
  induction ts generalizing pending with
  | nil => rfl
  | cons t ts ih =>
    by_cases ht : t.kind = .blank
    · rw [words_blank ht] at h
      rw [textFrom, if_pos ht, ih h]
    · rw [words_word ht] at h
      cases h

theorem textOf_of_words {ts : List Token} (h : words ts = []) : textOf ts = [] :=
  textFrom_of_words h false

/-- The rule at the front of some tokens, after blanks: a statement or a block. -/
theorem rules_cases {ts : List Token} {rs : List Rule} (h : rules ts = .ok rs) :
    ∃ lead ts', ts = lead ++ ts' ∧ (∀ t ∈ lead, t.kind = .blank) ∧
      (ts' = [] ∧ rs = [] ∨
        (∃ head stop rest rs', ts' = head ++ stop :: rest ∧ (∀ t ∈ head, ¬ t.kind.Ends) ∧
          stop.kind = .semicolon ∧ rules rest = .ok rs' ∧ rs = .statement (textOf head) :: rs') ∨
        ∃ (b : Braced) (rule : Rule) (rs' : List Rule), ts' = b.tokens ∧ b.Reads rule ∧
          rules b.rest = .ok rs' ∧ rs = rule :: rs') := by
  refine ⟨ts.takeWhile (·.kind = .blank), ts.dropWhile (·.kind = .blank),
    List.takeWhile_append_dropWhile.symm, fun t ht => ?_, ?_⟩
  · simpa using List.mem_takeWhile_imp ht
  rw [rules] at h
  split at h
  · rename_i hnone
    cases h
    exact .inl ⟨hnone, rfl⟩
  rename_i first more hfront
  rw [hfront]
  dsimp only at h
  have hplain : ∀ t ∈ (first :: more).takeWhile (!endsPrelude ·), ¬ t.kind.Ends := by
    intro t ht
    rw [← endsPrelude_iff]
    simpa using List.mem_takeWhile_imp ht
  have hwhole := List.takeWhile_append_dropWhile (p := (!endsPrelude ·)) (l := first :: more)
  generalize (first :: more).takeWhile (!endsPrelude ·) = head at h hplain hwhole
  split at h
  · cases h
  rename_i stop after hstop
  rw [hstop] at hwhole
  have hends : stop.kind.Ends := by
    have hfirst := List.head?_dropWhile_not (!endsPrelude ·) (first :: more)
    rw [hstop] at hfirst
    rw [← endsPrelude_iff]
    simpa using hfirst
  rw [← hwhole]
  split at h
  · cases h
  rename_i hclose
  split at h
  · rename_i hsemicolon
    refine .inr (.inl ?_)
    split at h
    · cases hrest : rules after with
      | error e => rw [hrest] at h; cases h
      | ok rs' =>
        rw [hrest] at h
        cases h
        exact ⟨head, stop, after, rs', rfl, hplain, hsemicolon, hrest, rfl⟩
    · cases h
  rename_i hsemicolon
  split at h
  · cases h
  rename_i hprelude
  split at h
  · cases h
  rename_i body rest hbody
  refine .inr (.inr ?_)
  obtain ⟨closing, hclosing, hafter⟩ := splitClose_eq hbody
  rw [List.reverse_nil, List.nil_append] at hafter
  subst hafter
  have hopening : stop.kind = .leftBrace :=
    hends.resolve_right fun hor => hor.elim hsemicolon hclose
  have hhead : words head ≠ [] := fun hnone => hprelude (by rw [textOf_of_words hnone]; rfl)
  let b : Braced :=
    ⟨head, stop, body, closing, rest, hplain, hhead, hopening, hclosing, hbody⟩
  have hread : ∀ rule, b.Reads rule → (∃ rs', rules rest = .ok rs' ∧ rs = rule :: rs') →
      ∃ (b : Braced) (rule : Rule) (rs' : List Rule),
        head ++ stop :: (body ++ closing :: rest) = b.tokens ∧ b.Reads rule ∧
          rules b.rest = .ok rs' ∧ rs = rule :: rs' := by
    rintro rule hrule ⟨rs', hrs', rfl⟩
    exact ⟨b, rule, rs', rfl, hrule, hrs', rfl⟩
  have hmore : ∀ {rule : Rule}, (do return rule :: (← rules rest)) = Except.ok rs →
      ∃ rs', rules rest = .ok rs' ∧ rs = rule :: rs' := by
    intro rule hok
    cases hrest : rules rest with
    | error e => rw [hrest] at hok; cases hok
    | ok rs' =>
      rw [hrest] at hok
      cases hok
      exact ⟨rs', rfl, rfl⟩
  split at h
  · rename_i hgroup
    cases hinner : rules body with
    | error e => rw [hinner] at h; cases h
    | ok inner =>
      rw [hinner] at h
      exact hread _ (.group hgroup hinner) (hmore h)
  · rename_i hgroup
    split at h
    · rename_i hat
      exact hread _ (.block (by simpa using hgroup) hat) (hmore h)
    · rename_i hat
      exact hread _ (.style (by simpa using hgroup) (by simpa using hat)) (hmore h)

/-! ### Texts and the words they read as -/

/-- A text that reads as some words wherever it is put. -/
structure Puts (s : Text) (ws : List (Kind × Text)) : Prop where
  eq_nil : s = [] ↔ ws = []
  lexes : ∀ {u vs}, Lexes u vs → Lexes (s ++ u) (ws ++ vs)

/-- Texts that read as some words, one after another or on lines of their own. -/
structure PutsAll (parts : List Text) (ws : List (Kind × Text)) : Prop where
  eq_nil : parts = [] ↔ ws = []
  lexes : ∀ {sep : Text}, sep = [] ∨ sep = "\n" → ∀ {u vs}, Lexes u vs →
    Lexes (Text.join sep parts ++ u) (ws ++ vs)

theorem PutsAll.nil : PutsAll [] [] := ⟨by simp, fun _ _ _ h => h⟩

theorem PutsAll.cons {s : Text} {parts : List Text} {ws vs : List (Kind × Text)} (h : Puts s ws)
    (hall : PutsAll parts vs) : PutsAll (if s = [] then parts else s :: parts) (ws ++ vs) := by
  by_cases hs : s = []
  · rw [if_pos hs, h.eq_nil.1 hs]
    exact hall
  have hws : ws ≠ [] := mt h.eq_nil.2 hs
  rw [if_neg hs]
  refine ⟨by simp [hws], fun {sep} hsep {u us} hu => ?_⟩
  have hrest := hall.lexes hsep hu
  cases parts with
  | nil =>
    rw [hall.eq_nil.1 rfl, List.append_nil]
    exact h.lexes hu
  | cons p parts =>
    rw [Text.join, List.append_assoc, List.append_assoc, List.append_assoc]
    refine h.lexes ?_
    rcases hsep with rfl | rfl
    · exact hrest
    · exact hrest.cons_blank (by decide)

theorem renderAll_cons (used : List Text) (keep : Bool) (r : Rule) (rs : List Rule) :
    renderAll used keep (r :: rs) = if r.render used keep = [] then renderAll used keep rs
      else r.render used keep :: renderAll used keep rs := by
  rw [renderAll]
  split
  · rename_i hnone
    rw [if_pos hnone]
  · rename_i hsome
    rw [if_neg hsome]

section

variable {b : Braced} {tail : List Token}

theorem Braced.tokens_append (b : Braced) (tail : List Token) : b.tokens ++ tail =
    b.head ++ b.opening :: (b.body ++ b.closing :: (b.rest ++ tail)) := by
  rw [Braced.tokens]
  simp

theorem Braced.putsBefore_head (h : Steady (b.tokens ++ tail)) :
    PutsBefore '{' (textOf b.head) (words b.head) := by
  rw [b.tokens_append] at h
  exact h.putsBefore (by simp [b.mark_opening]) (k := .leftBrace) rfl

theorem Braced.steady_body (h : Steady (b.tokens ++ tail)) :
    Steady (b.body ++ b.closing :: (b.rest ++ tail)) := by
  rw [b.tokens_append] at h
  exact h.after

theorem Braced.steady_rest (h : Steady (b.tokens ++ tail)) : Steady (b.rest ++ tail) :=
  (b.steady_body h).after

theorem Braced.putsBefore_body (h : Steady (b.tokens ++ tail)) :
    PutsBefore '}' (textOf b.body) (words b.body) :=
  (b.steady_body h).putsBefore (by simp [b.mark_closing]) (k := .rightBrace) rfl

/-- A block around what reads as some words before its brace. -/
theorem Braced.puts_wrap (h : Steady (b.tokens ++ tail)) {prelude inner : Text}
    {ws us : List (Kind × Text)} (hprelude : PutsBefore '{' prelude ws)
    (hinner : PutsBefore '}' inner us) :
    Puts (prelude ++ "\x7b" ++ inner ++ "\x7d") (b.wrap ws us) := by
  have hopening : b.opening.word = (Kind.leftBrace, [('{' : UInt8)]) := by
    rw [Token.word, b.opening_kind, h.text_of_mark (by simp [Braced.tokens]) b.mark_opening]
  have hclosing : b.closing.word = (Kind.rightBrace, [('}' : UInt8)]) := by
    rw [Token.word, b.closing_kind, h.text_of_mark (by simp [Braced.tokens]) b.mark_closing]
  rw [show ("\x7b" : Text) = [('{' : UInt8)] from rfl,
    show ("\x7d" : Text) = [('}' : UInt8)] from rfl]
  refine ⟨by simp [Braced.wrap], fun {u vs} hu => ?_⟩
  have hclose := hinner (hu.mark (k := .rightBrace) rfl)
  have hopen := hprelude (hclose.mark (k := .leftBrace) rfl)
  rw [Braced.wrap, hopening, hclosing]
  simpa [List.append_assoc] using hopen

end

/-! ### Selectors -/

theorem textFrom_eq_nil {ts rest : List Token} (h : Steady (ts ++ rest)) {pending : Bool}
    (hnone : textFrom false pending ts = []) : words ts = [] := by
  induction ts generalizing pending with
  | nil => rfl
  | cons t ts ih =>
    cases h with
    | cons htext _ hsteady =>
      by_cases ht : t.kind = .blank
      · rw [textFrom, if_pos ht] at hnone
        rw [words_blank ht]
        exact ih hsteady hnone
      · rw [textFrom, if_neg ht, List.append_eq_nil_iff, List.append_eq_nil_iff] at hnone
        exact absurd hnone.1.2 (htext ht).1

theorem textOf_eq_nil_iff {ts rest : List Token} (h : Steady (ts ++ rest)) :
    textOf ts = [] ↔ words ts = [] :=
  ⟨textFrom_eq_nil h, textOf_of_words⟩

/-- Tokens before a mark. -/
def BeforeMark (ts : List Token) : Prop :=
  ∃ t rest, t.kind.mark ≠ none ∧ Steady (ts ++ t :: rest)

/-- Each part of a prelude stands before a comma or before the block. -/
theorem beforeMark_splitCommas (depth : Int) (part : List Token) {ts rest : List Token} {t : Token}
    (ht : t.kind.mark ≠ none) (h : Steady (part.reverse ++ (ts ++ t :: rest))) {p : List Token}
    (hp : p ∈ splitCommas depth part ts) : BeforeMark p := by
  induction ts generalizing depth part with
  | nil =>
    rw [splitCommas, List.mem_singleton] at hp
    rw [hp]
    exact ⟨t, rest, ht, h⟩
  | cons x ts ih =>
    rw [splitCommas] at hp
    split at hp
    · rename_i hsplit
      rw [Bool.and_eq_true, decide_eq_true_eq] at hsplit
      rcases List.mem_cons.1 hp with rfl | hp
      · exact ⟨x, _, by rw [hsplit.1]; decide, h⟩
      · exact ih _ [] h.after hp
    · refine ih _ _ ?_ hp
      rwa [List.reverse_cons, List.append_assoc]

theorem putsBefore_join {ps : List (List Token)} (hps : ∀ p ∈ ps, BeforeMark p) (hne : ps ≠ []) :
    PutsBefore '{' (Text.join "," (ps.map textOf)) ([commaWord].intercalate (ps.map words)) := by
  intro u vs hu
  induction ps with
  | nil => exact absurd rfl hne
  | cons p ps ih =>
    rw [List.forall_mem_cons] at hps
    obtain ⟨⟨t, rest, ht, hsteady⟩, hps⟩ := hps
    cases ps with
    | nil =>
      rw [List.map_singleton, List.map_singleton, Text.join, List.intercalate_singleton]
      exact hsteady.putsBefore ht (k := .leftBrace) rfl hu
    | cons q ps =>
      have hcomma : Lexes (44 :: (Text.join "," ((q :: ps).map textOf) ++ ('{' : UInt8) :: u))
          (commaWord :: ([commaWord].intercalate ((q :: ps).map words) ++ vs)) :=
        (ih hps (List.cons_ne_nil _ _)).mark (k := .comma) rfl
      rw [List.map_cons, List.map_cons, List.map_cons, List.map_cons, Text.join,
        List.intercalate_cons_cons, List.append_assoc, List.append_assoc, List.append_assoc,
        List.append_assoc]
      exact hsteady.putsBefore ht (k := .comma) rfl hcomma

theorem Braced.beforeMark {b : Braced} {tail : List Token} (h : Steady (b.tokens ++ tail)) :
    ∀ p ∈ splitCommas 0 [] b.head, BeforeMark p := by
  rw [b.tokens_append] at h
  exact fun p hp => beforeMark_splitCommas 0 [] (by simp [b.mark_opening]) h hp

theorem Braced.text_selectors {b : Braced} {tail : List Token} (h : Steady (b.tokens ++ tail)) :
    (selectors b.head).map (·.text) = b.parts.map textOf := by
  rw [selectors, List.filter_map, List.map_map, Braced.parts]
  congr 1
  apply List.filter_congr
  intro p hp
  obtain ⟨t, rest, -, hsteady⟩ := b.beforeMark h p hp
  have hiff := textOf_eq_nil_iff hsteady
  simp only [← List.isEmpty_iff] at hiff
  simp only [Function.comp_apply]
  rw [Bool.eq_iff_iff.2 hiff]

/-! ### Building -/

theorem join_nil (parts : List Text) : Text.join [] parts = parts.flatten := by
  fun_induction Text.join [] parts with
  | case1 => rfl
  | case2 t => simp
  | case3 t u r ih => rw [ih, List.append_nil]; rfl

theorem render_group (used : List Text) (keep : Bool) (head : Text) (rs : List Rule) :
    (Rule.group head rs).render used keep =
      if renderAll used keep rs = [] then []
      else (head ++ "\x7b" ++ Text.join [] (renderAll used keep rs) ++ "\x7d" : Text) := by
  rw [Rule.render, join_nil]
  split
  · rename_i hnone
    rw [if_pos hnone]
  · rename_i hsome
    rw [if_neg hsome]

theorem render_style (used : List Text) (sels : List Selector) (body : Text) :
    (Rule.style sels body).render used true =
      if sels.map (·.text) = [] then []
      else (Text.join "," (sels.map (·.text)) ++ "\x7b" ++ body ++ "\x7d" : Text) := by
  rw [Rule.render]
  simp only [Bool.true_or, List.filter_true, List.map_eq_nil_iff]
  split
  · rfl
  · rename_i hsome
    rw [if_neg hsome]

theorem puts_statement {head rest : List Token} {stop : Token} (h : Steady (head ++ stop :: rest))
    (hstop : stop.kind = .semicolon) : Puts (textOf head ++ ";") (words head ++ [stop.word]) := by
  have hmark : stop.kind.mark = some ';' := by rw [hstop]; rfl
  have hword : stop.word = (Kind.semicolon, [(';' : UInt8)]) := by
    rw [Token.word, hstop, h.text_of_mark (by simp) hmark]
  rw [show (";" : Text) = [(';' : UInt8)] from rfl, hword]
  refine ⟨by simp, fun {u us} hu => ?_⟩
  rw [List.append_assoc, List.append_assoc]
  exact h.putsBefore (by simp [hmark]) (k := .semicolon) rfl (hu.mark (k := .semicolon) rfl)

/-- What is left of a block: nothing if there is nothing in it. -/
theorem Braced.Reads.keeps (used : List Text) {b : Braced} {rule : Rule} {tail : List Token}
    (hrule : b.Reads rule) (h : Steady (b.tokens ++ tail))
    (ih : ∀ rs, rules b.body = .ok rs →
      ∃ ws, Keeps b.body ws ∧ PutsAll (renderAll used true rs) ws) :
    ∃ ws, (∀ vs, Keeps b.rest vs → Keeps b.tokens (ws ++ vs)) ∧
      Puts (rule.render used true) ws := by
  cases hrule with
  | @group rs hgroup hrules =>
    obtain ⟨inner, hkeeps, hputs⟩ := ih rs hrules
    refine ⟨_, fun vs hvs => .group hgroup hkeeps hvs, ?_⟩
    rw [render_group]
    by_cases hnone : renderAll used true rs = []
    · rw [if_pos hnone, if_pos (hputs.eq_nil.1 hnone)]
      exact ⟨by simp, id⟩
    · rw [if_neg hnone, if_neg (mt hputs.eq_nil.2 hnone)]
      exact b.puts_wrap h (b.putsBefore_head h) (hputs.lexes (.inl rfl))
  | block hgroup hat =>
    refine ⟨_, fun vs hvs => .block hgroup hat hvs, ?_⟩
    rw [Rule.render]
    exact b.puts_wrap h (b.putsBefore_head h) (b.putsBefore_body h)
  | style hgroup hat =>
    refine ⟨_, fun vs hvs => .style hgroup hat hvs, ?_⟩
    rw [render_style, b.text_selectors h]
    by_cases hnone : b.parts = []
    · rw [if_pos hnone, if_pos (by rw [hnone]; rfl)]
      exact ⟨by simp, id⟩
    · rw [if_neg hnone, if_neg (by simpa using hnone)]
      refine b.puts_wrap h (putsBefore_join (fun p hp => ?_) hnone) (b.putsBefore_body h)
      exact b.beforeMark h p (List.mem_of_mem_filter hp)

/-- What is left of the rules of a sheet reads as the words that are kept. -/
theorem keeps_of_rules (used : List Text) {ts tail : List Token} {rs : List Rule}
    (hrules : rules ts = .ok rs) (h : Steady (ts ++ tail)) :
    ∃ ws, Keeps ts ws ∧ PutsAll (renderAll used true rs) ws := by
  induction hn : ts.length using Nat.strongRecOn generalizing ts tail rs with
  | _ n ih =>
    obtain ⟨lead, ts', rfl, hlead, hcases⟩ := rules_cases hrules
    rw [List.append_assoc] at h
    have hsteady := h.of_append
    rw [List.length_append] at hn
    obtain ⟨rfl, rfl⟩ | ⟨head, stop, rest, rs', rfl, hplain, hstop, hrest, rfl⟩ |
      ⟨b, rule, rs', rfl, hrule, hrest, rfl⟩ := hcases
    · exact ⟨[], Keeps.nil.blanks hlead, PutsAll.nil⟩
    · rw [List.append_assoc, List.cons_append] at hsteady
      have hlength : (head ++ stop :: rest).length = head.length + rest.length + 1 := by
        rw [List.length_append, List.length_cons, Nat.add_assoc]
      obtain ⟨vs, hvs, hall⟩ := ih rest.length (by omega) hrest hsteady.after rfl
      refine ⟨words head ++ [stop.word] ++ vs, (Keeps.statement hplain hstop hvs).blanks hlead, ?_⟩
      rw [renderAll_cons, Rule.render]
      exact PutsAll.cons (puts_statement hsteady hstop) hall
    · have hlength : b.tokens.length = b.head.length + b.body.length + b.rest.length + 2 := by
        rw [Braced.tokens]
        simp only [List.length_append, List.length_cons]
        omega
      obtain ⟨ws, hkeeps, hputs⟩ := hrule.keeps used hsteady fun rs hinner =>
        ih b.body.length (by omega) hinner (b.steady_body hsteady) rfl
      obtain ⟨vs, hvs, hall⟩ := ih b.rest.length (by omega) hrest (b.steady_rest hsteady) rfl
      refine ⟨ws ++ vs, (hkeeps vs hvs).blanks hlead, ?_⟩
      rw [renderAll_cons]
      exact PutsAll.cons hputs hall

theorem build_of_rules {used : List Text} {keep : Bool} {style : Text} {rs : List Rule}
    (h : rulesOf style = .ok rs) :
    build used keep false style = .ok (Text.join "\n" (renderAll used keep rs)) := by
  unfold build
  split
  · rename_i hblank
    rw [rules_of_isBlank hblank h, renderAll, Text.join]
  · rw [h]
    rfl

section

variable (used : List Text) {style : Text} {ts : List Token} {rs : List Rule}
  (htokens : tokens style = .ok ts) (hrules : rules ts = .ok rs) (hapart : Apart ts)

include htokens hrules hapart

/-- A sheet of which every selector is kept is built, and its words are those that are kept: some
words of the sheet it is built from, in their order. -/
theorem build_keep : ∃ out us, build used true false style = .ok out ∧ tokens out = .ok us ∧
    Keeps ts (words us) ∧ (words us).Sublist (words ts) := by
  have hsteady := steady_of_tokensFrom htokens hapart
  have hwhole : Steady (ts ++ []) := by rwa [List.append_nil]
  obtain ⟨ws, hkeeps, hputs⟩ := keeps_of_rules used hrules hwhole
  have hlexes := hputs.lexes (.inr rfl) Lexes.nil
  rw [List.append_nil, List.append_nil] at hlexes
  obtain ⟨us, hus, rfl⟩ := hlexes.exists_tokensFrom 0
  refine ⟨_, us, build_of_rules ?_, hus, hkeeps, hkeeps.sublist fun t ht hcomma => ?_⟩
  · rw [rulesOf, htokens]
    exact hrules
  · exact hsteady.text_of_mark ht (by rw [hcomma]; rfl)

/-- Where no block is empty and no selector is missing, every word is kept. -/
theorem build_keep_whole (hwhole : Whole .semicolon (words ts)) :
    ∃ out us, build used true false style = .ok out ∧ tokens out = .ok us ∧
      words us = words ts := by
  obtain ⟨out, us, hbuild, hus, hkeeps, -⟩ := build_keep used htokens hrules hapart
  refine ⟨out, us, hbuild, hus, hkeeps.eq_words (fun t ht hcomma => ?_) (by decide) hwhole⟩
  exact (steady_of_tokensFrom htokens hapart).text_of_mark ht (by rw [hcomma]; rfl)

end

end Reactive.Css
