/-
What purging keeps.

A style rule is kept, within all the groups around it, with every selector whose
required classes are in use; and in use are the hints, the safelist, and the
words without a brace of every class attribute in the markup.

* `mem_usedClasses` — the classes in use;
* `Within` — a rule at any depth of groups;
* `build_keeps` — such a rule after purging.
-/
import Mathlib.Data.List.Infix
import Mathlib.Data.List.TakeWhile
import Reactive.Css.Sheet
import Reactive.Proofs.Dict
import Reactive.Proofs.Text.Words

namespace Reactive

theorem Text.mem_insertSorted {x y : Text} {xs : List Text} :
    y ∈ insertSorted x xs ↔ y = x ∨ y ∈ xs := by
  induction xs with
  | nil => simp [insertSorted]
  | cons z r ih =>
    rw [insertSorted]
    split
    · exact List.mem_cons
    · rw [List.mem_cons, ih, List.mem_cons]
      exact or_left_comm

@[simp] theorem Text.mem_sorted {y : Text} {xs : List Text} : y ∈ sorted xs ↔ y ∈ xs := by
  have hfold : ∀ acc : List Text,
      y ∈ xs.foldl (fun acc x => insertSorted x acc) acc ↔ y ∈ xs ∨ y ∈ acc := by
    induction xs with
    | nil => simp
    | cons x r ih =>
      intro acc
      rw [List.foldl_cons, ih, mem_insertSorted, List.mem_cons]
      exact or_left_comm.trans or_assoc.symm
  rw [sorted, hfold]
  simp

/-- A text between separators. -/
theorem Text.infix_join {sep t : Text} {ts : List Text} (h : t ∈ ts) : t <:+: join sep ts := by
  fun_induction join sep ts with
  | case1 => cases h
  | case2 u => rw [List.mem_singleton.1 h]
  | case3 u v r ih =>
    rw [List.append_assoc]
    rcases List.mem_cons.1 h with rfl | h
    · exact (List.prefix_append _ _).isInfix
    · exact (ih h).trans ((List.suffix_append _ _).trans (List.suffix_append _ _)).isInfix

/-- Every code point of a blank text is white space; so are its bytes of ASCII. -/
theorem Text.isSpace_of_isBlank {t : Text} (h : isBlank t = true) {b : UInt8} (hb : b ∈ t)
    (hascii : b < 0x80) : isSpace b.toNat = true :=
  List.all_eq_true.1 h _ (List.mem_map_of_mem (mem_pieces_of_ascii hb hascii))

namespace Css

/-! ### Classes in use -/

theorem mem_markupClasses {html c : Text} : c ∈ markupClasses html ↔
    ∃ as ∈ Html.startTags html, ∃ v, (("class" : Text), v) ∈ as ∧ c ∈ Text.fields v ∧
      '{'.toUInt8 ∉ c ∧ '}'.toUInt8 ∉ c := by
  simp only [markupClasses, List.mem_flatMap, List.mem_filter, Bool.and_eq_true,
    Bool.not_eq_true', List.contains_eq_mem, decide_eq_false_iff_not, beq_iff_eq, Prod.exists]
  constructor
  · rintro ⟨as, has, k, v, ⟨hmem, rfl⟩, hc, hopen, hclose⟩
    exact ⟨as, has, v, hmem, hc, hopen, hclose⟩
  · rintro ⟨as, has, v, hmem, hc, hopen, hclose⟩
    exact ⟨as, has, _, v, ⟨hmem, rfl⟩, hc, hopen, hclose⟩

theorem mem_usedClasses {i : Input} {c : Text} :
    c ∈ usedClasses i ↔ c ∈ markupClasses i.html ∨ c ∈ i.hints ∨ c ∈ i.safelist := by
  simp [usedClasses]

/-! ### Rules within groups -/

/-- A rule among some rules, or among the rules of a group among them. -/
inductive Within (r : Rule) : List Rule → Prop
  | here {rs : List Rule} (h : r ∈ rs) : Within r rs
  | group {rs inner : List Rule} {head : Text} (h : .group head inner ∈ rs) (hr : Within r inner) :
    Within r rs

theorem mem_renderAll {used : List Text} {keep : Bool} {r : Rule} {rs : List Rule} (h : r ∈ rs)
    (hr : r.render used keep ≠ []) : r.render used keep ∈ renderAll used keep rs := by
  induction rs with
  | nil => cases h
  | cons x rest ih =>
    rw [renderAll]
    rcases List.mem_cons.1 h with rfl | h
    · cases hx : r.render used keep with
      | nil => exact absurd hx hr
      | cons b t => exact List.mem_cons_self
    · have hrest := ih h
      split
      · exact hrest
      · exact List.mem_cons_of_mem _ hrest

/-- What is left of a rule stands in what is left of the rules around it. -/
theorem Within.infix_renderAll {used : List Text} {keep : Bool} {r : Rule} {rs : List Rule}
    (h : Within r rs) (hr : r.render used keep ≠ []) :
    ∃ part ∈ renderAll used keep rs, r.render used keep <:+: part := by
  induction h with
  | here h => exact ⟨_, mem_renderAll h hr, List.infix_rfl⟩
  | @group rs inner head h _ ih =>
    obtain ⟨part, hpart, hinfix⟩ := ih
    have hgroup : (Rule.group head inner).render used keep =
        head ++ "\x7b" ++ ((renderAll used keep inner).flatten ++ "\x7d") := by
      rw [Rule.render, ← List.append_assoc]
      cases hall : renderAll used keep inner with
      | nil => rw [hall] at hpart; cases hpart
      | cons p ps => rfl
    have hwhole : r.render used keep <:+: (Rule.group head inner).render used keep := by
      rw [hgroup]
      exact hinfix.trans ((List.infix_of_mem_flatten hpart).trans (List.infix_append' _ _ _))
    refine ⟨_, mem_renderAll h fun hnil => hr ?_, hwhole⟩
    rw [hnil] at hwhole
    exact List.eq_nil_of_infix_nil hwhole

/-! ### Blank styles -/

/-- A kind of token that ends a prelude. -/
def Kind.Ends (k : Kind) : Prop := k = .leftBrace ∨ k = .semicolon ∨ k = .rightBrace

theorem endsPrelude_iff {t : Token} : endsPrelude t = true ↔ t.kind.Ends := by
  simp [endsPrelude, Kind.Ends, or_assoc]

/-- The bytes that a blank, a comment or a mark starts with; a mark is a brace, a semicolon or a
comma.  Tokens of other kinds start with other bytes. -/
def Kind.fronts : Kind → List UInt8
  | .blank => [' ', '\t', '\n', '\r', 12]
  | .comment => ['/']
  | .leftBrace => ['{']
  | .rightBrace => ['}']
  | .semicolon => [';']
  | .comma => [',']
  | _ => []

theorem fronts_firstOf {as : List (Kind × Nat)} (h : ∀ a ∈ as, a.1.fronts = []) :
    (firstOf as).1.fronts = [] := by
  induction as with
  | nil => rfl
  | cons a r ih =>
    rw [List.forall_mem_cons] at h
    rw [firstOf]
    split
    · exact ih h.2
    · exact h.1

theorem fronts_numeric (s : Text) : (numeric s).1.fronts = [] := by
  unfold numeric
  dsimp only
  split
  · rfl
  · split
    · rfl
    · split <;> rfl

theorem fronts_closeAddress (n : Nat) (s : Text) : (closeAddress n s).1.fronts = [] := by
  unfold closeAddress
  dsimp only
  split <;> rfl

theorem fronts_identLike (s : Text) : (identLike s).1.fronts = [] := by
  have haddress : ∀ n r, (address n r).1.fronts = [] := by
    intro n r
    unfold address
    dsimp only
    split
    · exact fronts_closeAddress _ _
    · split
      · split
        · exact fronts_closeAddress _ _
        · rfl
      · split
        · exact fronts_closeAddress _ _
        · rfl
  unfold identLike
  dsimp only
  split
  · rfl
  · split
    · split
      · exact haddress _ _
      · rfl
    · rfl

/-- A blank, a comment or a mark starts with its byte. -/
theorem mem_fronts {b : UInt8} {r : Text} (h : (lengthOf b r).1.fronts ≠ []) :
    b ∈ (lengthOf b r).1.fronts := by
  unfold lengthOf at h ⊢
  dsimp only at h ⊢
  split at h
  · rename_i hblank
    rw [if_pos hblank]
    simpa [isBlank, Kind.fronts, or_assoc] using hblank
  rename_i hblank
  rw [if_neg hblank]
  split at h
  -- A mark, some other byte with a kind of its own, or the first of several attempts.
  all_goals first
    | exact List.mem_cons_self
    | exact absurd rfl h
    | exact absurd
        (fronts_firstOf (by simp +decide [fronts_numeric, fronts_identLike, attrMatch])) h
    | (split at h <;> first
        | exact absurd rfl h
        | (rename_i hstar; rw [if_pos hstar]; exact List.mem_cons_self))

/-- Only a brace or a semicolon ends a prelude. -/
theorem not_isSpace_of_ends {b : UInt8} {r : Text} (h : (lengthOf b r).1.Ends) :
    b < 0x80 ∧ Text.isSpace b.toNat = false := by
  have hfront := mem_fronts (b := b) (r := r)
  rcases h with h | h | h <;>
  · rw [h] at hfront
    rw [List.mem_singleton.1 (hfront (by decide))]
    exact ⟨by decide, by decide⟩

/-- The token at the front of a text, and the tokens of the rest. -/
theorem tokensFrom_cons {start : Nat} {b : UInt8} {r : Text} {ts : List Token}
    (h : tokensFrom start (b :: r) = .ok ts) :
    (lengthOf b r).1 ≠ .badStr ∧ (lengthOf b r).1 ≠ .badUrl ∧ ∃ rest,
      tokensFrom (start + max (lengthOf b r).2 1) (r.drop ((lengthOf b r).2 - 1)) = .ok rest ∧
      ts = (if (lengthOf b r).1 = .comment then ⟨.blank, " ", start⟩
        else ⟨(lengthOf b r).1, (b :: r).take (max (lengthOf b r).2 1), start⟩) :: rest := by
  rw [tokensFrom] at h
  dsimp only at h
  split at h
  · cases h
  · cases h
  · rename_i hstr hurl
    cases hrest : tokensFrom (start + max (lengthOf b r).2 1)
        (r.drop ((lengthOf b r).2 - 1)) with
    | error e => rw [hrest] at h; cases h
    | ok rest =>
      rw [hrest] at h
      cases h
      exact ⟨hstr, hurl, rest, rfl, rfl⟩

theorem ends_tokensFrom {start : Nat} {s : Text} {ts : List Token}
    (h : tokensFrom start s = .ok ts) {t : Token} (ht : t ∈ ts) (hends : t.kind.Ends) :
    ∃ b ∈ s, b < 0x80 ∧ Text.isSpace b.toNat = false := by
  induction hn : s.length using Nat.strongRecOn generalizing start s ts with
  | _ n ih =>
    cases s with
    | nil =>
      rw [tokensFrom] at h
      cases h
      cases ht
    | cons b r =>
      obtain ⟨-, -, rest, hrest, rfl⟩ := tokensFrom_cons h
      rcases List.mem_cons.1 ht with rfl | ht
      · split at hends
        · simp [Kind.Ends] at hends
        · exact ⟨b, List.mem_cons_self, not_isSpace_of_ends hends⟩
      · have hlt : (r.drop ((lengthOf b r).2 - 1)).length < n := by
          rw [← hn, List.length_drop, List.length_cons]
          omega
        obtain ⟨c, hc, hspace⟩ := ih _ hlt hrest ht rfl
        exact ⟨c, List.mem_cons_of_mem _ (List.mem_of_mem_drop hc), hspace⟩

/-- A blank style has no rules. -/
theorem rules_of_isBlank {style : Text} (hblank : Text.isBlank style = true) {rs : List Rule}
    (h : rulesOf style = .ok rs) : rs = [] := by
  unfold rulesOf at h
  cases htokens : tokens style with
  | error e => rw [htokens] at h; cases h
  | ok ts =>
    rw [htokens] at h
    change rules ts = .ok rs at h
    have hends : ∀ t ∈ ts, (!endsPrelude t) = true := by
      intro t ht
      rw [Bool.not_eq_true', ← Bool.not_eq_true, endsPrelude_iff]
      intro hends
      obtain ⟨b, hb, hascii, hspace⟩ := ends_tokensFrom htokens ht hends
      rw [Text.isSpace_of_isBlank hblank hb hascii] at hspace
      cases hspace
    rw [rules] at h
    split at h
    · cases h
      rfl
    · rename_i first more hfront
      -- What starts with a token that is no blank is a prelude without an end.
      have hnone : (first :: more).dropWhile (!endsPrelude ·) = [] := by
        rw [List.dropWhile_eq_nil_iff]
        intro t ht
        rw [← hfront] at ht
        exact hends t ((List.dropWhile_suffix _).subset ht)
      split at h
      · cases h
      · rename_i hstop
        rw [hnone] at hstop
        cases hstop

/-! ### Builds -/

/-- Purging keeps a style rule, at any depth of groups, with every selector whose required classes
are in use. -/
theorem build_keeps {used : List Text} {style : Text} {rs : List Rule} {sels : List Selector}
    {body : Text} (hrules : rulesOf style = .ok rs) (hrule : Within (.style sels body) rs) :
    ∃ out, build used false false style = .ok out ∧
      ∀ sel ∈ sels, (∀ c ∈ sel.classes, c ∈ used) → ∃ kept : List Selector,
        kept.Sublist sels ∧ sel ∈ kept ∧
          (Text.join "," (kept.map (·.text)) ++ "\x7b" ++ body ++ "\x7d" : Text) <:+: out := by
  have hblank : Text.isBlank style = false := by
    rw [← Bool.not_eq_true]
    intro hblank
    rw [rules_of_isBlank hblank hrules] at hrule
    cases hrule with
    | here h => cases h
    | group h _ => cases h
  refine ⟨Text.join "\n" (renderAll used false rs), ?_, fun sel hsel hused => ?_⟩
  · simp [build, hblank, hrules]
  have hkept : sel ∈ sels.filter fun s => false || s.isUsed used := by
    rw [List.mem_filter]
    exact ⟨hsel, by simpa [Selector.isUsed] using hused⟩
  have hrender : (Rule.style sels body).render used false =
      Text.join "," ((sels.filter fun s => false || s.isUsed used).map (·.text)) ++ "\x7b" ++
        body ++ "\x7d" := by
    rw [Rule.render]
    cases hsels : sels.filter fun s => false || s.isUsed used with
    | nil => rw [hsels] at hkept; cases hkept
    | cons s r => rfl
  have hsome : (Rule.style sels body).render used false ≠ [] := by
    rw [hrender]
    exact List.append_ne_nil_of_right_ne_nil _ (by decide)
  obtain ⟨part, hpart, hinfix⟩ := hrule.infix_renderAll hsome
  refine ⟨_, List.filter_sublist, hkept, ?_⟩
  rw [← hrender]
  exact hinfix.trans (Text.infix_join hpart)

end Css

end Reactive
