/-
Template tokens tile their source.

Every token is written as its value between marks and blanks of its own
(`Written`).  So written, the tokens of a template stand in it one after
another, and nothing else stands between them but blanks inside a tag.

* `Written` — what stands around the value of a token of a kind;
* `follows_nextToken` — the next token is read at the front of a text, or after
  blanks inside a tag;
* `tiles_scan` — what is read tiles what it is read from;
* `Token.tiles_source` — the tokens of a template tile it.
-/
import Mathlib.Tactic.SplitIfs
import Reactive.Template.Lexer

namespace Reactive

/-! ### Places in a text -/

namespace Text

theorem eq_append_of_startsWith {s p : Text} (h : startsWith s p = true) :
    s = p ++ s.drop p.length := by
  obtain ⟨r, rfl⟩ := List.isPrefixOf_iff_prefix.1 h
  rw [List.drop_left]

theorem indexOf?_spec {p t : Text} {i : Nat} (h : indexOf? p t = some i) :
    ∃ u w, t = u ++ (p ++ w) ∧ u.length = i := by
  induction t generalizing i with
  | nil =>
    rw [indexOf?] at h
    split at h <;> cases h
    rename_i hp
    exact ⟨[], [], by rw [List.isEmpty_iff.1 hp]; rfl, rfl⟩
  | cons b t ih =>
    rw [indexOf?] at h
    split at h
    · rename_i hp
      cases h
      exact ⟨[], _, eq_append_of_startsWith hp, rfl⟩
    · obtain ⟨j, hj, rfl⟩ := Option.map_eq_some_iff.1 h
      obtain ⟨u, w, rfl, rfl⟩ := ih hj
      exact ⟨b :: u, w, rfl, rfl⟩

theorem indexOfByte?_spec {b : UInt8} {t : Text} {i : Nat} (h : indexOfByte? b t = some i) :
    ∃ u w, t = u ++ b :: w ∧ u.length = i ∧ b ∉ u := by
  induction t generalizing i with
  | nil => cases h
  | cons c t ih =>
    rw [indexOfByte?] at h
    split at h
    · rename_i hc
      cases h
      exact ⟨[], t, by rw [hc]; rfl, rfl, List.not_mem_nil⟩
    · rename_i hc
      obtain ⟨j, hj, rfl⟩ := Option.map_eq_some_iff.1 h
      obtain ⟨u, w, rfl, rfl, hout⟩ := ih hj
      refine ⟨c :: u, w, rfl, rfl, fun hmem => ?_⟩
      rcases List.mem_cons.1 hmem with hmem | hmem
      · exact hc hmem.symm
      · exact hout hmem

end Text

namespace Template

open Scanner Text

/-! ### Inside and outside of tags -/

/-- The kinds of tokens that stand only inside a tag. -/
def TokenKind.isTagOnly : TokenKind → Bool
  | .name | .equals | .string | .template | .tagEnd | .selfClose => true
  | _ => false

/-- Whether what follows a token lies inside a tag, if `inTag` says so of the token. -/
def TokenKind.leavesInTag (inTag : Bool) : TokenKind → Bool
  | .tagOpen | .tagCloseOpen => true
  | .tagEnd | .selfClose => false
  | _ => inTag

/-- Whether what follows some tokens lies inside a tag: after its opening mark, and before the next
mark that ends a tag.  Their front lies inside one if `inTag` says so. -/
def Token.inTagFrom (inTag : Bool) (ts : List Token) : Bool :=
  ts.foldl (fun inTag t => t.kind.leavesInTag inTag) inTag

/-- Whether what follows the first tokens of a template lies inside a tag. -/
def Token.inTag (ts : List Token) : Bool := Token.inTagFrom false ts

/-- A kind of token may stand inside a tag, or outside; an expression may stand in both. -/
def TokenKind.StandsIn (inTag : Bool) (kind : TokenKind) : Prop :=
  kind.isTagOnly = inTag ∨ kind = .expr

/-- What is being read lies inside a tag. -/
def Scanner.ScanMode.inTag : ScanMode → Bool
  | .data | .raw .. => false
  | .tag _ => true

/-! ### How tokens are written -/

/-- Nothing but blanks that may stand around the text of a brace run. -/
def Edges (s : Text) : Prop := ∀ b ∈ s, isEdge b = true

/-- A token of a kind is written as `before`, its value and `after`. -/
inductive Written : TokenKind → (before value after : Text) → Prop where
  | tagOpen : Written .tagOpen [] "<" []
  | tagCloseOpen : Written .tagCloseOpen [] "</" []
  | tagEnd : Written .tagEnd [] ">" []
  | selfClose : Written .selfClose [] "/>" []
  | equals : Written .equals [] "=" []
  | name {v} : v ≠ [] → Written .name [] v []
  | bare {v} : v ≠ [] → Written .string [] v []
  | quoted {q : UInt8} {v} : q = '"' ∨ q = '\'' → q ∉ v → Written .string [q] v [q]
  | template {v} : Written .template [] ('`' :: (v ++ [('`' : UInt8)])) []
  | text {v} : v ≠ [] → Written .text [] v []
  | raw {v} : v ≠ [] → Written .raw [] v []
  | comment {v} : Written .comment "<!--" v "-->"
  | expr {l v r} : Edges l → Edges r → Written .expr ('{' :: l) v (r ++ [('}' : UInt8)])
  | ifOpen {l m v r} : Edges l → Edges m → Edges r →
      Written .ifOpen ('{' :: (l ++ ("#if" ++ m))) v (r ++ [('}' : UInt8)])
  | eachOpen {l m v r} : Edges l → Edges m → Edges r →
      Written .eachOpen ('{' :: (l ++ ("#each" ++ m))) v (r ++ [('}' : UInt8)])
  | elseIf {l m n v r} : Edges l → Edges m → Edges n → Edges r →
      Written .elseIf ('{' :: (l ++ (":else" ++ (m ++ ("if" ++ n))))) v (r ++ [('}' : UInt8)])
  | else_ {l m r} : Edges l → Edges m → Edges r →
      Written .else_ ('{' :: (l ++ (":else" ++ m))) [] (r ++ [('}' : UInt8)])
  | ifClose {l r} : Edges l → Edges r → Written .ifClose ('{' :: l) [] ("/if" ++ (r ++ [('}' : UInt8)]))
  | eachClose {l r} : Edges l → Edges r →
      Written .eachClose ('{' :: l) [] ("/each" ++ (r ++ [('}' : UInt8)]))

/-- A token is spelled by a text that starts where the token does. -/
def Token.Spelled (t : Token) (lexeme : Text) : Prop :=
  ∃ before after, lexeme = before ++ (t.value ++ after) ∧ t.valueStart = t.start + before.length ∧
    Written t.kind before t.value after

theorem Written.ne_nil {kind : TokenKind} {before value after : Text}
    (h : Written kind before value after) : before ++ (value ++ after) ≠ [] := by
  cases h with
  | name hv | bare hv | text hv | raw hv => simpa using hv
  | comment => exact fun h => absurd (List.append_eq_nil_iff.1 h).1 (by decide)
  | _ => exact List.cons_ne_nil _ _

/-! ### Brace runs and template literals -/

theorem suffix_of_afterString? {quote : UInt8} {s r : Text} (h : afterString? quote s = some r) :
    r <:+ s := by
  fun_induction afterString? quote s with
  | case1 a r ih => exact (ih h).trans ⟨[92, a], rfl⟩
  | case2 => cases h
  | case3 b =>
    cases h
    exact List.suffix_cons _ _
  | case4 => cases h
  | case5 b r _ _ _ _ ih => exact (ih h).trans (List.suffix_cons b r)
  | case6 => cases h

/-- What follows a template literal and a brace run is what stands after a backtick and after a brace. -/
theorem ends_suffix (stop n : Nat) :
    (∀ {start : Nat} {s t : Text} {h : t.length < s.length}, s.length < n →
      afterTemplate stop start s = .ok ⟨t, h⟩ → 96 :: t <:+ s) ∧
    ∀ {start depth : Nat} {s t : Text} {h : t.length < s.length}, s.length < n →
      afterBraces stop start depth s = .ok ⟨t, h⟩ → 125 :: t <:+ s := by
  induction n with
  | zero => exact ⟨fun hn => absurd hn (Nat.not_lt_zero _), fun hn => absurd hn (Nat.not_lt_zero _)⟩
  | succ n ih =>
    obtain ⟨ticks, braces⟩ := ih
    have under : ∀ {b : UInt8} {r u : Text}, u.length ≤ r.length → (b :: r).length < n + 1 →
        u.length < n := by
      intro b r u hu hn
      rw [List.length_cons] at hn
      omega
    constructor
    · intro start s t h hn hs
      cases s with
      | nil => exact absurd h (Nat.not_lt_zero _)
      | cons b r =>
        have hdrop : (r.drop 1).length ≤ r.length := by rw [List.length_drop]; omega
        have hout : r.drop 1 <:+ b :: r := (List.drop_suffix 1 r).trans (List.suffix_cons b r)
        rw [afterTemplate] at hs
        split at hs
        · rename_i hb
          cases hs
          exact ⟨[], by rw [hb]; rfl⟩
        split at hs
        · split at hs <;> cases hs
          rename_i hr
          exact (ticks (under hdrop hn) hr).trans hout
        split at hs
        · split at hs
          · cases hs
          rename_i u hu hbraces
          split at hs <;> cases hs
          rename_i hr
          have hu' := (List.suffix_cons _ _).trans (braces (under hdrop hn) hbraces)
          exact ((ticks (under (Nat.le_of_lt (Nat.lt_of_lt_of_le hu hdrop)) hn) hr).trans hu').trans hout
        · split at hs <;> cases hs
          rename_i hr
          exact (ticks (under (Nat.le_refl _) hn) hr).trans (List.suffix_cons b r)
    · intro start depth s t h hn hs
      cases s with
      | nil => exact absurd h (Nat.not_lt_zero _)
      | cons b r =>
        rw [afterBraces] at hs
        split at hs
        · split at hs <;> cases hs
          rename_i hr
          exact (braces (under (Nat.le_refl _) hn) hr).trans (List.suffix_cons b r)
        split at hs
        · rename_i hb
          split at hs
          · cases hs
            exact ⟨[], by rw [hb]; rfl⟩
          split at hs <;> cases hs
          rename_i hr
          exact (braces (under (Nat.le_refl _) hn) hr).trans (List.suffix_cons b r)
        split at hs
        · split at hs
          · cases hs
          rename_i u hu
          simp only at hs
          split at hs <;> cases hs
          rename_i hr
          have hlt := Nat.le_of_lt (length_afterString? hu)
          exact ((braces (under hlt hn) hr).trans (suffix_of_afterString? hu)).trans
            (List.suffix_cons b r)
        split at hs
        · split at hs
          · cases hs
          rename_i u hu hticks
          split at hs <;> cases hs
          rename_i hr
          have hu' := (List.suffix_cons _ _).trans (ticks (under (Nat.le_refl _) hn) hticks)
          exact ((braces (under (Nat.le_of_lt hu) hn) hr).trans hu').trans (List.suffix_cons b r)
        · split at hs <;> cases hs
          rename_i hr
          exact (braces (under (Nat.le_refl _) hn) hr).trans (List.suffix_cons b r)

/-- A brace run is what stands before its closing brace. -/
theorem brace_run {stop start depth : Nat} {r rest : Text} {h : rest.length < r.length}
    (hs : afterBraces stop start depth r = .ok ⟨rest, h⟩) :
    r = r.take (r.length - rest.length - 1) ++ 125 :: rest := by
  obtain ⟨inner, rfl⟩ := (ends_suffix stop (r.length + 1)).2 (Nat.lt_succ_self _) hs
  have hlen : (inner ++ 125 :: rest).length - rest.length - 1 = inner.length := by
    rw [List.length_append, List.length_cons]
    omega
  rw [hlen, List.take_left]

/-- A template literal is what stands up to its closing backtick. -/
theorem tick_run {stop start : Nat} {b : UInt8} {r rest : Text} {h : rest.length < r.length}
    (hs : afterTemplate stop start r = .ok ⟨rest, h⟩) :
    ∃ inner, b :: r = b :: (inner ++ [96]) ++ rest ∧
      (b :: r).take ((b :: r).length - rest.length) = b :: (inner ++ [96]) := by
  obtain ⟨inner, rfl⟩ := (ends_suffix stop (r.length + 1)).1 (Nat.lt_succ_self _) hs
  refine ⟨inner, by simp only [List.cons_append, List.append_assoc, List.nil_append], ?_⟩
  rw [List.append_cons, ← List.cons_append]
  refine List.take_left' ?_
  rw [List.length_append, Nat.add_sub_cancel]

/-! ### The text of a brace run -/

theorem edges_takeWhile (s : Text) : Edges (s.takeWhile isEdge) :=
  List.all_eq_true.1 List.all_takeWhile

/-- A text is trimmed of blanks at its ends. -/
theorem trimmed_spec {s v : Text} {at_ at' : Nat} (h : trimmed s at_ = (v, at')) :
    ∃ l r, s = l ++ (v ++ r) ∧ Edges l ∧ Edges r ∧ at' = at_ + l.length := by
  obtain ⟨rfl, rfl⟩ := Prod.mk.inj h
  refine ⟨s.takeWhile isEdge, ((s.dropWhile isEdge).reverse.takeWhile isEdge).reverse, ?_,
    edges_takeWhile s, ?_, ?_⟩
  · rw [← List.reverse_append, List.takeWhile_append_dropWhile, List.reverse_reverse,
      List.takeWhile_append_dropWhile]
  · intro b hb
    exact edges_takeWhile _ b (List.mem_reverse.1 hb)
  · have hlen := congrArg List.length (List.takeWhile_append_dropWhile (p := isEdge) (l := s))
    rw [List.length_append] at hlen
    omega

theorem eq_append_of_hasWord {s word : Text} (h : hasWord s word = true) :
    s = word ++ s.drop word.length :=
  eq_append_of_startsWith (Bool.and_eq_true_iff.1 h).1

/-- What follows a word, trimmed. -/
theorem after_word {s word v : Text} {at_ at' : Nat} (hword : hasWord s word = true)
    (hv : trimmed (s.drop word.length) (at_ + word.length) = (v, at')) :
    ∃ m n, s = word ++ (m ++ (v ++ n)) ∧ Edges m ∧ Edges n ∧ at' = at_ + word.length + m.length := by
  obtain ⟨m, n, htext, hm, hn, hat⟩ := trimmed_spec hv
  refine ⟨m, n, ?_, hm, hn, hat⟩
  rw [← htext]
  exact eq_append_of_hasWord hword

theorem Edges.append {s s' : Text} (h : Edges s) (h' : Edges s') : Edges (s ++ s') := by
  intro b hb
  rcases List.mem_append.1 hb with hb | hb
  · exact h b hb
  · exact h' b hb

/-- An expression is spelled by its brace run. -/
theorem spelled_expr {start at_ : Nat} {inner v : Text} (h : trimmed inner (start + 1) = (v, at_)) :
    (⟨.expr, v, start, at_⟩ : Token).Spelled ('{' :: (inner ++ [('}' : UInt8)])) := by
  obtain ⟨l, r, rfl, hl, hr, rfl⟩ := trimmed_spec h
  refine ⟨_, _, ?_, ?_, .expr hl hr⟩
  · simp only [List.append_assoc, List.cons_append]
  · simp only [List.length_cons]
    omega

section

variable {kind : TokenKind} {word body l r v : Text} {start at_ : Nat}

/-- A directive is spelled by its brace run: its word at the front, then its value. -/
theorem spelled_directive (written : ∀ {m n}, Edges m → Edges n →
      Written kind ('{' :: (l ++ (word ++ m))) v (n ++ [('}' : UInt8)]))
    (hr : Edges r) (hword : hasWord body word = true)
    (hv : trimmed (body.drop word.length) (start + 1 + l.length + word.length) = (v, at_)) :
    (⟨kind, v, start, at_⟩ : Token).Spelled ('{' :: (l ++ (body ++ r) ++ [('}' : UInt8)])) := by
  obtain ⟨m, n, rfl, hm, hn, rfl⟩ := after_word hword hv
  refine ⟨_, _, ?_, ?_, written hm (hn.append hr)⟩
  · simp only [List.append_assoc, List.cons_append]
  · simp only [List.length_cons, List.length_append]
    omega

/-- A closing directive is spelled by its brace run: its word stands after its empty value. -/
theorem spelled_closing (written : ∀ {n}, Edges n →
      Written kind ('{' :: l) [] (word ++ (n ++ [('}' : UInt8)])))
    (hr : Edges r) (hword : hasWord body word = true)
    (hv : trimmed (body.drop word.length) (start + 1 + l.length + word.length) = ([], at_)) :
    (⟨kind, [], start, start + 1 + l.length⟩ : Token).Spelled
      ('{' :: (l ++ (body ++ r) ++ [('}' : UInt8)])) := by
  obtain ⟨m, n, rfl, hm, hn, -⟩ := after_word hword hv
  refine ⟨_, _, ?_, ?_, written ((hm.append hn).append hr)⟩
  · simp only [List.append_assoc, List.cons_append, List.nil_append]
  · simp only [List.length_cons]
    omega

end

/-- The token of a brace run is spelled by the run, and leaves the template outside of tags. -/
theorem braceToken_spec {start : Nat} {inner : Text} {t : Token}
    (h : braceToken start inner = .ok t) :
    t.start = start ∧ t.Spelled ('{' :: (inner ++ [('}' : UInt8)])) ∧ t.kind.isTagOnly = false ∧
      t.kind.leavesInTag false = false := by
  obtain ⟨body, at_, hbody⟩ : ∃ body at_, trimmed inner (start + 1) = (body, at_) := ⟨_, _, rfl⟩
  have hexpr : (Except.ok ⟨.expr, body, start, at_⟩ : Except LexError Token) = .ok t →
      t.start = start ∧ t.Spelled ('{' :: (inner ++ [('}' : UInt8)])) ∧
        t.kind.isTagOnly = false ∧ t.kind.leavesInTag false = false := by
    rintro ⟨⟩
    exact ⟨rfl, spelled_expr hbody, rfl, rfl⟩
  obtain ⟨l, r, rfl, hl, hr, rfl⟩ := trimmed_spec hbody
  rw [braceToken, hbody] at h
  simp only at h
  by_cases hopen : hasWord body "#if"
  · rw [if_pos hopen] at h
    cases h
    exact ⟨rfl, spelled_directive (.ifOpen hl) hr hopen rfl, rfl, rfl⟩
  rw [if_neg hopen] at h
  by_cases heach : hasWord body "#each"
  · rw [if_pos heach] at h
    cases h
    exact ⟨rfl, spelled_directive (.eachOpen hl) hr heach rfl, rfl, rfl⟩
  rw [if_neg heach] at h
  by_cases helse : hasWord body ":else"
  · rw [if_pos helse] at h
    obtain ⟨rest, at_, hrest⟩ : ∃ rest at_,
      trimmed (body.drop 5) (start + 1 + l.length + 5) = (rest, at_) := ⟨_, _, rfl⟩
    rw [hrest] at h
    simp only at h
    split at h
    · -- `:else if`, whose value stands after the second word
      rename_i hif
      obtain ⟨m, n, rfl, hm, hn, rfl⟩ := after_word helse hrest
      obtain ⟨v, at_, hv⟩ : ∃ v at_, trimmed (rest.drop 2)
        (start + 1 + l.length + (":else" : Text).length + m.length + 2) = (v, at_) := ⟨_, _, rfl⟩
      rw [hv] at h
      obtain ⟨m', n', rfl, hm', hn', rfl⟩ := after_word hif hv
      cases h
      refine ⟨rfl, ⟨_, _, ?_, ?_, .elseIf hl hm hm' ((hn'.append hn).append hr)⟩, rfl, rfl⟩
      · simp only [List.append_assoc, List.cons_append]
      · simp only [List.length_cons, List.length_append]
        omega
    split at h <;> cases h
    rename_i hempty
    rw [List.isEmpty_iff.1 hempty] at hrest
    exact ⟨rfl, spelled_directive (.else_ hl) hr helse hrest, rfl, rfl⟩
  rw [if_neg helse] at h
  by_cases hif : hasWord body "/if"
  · rw [if_pos hif] at h
    split at h <;> cases h
    rename_i hempty
    exact ⟨rfl, spelled_closing (.ifClose hl) hr hif (Prod.ext (List.isEmpty_iff.1 hempty) rfl),
      rfl, rfl⟩
  rw [if_neg hif] at h
  by_cases heach : hasWord body "/each"
  · rw [if_pos heach] at h
    split at h <;> cases h
    rename_i hempty
    exact ⟨rfl, spelled_closing (.eachClose hl) hr heach (Prod.ext (List.isEmpty_iff.1 hempty) rfl),
      rfl, rfl⟩
  rw [if_neg heach] at h
  split at h
  · split at h
    · cases h
    · exact hexpr h
  · exact hexpr h

/-! ### One token -/

/-- A step reads a token at the front of a text, inside or outside of a tag. -/
def Scanner.Step.Reads (stop : Nat) (inTag : Bool) (s : Text) {n : Nat} (step : Step n) : Prop :=
  ∃ lexeme, s = lexeme ++ step.rest ∧ step.token.start = offset stop s ∧ step.token.Spelled lexeme ∧
    step.token.kind.StandsIn inTag ∧ step.mode.inTag = step.token.kind.leavesInTag inTag

theorem reads_stepBy {stop n valueAt : Nat} {kind : TokenKind} {value before after : Text}
    {mode : ScanMode} {b : UInt8} {r : Text} {inTag : Bool} (written : Written kind before value after)
    (hlexeme : (b :: r).take (n + 1) = before ++ (value ++ after))
    (hat : valueAt = offset stop (b :: r) + before.length) (hkind : kind.StandsIn inTag)
    (hmode : mode.inTag = kind.leavesInTag inTag) :
    (stepBy stop kind n value valueAt mode b r).Reads stop inTag (b :: r) :=
  ⟨(b :: r).take (n + 1), (List.take_append_drop (n + 1) (b :: r)).symm, rfl,
    ⟨before, after, hlexeme, hat, written⟩, hkind, hmode⟩

theorem reads_dataToken {stop : Nat} {b : UInt8} {r : Text} {step : Step (b :: r).length}
    (h : dataToken stop b r = .ok step) : step.Reads stop false (b :: r) := by
  rw [dataToken.eq_def] at h
  simp only at h
  split_ifs at h with hcomment hclose hopen hbrace
  · split at h <;> cases h
    rename_i i hi
    refine reads_stepBy .comment ?_ rfl (.inl rfl) rfl
    have hs := eq_append_of_startsWith hcomment
    obtain ⟨u, w, hu, rfl⟩ := indexOf?_spec hi
    rw [hu, List.take_left]
    rw [show (ofString "<!--").length = 4 from rfl, hu] at hs
    rw [hs, ← List.append_assoc u, ← List.append_assoc ("<!--" : Text)]
    refine List.take_left' ?_
    simp only [List.length_append]
    exact Nat.add_comm 4 (u.length + 3)
  · cases h
    refine reads_stepBy .tagCloseOpen ?_ rfl (.inl rfl) rfl
    obtain ⟨hb, hr⟩ := Bool.and_eq_true_iff.1 hclose
    rw [of_decide_eq_true hb]
    split at hr
    · rfl
    · cases hr
  · cases h
    refine reads_stepBy .tagOpen ?_ rfl (.inl rfl) rfl
    rw [of_decide_eq_true (Bool.and_eq_true_iff.1 hopen).1]
    rfl
  · split at h
    · cases h
    rename_i rest hrest hrun
    split at h <;> cases h
    rename_i t ht
    obtain ⟨hstart, hspelled, hkind, hleaves⟩ := braceToken_spec ht
    refine ⟨_, ?_, hstart, hspelled, .inl hkind, hleaves.symm⟩
    rw [hbrace, List.cons_append, List.append_assoc]
    exact congrArg _ (brace_run hrun)
  · cases h
    exact reads_stepBy (.text (List.cons_ne_nil _ _)) (List.append_nil _).symm rfl (.inl rfl) rfl

theorem reads_tagToken {stop : Nat} {tag : Tag} {b : UInt8} {r : Text} {step : Step (b :: r).length}
    (h : tagToken stop tag b r = .ok step) : step.Reads stop true (b :: r) := by
  rw [tagToken] at h
  simp only at h
  by_cases hend : b = '>'
  · rw [if_pos hend] at h
    cases h
    refine reads_stepBy .tagEnd ?_ rfl (.inl rfl) ?_
    · rw [hend]
      rfl
    · split <;> rfl
  rw [if_neg hend] at h
  by_cases hself : startsWith (b :: r) "/>"
  · rw [if_pos hself] at h
    cases h
    refine reads_stepBy .selfClose ?_ rfl (.inl rfl) rfl
    rw [eq_append_of_startsWith hself]
    rfl
  rw [if_neg hself] at h
  by_cases hequals : b = '='
  · rw [if_pos hequals] at h
    cases h
    refine reads_stepBy .equals ?_ rfl (.inl rfl) rfl
    rw [hequals]
    rfl
  rw [if_neg hequals] at h
  by_cases hquote : (b = '"' || b = '\'') = true
  · rw [if_pos hquote] at h
    split at h <;> cases h
    rename_i i hi
    obtain ⟨u, w, rfl, rfl, hout⟩ := indexOfByte?_spec hi
    rw [List.take_left]
    refine reads_stepBy (.quoted ?_ hout) ?_ rfl (.inl rfl) rfl
    · simpa using hquote
    · rw [List.take_succ_cons, List.append_cons]
      exact congrArg _ (List.take_left' List.length_append)
  rw [if_neg hquote] at h
  by_cases htick : b = '`'
  · rw [if_pos htick] at h
    split at h <;> cases h
    rename_i rest hrest hrun
    obtain ⟨inner, hr, hlexeme⟩ := tick_run (b := b) hrun
    refine ⟨_, hr, rfl, ⟨[], [], ?_, rfl, ?_⟩, .inl rfl, rfl⟩
    · rw [List.append_nil]
      exact hlexeme.symm
    · change Written .template [] ((b :: r).take ((b :: r).length - rest.length)) []
      rw [hlexeme, htick]
      exact .template
  rw [if_neg htick] at h
  by_cases hbrace : b = '{'
  · rw [if_pos hbrace] at h
    split at h <;> cases h
    rename_i rest hrest hrun
    refine ⟨_, ?_, rfl, spelled_expr rfl, .inr rfl, rfl⟩
    rw [hbrace, List.cons_append, List.append_assoc]
    exact congrArg _ (brace_run hrun)
  rw [if_neg hbrace] at h
  split at h
  · cases h
  split at h
  · cases h
    exact reads_stepBy (.bare (List.cons_ne_nil _ _)) (List.append_nil _).symm rfl (.inl rfl) rfl
  · cases h
    exact reads_stepBy (.name (List.cons_ne_nil _ _)) (List.append_nil _).symm rfl (.inl rfl) rfl

/-- What the next token is read from: blanks inside a tag, and then its lexeme. -/
theorem skipBlanks_spec (s : Text) :
    ∃ gap, s = gap ++ skipBlanks s ∧ ∀ b ∈ gap, isMarkupBlank b = true := by
  induction s with
  | nil => exact ⟨[], rfl, fun b hb => absurd hb List.not_mem_nil⟩
  | cons b r ih =>
    rw [skipBlanks]
    split
    · rename_i hb
      obtain ⟨gap, hr, hgap⟩ := ih
      refine ⟨b :: gap, congrArg _ hr, fun c hc => ?_⟩
      rcases List.mem_cons.1 hc with rfl | hc
      · exact hb
      · exact hgap c hc
    · exact ⟨[], rfl, fun b hb => absurd hb List.not_mem_nil⟩

theorem reads_rawToken {stop start : Nat} {tag s : Text} {step : Step s.length}
    (h : rawToken stop tag start s = .ok (some step)) : step.Reads stop false s := by
  rw [rawToken] at h
  split at h
  · cases h
  · cases h
  · split at h
    · split at h <;> cases h
      exact reads_stepBy (.raw (List.cons_ne_nil _ _)) (List.append_nil _).symm rfl (.inl rfl) rfl
    · cases h

/-- What comes next: a token at the front of a text, or after blanks there if it lies inside a tag;
or nothing at the end, which lies outside of tags. -/
def Scanner.Follows (stop : Nat) (inTag : Bool) (s : Text) {n : Nat} : Option (Step n) → Prop
  | none => s = [] ∧ inTag = false
  | some step => ∃ gap s', s = gap ++ s' ∧ (∀ b ∈ gap, inTag = true ∧ isMarkupBlank b = true) ∧
      step.Reads stop inTag s'

theorem Scanner.Step.Reads.follows {stop n : Nat} {inTag : Bool} {s : Text} {step : Step n}
    (h : step.Reads stop inTag s) : Follows stop inTag s (some step) :=
  ⟨[], s, rfl, fun _ hb => absurd hb List.not_mem_nil, h⟩

theorem follows_data {stop : Nat} {s : Text} {next : Option (Step s.length)}
    (h : nextToken stop .data s = .ok next) : Follows stop false s next := by
  match s with
  | [] =>
    cases h
    exact ⟨rfl, rfl⟩
  | b :: r =>
    change (dataToken stop b r).map some = .ok next at h
    cases hdata : dataToken stop b r with
    | error e =>
      rw [hdata] at h
      cases h
    | ok step =>
      rw [hdata] at h
      cases h
      exact (reads_dataToken hdata).follows

theorem nextToken_raw (stop : Nat) (tag : Text) (start : Nat) (s : Text) :
    nextToken stop (.raw tag start) s = match rawToken stop tag start s with
      | .error e => .error e
      | .ok (some step) => .ok (some step)
      | .ok none => nextToken stop .data s := rfl

theorem follows_nextToken {stop : Nat} {mode : ScanMode} {s : Text} {next : Option (Step s.length)}
    (h : nextToken stop mode s = .ok next) : Follows stop mode.inTag s next := by
  cases mode with
  | data => exact follows_data h
  | raw tag start =>
    rw [nextToken_raw] at h
    split at h
    · cases h
    · cases h
      rename_i hraw
      exact (reads_rawToken hraw).follows
    · exact follows_data h
  | tag t =>
    obtain ⟨gap, hs, hgap⟩ := skipBlanks_spec s
    rw [nextToken] at h
    split at h
    · cases h
    · rename_i b r hbr
      split at h <;> cases h
      rename_i htag
      rw [hbr] at hs
      exact ⟨gap, b :: r, hs, fun b hb => ⟨rfl, hgap b hb⟩, reads_tagToken htag⟩

/-! ### A whole template -/

/-- Tokens and their lexemes tile a suffix of a template of `stop` bytes: one lexeme follows the
other, and only blanks inside a tag stand between them. -/
inductive Tiles (stop : Nat) : Bool → Text → List (Token × Text) → Prop where
  | done : Tiles stop false [] []
  | tile {inTag : Bool} {gap lexeme rest : Text} {t : Token} {tiles : List (Token × Text)} :
      (∀ b ∈ gap, inTag = true ∧ isMarkupBlank b = true) →
      t.start = offset stop (lexeme ++ rest) → t.Spelled lexeme → t.kind.StandsIn inTag →
      Tiles stop (t.kind.leavesInTag inTag) rest tiles →
      Tiles stop inTag (gap ++ (lexeme ++ rest)) ((t, lexeme) :: tiles)

/-- What is read tiles what it is read from. -/
theorem tiles_scan {stop : Nat} {mode : ScanMode} {s : Text} {ts : List Token}
    (h : Token.scan stop mode s = .ok ts) :
    ∃ tiles, tiles.map Prod.fst = ts ∧ Tiles stop mode.inTag s tiles := by
  fun_induction Token.scan stop mode s generalizing ts with
  | case1 => cases h
  | case2 mode s hnext =>
    cases h
    obtain ⟨rfl, hmode⟩ := follows_nextToken hnext
    rw [hmode]
    exact ⟨[], rfl, .done⟩
  | case3 => cases h
  | case4 mode s token mode' rest _ hnext ts' hts ih =>
    cases h
    obtain ⟨tiles, rfl, htiles⟩ := ih hts
    obtain ⟨gap, s', hs, hgap, lexeme, hs', hstart, hspelled, hkind, hmode⟩ := follows_nextToken hnext
    simp only at hs' hstart hspelled hkind hmode
    rw [hmode] at htiles
    rw [hs'] at hs hstart
    rw [hs]
    exact ⟨(token, lexeme) :: tiles, rfl, .tile hgap hstart hspelled hkind htiles⟩

/-- The places of a template that a lexeme takes, from where its token starts. -/
def Covers (tile : Token × Text) (k : Nat) : Prop :=
  tile.1.start ≤ k ∧ k < tile.1.start + tile.2.length

theorem offset_of_append {src before s : Text} (h : src = before ++ s) :
    offset src.length s = before.length := by
  rw [offset, h, List.length_append, Nat.add_sub_cancel]

theorem slice_of_append {src before s after : Text} {k : Nat} (h : src = before ++ (s ++ after))
    (hk : before.length = k) : slice src k (k + s.length) = s := by
  rw [slice, h, Nat.add_sub_cancel_left, List.drop_left' hk, List.take_left]

/-- A lexeme holds the value of its token. -/
theorem Token.Spelled.value_within {t : Token} {lexeme : Text} (h : t.Spelled lexeme) :
    t.start ≤ t.valueStart ∧ t.valueStart + t.value.length ≤ t.start + lexeme.length ∧
      0 < lexeme.length := by
  obtain ⟨before, after, rfl, hat, written⟩ := h
  have hpos := List.length_pos_iff.2 written.ne_nil
  simp only [List.length_append] at hpos ⊢
  omega

theorem Token.Spelled.slice_value {t : Token} {src a b lexeme : Text} (h : t.Spelled lexeme)
    (hsrc : src = a ++ (lexeme ++ b)) (hat : a.length = t.start) :
    slice src t.valueStart (t.valueStart + t.value.length) = t.value := by
  obtain ⟨before, after, rfl, hvalue, -⟩ := h
  have hsrc' : src = a ++ before ++ (t.value ++ (after ++ b)) := by
    simpa only [List.append_assoc] using hsrc
  refine slice_of_append hsrc' ?_
  rw [List.length_append, hat, hvalue]

section

variable {src : Text} {inTag : Bool} {s : Text} {tiles : List (Token × Text)}

/-- Each lexeme stands where its token starts. -/
theorem Tiles.placed (h : Tiles src.length inTag s tiles) {before : Text} (hsrc : src = before ++ s) :
    ∀ tile ∈ tiles, tile.1.Spelled tile.2 ∧
      ∃ a b, src = a ++ (tile.2 ++ b) ∧ a.length = tile.1.start ∧ before.length ≤ a.length := by
  induction h generalizing before with
  | done => exact fun tile htile => absurd htile List.not_mem_nil
  | @tile inTag gap lexeme rest t tiles hgap hstart hspelled hkind _ ih =>
    rw [← List.append_assoc] at hsrc
    intro tile htile
    rcases List.mem_cons.1 htile with rfl | htile
    · refine ⟨hspelled, before ++ gap, rest, hsrc, (hstart.trans (offset_of_append hsrc)).symm, ?_⟩
      rw [List.length_append]
      omega
    · obtain ⟨hspelled, a, b, hplace, hat, hle⟩ :=
        ih (hsrc.trans (List.append_assoc _ _ _).symm) tile htile
      refine ⟨hspelled, a, b, hplace, hat, ?_⟩
      simp only [List.length_append] at hle
      omega

/-- Each lexeme ends before the next starts. -/
theorem Tiles.pairwise (h : Tiles src.length inTag s tiles) {before : Text} (hsrc : src = before ++ s) :
    tiles.Pairwise fun x y => x.1.start + x.2.length ≤ y.1.start := by
  induction h generalizing before with
  | done => exact .nil
  | @tile inTag gap lexeme rest t tiles hgap hstart hspelled hkind htiles ih =>
    have hsrc' : src = before ++ gap ++ lexeme ++ rest := by simpa only [List.append_assoc] using hsrc
    refine .cons (fun y hy => ?_) (ih hsrc')
    obtain ⟨-, a, b, -, hat, hle⟩ := htiles.placed hsrc' y hy
    rw [← List.append_assoc] at hsrc
    rw [hstart, offset_of_append hsrc, ← hat]
    simpa only [List.length_append] using hle

/-- Two lexemes that take one place are the same. -/
theorem Tiles.unique (h : Tiles src.length inTag s tiles) {before : Text} (hsrc : src = before ++ s)
    {k : Nat} {x y : Token × Text} (hx : x ∈ tiles) (hy : y ∈ tiles) (hxk : Covers x k)
    (hyk : Covers y k) : x = y := by
  obtain ⟨i, hi, rfl⟩ := List.getElem_of_mem hx
  obtain ⟨j, hj, rfl⟩ := List.getElem_of_mem hy
  have hpairs := List.pairwise_iff_getElem.1 (h.pairwise hsrc)
  obtain ⟨hle, hlt⟩ := hxk
  obtain ⟨hle', hlt'⟩ := hyk
  rcases Nat.lt_trichotomy i j with hij | rfl | hij
  · have := hpairs i j hi hj hij
    omega
  · rfl
  · have := hpairs j i hj hi hij
    omega

/-- A byte lies in a lexeme, or is a blank between two tokens inside a tag. -/
theorem Tiles.covered (h : Tiles src.length inTag s tiles) {before : Text} (hsrc : src = before ++ s)
    {k : Nat} {b : UInt8} (hk : src[k]? = some b) (hbefore : before.length ≤ k) :
    (∃ tile ∈ tiles, Covers tile k) ∨ isMarkupBlank b = true ∧
      ∃ xs ys, tiles = xs ++ ys ∧ (∀ x ∈ xs, x.1.start + x.2.length ≤ k) ∧
        (∀ y ∈ ys, k < y.1.start) ∧ Token.inTagFrom inTag (xs.map Prod.fst) = true := by
  induction h generalizing before with
  | done =>
    rw [hsrc, List.append_nil, List.getElem?_eq_none hbefore] at hk
    cases hk
  | @tile inTag gap lexeme rest t tiles hgap hstart hspelled hkind htiles ih =>
    have hsrc' : src = before ++ gap ++ lexeme ++ rest := by simpa only [List.append_assoc] using hsrc
    have hat : t.start = before.length + gap.length := by
      rw [hstart, offset_of_append (hsrc.trans (List.append_assoc _ _ _).symm), List.length_append]
    rcases Nat.lt_or_ge k t.start with hlt | hge
    · -- the byte lies in the gap before the first token
      right
      have hmem : b ∈ gap := by
        rw [hsrc, List.getElem?_append_right hbefore, List.getElem?_append_left (by omega)] at hk
        exact List.mem_of_getElem? hk
      refine ⟨(hgap b hmem).2, [], (t, lexeme) :: tiles, rfl, fun _ hx => absurd hx List.not_mem_nil,
        fun y hy => ?_, (hgap b hmem).1⟩
      rcases List.mem_cons.1 hy with rfl | hy
      · exact hlt
      · obtain ⟨-, a, c, -, hya, hle⟩ := htiles.placed hsrc' y hy
        simp only [List.length_append] at hle
        omega
    rcases Nat.lt_or_ge k (t.start + lexeme.length) with hlt | hge'
    · exact .inl ⟨(t, lexeme), List.mem_cons_self, hge, hlt⟩
    rcases ih hsrc' (by simp only [List.length_append]; omega) with ⟨tile, htile, hcovers⟩ | ⟨hb, hgap'⟩
    · exact .inl ⟨tile, List.mem_cons_of_mem _ htile, hcovers⟩
    · obtain ⟨xs, ys, rfl, hxs, hys, htag⟩ := hgap'
      refine .inr ⟨hb, (t, lexeme) :: xs, ys, rfl, fun x hx => ?_, hys, htag⟩
      rcases List.mem_cons.1 hx with rfl | hx
      · exact hge'
      · exact hxs x hx

/-- Each token stands where its kind may, and what follows the last one stands outside of tags. -/
theorem Tiles.context {stop : Nat} (h : Tiles stop inTag s tiles) {last : Token}
    (hlast : last.kind.isTagOnly = false) {ts us : List Token} {t : Token}
    (hts : tiles.map Prod.fst ++ [last] = ts ++ t :: us) :
    t.kind.StandsIn (Token.inTagFrom inTag ts) := by
  induction h generalizing ts with
  | done =>
    cases ts with
    | nil =>
      cases hts
      exact .inl hlast
    | cons u ts => exact absurd (List.cons.inj hts).2 (by simp)
  | tile _ _ _ hkind _ ih =>
    cases ts with
    | nil =>
      cases hts
      exact hkind
    | cons u ts =>
      obtain ⟨rfl, htail⟩ := List.cons.inj hts
      exact ih htail

end

/-- The tokens of a template tile it.  They start one after another, the last at its end; each holds
its value between its own start and the next one's.  Every byte lies in exactly one lexeme, unless it
is a blank between tokens inside a tag.  The marks, names and values of tags stand inside of tags,
texts, comments and directives outside, and only expressions in both. -/
theorem Token.tiles_source {src : Text} {ts : List Token} (h : Token.ofSource src = .ok ts) :
    ∃ tiles : List (Token × Text), ts = tiles.map Prod.fst ++ [Token.eof src] ∧
      ts.Pairwise (fun t u => t.start < u.start ∧ t.valueStart + t.value.length ≤ u.start) ∧
      (∀ t ∈ ts, t.start ≤ t.valueStart ∧
        slice src t.valueStart (t.valueStart + t.value.length) = t.value) ∧
      (∀ tile ∈ tiles, tile.1.Spelled tile.2 ∧
        slice src tile.1.start (tile.1.start + tile.2.length) = tile.2) ∧
      (∀ k b, src[k]? = some b →
        (∃ tile ∈ tiles, Covers tile k ∧ ∀ other ∈ tiles, Covers other k → other = tile) ∨
        ((∀ tile ∈ tiles, ¬ Covers tile k) ∧ isMarkupBlank b = true ∧
          ∃ before after, ts = before ++ after ∧ (∀ t ∈ before, t.start < k) ∧
            (∀ t ∈ after, k < t.start) ∧ Token.inTag before = true)) ∧
      ∀ before t after, ts = before ++ t :: after → t.kind.StandsIn (Token.inTag before) := by
  obtain ⟨ts', hscan, rfl⟩ : ∃ ts', Token.scan src.length .data src = .ok ts' ∧
      ts = ts' ++ [Token.eof src] := by
    rw [Token.ofSource] at h
    cases hscan : Token.scan src.length .data src with
    | error e =>
      rw [hscan] at h
      cases h
    | ok ts' =>
      rw [hscan] at h
      cases h
      exact ⟨ts', rfl, rfl⟩
  obtain ⟨tiles, rfl, htiles⟩ := tiles_scan hscan
  have hplaced := htiles.placed (List.nil_append src).symm
  have hend : ∀ tile ∈ tiles, tile.1.start + tile.2.length ≤ src.length := by
    intro tile htile
    obtain ⟨-, a, b, hsrc, hat, -⟩ := hplaced tile htile
    have hlen := congrArg List.length hsrc
    simp only [List.length_append] at hlen
    omega
  refine ⟨tiles, rfl, ?_, ?_, ?_, ?_, ?_⟩
  · rw [List.pairwise_append, List.pairwise_map]
    refine ⟨?_, List.pairwise_singleton _ _, ?_⟩
    · refine (htiles.pairwise (List.nil_append src).symm).imp_of_mem ?_
      intro x y hx _ hxy
      obtain ⟨-, hvalue, hpos⟩ := (hplaced x hx).1.value_within
      omega
    · rintro t ht u hu
      obtain ⟨x, hx, rfl⟩ := List.mem_map.1 ht
      obtain ⟨-, hvalue, hpos⟩ := (hplaced x hx).1.value_within
      have hx' := hend x hx
      rw [List.mem_singleton.1 hu]
      simp only [Token.eof]
      omega
  · intro t ht
    rcases List.mem_append.1 ht with ht | ht
    · obtain ⟨tile, htile, rfl⟩ := List.mem_map.1 ht
      obtain ⟨hspelled, a, b, hsrc, hat, -⟩ := hplaced tile htile
      exact ⟨hspelled.value_within.1, hspelled.slice_value hsrc hat⟩
    · rw [List.mem_singleton.1 ht]
      exact ⟨Nat.le_refl _, by simp only [Token.eof, slice, List.length_nil, Nat.add_zero,
        Nat.sub_self, List.take_zero]⟩
  · intro tile htile
    obtain ⟨hspelled, a, b, hsrc, hat, -⟩ := hplaced tile htile
    exact ⟨hspelled, slice_of_append hsrc hat⟩
  · intro k b hk
    by_cases hcovered : ∃ tile ∈ tiles, Covers tile k
    · obtain ⟨tile, htile, hcovers⟩ := hcovered
      exact .inl ⟨tile, htile, hcovers, fun other hother hcovers' =>
        htiles.unique (List.nil_append src).symm hother htile hcovers' hcovers⟩
    rcases htiles.covered (List.nil_append src).symm hk (Nat.zero_le k) with hcovers | ⟨hb, hgap⟩
    · exact absurd hcovers hcovered
    obtain ⟨xs, ys, rfl, hxs, hys, htag⟩ := hgap
    refine .inr ⟨fun tile htile hcovers => hcovered ⟨tile, htile, hcovers⟩, hb,
      xs.map Prod.fst, ys.map Prod.fst ++ [Token.eof src], ?_, ?_, ?_, htag⟩
    · rw [List.map_append, List.append_assoc]
    · intro t ht
      obtain ⟨x, hx, rfl⟩ := List.mem_map.1 ht
      obtain ⟨-, -, hpos⟩ := (hplaced x (List.mem_append_left _ hx)).1.value_within
      have hend := hxs x hx
      omega
    · intro t ht
      rcases List.mem_append.1 ht with ht | ht
      · obtain ⟨y, hy, rfl⟩ := List.mem_map.1 ht
        exact hys y hy
      · rw [List.mem_singleton.1 ht]
        exact (List.getElem?_eq_some_iff.1 hk).1
  · intro before t after hts
    exact htiles.context rfl hts

/-- A tag with blanks between its tokens and in a value, an expression, and text around a closing tag. -/
theorem Token.tiles_source_paragraph :
    let src : Text := "<p a='b c' >\n\x7b x \x7d</p>"
    let ts : List Token := [⟨.tagOpen, "<", 0, 0⟩, ⟨.name, "p", 1, 1⟩, ⟨.name, "a", 3, 3⟩,
      ⟨.equals, "=", 4, 4⟩, ⟨.string, "b c", 5, 6⟩, ⟨.tagEnd, ">", 11, 11⟩, ⟨.text, "\n", 12, 12⟩,
      ⟨.expr, "x", 13, 15⟩, ⟨.tagCloseOpen, "</", 18, 18⟩, ⟨.name, "p", 20, 20⟩,
      ⟨.tagEnd, ">", 21, 21⟩, ⟨.eof, [], 22, 22⟩]
    Token.ofSource src = .ok ts ∧
      ∃ tiles : List (Token × Text), ts = tiles.map Prod.fst ++ [Token.eof src] ∧
        ∀ tile ∈ tiles, tile.1.Spelled tile.2 ∧
          slice src tile.1.start (tile.1.start + tile.2.length) = tile.2 := by
  intro src ts
  have hts : Token.ofSource src = .ok ts := by with_unfolding_all rfl
  obtain ⟨tiles, hmap, -, -, hspelled, -⟩ := Token.tiles_source hts
  exact ⟨hts, tiles, hmap, hspelled⟩

end Template

end Reactive
