/-
Where a source is reported to be wrong.

A failure names an offset of the source that was read, from its start to its
end.  A source inside a template literal is read with offsets of the source
around it, by the reader of tokens and by the parser alike, so the same holds
of a failure in it.

* `Token.reported_scan` — failures to cut a source into tokens;
* `Parser.contained_level` — what a parser leaves of its tokens, and where it fails;
* `Expr.reported_of_parseAt`, `Stmt.reported_of_parseProgram` — failures to parse.
-/
import Reactive.Proofs.Expr.Places

namespace Reactive

/-- A failure at an offset from one to another. -/
def SyntaxError.Within (lo hi : Nat) (e : SyntaxError) : Prop := lo ≤ e.offset ∧ e.offset ≤ hi

theorem SyntaxError.Within.mono {lo hi lo' hi' : Nat} {e : SyntaxError} (h : e.Within lo hi)
    (hlo : lo' ≤ lo) (hhi : hi ≤ hi') : e.Within lo' hi' :=
  ⟨Nat.le_trans hlo h.1, Nat.le_trans h.2 hhi⟩

namespace Lexer

open Text

/-! ### Tokens -/

section

variable {stop : Nat} {s r : Text} {e : SyntaxError}

theorem offset_le (stop : Nat) (s : Text) : offset stop s ≤ stop := Nat.sub_le _ _

theorem offset_mono (h : r.length ≤ s.length) : offset stop s ≤ offset stop r :=
  Nat.sub_le_sub_left h stop

theorem within_rest (h : e.Within (offset stop r) stop) (hr : r.length ≤ s.length) :
    e.Within (offset stop s) stop :=
  h.mono (offset_mono hr) (Nat.le_refl _)

theorem within_fail {α : Type} {cause : SyntaxCause} (h : (fail stop s cause : Except _ α) = .error e) :
    e.Within (offset stop s) stop := by
  cases h
  exact ⟨Nat.le_refl _, offset_le _ _⟩

theorem reported_skipBlanks {newline : Bool} (h : skipBlanks stop newline s = .error e) :
    e.Within (offset stop s) stop := by
  fun_induction skipBlanks stop newline s with
  | case1 _ _ ih | case2 _ _ ih | case3 _ _ ih | case4 _ _ ih =>
    exact within_rest (ih h) (Nat.le_succ _)
  | case5 _ r ih =>
    have hlen := length_restOfLine_le r
    exact within_rest (ih h) (by simp only [List.length_cons]; omega)
  | case6 _ r _ _ hcomment ih =>
    have hlen := length_afterComment? hcomment
    exact within_rest (ih h) (by simp only [List.length_cons] at hlen ⊢; omega)
  | case7 => exact within_fail h
  | case8 => cases h

theorem reported_stringBody {start : Nat} {quote : UInt8} {acc : Text}
    (h : stringBody stop start quote acc s = .error e) :
    e.offset = start ∨ e.Within (offset stop s) stop := by
  fun_induction stringBody stop start quote acc s with
  | case1 | case3 =>
    cases h
    exact .inl rfl
  | case2 => cases h
  | case4 => exact .inr (within_fail h)
  | case5 _ r _ r' hescape _ _ ih =>
    have hlen := length_escape hescape
    exact (ih h).imp_right fun hin =>
      within_rest hin (by simp only [List.length_cons] at hlen ⊢; omega)
  | case6 _ b r _ _ _ ih => exact (ih h).imp_right fun hin => within_rest hin (Nat.le_succ _)

/-- A failure inside a template literal or a brace run, reported there or where that starts. -/
theorem reported_below (n : Nat) :
    (∀ {start : Nat} {acc s : Text} {e : SyntaxError}, s.length < n →
      templateBody stop start acc s = .error e → e.offset = start ∨ e.Within (offset stop s) stop) ∧
    ∀ {start depth : Nat} {s : Text} {e : SyntaxError}, s.length < n →
      closingBrace stop start depth s = .error e →
      e.offset = start ∨ e.Within (offset stop s) stop := by
  induction n with
  | zero => exact ⟨fun hn => absurd hn (Nat.not_lt_zero _), fun hn => absurd hn (Nat.not_lt_zero _)⟩
  | succ n ih =>
    obtain ⟨literals, braces⟩ := ih
    have at_ : ∀ {b : UInt8} {r : Text} {e : SyntaxError}, e.offset = offset stop (b :: r) →
        e.Within (offset stop (b :: r)) stop :=
      fun h => ⟨Nat.le_of_eq h.symm, h ▸ offset_le _ _⟩
    constructor
    · intro start acc s e hn h
      rw [templateBody.eq_def] at h
      split at h
      · cases h
        exact .inl rfl
      · cases h
      · rename_i r
        rw [List.length_cons] at hn
        split at h
        · exact .inr (within_fail h)
        rename_i hescape
        split at h <;> cases h
        rename_i ht
        have hlen := length_escape hescape
        simp only at hlen
        exact (literals (by omega) ht).imp_right fun hin =>
          within_rest hin (by rw [List.length_cons]; omega)
      · rename_i r
        rw [List.length_cons, List.length_cons] at hn
        split at h
        · cases h
          rename_i hclose
          rcases braces (by omega) hclose with hat | hin
          · exact .inr (at_ hat)
          · exact .inr (within_rest hin (by simp only [List.length_cons]; omega))
        rename_i hless _
        split at h <;> cases h
        rename_i ht
        exact (literals (by omega) ht).imp_right fun hin =>
          within_rest hin (by simp only [List.length_cons]; omega)
      · rw [List.length_cons] at hn
        split at h <;> cases h
        rename_i ht
        exact (literals (by omega) ht).imp_right fun hin => within_rest hin (Nat.le_succ _)
    · intro start depth s e hn h
      rcases s with _ | ⟨b, s⟩
      · rw [closingBrace] at h
        cases h
        exact .inl rfl
      rw [List.length_cons] at hn
      have rest : ∀ {depth : Nat} {u : Text} {e : SyntaxError}, u.length ≤ s.length →
          closingBrace stop start depth u = .error e →
          e.offset = start ∨ e.Within (offset stop (b :: s)) stop := by
        intro depth u e hu hin
        exact (braces (by omega) hin).imp_right fun hin =>
          within_rest hin (by rw [List.length_cons]; omega)
      rw [closingBrace] at h
      split at h
      · split at h <;> cases h
        exact rest (Nat.le_refl _) ‹_›
      split at h
      · split at h
        · cases h
        · split at h <;> cases h
          exact rest (Nat.le_refl _) ‹_›
      split at h
      · split at h
        · cases h
          rename_i hstring
          rcases reported_stringBody hstring with hat | hin
          · exact .inr (at_ hat)
          · exact .inr (within_rest hin (Nat.le_succ _))
        rename_i hstring
        simp only at h
        split at h <;> cases h
        exact rest (Nat.le_of_lt (length_stringBody hstring)) ‹_›
      split at h
      · split at h
        · cases h
          rename_i ht
          rcases literals (by omega) ht with hat | hin
          · exact .inr (at_ hat)
          · exact .inr (within_rest hin (Nat.le_succ _))
        rename_i t hless _
        split at h <;> cases h
        exact rest (u := t.rest) (by omega) ‹_›
      · split at h <;> cases h
        exact rest (Nat.le_refl _) ‹_›

theorem reported_lexeme {b : UInt8} (h : lexeme stop b r = .error e) :
    e.Within (offset stop (b :: r)) stop := by
  have inside : e.offset = offset stop (b :: r) ∨ e.Within (offset stop r) stop →
      e.Within (offset stop (b :: r)) stop := by
    rintro (hat | hin)
    · exact ⟨Nat.le_of_eq hat.symm, hat ▸ offset_le _ _⟩
    · exact within_rest hin (Nat.le_succ _)
  unfold lexeme at h
  simp only at h
  split at h
  · split at h <;> cases h
    exact inside (reported_stringBody ‹_›)
  split at h
  · split at h <;> cases h
    exact inside ((reported_below _).1 (Nat.lt_succ_self _) ‹_›)
  split at h
  · cases h
  split at h
  · split at h <;> cases h
  · split at h
    · cases h
    · exact within_fail h

end

end Lexer

theorem Token.reported_scan {stop : Nat} {s : Text} {e : SyntaxError}
    (h : Token.scan stop s = .error e) : e.Within (Lexer.offset stop s) stop := by
  fun_induction Token.scan stop s with
  | case1 s _ hskip =>
    cases h
    exact Lexer.reported_skipBlanks hskip
  | case2 => cases h
  | case3 s newline b r hskip _ hlex =>
    cases h
    exact Lexer.within_rest (Lexer.reported_lexeme hlex) (Lexer.length_skipBlanks hskip)
  | case4 s newline b r hskip l rest hl hlex _ hrest ih =>
    cases h
    refine Lexer.within_rest (ih hrest) ?_
    have hskipped := Lexer.length_skipBlanks hskip
    have hone := l.one_le_weight
    simp only at hl hskipped
    omega
  | case5 => cases h

theorem Token.reported_ofSource {base : Nat} {src : Text} {e : SyntaxError}
    (h : Token.ofSource base src = .error e) : e.Within base (base + src.length) := by
  have hscan := Token.reported_scan h
  rwa [Lexer.offset, Nat.add_sub_cancel] at hscan

namespace Parser

open Token (weight)

/-! ### Outcomes -/

/-- What a parser gives: it leaves the last of some tokens, or fails at an offset from `lo` to `hi`. -/
def Settles (lo hi : Nat) (ts : List Token) {α : Type} {n : Nat} (o : Outcome α n) : Prop :=
  (∀ x, o = .ok x → x.1.2 <:+ ts) ∧ ∀ e, o = .error e → e.Within lo hi

/-- The tokens of a source, its end and the expressions in its template literals lie from `lo` to
`hi`. -/
structure Source.Fits (lo hi : Nat) (c : Source) (ts : List Token) : Prop where
  eof : lo ≤ c.eof.pos ∧ c.eof.pos ≤ hi
  token : ∀ t ∈ ts, lo ≤ t.pos ∧ t.pos ≤ hi
  part : ∀ t ∈ ts, ∀ raw quasis ps, t.lexeme = .template raw quasis ps →
    ∀ p ∈ ps, lo ≤ p.offset ∧ p.offset + p.source.length ≤ hi

section

variable {lo hi m n : Nat} {α β : Type} {c : Source} {t : Token} {ts r : List Token}

theorem Source.Fits.suffix (h : c.Fits lo hi ts) (hr : r <:+ ts) : c.Fits lo hi r :=
  ⟨h.eof, fun t ht => h.token t (hr.subset ht), fun t ht => h.part t (hr.subset ht)⟩

theorem Source.Fits.tail (h : c.Fits lo hi (t :: r)) : c.Fits lo hi r :=
  h.suffix (List.suffix_cons t r)

theorem Source.Fits.head (h : c.Fits lo hi (t :: r)) : lo ≤ t.pos ∧ t.pos ≤ hi :=
  h.token t List.mem_cons_self

theorem Source.Fits.cur (h : c.Fits lo hi ts) : lo ≤ (c.cur ts).pos ∧ (c.cur ts).pos ≤ hi := by
  cases ts with
  | nil => exact h.eof
  | cons t r => exact h.head

theorem Source.Fits.mono {lo' hi' : Nat} (h : c.Fits lo hi ts) (hlo : lo' ≤ lo) (hhi : hi ≤ hi') :
    c.Fits lo' hi' ts := by
  refine ⟨?_, fun t ht => ?_, fun t ht raw quasis ps hl p hp => ?_⟩
  · have heof := h.eof
    omega
  · have hpos := h.token t ht
    omega
  · have hpart := h.part t ht raw quasis ps hl p hp
    omega

/-- The offsets of a source count from the start of one that has `base` bytes before it. -/
theorem scanned_ofSource {base : Nat} {src : Text} {eof : Token}
    (h : Token.ofSource base src = .ok (ts, eof)) :
    (⟨src, base, eof⟩ : Source).Scanned (List.replicate base 0 ++ src) ts :=
  ⟨h, List.replicate base 0, [], by simp, by simp⟩

/-- What the tokens of a source are known to fit into. -/
theorem fits_ofSource {base : Nat} {src : Text} {eof : Token}
    (h : Token.ofSource base src = .ok (ts, eof)) :
    (⟨src, base, eof⟩ : Source).Fits base (base + src.length) ts := by
  have hscanned := scanned_ofSource h
  obtain ⟨tiles, last, -, -, rfl⟩ := Lexer.tiles_scan h
  refine ⟨⟨Nat.le_add_right _ _, Nat.le_refl _⟩, fun t ht => ?_, fun t ht raw quasis ps hl p hp => ?_⟩
  · obtain ⟨-, hlo, hhi⟩ := hscanned.stands t ht
    exact ⟨hlo, Nat.le_of_lt hhi⟩
  · obtain ⟨hstands, hlo, -⟩ := hscanned.stands t ht
    rw [hl] at hstands
    obtain ⟨hpos, hpart⟩ := hstands p hp
    have hend := hpart.offset_add.2
    rw [List.length_append, List.length_replicate] at hend
    exact ⟨Nat.le_trans hlo hpos, hend⟩

theorem Settles.ok {a : α} {h : weight r < n} (hr : r <:+ ts) :
    Settles lo hi ts (.ok ⟨(a, r), h⟩ : Outcome α n) := by
  refine ⟨fun x hx => ?_, fun e he => by cases he⟩
  cases hx
  exact hr

theorem Settles.error {e : SyntaxError} (he : e.Within lo hi) :
    Settles lo hi ts (.error e : Outcome α n) := by
  refine ⟨fun x hx => (by cases hx), fun e' he' => ?_⟩
  cases he'
  exact he

theorem Settles.refuse (h : c.Fits lo hi r) {cause : Lexeme → SyntaxCause} :
    Settles lo hi ts (c.refuse r cause : Outcome α n) :=
  .error h.cur

theorem Settles.map {o : Outcome α n} (h : Settles lo hi ts o) {f : α → β} :
    Settles lo hi ts (o.map f) := by
  cases o with
  | error e => exact .error (h.2 e rfl)
  | ok x => exact .ok (h.1 x rfl)

theorem Settles.widen {o : Outcome α m} (h : Settles lo hi ts o) (hmn : m ≤ n) :
    Settles lo hi ts (o.widen hmn) := by
  cases o with
  | error e => exact .error (h.2 e rfl)
  | ok x => exact .ok (h.1 x rfl)

/-- What was left of some tokens is left of more. -/
theorem Settles.mono {o : Outcome α n} (h : Settles lo hi r o) (hr : r <:+ ts) :
    Settles lo hi ts o :=
  ⟨fun x hx => (h.1 x hx).trans hr, h.2⟩

theorem Settles.cons {o : Outcome α n} (h : Settles lo hi r o) : Settles lo hi (t :: r) o :=
  h.mono (List.suffix_cons t r)

theorem Settles.left {o : Outcome α n} (h : Settles lo hi ts o) {a : α} {hr : weight r < n}
    (ho : o = .ok ⟨(a, r), hr⟩) : r <:+ ts :=
  h.1 _ ho

end

/-- Parsers that leave the last of their tokens, or fail at an offset from `lo` to `hi`. -/
structure Contained (lo hi : Nat) {n : Nat} (L : Level n) : Prop where
  assignment : ∀ {c ts} (h : weight ts < n), c.Fits lo hi ts →
    Settles lo hi ts (L.assignment c ts h)
  binary : ∀ {c} least {ts} (h : weight ts < n), c.Fits lo hi ts →
    Settles lo hi ts (L.binary c least ts h)
  unary : ∀ {c ts} (h : weight ts < n), c.Fits lo hi ts → Settles lo hi ts (L.unary c ts h)
  statement : ∀ {c ts} (h : weight ts < n), c.Fits lo hi ts →
    Settles lo hi ts (L.statement c ts h)

section

variable {lo hi : Nat} {c : Source} {ts : List Token} (hc : c.Fits lo hi ts)

include hc

theorem settles_expect (p : Punct) : Settles lo hi ts (expect c p ts) := by
  unfold expect
  split
  · split
    · exact .ok (List.suffix_cons _ _)
    · exact .refuse hc
  · exact .refuse hc

theorem settles_memberName (mark : Punct) : Settles lo hi ts (memberName c mark ts) := by
  unfold memberName
  split
  · exact .refuse hc
  · split
    · exact .ok (List.suffix_cons _ _)
    · exact .ok (List.suffix_cons _ _)
    · exact .refuse hc

end

theorem settles_paramNames {lo hi : Nat} {c : Source} :
    ∀ {ts : List Token}, c.Fits lo hi ts → Settles lo hi ts (paramNames c ts)
  | [], hc => .refuse hc
  | [t], hc => by
    unfold paramNames
    simp only
    split
    · exact .ok (List.suffix_cons _ _)
    · exact .refuse hc.tail
    · exact .refuse hc
  | t :: u :: r, hc => by
    unfold paramNames
    simp only
    split
    · exact .ok (List.suffix_cons _ _)
    · split
      · exact (settles_paramNames hc.tail.tail).cons.cons.map.widen _
      · exact (settles_expect hc.tail _).cons.map.widen _
    · exact .refuse hc

section

variable {lo hi : Nat} {c : Source} {ts : List Token} (hc : c.Fits lo hi ts)

include hc

theorem settles_params : Settles lo hi ts (params c ts) := by
  unfold params
  split
  · rename_i he
    exact .error ((settles_expect hc _).2 _ he)
  · rename_i ho
    have hr := (settles_expect hc _).left ho
    exact ((settles_paramNames (hc.suffix hr)).mono hr).widen _

theorem settles_arrowParams : Settles lo hi ts (arrowParams c ts) := by
  unfold arrowParams
  split
  · split
    · exact .ok (List.suffix_cons _ _)
    · exact settles_params hc
  · exact settles_params hc

theorem settles_endStatement : Settles lo hi ts (endStatement c ts) := by
  unfold endStatement
  split
  · exact .ok (List.suffix_refl _)
  · split
    · exact .ok (List.suffix_cons _ _)
    · split
      · exact .ok (List.suffix_refl _)
      · exact .refuse hc

theorem settles_ended {α : Type} {n : Nat} {o : Outcome α n} (ho : Settles lo hi ts o) :
    Settles lo hi ts (ended c o) := by
  unfold ended
  split
  · exact .error (ho.2 _ rfl)
  · have hr := ho.left rfl
    exact ((settles_endStatement (hc.suffix hr)).mono hr).map.widen _

end

section

variable {lo hi n : Nat} {L : Level n} (hL : Contained lo hi L) {c : Source} {ts : List Token}

include hL

/-- A failure in an expression inside a template literal is one of the source around it. -/
theorem reported_interpolations {parts : List Interpolation} {h : Lexer.partsLength parts < n}
    (hparts : ∀ p ∈ parts, lo ≤ p.offset ∧ p.offset + p.source.length ≤ hi) {e : SyntaxError}
    (he : interpolations L parts h = .error e) : e.Within lo hi := by
  induction parts with
  | nil => cases he
  | cons p r ih =>
    obtain ⟨⟨hlo, hhi⟩, hrest⟩ := List.forall_mem_cons.1 hparts
    rw [interpolations] at he
    split at he
    · rename_i hscan
      cases he
      exact (Token.reported_ofSource hscan).mono hlo hhi
    · cases he
      exact ⟨hlo, by simp only; omega⟩
    · rename_i t ts eof hscan
      have hfits := (fits_ofSource hscan).mono hlo hhi
      simp only at he
      split at he
      · rename_i hfail
        cases he
        exact (hL.assignment _ hfits).2 _ hfail
      · rename_i hmore
        cases he
        exact (hfits.suffix ((hL.assignment _ hfits).left hmore)).cur
      · split at he
        · rename_i hfail
          cases he
          exact ih hrest hfail
        · cases he

variable (hc : c.Fits lo hi ts)

include hc

theorem settles_element (h : weight ts < n) : Settles lo hi ts (element L c ts h) := by
  unfold element
  split
  · simp only
    split
    · exact (hL.assignment _ hc.tail).cons.map.widen _
    · exact hL.assignment _ hc
  · exact hL.assignment _ hc

theorem settles_elements (close : Punct) (h : weight ts < n) :
    Settles lo hi ts (elements L c close ts h) := by
  fun_induction elements L c close ts h with
  | case1 => exact (settles_expect hc _).map
  | case2 ts h _ e he => exact .error ((settles_element hL hc h).2 e he)
  | case3 ts h _ e t r hr he _ _ ih =>
    have hleft := (settles_element hL hc h).left he
    have hrest := (List.suffix_cons t r).trans hleft
    exact ((ih (hc.suffix hrest)).mono hrest).map.widen _
  | case4 ts h _ e t r hr he _ _ =>
    have hleft := (settles_element hL hc h).left he
    exact ((settles_expect (hc.suffix hleft) _).mono hleft).map.widen _
  | case5 ts h _ e hr he => exact .refuse (hc.suffix List.nil_suffix)

theorem settles_property (h : weight ts < n) : Settles lo hi ts (property L c ts h) := by
  unfold property
  split
  · exact .refuse hc
  · simp only
    split
    · exact .refuse hc
    · split
      · split
        · exact (hL.assignment _ hc.tail.tail).cons.cons.map.widen _
        · split
          · exact .ok (List.suffix_cons _ _)
          · exact .error hc.head
      · split
        · exact .ok (List.suffix_cons _ _)
        · exact .error hc.head

theorem settles_properties (h : weight ts < n) : Settles lo hi ts (properties L c ts h) := by
  fun_induction properties L c ts h with
  | case1 => exact (settles_expect hc _).map
  | case2 ts h _ e he => exact .error ((settles_property hL hc h).2 e he)
  | case3 ts h _ p t r hr he _ _ ih =>
    have hleft := (settles_property hL hc h).left he
    have hrest := (List.suffix_cons t r).trans hleft
    exact ((ih (hc.suffix hrest)).mono hrest).map.widen _
  | case4 ts h _ p t r hr he _ _ =>
    have hleft := (settles_property hL hc h).left he
    exact ((settles_expect (hc.suffix hleft) _).mono hleft).map.widen _
  | case5 => exact .refuse (hc.suffix (List.nil_suffix))

theorem settles_enclosed (close : Punct) (h : weight ts < n) :
    Settles lo hi ts (enclosed L c close ts h) := by
  unfold enclosed
  split
  · rename_i he
    exact .error ((hL.assignment h hc).2 _ he)
  · rename_i he
    have hleft := (hL.assignment h hc).left he
    exact ((settles_expect (hc.suffix hleft) _).mono hleft).map.widen _

end

theorem settles_link? {lo hi n : Nat} {L : Level n} (hL : Contained lo hi L) {c : Source} {e : Expr}
    {t : Token} {r : List Token} (hr : c.Fits lo hi (t :: r)) {h : weight (t :: r) < n}
    {o : Outcome Expr (weight (t :: r))} (ho : link? L c e t r h = some o) :
    Settles lo hi (t :: r) o := by
  unfold link? at ho
  split at ho
  · cases ho
    exact (settles_memberName hr.tail _).cons.map.widen _
  · simp only at ho
    split at ho
    · split at ho
      · cases ho
        exact (settles_elements hL hr.tail.tail _ _).cons.cons.map.widen _
      · cases ho
        exact (settles_enclosed hL hr.tail.tail _ _).cons.cons.map.widen _
      · cases ho
        exact (settles_memberName hr.tail _).cons.map.widen _
    · cases ho
      exact .refuse hr.tail
  · cases ho
    exact (settles_enclosed hL hr.tail _ _).cons.map.widen _
  · cases ho
    exact (settles_elements hL hr.tail _ _).cons.map.widen _
  · cases ho

section

variable {lo hi n : Nat} {L : Level n} (hL : Contained lo hi L) {c : Source} {ts : List Token}
  (hc : c.Fits lo hi ts)

include hL hc

theorem settles_postfixes (e : Expr) (h : weight ts < n) :
    Settles lo hi ts (postfixes L c e ts h) := by
  fun_induction postfixes L c e ts h with
  | case1 => exact .ok (List.suffix_refl _)
  | case2 e t r h _ err ho => exact .error ((settles_link? hL hc ho).2 err rfl)
  | case3 e t r h _ e' r' hr' ho _ ih =>
    have hleft := (settles_link? hL hc ho).left rfl
    exact ((ih (hc.suffix hleft)).mono hleft).widen _
  | case4 | case7 | case8 => exact .ok (List.suffix_refl _)
  | case5 => exact .ok (List.suffix_cons _ _)
  | case6 => exact .error hc.head

theorem settles_stepTarget {pos : Nat} (hpos : lo ≤ pos ∧ pos ≤ hi) (op : StepOp)
    (h : weight ts < n) : Settles lo hi ts (stepTarget L c pos op ts h) := by
  unfold stepTarget
  split
  · rename_i he
    exact .error ((hL.unary h hc).2 _ he)
  · rename_i hu
    split
    · exact .ok ((hL.unary h hc).left hu)
    · exact .error hpos

theorem settles_infixes (least : Nat) (left : Expr) (h : weight ts < n) :
    Settles lo hi ts (infixes L c least left ts h) := by
  fun_induction infixes L c least left ts h with
  | case1 | case2 | case3 => exact .ok (List.suffix_refl _)
  | case4 left t r h hr op _ _ e he => exact .error ((hL.binary _ _ hc.tail).2 e he)
  | case5 left t r h hr op _ _ right r' hr' he _ ih =>
    have hleft := ((hL.binary _ _ hc.tail).left he).trans (List.suffix_cons t r)
    exact ((ih (hc.suffix hleft)).mono hleft).widen _

end

section

variable {lo hi : Nat} {c : Source} {ts : List Token} {L : Level (weight ts)}
  (hL : Contained lo hi L) (hc : c.Fits lo hi ts)

include hL hc

theorem settles_primary : Settles lo hi ts (primary c ts L) := by
  unfold primary
  split
  · exact .refuse hc
  · rename_i t r _
    simp only
    split
    · split
      · exact .ok (List.suffix_cons _ _)
      · exact .error hc.head
    · exact .ok (List.suffix_cons _ _)
    · rename_i ht
      split
      · rename_i he
        exact .error (reported_interpolations hL (hc.part t List.mem_cons_self _ _ _ ht) he)
      · exact .ok (List.suffix_cons _ _)
    · exact .ok (List.suffix_cons _ _)
    · exact .ok (List.suffix_cons _ _)
    · exact .ok (List.suffix_cons _ _)
    · exact .ok (List.suffix_cons _ _)
    · exact .ok (List.suffix_cons _ _)
    · exact (settles_enclosed hL hc.tail _ _).cons.widen _
    · exact (settles_elements hL hc.tail _ _).cons.map.widen _
    · exact (settles_properties hL hc.tail _).cons.map.widen _
    · exact .refuse hc

theorem settles_operand : Settles lo hi ts (operand c ts L) := by
  unfold operand
  split
  · rename_i he
    exact .error ((settles_primary hL hc).2 _ he)
  · rename_i hp
    have hleft := (settles_primary hL hc).left hp
    exact ((settles_postfixes hL (hc.suffix hleft) _ _).mono hleft).widen _

theorem settles_unary : Settles lo hi ts (unary c ts L) := by
  unfold unary
  split
  · exact settles_operand hL hc
  · simp only
    split
    · exact (hL.unary _ hc.tail).cons.map.widen _
    · split
      · exact (settles_stepTarget hL hc.tail hc.head _ _).cons
      · exact (settles_stepTarget hL hc.tail hc.head _ _).cons
      · exact settles_operand hL hc

theorem settles_binary (least : Nat) : Settles lo hi ts (binary c least ts L) := by
  unfold binary
  split
  · rename_i he
    exact .error ((settles_unary hL hc).2 _ he)
  · rename_i hu
    have hleft := (settles_unary hL hc).left hu
    exact ((settles_infixes hL (hc.suffix hleft) _ _ _).mono hleft).widen _

theorem settles_conditional : Settles lo hi ts (conditional c ts L) := by
  unfold conditional
  split
  · rename_i he
    exact .error ((settles_binary hL hc 1).2 _ he)
  · exact .ok List.nil_suffix
  · rename_i test t r _ hb
    have hleft := (settles_binary hL hc 1).left hb
    have hrest := (List.suffix_cons t r).trans hleft
    simp only
    split
    · split
      · rename_i he
        exact .error ((hL.assignment _ (hc.suffix hrest)).2 _ he)
      · rename_i hy
        have hyes := ((hL.assignment _ (hc.suffix hrest)).left hy).trans hrest
        split
        · rename_i he
          exact .error ((settles_expect (hc.suffix hyes) _).2 _ he)
        · rename_i hcolon
          have hno := ((settles_expect (hc.suffix hyes) _).left hcolon).trans hyes
          exact ((hL.assignment _ (hc.suffix hno)).mono hno).map.widen _
    · exact .ok hleft

end

section

variable {lo hi n : Nat} {L : Level n} (hL : Contained lo hi L) {c : Source} {ts : List Token}
  (hc : c.Fits lo hi ts)

include hL hc

theorem settles_blockStatements (h : weight ts < n) :
    Settles lo hi ts (blockStatements L c ts h) := by
  fun_induction blockStatements L c ts h with
  | case1 => exact .refuse hc
  | case2 => exact .ok (List.suffix_refl _)
  | case3 t r h _ _ _ _ ih => exact (ih hc.tail).cons.widen _
  | case4 t r h _ _ _ e he => exact .error ((hL.statement h hc).2 e he)
  | case5 t r h _ _ _ s r' hr' hs _ ih =>
    have hleft := (hL.statement h hc).left hs
    exact ((ih (hc.suffix hleft)).mono hleft).map.widen _

theorem settles_block (h : weight ts ≤ n) : Settles lo hi ts (block L c ts h) := by
  unfold block
  split
  · rename_i he
    exact .error ((settles_expect hc _).2 _ he)
  · rename_i ho
    have hopen := (settles_expect hc _).left ho
    split
    · rename_i he
      exact .error ((settles_blockStatements hL (hc.suffix hopen) _).2 _ he)
    · rename_i hb
      have hbody := ((settles_blockStatements hL (hc.suffix hopen) _).left hb).trans hopen
      split
      · rename_i he
        exact .error ((settles_expect (hc.suffix hbody) _).2 _ he)
      · rename_i hk
        exact .ok (((settles_expect (hc.suffix hbody) _).left hk).trans hbody)

theorem settles_arrowBody (h : weight ts < n) : Settles lo hi ts (arrowBody L c ts h) := by
  unfold arrowBody
  split
  · exact (settles_block hL hc _).map
  · exact (hL.assignment _ hc).map

theorem settles_body (h : weight ts < n) : Settles lo hi ts (body L c ts h) := by
  unfold body
  split
  · exact (settles_block hL hc _).map
  · exact (hL.statement _ hc).map

theorem settles_declaration (exported : Bool) (pos : Nat) (kind : DeclKind) (h : weight ts < n) :
    Settles lo hi ts (declaration L c exported pos kind ts h) := by
  unfold declaration
  split
  · exact .refuse hc
  · rename_i t r _
    simp only
    split
    · split
      · split
        · rename_i he
          exact .error ((settles_expect hc.tail _).2 _ he)
        · rename_i ha
          have hvalue := ((settles_expect hc.tail _).left ha).trans (List.suffix_cons t r)
          refine settles_ended hc (.widen (.map ?_) _)
          exact (hL.assignment _ (hc.suffix hvalue)).mono hvalue
      · split
        · exact .error hc.head
        · exact settles_ended hc (.ok (List.suffix_cons _ _))
    · exact .refuse hc

theorem settles_function (exported : Bool) (pos : Nat) (h : weight ts < n) :
    Settles lo hi ts (function L c exported pos ts h) := by
  unfold function
  split
  · exact .refuse hc
  · rename_i t r _
    simp only
    split
    · split
      · rename_i he
        exact .error ((settles_params hc.tail).2 _ he)
      · rename_i hp
        have hbody := ((settles_params hc.tail).left hp).trans (List.suffix_cons t r)
        exact ((settles_block hL (hc.suffix hbody) _).mono hbody).map.widen _
    · exact .refuse hc

theorem settles_alternative (h : weight ts < n) : Settles lo hi ts (alternative L c ts h) := by
  unfold alternative
  split
  · exact .ok (List.suffix_refl _)
  · simp only
    split
    · split
      · exact (hL.statement _ hc.tail).cons.map.widen _
      · exact (settles_body hL hc.tail _).cons.widen _
    · exact .ok (List.suffix_refl _)

theorem settles_choice (pos : Nat) (h : weight ts < n) : Settles lo hi ts (choice L c pos ts h) := by
  unfold choice
  split
  · rename_i he
    exact .error ((settles_expect hc _).2 _ he)
  · rename_i ho
    have hopen := (settles_expect hc _).left ho
    split
    · rename_i he
      exact .error ((settles_enclosed hL (hc.suffix hopen) _ _).2 _ he)
    · rename_i ht
      have htest := ((settles_enclosed hL (hc.suffix hopen) _ _).left ht).trans hopen
      split
      · rename_i he
        exact .error ((settles_body hL (hc.suffix htest) _).2 _ he)
      · rename_i hy
        have hyes := ((settles_body hL (hc.suffix htest) _).left hy).trans htest
        exact ((settles_alternative hL (hc.suffix hyes) _).mono hyes).map.widen _

theorem settles_returned (pos : Nat) (h : weight ts < n) :
    Settles lo hi ts (returned L c pos ts h) := by
  unfold returned
  split
  · exact settles_ended hc (.ok (List.suffix_refl _))
  · exact settles_ended hc ((hL.assignment _ hc).map.widen _)

theorem settles_exportedStatement (h : weight ts < n) :
    Settles lo hi ts (exportedStatement L c ts h) := by
  unfold exportedStatement
  split
  · exact .refuse hc
  · simp only
    split
    · exact (settles_function hL hc.tail _ _ _).cons
    · split
      · exact (settles_declaration hL hc.tail _ _ _ _).cons
      · exact .refuse hc
    · exact .refuse hc

end

section

variable {lo hi : Nat} {c : Source} {ts : List Token} {L : Level (weight ts)}
  (hL : Contained lo hi L) (hc : c.Fits lo hi ts)

include hL hc

theorem settles_arrow : Settles lo hi ts (arrow c ts L) := by
  unfold arrow
  split
  · rename_i he
    exact .error ((settles_arrowParams hc).2 _ he)
  · rename_i hp
    have hparams := (settles_arrowParams hc).left hp
    split
    · rename_i he
      exact .error ((settles_expect (hc.suffix hparams) _).2 _ he)
    · rename_i ha
      have hbody := ((settles_expect (hc.suffix hparams) _).left ha).trans hparams
      exact ((settles_arrowBody hL (hc.suffix hbody) _).mono hbody).map.widen _

theorem settles_assignment : Settles lo hi ts (assignment c ts L) := by
  unfold assignment
  split
  · exact settles_arrow hL hc
  · split
    · rename_i he
      exact .error ((settles_conditional hL hc).2 _ he)
    · exact .ok List.nil_suffix
    · rename_i left t r _ hb
      have hleft := (settles_conditional hL hc).left hb
      have hrest := (List.suffix_cons t r).trans hleft
      simp only
      split
      · exact .ok hleft
      · split
        · exact ((hL.assignment _ (hc.suffix hrest)).mono hrest).map.widen _
        · exact .error (hc.suffix hleft).head

theorem settles_expressionStatement : Settles lo hi ts (expressionStatement c ts L) :=
  settles_ended hc (settles_assignment hL hc).map

theorem settles_statement : Settles lo hi ts (statement c ts L) := by
  unfold statement
  split
  · exact settles_expressionStatement hL hc
  · simp only
    split
    · exact (settles_declaration hL hc.tail _ _ _ _).cons
    · exact (settles_declaration hL hc.tail _ _ _ _).cons
    · exact (settles_declaration hL hc.tail _ _ _ _).cons
    · exact (settles_function hL hc.tail _ _ _).cons
    · exact (settles_exportedStatement hL hc.tail _).cons
    · exact (settles_choice hL hc.tail _ _).cons
    · exact (settles_returned hL hc.tail _ _).cons
    · split
      · split
        · exact (hL.statement _ hc.tail.tail).cons.cons.map.widen _
        · exact settles_expressionStatement hL hc
      · exact settles_expressionStatement hL hc
    · exact settles_expressionStatement hL hc

end

/-- **All parsers leave the last of their tokens, or fail at an offset of their source.** -/
theorem contained_level (lo hi n : Nat) : Contained lo hi (level n) := by
  induction n using Nat.strongRecOn with
  | _ n ih =>
    rw [level]
    exact ⟨fun h hc => settles_assignment (ih _ h) hc, fun least _ h hc => settles_binary (ih _ h) hc least,
      fun h hc => settles_unary (ih _ h) hc, fun h hc => settles_statement (ih _ h) hc⟩

theorem reported_program {lo hi : Nat} {c : Source} {ts : List Token} (hc : c.Fits lo hi ts)
    {e : SyntaxError} (h : program c ts = .error e) : e.Within lo hi := by
  fun_induction program c ts with
  | case1 => cases h
  | case2 t r _ ih => exact ih hc.tail h
  | case3 t r _ _ he =>
    cases h
    exact (settles_statement (contained_level lo hi _) hc).2 _ he
  | case4 t r _ s r' _ hs _ he ih =>
    cases h
    exact ih (hc.suffix ((settles_statement (contained_level lo hi _) hc).left hs)) he
  | case5 => cases h

end Parser

/-! ### Sources -/

/-- A source that is no expression is reported at an offset of it, wherever it starts. -/
theorem Expr.reported_of_parseAt {base : Nat} {src : Text} {e : SyntaxError}
    (h : Expr.parseAt base src = .error e) : e.Within base (base + src.length) := by
  unfold Expr.parseAt at h
  split at h
  · rename_i hscan
    cases h
    exact Token.reported_ofSource hscan
  · cases h
    exact ⟨Nat.le_refl _, Nat.le_add_right _ _⟩
  · rename_i t ts eof hscan
    have hfits := Parser.fits_ofSource hscan
    have hlevel := Parser.contained_level base (base + src.length) (Token.weight (t :: ts))
    simp only at h
    split at h
    · rename_i he
      cases h
      exact (Parser.settles_assignment hlevel hfits).2 _ he
    · cases h
    · rename_i hmore
      cases h
      exact (hfits.suffix ((Parser.settles_assignment hlevel hfits).left hmore)).cur

theorem Stmt.reported_of_parseProgram {src : Text} {e : SyntaxError}
    (h : Stmt.parseProgram src = .error e) : e.Within 0 src.length := by
  unfold Stmt.parseProgram at h
  split at h
  · rename_i hscan
    cases h
    exact (Token.reported_ofSource hscan).mono (Nat.le_refl _) (by omega)
  · rename_i hscan
    exact Parser.reported_program ((Parser.fits_ofSource hscan).mono (Nat.le_refl _) (by omega)) h

end Reactive
