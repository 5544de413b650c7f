/-
What a hash tells apart.

The hash of a compilation is taken of its tag, its mode, its props, its derived
values and its source, one after another with dividers.  The first three are
read back from that text.  Derived values and the source are not divided from
each other: a source that starts like a further derived value is taken for it.
Where nothing in them holds a divider, they are told apart as well.

* `preimage_eq_iff` — when two compilations hash the same text;
* `preimage_inj` — texts without dividers are told apart;
* `same_inputs_or_collision` — equal hashes of two compilations.
-/
import Mathlib.Data.List.Basic
import Mathlib.Data.List.TakeWhile
import Reactive.Compile.Artifact
import Reactive.Proofs.Component.Sound
import Reactive.Proofs.Expr.Lexing

namespace Reactive

namespace Text

/-- A text up to the first place of a byte is read back. -/
theorem append_cons_inj {b : UInt8} {s t r u : Text} (hs : b ∉ s) (ht : b ∉ t) :
    s ++ b :: r = t ++ b :: u ↔ s = t ∧ r = u := by
  constructor
  · intro h
    induction s generalizing t with
    | nil =>
      cases t with
      | nil => exact ⟨rfl, (List.cons.inj h).2⟩
      | cons c t => exact absurd ((List.cons.inj h).1 ▸ List.mem_cons_self) ht
    | cons a s ih =>
      cases t with
      | nil => exact absurd ((List.cons.inj h).1 ▸ List.mem_cons_self) hs
      | cons c t =>
        obtain ⟨rfl, h'⟩ := List.cons.inj h
        obtain ⟨rfl, hr⟩ := ih (List.not_mem_of_not_mem_cons hs) (List.not_mem_of_not_mem_cons ht) h'
        exact ⟨rfl, hr⟩
  · rintro ⟨rfl, rfl⟩
    rfl

/-- Texts one after another, each with a byte behind it. -/
def terminated (b : UInt8) (ts : List Text) : Text := ts.flatMap fun t => t ++ [b]

theorem terminated_cons (b : UInt8) (t : Text) (ts : List Text) (s : Text) :
    terminated b (t :: ts) ++ s = t ++ b :: (terminated b ts ++ s) := by
  simp [terminated]

theorem terminated_append (b : UInt8) (ts us : List Text) :
    terminated b (ts ++ us) = terminated b ts ++ terminated b us :=
  List.flatMap_append

/-- Two texts that start with terminated texts are the same only if one of them goes on with what the
other has more of these. -/
theorem terminated_append_eq_iff {b : UInt8} {ts us : List Text} {s r : Text}
    (hts : ∀ t ∈ ts, b ∉ t) (hus : ∀ u ∈ us, b ∉ u) :
    terminated b ts ++ s = terminated b us ++ r ↔
      (∃ more, us = ts ++ more ∧ s = terminated b more ++ r) ∨
        ∃ more, ts = us ++ more ∧ r = terminated b more ++ s := by
  constructor
  · intro h
    induction ts generalizing us with
    | nil => exact .inl ⟨us, rfl, h⟩
    | cons t ts ih =>
      cases us with
      | nil => exact .inr ⟨t :: ts, rfl, h.symm⟩
      | cons u us =>
        rw [List.forall_mem_cons] at hts hus
        rw [terminated_cons, terminated_cons, append_cons_inj hts.1 hus.1] at h
        obtain ⟨rfl, h⟩ := h
        obtain ⟨more, rfl, rfl⟩ | ⟨more, rfl, rfl⟩ := ih hts.2 hus.2 h
        · exact .inl ⟨more, rfl, rfl⟩
        · exact .inr ⟨more, rfl, rfl⟩
  · rintro (⟨more, rfl, rfl⟩ | ⟨more, rfl, rfl⟩)
    · rw [terminated_append, List.append_assoc]
    · rw [terminated_append, List.append_assoc]

theorem terminated_inj {b : UInt8} {ts us : List Text} (hts : ∀ t ∈ ts, b ∉ t)
    (hus : ∀ u ∈ us, b ∉ u) (h : terminated b ts = terminated b us) : ts = us := by
  have hnil : ∀ {more : List Text}, [] = terminated b more ++ [] → more = [] := by
    intro more hmore
    cases more with
    | nil => rfl
    | cons t r =>
      rw [terminated_cons] at hmore
      exact absurd hmore.symm (List.append_ne_nil_of_right_ne_nil t (List.cons_ne_nil b _))
  have happend : terminated b ts ++ [] = terminated b us ++ [] := by rw [h]
  obtain ⟨more, rfl, hmore⟩ | ⟨more, rfl, hmore⟩ := (terminated_append_eq_iff hts hus).1 happend
  · rw [hnil hmore, List.append_nil]
  · rw [hnil hmore, List.append_nil]

/-- Words with a byte between neighbours, and that byte once more. -/
theorem join_concat (b : UInt8) {ts : List Text} (h : ts ≠ []) :
    join [b] ts ++ [b] = terminated b ts := by
  fun_induction join [b] ts with
  | case1 => exact absurd rfl h
  | case2 t => simp [terminated]
  | case3 t u r ih =>
    rw [List.append_assoc, ih (List.cons_ne_nil u r)]
    simp [terminated]

/-- What stands in words joined with a byte. -/
theorem mem_join {b c : UInt8} {ts : List Text} (h : c ∈ join [b] ts) : c = b ∨ ∃ t ∈ ts, c ∈ t := by
  fun_induction join [b] ts with
  | case1 => cases h
  | case2 t => exact .inr ⟨t, List.mem_singleton_self t, h⟩
  | case3 t u r ih =>
    rw [List.mem_append, List.mem_append, List.mem_singleton] at h
    rcases h with (h | h) | h
    · exact .inr ⟨t, List.mem_cons_self, h⟩
    · exact .inl h
    · obtain h | ⟨v, hv, hc⟩ := ih h
      · exact .inl h
      · exact .inr ⟨v, List.mem_cons_of_mem t hv, hc⟩

/-- Words joined with a byte that is in none of them are read back. -/
theorem join_inj {b : UInt8} {ts us : List Text} (hts : ∀ t ∈ ts, t ≠ [] ∧ b ∉ t)
    (hus : ∀ u ∈ us, u ≠ [] ∧ b ∉ u) (h : join [b] ts = join [b] us) : ts = us := by
  have hnil : ∀ {xs : List Text}, (∀ x ∈ xs, x ≠ [] ∧ b ∉ x) → join [b] xs = [] → xs = [] := by
    intro xs hxs hjoin
    match xs with
    | [] => rfl
    | [x] => exact absurd hjoin (hxs x List.mem_cons_self).1
    | x :: y :: r =>
      rw [join, List.append_eq_nil_iff, List.append_eq_nil_iff] at hjoin
      exact absurd hjoin.1.1 (hxs x List.mem_cons_self).1
  by_cases hts' : ts = []
  · rw [hts'] at h ⊢
    exact (hnil hus h.symm).symm
  · by_cases hus' : us = []
    · rw [hus'] at h
      exact absurd (hnil hts h) hts'
    · refine terminated_inj (fun t ht => (hts t ht).2) (fun u hu => (hus u hu).2) ?_
      rw [← join_concat b hts', ← join_concat b hus', h]

end Text

/-! ### Parts without dividers -/

namespace Artifact

/-- A text that holds no divider. -/
def Plain (t : Text) : Prop := 0 ∉ t

instance (t : Text) : Decidable (Plain t) := inferInstanceAs (Decidable (0 ∉ t))

/-- A byte of ASCII that cannot stand in identifiers stands in none. -/
theorem notMem_of_isIdentifier {n : Text} (h : isIdentifier n = true) {b : UInt8}
    (hascii : b < 0x80) (hpart : isIdentPart b.toNat = false) : b ∉ n := by
  intro hb
  have hmem := Lexer.identPart_of_word (isIdentifier_iff.1 h).1 (Text.mem_pieces_of_ascii hb hascii)
  rw [hpart] at hmem
  cases hmem

theorem ne_nil_of_isIdentifier {n : Text} (h : isIdentifier n = true) : n ≠ [] := by
  obtain ⟨b, r, rfl, -⟩ := Lexer.exists_cons_of_word (isIdentifier_iff.1 h).1
  exact List.cons_ne_nil b r

theorem plain_of_isIdentifier {n : Text} (h : isIdentifier n = true) : Plain n :=
  notMem_of_isIdentifier h (by decide) (by decide +kernel)

theorem plain_of_isElementName {tag : Text} (h : isElementName tag = true) : Plain tag := by
  have hbyte : ∀ b : UInt8, isElementByte b = true → b ≠ 0 := by
    rintro b hb rfl
    exact absurd hb (by decide)
  unfold isElementName at h
  split at h
  · cases h
  · rename_i b r
    simp only [Bool.and_eq_true, decide_eq_true_eq] at h
    obtain ⟨⟨⟨hb, -⟩, -⟩, hrest⟩ := h
    have hdrop : ∀ c ∈ r.dropWhile isElementByte, c ≠ 0 := by
      split at hrest
      · rename_i t hdrop
        rw [hdrop, List.forall_mem_cons]
        refine ⟨by decide, fun c hc => ?_⟩
        have hpart := List.all_eq_true.1 hrest c hc
        rw [Bool.or_eq_true, beq_iff_eq] at hpart
        rcases hpart with hpart | rfl
        · exact hbyte c hpart
        · decide
      · cases hrest
    intro hzero
    rcases List.mem_cons.1 hzero with rfl | hzero
    · exact absurd hb (by decide)
    · rw [← List.takeWhile_append_dropWhile (p := isElementByte) (l := r)] at hzero
      rcases List.mem_append.1 hzero with htake | hmem
      · exact hbyte 0 (List.mem_takeWhile_imp htake) rfl
      · exact hdrop 0 hmem rfl

theorem plain_mode (m : Mode) : Plain m.text := by
  cases m <;> decide

theorem mode_text_inj {m m' : Mode} (h : m.text = m'.text) : m = m' := by
  cases m <;> cases m' <;> first | rfl | exact absurd h (by decide)

/-! ### Valid options -/

/-- What the check of options makes sure of. -/
structure Valid (o : Options) : Prop where
  tag : isElementName o.tag = true
  props : ∀ n ∈ o.props, isIdentifier n = true
  names : ∀ d ∈ o.derived, isIdentifier d.name = true

theorem isElementName_of_ofElement {path tag : Text} (h : Problem.ofElement path tag = []) :
    isElementName tag = true := by
  unfold Problem.ofElement at h
  split at h
  · cases h
  · split at h
    · assumption
    · cases h

theorem isIdentifier_of_ofName {path n : Text} (h : Problem.ofName path n = []) :
    isIdentifier n = true := by
  unfold Problem.ofName at h
  split at h
  · cases h
  · split at h
    · assumption
    · cases h

theorem valid_of_problems {o : Options} (h : o.problems = []) : Valid o := by
  unfold Options.problems at h
  simp only [List.append_eq_nil_iff] at h
  obtain ⟨⟨⟨htag, -⟩, hprops⟩, hderived⟩ := h
  refine ⟨isElementName_of_ofElement htag, fun n hn => ?_, fun d hd => ?_⟩
  · obtain ⟨i, hi, rfl⟩ := List.getElem_of_mem hn
    have hnone := List.flatten_eq_nil_iff.1 hprops _ (List.mem_mapIdx.2 ⟨i, hi, rfl⟩)
    split at hnone
    · assumption
    · cases hnone
  · obtain ⟨i, hi, rfl⟩ := List.getElem_of_mem hd
    have hnone := List.flatten_eq_nil_iff.1 hderived _ (List.mem_mapIdx.2 ⟨i, hi, rfl⟩)
    exact isIdentifier_of_ofName (List.append_eq_nil_iff.1 hnone).1

/-! ### What is hashed -/

/-- A source that starts like further derived values: where the one compilation has `more` derived
values, the other has their text at the front of its source. -/
def Swallows (ds ds' : List DerivedOption) (source source' : Text) : Prop :=
  ∃ more, ds' = ds ++ more ∧ source = more.flatMap derivedPart ++ source'

/-- Derived values of which the expressions hold no divider. -/
def PlainDerived (ds : List DerivedOption) : Prop := ∀ d ∈ ds, Plain d.source

/-- A derived value as it is hashed, up to the divider. -/
def derivedText (d : DerivedOption) : Text := d.name ++ "=" ++ d.source

theorem flatMap_derivedPart (ds : List DerivedOption) :
    ds.flatMap derivedPart = Text.terminated 0 (ds.map derivedText) := by
  rw [Text.terminated, List.flatMap_map]
  rfl

theorem derivedText_inj {d d' : DerivedOption} (hd : isIdentifier d.name = true)
    (hd' : isIdentifier d'.name = true) (h : derivedText d = derivedText d') : d = d' := by
  have hequals : ∀ {n : Text}, isIdentifier n = true → 61 ∉ n := fun hn =>
    notMem_of_isIdentifier hn (by decide) (by decide +kernel)
  rw [derivedText, derivedText, List.append_assoc, List.append_assoc] at h
  obtain ⟨hname, hsource⟩ := (Text.append_cons_inj (hequals hd) (hequals hd')).1 h
  cases d
  cases d'
  exact congr (congrArg DerivedOption.mk hname) hsource

theorem map_derivedText_inj {ds ds' : List DerivedOption} (hds : ∀ d ∈ ds, isIdentifier d.name = true)
    (hds' : ∀ d ∈ ds', isIdentifier d.name = true) (h : ds.map derivedText = ds'.map derivedText) :
    ds = ds' := by
  induction ds generalizing ds' with
  | nil => exact (List.map_eq_nil_iff.1 h.symm).symm
  | cons d r ih =>
    cases ds' with
    | nil => cases h
    | cons d' r' =>
      rw [List.forall_mem_cons] at hds hds'
      obtain ⟨hd, hr⟩ := List.cons.inj h
      rw [derivedText_inj hds.1 hds'.1 hd, ih hds.2 hds'.2 hr]

theorem plain_derivedText {d : DerivedOption} (hname : isIdentifier d.name = true)
    (hsource : Plain d.source) : Plain (derivedText d) := by
  intro hzero
  rw [derivedText, List.mem_append, List.mem_append] at hzero
  rcases hzero with (hzero | hzero) | hzero
  · exact plain_of_isIdentifier hname hzero
  · exact absurd hzero (by decide)
  · exact hsource hzero

theorem plain_namesText {names : List Text} (h : ∀ n ∈ names, isIdentifier n = true) :
    Plain (Tracing.namesText names) := by
  intro hzero
  rw [Tracing.namesText, List.mem_append, List.mem_append] at hzero
  rcases hzero with (hzero | hzero) | hzero
  · exact absurd hzero (by decide)
  · obtain hblank | ⟨n, hn, hzero⟩ := Text.mem_join (b := 32) hzero
    · exact absurd hblank (by decide)
    · exact plain_of_isIdentifier (h n hn) hzero
  · exact absurd hzero (by decide)

theorem namesText_inj {names names' : List Text} (h : ∀ n ∈ names, isIdentifier n = true)
    (h' : ∀ n ∈ names', isIdentifier n = true)
    (heq : Tracing.namesText names = Tracing.namesText names') : names = names' := by
  have hwords : ∀ {xs : List Text}, (∀ n ∈ xs, isIdentifier n = true) → ∀ n ∈ xs, n ≠ [] ∧ 32 ∉ n :=
    fun hxs n hn => ⟨ne_nil_of_isIdentifier (hxs n hn),
      notMem_of_isIdentifier (hxs n hn) (by decide) (by decide +kernel)⟩
  rw [Tracing.namesText, Tracing.namesText, List.append_left_inj, List.append_right_inj] at heq
  exact Text.join_inj (hwords h) (hwords h') heq

/-- Derived values and a source are the same text as others only if one source swallows what the other
compilation has more of derived values. -/
theorem derived_append_eq_iff {ds ds' : List DerivedOption} {source source' : Text}
    (hds : ∀ d ∈ ds, isIdentifier d.name = true ∧ Plain d.source)
    (hds' : ∀ d ∈ ds', isIdentifier d.name = true ∧ Plain d.source) :
    ds.flatMap derivedPart ++ source = ds'.flatMap derivedPart ++ source' ↔
      Swallows ds ds' source source' ∨ Swallows ds' ds source' source := by
  have hplain : ∀ {xs : List DerivedOption},
      (∀ d ∈ xs, isIdentifier d.name = true ∧ Plain d.source) → ∀ t ∈ xs.map derivedText, 0 ∉ t := by
    intro xs hxs t ht
    obtain ⟨d, hd, rfl⟩ := List.mem_map.1 ht
    exact plain_derivedText (hxs d hd).1 (hxs d hd).2
  have hmore : ∀ {xs ys : List DerivedOption} {s r : Text},
      (∀ d ∈ xs, isIdentifier d.name = true ∧ Plain d.source) →
      (∀ d ∈ ys, isIdentifier d.name = true ∧ Plain d.source) →
      ((∃ more, ys.map derivedText = xs.map derivedText ++ more ∧ s = Text.terminated 0 more ++ r) ↔
        Swallows xs ys s r) := by
    intro xs ys s r hxs hys
    constructor
    · rintro ⟨more, hmap, rfl⟩
      obtain ⟨front, back, rfl, hfront, rfl⟩ := List.map_eq_append_iff.1 hmap
      rw [List.forall_mem_append] at hys
      have heq := map_derivedText_inj (fun d hd => (hys.1 d hd).1) (fun d hd => (hxs d hd).1) hfront
      exact ⟨back, by rw [heq], by rw [flatMap_derivedPart]⟩
    · rintro ⟨more, rfl, rfl⟩
      exact ⟨more.map derivedText, List.map_append, by rw [flatMap_derivedPart]⟩
  rw [flatMap_derivedPart, flatMap_derivedPart,
    Text.terminated_append_eq_iff (hplain hds) (hplain hds'), hmore hds hds', hmore hds' hds]

/-- **When two compilations hash the same text.**  Tag, mode and props are the same, and so are derived
values and source unless the source of one starts with what reads like the further derived values of the
other. -/
theorem preimage_eq_iff {m m' : Mode} {o o' : Options} {source source' : Text}
    (ho : o.problems = []) (ho' : o'.problems = []) (hd : PlainDerived o.derived)
    (hd' : PlainDerived o'.derived) :
    preimage m o source = preimage m' o' source' ↔
      o.tag = o'.tag ∧ m = m' ∧ o.props = o'.props ∧
        (Swallows o.derived o'.derived source source' ∨
          Swallows o'.derived o.derived source' source) := by
  have hv := valid_of_problems ho
  have hv' := valid_of_problems ho'
  have hsplit : ∀ (m : Mode) (o : Options) (source : Text), preimage m o source =
      o.tag ++ 0 :: (m.text ++ 0 :: (Tracing.namesText o.props ++
        0 :: (o.derived.flatMap derivedPart ++ source))) := by
    intro m o source
    simp only [preimage, divider, List.append_assoc, List.cons_append, List.nil_append]
  rw [hsplit, hsplit, Text.append_cons_inj (plain_of_isElementName hv.tag) (plain_of_isElementName hv'.tag),
    Text.append_cons_inj (plain_mode m) (plain_mode m'),
    Text.append_cons_inj (plain_namesText hv.props) (plain_namesText hv'.props),
    derived_append_eq_iff (fun d hmem => ⟨hv.names d hmem, hd d hmem⟩)
      fun d hmem => ⟨hv'.names d hmem, hd' d hmem⟩]
  constructor
  · rintro ⟨htag, hmode, hprops, hrest⟩
    exact ⟨htag, mode_text_inj hmode, namesText_inj hv.props hv'.props hprops, hrest⟩
  · rintro ⟨htag, rfl, hprops, hrest⟩
    exact ⟨htag, rfl, by rw [hprops], hrest⟩

/-- A source that starts like a derived value. -/
example : preimage .module { tag := "x-a", derived := [⟨"d", "1"⟩] } "<p></p>" =
    preimage .module { tag := "x-a" } ("d=1" ++ divider ++ "<p></p>") := by
  decide

/-- A source without dividers swallows no derived value. -/
theorem Swallows.eq {ds ds' : List DerivedOption} {source source' : Text}
    (h : Swallows ds ds' source source') (hsource : Plain source) : ds = ds' ∧ source = source' := by
  obtain ⟨more, rfl, rfl⟩ := h
  cases more with
  | nil => exact ⟨(List.append_nil ds).symm, rfl⟩
  | cons d r =>
    refine absurd ?_ hsource
    rw [List.flatMap_cons, derivedPart, divider]
    simp

/-- Where expressions and sources hold no divider, the hashed text tells all inputs apart. -/
theorem preimage_inj {m m' : Mode} {o o' : Options} {source source' : Text}
    (ho : o.problems = []) (ho' : o'.problems = []) (hd : PlainDerived o.derived)
    (hd' : PlainDerived o'.derived) (hs : Plain source) (hs' : Plain source')
    (h : preimage m o source = preimage m' o' source') :
    o.tag = o'.tag ∧ m = m' ∧ o.props = o'.props ∧ o.derived = o'.derived ∧ source = source' := by
  obtain ⟨htag, hmode, hprops, hrest⟩ := (preimage_eq_iff ho ho' hd hd').1 h
  refine ⟨htag, hmode, hprops, ?_⟩
  obtain hrest | hrest := hrest
  · exact hrest.eq hs
  · obtain ⟨hderived, hsource⟩ := hrest.eq hs'
    exact ⟨hderived.symm, hsource.symm⟩

/-! ### Hashes -/

/-- Two texts with one digest. -/
def Collision : Prop := ∃ s t, s ≠ t ∧ Blake2b.digest s = Blake2b.digest t

end Artifact

theorem Text.hexDigit_inj : ∀ m < 16, ∀ n < 16, hexDigit m = hexDigit n → m = n := by
  decide

/-- Bytes are read back from their digits. -/
theorem Text.toHex_inj {s t : Text} (h : toHex s = toHex t) : s = t := by
  induction s generalizing t with
  | nil =>
    cases t with
    | nil => rfl
    | cons c t => cases h
  | cons b s ih =>
    cases t with
    | nil => cases h
    | cons c t =>
      obtain ⟨hhigh, hrest⟩ := List.cons.inj h
      obtain ⟨hlow, hrest⟩ := List.cons.inj hrest
      have hb := b.toNat_lt
      have hc := c.toNat_lt
      have hhigh := hexDigit_inj _ (by omega) _ (by omega) hhigh
      have hlow := hexDigit_inj _ (Nat.mod_lt _ (by decide)) _ (Nat.mod_lt _ (by decide)) hlow
      rw [ih hrest, UInt8.toNat_inj.1 (by omega : b.toNat = c.toNat)]

namespace Artifact

/-- **Equal hashes.**  If two compilations have one hash, their inputs are told apart only by what one
source swallows, or else two texts with one digest are at hand. -/
theorem same_inputs_or_collision {tr tr' : Tracing} {o o' : Options} {source source' : Text}
    {a a' : Artifact} {b b₁ b' b₁' : Bench} (h : compile tr o source b = (.ok a, b₁))
    (h' : compile tr' o' source' b' = (.ok a', b₁')) (hd : PlainDerived o.derived)
    (hd' : PlainDerived o'.derived) (hhash : a.hash = a'.hash) :
    (a.tag = a'.tag ∧ a.mode = a'.mode ∧ o.props = o'.props ∧
      (Swallows o.derived o'.derived source source' ∨
        Swallows o'.derived o.derived source' source)) ∨ Collision := by
  have hans := Compile.ensures_compile tr o source b b₁ a h
  have hans' := Compile.ensures_compile tr' o' source' b' b₁' a' h'
  rw [hans.hash, hans'.hash] at hhash
  by_cases heq : preimage a.mode o source = preimage a'.mode o' source'
  · rw [hans.tag, hans'.tag]
    exact .inl ((preimage_eq_iff hans.valid hans'.valid hd hd').1 heq)
  · exact .inr ⟨_, _, heq, Text.toHex_inj hhash⟩

end Artifact

end Reactive
