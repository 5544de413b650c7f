/-
Texts between nodes.

The nodes of a template that stay in its view divide their list into gaps, one
before each of them and one at the end.  In a gap stand texts, and between these
comments, scripts and styles, which vanish.  In the view a gap holds one text or
none: all its texts joined, unless what they amount to only lays the template out.

* `gaps` — the texts in the gaps of a list;
* `settled` — what is left of the texts in a gap;
* `Normal` — a list without neighbouring texts and without layout;
* `gaps_normalize` — joining first and dropping layout afterwards settles every gap;
* `normal_of_gaps` — a list with at most one text in a gap, and no layout, is normal.
-/
import Mathlib.Data.List.Chain
import Reactive.View.Build

namespace Reactive

/-- Whether a node of a template stays in the view as a node of its own. -/
def Template.Node.stays : Template.Node → Bool
  | .text .. | .comment .. => false
  | .mustache .. | .cond .. | .each .. => true
  | .element _ tag _ _ => Text.lower tag ≠ "script" && Text.lower tag ≠ "style"

/-- The text of a node of a template that is one. -/
def Template.Node.texts : Template.Node → List Text
  | .text _ t => [t]
  | _ => []

namespace View

/-- The text of a node of a view that is a fixed one. -/
def Node.texts : Node → List Text
  | .fixed _ t => [t]
  | _ => []

/-- Whether a node of a view is anything but a fixed text. -/
def Node.stays : Node → Bool
  | .fixed .. => false
  | _ => true

section

variable {α : Type} (stays : α → Bool) (texts : α → List Text)

/-- The texts in each gap of a list: before the first node that stays, between two of them, and
after the last. -/
def gaps : List α → List (List Text)
  | [] => [[]]
  | n :: r =>
    if stays n then [] :: gaps r else (texts n ++ (gaps r).headD []) :: (gaps r).tail

variable {stays texts}

theorem exists_gaps (ns : List α) : ∃ g gs, gaps stays texts ns = g :: gs := by
  cases ns with
  | nil => exact ⟨[], [], rfl⟩
  | cons n r =>
    rw [gaps]
    split
    · exact ⟨_, _, rfl⟩
    · exact ⟨_, _, rfl⟩

variable {n : α} {r : List α} {g : List Text} {gs : List (List Text)}

theorem gaps_of_stays (h : stays n = true) (r : List α) :
    gaps stays texts (n :: r) = [] :: gaps stays texts r :=
  if_pos h

theorem gaps_of_not_stays (h : stays n = false) (hr : gaps stays texts r = g :: gs) :
    gaps stays texts (n :: r) = (texts n ++ g) :: gs := by
  rw [gaps, hr, if_neg (by simp [h])]
  rfl

/-- A node that vanishes leaves the gaps as they are. -/
theorem gaps_of_vanishes (h : stays n = false) (htexts : texts n = []) (r : List α) :
    gaps stays texts (n :: r) = gaps stays texts r := by
  obtain ⟨g, gs, hr⟩ : ∃ g gs, gaps stays texts r = g :: gs := exists_gaps r
  rw [gaps_of_not_stays h hr, htexts, hr]
  rfl

end

/-- The texts of a list of nodes of a view, gap by gap. -/
abbrev Node.gaps (ns : List Node) : List (List Text) := View.gaps Node.stays Node.texts ns

/-- The texts of a list of nodes of a template, gap by gap. -/
abbrev templateGaps (ns : List Template.Node) : List (List Text) :=
  View.gaps Template.Node.stays Template.Node.texts ns

/-! ### Settling -/

/-- What is left of the texts in a gap: all of them joined, unless they only lay the template
out. -/
def settled : List Text → List Text
  | [] => []
  | t :: r => if isLayout (t :: r).flatten then [] else [(t :: r).flatten]

/-- The texts in a gap as one text. -/
def joined : List Text → List Text
  | [] => []
  | t :: r => [(t :: r).flatten]

theorem filter_joined (g : List Text) : (joined g).filter (!isLayout ·) = settled g := by
  cases g with
  | nil => rfl
  | cons t r =>
    rw [settled, joined, List.filter_cons, List.filter_nil]
    cases isLayout (t :: r).flatten <;> rfl

theorem Node.exists_fixed {n : Node} (h : n.stays = false) : ∃ i t, n = .fixed i t := by
  cases n with
  | fixed i t => exact ⟨i, t, rfl⟩
  | _ => cases h

section

variable {ns : List Node} {n : Node}

theorem Node.exists_gaps (ns : List Node) : ∃ g gs, Node.gaps ns = g :: gs :=
  View.exists_gaps ns

theorem Node.gaps_of_stays (h : n.stays = true) (r : List Node) :
    Node.gaps (n :: r) = [] :: Node.gaps r :=
  View.gaps_of_stays h r

theorem Node.gaps_fixed (i : Nat) (t : Text) {g : List Text} {gs : List (List Text)}
    (h : Node.gaps ns = g :: gs) : Node.gaps (.fixed i t :: ns) = (t :: g) :: gs :=
  gaps_of_not_stays rfl h

theorem joinTexts_of_stays (h : n.stays = true) (ns : List Node) : joinTexts n ns = n :: ns := by
  cases n with
  | fixed i t => cases h
  | _ => rfl

/-- A text joins what is first in the gap after it. -/
theorem gaps_joinTexts (i : Nat) (t : Text) {g : List Text} {gs : List (List Text)}
    (h : Node.gaps ns = joined g :: gs) :
    Node.gaps (joinTexts (.fixed i t) ns) = joined (t :: g) :: gs := by
  have halone : (∀ j u r, ns ≠ .fixed j u :: r) →
      joinTexts (.fixed i t) ns = .fixed i t :: ns ∧ joined g = [] := by
    intro hne
    cases ns with
    | nil => exact ⟨rfl, (List.cons.inj h).1.symm⟩
    | cons m r =>
      have hm : m.stays = true := by
        cases hs : m.stays with
        | true => rfl
        | false =>
          obtain ⟨j, u, rfl⟩ := Node.exists_fixed hs
          exact absurd rfl (hne j u r)
      rw [Node.gaps_of_stays hm] at h
      refine ⟨?_, (List.cons.inj h).1.symm⟩
      cases m with
      | fixed j u => cases hm
      | _ => rfl
  by_cases hfixed : ∃ j u r, ns = .fixed j u :: r
  · obtain ⟨j, u, r, rfl⟩ := hfixed
    obtain ⟨g', gs', hr⟩ := Node.exists_gaps r
    obtain ⟨hg, rfl⟩ := List.cons.inj ((Node.gaps_fixed j u hr).symm.trans h)
    have hstep := Node.gaps_fixed i (t ++ u) hr
    cases g with
    | nil => cases hg
    | cons s q =>
      obtain ⟨rfl, rfl⟩ := List.cons.inj hg
      exact hstep
  · obtain ⟨hjoin, hg⟩ := halone fun j u r hns => hfixed ⟨j, u, r, hns⟩
    rw [hjoin, Node.gaps_fixed i t h]
    cases g with
    | nil => simp [joined]
    | cons s q => cases hg

theorem gaps_foldr_joinTexts (ns : List Node) :
    Node.gaps (ns.foldr joinTexts []) = (Node.gaps ns).map joined := by
  induction ns with
  | nil => rfl
  | cons n r ih =>
    rw [List.foldr_cons]
    cases hn : n.stays with
    | true => rw [joinTexts_of_stays hn, Node.gaps_of_stays hn, Node.gaps_of_stays hn, ih]; rfl
    | false =>
      obtain ⟨i, t, rfl⟩ := Node.exists_fixed hn
      obtain ⟨g, gs, hr⟩ := Node.exists_gaps r
      rw [hr] at ih
      rw [gaps_joinTexts i t ih, Node.gaps_fixed i t hr]
      rfl

theorem Node.not_isLayout (h : n.stays = true) : n.isLayout = false := by
  cases n with
  | fixed i t => cases h
  | _ => rfl

theorem gaps_filter (ns : List Node) :
    Node.gaps (ns.filter fun n => !n.isLayout) =
      (Node.gaps ns).map fun g => g.filter (!isLayout ·) := by
  induction ns with
  | nil => rfl
  | cons n r ih =>
    cases hn : n.stays with
    | true =>
      rw [List.filter_cons_of_pos (by rw [Node.not_isLayout hn]; rfl), Node.gaps_of_stays hn,
        Node.gaps_of_stays hn, ih]
      rfl
    | false =>
      obtain ⟨i, t, rfl⟩ := Node.exists_fixed hn
      obtain ⟨g, gs, hr⟩ := Node.exists_gaps r
      rw [hr] at ih
      rw [Node.gaps_fixed i t hr, List.map_cons]
      cases ht : isLayout t with
      | true =>
        rw [List.filter_cons_of_neg (by simp [Node.isLayout, ht]),
          List.filter_cons_of_neg (by simp [ht]), ih]
        rfl
      | false =>
        rw [List.filter_cons_of_pos (by simp [Node.isLayout, ht]),
          List.filter_cons_of_pos (by simp [ht]), Node.gaps_fixed i t ih]

/-- Joining neighbouring texts and dropping layout settles every gap. -/
theorem gaps_normalize (ns : List Node) :
    Node.gaps (normalize ns) = (Node.gaps ns).map settled := by
  rw [normalize, gaps_filter, gaps_foldr_joinTexts, List.map_map]
  exact List.map_congr_left fun g _ => filter_joined g

/-- It leaves the other nodes as they are. -/
theorem stays_normalize (ns : List Node) :
    (normalize ns).filter Node.stays = ns.filter Node.stays := by
  have hkeep : ∀ ms : List Node,
      (ms.filter fun n => !n.isLayout).filter Node.stays = ms.filter Node.stays := by
    intro ms
    rw [List.filter_filter]
    refine List.filter_congr fun n _ => ?_
    cases hn : n.stays with
    | true => rw [Node.not_isLayout hn]; rfl
    | false => rfl
  have hjoin : ∀ (n : Node) (rest : List Node),
      (joinTexts n rest).filter Node.stays = (n :: rest).filter Node.stays := by
    intro n rest
    unfold joinTexts
    split
    · rfl
    · rfl
  rw [normalize, hkeep]
  induction ns with
  | nil => rfl
  | cons n r ih => rw [List.foldr_cons, hjoin, List.filter_cons, ih, ← List.filter_cons]

end

/-! ### Normal lists -/

/-- No two fixed texts are neighbours, and none only lays the template out. -/
structure Normal (ns : List Node) : Prop where
  apart : ns.IsChain fun a b => a.stays = true ∨ b.stays = true
  kept : ∀ n ∈ ns, n.isLayout = false

theorem normal_of_gaps {ns : List Node}
    (h : ∀ g ∈ Node.gaps ns, g.length ≤ 1 ∧ ∀ t ∈ g, isLayout t = false) : Normal ns := by
  induction ns with
  | nil => exact ⟨.nil, List.forall_mem_nil _⟩
  | cons n r ih =>
    cases hn : n.stays with
    | true =>
      rw [Node.gaps_of_stays hn] at h
      obtain ⟨hapart, hkept⟩ := ih fun g hg => h g (List.mem_cons_of_mem _ hg)
      exact ⟨List.isChain_cons.2 ⟨fun _ _ => .inl hn, hapart⟩,
        List.forall_mem_cons.2 ⟨Node.not_isLayout hn, hkept⟩⟩
    | false =>
      obtain ⟨i, t, rfl⟩ := Node.exists_fixed hn
      obtain ⟨g, gs, hr⟩ := Node.exists_gaps r
      rw [Node.gaps_fixed i t hr] at h
      obtain ⟨⟨hone, hlayout⟩, hrest⟩ := List.forall_mem_cons.1 h
      -- The gap is full with this text: what comes next is no text.
      obtain rfl : g = [] := List.eq_nil_of_length_eq_zero (by simpa using hone)
      obtain ⟨hapart, hkept⟩ := ih (by
        rw [hr]
        exact List.forall_mem_cons.2 ⟨⟨Nat.zero_le _, List.forall_mem_nil _⟩, hrest⟩)
      refine ⟨List.isChain_cons.2 ⟨fun m hm => ?_, hapart⟩,
        List.forall_mem_cons.2 ⟨hlayout t (List.mem_singleton_self t), hkept⟩⟩
      cases hs : m.stays with
      | true => exact .inr rfl
      | false =>
        obtain ⟨j, u, rfl⟩ := Node.exists_fixed hs
        cases r with
        | nil => cases hm
        | cons m' r' =>
          obtain rfl : m' = .fixed j u := by simpa using hm
          obtain ⟨g', gs', hr'⟩ := Node.exists_gaps r'
          rw [Node.gaps_fixed j u hr'] at hr
          cases hr

theorem settled_tidy (g : List Text) :
    (settled g).length ≤ 1 ∧ ∀ t ∈ settled g, isLayout t = false := by
  cases g with
  | nil => exact ⟨Nat.zero_le _, List.forall_mem_nil _⟩
  | cons t r =>
    rw [settled]
    split
    · exact ⟨Nat.zero_le _, List.forall_mem_nil _⟩
    · rename_i hlayout
      exact ⟨Nat.le_refl 1, List.forall_mem_singleton.2 (Bool.eq_false_iff.2 hlayout)⟩

/-- A list of which every gap is settled is normal. -/
theorem normal_of_settled {ns : List Node} {gs : List (List Text)}
    (h : Node.gaps ns = gs.map settled) : Normal ns := by
  refine normal_of_gaps fun g hg => ?_
  rw [h] at hg
  obtain ⟨g', -, rfl⟩ := List.mem_map.1 hg
  exact settled_tidy g'

end View

end Reactive
