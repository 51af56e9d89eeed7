import Mathlib.Algebra.GroupWithZero.Nat
import Mathlib.Order.Interval.Finset.Nat

set_option autoImplicit false

/-!
# Tilings by half-open intervals

A list of intervals tiles another if its intervals do not overlap and both cover the same points.

## Main definitions

* `Span`, `Tiles` — intervals and tilings.

## Main results

* `Tiles.cut_iff`, `Tiles.append` — parts are cut, joined and added.
-/

/-- The numbers from `start` up to but not including `stop`. -/
structure Span where
  start : ℕ
  stop : ℕ
  deriving DecidableEq, Repr

namespace Span

open List Finset

/-- The point lies in the interval. -/
def Has (s : Span) (x : ℕ) : Prop := s.start ≤ x ∧ x < s.stop

/-- The intervals do not overlap: one ends before the other starts. -/
def Disj (s t : Span) : Prop := s.stop ≤ t.start ∨ t.stop ≤ s.start
  deriving Decidable

lemma Disj.symm {s t : Span} (h : s.Disj t) : t.Disj s := Or.symm h

/-- The point lies in one of the intervals. -/
def Covers (l : List Span) (x : ℕ) : Prop := ∃ s ∈ l, s.Has x

variable {l : List Span} {x : ℕ}

lemma covers_append {r : List Span} : Covers (l ++ r) x ↔ Covers l x ∨ Covers r x := by
  simp only [Covers, mem_append, or_and_right, exists_or]

lemma covers_cons {s : Span} : Covers (s :: l) x ↔ s.Has x ∨
    Covers l x := by
  simp [Covers]

lemma not_covers_nil : ¬ Covers [] x := by
  simp [Covers]

def length (s : Span) : ℕ := s.stop - s.start

lemma exists_points (h : l.Pairwise Disj) :
    ∃ S : Finset ℕ, S.card = (l.map length).sum ∧ ∀ x ∈ S, Covers l x := by
  induction l with
  | nil => exact ⟨∅, rfl, by simp⟩
  | cons s l ih =>
    obtain ⟨hs, hl⟩ := pairwise_cons.1 h
    obtain ⟨S, hcard, hcov⟩ := ih hl
    have hdisj : Disjoint (Finset.Ico s.start s.stop) S := by
      refine disjoint_left.2 fun x hx hxS => ?_
      obtain ⟨t, ht, hle, hlt⟩ := hcov x hxS
      have hst := hs t ht
      rw [mem_Ico] at hx
      simp only [Disj] at hst
      omega
    refine ⟨Finset.Ico s.start s.stop ∪ S, ?_, fun x hx => ?_⟩
    · rw [card_union_of_disjoint hdisj, Nat.card_Ico, hcard, List.map_cons, List.sum_cons]
      rfl
    · rw [covers_cons]
      rcases mem_union.1 hx with hx | hx
      · exact .inl (mem_Ico.1 hx)
      · exact .inr (hcov x hx)

/-- **Intervals that do not overlap fit into a window** only if their lengths do. -/
theorem sum_length_le {a b : ℕ} (h : l.Pairwise Disj)
    (hin : ∀ s ∈ l, a ≤ s.start ∧ s.stop ≤ b) : (l.map length).sum ≤ b - a := by
  obtain ⟨S, hcard, hcov⟩ := exists_points h
  have hsub : S ⊆ Finset.Ico a b := by
    intro x hx
    obtain ⟨s, hs, hle, hlt⟩ := hcov x hx
    have hwin := hin s hs
    rw [mem_Ico]
    omega
  calc (l.map length).sum = S.card := hcard.symm
    _ ≤ (Finset.Ico a b).card := card_le_card hsub
    _ = b - a := Nat.card_Ico a b

/-- The intervals `parts` do not overlap and cover the same points as `wholes`. -/
structure Tiles (parts wholes : List Span) : Prop where
  disjoint : parts.Pairwise Disj
  covers : ∀ x, Covers parts x ↔ Covers wholes x

namespace Tiles

variable {l r wholes : List Span} {s t u : Span}

/-- **One part is cut in two**, or two become one. No part is empty. -/
theorem cut_iff (hstart : t.start = s.start) (hcut : t.stop = u.start) (hstop : u.stop = s.stop)
    (hpos : ∀ v ∈ l ++ t :: u :: r, v.start < v.stop) :
    Tiles (l ++ t :: u :: r) wholes ↔ Tiles (l ++ s :: r) wholes := by
  have ht := hpos t (by simp)
  have hu := hpos u (by simp)
  have hdisj : ∀ v ∈ l ++ r, s.Disj v ↔ t.Disj v ∧ u.Disj v := by
    intro v hv
    have := hpos v (by grind)
    simp only [Disj]
    omega
  have hhas : ∀ x, s.Has x ↔ t.Has x ∨ u.Has x := by
    simp only [Has]
    omega
  have hpair : (l ++ t :: u :: r).Pairwise Disj ↔ (l ++ s :: r).Pairwise Disj := by
    have htu : t.Disj u := .inl hcut.le
    simp only [pairwise_middle Disj.symm, List.pairwise_cons]
    grind
  have hcovers : ∀ x, Covers (l ++ t :: u :: r) x ↔ Covers (l ++ s :: r) x := by
    intro x
    simp only [covers_append, covers_cons, hhas, or_assoc]
  exact ⟨fun h => ⟨hpair.1 h.1, fun x => (hcovers x).symm.trans (h.2 x)⟩,
    fun h => ⟨hpair.2 h.1, fun x => (hcovers x).trans (h.2 x)⟩⟩

/-- **Another interval is added**, as a part and as a whole. -/
theorem append (h : Tiles l wholes) (hs : ∀ w ∈ wholes, s.Disj w) (hpos : s.start < s.stop)
    (hl : ∀ t ∈ l, t.start < t.stop) : Tiles (l ++ [s]) (s :: wholes) where
  disjoint := by
    rw [pairwise_append]
    refine ⟨h.disjoint, pairwise_singleton _ _, fun t ht u hu => ?_⟩
    rw [List.mem_singleton.1 hu]
    -- otherwise the larger of the two starting points lies in both, and so in a whole
    by_contra hnot
    have htp := hl t ht
    have hx : Covers l (max t.start s.start) := by
      refine ⟨t, ht, Nat.le_max_left _ _, ?_⟩
      simp only [Disj] at hnot
      omega
    obtain ⟨w, hw, hle, hlt⟩ := (h.covers _).1 hx
    have hdisj := hs w hw
    simp only [Disj] at hnot hdisj
    omega
  covers := by
    intro x
    simp only [covers_append, covers_cons, h.covers, not_covers_nil, or_false]
    exact or_comm

end Tiles

end Span
