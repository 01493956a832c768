import Mathlib.Data.List.Perm.Basic
import Mathlib.Data.List.Nodup
import Mathlib.Order.Interval.Finset.Nat
import Mathlib.Algebra.GroupWithZero.Nat

/-!
# `StartKernel.Lib.Ranges`: disjoint ranges of used positions

Positions below a bound `n` are used or not. `Tiles used n rs` says that the ranges of `rs`,
pairs of a first position and a length, are pairwise disjoint, lie below the bound and
cover exactly the used positions.

* `Tiles.cons` / `Tiles.of_cons`: a range may be added exactly when none of its positions is
  used and it lies below the bound.
* `Tiles.erase`: a range is given back.
* `sum_length_le`: disjoint ranges of positions below a bound are not longer than it in total.
-/

set_option autoImplicit false

namespace Ranges

/-- The position lies in the range. -/
def Covers (r : Nat × Nat) (j : Nat) : Prop := r.1 ≤ j ∧ j < r.1 + r.2

/-- The ranges do not overlap: one ends before the other starts. -/
def Disjoint (r r' : Nat × Nat) : Prop := r.1 + r.2 ≤ r'.1 ∨ r'.1 + r'.2 ≤ r.1

variable {used used' : Nat → Prop} {n i k j : Nat} {r r' : Nat × Nat} {rs : List (Nat × Nat)}

/-- The ranges of `rs` are disjoint, lie below `n` and cover exactly the used positions. -/
structure Tiles (used : Nat → Prop) (n : Nat) (rs : List (Nat × Nat)) : Prop where
  disjoint : rs.Pairwise Disjoint
  inside : ∀ r ∈ rs, r.1 + r.2 ≤ n
  exact : ∀ j < n, used j ↔ ∃ r ∈ rs, Covers r j

theorem Disjoint.symm (h : Disjoint r r') : Disjoint r' r := Or.symm h

/-- Disjoint ranges share no position. -/
theorem Disjoint.not_covers (h : Disjoint r r') (hj : Covers r j) : ¬ Covers r' j := by
  unfold Disjoint Covers at *
  omega

/-- Two ranges that share no position, the first one not empty, do not overlap. -/
theorem disjoint_of_not_covers (hr : ∀ j, Covers r j → ¬ Covers r' j) : Disjoint r r' ∨
    r.2 = 0 ∨ r'.2 = 0 := by
  unfold Disjoint Covers at *
  have h₁ := hr r.1
  have h₂ := hr r'.1
  omega

/-- A range of unused positions below the bound is added. -/
theorem Tiles.cons (h : Tiles used n rs) (hpos : ∀ r ∈ rs, 1 ≤ r.2) (hk : 1 ≤ k)
    (hin : i + k ≤ n) (hfree : ∀ j, Covers (i, k) j → ¬ used j)
    (hused : ∀ j < n, used' j ↔ used j ∨ Covers (i, k) j) : Tiles used' n ((i, k) :: rs) := by
  refine ⟨List.pairwise_cons.mpr ⟨fun r hr => ?_, h.disjoint⟩, fun r hr => ?_, fun j hj => ?_⟩
  · have hno : ∀ j, Covers (i, k) j → ¬ Covers r j := by
      intro j hj hrj
      have hjn : j < n := by
        unfold Covers at hj
        omega
      exact hfree j hj ((h.exact j hjn).mpr ⟨r, hr, hrj⟩)
    have hr2 := hpos r hr
    rcases disjoint_of_not_covers hno with hd | h0 | h0
    · exact hd
    · simp only at h0
      omega
    · omega
  · rcases List.mem_cons.mp hr with rfl | hr
    · exact hin
    · exact h.inside r hr
  · rw [hused j hj, h.exact j hj]
    simp [or_comm]

/-- An added range has only positions that were not used before. -/
theorem Tiles.of_cons (h : Tiles used n rs) (h' : Tiles used' n ((i, k) :: rs)) :
    i + k ≤ n ∧ ∀ j, Covers (i, k) j → ¬ used j := by
  have hin : i + k ≤ n := h'.inside (i, k) (by simp)
  refine ⟨hin, fun j hj hu => ?_⟩
  have hjn : j < n := by
    unfold Covers at hj
    omega
  obtain ⟨r, hr, hrj⟩ := (h.exact j hjn).mp hu
  exact ((List.pairwise_cons.mp h'.disjoint).1 r hr).not_covers hj hrj

/-- A range is given back. -/
theorem Tiles.erase (h : Tiles used n rs) (hr : r ∈ rs)
    (hused : ∀ j < n, used' j ↔ used j ∧ ¬ Covers r j) : Tiles used' n (rs.erase r) := by
  have hperm : rs.Perm (r :: rs.erase r) := List.perm_cons_erase hr
  have hpair : (r :: rs.erase r).Pairwise Disjoint :=
    (hperm.pairwise_iff fun h => h.symm).mp h.disjoint
  obtain ⟨hhead, htail⟩ := List.pairwise_cons.mp hpair
  refine ⟨htail, fun r' hr' => h.inside r' (List.mem_of_mem_erase hr'), fun j hj => ?_⟩
  rw [hused j hj, h.exact j hj]
  constructor
  · rintro ⟨⟨r', hr', hc⟩, hn⟩
    rcases List.mem_cons.mp (hperm.mem_iff.mp hr') with rfl | hr'
    · exact absurd hc hn
    · exact ⟨r', hr', hc⟩
  · rintro ⟨r', hr', hc⟩
    exact ⟨⟨r', List.mem_of_mem_erase hr', hc⟩, fun hcr => (hhead r' hr').not_covers hcr hc⟩

/-- Disjoint ranges of positions below a bound are not longer than it in total. -/
theorem sum_length_le (h : rs.Pairwise Disjoint) (hin : ∀ r ∈ rs, ∀ j, Covers r j → j < n) :
    (rs.map Prod.snd).sum ≤ n := by
  -- The total length is the number of the positions that are covered.
  have hcard : ∃ s : Finset Nat, s.card = (rs.map Prod.snd).sum ∧
      ∀ j ∈ s, ∃ r ∈ rs, Covers r j := by
    clear hin
    induction rs with
    | nil => exact ⟨∅, rfl, by simp⟩
    | cons r rs ih =>
      obtain ⟨hr, hrs⟩ := List.pairwise_cons.mp h
      obtain ⟨s, hs, hcov⟩ := ih hrs
      have hdis : ∀ j ∈ Finset.Ico r.1 (r.1 + r.2), j ∉ s := by
        intro j hj hjs
        obtain ⟨r', hr', hj'⟩ := hcov j hjs
        exact (hr r' hr').not_covers (Finset.mem_Ico.mp hj) hj'
      refine ⟨Finset.Ico r.1 (r.1 + r.2) ∪ s, ?_, ?_⟩
      · rw [Finset.card_union_of_disjoint (Finset.disjoint_left.mpr fun j hj => hdis j hj), hs,
          Nat.card_Ico, Nat.add_sub_cancel_left]
        rfl
      · intro j hj
        rcases Finset.mem_union.mp hj with hj | hj
        · exact ⟨r, by simp, Finset.mem_Ico.mp hj⟩
        · obtain ⟨r', hr', hj'⟩ := hcov j hj
          exact ⟨r', by simp [hr'], hj'⟩
  obtain ⟨s, hs, hcov⟩ := hcard
  have hsub : s ⊆ Finset.range n := by
    intro j hj
    obtain ⟨r, hr, hj'⟩ := hcov j hj
    exact Finset.mem_range.mpr (hin r hr j hj')
  rw [← hs, ← Finset.card_range n]
  exact Finset.card_le_card hsub

end Ranges
