import Mathlib.Order.Basic
import Mathlib.Order.Nat
import Mathlib.Data.Nat.Find

/-!
# `StartKernel.Lib.FirstFit`: runs of good positions

Positions below a bound `n` are good or bad. A run of `k` good positions *fits* at `i` when it
starts at `i` and ends below the bound, and it is the *first* fit when none fits before `i`.

A linear search rules out starting points for two reasons: a bad position inside the run
(`not_fits_of_bad`), or the bound (`not_fits_of_end`). A run that fits makes a first one
(`exists_first`), and the first run of `k` positions decides about runs of `k + 1`
(`First.extend`).
-/

set_option autoImplicit false

namespace FirstFit

variable {good : Nat → Prop} {n k i j b : Nat}

/-- A run of `k` good positions starts at `i` and ends below `n`. -/
structure Fits (good : Nat → Prop) (n k i : Nat) : Prop where
  inside : i + k ≤ n
  all : ∀ j < k, good (i + j)

/-- The run at `i` is the first one that fits. -/
structure First (good : Nat → Prop) (n k i : Nat) : Prop extends Fits good n k i where
  least : ∀ j < i, ¬ Fits good n k j

/-- No run contains a bad position. -/
theorem not_fits_of_bad (hb : ¬ good b) (h₁ : i ≤ b) (h₂ : b < i + k) : ¬ Fits good n k i := by
  intro h
  have hg := h.all (b - i) (by omega)
  rw [show i + (b - i) = b by omega] at hg
  exact hb hg

/-- No run passes the bound. -/
theorem not_fits_of_end (h : n < i + k) : ¬ Fits good n k i :=
  fun hf => absurd hf.inside (by omega)

/-- There is one first fit only. -/
theorem First.unique (hi : First good n k i) (hj : First good n k j) : i = j := by
  rcases Nat.lt_trichotomy i j with h | h | h
  · exact absurd hi.toFits (hj.least i h)
  · exact h
  · exact absurd hj.toFits (hi.least j h)

/-- The first fit below a bound is the first one below a larger bound. -/
theorem First.mono {n' : Nat} (h : First good n k i) (hn : n ≤ n') : First good n' k i where
  inside := Nat.le_trans h.inside hn
  all := h.all
  least := by
    intro j hj hfit
    have hinside := h.inside
    exact h.least j hj ⟨by omega, hfit.all⟩

/-- A run is also a run of fewer positions. -/
theorem Fits.shorten {k' : Nat} (h : Fits good n k i) (hk : k' ≤ k) : Fits good n k' i where
  inside := by
    have hinside := h.inside
    omega
  all := fun j hj => h.all j (by omega)

/-- The first run of `k` positions is the first run of `k + 1` when one more is good. -/
theorem First.extend (h : First good n k i) (hin : i + k < n) (hlast : good (i + k)) :
    First good n (k + 1) i where
  inside := hin
  all := by
    intro j hj
    rcases Nat.lt_succ_iff_lt_or_eq.mp hj with hlt | rfl
    · exact h.all j hlt
    · exact hlast
  least := fun j hj hfit => h.least j hj (hfit.shorten (Nat.le_succ k))

/-- When some run fits, one is the first. -/
theorem exists_first (h : ∃ i, Fits good n k i) : ∃ i, First good n k i := by
  classical
  exact ⟨Nat.find h, Nat.find_spec h, fun j hj => Nat.find_min h hj⟩

end FirstFit
