import Mathlib.Order.Basic

/-!
# `StartKernel.Lib.Ownership`: resources with one user each

`uses f r` says that the resource `f` is used in the role `r`, and `taken f` that an
allocator counts `f` as handed out. `Owned uses taken` says that what is used is taken, and
is used in one role only. A taken resource that nobody uses is allowed: it has leaked.

* `Owned.insert`: an unused resource gets a role.
* `Owned.release`: some roles end, and only resources of these roles are given back.
-/

set_option autoImplicit false

namespace Ownership

variable {F R : Type}

/-- What is used is taken, and used in one role only. -/
structure Owned (uses : F → R → Prop) (taken : F → Prop) : Prop where
  taken : ∀ {f r}, uses f r → taken f
  unique : ∀ {f r r'}, uses f r → uses f r' → r = r'

variable {uses uses' : F → R → Prop} {taken taken' : F → Prop} {f₀ : F}

/-- Fewer uses, and nothing that is used is given back. -/
theorem Owned.mono (h : Owned uses taken) (hu : ∀ f r, uses' f r → uses f r)
    (ht : ∀ f, taken f → taken' f) : Owned uses' taken' where
  taken hf := ht _ (h.taken (hu _ _ hf))
  unique hf hf' := h.unique (hu _ _ hf) (hu _ _ hf')

/-- An unused resource gets the role `r₀`. -/
theorem Owned.insert (h : Owned uses taken) (r₀ : R) (hf : ∀ r, ¬ uses f₀ r)
    (hu : ∀ f r, uses' f r → uses f r ∨ (f = f₀ ∧ r = r₀))
    (ht : ∀ f, taken f → taken' f) (ht₀ : taken' f₀) : Owned uses' taken' where
  taken := by
    intro f r hfr
    rcases hu f r hfr with hold | ⟨rfl, rfl⟩
    · exact ht f (h.taken hold)
    · exact ht₀
  unique := by
    intro f r r' hfr hfr'
    rcases hu f r hfr with hold | ⟨rfl, rfl⟩
    · rcases hu f r' hfr' with hold' | ⟨rfl, rfl⟩
      · exact h.unique hold hold'
      · exact absurd hold (hf r)
    · rcases hu f r' hfr' with hold' | ⟨-, rfl⟩
      · exact absurd hold' (hf r')
      · rfl

/-- The roles in `gone` end. A resource in another role is not given back. -/
theorem Owned.release (h : Owned uses taken) (gone : R → Prop)
    (hu : ∀ f r, uses' f r → uses f r ∧ ¬ gone r)
    (ht : ∀ f, taken f → (∀ r, uses f r → ¬ gone r) → taken' f) : Owned uses' taken' where
  taken := by
    intro f r hfr
    obtain ⟨hold, hr⟩ := hu f r hfr
    refine ht f (h.taken hold) fun r' hr' => ?_
    rw [h.unique hr' hold]
    exact hr
  unique hf hf' := h.unique (hu _ _ hf).1 (hu _ _ hf').1

end Ownership
