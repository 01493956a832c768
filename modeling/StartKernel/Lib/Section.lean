import Mathlib.Data.List.Basic

/-!
# `StartKernel.Lib.Section`: sections of code that are cut into steps

A section works on shared data in many small steps, and anything may happen between two steps
that leaves the data alone. `Body` gives the steps of a section: its local state, and what one
step does to the data. A step can read something from outside, such as a device.

* `Whole`: a section from its first to its last step.
* `Serial`: whole sections, one after the other.
* `Whole.eq`: a section computes a function, when each step keeps what is left to compute.
* `Serial.replays`: then the sections in a row are calls of the function in a row.
-/

set_option autoImplicit false

namespace Section

variable {T E J L D R : Type}

/-- What a step of a section ends in: the next local state, or the result. -/
inductive Turn (L R : Type)
  | next (l : L)
  | done (r : R)

/-- The steps of a section for a job `J`, on the data `D` and with the local state `L`. -/
structure Body (E J L D R : Type) where
  init : J → L
  step : E → L → D → D × Turn L R

variable {b : Body E J L D R} {j : J} {l l' : L} {r : R} {d d' d₀ d₁ : D} {e : E}

/-- The section of the job `j` that started with the data `d` has got to the local state `l`. -/
inductive Partial (b : Body E J L D R) (j : J) (d : D) : L → D → Prop
  | start : Partial b j d (b.init j) d
  | step {e : E} {l l' : L} {d₁ d₂ : D} (h : Partial b j d l d₁)
      (hstep : b.step e l d₁ = (d₂, .next l')) : Partial b j d l' d₂

/-- The section of the job `j` turns the data `d` into `d'` and gives the result `r`. -/
def Whole (b : Body E J L D R) (j : J) (d : D) (r : R) (d' : D) : Prop :=
  ∃ e l d₁, Partial b j d l d₁ ∧ b.step e l d₁ = (d', .done r)

/-- A section that is over: who ran it, for which job and with which result. -/
structure Entry (T J R : Type) where
  agent : T
  job : J
  result : R

/-- The sections of the list, one after the other, turn the data `d` into `d'`. -/
inductive Serial (b : Body E J L D R) : D → List (Entry T J R) → D → Prop
  | nil {d : D} : Serial b d [] d
  | cons {d d₁ d' : D} {x : Entry T J R} {xs : List (Entry T J R)}
      (h : Whole b x.job d x.result d₁) (hrest : Serial b d₁ xs d') : Serial b d (x :: xs) d'

/-- One more section behind the others. -/
theorem Serial.snoc {xs : List (Entry T J R)} {x : Entry T J R} (h : Serial b d xs d₁)
    (hx : Whole b x.job d₁ x.result d') : Serial b d (xs ++ [x]) d' := by
  induction h with
  | nil => exact Serial.cons hx Serial.nil
  | cons hfirst _ ih => exact Serial.cons hfirst (ih hx)

/-- The entries of the list are calls of `f` in a row. -/
def Replays (f : J → D → D × R) : D → List (Entry T J R) → D → Prop
  | d, [], d' => d' = d
  | d, x :: xs, d' => (f x.job d).2 = x.result ∧ Replays f (f x.job d).1 xs d'

/-- Calls in a row, in front of and behind a point. -/
theorem replays_append {f : J → D → D × R} {xs ys : List (Entry T J R)} :
    Replays f d (xs ++ ys) d' ↔ ∃ d₁, Replays f d xs d₁ ∧ Replays f d₁ ys d' := by
  induction xs generalizing d with
  | nil => exact ⟨fun h => ⟨d, rfl, h⟩, fun ⟨_, h₁, h⟩ => h₁ ▸ h⟩
  | cons x xs ih =>
    show _ ∧ Replays f _ (xs ++ ys) d' ↔ _
    rw [ih]
    constructor
    · rintro ⟨hres, d₁, h₁, h₂⟩
      exact ⟨d₁, ⟨hres, h₁⟩, h₂⟩
    · rintro ⟨d₁, ⟨hres, h₁⟩, h₂⟩
      exact ⟨hres, d₁, h₁, h₂⟩

/-- What holds at the start of a section and is kept by each step holds inside of it. -/
theorem Partial.invariant {I : L → D → Prop} (hstart : I (b.init j) d)
    (hstep : ∀ e l d₁ d₂ l', I l d₁ → b.step e l d₁ = (d₂, .next l') → I l' d₂)
    (h : Partial b j d l d₁) : I l d₁ := by
  induction h with
  | start => exact hstart
  | step _ hturn ih => exact hstep _ _ _ _ _ ih hturn

section Function

variable {f : J → D → D × R} {g : L → D → D × R}

/-- What is left to compute does not change from the start of a section on. -/
theorem Partial.eq (hnext : ∀ e l d d' l', b.step e l d = (d', .next l') → g l' d' = g l d)
    (h : Partial b j d l d₁) : g l d₁ = g (b.init j) d :=
  h.invariant (I := fun l d₁ => g l d₁ = g (b.init j) d) rfl fun _ _ _ _ _ hI hturn =>
    (hnext _ _ _ _ _ hturn).trans hI

/-- A section computes `f` when `g` is what is left to compute: all of `f` at the start, the same
after each step, and the result at the end. -/
theorem Whole.eq (hinit : ∀ j d, g (b.init j) d = f j d)
    (hnext : ∀ e l d d' l', b.step e l d = (d', .next l') → g l' d' = g l d)
    (hdone : ∀ e l d d' r, b.step e l d = (d', .done r) → g l d = (d', r))
    (h : Whole b j d r d') : f j d = (d', r) := by
  obtain ⟨e, l, d₁, hpart, hstep⟩ := h
  rw [← hinit, ← hpart.eq hnext]
  exact hdone _ _ _ _ _ hstep

/-- Sections that compute `f` are calls of `f`. -/
theorem Serial.replays (hf : ∀ j d r d', Whole b j d r d' → f j d = (d', r))
    {xs : List (Entry T J R)} (h : Serial b d xs d') : Replays f d xs d' := by
  induction h with
  | nil => rfl
  | cons hfirst _ ih =>
    have hx := hf _ _ _ _ hfirst
    exact ⟨by rw [hx], by rw [hx]; exact ih⟩

end Function

/-- A property of the data that each call keeps, over calls in a row. -/
theorem Replays.invariant {f : J → D → D × R} {I : D → Prop} {xs : List (Entry T J R)}
    (hstep : ∀ x ∈ xs, ∀ d, I d → I (f x.job d).1) (h : Replays f d xs d') (hd : I d) : I d' := by
  induction xs generalizing d with
  | nil => exact (show d' = d from h) ▸ hd
  | cons x xs ih =>
    exact ih (fun y hy => hstep y (List.mem_cons_of_mem x hy)) h.2
      (hstep x List.mem_cons_self d hd)

end Section
