import Mathlib.Data.Option.Basic
import Mathlib.Data.List.Basic

/-!
# `StartKernel.Lib.Trace`: runs of a step function

A step function `step : σ → L → Option σ` says what each label does in a state, or that it
cannot happen there. `run` is a finite sequence of steps, `Meets` says that every step of a run
meets a condition on the state in front of it and its label, and `countSteps` counts the
steps of a kind.

* `run_invariant`: a property kept by each step that meets a condition is kept by each run
  whose steps all meet it.
* `meets_congr`: two conditions that agree in the states of an invariant hold of the same runs.
* `meets_iff`, `meets_iff_of_run`: when one step keeps a property exactly when it meets a
  condition, the property holds in every state of a run exactly when all steps meet the
  condition.
-/

set_option autoImplicit false

namespace Trace

variable {σ L : Type}

/-- A run: one step for each label. -/
def run (step : σ → L → Option σ) (c : σ) : List L → Option σ
  | [] => some c
  | l :: ls => (step c l).bind fun c' => run step c' ls

/-- Every step of the run meets the condition `P` in the state it starts from. -/
def Meets (step : σ → L → Option σ) (P : σ → L → Prop) : σ → List L → Prop
  | _, [] => True
  | c, l :: ls => P c l ∧ ∀ c', step c l = some c' → Meets step P c' ls

variable {step : σ → L → Option σ} {c c' : σ} {l : L} {ls ls' : List L} {P : σ → L → Prop}

/-- A run over two label lists is the second run after the first. -/
theorem run_append : run step c (ls ++ ls') = (run step c ls).bind fun c' => run step c' ls' := by
  induction ls generalizing c with
  | nil => rfl
  | cons l ls ih =>
    simp only [List.cons_append, run]
    cases step c l with
    | none => rfl
    | some c₁ => exact ih

/-- The last step of a run. -/
theorem run_concat (h : run step c (ls ++ [l]) = some c') :
    ∃ c₁, run step c ls = some c₁ ∧ step c₁ l = some c' := by
  rw [run_append] at h
  obtain ⟨c₁, h₁, h₂⟩ := Option.bind_eq_some_iff.mp h
  obtain ⟨c₂, h₃, h₄⟩ := Option.bind_eq_some_iff.mp h₂
  exact ⟨c₁, h₁, h₃.trans h₄⟩

/-- One more step in front of a run. -/
theorem run_cons {c₁ : σ} (h₁ : step c l = some c₁) (h₂ : run step c₁ ls = some c') :
    run step c (l :: ls) = some c' := by
  simp only [run, h₁, Option.bind_some, h₂]

/-- One more step behind a run. -/
theorem run_snoc (h₁ : run step c ls = some c') {c'' : σ} (h₂ : step c' l = some c'') :
    run step c (ls ++ [l]) = some c'' := by
  rw [run_append, h₁]
  simp [run, h₂]

/-- The run up to a label of a longer run. -/
theorem run_prefix (h : run step c (ls ++ ls') = some c') :
    ∃ c₁, run step c ls = some c₁ ∧ run step c₁ ls' = some c' := by
  rw [run_append] at h
  exact Option.bind_eq_some_iff.mp h

/-- The condition holds of the front part of a run. -/
theorem Meets.left (h : Meets step P c (ls ++ ls')) : Meets step P c ls := by
  induction ls generalizing c with
  | nil => trivial
  | cons l ls ih => exact ⟨h.1, fun c' hc => ih (h.2 c' hc)⟩

/-- The condition holds of the back part of a run. -/
theorem Meets.right (h : Meets step P c (ls ++ ls')) (hrun : run step c ls = some c') :
    Meets step P c' ls' := by
  induction ls generalizing c with
  | nil =>
    obtain rfl : c = c' := Option.some.inj hrun
    exact h
  | cons l ls ih =>
    obtain ⟨c₁, h₁, h₂⟩ := Option.bind_eq_some_iff.mp hrun
    exact ih (h.2 c₁ h₁) h₂

/-- A property that each step meeting `P` keeps is kept by each run whose steps meet `P`. -/
theorem run_invariant {I : σ → Prop}
    (hstep : ∀ c l c', I c → P c l → step c l = some c' → I c')
    (hc : I c) (hP : Meets step P c ls) (h : run step c ls = some c') : I c' := by
  induction ls generalizing c with
  | nil =>
    obtain rfl : c = c' := Option.some.inj h
    exact hc
  | cons l ls ih =>
    obtain ⟨c₁, h₁, h₂⟩ := Option.bind_eq_some_iff.mp h
    exact ih (hstep c l c₁ hc hP.1 h₁) (hP.2 c₁ h₁) h₂

/-- A condition on the labels alone holds of a run when it holds of each label. -/
theorem meets_of_forall {Q : L → Prop} (h : ∀ l ∈ ls, Q l) :
    Meets step (fun _ l => Q l) c ls := by
  induction ls generalizing c with
  | nil => trivial
  | cons l ls ih =>
    exact ⟨h l (by simp), fun c' _ => ih (fun l' hl' => h l' (by simp [hl']))⟩

/-- Two conditions on the steps of a run hold together. -/
theorem Meets.and {Q : σ → L → Prop} (hP : Meets step P c ls)
    (hQ : Meets step Q c ls) : Meets step (fun c l => P c l ∧ Q c l) c ls := by
  induction ls generalizing c with
  | nil => trivial
  | cons l ls ih =>
    exact ⟨⟨hP.1, hQ.1⟩, fun c' hc => ih (hP.2 c' hc) (hQ.2 c' hc)⟩

/-- A condition that implies another one in the states of an invariant. The steps that meet a side
condition `R` keep the invariant. -/
theorem Meets.imp {I : σ → Prop} {Q R : σ → L → Prop} (hP : Meets step P c ls)
    (hR : Meets step R c ls) (hc : I c) (himp : ∀ c l, I c → P c l → Q c l)
    (hstep : ∀ c l c', I c → R c l → step c l = some c' → I c') : Meets step Q c ls := by
  induction ls generalizing c with
  | nil => trivial
  | cons l ls ih =>
    exact ⟨himp c l hc hP.1,
      fun c' hs => ih (hP.2 c' hs) (hR.2 c' hs) (hstep c l c' hc hR.1 hs)⟩

/-- Two conditions that agree in the states of an invariant hold of the same runs, when steps
that meet the second one keep the invariant. The run also meets a side condition `R`. -/
theorem meets_congr {I : σ → Prop} {Q R : σ → L → Prop}
    (hiff : ∀ c l, I c → R c l → (P c l ↔ Q c l))
    (hstep : ∀ c l c', I c → R c l → Q c l → step c l = some c' → I c')
    (hc : I c) (hR : Meets step R c ls) : Meets step P c ls ↔ Meets step Q c ls := by
  induction ls generalizing c with
  | nil => exact Iff.rfl
  | cons l ls ih =>
    have hfirst := hiff c l hc hR.1
    constructor
    · intro hP
      have hQ := hfirst.mp hP.1
      exact ⟨hQ, fun c' hs => (ih (hstep c l c' hc hR.1 hQ hs) (hR.2 c' hs)).mp (hP.2 c' hs)⟩
    · intro hQ
      refine ⟨hfirst.mpr hQ.1, fun c' hs => ?_⟩
      exact (ih (hstep c l c' hc hR.1 hQ.1 hs) (hR.2 c' hs)).mpr (hQ.2 c' hs)

/-- How many steps of the run go from a state to a state that is related to it by `Q`. -/
def countSteps (step : σ → L → Option σ) (Q : σ → σ → Prop) [DecidableRel Q] : σ → List L → Nat
  | _, [] => 0
  | c, l :: ls =>
    match step c l with
    | none => 0
    | some c' => (if Q c c' then 1 else 0) + countSteps step Q c' ls

/-- The first step, and the others. -/
theorem countSteps_cons {Q : σ → σ → Prop} [DecidableRel Q] (h : step c l = some c')
    (ls : List L) : countSteps step Q c (l :: ls)
      = (if Q c c' then 1 else 0) + countSteps step Q c' ls := by
  rw [countSteps, h]

/-- A decidable condition on the steps is decided by running the system. -/
instance Meets.decidable [∀ c l, Decidable (P c l)] :
    ∀ (c : σ) (ls : List L), Decidable (Meets step P c ls)
  | _, [] => isTrue trivial
  | c, l :: ls =>
    match h : step c l with
    | none => decidable_of_iff (P c l) ⟨fun hP => ⟨hP, by simp [h]⟩, fun hM => hM.1⟩
    | some c' =>
      have := Meets.decidable c' ls
      decidable_of_iff (P c l ∧ Meets step P c' ls)
        ⟨fun hM => ⟨hM.1, fun c₁ h₁ => Option.some.inj (h.symm.trans h₁) ▸ hM.2⟩,
          fun hM => ⟨hM.1, hM.2 c' h⟩⟩

/-- When a step keeps the property `I` exactly when it meets the condition `P`, all states
of a run have the property exactly when all its steps meet the condition. -/
theorem meets_iff {I : σ → Prop}
    (hstep : ∀ c l c', I c → step c l = some c' → (I c' ↔ P c l))
    (hnone : ∀ c l, step c l = none → P c l) (hc : I c) :
    (∀ ls', ls' <+: ls → ∀ c', run step c ls' = some c' → I c') ↔ Meets step P c ls := by
  induction ls generalizing c with
  | nil =>
    refine ⟨fun _ => trivial, fun _ ls' hpre c' hrun => ?_⟩
    obtain rfl : ls' = [] := List.prefix_nil.mp hpre
    obtain rfl : c = c' := Option.some.inj hrun
    exact hc
  | cons l ls ih =>
    constructor
    · -- The first state has the property, so the first step meets the condition.
      intro hall
      have hfirst : ∀ c₁, step c l = some c₁ → I c₁ := fun c₁ h₁ =>
        hall [l] (by simp) c₁ (by simp [run, h₁])
      refine ⟨?_, fun c₁ h₁ => (ih (hfirst c₁ h₁)).mp fun ls' hpre c' hrun => ?_⟩
      · cases h₁ : step c l with
        | none => exact hnone c l h₁
        | some c₁ => exact (hstep c l c₁ hc h₁).mp (hfirst c₁ h₁)
      · exact hall (l :: ls') (by simpa using hpre) c' (by simp [run, h₁, hrun])
    · rintro ⟨hP, hrest⟩ ls' hpre c' hrun
      cases ls' with
      | nil =>
        obtain rfl : c = c' := Option.some.inj hrun
        exact hc
      | cons l' ls' =>
        obtain ⟨rfl, hpre'⟩ := List.cons_prefix_cons.mp hpre
        obtain ⟨c₁, h₁, h₂⟩ := Option.bind_eq_some_iff.mp hrun
        exact (ih ((hstep c l' c₁ hc h₁).mpr hP)).mpr (hrest c₁ h₁) ls' hpre' c' h₂

/-- The same for a run that does not get stuck, where the steps that meet the condition also keep an
invariant `K`, and all labels meet a side condition `R`. -/
theorem meets_iff_of_run {I K : σ → Prop} {R : L → Prop}
    (hstep : ∀ c l c', K c → I c → R l → step c l = some c' → (I c' ↔ P c l))
    (hkeep : ∀ c l c', K c → I c → P c l → step c l = some c' → K c')
    (hK : K c) (hI : I c) (hR : ∀ l ∈ ls, R l) (hrun : run step c ls = some c') :
    (∀ ls', ls' <+: ls → ∀ c', run step c ls' = some c' → I c') ↔ Meets step P c ls := by
  induction ls generalizing c with
  | nil =>
    refine ⟨fun _ => trivial, fun _ ls' hpre c₁ hrun₁ => ?_⟩
    obtain rfl : ls' = [] := List.prefix_nil.mp hpre
    obtain rfl : c = c₁ := Option.some.inj hrun₁
    exact hI
  | cons l ls ih =>
    obtain ⟨c₁, h₁, hrest⟩ := Option.bind_eq_some_iff.mp hrun
    have hiff := hstep c l c₁ hK hI (hR l (by simp)) h₁
    have hR' : ∀ l' ∈ ls, R l' := fun l' hl' => hR l' (by simp [hl'])
    constructor
    · -- The first step keeps the invariant too, because it meets the condition.
      intro hall
      have hI₁ : I c₁ := hall [l] (by simp) c₁ (by simp [run, h₁])
      have hP := hiff.mp hI₁
      refine ⟨hP, fun c₂ h₂ => ?_⟩
      obtain rfl : c₁ = c₂ := Option.some.inj (h₁.symm.trans h₂)
      refine (ih (hkeep c l c₁ hK hI hP h₁) hI₁ hR' hrest).mp fun ls' hpre c₃ hrun₃ => ?_
      exact hall (l :: ls') (by simpa using hpre) c₃ (by simp [run, h₁, hrun₃])
    · rintro ⟨hP, hmeets⟩ ls' hpre c₂ hrun₂
      cases ls' with
      | nil =>
        obtain rfl : c = c₂ := Option.some.inj hrun₂
        exact hI
      | cons l' ls' =>
        obtain ⟨rfl, hpre'⟩ := List.cons_prefix_cons.mp hpre
        obtain ⟨c₃, h₃, hrun₃⟩ := Option.bind_eq_some_iff.mp hrun₂
        obtain rfl : c₁ = c₃ := Option.some.inj (h₁.symm.trans h₃)
        exact (ih (hkeep c l' c₁ hK hI hP h₁) (hiff.mpr hP) hR' hrest).mpr (hmeets c₁ h₁) ls'
          hpre' c₂ hrun₃

end Trace
