import StartKernel.Lib.Trace
import Mathlib.Logic.Function.Basic

/-!
# `StartKernel.Lib.Suspend`: machines whose operations can be switched out

A single processor runs one agent at a time. The current agent starts an activity, and the
activity runs without interruption up to the next switch: it *returns*, or it is
*suspended* with a rest that runs when the agent is current again. While the rest of the
current agent is pending, nothing else can happen.

`System` is such a machine over arbitrary states, agents, activities, rests and events.
`Config` is a machine state with the pending rests and the history of events, `step` one
uninterrupted stretch and `run` a finite sequence of stretches, in the sense of
`StartKernel.Lib.Trace`.

* `step_cases`: the two ways a step can happen. Every step lemma starts from it.
* `Simulates.run`: a stretch-wise simulation between two systems lifts to their runs.
* `Simulates.meets`, `Simulates.countSteps`: conditions on the steps, and how many steps are of
  a kind, carry over to the matching run.
-/

set_option autoImplicit false

namespace Suspend

open Function (update)

/-- What an uninterrupted stretch of an activity ends in. -/
inductive Stretch (σ κ : Type) where
  | returned (s : σ)
  | suspended (s : σ) (rest : κ)

/-- The state at the end of a stretch. -/
def Stretch.state {σ κ : Type} : Stretch σ κ → σ
  | .returned s => s
  | .suspended s _ => s

/-- A machine with states `σ`, agents `T`, activities `A`, rests `κ` and events `E`.
`note t a s` are the events of the agent `t` starting `a` in the state `s`, and `finish t a`
is the event of its return. -/
structure System (σ T A κ E : Type) where
  curr : σ → T
  may : A → σ → Bool
  start : A → σ → Stretch σ κ
  resume : κ → σ → Stretch σ κ
  note : T → A → σ → List E
  finish : T → A → E

/-- A machine state, the rest each agent still has to run, and the events so far. -/
structure Config (σ T A κ E : Type) where
  st : σ
  pend : T → Option (A × κ)
  hist : List E

/-- A step starts an activity or runs the rest of a suspended one. -/
inductive Label (A : Type) where
  | start (a : A)
  | resume
  deriving DecidableEq

variable {σ σ₁ σ₂ T A κ E : Type} [DecidableEq T]

/-- The configuration after a stretch of the activity `a` of the agent `t`. -/
def Config.settle (S : System σ T A κ E) (c : Config σ T A κ E) (t : T) (a : A)
    (notes : List E) : Stretch σ κ → Config σ T A κ E
  | .returned s =>
    { st := s, pend := update c.pend t none, hist := c.hist ++ notes ++ [S.finish t a] }
  | .suspended s k =>
    { st := s, pend := update c.pend t (some (a, k)), hist := c.hist ++ notes }

@[simp] theorem Config.settle_st (S : System σ T A κ E) (c : Config σ T A κ E) (t : T)
    (a : A) (notes : List E) (r : Stretch σ κ) : (c.settle S t a notes r).st = r.state := by
  cases r <;> rfl

/-- One step: the current agent starts an activity when nothing of it is pending, and
otherwise runs what is pending. -/
def step (S : System σ T A κ E) (c : Config σ T A κ E) :
    Label A → Option (Config σ T A κ E)
  | .start a =>
    match c.pend (S.curr c.st) with
    | some _ => none
    | none =>
      if S.may a c.st then
        some (c.settle S (S.curr c.st) a (S.note (S.curr c.st) a c.st) (S.start a c.st))
      else none
  | .resume =>
    match c.pend (S.curr c.st) with
    | some (a, k) => some (c.settle S (S.curr c.st) a [] (S.resume k c.st))
    | none => none

/-- The runs of the machine. -/
abbrev run (S : System σ T A κ E) : Config σ T A κ E → List (Label A) → Option (Config σ T A κ E) :=
  Trace.run (step S)

/-- Every step of the run meets the condition `P`. -/
abbrev Meets (S : System σ T A κ E) (P : Config σ T A κ E → Label A → Prop) :
    Config σ T A κ E → List (Label A) → Prop :=
  Trace.Meets (step S) P

/-- The two ways a step can happen, with everything it does. -/
theorem step_cases {S : System σ T A κ E} {c c' : Config σ T A κ E} {l : Label A}
    (h : step S c l = some c') :
    (∃ a, l = .start a ∧ c.pend (S.curr c.st) = none ∧ S.may a c.st = true ∧
      c' = c.settle S (S.curr c.st) a (S.note (S.curr c.st) a c.st) (S.start a c.st)) ∨
    (∃ a k, l = .resume ∧ c.pend (S.curr c.st) = some (a, k) ∧
      c' = c.settle S (S.curr c.st) a [] (S.resume k c.st)) := by
  cases l with
  | start a =>
    left
    simp only [step] at h
    split at h
    · simp at h
    · rename_i hp
      split at h
      · rename_i hm
        exact ⟨a, rfl, hp, hm, (Option.some.inj h).symm⟩
      · simp at h
  | resume =>
    right
    simp only [step] at h
    split at h
    · rename_i a k hp
      exact ⟨a, k, rfl, hp, (Option.some.inj h).symm⟩
    · simp at h

/-! ### Simulation -/

/-- Two stretches end the same way, in related states. -/
inductive StretchRel (R : σ₁ → σ₂ → Prop) : Stretch σ₁ κ → Stretch σ₂ κ → Prop where
  | returned {s₁ : σ₁} {s₂ : σ₂} (h : R s₁ s₂) :
      StretchRel R (.returned s₁) (.returned s₂)
  | suspended {s₁ : σ₁} {s₂ : σ₂} {k : κ} (h : R s₁ s₂) :
      StretchRel R (.suspended s₁ k) (.suspended s₂ k)

theorem StretchRel.state {R : σ₁ → σ₂ → Prop} {r₁ : Stretch σ₁ κ} {r₂ : Stretch σ₂ κ}
    (h : StretchRel R r₁ r₂) : R r₁.state r₂.state := by
  cases h with
  | returned h => exact h
  | suspended h => exact h

/-- The system `S₁` simulates `S₂` through the relation `R`, on the labels that satisfy
`ok`: related states have the same current agent, allow and note the same activities, and
their stretches end the same way in related states. -/
structure Simulates (S₁ : System σ₁ T A κ E) (S₂ : System σ₂ T A κ E)
    (R : σ₁ → σ₂ → Prop) (ok : Label A → Prop) : Prop where
  curr : ∀ s₁ s₂, R s₁ s₂ → S₁.curr s₁ = S₂.curr s₂
  may : ∀ a s₁ s₂, R s₁ s₂ → S₁.may a s₁ = S₂.may a s₂
  note : ∀ t a s₁ s₂, R s₁ s₂ → S₁.note t a s₁ = S₂.note t a s₂
  finish : ∀ t a, S₁.finish t a = S₂.finish t a
  start : ∀ a s₁ s₂, ok (.start a) → S₁.may a s₁ = true → R s₁ s₂ →
    StretchRel R (S₁.start a s₁) (S₂.start a s₂)
  resume : ∀ k s₁ s₂, R s₁ s₂ → StretchRel R (S₁.resume k s₁) (S₂.resume k s₂)

/-- Related configurations: related states, the same pending rests, the same history. -/
structure ConfigRel (R : σ₁ → σ₂ → Prop) (c₁ : Config σ₁ T A κ E)
    (c₂ : Config σ₂ T A κ E) : Prop where
  st : R c₁.st c₂.st
  pend : c₁.pend = c₂.pend
  hist : c₁.hist = c₂.hist

section Simulation

variable {S₁ : System σ₁ T A κ E} {S₂ : System σ₂ T A κ E} {R : σ₁ → σ₂ → Prop}
  {ok : Label A → Prop} {c₁ c₁' : Config σ₁ T A κ E} {c₂ : Config σ₂ T A κ E}

/-- Related stretches settle to related configurations. -/
theorem ConfigRel.settle (hsim : Simulates S₁ S₂ R ok) (hc : ConfigRel R c₁ c₂) (t : T)
    (a : A) (notes : List E) {r₁ : Stretch σ₁ κ} {r₂ : Stretch σ₂ κ}
    (hr : StretchRel R r₁ r₂) :
    ConfigRel R (c₁.settle S₁ t a notes r₁) (c₂.settle S₂ t a notes r₂) := by
  cases hr with
  | returned h => exact ⟨h, by simp [Config.settle, hc.pend],
      by simp [Config.settle, hc.hist, hsim.finish]⟩
  | suspended h => exact ⟨h, by simp [Config.settle, hc.pend],
      by simp [Config.settle, hc.hist]⟩

/-- One step of `S₁` is matched by one step of `S₂`. -/
theorem Simulates.step (hsim : Simulates S₁ S₂ R ok) (hc : ConfigRel R c₁ c₂)
    {l : Label A} (hl : ok l) (h : Suspend.step S₁ c₁ l = some c₁') :
    ∃ c₂', Suspend.step S₂ c₂ l = some c₂' ∧ ConfigRel R c₁' c₂' := by
  have hcurr := hsim.curr _ _ hc.st
  rcases step_cases h with ⟨a, rfl, hp, hm, rfl⟩ | ⟨a, k, rfl, hp, rfl⟩
  · rw [hc.pend, hcurr] at hp
    have hm₂ : S₂.may a c₂.st = true := (hsim.may a _ _ hc.st).symm.trans hm
    refine ⟨_, by simp only [Suspend.step, hp, hm₂]; rfl, ?_⟩
    rw [hsim.note _ _ _ _ hc.st, hcurr]
    exact hc.settle hsim _ _ _ (hsim.start a _ _ hl hm hc.st)
  · rw [hc.pend, hcurr] at hp
    refine ⟨_, by simp only [Suspend.step, hp]; rfl, ?_⟩
    rw [hcurr]
    exact hc.settle hsim _ _ _ (hsim.resume k _ _ hc.st)

/-- Every run of `S₁` is matched by a run of `S₂` over the same labels. -/
theorem Simulates.run (hsim : Simulates S₁ S₂ R ok) {ls : List (Label A)}
    (hok : ∀ l ∈ ls, ok l) (hc : ConfigRel R c₁ c₂)
    (h : Suspend.run S₁ c₁ ls = some c₁') :
    ∃ c₂', Suspend.run S₂ c₂ ls = some c₂' ∧ ConfigRel R c₁' c₂' := by
  induction ls generalizing c₁ c₂ with
  | nil =>
    obtain rfl : c₁ = c₁' := Option.some.inj h
    exact ⟨c₂, rfl, hc⟩
  | cons l ls ih =>
    obtain ⟨d₁, h₁, h₂⟩ := Option.bind_eq_some_iff.mp h
    obtain ⟨d₂, hs₂, hd⟩ := hsim.step hc (hok l (by simp)) h₁
    obtain ⟨c₂', hr₂, hc'⟩ := ih (fun l' hl' => hok l' (by simp [hl'])) hd h₂
    exact ⟨c₂', by simp [Trace.run, hs₂, hr₂], hc'⟩

/-- The matching run has as many steps of a kind, when related steps are of the same kind. -/
theorem Simulates.countSteps (hsim : Simulates S₁ S₂ R ok)
    {Q₁ : Config σ₁ T A κ E → Config σ₁ T A κ E → Prop} [DecidableRel Q₁]
    {Q₂ : Config σ₂ T A κ E → Config σ₂ T A κ E → Prop} [DecidableRel Q₂]
    (hQ : ∀ c₁ c₁' c₂ c₂', ConfigRel R c₁ c₂ → ConfigRel R c₁' c₂' → (Q₁ c₁ c₁' ↔ Q₂ c₂ c₂'))
    {ls : List (Label A)} (hok : ∀ l ∈ ls, ok l) (hc : ConfigRel R c₁ c₂)
    (h : Suspend.run S₁ c₁ ls = some c₁') :
    Trace.countSteps (Suspend.step S₁) Q₁ c₁ ls = Trace.countSteps (Suspend.step S₂) Q₂ c₂ ls := by
  induction ls generalizing c₁ c₂ with
  | nil => rfl
  | cons l ls ih =>
    obtain ⟨d₁, h₁, h₂⟩ := Option.bind_eq_some_iff.mp h
    obtain ⟨d₂, hs₂, hd⟩ := hsim.step hc (hok l (by simp)) h₁
    have hfirst : (if Q₁ c₁ d₁ then 1 else 0) = if Q₂ c₂ d₂ then 1 else 0 := by
      congr 1
      exact propext (hQ c₁ d₁ c₂ d₂ hc hd)
    rw [Trace.countSteps_cons h₁, Trace.countSteps_cons hs₂, hfirst,
      ih (fun l' hl' => hok l' (by simp [hl'])) hd h₂]

/-- A condition on the steps of `S₂` holds of the matching run when the steps of `S₁` meet
a condition that implies it on related configurations. -/
theorem Simulates.meets (hsim : Simulates S₁ S₂ R ok)
    {P₁ : Config σ₁ T A κ E → Label A → Prop} {P₂ : Config σ₂ T A κ E → Label A → Prop}
    (himp : ∀ c₁ c₂ l, ConfigRel R c₁ c₂ → P₁ c₁ l → P₂ c₂ l) {ls : List (Label A)}
    (hok : ∀ l ∈ ls, ok l) (hc : ConfigRel R c₁ c₂) (h : Suspend.run S₁ c₁ ls = some c₁')
    (hP : Meets S₁ P₁ c₁ ls) : Meets S₂ P₂ c₂ ls := by
  induction ls generalizing c₁ c₂ with
  | nil => trivial
  | cons l ls ih =>
    obtain ⟨d₁, h₁, h₂⟩ := Option.bind_eq_some_iff.mp h
    obtain ⟨d₂, hs₂, hd⟩ := hsim.step hc (hok l (by simp)) h₁
    refine ⟨himp c₁ c₂ l hc hP.1, fun d hd' => ?_⟩
    obtain rfl : d₂ = d := Option.some.inj (hs₂.symm.trans hd')
    exact ih (fun l' hl' => hok l' (by simp [hl'])) hd h₂ (hP.2 d₁ h₁)

end Simulation

end Suspend
