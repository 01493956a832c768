import StartKernel.Proofs.Sleep

/-!
# `StartKernel.Proofs.SleepPass`: into the sleep list and out of it

`sys_msleep` takes its caller off the ready list and puts it into the sleep list, and the
sleep loop of `task_time_tick` brings it back.

* `fellAsleep_iff`: the caller of `sys_msleep` is queued with the right number of ticks,
  unless the rounding up to ticks wraps. Then `task_set_sleep` does nothing, and the caller
  is in no list.
* `sleepPass_exact`: the sleep loop takes one tick from every sleeper and moves the due
  sleepers to the end of the ready list, although it edits the list that it walks.
-/

set_option autoImplicit false
set_option linter.unusedSectionVars false

namespace StartKernel

open Placement (put take)

variable {T M S : Type} [DecidableEq T] [HasIdle T] [DecidableEq M] [DecidableEq S]
  {s : Sched T M S} {a : Queues T M S} {t : T}

/-! ### Falling asleep -/

/-- The state in which `sys_msleep` reaches its dispatch. -/
def msleepQueued (ms : Nat) (s : Sched T M S) : Sched T M S :=
  let ms := if ms < OS_TICK_MS then OS_TICK_MS else ms
  let s' := taskSetBlock s s.currTask
  taskSetSleep s' s'.currTask ((ms + (OS_TICK_MS - 1)) % 2 ^ 32 / OS_TICK_MS)

example (ms : Nat) (s : Sched T M S) : sysMsleep ms s = dispatchAndLeave (msleepQueued ms s) := rfl

/-- The task has left the ready list for the sleep list, where it is once, and its ticks are
`ms` milliseconds rounded up. -/
structure FellAsleep (s : Sched T M S) (t : T) (ms : Nat) : Prop where
  left : ∃ xs, s.Lists .ready xs ∧ t ∉ xs
  queued : ∃ xs, s.Lists .sleep xs ∧ xs.count t = 1
  ticks : (s.task t).sleepTicks = sleepLength ms
  positive : 1 ≤ (s.task t).sleepTicks

/-- The move of the caller, as `sys_msleep` does it. -/
theorem Refines.msleepQueued (h : Refines s a) (ms : Nat) :
    StartKernel.msleepQueued ms s
      = taskSetSleep (taskSetBlock s a.curr) a.curr (Queues.ticks ms) := by
  -- The source reads `curr_task` again behind the `task_set_block`.
  have hcurr : (taskSetBlock s a.curr).currTask = a.curr := by
    rw [← h.curr]
    unfold taskSetBlock
    split <;> rfl
  have hticks : Queues.ticks ms
      = ((if ms < OS_TICK_MS then OS_TICK_MS else ms) + (OS_TICK_MS - 1)) % 2 ^ 32
        / OS_TICK_MS := rfl
  unfold StartKernel.msleepQueued
  simp only [h.curr, hcurr, hticks]

/-- A sleep whose ticks do not wrap queues the caller. -/
theorem Refines.fellAsleep (h : Refines s a) (hinv : a.Inv) (hc : a.curr ≠ idleTask) {ms : Nat}
    (hms : ms ≤ 4294967286) : FellAsleep (StartKernel.msleepQueued ms s) a.curr ms := by
  obtain ⟨h₁, hnot⟩ := h.blockCurr hinv hc
  obtain ⟨hpos, hfits⟩ := Queues.ticks_bounds hms
  have hint : toInt (Queues.ticks ms : Int) = Queues.ticks ms :=
    toInt_of_fits (by omega) (by omega)
  have h₂ := h₁.setSleep hnot (n := Queues.ticks ms) (by omega)
  rw [← h.msleepQueued ms] at h₂
  have hticks : ((StartKernel.msleepQueued ms s).task a.curr).sleepTicks = Queues.ticks ms := by
    rw [h₂.task]
    simp [hint]
  -- The caller was in no line any more, so it is once at the end of the sleepers.
  refine ⟨⟨_, h₂.lists .ready, ?_⟩, ⟨_, h₂.lists .sleep, ?_⟩, ?_, ?_⟩
  · show a.curr ∉ put (a.block a.curr).line .sleep a.curr .ready
    rw [Placement.put_of_ne _ _ (by simp)]
    exact hnot .ready
  · show (put (a.block a.curr).line .sleep a.curr .sleep).count a.curr = 1
    rw [Placement.put_self, List.count_append, List.count_eq_zero_of_not_mem (hnot .sleep),
      List.count_singleton_self]
  · rw [hticks, sleepLength_eq hms]
  · rw [hticks]
    omega

/-- A sleep whose ticks wrap leaves the caller in no list. -/
theorem Refines.not_fellAsleep (h : Refines s a) (hinv : a.Inv) (hc : a.curr ≠ idleTask)
    {ms : Nat} (hms : 4294967286 < ms) (hword : ms < 2 ^ 32) :
    ¬ FellAsleep (StartKernel.msleepQueued ms s) a.curr ms := by
  intro hf
  obtain ⟨h₁, hnot⟩ := h.blockCurr hinv hc
  have hzero : Queues.ticks ms = 0 := by
    unfold Queues.ticks
    split <;> omega
  -- `task_set_sleep` returns early, behind the `task_set_block`.
  have heq : StartKernel.msleepQueued ms s = taskSetBlock s a.curr := by
    rw [h.msleepQueued, taskSetSleep, if_pos hzero]
  obtain ⟨xs, hxs, hcount⟩ := hf.queued
  rw [heq] at hxs
  rw [hxs.unique (h₁.lists .sleep), List.count_eq_zero_of_not_mem (hnot .sleep)] at hcount
  omega

/-- When `sys_msleep` reaches its dispatch, the caller is queued for the right number of ticks
if and only if the rounding up does not wrap. -/
theorem fellAsleep_iff (h : SchedInv s) (hc : s.currTask ≠ idleTask) {ms : Nat}
    (hword : ms < 2 ^ 32) :
    FellAsleep (msleepQueued ms s) s.currTask ms ↔ ms ≤ 4294967286 := by
  obtain ⟨a, href, hinv⟩ := schedInv_iff.mp h
  rw [href.curr] at hc ⊢
  constructor
  · intro hf
    by_contra hms
    exact href.not_fellAsleep hinv hc (by omega) hword hf
  · exact href.fellAsleep hinv hc

theorem fellAsleep_seven_ms :
    FellAsleep (msleepQueued 7 (readySched [1, 2] 0 : Sched (Fin 3) Unit Unit)) 1 7 ↔
      7 ≤ 4294967286 :=
  fellAsleep_iff (readySched_inv (by decide) (by decide) 0) (by decide) (by decide)

/-- The longest sleep that a caller can ask for loses it. -/
theorem not_fellAsleep_max :
    ¬ ∀ (s : Sched (Fin 3) Unit Unit) (ms : Nat), SchedInv s → s.currTask ≠ idleTask →
      ms < 2 ^ 32 → FellAsleep (msleepQueued ms s) s.currTask ms := by
  intro h
  have hinv : SchedInv (readySched [1, 2] 0 : Sched (Fin 3) Unit Unit) :=
    readySched_inv (by decide) (by decide) 0
  obtain ⟨a, href, ha⟩ := schedInv_iff.mp hinv
  have hf := h _ 4294967295 hinv (by decide) (by decide)
  rw [href.curr] at hf
  refine href.not_fellAsleep ha ?_ (by decide) (by decide) hf
  rw [← href.curr]
  decide

/-! ### The sleep pass -/

/-- A loop that has ended with some fuel ends in the same state with more. -/
theorem sleepLoop_more_fuel {fuel k : Nat} {curr : Option T} (h : (sleepLoop fuel s curr).2 = none)
    (hk : fuel ≤ k) : sleepLoop k s curr = sleepLoop fuel s curr := by
  induction fuel generalizing k s curr with
  | zero =>
    have hcurr : curr = none := h
    subst hcurr
    cases k <;> rfl
  | succ fuel ih =>
    obtain ⟨k, rfl⟩ : ∃ m, k = m + 1 := ⟨k - 1, by omega⟩
    cases curr with
    | none => rfl
    | some t => exact ih h (by omega)

/-- The sleeper is in the last tick of its sleep. -/
def Sched.due (s : Sched T M S) (t : T) : Bool := (s.task t).sleepTicks == 1

/-- What the sleep pass makes of a state with the sleepers `xs` and the ready tasks `ys`. -/
structure SleepPassed (s s' : Sched T M S) (xs ys : List T) : Prop where
  sleep : s'.Lists .sleep (xs.filter fun t => !s.due t)
  ready : s'.Lists .ready (ys ++ xs.filter s.due)
  waits : ∀ o zs, s.Lists (.wait o) zs → s'.Lists (.wait o) zs
  ticks : ∀ t ∈ xs, (s'.task t).sleepTicks = (s.task t).sleepTicks - 1
  woken : ∀ t ∈ xs, s.due t → (s'.task t).state = .ready
  kept : ∀ t ∈ xs, s.due t = false →
    (s'.task t).state = (s.task t).state ∧ 1 ≤ (s'.task t).sleepTicks
  others : ∀ t, t ∉ xs → s'.task t = s.task t
  curr : s'.currTask = s.currTask
  inv : SchedInv s'

/-- The sleep pass of the lines keeps their whole invariant. -/
theorem Queues.Inv.sleepAll (h : a.Inv) : a.sleepAll.Inv where
  toSteady := h.toSteady.sleepAll
  curr := by
    rw [Queues.sleepAll_curr h.toSteady, Queues.sleepAll_eq h.toSteady, Queues.afterSleep_ready]
    rcases h.curr with hc | hc
    · exact Or.inl hc
    · -- The woken tasks join the end of the line, so the first one is the same.
      right
      rw [List.head?_append, hc]
      rfl

/-- The sleep loop, read off the lines. -/
theorem Refines.sleepPassed {s' : Sched T M S} (h : Refines s a) (hinv : a.Inv)
    (h' : Refines s' a.sleepAll) :
    SleepPassed s s' (a.line .sleep) (a.line .ready) := by
  have hafter := Queues.sleepAll_eq hinv.toSteady
  have hdue : a.due = s.due := by
    funext t
    unfold Queues.due Sched.due
    rw [h.task]
  constructor
  · have hsleep := h'.lists .sleep
    rw [hafter, Queues.afterSleep_sleep, hdue] at hsleep
    -- The pass asks only sleepers whether they are due.
    have hfilter : (a.line .sleep).filter (fun u => !(decide (u ∈ a.line .sleep) && s.due u))
        = (a.line .sleep).filter (fun u => !s.due u) := by
      apply List.filter_congr
      intro u hu
      simp [hu]
    rwa [hfilter] at hsleep
  · have hready := h'.lists .ready
    rwa [hafter, Queues.afterSleep_ready, hdue] at hready
  · intro o zs hzs
    have hwait := h'.lists (.wait o)
    rw [hafter, Queues.afterSleep_wait] at hwait
    rwa [hzs.unique (h.lists (.wait o))]
  · intro t ht
    rw [h'.task, hafter, Queues.afterSleep_task_of_mem a ht, h.task]
  · intro t ht hd
    rw [h'.task, hafter, Queues.afterSleep_task_of_mem a ht, hdue]
    simp [hd]
  · intro t ht hd
    have hne : (a.task t).sleepTicks ≠ 1 := by
      rw [← h.task]
      simpa [Sched.due] using hd
    -- Two ticks or more leave at least one.
    have hpos := (hinv.asleep t ht).1
    rw [h'.task, hafter, Queues.afterSleep_task_of_mem a ht, hdue, h.task]
    simp only [hd]
    exact ⟨rfl, by omega⟩
  · intro t ht
    rw [h'.task, hafter, Queues.afterSleep_task_of_not_mem a ht, h.task]
  · rw [h'.curr, Queues.sleepAll_curr hinv.toSteady, h.curr]
  · exact schedInv_iff.mpr ⟨_, h', hinv.sleepAll⟩

/-- The sleep loop of `task_time_tick` ends, in one state for every amount of fuel that covers
the sleepers. It takes a tick from each of them once and makes the due ones ready, in their
order. -/
theorem sleepPass_exact {xs ys : List T} (h : SchedInv s) (hx : s.Lists .sleep xs)
    (hy : s.Lists .ready ys) :
    ∃ s', (∀ fuel, xs.length ≤ fuel → sleepLoop fuel s (listFirst s.sleepList) = (s', none)) ∧
      SleepPassed s s' xs ys := by
  obtain ⟨a, href, hinv⟩ := schedInv_iff.mp h
  rw [hx.unique (href.lists .sleep), hy.unique (href.lists .ready)]
  have hfirst : listFirst s.sleepList = (a.line .sleep).head? := href.sleep.first
  rw [hfirst]
  obtain ⟨href', hnone⟩ := href.sleepLoop (a.line .sleep) (a.line .sleep).length [] s a rfl
    (Nat.le_refl _)
  refine ⟨_, fun fuel hfuel => ?_, href.sleepPassed hinv href'⟩
  rw [sleepLoop_more_fuel hnone hfuel]
  exact Prod.ext rfl hnone

/-- The first of the ready tasks goes to sleep. -/
def sleepFirst (s : Sched T Unit Unit) (ms : Nat) : Sched T Unit Unit := (sysMsleep ms s).state

theorem sleepFirst_inv {s : Sched T Unit Unit} (h : SchedInv s) (hc : s.currTask ≠ idleTask)
    {ms : Nat} (hms : ms ≤ 4294967286) : SchedInv (sleepFirst s ms) := by
  obtain ⟨a, href, ha⟩ := schedInv_iff.mp h
  have hcurr : a.curr ≠ idleTask := href.curr ▸ hc
  have hrel := StretchRel.matches (href.msleep ha hcurr ms) (ha.msleep hcurr hms)
  exact schedInv_iff.mpr ⟨_, hrel.state⟩

/-- Of four tasks three have gone to sleep, the first and the third of them for one tick and the
second one for three. -/
def threeSleepers : Sched (Fin 5) Unit Unit :=
  sleepFirst (sleepFirst (sleepFirst (readySched [1, 2, 3, 4] 0) 7) 25) 10

theorem threeSleepers_inv : SchedInv threeSleepers :=
  sleepFirst_inv (sleepFirst_inv (sleepFirst_inv (readySched_inv (by decide) (by decide) 0)
    (by decide) (by decide)) (by decide) (by decide)) (by decide) (by decide)

/-- The pass wakes the first and the third sleeper, in this order, and the second one sleeps on. -/
theorem sleepPass_exact_threeSleepers :
    ∃ s', (∀ fuel, 3 ≤ fuel →
        sleepLoop fuel threeSleepers (listFirst threeSleepers.sleepList) = (s', none)) ∧
      SleepPassed threeSleepers s' [1, 2, 3] [4] ∧ s'.Lists .sleep [2] ∧
      s'.Lists .ready [4, 1, 3] := by
  have hsleep : threeSleepers.Lists .sleep [1, 2, 3] :=
    ⟨by decide, by decide, by decide, by decide, Chain.linked_of_getElem (by decide)⟩
  have hready : threeSleepers.Lists .ready [4] :=
    isList_singleton (by decide) (by decide) (by decide) (by decide) (by decide)
  obtain ⟨s', hends, hpassed⟩ := sleepPass_exact threeSleepers_inv hsleep hready
  have hleft : [1, 2, 3].filter (fun t => !threeSleepers.due t) = [2] := by decide
  have hwoken : [4] ++ [1, 2, 3].filter threeSleepers.due = [4, 1, 3] := by decide
  exact ⟨s', hends, hpassed, hleft ▸ hpassed.sleep, hwoken ▸ hpassed.ready⟩

end StartKernel
