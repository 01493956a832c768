import StartKernel.Lib.Section
import StartKernel.Proofs.Mutex

/-!
# `StartKernel.Proofs.Locked`: sections of code under a mutex

A task calls `mutex_lock`, works on shared data, and calls `mutex_unlock`. The scheduler may switch
to another task between any two steps of this work: a timer interrupt ends the time slice. The
other tasks do the same, and they call the other operations of the scheduler.

* `LockInv`: what the mutex says about where the tasks are.
* `lockedStep_inv`: each step keeps it, and the sections that are over are whole sections, one
  after the other.
* `locked_serial`: the same over a run.
-/

set_option autoImplicit false
set_option linter.unusedSectionVars false

namespace StartKernel

open Function (update)
open Section (Body Turn Partial Whole Entry Serial)
open Suspend (Stretch step step_cases ConfigRel)
open Trace (run Meets)

variable {T M S : Type} [DecidableEq T] [HasIdle T] [DecidableEq M] [DecidableEq S]
  {E J L D R : Type}

/-! ### The system -/

/-- Where a task is with a section: outside, inside of `mutex_lock`, at work, done with the work, or
inside of `mutex_unlock`. -/
inductive Phase (J L R : Type)
  | out
  | enter (j : J)
  | inside (j : J) (l : L)
  | done (j : J) (r : R)
  | exit (j : J) (r : R)

/-- The kernel, the shared data, where each task is, and the sections that are over. -/
structure Locked (T M S J L D R : Type) where
  cfg : KConfig T M S
  data : D
  phase : T → Phase J L R
  log : List (Entry T J R)

/-- A step of the kernel that is no call for the mutex, or a step of the current task's section. -/
inductive LockedLabel (M S E J : Type)
  | kernel (l : KLabel M S)
  | lock (j : J)
  | work (e : E)
  | unlock

/-- A call of `mutex_lock` or `mutex_unlock` that has returned. -/
def Phase.returned (b : Body E J L D R) : Phase J L R → Phase J L R
  | .enter j => .inside j (b.init j)
  | .exit _ _ => .out
  | p => p

/-- The current task is in the phase `p` behind a step of the kernel. -/
def Locked.settle (b : Body E J L D R) (c : Locked T M S J L D R) (cfg : KConfig T M S)
    (p : Phase J L R) : Locked T M S J L D R :=
  let t := taskCurrent c.cfg.st
  { c with
    cfg := cfg
    phase := update c.phase t (if (cfg.pend t).isNone then p.returned b else p) }

/-- One step. The scheduler is called for the mutex `m` by the sections only. -/
def lockedStep (m : M) (b : Body E J L D R) (c : Locked T M S J L D R) :
    LockedLabel M S E J → Option (Locked T M S J L D R)
  | .kernel l =>
    if l = .start (.mutexLock m) ∨ l = .start (.mutexUnlock m) then none
    else (step kernel c.cfg l).map fun cfg => c.settle b cfg (c.phase (taskCurrent c.cfg.st))
  | .lock j =>
    match c.phase (taskCurrent c.cfg.st) with
    | .out => (step kernel c.cfg (.start (.mutexLock m))).map fun cfg => c.settle b cfg (.enter j)
    | _ => none
  | .work e =>
    let t := taskCurrent c.cfg.st
    match c.phase t, c.cfg.pend t with
    | .inside j l, none =>
      match b.step e l c.data with
      | (d, .next l') => some { c with data := d, phase := update c.phase t (.inside j l') }
      | (d, .done r) => some { c with
          data := d
          phase := update c.phase t (.done j r)
          log := c.log ++ [⟨t, j, r⟩] }
    | _, _ => none
  | .unlock =>
    match c.phase (taskCurrent c.cfg.st) with
    | .done j r =>
      (step kernel c.cfg (.start (.mutexUnlock m))).map fun cfg => c.settle b cfg (.exit j r)
    | _ => none

/-- The sleeps of a step fit. -/
def LockedFits : LockedLabel M S E J → Prop
  | .kernel l => SleepFits l
  | _ => True

instance : DecidablePred (LockedFits : LockedLabel M S E J → Prop)
  | .kernel l => inferInstanceAs (Decidable (SleepFits l))
  | .lock _ => isTrue trivial
  | .work _ => isTrue trivial
  | .unlock => isTrue trivial

/-! ### The steps of the lines -/

section Lines

variable {m : M} {d d' : QConfig T M S} {c : Call M S} {k : Rest} {l : KLabel M S}

/-- Nothing of the mutex is pending. -/
def PendsOther (m : M) (p : Option (Call M S × Rest)) : Prop :=
  ∀ a k, p = some (a, k) → a.obj ≠ some (.mutex m)

/-- What is pending behind a stretch of the operation `c`. -/
theorem settle_pend (t : T) (notes : List (Event T M S)) (r : Stretch (Queues T M S) Rest) :
    ∃ p, (d.settle queues t c notes r).pend = update d.pend t p ∧
      (p = none ∨ ∃ k, p = some (c, k)) := by
  cases r with
  | returned s => exact ⟨none, rfl, Or.inl rfl⟩
  | suspended s k => exact ⟨some (c, k), rfl, Or.inr ⟨k, rfl⟩⟩

/-- A dispatch at the end of an operation leaves only its return pending. -/
theorem settle_pend_leave (t : T) (notes : List (Event T M S)) (a : Queues T M S) :
    ∃ p, (d.settle queues t c notes a.leave).pend = update d.pend t p ∧
      (p = none ∨ p = some (c, .leave)) := by
  unfold Queues.leave
  split
  · exact ⟨_, rfl, Or.inr rfl⟩
  · exact ⟨_, rfl, Or.inl rfl⟩

/-- A call for another object leaves the mutex alone. -/
theorem start_other (hobj : c.obj ≠ some (.mutex m))
    (hstep : step queues d (.start c) = some d') :
    d'.st.view (.mutex m) = d.st.view (.mutex m) ∧ d.pend d.st.curr = none ∧
      ∃ p, d'.pend = update d.pend d.st.curr p ∧ PendsOther m p := by
  rcases step_cases hstep with ⟨c₁, hc, hp, -, rfl⟩ | ⟨c₁, k, hc, -⟩
  swap
  · cases hc
  obtain rfl : c = c₁ := by simpa using hc
  obtain ⟨p, hpend, hcases⟩ := settle_pend (d := d) (c := c) d.st.curr
    (queues.note d.st.curr c d.st) (queues.start c d.st)
  refine ⟨?_, hp, p, hpend, fun a k hpa => ?_⟩
  · rw [Suspend.Config.settle_st]
    exact Queues.start_view hobj
  · rcases hcases with rfl | ⟨k', rfl⟩
    · cases hpa
    · obtain ⟨rfl, -⟩ := Prod.mk.inj (Option.some.inj hpa)
      exact hobj

/-- The rest of an operation leaves the mutex alone. The rest of a lock or an unlock only returns.
-/
theorem resume_other (hstep : step queues d .resume = some d') :
    d'.st.view (.mutex m) = d.st.view (.mutex m) ∧ ∃ c k p, d.pend d.st.curr = some (c, k) ∧
      d'.pend = update d.pend d.st.curr p ∧ (p = none ∨ ∃ k', p = some (c, k')) ∧
      (k = .leave → p = none) := by
  rcases step_cases hstep with ⟨c₁, hc, -⟩ | ⟨c₁, k, -, hp, rfl⟩
  · cases hc
  obtain ⟨p, hpend, hcases⟩ := settle_pend (d := d) (c := c₁) d.st.curr [] (queues.resume k d.st)
  refine ⟨?_, c₁, k, p, hp, hpend, hcases, ?_⟩
  · rw [Suspend.Config.settle_st]
    exact Queues.resume_view k _
  · rintro rfl
    have hself := congrFun hpend d.st.curr
    rw [Function.update_self] at hself
    rw [← hself]
    exact Function.update_self _ _ _

/-- A lock by a task that is not the owner takes the free mutex, or waits. -/
theorem lock_outside (hinv : d.st.Inv) (ho : d.st.owner m ≠ some d.st.curr)
    (hstep : step queues d (.start (.mutexLock m)) = some d') :
    (d.st.lockedCount m = 0 ∧ d'.pend = update d.pend d.st.curr none ∧
      d'.st.view (.mutex m) = ⟨d.st.line (.wait (.mutex m)), some d.st.curr, 1⟩) ∨
    (d.st.lockedCount m ≠ 0 ∧ d'.pend = update d.pend d.st.curr (some (.mutexLock m, .leave)) ∧
      d'.st.view (.mutex m) =
        ⟨d.st.line (.wait (.mutex m)) ++ [d.st.curr], d.st.owner m, d.st.lockedCount m⟩) := by
  rcases step_cases hstep with ⟨c₁, hc, -, hmay, rfl⟩ | ⟨c₁, k, hc, -⟩
  swap
  · cases hc
  obtain rfl : .mutexLock m = c₁ := by simpa using hc
  have hidle := Queues.ne_idle_of_may hmay (by simp)
  have hr : queues.start (.mutexLock m) d.st = d.st.lock m := rfl
  rw [hr]
  rcases Queues.lock_cases hinv hidle m with
    ⟨h₀, -, s, hs, hv⟩ | ⟨-, ho', -⟩ | ⟨h₀, -, -, s, hs, hv⟩
  · left
    rw [hs]
    exact ⟨h₀, rfl, hv⟩
  · exact absurd ho' ho
  · right
    rw [hs]
    exact ⟨h₀, rfl, hv⟩

/-- The last unlock of the owner frees the mutex, or hands it to the first waiter. -/
theorem unlock_owner (ho : d.st.owner m = some d.st.curr) (h₁ : d.st.lockedCount m = 1)
    (hstep : step queues d (.start (.mutexUnlock m)) = some d') :
    (∃ p, d'.pend = update d.pend d.st.curr p ∧
      (p = none ∨ p = some (.mutexUnlock m, .leave))) ∧
    ((d.st.line (.wait (.mutex m)) = [] ∧ d'.st.view (.mutex m) = ⟨[], none, 0⟩) ∨
      ∃ w ws, d.st.line (.wait (.mutex m)) = w :: ws ∧
        d'.st.view (.mutex m) = ⟨ws, some w, 1⟩) := by
  rcases step_cases hstep with ⟨c₁, hc, -, -, rfl⟩ | ⟨c₁, k, hc, -⟩
  swap
  · cases hc
  obtain rfl : .mutexUnlock m = c₁ := by simpa using hc
  have hr : queues.start (.mutexUnlock m) d.st = d.st.unlock m := rfl
  have hlast : toInt (d.st.lockedCount m - 1) = 0 := by rw [h₁]; decide
  rw [hr]
  constructor
  · -- An unlock that switches to another task has nothing left to do but return.
    unfold Queues.unlock
    rw [if_pos ho, if_pos hlast]
    split
    · exact settle_pend_leave _ _ _
    · exact ⟨_, rfl, Or.inl rfl⟩
  · rw [Suspend.Config.settle_st]
    rcases Queues.unlock_cases d.st m with
      ⟨hno, -⟩ | ⟨-, hne, -⟩ | ⟨-, -, hl, -, hv⟩ | ⟨-, -, w, ws, hl, -, hv⟩
    · exact absurd ho hno
    · exact absurd hlast hne
    · exact Or.inl ⟨hl, hv⟩
    · exact Or.inr ⟨w, ws, hl, hv⟩

end Lines

/-! ### The tasks and the mutex -/

/-- What the mutex and the pending operation say about a task in a phase. -/
def Phase.Fits (m : M) (v : View T) (p : Option (Call M S × Rest)) (t : T) :
    Phase J L R → Prop
  | .out => v.owner ≠ some t ∧ t ∉ v.line ∧ PendsOther m p
  | .enter _ => (v.owner = some t ∨ t ∈ v.line) ∧ p = some (.mutexLock m, .leave)
  | .inside _ _ => v.owner = some t ∧ PendsOther m p
  | .done _ _ => v.owner = some t ∧ PendsOther m p
  | .exit _ _ => v.owner ≠ some t ∧ t ∉ v.line ∧ p = some (.mutexUnlock m, .leave)

/-- The invariant of the mutex. No section locks it twice, so its count is at most 1. -/
structure LockInv (m : M) (v : View T) (pend : T → Option (Call M S × Rest))
    (phase : T → Phase J L R) : Prop where
  free : v.owner = none ↔ v.count = 0
  one : v.owner ≠ none → v.count = 1
  waits : ∀ t ∈ v.line, v.owner ≠ none ∧ v.owner ≠ some t
  fits : ∀ t, (phase t).Fits m v (pend t) t

section Inv

variable {m : M} {v : View T} {pend pend' : T → Option (Call M S × Rest)}
  {phase : T → Phase J L R} {q : Phase J L R} {p : Option (Call M S × Rest)} {t u w : T}
  {ws : List T} {b : Body E J L D R} {j j' : J} {l l' : L} {r : R}

theorem pendsOther_none (m : M) : PendsOther m (none : Option (Call M S × Rest)) := by
  intro a k hp
  cases hp

/-- A task at work owns the mutex. -/
theorem LockInv.owner (h : LockInv m v pend phase) (ht : phase t = .inside j l) :
    v.owner = some t := by
  have hfits := h.fits t
  rw [ht] at hfits
  exact hfits.1

/-- One task is at work at a time. -/
theorem LockInv.unique (h : LockInv m v pend phase) (ht : phase t = .inside j l)
    (hu : phase u = .inside j' l') : t = u :=
  Option.some.inj ((h.owner ht).symm.trans (h.owner hu))

/-- A step that leaves the mutex alone, for the task that makes it. -/
theorem LockInv.same (h : LockInv m v pend phase) (hpend : pend' = update pend t p)
    (hq : q.Fits m v p t) : LockInv m v pend' (update phase t q) := by
  refine ⟨h.free, h.one, h.waits, fun u => ?_⟩
  by_cases hut : u = t
  · subst hut
    rw [hpend, Function.update_self, Function.update_self]
    exact hq
  · rw [hpend, Function.update_of_ne hut, Function.update_of_ne hut]
    exact h.fits u

/-- The step changes the mutex, and the phase of the task fits behind it. So do those of the others.
-/
theorem LockInv.others {v' : View T} (hpend : pend' = update pend t p)
    (free : v'.owner = none ↔ v'.count = 0) (one : v'.owner ≠ none → v'.count = 1)
    (waits : ∀ u ∈ v'.line, v'.owner ≠ none ∧ v'.owner ≠ some u) (hq : q.Fits m v' p t)
    (hothers : ∀ u, u ≠ t → (phase u).Fits m v' (pend u) u) :
    LockInv m v' pend' (update phase t q) := by
  refine ⟨free, one, waits, fun u => ?_⟩
  by_cases hut : u = t
  · subst hut
    rw [hpend, Function.update_self, Function.update_self]
    exact hq
  · rw [hpend, Function.update_of_ne hut, Function.update_of_ne hut]
    exact hothers u hut

/-- While the mutex is free, nobody is at work, waits or has been handed the mutex. -/
theorem LockInv.of_free (h : LockInv m v pend phase) (h₀ : v.count = 0) :
    v.owner = none ∧ v.line = [] := by
  have hown := h.free.mpr h₀
  refine ⟨hown, List.eq_nil_iff_forall_not_mem.mpr fun u hu => (h.waits u hu).1 hown⟩

/-- The task takes the free mutex. -/
theorem LockInv.take (h : LockInv m v pend phase) (h₀ : v.count = 0)
    (hpend : pend' = update pend t none) (hq : q = .inside j l) :
    LockInv m ⟨v.line, some t, 1⟩ pend' (update phase t q) := by
  obtain ⟨hown, hline⟩ := h.of_free h₀
  refine LockInv.others hpend (by simp) (by simp) (by simp [hline]) ?_ fun u hut => ?_
  · rw [hq]
    exact ⟨rfl, pendsOther_none m⟩
  · have hfits := h.fits u
    cases hp : phase u with
    | out =>
      rw [hp] at hfits
      exact ⟨by simpa using Ne.symm hut, hfits.2⟩
    | exit j r =>
      rw [hp] at hfits
      exact ⟨by simpa using Ne.symm hut, hfits.2⟩
    | enter j =>
      rw [hp] at hfits
      have hno := hfits.1
      simp [hown, hline] at hno
    | inside j l =>
      rw [hp] at hfits
      have hno := hfits.1
      simp [hown] at hno
    | done j r =>
      rw [hp] at hfits
      have hno := hfits.1
      simp [hown] at hno

/-- The task joins the waiters. -/
theorem LockInv.wait (h : LockInv m v pend phase) (h₀ : v.count ≠ 0) (ho : v.owner ≠ some t)
    (hpend : pend' = update pend t (some (.mutexLock m, .leave))) :
    LockInv m ⟨v.line ++ [t], v.owner, v.count⟩ pend' (update phase t (.enter j)) := by
  have hnone : v.owner ≠ none := fun hn => h₀ (h.free.mp hn)
  refine LockInv.others hpend h.free h.one (fun u hu => ?_) ?_ fun u hut => ?_
  · rcases List.mem_append.mp hu with hu | hu
    · exact h.waits u hu
    · obtain rfl := List.mem_singleton.mp hu
      exact ⟨hnone, ho⟩
  · exact ⟨Or.inr (by simp), rfl⟩
  · have hfits := h.fits u
    cases hp : phase u with
    | out =>
      rw [hp] at hfits
      exact ⟨hfits.1, by simpa [hut] using hfits.2.1, hfits.2.2⟩
    | exit j r =>
      rw [hp] at hfits
      exact ⟨hfits.1, by simpa [hut] using hfits.2.1, hfits.2.2⟩
    | enter j =>
      rw [hp] at hfits
      exact ⟨hfits.1.imp id fun hu => by simp [hu], hfits.2⟩
    | inside j l =>
      rw [hp] at hfits
      exact hfits
    | done j r =>
      rw [hp] at hfits
      exact hfits

/-- The owner frees the mutex, and nobody waits. -/
theorem LockInv.release (h : LockInv m v pend phase) (ho : v.owner = some t) (hline : v.line = [])
    (hpend : pend' = update pend t p) (hq : q.Fits m ⟨[], none, 0⟩ p t) :
    LockInv m ⟨[], none, 0⟩ pend' (update phase t q) := by
  refine LockInv.others hpend (by simp) (by simp) (by simp) hq fun u hut => ?_
  have hfits := h.fits u
  have hother : v.owner ≠ some u := fun hu => hut (Option.some.inj (hu.symm.trans ho))
  cases hp : phase u with
  | out =>
    rw [hp] at hfits
    exact ⟨by simp, by simp, hfits.2.2⟩
  | exit j r =>
    rw [hp] at hfits
    exact ⟨by simp, by simp, hfits.2.2⟩
  | enter j =>
    rw [hp] at hfits
    have hno := hfits.1
    simp [hother, hline] at hno
  | inside j l =>
    rw [hp] at hfits
    exact absurd hfits.1 hother
  | done j r =>
    rw [hp] at hfits
    exact absurd hfits.1 hother

/-- The owner hands the mutex to the first waiter, which is inside of `mutex_lock`. -/
theorem LockInv.handOff (h : LockInv m v pend phase) (ho : v.owner = some t)
    (hline : v.line = w :: ws) (hnd : v.line.Nodup) (hpend : pend' = update pend t p)
    (hq : q.Fits m ⟨ws, some w, 1⟩ p t) :
    LockInv m ⟨ws, some w, 1⟩ pend' (update phase t q) := by
  rw [hline] at hnd
  obtain ⟨hwws, -⟩ := List.nodup_cons.mp hnd
  refine LockInv.others hpend (by simp) (by simp) (fun u hu => ⟨by simp, ?_⟩) hq fun u hut => ?_
  · rintro hwu
    obtain rfl : w = u := by simpa using hwu
    exact hwws hu
  · have hfits := h.fits u
    have hother : v.owner ≠ some u := fun hu => hut (Option.some.inj (hu.symm.trans ho))
    cases hp : phase u with
    | out =>
      rw [hp, Phase.Fits, hline] at hfits
      obtain ⟨-, hu, hrest⟩ := hfits
      exact ⟨fun hwu => hu (by simp [Option.some.inj hwu]), fun hin => hu (by simp [hin]), hrest⟩
    | exit j r =>
      rw [hp, Phase.Fits, hline] at hfits
      obtain ⟨-, hu, hrest⟩ := hfits
      exact ⟨fun hwu => hu (by simp [Option.some.inj hwu]), fun hin => hu (by simp [hin]), hrest⟩
    | enter j =>
      rw [hp, Phase.Fits, hline] at hfits
      refine ⟨?_, hfits.2⟩
      rcases List.mem_cons.mp (hfits.1.resolve_left hother) with rfl | hu
      · exact Or.inl rfl
      · exact Or.inr hu
    | inside j l =>
      rw [hp] at hfits
      exact absurd hfits.1 hother
    | done j r =>
      rw [hp] at hfits
      exact absurd hfits.1 hother

end Inv

/-! ### The sections and the data -/

/-- What the sections have done to the data. Those that are over are whole sections, one after the
other. The section of the task at work has begun behind them. -/
def Serialized (b : Body E J L D R) (d₀ : D) (data : D) (phase : T → Phase J L R)
    (log : List (Entry T J R)) : Prop :=
  ∃ d₁, Serial b d₀ log d₁ ∧ (∀ t j l, phase t = .inside j l → Partial b j d₁ l data) ∧
    ((∀ t j l, phase t ≠ .inside j l) → data = d₁)

section Data

variable {b : Body E J L D R} {d₀ data data' : D} {phase : T → Phase J L R}
  {log : List (Entry T J R)} {t : T} {q : Phase J L R} {j : J} {l l' : L} {r : R} {e : E}

/-- A task that is not at work changes its phase. -/
theorem Serialized.move (h : Serialized b d₀ data phase log) (ht : ∀ j l, phase t ≠ .inside j l)
    (hq : ∀ j l, q ≠ .inside j l) : Serialized b d₀ data (update phase t q) log := by
  obtain ⟨d₁, hserial, hpart, hidle⟩ := h
  refine ⟨d₁, hserial, fun u j l hu => ?_, fun hnone => hidle fun u j l hu => ?_⟩
  · by_cases hut : u = t
    · subst hut
      rw [Function.update_self] at hu
      exact absurd hu (hq j l)
    · rw [Function.update_of_ne hut] at hu
      exact hpart u j l hu
  · have hut : u ≠ t := by
      rintro rfl
      exact ht j l hu
    exact hnone u j l (by rw [Function.update_of_ne hut]; exact hu)

/-- A task begins its section. -/
theorem Serialized.begin (h : Serialized b d₀ data phase log)
    (hnone : ∀ u j l, phase u ≠ .inside j l) (j : J) :
    Serialized b d₀ data (update phase t (.inside j (b.init j))) log := by
  obtain ⟨d₁, hserial, -, hidle⟩ := h
  obtain rfl := hidle hnone
  refine ⟨data, hserial, fun u j' l' hu => ?_, fun hno => absurd (Function.update_self _ _ _)
    (hno t j (b.init j))⟩
  by_cases hut : u = t
  · subst hut
    rw [Function.update_self] at hu
    obtain ⟨rfl, rfl⟩ := Phase.inside.inj hu
    exact Partial.start
  · rw [Function.update_of_ne hut] at hu
    exact absurd hu (hnone u j' l')

/-- A task makes a step of its section. -/
theorem Serialized.next (h : Serialized b d₀ data phase log) (ht : phase t = .inside j l)
    (hstep : b.step e l data = (data', .next l'))
    (hone : ∀ u j' l', phase u = .inside j' l' → u = t) :
    Serialized b d₀ data' (update phase t (.inside j l')) log := by
  obtain ⟨d₁, hserial, hpart, -⟩ := h
  refine ⟨d₁, hserial, fun u j' l₁ hu => ?_, fun hno => absurd (Function.update_self _ _ _)
    (hno t j l')⟩
  by_cases hut : u = t
  · subst hut
    rw [Function.update_self] at hu
    obtain ⟨rfl, rfl⟩ := Phase.inside.inj hu
    exact (hpart u j l ht).step hstep
  · rw [Function.update_of_ne hut] at hu
    exact absurd (hone u j' l₁ hu) hut

/-- A task makes the last step of its section. -/
theorem Serialized.finish (h : Serialized b d₀ data phase log) (ht : phase t = .inside j l)
    (hstep : b.step e l data = (data', .done r))
    (hone : ∀ u j' l', phase u = .inside j' l' → u = t) :
    Serialized b d₀ data' (update phase t (.done j r)) (log ++ [⟨t, j, r⟩]) := by
  obtain ⟨d₁, hserial, hpart, -⟩ := h
  refine ⟨data', hserial.snoc ⟨e, l, data, hpart t j l ht, hstep⟩, fun u j' l₁ hu => ?_,
    fun _ => rfl⟩
  by_cases hut : u = t
  · subst hut
    rw [Function.update_self] at hu
    cases hu
  · rw [Function.update_of_ne hut] at hu
    exact absurd (hone u j' l₁ hu) hut

end Data

/-! ### The steps of the system -/

/-- The invariant of the system. -/
structure LockedInv (m : M) (b : Body E J L D R) (d₀ : D) (c : Locked T M S J L D R) : Prop where
  lines : ∃ d, ConfigRel Matches c.cfg d ∧ LockInv m (d.st.view (.mutex m)) d.pend c.phase
  serialized : Serialized b d₀ c.data c.phase c.log

section System

variable {m : M} {b : Body E J L D R} {d₀ : D} {c c' : Locked T M S J L D R}
  {ls : List (LockedLabel M S E J)} {j : J} {e : E}

/-- What a task without a pending operation is doing is not over when it makes a step. -/
theorem Phase.returned_of_pendsOther {v : View T} {p p' : Option (Call M S × Rest)} {t : T}
    {q : Phase J L R} (h : q.Fits m v p t) (hp : PendsOther m p) :
    q.returned b = q ∧ (PendsOther m p' → q.Fits m v p' t) := by
  cases q with
  | out => exact ⟨rfl, fun hp' => ⟨h.1, h.2.1, hp'⟩⟩
  | inside j l => exact ⟨rfl, fun hp' => ⟨h.1, hp'⟩⟩
  | done j r => exact ⟨rfl, fun hp' => ⟨h.1, hp'⟩⟩
  | enter j => exact absurd rfl (hp _ _ h.2)
  | exit j r => exact absurd rfl (hp _ _ h.2.2)

/-- A step of the kernel that is no call for the mutex. -/
theorem LockedInv.kernel {l : KLabel M S} (h : LockedInv m b d₀ c) (hfit : SleepFits l)
    (he : lockedStep m b c (.kernel l) = some c') : LockedInv m b d₀ c' := by
  obtain ⟨⟨d, hrel, hlock⟩, hser⟩ := h
  simp only [lockedStep] at he
  split at he
  · cases he
  rename_i hl
  obtain ⟨cfg, hstep, rfl⟩ := Option.map_eq_some_iff.mp he
  obtain ⟨d', hd', hrel'⟩ := kernel_simulates.step hrel hfit hstep
  have hcurr : taskCurrent c.cfg.st = d.st.curr := hrel.st.1.curr
  have hfits := hlock.fits d.st.curr
  unfold Locked.settle
  simp only [hcurr, hrel'.pend]
  cases l with
  | start a =>
    have hobj : a.obj ≠ some (.mutex m) := by
      cases a <;> simp_all [Call.obj]
    obtain ⟨hview, hnone, p, hpend, hp⟩ := start_other hobj hd'
    obtain ⟨hret, hkeep⟩ := Phase.returned_of_pendsOther (b := b) (q := c.phase d.st.curr) hfits
      (hnone ▸ pendsOther_none m)
    rw [hret, ite_self]
    refine ⟨⟨d', hrel', hview ▸ hlock.same hpend (hkeep hp)⟩, ?_⟩
    rw [Function.update_eq_self]
    exact hser
  | resume =>
    obtain ⟨hview, a, k, p, hpending, hpend, hcases, hleave⟩ := resume_other (m := m) hd'
    have hpself : d'.pend d.st.curr = p := by rw [hpend, Function.update_self]
    rw [hpself]
    by_cases hobj : a.obj = some (.mutex m)
    swap
    · -- The rest of another operation.
      have hother : ∀ {p}, (p = none ∨ ∃ k', p = some (a, k')) → PendsOther m p := by
        rintro p (rfl | ⟨k', rfl⟩) a' k₁ hpa
        · cases hpa
        · obtain ⟨rfl, -⟩ := Prod.mk.inj (Option.some.inj hpa)
          exact hobj
      obtain ⟨hret, hkeep⟩ := Phase.returned_of_pendsOther (b := b) (q := c.phase d.st.curr) hfits
        (hother (Or.inr ⟨k, hpending⟩))
      rw [hret, ite_self]
      refine ⟨⟨d', hrel', hview ▸ hlock.same hpend (hkeep (hother hcases))⟩, ?_⟩
      rw [Function.update_eq_self]
      exact hser
    -- A lock or an unlock returns.
    have hnotin : d.st.curr ∉ (d.st.view (.mutex m)).line := by
      rw [Queues.view_line]
      exact hrel.st.2.curr_not_wait (.mutex m)
    cases hphase : c.phase d.st.curr with
    | out =>
      rw [hphase] at hfits
      exact absurd hobj (hfits.2.2 a k hpending)
    | inside j l =>
      rw [hphase] at hfits
      exact absurd hobj (hfits.2 a k hpending)
    | done j r =>
      rw [hphase] at hfits
      exact absurd hobj (hfits.2 a k hpending)
    | enter j =>
      rw [hphase] at hfits
      obtain ⟨-, hk⟩ := Prod.mk.inj (Option.some.inj (hpending.symm.trans hfits.2))
      obtain rfl := hleave hk
      have ho := hfits.1.resolve_right hnotin
      refine ⟨⟨d', hrel', hview ▸ hlock.same hpend ⟨ho, pendsOther_none m⟩⟩, ?_⟩
      refine hser.begin (fun u j' l' hu => ?_) j
      obtain rfl := Option.some.inj (ho.symm.trans (hlock.owner hu))
      rw [hphase] at hu
      cases hu
    | exit j r =>
      rw [hphase] at hfits
      obtain ⟨-, hk⟩ := Prod.mk.inj (Option.some.inj (hpending.symm.trans hfits.2.2))
      obtain rfl := hleave hk
      refine ⟨⟨d', hrel', hview ▸ hlock.same hpend ⟨hfits.1, hfits.2.1, pendsOther_none m⟩⟩, ?_⟩
      exact hser.move (by simp [hphase]) (by simp [Phase.returned])

/-- A task calls `mutex_lock`. -/
theorem LockedInv.lock (h : LockedInv m b d₀ c) (he : lockedStep m b c (.lock j) = some c') :
    LockedInv m b d₀ c' := by
  obtain ⟨⟨d, hrel, hlock⟩, hser⟩ := h
  simp only [lockedStep] at he
  split at he
  swap
  · cases he
  rename_i hphase
  have hfit : SleepFits (.start (.mutexLock m) : KLabel M S) := trivial
  obtain ⟨cfg, hstep, rfl⟩ := Option.map_eq_some_iff.mp he
  obtain ⟨d', hd', hrel'⟩ := kernel_simulates.step hrel hfit hstep
  have hcurr : taskCurrent c.cfg.st = d.st.curr := hrel.st.1.curr
  rw [hcurr] at hphase
  have hfits := hlock.fits d.st.curr
  rw [hphase] at hfits
  unfold Locked.settle
  simp only [hcurr, hrel'.pend]
  rcases lock_outside hrel.st.2 hfits.1 hd' with ⟨h₀, hpend, hview⟩ | ⟨h₀, hpend, hview⟩
  · -- The mutex was free, so nobody is at work.
    have hself : d'.pend d.st.curr = none := by rw [hpend, Function.update_self]
    rw [hself]
    refine ⟨⟨d', hrel', hview ▸ hlock.take h₀ hpend rfl⟩, hser.begin (fun u j' l' hu => ?_) j⟩
    have ho := hlock.owner hu
    rw [(hlock.of_free h₀).1] at ho
    cases ho
  · have hself : d'.pend d.st.curr = some (.mutexLock m, .leave) := by
      rw [hpend, Function.update_self]
    rw [hself]
    exact ⟨⟨d', hrel', hview ▸ hlock.wait h₀ hfits.1 hpend⟩,
      hser.move (by simp [hphase]) (by simp)⟩

/-- A task makes a step of its section. -/
theorem LockedInv.work (h : LockedInv m b d₀ c) (he : lockedStep m b c (.work e) = some c') :
    LockedInv m b d₀ c' := by
  obtain ⟨⟨d, hrel, hlock⟩, hser⟩ := h
  have hcurr : taskCurrent c.cfg.st = d.st.curr := hrel.st.1.curr
  simp only [lockedStep, hcurr] at he
  split at he
  swap
  · cases he
  rename_i j l hphase hnone
  have hfits := hlock.fits d.st.curr
  rw [hphase] at hfits
  have hone : ∀ u j' l', c.phase u = .inside j' l' → u = d.st.curr :=
    fun u j' l' hu => hlock.unique hu hphase
  have hpend : d.pend = update d.pend d.st.curr (d.pend d.st.curr) :=
    (Function.update_eq_self _ _).symm
  split at he
  · rename_i d₁ l' hb
    obtain rfl := Option.some.inj he
    exact ⟨⟨d, hrel, hlock.same hpend hfits⟩, hser.next hphase hb hone⟩
  · rename_i d₁ r hb
    obtain rfl := Option.some.inj he
    exact ⟨⟨d, hrel, hlock.same hpend hfits⟩, hser.finish hphase hb hone⟩

/-- A task calls `mutex_unlock`. -/
theorem LockedInv.unlock (h : LockedInv m b d₀ c) (he : lockedStep m b c .unlock = some c') :
    LockedInv m b d₀ c' := by
  obtain ⟨⟨d, hrel, hlock⟩, hser⟩ := h
  simp only [lockedStep] at he
  split at he
  swap
  · cases he
  rename_i j r hphase
  have hfit : SleepFits (.start (.mutexUnlock m) : KLabel M S) := trivial
  obtain ⟨cfg, hstep, rfl⟩ := Option.map_eq_some_iff.mp he
  obtain ⟨d', hd', hrel'⟩ := kernel_simulates.step hrel hfit hstep
  have hcurr : taskCurrent c.cfg.st = d.st.curr := hrel.st.1.curr
  rw [hcurr] at hphase
  have hfits := hlock.fits d.st.curr
  rw [hphase] at hfits
  have ho : (d.st.view (.mutex m)).owner = some d.st.curr := hfits.1
  have hcount : d.st.lockedCount m = 1 := hlock.one (by rw [ho]; exact Option.some_ne_none _)
  unfold Locked.settle
  simp only [hcurr, hrel'.pend]
  obtain ⟨⟨p, hpend, hp⟩, hview⟩ := unlock_owner ho hcount hd'
  have hself : d'.pend d.st.curr = p := by rw [hpend, Function.update_self]
  rw [hself]
  -- The task is out of the section, or only has to return.
  have hq : ∀ v : View T, v.owner ≠ some d.st.curr → d.st.curr ∉ v.line →
      (if p.isNone then (Phase.exit j r).returned b else .exit j r).Fits m v p d.st.curr := by
    intro v hne hin
    rcases hp with rfl | rfl
    · exact ⟨hne, hin, pendsOther_none m⟩
    · exact ⟨hne, hin, rfl⟩
  have hmove : Serialized b d₀ c.data (update c.phase d.st.curr
      (if p.isNone then (Phase.exit j r).returned b else .exit j r)) c.log := by
    refine hser.move (by simp [hphase]) fun j' l' => ?_
    rcases hp with rfl | rfl
    · simp [Phase.returned]
    · simp
  refine ⟨⟨d', hrel', ?_⟩, hmove⟩
  rcases hview with ⟨hline, hview⟩ | ⟨w, ws, hline, hview⟩
  · rw [hview]
    exact hlock.release ho (by rw [Queues.view_line, hline]) hpend (hq _ (by simp) (by simp))
  · rw [hview]
    have hnd : (d.st.view (.mutex m)).line.Nodup := by
      rw [Queues.view_line]
      exact hrel.st.2.placed.nodup (.wait (.mutex m))
    have hnotin := hrel.st.2.curr_not_wait (.mutex m)
    rw [hline] at hnotin
    refine hlock.handOff ho (by rw [Queues.view_line, hline]) hnd hpend (hq _ ?_ ?_)
    · rintro hw
      exact hnotin (by simp [Option.some.inj hw])
    · exact fun hin => hnotin (List.mem_cons_of_mem w hin)

/-- Each step keeps the invariant. -/
theorem lockedStep_inv {l : LockedLabel M S E J} (h : LockedInv m b d₀ c) (hfit : LockedFits l)
    (he : lockedStep m b c l = some c') : LockedInv m b d₀ c' := by
  cases l with
  | kernel l => exact h.kernel hfit he
  | lock j => exact h.lock he
  | work e => exact h.work he
  | unlock => exact h.unlock he

/-- The system before the first section: the mutex is as `mutex_init` leaves it, and nothing of it
is pending. -/
structure LockedStart (m : M) (c : Locked T M S J L D R) : Prop where
  sched : SchedInv c.cfg.st
  mutex : c.cfg.st.mutex m = mutexInit
  pend : ∀ t, PendsOther m (c.cfg.pend t)
  out : ∀ t, c.phase t = .out
  log : c.log = []

theorem LockedStart.inv (h : LockedStart m c) : LockedInv m b c.data c := by
  obtain ⟨a, ha⟩ := schedInv_iff.mp h.sched
  have howner : a.owner m = none := by rw [← ha.1.owner, h.mutex]; rfl
  have hcount : a.lockedCount m = 0 := by rw [← ha.1.lockedCount, h.mutex]; rfl
  have hline : a.line (.wait (.mutex m)) = [] := by
    have hw := ha.1.mutexLine m
    rw [h.mutex] at hw
    exact hw.unique isList_init
  refine ⟨⟨⟨a, c.cfg.pend, c.cfg.hist⟩, ⟨ha, rfl, rfl⟩, ?_⟩, c.data, ?_, fun t j l ht => ?_,
    fun _ => rfl⟩
  · refine ⟨by simp [Queues.view, howner, hcount], by simp [Queues.view, howner],
      by simp [hline], fun t => ?_⟩
    rw [h.out t]
    exact ⟨by simp [Queues.view, howner], by simp [hline], h.pend t⟩
  · rw [h.log]
    exact Serial.nil
  · rw [h.out t] at ht
    cases ht

/-- The job of a phase. -/
def Phase.job : Phase J L R → Option J
  | .out => none
  | .enter j => some j
  | .inside j _ => some j
  | .done j _ => some j
  | .exit j _ => some j

/-- The jobs of the system have the property `P`. -/
structure JobsOk (P : J → Prop) (c : Locked T M S J L D R) : Prop where
  phase : ∀ t j, (c.phase t).job = some j → P j
  log : ∀ x ∈ c.log, P x.job

theorem JobsOk.settle {P : J → Prop} (h : JobsOk P c) (cfg : KConfig T M S) {p : Phase J L R}
    (hp : ∀ j, p.job = some j → P j) : JobsOk P (c.settle b cfg p) := by
  have hret : ∀ j, (p.returned b).job = some j → P j := by
    cases p with
    | exit j r => exact fun j' hj => by cases hj
    | out => exact hp
    | enter j => exact hp
    | inside j l => exact hp
    | done j r => exact hp
  refine ⟨fun u j hu => ?_, h.log⟩
  simp only [Locked.settle, Function.update_apply] at hu
  split at hu
  · split at hu
    · exact hret j hu
    · exact hp j hu
  · exact h.phase u j hu

/-- The jobs are those of the calls. -/
theorem JobsOk.step {P : J → Prop} {l : LockedLabel M S E J} (h : JobsOk P c)
    (hl : ∀ j, l = .lock j → P j) (he : lockedStep m b c l = some c') : JobsOk P c' := by
  cases l with
  | kernel l =>
    simp only [lockedStep] at he
    split at he
    · cases he
    obtain ⟨cfg, -, rfl⟩ := Option.map_eq_some_iff.mp he
    exact h.settle cfg (h.phase _)
  | lock j =>
    simp only [lockedStep] at he
    split at he
    swap
    · cases he
    obtain ⟨cfg, -, rfl⟩ := Option.map_eq_some_iff.mp he
    exact h.settle cfg fun j' hj => by
      obtain rfl := Option.some.inj hj
      exact hl _ rfl
  | work e =>
    simp only [lockedStep] at he
    split at he
    swap
    · cases he
    rename_i j l hphase hpend
    have hj : P j := h.phase _ j (by rw [hphase]; rfl)
    split at he <;> obtain rfl := Option.some.inj he
    · refine ⟨fun u j' hu => ?_, h.log⟩
      simp only [Function.update_apply] at hu
      split at hu
      · obtain rfl := Option.some.inj hu
        exact hj
      · exact h.phase u j' hu
    · refine ⟨fun u j' hu => ?_, fun x hx => ?_⟩
      · simp only [Function.update_apply] at hu
        split at hu
        · obtain rfl := Option.some.inj hu
          exact hj
        · exact h.phase u j' hu
      · rcases List.mem_append.mp hx with hx | hx
        · exact h.log x hx
        · obtain rfl := List.mem_singleton.mp hx
          exact hj
  | unlock =>
    simp only [lockedStep] at he
    split at he
    swap
    · cases he
    rename_i j r hphase
    obtain ⟨cfg, -, rfl⟩ := Option.map_eq_some_iff.mp he
    refine h.settle cfg fun j' hj => h.phase (taskCurrent c.cfg.st) j' ?_
    rw [hphase]
    exact hj

/-- The jobs over a run. -/
theorem locked_jobs {P : J → Prop} (h : LockedStart m c) (hl : ∀ j, .lock j ∈ ls → P j)
    (hrun : run (lockedStep m b) c ls = some c') : JobsOk P c' := by
  have hstart : JobsOk P c := by
    refine ⟨fun t j hj => ?_, fun x hx => ?_⟩
    · rw [h.out t] at hj
      cases hj
    · rw [h.log] at hx
      cases hx
  have hlabels : ∀ l ∈ ls, ∀ j, l = .lock j → P j := fun l hmem j he => hl j (he ▸ hmem)
  refine Trace.run_invariant (I := JobsOk P) ?_ hstart (Trace.meets_of_forall hlabels) hrun
  exact fun _ _ _ hI hl hs => hI.step hl hs

/-- Sections under a mutex are serial, whatever the scheduler does between their steps. -/
theorem locked_serial (h : LockedStart m c) (hfit : ∀ l ∈ ls, LockedFits l)
    (hrun : run (lockedStep m b) c ls = some c') :
    Serialized b c.data c'.data c'.phase c'.log ∧
      ∀ t u j j' l l', c'.phase t = .inside j l → c'.phase u = .inside j' l' → t = u := by
  have hinv : LockedInv m b c.data c' := by
    refine Trace.run_invariant (I := fun c' => LockedInv m b c.data c') ?_ h.inv
      (Trace.meets_of_forall hfit) hrun
    exact fun _ _ _ hI hl hs => lockedStep_inv hI hl hs
  obtain ⟨d, -, hlock⟩ := hinv.lines
  exact ⟨hinv.serialized, fun t u j j' l l' ht hu => hlock.unique ht hu⟩

end System

end StartKernel
