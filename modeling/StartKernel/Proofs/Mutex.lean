import StartKernel.Proofs.Wait

/-!
# `StartKernel.Proofs.Mutex`: the mutex over all runs

A task holds a mutex as often as its returned locks outnumber its unlocks (`held`). A waiter
that `mutex_unlock` hands the mutex to is its owner before its own `mutex_lock` has
returned. In this window the count is one ahead of the returned locks.

* `MutexInv.step`: what a step preserves about one mutex.
* `mutex_correct`: over every run, the count of a mutex is what its owner holds, with the
  hand-off counted, nobody else holds it, and the waiters get it in their order.
* `mutex_count_differs`: a run that ends inside the window.
-/

set_option autoImplicit false
set_option linter.unusedSectionVars false

namespace StartKernel

open Function (update)
open Suspend (Stretch step run step_cases Meets ConfigRel)
open Trace (run_snoc run_invariant meets_of_forall)

variable {T M S : Type} [DecidableEq T] [HasIdle T] [DecidableEq M] [DecidableEq S]

/-- How an event changes the number of locks of `m` that `t` holds. -/
def heldStep (m : M) (t : T) (n : Nat) : Event T M S → Nat
  | .ret u (.mutexLock m') => if u = t ∧ m' = m then n + 1 else n
  | .call u (.mutexUnlock m') => if u = t ∧ m' = m then n - 1 else n
  | _ => n

/-- The returned locks of `m` by `t` that no unlock of `t` has matched yet. -/
def held (m : M) (t : T) (hist : List (Event T M S)) : Nat := hist.foldl (heldStep m t) 0

/-- The pending operation is a lock of `m`. -/
def locking (m : M) : Option (Call M S × Rest) → Bool
  | some (.mutexLock m', _) => m' == m
  | _ => false

theorem held_append (m : M) (t : T) (hist es : List (Event T M S)) :
    held m t (hist ++ es) = es.foldl (heldStep m t) (held m t hist) := by
  unfold held
  rw [List.foldl_append]

/-- Events that are no calls and no returns change nobody's locks. -/
theorem foldl_heldStep {m : M} {t : T} {n : Nat} {es : List (Event T M S)}
    (h : ∀ e ∈ es, heldStep m t n e = n) : es.foldl (heldStep m t) n = n := by
  induction es with
  | nil => rfl
  | cons e es ih =>
    rw [List.foldl_cons, h e List.mem_cons_self]
    exact ih fun e' he' => h e' (List.mem_cons_of_mem e he')

/-- The events of an outcome change nobody's locks. -/
theorem outcome_held (a : Queues T M S) (m : M) (t u : T) (c : Call M S) (n : Nat) :
    (a.outcome u c).foldl (heldStep m t) n = n := by
  apply foldl_heldStep
  intro e he
  obtain ⟨o, w, -, rfl | rfl | rfl⟩ := mem_outcome he <;> rfl

/-- The invariant of a mutex, said of its view `v`, the pending operations and the history. -/
structure MutexInv (m : M) (v : View T) (pend : T → Option (Call M S × Rest))
    (hist : List (Event T M S)) : Prop where
  free : v.owner = none ↔ v.count = 0
  range : 0 ≤ v.count ∧ v.count < 2 ^ 31
  waits : ∀ t ∈ v.line, v.owner ≠ none ∧ v.owner ≠ some t ∧ locking m (pend t) = true
  pending : ∀ t k, pend t = some (.mutexLock m, k) → k = .leave ∧ (t ∈ v.line ∨ v.owner = some t)
  counts : ∀ t, (held m t hist : Int) + (if locking m (pend t) ∧ v.owner = some t then 1 else 0)
    = if v.owner = some t then v.count else 0

section Step

variable {m : M} {v : View T} {pend pend' : T → Option (Call M S × Rest)}
  {hist hist' : List (Event T M S)} {d d' : QConfig T M S} {l : KLabel M S}

theorem locking_iff {p : Option (Call M S × Rest)} :
    locking m p = true ↔ ∃ k, p = some (.mutexLock m, k) := by
  unfold locking
  split
  · rename_i m' k
    simp
  · rename_i hne
    simp only [Bool.false_eq_true, false_iff]
    rintro ⟨k, rfl⟩
    exact hne m k rfl

/-- A step that concerns other objects keeps the invariant of the mutex. -/
theorem MutexInv.congr (h : MutexInv m v pend hist)
    (hp : ∀ t, pend' t ≠ pend t → locking m (pend' t) = false ∧ locking m (pend t) = false)
    (hh : ∀ t, held m t hist' = held m t hist) :
    MutexInv m v pend' hist' := by
  have hlock : ∀ t, locking m (pend' t) = locking m (pend t) := by
    intro t
    by_cases hne : pend' t = pend t
    · rw [hne]
    · rw [(hp t hne).1, (hp t hne).2]
  refine ⟨h.free, h.range, fun t ht => ?_, fun t k hk => ?_, fun t => ?_⟩
  · rw [hlock]
    exact h.waits t ht
  · by_cases hne : pend' t = pend t
    · exact h.pending t k (hne ▸ hk)
    · have := (hp t hne).1
      rw [locking_iff.mpr ⟨k, hk⟩] at this
      exact absurd this (by simp)
  · rw [hlock, hh]
    exact h.counts t

/-- A free mutex has no waiters, and nobody is locking it. -/
theorem MutexInv.of_free (h : MutexInv m v pend hist) (h₀ : v.count = 0) :
    v.owner = none ∧ v.line = [] ∧ ∀ t, locking m (pend t) = false := by
  have hown := h.free.mpr h₀
  have hline : v.line = [] := by
    rw [List.eq_nil_iff_forall_not_mem]
    exact fun t ht => (h.waits t ht).1 hown
  refine ⟨hown, hline, fun t => ?_⟩
  rw [Bool.eq_false_iff]
  intro hl
  obtain ⟨k, hk⟩ := locking_iff.mp hl
  rcases (h.pending t k hk).2 with ht | ht
  · simp [hline] at ht
  · simp [hown] at ht

/-- What a step of the task `t` does beside the view: nothing changes for the others, and
nothing of a lock of `m` by `t` is pending behind it. -/
structure StepOf (m : M) (t : T) (pend pend' : T → Option (Call M S × Rest))
    (hist hist' : List (Event T M S)) : Prop where
  pend_other : ∀ u, u ≠ t → pend' u = pend u
  held_other : ∀ u, u ≠ t → held m u hist' = held m u hist
  pend_self : locking m (pend' t) = false

variable {t u w : T} {ws : List T} {k : Rest}

/-- A pending lock behind the step was pending in front of it, and is not one of `t`. -/
theorem StepOf.pend_of (hs : StepOf m t pend pend' hist hist')
    (hk : pend' u = some (.mutexLock m, k)) : u ≠ t ∧ pend u = some (.mutexLock m, k) := by
  by_cases hut : u = t
  · subst hut
    have hself := hs.pend_self
    rw [locking_iff.mpr ⟨k, hk⟩] at hself
    exact absurd hself (by simp)
  · exact ⟨hut, hs.pend_other u hut ▸ hk⟩

/-- The task takes the free mutex. -/
theorem MutexInv.take (h : MutexInv m v pend hist) (hs : StepOf m t pend pend' hist hist')
    (hheld : held m t hist' = held m t hist + 1) (h₀ : v.count = 0) :
    MutexInv m ⟨v.line, some t, 1⟩ pend' hist' := by
  obtain ⟨hown, hline, hlock⟩ := h.of_free h₀
  have hlock' : ∀ u, locking m (pend' u) = false := by
    intro u
    by_cases hu : u = t
    · rw [hu, hs.pend_self]
    · rw [hs.pend_other u hu, hlock]
  refine ⟨by simp, by simp, by simp [hline], fun u k hk => ?_, fun u => ?_⟩
  · have := hlock' u
    rw [locking_iff.mpr ⟨k, hk⟩] at this
    exact absurd this (by simp)
  · have hu₀ := h.counts u
    simp only [hlock, hown] at hu₀
    by_cases hu : u = t
    · subst hu
      simp only [hlock', hheld]
      simpa using hu₀
    · simp only [hlock', hs.held_other u hu]
      simpa [Ne.symm hu] using hu₀

/-- The owner keeps the mutex, and its locks change as the count does. -/
theorem MutexInv.recount (h : MutexInv m v pend hist) (hs : StepOf m t pend pend' hist hist')
    (hp : locking m (pend t) = false) (ho : v.owner = some t) {n : Int}
    (hn : 0 < n ∧ n < 2 ^ 31)
    (hheld : (held m t hist' : Int) - held m t hist = n - v.count) :
    MutexInv m ⟨v.line, some t, n⟩ pend' hist' := by
  refine ⟨by simp; omega, ⟨le_of_lt hn.1, hn.2⟩, fun u hu => ?_, fun u k hk => ?_, fun u => ?_⟩
  · obtain ⟨-, hne, hl⟩ := h.waits u hu
    have hut : u ≠ t := by
      rintro rfl
      exact hne ho
    rw [hs.pend_other u hut]
    exact ⟨by simp, by simpa using Ne.symm hut, hl⟩
  · obtain ⟨hut, hk⟩ := hs.pend_of hk
    simpa [ho] using h.pending _ _ hk
  · have hu₀ := h.counts u
    by_cases hut : u = t
    · -- No lock of the owner is pending, so the count is exactly what it holds.
      subst hut
      simp only [hp, ho] at hu₀
      simp only [hs.pend_self]
      simp at hu₀ ⊢
      omega
    · simpa [hs.held_other u hut, ho, Ne.symm hut] using hu₀

/-- The owner locks once more. -/
theorem MutexInv.nest (h : MutexInv m v pend hist) (hs : StepOf m t pend pend' hist hist')
    (hheld : held m t hist' = held m t hist + 1)
    (hp : locking m (pend t) = false) (ho : v.owner = some t) (hc : v.count < 2 ^ 31 - 1) :
    MutexInv m ⟨v.line, some t, v.count + 1⟩ pend' hist' := by
  have hrange := h.range
  exact h.recount hs hp ho ⟨by omega, by omega⟩ (by omega)

/-- The task joins the waiters of a mutex of somebody else. -/
theorem MutexInv.wait (h : MutexInv m v pend hist)
    (hpend : ∀ u, u ≠ t → pend' u = pend u) (hself : pend' t = some (.mutexLock m, .leave))
    (hheld : ∀ u, held m u hist' = held m u hist)
    (h₀ : v.count ≠ 0) (ho : v.owner ≠ some t) :
    MutexInv m ⟨v.line ++ [t], v.owner, v.count⟩ pend' hist' := by
  have hnone : v.owner ≠ none := fun hn => h₀ (h.free.mp hn)
  refine ⟨h.free, h.range, fun u hu => ?_, fun u k hk => ?_, fun u => ?_⟩
  · by_cases hut : u = t
    · -- The new waiter: its own lock is the pending one.
      subst hut
      exact ⟨hnone, ho, locking_iff.mpr ⟨_, hself⟩⟩
    · rw [hpend u hut]
      exact h.waits u (by simpa [hut] using hu)
  · by_cases hut : u = t
    · subst hut
      rw [hself] at hk
      exact ⟨by simpa using hk.symm, Or.inl (by simp)⟩
    · rw [hpend u hut] at hk
      obtain ⟨hk', hor⟩ := h.pending u k hk
      exact ⟨hk', hor.imp_left fun hm => by simp [hm]⟩
  · have hu₀ := h.counts u
    rw [hheld]
    by_cases hut : u = t
    · subst hut
      simpa [ho] using hu₀
    · rwa [hpend u hut]

/-- The owner unlocks an inner lock. -/
theorem MutexInv.inner (h : MutexInv m v pend hist) (hs : StepOf m t pend pend' hist hist')
    (hheld : held m t hist' = held m t hist - 1)
    (hp : locking m (pend t) = false) (ho : v.owner = some t) (hc : v.count - 1 ≠ 0) :
    MutexInv m ⟨v.line, some t, v.count - 1⟩ pend' hist' := by
  have hrange := h.range
  have hpos : v.count ≠ 0 := fun h₀ => by simp [h.free.mpr h₀] at ho
  have hcount : (held m t hist : Int) = v.count := by
    simpa [hp, ho] using h.counts t
  exact h.recount hs hp ho ⟨by omega, by omega⟩ (by omega)

/-- The owner unlocks for the last time, and nobody waits. -/
theorem MutexInv.last (h : MutexInv m v pend hist) (hs : StepOf m t pend pend' hist hist')
    (hheld : held m t hist' = held m t hist - 1)
    (hp : locking m (pend t) = false) (ho : v.owner = some t) (hc : v.count = 1)
    (hline : v.line = []) : MutexInv m ⟨[], none, 0⟩ pend' hist' := by
  refine ⟨by simp, by simp, by simp, fun u k hk => ?_, fun u => ?_⟩
  · obtain ⟨hut, hk⟩ := hs.pend_of hk
    have := (h.pending u k hk).2
    simp [hline, ho, Ne.symm hut] at this
  · have hu₀ := h.counts u
    by_cases hut : u = t
    · subst hut
      simp only [hp, ho, hc] at hu₀
      rw [hheld]
      simp at hu₀ ⊢
      omega
    · simpa [hs.held_other u hut, ho, Ne.symm hut] using hu₀

/-- The owner's last unlock hands the mutex to the first waiter, whose lock is still
pending. -/
theorem MutexInv.handOff (h : MutexInv m v pend hist) (hs : StepOf m t pend pend' hist hist')
    (hheld : held m t hist' = held m t hist - 1)
    (hp : locking m (pend t) = false) (ho : v.owner = some t) (hc : v.count = 1)
    (hline : v.line = w :: ws) (hnd : v.line.Nodup) :
    MutexInv m ⟨ws, some w, 1⟩ pend' hist' := by
  have hw := h.waits w (by simp [hline])
  have hwt : w ≠ t := by
    rintro rfl
    exact hw.2.1 ho
  have hwws : w ∉ ws := by
    rw [hline] at hnd
    exact (List.nodup_cons.mp hnd).1
  refine ⟨by simp, by simp, fun u hu => ?_, fun u k hk => ?_, fun u => ?_⟩
  · obtain ⟨-, hne, hl⟩ := h.waits u (by simp [hline, hu])
    have hut : u ≠ t := by
      rintro rfl
      exact hne ho
    rw [hs.pend_other u hut]
    refine ⟨by simp, ?_, hl⟩
    rintro he
    obtain rfl : w = u := by simpa using he
    exact hwws hu
  · obtain ⟨hut, hk⟩ := hs.pend_of hk
    obtain ⟨hk', hor⟩ := h.pending u k hk
    refine ⟨hk', ?_⟩
    simp only [hline, ho, List.mem_cons, Option.some.injEq, Ne.symm hut, or_false] at hor
    rcases hor with rfl | hm
    · exact Or.inr rfl
    · exact Or.inl hm
  · have hu₀ := h.counts u
    by_cases hut : u = t
    · subst hut
      simp only [hp, ho, hc] at hu₀
      rw [hheld]
      simp [hwt] at hu₀ ⊢
      omega
    · rw [hs.held_other u hut, hs.pend_other u hut]
      simp only [ho, Option.some.injEq, Ne.symm hut, and_false, if_false] at hu₀
      by_cases huw : u = w
      · -- The new owner holds nothing yet: the count of 1 is its pending lock.
        subst huw
        simp only [hw.2.2]
        simp at hu₀ ⊢
        omega
      · simpa [Ne.symm huw] using hu₀

/-- A lock that was handed the mutex returns. -/
theorem MutexInv.returns (h : MutexInv m v pend hist) (hs : StepOf m t pend pend' hist hist')
    (hheld : held m t hist' = held m t hist + 1)
    (hp : locking m (pend t) = true) (ht : t ∉ v.line) :
    v.owner = some t ∧ MutexInv m v pend' hist' := by
  obtain ⟨k, hk⟩ := locking_iff.mp hp
  have ho : v.owner = some t := (h.pending t k hk).2.resolve_left ht
  refine ⟨ho, h.free, h.range, fun u hu => ?_, fun u k hk => ?_, fun u => ?_⟩
  · have hut : u ≠ t := by
      rintro rfl
      exact ht hu
    rw [hs.pend_other u hut]
    exact h.waits u hu
  · obtain ⟨hut, hk⟩ := hs.pend_of hk
    exact h.pending u k hk
  · have hu₀ := h.counts u
    by_cases hut : u = t
    · -- The pending lock becomes one that the task holds, and the sum stays.
      subst hut
      simp only [hp, ho] at hu₀
      simp only [hs.pend_self, hheld, ho]
      simp at hu₀ ⊢
      omega
    · rwa [hs.held_other u hut, hs.pend_other u hut]

end Step

/-! ### The steps of the lines -/

section Lines

variable {m : M} {d d' : QConfig T M S} {l : KLabel M S} {c : Call M S} {k : Rest}

/-- The current task waits for nothing. -/
theorem Queues.Inv.curr_not_wait {a : Queues T M S} (hinv : a.Inv) (o : Obj M S) :
    a.curr ∉ a.line (.wait o) := by
  intro hm
  have hi := hinv.ne_idle hm
  exact absurd (hinv.placed.disjoint _ _ _ hm (hinv.curr_mem hi)) (by simp)

/-- The locks that a task holds after a stretch, when the notes do not count. -/
theorem held_settle_returned (t u : T) (notes : List (Event T M S)) (b : Queues T M S) :
    held m u (d.settle queues t c notes (.returned b)).hist =
      heldStep m u (held m u (d.hist ++ notes)) (.ret t c : Event T M S) := by
  simp only [Suspend.Config.settle, queues, held_append, List.foldl_cons, List.foldl_nil]

theorem held_settle_suspended (t u : T) (notes : List (Event T M S)) (b : Queues T M S) :
    held m u (d.settle queues t c notes (.suspended b k)).hist = held m u (d.hist ++ notes) :=
  rfl

/-- The locks that a task holds after the events of a call. -/
theorem held_notes (a : Queues T M S) (t u : T) :
    held m u (d.hist ++ (.call t c :: a.outcome t c)) =
      heldStep m u (held m u d.hist) (.call t c : Event T M S) := by
  rw [held_append, List.foldl_cons, outcome_held]

/-- The nesting depth of the mutex stays below `2^31` in the step. -/
def NestFitsLines (m : M) (d : QConfig T M S) (l : KLabel M S) : Prop :=
  l = .start (.mutexLock m) → d.st.owner m = some d.st.curr → d.st.lockedCount m < 2 ^ 31 - 1

/-- An operation on another object is a step of its caller that concerns no lock of `m`. -/
theorem settle_other (t : T) (notes : List (Event T M S)) (r : Stretch (Queues T M S) Rest)
    (hc : c ≠ .mutexLock m) (hp : locking m (d.pend t) = false)
    (hn : ∀ u, held m u (d.hist ++ notes) = held m u d.hist)
    (h : MutexInv m (d.st.view (.mutex m)) d.pend d.hist) :
    MutexInv m (d.st.view (.mutex m)) (d.settle queues t c notes r).pend
      (d.settle queues t c notes r).hist := by
  have hlock : ∀ k, locking m (some (c, k)) = false := by
    intro k
    rw [Bool.eq_false_iff]
    intro hl
    obtain ⟨k', hk'⟩ := locking_iff.mp hl
    exact hc (Prod.mk.inj (Option.some.inj hk')).1
  refine h.congr (fun u hu => ?_) fun u => ?_
  · by_cases hut : u = t
    · subst hut
      refine ⟨?_, hp⟩
      cases r with
      | returned b => simp [Suspend.Config.settle, locking]
      | suspended b k => simpa [Suspend.Config.settle] using hlock k
    · refine absurd ?_ hu
      cases r <;> simp [Suspend.Config.settle, hut]
  · cases r with
    | returned b =>
      rw [held_settle_returned, hn]
      cases c with
      | mutexLock m' =>
        have hm : ¬ m' = m := fun he => hc (by rw [he])
        simp [heldStep, hm]
      | _ => rfl
    | suspended b k => rw [held_settle_suspended, hn]

/-- The caller of an operation on the mutex: nothing changes for the others. -/
theorem stepOf_settle (t : T) (notes : List (Event T M S)) (r : Stretch (Queues T M S) Rest)
    (hc : ∀ k, locking m (some (c, k)) = true → ∃ b, r = .returned b)
    (hn : ∀ u, u ≠ t → held m u (d.hist ++ notes) = held m u d.hist) :
    StepOf m t d.pend (d.settle queues t c notes r).pend d.hist
      (d.settle queues t c notes r).hist := by
  cases r with
  | returned b =>
    refine ⟨fun u hu => ?_, fun u hu => ?_, ?_⟩
    · simp [Suspend.Config.settle, hu]
    · rw [held_settle_returned, hn u hu]
      cases c <;> simp [heldStep, Ne.symm hu]
    · simp [Suspend.Config.settle, locking]
  | suspended b k =>
    refine ⟨fun u hu => ?_, fun u hu => ?_, ?_⟩
    · simp [Suspend.Config.settle, hu]
    · rw [held_settle_suspended, hn u hu]
    · rw [Bool.eq_false_iff]
      intro hl
      obtain ⟨b', hb'⟩ := hc k (by simpa [Suspend.Config.settle] using hl)
      simp at hb'

/-- A lock of the mutex keeps its invariant. -/
theorem MutexInv.lock (h : MutexInv m (d.st.view (.mutex m)) d.pend d.hist) (hinv : d.st.Inv)
    (hc : d.st.curr ≠ idleTask) (hp : d.pend d.st.curr = none)
    (hnest : NestFitsLines m d (.start (.mutexLock m))) {d' : QConfig T M S}
    (hd : d' = d.settle queues d.st.curr (.mutexLock m)
      (.call d.st.curr (.mutexLock m) :: d.st.outcome d.st.curr (.mutexLock m))
      (d.st.lock m)) :
    MutexInv m (d'.st.view (.mutex m)) d'.pend d'.hist := by
  have hfree : locking m (d.pend d.st.curr) = false := by simp [hp, locking]
  have hnotes : ∀ u, held m u (d.hist ++ (.call d.st.curr (.mutexLock m) ::
      d.st.outcome d.st.curr (.mutexLock m))) = held m u d.hist :=
    fun u => held_notes d.st d.st.curr u
  -- What a lock that returns does for its caller, the first one or a nested one.
  have hs := fun b => stepOf_settle (m := m) (d := d) (c := .mutexLock m) d.st.curr
    (.call d.st.curr (.mutexLock m) :: d.st.outcome d.st.curr (.mutexLock m)) (.returned b)
    (fun _ _ => ⟨b, rfl⟩) (fun u _ => hnotes u)
  have hheld := fun b => (held_settle_returned (m := m) (d := d) (c := .mutexLock m)
    d.st.curr d.st.curr (.call d.st.curr (.mutexLock m) ::
      d.st.outcome d.st.curr (.mutexLock m)) b).trans
    (show _ = held m d.st.curr d.hist + 1 by rw [hnotes]; simp [heldStep])
  subst hd
  rw [Suspend.Config.settle_st]
  rcases Queues.lock_cases hinv hc m with
    ⟨h₀, -, b, hr, hv⟩ | ⟨-, ho, -, b, hr, hv⟩ | ⟨h₀, ho, -, b, hr, hv⟩
  · rw [hr, show (Stretch.returned b : Stretch _ Rest).state = b from rfl, hv]
    exact h.take (hs b) (hheld b) h₀
  · rw [hr]
    have hlt : d.st.lockedCount m < 2 ^ 31 - 1 := hnest rfl ho
    have hrange : 0 ≤ d.st.lockedCount m := h.range.1
    rw [show (Stretch.returned b : Stretch _ Rest).state = b from rfl, hv,
      toInt_of_fits (by omega) (by omega)]
    exact h.nest (hs b) (hheld b) hfree ho hlt
  · rw [hr]
    rw [show (Stretch.suspended b Rest.leave : Stretch _ Rest).state = b from rfl, hv]
    refine h.wait (t := d.st.curr) (fun u hu => ?_) ?_ (fun u => ?_) h₀ ho
    · simp [Suspend.Config.settle, hu]
    · simp [Suspend.Config.settle]
    · rw [held_settle_suspended, hnotes]

/-- An unlock of the mutex keeps its invariant. -/
theorem MutexInv.unlock (h : MutexInv m (d.st.view (.mutex m)) d.pend d.hist)
    (hinv : d.st.Inv) (hp : d.pend d.st.curr = none) {d' : QConfig T M S}
    (hd : d' = d.settle queues d.st.curr (.mutexUnlock m)
      (.call d.st.curr (.mutexUnlock m) :: d.st.outcome d.st.curr (.mutexUnlock m))
      (d.st.unlock m)) :
    MutexInv m (d'.st.view (.mutex m)) d'.pend d'.hist := by
  have hfree : locking m (d.pend d.st.curr) = false := by simp [hp, locking]
  have hnotes : ∀ u, held m u (d.hist ++ (.call d.st.curr (.mutexUnlock m) ::
      d.st.outcome d.st.curr (.mutexUnlock m))) =
        if d.st.curr = u then held m u d.hist - 1 else held m u d.hist := by
    intro u
    rw [held_notes]
    simp [heldStep]
  have hs := stepOf_settle (m := m) (d := d) (c := .mutexUnlock m) d.st.curr _ (d.st.unlock m)
    (fun k hk => by simp [locking] at hk) (fun u hu => by rw [hnotes, if_neg (Ne.symm hu)])
  have hheld : held m d.st.curr (d.settle queues d.st.curr (.mutexUnlock m)
      (.call d.st.curr (.mutexUnlock m) :: d.st.outcome d.st.curr (.mutexUnlock m))
      (d.st.unlock m)).hist = held m d.st.curr d.hist - 1 := by
    cases hr : d.st.unlock m with
    | returned b =>
      rw [held_settle_returned, hnotes, if_pos rfl]
      rfl
    | suspended b k => rw [held_settle_suspended, hnotes, if_pos rfl]
  have hrange := h.range
  subst hd
  rw [Suspend.Config.settle_st]
  rcases Queues.unlock_cases d.st m with
    ⟨ho, -, hr⟩ | ⟨ho, h₁, -, hv⟩ | ⟨ho, h₁, hl, -, hv⟩ | ⟨ho, h₁, w, ws, hl, -, hv⟩
  · -- Not the owner: it holds nothing, so the truncated count stays.
    have hzero : held m d.st.curr d.hist = 0 := by
      have := h.counts d.st.curr
      rw [if_neg (show ¬ (d.st.view (.mutex m)).owner = some d.st.curr from ho)] at this
      split at this <;> omega
    rw [show (d.st.unlock m).state = d.st by rw [hr]; rfl]
    refine settle_other _ _ _ (by simp) hfree (fun u => ?_) h
    rw [hnotes]
    split
    · rename_i hu
      rw [← hu, hzero]
    · rfl
  · rw [toInt_of_fits (by simp only [Queues.view] at hrange; omega)
      (by simp only [Queues.view] at hrange; omega)] at h₁ hv
    rw [hv]
    exact h.inner hs hheld hfree ho h₁
  · rw [toInt_of_fits (by simp only [Queues.view] at hrange; omega)
      (by simp only [Queues.view] at hrange; omega)] at h₁
    rw [hv]
    exact h.last hs hheld hfree ho (show d.st.lockedCount m = 1 by omega) hl
  · rw [toInt_of_fits (by simp only [Queues.view] at hrange; omega)
      (by simp only [Queues.view] at hrange; omega)] at h₁
    rw [hv]
    exact h.handOff hs hheld hfree ho (show d.st.lockedCount m = 1 by omega) hl
      (hinv.placed.nodup (.wait (.mutex m)))

/-- What a step preserves about one mutex. -/
theorem MutexInv.step (h : MutexInv m (d.st.view (.mutex m)) d.pend d.hist) (hinv : d.st.Inv)
    (hnest : NestFitsLines m d l) (hstep : Suspend.step queues d l = some d') :
    MutexInv m (d'.st.view (.mutex m)) d'.pend d'.hist := by
  rcases step_cases hstep with ⟨c, rfl, hp, hmay, rfl⟩ | ⟨c, k, rfl, hp, rfl⟩
  · have hc : c ≠ .timer → d.st.curr ≠ idleTask := fun hne => Queues.ne_idle_of_may hmay hne
    by_cases hl : c = .mutexLock m
    · subst hl
      exact h.lock hinv (hc (by simp)) hp hnest rfl
    by_cases hu : c = .mutexUnlock m
    · subst hu
      exact h.unlock hinv hp rfl
    have hobj : c.obj ≠ some (.mutex m) := by
      cases c <;> simp_all [Call.obj]
    have hview : (queues.start c d.st).state.view (.mutex m) = d.st.view (.mutex m) :=
      Queues.start_view hobj
    rw [Suspend.Config.settle_st, hview]
    refine settle_other _ _ _ hl ?_ (fun u => ?_) h
    · rw [hp]
      rfl
    · refine (held_notes d.st d.st.curr u).trans ?_
      cases c <;> simp_all [heldStep]
  · have hview : (queues.resume k d.st).state.view (.mutex m) = d.st.view (.mutex m) :=
      Queues.resume_view k _
    rw [Suspend.Config.settle_st, hview]
    by_cases hl : c = .mutexLock m
    · subst hl
      obtain ⟨rfl, -⟩ := h.pending _ _ hp
      have hs := stepOf_settle (m := m) (d := d) (c := .mutexLock m) d.st.curr []
        (.returned d.st) (fun _ _ => ⟨_, rfl⟩) (fun u _ => by simp)
      have hheld : held m d.st.curr _ = held m d.st.curr d.hist + 1 :=
        (held_settle_returned (d := d) (c := .mutexLock m) d.st.curr d.st.curr [] d.st).trans
          (by simp [heldStep])
      have hlock : locking m (d.pend d.st.curr) = true := locking_iff.mpr ⟨_, hp⟩
      exact (h.returns hs hheld hlock (hinv.curr_not_wait (.mutex m))).2
    · refine settle_other _ _ _ hl ?_ (fun u => by simp) h
      rw [hp, Bool.eq_false_iff]
      intro hlock
      obtain ⟨k', hk'⟩ := locking_iff.mp hlock
      exact hl (Prod.mk.inj (Option.some.inj hk')).1

/-- No outcome is a return. -/
theorem ret_not_mem_outcome (a : Queues T M S) (t u : T) (c c' : Call M S) :
    .ret t c' ∉ a.outcome u c := by
  intro hmem
  obtain ⟨o, w, -, he | he | he⟩ := mem_outcome hmem <;> cases he

/-- The events that a stretch adds. -/
theorem settle_hist (t : T) (notes : List (Event T M S)) (r : Stretch (Queues T M S) Rest) :
    ∃ es, (d.settle queues t c notes r).hist = d.hist ++ (notes ++ es) ∧
      ∀ e ∈ es, e = .ret t c ∧ ∃ b, r = .returned b := by
  cases r with
  | returned b => exact ⟨[.ret t c], by simp [Suspend.Config.settle, queues], by simp⟩
  | suspended b k => exact ⟨[], by simp [Suspend.Config.settle], by simp⟩

/-- The event gives the mutex to the task: its lock returns, or it is taken off the wait
line. -/
def Gives (m : M) (t : T) (e : Event T M S) : Prop :=
  e = .ret t (.mutexLock m) ∨ e = .wake t (.mutex m)

/-- A task owns the mutex behind the step in which an event gives it to it. -/
theorem owner_of_gives (h : MutexInv m (d.st.view (.mutex m)) d.pend d.hist)
    (hinv : d.st.Inv) (hstep : Suspend.step queues d l = some d') :
    ∃ es, d'.hist = d.hist ++ es ∧ ∀ e ∈ es, ∀ t, Gives m t e → d'.st.owner m = some t := by
  have hown : ∀ a : Queues T M S, a.owner m = (a.view (.mutex m)).owner := fun _ => rfl
  rcases step_cases hstep with ⟨c, rfl, hp, hmay, rfl⟩ | ⟨c, k, rfl, hp, rfl⟩
  · have hc : c ≠ .timer → d.st.curr ≠ idleTask := fun hne => Queues.ne_idle_of_may hmay hne
    obtain ⟨es, hes, hret⟩ := settle_hist (d := d) (c := c) d.st.curr
      (.call d.st.curr c :: d.st.outcome d.st.curr c) (Queues.start c d.st)
    refine ⟨_, hes, fun e he t hg => ?_⟩
    rw [Suspend.Config.settle_st, hown]
    rcases List.mem_append.mp he with he | he
    · -- An event of the call: a waiter of this mutex was woken.
      rcases List.mem_cons.mp he with rfl | he
      · rcases hg with hg | hg <;> cases hg
      rcases hg with rfl | rfl
      · exact absurd he (ret_not_mem_outcome _ _ _ _ _)
      have hwoken : t ∈ woken (.mutex m) (d.st.outcome d.st.curr c) :=
        List.mem_filterMap.mpr ⟨_, he, by simp [Event.wokenOn]⟩
      by_cases hobj : c.obj = some (.mutex m)
      · cases c with
        | mutexLock m' =>
          obtain rfl : m' = m := by simpa [Call.obj] using hobj
          rcases Queues.lock_cases hinv (hc (by simp)) m' with
            ⟨-, ho, -⟩ | ⟨-, -, ho, -⟩ | ⟨-, -, ho, -⟩ <;>
            simp [ho] at he
        | mutexUnlock m' =>
          obtain rfl : m' = m := by simpa [Call.obj] using hobj
          rcases Queues.unlock_cases d.st m' with
            ⟨-, ho, -⟩ | ⟨-, -, ho, -⟩ | ⟨-, -, -, ho, -⟩ | ⟨-, -, w, ws, -, ho, hv⟩
          · simp [ho] at he
          · simp [ho] at he
          · simp [ho] at he
          · obtain rfl : t = w := by simpa [ho] using he
            show ((d.st.unlock m').state.view (.mutex m')).owner = some t
            rw [hv]
        | _ => simp [Call.obj] at hobj
      · rw [(outcome_other _ hobj).2.1] at hwoken
        simp at hwoken
    · -- The return of the call: it is a lock that did not wait.
      obtain ⟨rfl, b, hb⟩ := hret e he
      rcases hg with hg | hg
      · cases hg
        rcases Queues.lock_cases hinv (hc (by simp)) m with
          ⟨-, -, b', hr, hv⟩ | ⟨-, -, -, b', hr, hv⟩ | ⟨-, -, -, b', hr, -⟩
        · show ((d.st.lock m).state.view (.mutex m)).owner = _
          rw [hr, show (Stretch.returned b' : Stretch _ Rest).state = b' from rfl, hv]
        · show ((d.st.lock m).state.view (.mutex m)).owner = _
          rw [hr, show (Stretch.returned b' : Stretch _ Rest).state = b' from rfl, hv]
        · exact absurd (hr.symm.trans hb) (by simp)
      · cases hg
  · obtain ⟨es, hes, hret⟩ := settle_hist (d := d) (c := c) d.st.curr [] (Queues.resume k d.st)
    refine ⟨_, hes, fun e he t hg => ?_⟩
    rw [Suspend.Config.settle_st, hown, show queues.resume k d.st = Queues.resume k d.st from rfl,
      Queues.resume_view]
    obtain ⟨rfl, -⟩ := hret e (by simpa using he)
    rcases hg with hg | hg
    · cases hg
      exact ((h.pending _ _ hp).2).resolve_left (hinv.curr_not_wait (.mutex m))
    · cases hg

end Lines

/-! ### Runs of the kernel -/

/-- The nesting depth of the mutex stays below `2^31` in the step: an owner that locks once
more holds fewer than `2^31 - 1` locks. -/
def NestFits (m : M) (c : KConfig T M S) (l : KLabel M S) : Prop :=
  l = .start (.mutexLock m) → (c.st.mutex m).owner = some c.st.currTask →
    (c.st.mutex m).lockedCount < 2 ^ 31 - 1

instance (m : M) (c : KConfig T M S) (l : KLabel M S) : Decidable (NestFits m c l) :=
  inferInstanceAs (Decidable (_ → _ → _))

/-- What holds of a mutex in a state of a run. The count of an owned mutex is what its owner
holds, and one more while the owner's lock was handed the mutex and has not returned yet.
The tasks that blocked on the mutex have got it in their order, and the others still wait in
this order. -/
structure MutexCorrect (m : M) (c : KConfig T M S) : Prop where
  locked : 0 < (c.st.mutex m).lockedCount ↔ (c.st.mutex m).owner ≠ none
  count : ∀ t, (c.st.mutex m).owner = some t →
    (c.st.mutex m).lockedCount = held m t c.hist + (if locking m (c.pend t) then 1 else 0)
  one : ∀ t, 0 < held m t c.hist → (c.st.mutex m).owner = some t
  waiters : ∃ ws, c.st.Lists (.wait (.mutex m)) ws ∧
    blocked (.mutex m) c.hist = woken (.mutex m) c.hist ++ ws ∧
    (ws ≠ [] → (c.st.mutex m).owner ≠ none) ∧ ∀ t ∈ ws, (c.st.mutex m).owner ≠ some t

/-- What holds of a mutex in a step of a run: a task whose lock returns or that is taken off
the wait list is the owner then, and an unlock by another task changes nothing. -/
structure MutexStep (m : M) (c : KConfig T M S) (l : KLabel M S) (c' : KConfig T M S) :
    Prop where
  gives : ∃ es, c'.hist = c.hist ++ es ∧
    ∀ e ∈ es, ∀ t, Gives m t e → (c'.st.mutex m).owner = some t
  foreign : l = .start (.mutexUnlock m) → (c.st.mutex m).owner ≠ some c.st.currTask →
    c'.st = c.st ∧ c'.pend = c.pend

section Kernel

variable {m : M} {c₀ c c' : KConfig T M S} {d : QConfig T M S} {l : KLabel M S}
  {ls : List (KLabel M S)}

/-- An unlock by a task that does not own the mutex changes nothing. -/
theorem unlock_foreign (hl : l = .start (.mutexUnlock m))
    (ho : (c.st.mutex m).owner ≠ some c.st.currTask)
    (hstep : step kernel c l = some c') : c'.st = c.st ∧ c'.pend = c.pend := by
  rcases step_cases hstep with ⟨a, rfl, hp, -, rfl⟩ | ⟨a, k, rfl, -⟩
  · obtain rfl : a = .mutexUnlock m := by simpa using hl
    have hr : kernel.start (.mutexUnlock m) c.st = .returned c.st := by
      show mutexUnlock m c.st = _
      unfold mutexUnlock
      exact if_neg ho
    rw [hr]
    exact ⟨rfl, Function.update_eq_self_iff.mpr hp.symm⟩
  · cases hl

/-- The invariants of the lines say of the kernel that the mutex is correct. -/
theorem MutexInv.correct (hcd : ConfigRel Matches c d)
    (h : MutexInv m (d.st.view (.mutex m)) d.pend d.hist) (hord : Ordered (.mutex m) d) :
    MutexCorrect m c := by
  obtain ⟨href, hinv⟩ := hcd.st
  have hfree := h.free
  have hrange := h.range
  simp only [Queues.view] at hfree hrange
  refine ⟨?_, fun t ht => ?_, fun t ht => ?_, _, href.lists (.wait (.mutex m)), ?_, ?_, ?_⟩
  · rw [href.lockedCount, href.owner, ne_eq, hfree]
    omega
  · rw [href.owner] at ht
    have hc := h.counts t
    simp only [Queues.view, ht] at hc
    rw [href.lockedCount, hcd.hist, hcd.pend]
    simpa using hc.symm
  · rw [hcd.hist] at ht
    rw [href.owner]
    by_contra hne
    have hc := h.counts t
    have hne' : ¬ (d.st.view (.mutex m)).owner = some t := hne
    rw [if_neg hne', if_neg fun hn => hne' hn.2] at hc
    omega
  · rw [hcd.hist]
    exact hord
  · intro hws
    obtain ⟨w, hw⟩ := List.exists_mem_of_ne_nil _ hws
    rw [href.owner]
    exact (h.waits w hw).1
  · intro t ht
    rw [href.owner]
    exact (h.waits t ht).2.1

/-- A run of the lines keeps the invariants of a mutex. -/
theorem mutexInv_run {d₀ : QConfig T M S} (hinv : d₀.st.Inv)
    (h : MutexInv m (d₀.st.view (.mutex m)) d₀.pend d₀.hist) (hord : Ordered (.mutex m) d₀)
    (hmeets : Meets queues (fun d l => SleepFits l ∧ NestFitsLines m d l) d₀ ls)
    (hrun : run queues d₀ ls = some d) :
    d.st.Inv ∧ MutexInv m (d.st.view (.mutex m)) d.pend d.hist ∧ Ordered (.mutex m) d := by
  refine run_invariant (I := fun d => d.st.Inv ∧
    MutexInv m (d.st.view (.mutex m)) d.pend d.hist ∧ Ordered (.mutex m) d)
    (fun d l d' hI hP hstep => ?_) ⟨hinv, h, hord⟩ hmeets hrun
  exact ⟨Queues.inv_step hI.1 hP.1 hstep, hI.2.1.step hI.1 hP.2 hstep,
    hI.2.2.step hI.1 hstep⟩

/-- The mutex is correct over every run. The mutex starts as `mutex_init` leaves it, with
nothing of it pending. -/
theorem mutex_correct (m : M) (hinv : SchedInv c₀.st) (hinit : c₀.st.mutex m = mutexInit)
    (hpend : ∀ t, locking m (c₀.pend t) = false) (hhist : c₀.hist = [])
    (hfit : ∀ l ∈ ls, SleepFits l) (hnest : Meets kernel (NestFits m) c₀ ls)
    (hrun : run kernel c₀ ls = some c) :
    MutexCorrect m c ∧
      ∀ l c', SleepFits l → step kernel c l = some c' → MutexStep m c l c' := by
  -- The run is one of the lines, and its condition is one on the lines.
  obtain ⟨a, ha⟩ := schedInv_iff.mp hinv
  have hrel₀ : ConfigRel Matches c₀ ⟨a, c₀.pend, c₀.hist⟩ := ⟨ha, rfl, rfl⟩
  obtain ⟨d, hd, hrel⟩ := kernel_simulates.run hfit hrel₀ hrun
  have hmeets : Meets queues (NestFitsLines m) ⟨a, c₀.pend, c₀.hist⟩ ls := by
    refine kernel_simulates.meets (fun c d l hcd h hl ho => ?_) hfit hrel₀ hrun hnest
    rw [← hcd.st.1.lockedCount]
    exact h hl (by rw [hcd.st.1.owner, hcd.st.1.curr, ho])
  have howner : a.owner m = none := by rw [← ha.1.owner, hinit]; rfl
  have hcount : a.lockedCount m = 0 := by rw [← ha.1.lockedCount, hinit]; rfl
  have hline : a.line (.wait (.mutex m)) = [] := by
    have hw := ha.1.mutexLine m
    rw [hinit] at hw
    exact hw.unique isList_init
  have hstart : MutexInv m (a.view (.mutex m)) c₀.pend c₀.hist := by
    refine ⟨by simp [Queues.view, howner, hcount], by simp [Queues.view, hcount],
      by simp [hline], fun t k hk => ?_, fun t => ?_⟩
    · have := hpend t
      rw [locking_iff.mpr ⟨k, hk⟩] at this
      exact absurd this (by simp)
    · simp [hpend, hhist, held, Queues.view, howner]
  have hord : Ordered (.mutex m) (⟨a, c₀.pend, c₀.hist⟩ : QConfig T M S) := by
    simp [Ordered, hhist, blocked, woken, hline]
  obtain ⟨hinv', h', hord'⟩ := mutexInv_run ha.2 hstart hord
    ((meets_of_forall hfit).and hmeets) hd
  refine ⟨h'.correct hrel hord', fun l c' hl hstep => ⟨?_, fun he ho => ?_⟩⟩
  · obtain ⟨d', hd', hrel'⟩ := kernel_simulates.step hrel hl hstep
    obtain ⟨es, hes, hg⟩ := owner_of_gives h' hinv' hd'
    refine ⟨es, by rw [hrel'.hist, hrel.hist, hes], fun e he t hgives => ?_⟩
    rw [hrel'.st.1.owner]
    exact hg e he t hgives
  · exact unlock_foreign he ho hstep

/-- Two tasks contend for a mutex, with a nested lock, a foreign unlock and a hand-off. -/
theorem mutex_correct_two_tasks :
    ∃ c, run kernel (startConfig (readySched [1, 2] 0 : Sched (Fin 3) Unit Unit))
        [.start (.mutexLock ()), .start (.mutexLock ()), .start .schedYield,
          .start (.mutexUnlock ()), .start (.mutexLock ()), .resume, .start (.mutexUnlock ()),
          .start (.mutexUnlock ()), .start .schedYield, .resume] = some c ∧
      MutexCorrect () c ∧
      ∀ l c', SleepFits l → step kernel c l = some c' → MutexStep () c l c' := by
  have hrun : (run kernel (startConfig (readySched [1, 2] 0 : Sched (Fin 3) Unit Unit))
      [.start (.mutexLock ()), .start (.mutexLock ()), .start .schedYield,
        .start (.mutexUnlock ()), .start (.mutexLock ()), .resume, .start (.mutexUnlock ()),
        .start (.mutexUnlock ()), .start .schedYield, .resume]).isSome := by
    decide +kernel
  obtain ⟨c, hc⟩ := Option.isSome_iff_exists.mp hrun
  exact ⟨c, hc, mutex_correct () (readySched_inv (by decide) (by decide) 0) (by decide)
    (fun _ => rfl) rfl (by decide) (by decide +kernel) hc⟩

/-- One more lock by the owner. -/
theorem step_lock_again (hc : c.st.currTask ≠ idleTask) (hp : c.pend c.st.currTask = none)
    (ho : (c.st.mutex m).owner = some c.st.currTask) (hn : (c.st.mutex m).lockedCount ≠ 0) :
    ∃ c', step kernel c (.start (.mutexLock m)) = some c' ∧
      c'.st.currTask = c.st.currTask ∧ c'.pend c.st.currTask = none ∧
      (c'.st.mutex m).owner = some c.st.currTask ∧
      (c'.st.mutex m).lockedCount = toInt ((c.st.mutex m).lockedCount + 1) := by
  have hr : kernel.start (.mutexLock m) c.st = .returned (c.st.setMutex m
      { c.st.mutex m with lockedCount := toInt ((c.st.mutex m).lockedCount + 1) }) := by
    show mutexLock m c.st = _
    unfold mutexLock
    dsimp only
    rw [if_neg hn, if_pos (show (c.st.mutex m).owner = some (taskCurrent c.st) from ho)]
  have hp' : c.pend (kernel.curr c.st) = none := hp
  have hm : kernel.may (.mutexLock m) c.st = true := by simp [kernel, taskCurrent, hc]
  refine ⟨_, by simp only [step, hp', hm]; rfl, ?_, ?_, ?_, ?_⟩ <;>
    rw [hr] <;> simp [Suspend.Config.settle, Sched.setMutex, kernel, taskCurrent, ho]

/-- Nested locks count up as long as the count fits. -/
theorem nested_locks (k : Nat) (hk : k + 1 < 2 ^ 31) :
    ∃ c, run kernel (startConfig (readySched [1] 0 : Sched (Fin 2) Unit Unit))
        (List.replicate (k + 1) (.start (.mutexLock ()))) = some c ∧
      c.st.currTask = 1 ∧ c.pend 1 = none ∧ (c.st.mutex ()).owner = some 1 ∧
      (c.st.mutex ()).lockedCount = (k + 1 : Nat) := by
  induction k with
  | zero =>
    have hrun : (run kernel (startConfig (readySched [1] 0 : Sched (Fin 2) Unit Unit))
        [.start (.mutexLock ())]).map (fun c => decide (c.st.currTask = 1 ∧ c.pend 1 = none ∧
          (c.st.mutex ()).owner = some 1 ∧ (c.st.mutex ()).lockedCount = 1)) = some true := by
      decide +kernel
    obtain ⟨c, hc, hd⟩ := Option.map_eq_some_iff.mp hrun
    exact ⟨c, hc, of_decide_eq_true hd⟩
  | succ k ih =>
    obtain ⟨c, hrun, hcurr, hp, ho, hn⟩ := ih (by omega)
    obtain ⟨c', hstep, hcurr', hp', ho', hn'⟩ := step_lock_again (m := ()) (c := c)
      (by rw [hcurr]; decide) (by rw [hcurr, hp]) (by rw [hcurr, ho]) (by rw [hn]; omega)
    rw [hcurr] at hcurr' hp' ho'
    refine ⟨c', ?_, hcurr', hp', ho', ?_⟩
    · rw [List.replicate_succ']
      exact run_snoc hrun hstep
    · rw [hn', hn, toInt_of_fits (by omega) (by omega)]
      omega

/-- Two runs after which the count of a mutex is not what its owner holds. In the first one
the second task waits, the owner unlocks, and the second task owns the mutex before its lock
has returned. In the second one a task locks a mutex `2^31` times, and the count wraps to a
negative number. -/
theorem mutex_count_differs :
    (∃ c, run kernel (startConfig (readySched [1, 2] 0 : Sched (Fin 3) Unit Unit))
        [.start (.mutexLock ()), .start .schedYield, .start (.mutexLock ()), .resume,
          .start (.mutexUnlock ())] = some c ∧
      (c.st.mutex ()).owner = some 2 ∧ (c.st.mutex ()).lockedCount ≠ (held () 2 c.hist : Int)) ∧
    (∃ c, run kernel (startConfig (readySched [1] 0 : Sched (Fin 2) Unit Unit))
        (List.replicate (2 ^ 31) (.start (.mutexLock ()))) = some c ∧
      (c.st.mutex ()).owner = some 1 ∧ ¬ 0 < (c.st.mutex ()).lockedCount) := by
  constructor
  · have hrun : (run kernel (startConfig (readySched [1, 2] 0 : Sched (Fin 3) Unit Unit))
        [.start (.mutexLock ()), .start .schedYield, .start (.mutexLock ()), .resume,
          .start (.mutexUnlock ())]).map (fun c => decide ((c.st.mutex ()).owner = some 2 ∧
            (c.st.mutex ()).lockedCount ≠ (held () 2 c.hist : Int))) = some true := by
      decide +kernel
    obtain ⟨c, hc, hd⟩ := Option.map_eq_some_iff.mp hrun
    exact ⟨c, hc, of_decide_eq_true hd⟩
  · obtain ⟨c, hrun, hcurr, hp, ho, hn⟩ := nested_locks (2 ^ 31 - 2) (by norm_num)
    obtain ⟨c', hstep, -, -, ho', hn'⟩ := step_lock_again (m := ()) (c := c)
      (by rw [hcurr]; decide) (by rw [hcurr, hp]) (by rw [hcurr, ho]) (by rw [hn]; norm_num)
    refine ⟨c', ?_, by rw [ho', hcurr], ?_⟩
    · rw [show (2 : Nat) ^ 31 = 2 ^ 31 - 2 + 1 + 1 by norm_num, List.replicate_succ']
      exact run_snoc hrun hstep
    · rw [hn', hn]
      decide

end Kernel

end StartKernel
