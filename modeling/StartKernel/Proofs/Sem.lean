import StartKernel.Proofs.Wait

/-!
# `StartKernel.Proofs.Sem`: the semaphore over all runs

A `sem_wait` is granted when it finds a token or when a `sem_notify` takes its caller off the
wait line. Tokens are conserved: the ones at the start and the ones notified are those in the
count and those granted.

* `SemInv.step`: what a step preserves about one semaphore.
* `sem_correct`: over every run with fewer than `2^31` tokens, tokens are conserved, nobody
  waits while there are tokens, and the waiters are granted in their order, one by one.
-/

set_option autoImplicit false
set_option linter.unusedSectionVars false

namespace StartKernel

open Suspend (Stretch step run step_cases ConfigRel)

variable {T M S : Type} [DecidableEq T] [HasIdle T] [DecidableEq M] [DecidableEq S]

/-- The event is a call of `c`. -/
def Event.isCall (c : Call M S) : Event T M S → Bool
  | .call _ c' => c' == c
  | _ => false

/-- The number of calls of `c` by any task. -/
def callsOf (c : Call M S) (hist : List (Event T M S)) : Nat := hist.countP (Event.isCall c)

/-- The number of waits for the semaphore that were granted: at once, or by a notify. -/
def granted (x : S) (hist : List (Event T M S)) : Nat :=
  (passed (.sem x) hist).length + (woken (.sem x) hist).length

section Lines

variable {x : S} {init : Int} {d d' : QConfig T M S} {l : KLabel M S} {c c₀ : Call M S}

/-- No outcome is a call. -/
theorem callsOf_outcome (a : Queues T M S) (t : T) : callsOf c₀ (a.outcome t c) = 0 := by
  apply List.countP_eq_zero.mpr
  intro e he
  obtain ⟨o, u, -, rfl | rfl | rfl⟩ := mem_outcome he <;> exact Bool.false_ne_true

/-- What a history counts about a semaphore: the notifies and the waits that were called,
and the tasks that passed, blocked and were woken. -/
@[ext]
structure Tally where
  notifies : Nat
  waits : Nat
  passed : Nat
  blocked : Nat
  woken : Nat

/-- The tally of a history. -/
def tally (x : S) (hist : List (Event T M S)) : Tally where
  notifies := callsOf (.semNotify x) hist
  waits := callsOf (.semWait x) hist
  passed := (passed (.sem x) hist).length
  blocked := (blocked (.sem x) hist).length
  woken := (woken (.sem x) hist).length

instance : Add Tally where
  add a b := ⟨a.notifies + b.notifies, a.waits + b.waits, a.passed + b.passed,
    a.blocked + b.blocked, a.woken + b.woken⟩

@[simp] theorem Tally.add_def (a b : Tally) : a + b =
    ⟨a.notifies + b.notifies, a.waits + b.waits, a.passed + b.passed, a.blocked + b.blocked,
      a.woken + b.woken⟩ := rfl

theorem tally_append (x : S) (hist es : List (Event T M S)) :
    tally x (hist ++ es) = tally x hist + tally x es := by
  simp [tally, callsOf, passed, blocked, woken]

/-- A return counts for nothing. -/
theorem tally_settle (x : S) (t : T) (notes : List (Event T M S))
    (r : Stretch (Queues T M S) Rest) :
    tally x (d.settle queues t c notes r).hist = tally x d.hist + tally x notes := by
  rw [← tally_append]
  cases r with
  | returned b =>
    simp [Suspend.Config.settle, tally, queues, callsOf, passed, blocked, woken, Event.isCall,
      Event.passedOn, Event.blockedOn, Event.wokenOn]
  | suspended b k => simp [Suspend.Config.settle]

/-- The tally of the notes of a call: the call, and what its outcome records. -/
theorem tally_notes (x : S) (a : Queues T M S) (t : T) :
    tally x (.call t c :: a.outcome t c) =
      { tally x (a.outcome t c) with
        notifies := if c = .semNotify x then 1 else 0
        waits := if c = .semWait x then 1 else 0 } := by
  have hcalls : ∀ c₀ : Call M S, callsOf c₀ (.call t c :: a.outcome t c)
      = if c = c₀ then 1 else 0 := by
    intro c₀
    have h : callsOf c₀ (a.outcome t c) = 0 := callsOf_outcome a t
    unfold callsOf at h ⊢
    rw [List.countP_cons, h]
    simp [Event.isCall]
  ext
  · exact hcalls _
  · exact hcalls _
  · rfl
  · rfl
  · rfl

@[simp] theorem tally_pass (x : S) (t : T) :
    tally x [(.pass t (.sem x) : Event T M S)] = ⟨0, 0, 1, 0, 0⟩ := by
  simp [tally, callsOf, passed, blocked, woken, List.filterMap_cons, Event.isCall,
    Event.passedOn, Event.blockedOn, Event.wokenOn]

@[simp] theorem tally_block (x : S) (t : T) :
    tally x [(.block t (.sem x) : Event T M S)] = ⟨0, 0, 0, 1, 0⟩ := by
  simp [tally, callsOf, passed, blocked, woken, List.filterMap_cons, Event.isCall,
    Event.passedOn, Event.blockedOn, Event.wokenOn]

@[simp] theorem tally_wake (x : S) (t : T) :
    tally x [(.wake t (.sem x) : Event T M S)] = ⟨0, 0, 0, 0, 1⟩ := by
  simp [tally, callsOf, passed, blocked, woken, List.filterMap_cons, Event.isCall,
    Event.passedOn, Event.blockedOn, Event.wokenOn]

@[simp] theorem tally_nil (x : S) : tally x ([] : List (Event T M S)) = ⟨0, 0, 0, 0, 0⟩ := rfl

/-- The invariant of a semaphore that started with `init` tokens. -/
structure SemInv (init : Int) (v : View T) (n : Tally) : Prop where
  conserved : init + n.notifies = v.count + n.passed + n.woken
  nonneg : 0 ≤ v.count
  idle : 0 < v.count → v.line = []
  asked : n.waits = n.passed + n.blocked

/-- A wait for the semaphore. -/
theorem SemInv.wait {n : Tally} (h : SemInv init (d.st.view (.sem x)) n)
    (hc : d.st.curr ≠ idleTask) (hfit : d.st.semCount x < 2 ^ 31) :
    SemInv init ((d.st.semWait x).state.view (.sem x)) (n + tally x
      (.call d.st.curr (.semWait x) :: d.st.outcome d.st.curr (.semWait x))) := by
  obtain ⟨hconserved, hnonneg, hidle, hasked⟩ := h
  simp only [Queues.view] at hconserved hnonneg hidle
  rw [tally_notes]
  rcases Queues.semWait_cases hc x with ⟨hpos, ho, hv⟩ | ⟨hzero, ho, hv⟩
  · rw [ho, hv, toInt_of_fits (by omega) (by omega)]
    refine ⟨?_, ?_, fun _ => hidle hpos, ?_⟩ <;> simp <;> omega
  · rw [ho, hv]
    refine ⟨?_, hnonneg, fun hpos => absurd hpos hzero, ?_⟩ <;> simp <;> omega

/-- A notify of the semaphore. -/
theorem SemInv.notify {n : Tally} (h : SemInv init (d.st.view (.sem x)) n)
    (hfit : d.st.semCount x < 2 ^ 31 - 1) :
    SemInv init ((d.st.semNotify x).state.view (.sem x)) (n + tally x
      (.call d.st.curr (.semNotify x) :: d.st.outcome d.st.curr (.semNotify x))) := by
  obtain ⟨hconserved, hnonneg, hidle, hasked⟩ := h
  simp only [Queues.view] at hconserved hnonneg hidle
  rw [tally_notes]
  rcases Queues.semNotify_cases d.st x with ⟨-, ho, hv⟩ | ⟨w, ws, hl, ho, hv⟩
  · rw [ho, hv, toInt_of_fits (by omega) (by omega)]
    refine ⟨?_, ?_, fun _ => rfl, ?_⟩ <;> simp <;> omega
  · -- The token goes to a waiter, and the count stays.
    rw [ho, hv]
    refine ⟨?_, hnonneg, fun hpos => ?_, ?_⟩
    · simp
      omega
    · have hnil := hidle hpos
      simp [hl] at hnil
    · simp
      omega

/-- The notifies that a step adds. -/
def notifyOf (x : S) (l : KLabel M S) : Nat := if l = .start (.semNotify x) then 1 else 0

/-- What a step preserves about one semaphore. -/
theorem SemInv.step (h : SemInv init (d.st.view (.sem x)) (tally x d.hist))
    (hfit : init + callsOf (.semNotify x) d.hist + notifyOf x l < 2 ^ 31)
    (hstep : Suspend.step queues d l = some d') :
    SemInv init (d'.st.view (.sem x)) (tally x d'.hist) ∧
      callsOf (.semNotify x) d'.hist = callsOf (.semNotify x) d.hist + notifyOf x l := by
  -- The tokens are at most those of the start and of the notifies, so the count fits.
  have hcount : d.st.semCount x ≤ init + callsOf (.semNotify x) d.hist := by
    have hc := h.conserved
    simp only [Queues.view, tally] at hc
    omega
  have hnot : ∀ hist : List (Event T M S),
      callsOf (.semNotify x) hist = (tally x hist).notifies := fun _ => rfl
  rcases step_cases hstep with ⟨c, rfl, -, hmay, rfl⟩ | ⟨c, k, rfl, -, rfl⟩
  · have hc : c ≠ .timer → d.st.curr ≠ idleTask := fun hne => Queues.ne_idle_of_may hmay hne
    rw [hnot, tally_settle, Suspend.Config.settle_st]
    refine ⟨?_, ?_⟩
    · by_cases hw : c = .semWait x
      · subst hw
        refine h.wait (hc (by simp)) ?_
        simp only [notifyOf] at hfit
        split at hfit <;> omega
      by_cases hn : c = .semNotify x
      · subst hn
        refine h.notify ?_
        simp only [notifyOf, if_true] at hfit
        omega
      have hobj : c.obj ≠ some (.sem x) := by
        cases c <;> simp_all [Call.obj]
      have hview : (queues.start c d.st).state.view (.sem x) = d.st.view (.sem x) :=
        Queues.start_view hobj
      obtain ⟨hb, hwk, hp⟩ := outcome_other (a := d.st) d.st.curr hobj
      have htally : tally x (queues.note (queues.curr d.st) c d.st) = ⟨0, 0, 0, 0, 0⟩ := by
        refine (tally_notes x d.st d.st.curr).trans ?_
        simp [tally, hb, hwk, hp, hw, hn]
      rw [hview, htally]
      exact h
    · have hnotes : (tally x (queues.note (queues.curr d.st) c d.st)).notifies
          = if c = .semNotify x then 1 else 0 :=
        congrArg Tally.notifies (tally_notes x d.st d.st.curr)
      rw [Tally.add_def]
      simp only [hnotes]
      simp [notifyOf, tally]
  · have hview : (queues.resume k d.st).state.view (.sem x) = d.st.view (.sem x) :=
      Queues.resume_view k _
    rw [hnot, tally_settle, Suspend.Config.settle_st, hview]
    exact ⟨h, by simp [tally, notifyOf, callsOf]⟩

/-- A step wakes at most one waiter, and only in a notify. -/
theorem woken_step (hstep : Suspend.step queues d l = some d') :
    (tally x d'.hist).woken - (tally x d.hist).woken ≤ notifyOf x l := by
  rcases step_cases hstep with ⟨c, rfl, -, hmay, rfl⟩ | ⟨c, k, rfl, -, rfl⟩
  · have hc : c ≠ .timer → d.st.curr ≠ idleTask := fun hne => Queues.ne_idle_of_may hmay hne
    have hwoken : (tally x (queues.note (queues.curr d.st) c d.st)).woken
        = (tally x (d.st.outcome d.st.curr c)).woken := by
      show (tally x (.call d.st.curr c :: d.st.outcome d.st.curr c)).woken = _
      rw [tally_notes]
    rw [tally_settle, Tally.add_def]
    simp only [hwoken, Nat.add_sub_cancel_left]
    by_cases hobj : c.obj = some (.sem x)
    · cases c with
      | semWait y =>
        obtain rfl : y = x := by simpa [Call.obj] using hobj
        rcases Queues.semWait_cases (hc (by simp)) y with ⟨-, ho, -⟩ | ⟨-, ho, -⟩ <;>
          simp [ho]
      | semNotify y =>
        obtain rfl : y = x := by simpa [Call.obj] using hobj
        rcases Queues.semNotify_cases d.st y with ⟨-, ho, -⟩ | ⟨w, ws, -, ho, -⟩ <;>
          simp [ho, notifyOf]
      | _ => simp [Call.obj] at hobj
    · simp [tally, (outcome_other (a := d.st) d.st.curr hobj).2.1]
  · rw [tally_settle]
    simp

/-- A notify moves the first waiter to the end of the ready line. -/
theorem notify_moves {w : T} {ws : List T} (h : d.st.Inv)
    (hline : d.st.line (.wait (.sem x)) = w :: ws)
    (hstep : Suspend.step queues d (.start (.semNotify x)) = some d') :
    d'.st.line (.wait (.sem x)) = ws ∧ d'.st.line .ready = d.st.line .ready ++ [w] := by
  have hw : w ≠ idleTask :=
    h.ne_idle (p := .wait (.sem x)) (by rw [hline]; exact List.mem_cons_self)
  rcases step_cases hstep with ⟨c, hl, -, -, rfl⟩ | ⟨c, k, hl, -, -⟩
  · obtain rfl := Suspend.Label.start.inj hl
    have hstate : (queues.start (.semNotify x) d.st).state
        = (({ d.st with line := Placement.take d.st.line (.wait (.sem x)) w }.ready
          w).leave).state := by
      show (d.st.semNotify x).state = _
      unfold Queues.semNotify
      rw [hline]
    rw [Suspend.Config.settle_st, hstate]
    simp [hw, hline]
  · cases hl

/-- A run keeps the invariant of a semaphore, as long as its tokens fit. The induction is on
the steps of the run. -/
theorem semInv_run (ls : List (KLabel M S)) :
    ∀ d : QConfig T M S, d.st.Inv → SemInv init (d.st.view (.sem x)) (tally x d.hist) →
      Ordered (.sem x) d → (∀ l ∈ ls, SleepFits l) →
      init + callsOf (.semNotify x) d.hist + ls.count (.start (.semNotify x)) < 2 ^ 31 →
      run queues d ls = some d' →
      d'.st.Inv ∧ SemInv init (d'.st.view (.sem x)) (tally x d'.hist) ∧
        Ordered (.sem x) d' := by
  induction ls with
  | nil =>
    intro d hinv h hord _ _ hrun
    obtain rfl : d = d' := Option.some.inj hrun
    exact ⟨hinv, h, hord⟩
  | cons l ls ih =>
    intro d hinv h hord hfit hlt hrun
    obtain ⟨d₁, hstep, hrest⟩ := Option.bind_eq_some_iff.mp hrun
    have hl : ((l :: ls).count (.start (.semNotify x)) : Int)
        = ls.count (.start (.semNotify x)) + notifyOf x l := by
      unfold notifyOf
      rw [List.count_cons]
      simp
    rw [hl] at hlt
    obtain ⟨h₁, hcalls⟩ := h.step (l := l) (by omega) hstep
    exact ih d₁ (Queues.inv_step hinv (hfit l (by simp)) hstep) h₁ (hord.step hinv hstep)
      (fun l' hl' => hfit l' (by simp [hl'])) (by omega) hrest

end Lines

/-! ### Runs of the kernel -/

/-- What holds of a semaphore in a state of a run that it started with `init` tokens. Every
wait for it was granted or still waits. -/
structure SemCorrect (x : S) (init : Int) (c : KConfig T M S) : Prop where
  conserved : init + callsOf (.semNotify x) c.hist = (c.st.sem x).count + granted x c.hist
  nonneg : 0 ≤ (c.st.sem x).count
  waiters : ∃ ws, c.st.Lists (.wait (.sem x)) ws ∧
    callsOf (.semWait x) c.hist = granted x c.hist + ws.length ∧
    (0 < (c.st.sem x).count → ws = []) ∧
    blocked (.sem x) c.hist = woken (.sem x) c.hist ++ ws ∧
    ∀ t ∈ ws, ¬ c.st.InList .ready t

section Kernel

variable {x : S} {init : Int} {c₀ c : KConfig T M S} {d : QConfig T M S}
  {ls : List (KLabel M S)}

/-- The invariants of the lines say of the kernel that the semaphore is correct. -/
theorem SemInv.correct (hcd : ConfigRel Matches c d)
    (h : SemInv init (d.st.view (.sem x)) (tally x d.hist)) (hord : Ordered (.sem x) d) :
    SemCorrect x init c := by
  obtain ⟨href, hinv⟩ := hcd.st
  have hconserved := h.conserved
  have hnonneg := h.nonneg
  have hidle := h.idle
  have hasked := h.asked
  have hlen := congrArg List.length hord
  simp only [Queues.view, tally] at hconserved hnonneg hidle hasked
  rw [List.length_append, Queues.view_line] at hlen
  refine ⟨?_, ?_, _, href.lists (.wait (.sem x)), ?_, ?_, ?_, fun t ht hr => ?_⟩
  · rw [href.semCount, hcd.hist, granted]
    omega
  · rw [href.semCount]
    exact hnonneg
  · rw [hcd.hist, granted]
    omega
  · rw [href.semCount]
    exact hidle
  · rw [hcd.hist]
    exact hord
  · have hr' := href.inList_iff.mp hr
    exact absurd (hinv.placed.disjoint _ _ t ht hr') (by simp)

/-- Tokens are conserved over every run with fewer than `2^31` of them, and each step grants
at most one waiter, in a notify. A notify moves the first waiter, when there is one, from the wait
list to the end of the ready list. The semaphore starts as `sem_init` leaves it. -/
theorem sem_correct (x : S) (hinv : SchedInv c₀.st) (hinit : c₀.st.sem x = semInit init)
    (hpos : 0 ≤ init) (hhist : c₀.hist = []) (hfit : ∀ l ∈ ls, SleepFits l)
    (htokens : init + ls.count (.start (.semNotify x)) < 2 ^ 31)
    (hrun : run kernel c₀ ls = some c) :
    SemCorrect x init c ∧
      (∀ l c', SleepFits l → step kernel c l = some c' →
        (woken (.sem x) c'.hist).length - (woken (.sem x) c.hist).length ≤ notifyOf x l) ∧
      ∀ w ws c', c.st.Lists (.wait (.sem x)) (w :: ws) →
        step kernel c (.start (.semNotify x)) = some c' → c'.st.Lists (.wait (.sem x)) ws ∧
          ∃ ts, c.st.Lists .ready ts ∧ c'.st.Lists .ready (ts ++ [w]) := by
  obtain ⟨a, ha⟩ := schedInv_iff.mp hinv
  have hrel₀ : ConfigRel Matches c₀ ⟨a, c₀.pend, c₀.hist⟩ := ⟨ha, rfl, rfl⟩
  obtain ⟨d, hd, hrel⟩ := kernel_simulates.run hfit hrel₀ hrun
  have hcount : a.semCount x = init := by rw [← ha.1.semCount, hinit]; rfl
  have hline : a.line (.wait (.sem x)) = [] := by
    have hw := ha.1.semLine x
    rw [hinit] at hw
    exact hw.unique isList_init
  have hstart : SemInv init (a.view (.sem x)) (tally x c₀.hist) := by
    rw [hhist, tally_nil]
    exact ⟨by simp [Queues.view, hcount], by simpa [Queues.view, hcount] using hpos,
      fun _ => hline, rfl⟩
  have hord : Ordered (.sem x) (⟨a, c₀.pend, c₀.hist⟩ : QConfig T M S) := by
    simp [Ordered, hhist, blocked, woken, hline]
  have hnone : callsOf (.semNotify x) c₀.hist = 0 := by
    rw [hhist]
    rfl
  obtain ⟨hinv', h', hord'⟩ := semInv_run ls ⟨a, c₀.pend, c₀.hist⟩ ha.2 hstart hord hfit
    (by simpa [hnone] using htokens) hd
  refine ⟨h'.correct hrel hord', fun l c' hl hstep => ?_, fun w ws c' hlist hstep => ?_⟩
  · obtain ⟨d', hd', hrel'⟩ := kernel_simulates.step hrel hl hstep
    rw [hrel'.hist, hrel.hist]
    exact woken_step hd'
  · obtain ⟨d', hd', hrel'⟩ := kernel_simulates.step hrel (l := .start (.semNotify x)) trivial hstep
    have hline := (hrel.st.1.lists (.wait (.sem x))).unique hlist
    obtain ⟨hwait, hready⟩ := notify_moves hinv' hline hd'
    exact ⟨hwait ▸ hrel'.st.1.lists (.wait (.sem x)), _, hrel.st.1.lists .ready,
      hready ▸ hrel'.st.1.lists .ready⟩

/-- Two tasks share a semaphore that starts empty: a wait that blocks and is granted, a
token that is left over, a wait that takes it, and a wait that blocks. -/
theorem sem_correct_two_tasks :
    ∃ c, run kernel (startConfig (readySched [1, 2] 0 : Sched (Fin 3) Unit Unit))
        [.start (.semWait ()), .start (.semNotify ()), .start (.semNotify ()),
          .start .schedYield, .resume, .start (.semWait ()), .start (.semWait ())] = some c ∧
      SemCorrect () 0 c ∧
      (∀ l c', SleepFits l → step kernel c l = some c' →
        (woken (.sem ()) c'.hist).length - (woken (.sem ()) c.hist).length ≤ notifyOf () l) ∧
      ∀ w ws c', c.st.Lists (.wait (.sem ())) (w :: ws) →
        step kernel c (.start (.semNotify ())) = some c' → c'.st.Lists (.wait (.sem ())) ws ∧
          ∃ ts, c.st.Lists .ready ts ∧ c'.st.Lists .ready (ts ++ [w]) := by
  have hrun : (run kernel (startConfig (readySched [1, 2] 0 : Sched (Fin 3) Unit Unit))
      [.start (.semWait ()), .start (.semNotify ()), .start (.semNotify ()),
        .start .schedYield, .resume, .start (.semWait ()), .start (.semWait ())]).isSome := by
    decide +kernel
  obtain ⟨c, hc⟩ := Option.isSome_iff_exists.mp hrun
  exact ⟨c, hc, sem_correct () (readySched_inv (by decide) (by decide) 0) (by decide)
    (by decide) rfl (by decide) (by decide) hc⟩

end Kernel

end StartKernel
