import Mathlib.Algebra.Order.BigOperators.Group.Finset
import StartKernel.Lib.Suspend

/-!
# `StartKernel.Lib.Masked`: machines with interrupts

A `Suspend.System` runs an activity without interruption up to the next switch. On a processor an
activity is a program of small steps (`Prog`), and an interrupt can come between any two of them as
long as the interrupt flag is set. A program that clears the flag first and sets it again last is
safe from that.

* `Machine`: the processor with its flag, and the programs that the agents are in.
* `Implements`: the programs, run with the flag cleared, compute the stretches of a system.
* `Rel.step`, `refines`: then every run of the machine is a run of the system.
-/

set_option autoImplicit false
set_option linter.unusedSectionVars false

namespace Masked

open Function (update)
open Suspend (Stretch System Config)

/-- A program. `act` reads and changes the state, `mask` clears the flag and hands over its old
value, `restore` sets the flag to a value, and `switch` lets the current agent of the state
run. -/
inductive Prog (σ : Type)
  | ret
  | act (f : σ → σ) (k : σ → Prog σ)
  | mask (k : Bool → Prog σ)
  | restore (b : Bool) (k : Prog σ)
  | switch (k : Prog σ)

/-- A step that only reads. -/
def Prog.read {σ : Type} (k : σ → Prog σ) : Prog σ := .act id k

/-- A step whose result does not matter for the steps behind it. -/
def Prog.write {σ : Type} (f : σ → σ) (k : Prog σ) : Prog σ := .act f fun _ => k

/-- The machine. `flag` is the interrupt flag of the processor, `saved` the flags of the agents
that do not run, and `code` the programs that an agent is in. The first one was started last. -/
structure Machine (σ T A E : Type) where
  st : σ
  flag : Bool
  running : T
  saved : T → Bool
  code : T → List (A × Prog σ)
  hist : List E

/-- The running agent starts an activity, an interrupt comes, or the running agent makes a step. -/
inductive Label (A : Type)
  | call (a : A)
  | irq
  | step

variable {σ T A κ E : Type} [DecidableEq T] {S : System σ T A κ E} {irq : A}
  {C : A → Bool → Prog σ} {rest : A → κ → Prog σ} {P : A → Prop} {I : σ → Prop}

/-- The running agent is in the program `p`. A program that is over is left. -/
def Machine.settle (S : System σ T A κ E) (m : Machine σ T A E) (a : A)
    (below : List (A × Prog σ)) : Prog σ → Machine σ T A E
  | .ret => { m with
      code := update m.code m.running below
      hist := m.hist ++ [S.finish m.running a] }
  | p => { m with code := update m.code m.running ((a, p) :: below) }

/-- One step. The program of an activity clears the flag first. The processor does so itself for
the interrupt `irq`. -/
def step (S : System σ T A κ E) (irq : A) (C : A → Bool → Prog σ) (m : Machine σ T A E) :
    Label A → Option (Machine σ T A E)
  | .call a =>
    match m.code m.running with
    | [] => if S.may a m.st then
        some { m with code := update m.code m.running [(a, .mask (C a))] }
      else none
    | _ => none
  | .irq =>
    if m.flag then some { m with
      flag := false
      code := update m.code m.running ((irq, C irq m.flag) :: m.code m.running)
      hist := m.hist ++ S.note m.running irq m.st }
    else none
  | .step =>
    match m.code m.running with
    | [] => none
    | (a, p) :: below =>
      match p with
      | .ret => none
      | .act f k => some ({ m with st := f m.st }.settle S a below (k m.st))
      | .mask k => some ({ m with
          flag := false
          hist := m.hist ++ if m.flag then S.note m.running a m.st else [] }.settle S a below
            (k m.flag))
      | .restore b k => some ({ m with flag := b }.settle S a below k)
      | .switch k =>
        let m := m.settle S a below k
        let saved := update m.saved m.running m.flag
        some { m with running := S.curr m.st, flag := saved (S.curr m.st), saved := saved }

/-! ### Programs with the flag cleared -/

/-- The stretch that a program computes when the flag is cleared. There is none when the program
does not end by setting the flag. -/
def exec : Prog σ → σ → Option (Stretch σ (Prog σ))
  | .ret, _ => none
  | .act f k, s => exec (k s) (f s)
  | .mask k, s => exec (k false) s
  | .restore false k, s => exec k s
  | .restore true .ret, s => some (.returned s)
  | .restore true _, _ => none
  | .switch k, s => some (.suspended s k)

/-- A stretch with the programs of its rests. -/
def mapRest (g : κ → Prog σ) : Stretch σ κ → Stretch σ (Prog σ)
  | .returned s => .returned s
  | .suspended s k => .suspended s (g k)

@[simp] theorem exec_read (k : σ → Prog σ) (s : σ) : exec (.read k) s = exec (k s) s := rfl

@[simp] theorem exec_write (f : σ → σ) (k : Prog σ) (s : σ) :
    exec (.write f k) s = exec k (f s) := rfl

@[simp] theorem exec_mask (k : Bool → Prog σ) (s : σ) : exec (.mask k) s = exec (k false) s := rfl

/-- A step of the system, of an activity that is allowed. -/
def Allowed (S : System σ T A κ E) (P : A → Prop) (c c' : Config σ T A κ E) : Prop :=
  ∃ l, Suspend.step S c l = some c' ∧ ∀ a, l = .start a → P a

/-- In the states with the property `I`, which the system keeps, the programs `C` of the allowed
activities and `rest` of what is left of them compute the stretches of the system. -/
structure Implements (S : System σ T A κ E) (irq : A) (C : A → Bool → Prog σ)
    (rest : A → κ → Prog σ) (P : A → Prop) (I : σ → Prop) : Prop where
  start : ∀ a s, I s → S.may a s = true → exec (C a true) s = some (mapRest (rest a) (S.start a s))
  resume : ∀ a k s, I s → exec (rest a k) s = some (mapRest (rest a) (S.resume k s))
  startCurr : ∀ a s s', S.start a s = .returned s' → S.curr s' = S.curr s
  resumeCurr : ∀ k s s', S.resume k s = .returned s' → S.curr s' = S.curr s
  may : ∀ a s s', S.curr s = S.curr s' → S.may a s = S.may a s'
  irq : ∀ s, S.may irq s = true
  keeps : ∀ c c', I c.st → Allowed S P c c' → I c'.st

/-- A program that computes a stretch is not over. -/
theorem settle_of_exec {p : Prog σ} {s : σ} {r : Stretch σ (Prog σ)} (h : exec p s = some r)
    (m : Machine σ T A E) (a : A) (below : List (A × Prog σ)) :
    m.settle S a below p = { m with code := update m.code m.running ((a, p) :: below) } := by
  cases p with
  | ret => cases h
  | act f k => rfl
  | mask k => rfl
  | restore b k => rfl
  | switch k => rfl

/-! ### The machine and the system -/

/-- The agent `u` is outside of all activities, or in front of the first step of one. -/
def Fresh (S : System σ T A κ E) (C : A → Bool → Prog σ) (P : A → Prop) (u : T)
    (code : List (A × Prog σ)) : Prop :=
  code = [] ∨ ∃ a, P a ∧ (∃ s, S.curr s = u ∧ S.may a s = true) ∧ code = [(a, .mask (C a))]

/-- What the code `code` of an agent that does not run says: nothing of the agent is pending, or the
rest of what is pending is left, with the flag cleared. -/
def Waits (S : System σ T A κ E) (C : A → Bool → Prog σ) (rest : A → κ → Prog σ) (P : A → Prop)
    (u : T) (pend : Option (A × κ)) (saved : Bool) (code : List (A × Prog σ)) : Prop :=
  (pend = none ∧ saved = true ∧ Fresh S C P u code) ∨
  ∃ a k below, pend = some (a, k) ∧ saved = false ∧ Fresh S C P u below ∧
    code = (a, rest a k) :: below

theorem Waits.flag_or {u : T} {pend : Option (A × κ)} {saved : Bool} {code : List (A × Prog σ)}
    (h : Waits S C rest P u pend saved code) : saved = true ∨ pend ≠ none := by
  rcases h with ⟨-, htrue, -⟩ | ⟨a, k, below, rfl, -⟩
  · exact Or.inl htrue
  · exact Or.inr (Option.some_ne_none _)

/-- The system is in the state `c`, and the running agent has made a part of its next stretch: what
is left of the program computes what is left of the stretch. -/
inductive Inside (S : System σ T A κ E) (rest : A → κ → Prog σ) (P : A → Prop)
    (c : Config σ T A κ E) (u : T) (st : σ) (hist : List E) (a : A) (p : Prog σ) : Prop
  | start (hP : P a) (hmay : S.may a c.st = true) (hpend : c.pend u = none)
      (hexec : exec p st = some (mapRest (rest a) (S.start a c.st)))
      (hhist : hist = c.hist ++ S.note u a c.st)
  | resume {k : κ} (hpend : c.pend u = some (a, k))
      (hexec : exec p st = some (mapRest (rest a) (S.resume k c.st))) (hhist : hist = c.hist)

/-- The machine at the state `c` of the system. With the flag set the states are equal. -/
structure Rel (S : System σ T A κ E) (C : A → Bool → Prog σ) (rest : A → κ → Prog σ)
    (P : A → Prop) (I : σ → Prop) (c : Config σ T A κ E) (m : Machine σ T A E) : Prop where
  inv : I c.st
  running : S.curr c.st = m.running
  waits : ∀ u ≠ m.running, Waits S C rest P u (c.pend u) (m.saved u) (m.code u)
  outside : m.flag = true → m.st = c.st ∧ m.hist = c.hist ∧ c.pend m.running = none ∧
    Fresh S C P m.running (m.code m.running)
  inside : m.flag = false → ∃ a p below, m.code m.running = (a, p) :: below ∧
    Fresh S C P m.running below ∧ Inside S rest P c m.running m.st m.hist a p

variable {c : Config σ T A κ E} {m m' : Machine σ T A E}

/-- The other agents do not notice a step of the running agent. -/
theorem Rel.others (h : Rel S C rest P I c m) (code : List (A × Prog σ)) :
    ∀ u ≠ m.running, Waits S C rest P u (c.pend u) (m.saved u)
      (update m.code m.running code u) := by
  intro u hu
  rw [Function.update_of_ne hu]
  exact h.waits u hu

/-- The running agent is at the program `p`, with the flag cleared. -/
theorem Rel.move (h : Rel S C rest P I c m) {st : σ} {hist : List E} {a : A} {p : Prog σ}
    {below : List (A × Prog σ)} {b : Bool} (hb : b = false) (hbelow : Fresh S C P m.running below)
    (hin : Inside S rest P c m.running st hist a p) :
    Rel S C rest P I c { m with
      st := st
      flag := b
      code := update m.code m.running ((a, p) :: below)
      hist := hist } where
  inv := h.inv
  running := h.running
  waits := h.others _
  outside hf := absurd (hb.symm.trans hf) Bool.false_ne_true
  inside _ := ⟨a, p, below, Function.update_self _ _ _, hbelow, hin⟩

/-- What is left of a program computes the same stretch. -/
theorem Inside.next {u : T} {st st' : σ} {hist : List E} {a : A} {p p' : Prog σ}
    (h : Inside S rest P c u st hist a p) (he : exec p' st' = exec p st) :
    Inside S rest P c u st' hist a p' := by
  cases h with
  | start hP hmay hpend hexec hhist => exact .start hP hmay hpend (he.trans hexec) hhist
  | resume hpend hexec hhist => exact .resume hpend (he.trans hexec) hhist

/-- The program computes a stretch. -/
theorem Inside.computes {u : T} {st : σ} {hist : List E} {a : A} {p : Prog σ}
    (h : Inside S rest P c u st hist a p) : ∃ r, exec p st = some r := by
  cases h with
  | start _ _ _ hexec _ => exact ⟨_, hexec⟩
  | resume _ hexec _ => exact ⟨_, hexec⟩

theorem mapRest_returned {g : κ → Prog σ} {r : Stretch σ κ} {s : σ}
    (h : mapRest g r = .returned s) : r = .returned s := by
  cases r with
  | returned s' => exact congrArg _ (Stretch.returned.inj h)
  | suspended s' k => cases h

theorem mapRest_suspended {g : κ → Prog σ} {r : Stretch σ κ} {s : σ} {p : Prog σ}
    (h : mapRest g r = .suspended s p) : ∃ k, r = .suspended s k ∧ g k = p := by
  cases r with
  | returned s' => cases h
  | suspended s' k =>
    obtain ⟨rfl, hk⟩ := Stretch.suspended.inj h
    exact ⟨k, rfl, hk⟩

/-- The stretch returns: the system makes its step. -/
theorem Inside.returned {u : T} {st st' : σ} {hist : List E} {a : A} {p : Prog σ}
    (hC : Implements S irq C rest P I) (hu : S.curr c.st = u) (h : Inside S rest P c u st hist a p)
    (he : exec p st = some (.returned st')) :
    ∃ c', Allowed S P c c' ∧ c'.st = st' ∧ c'.pend = update c.pend u none ∧
      c'.hist = hist ++ [S.finish u a] ∧ S.curr st' = u := by
  subst hu
  cases h with
  | start hP hmay hpend hexec hhist =>
    have hr := mapRest_returned (Option.some.inj (hexec.symm.trans he))
    refine ⟨_, ⟨.start a, by simp only [Suspend.step, hpend, hmay]; rfl, ?_⟩, ?_⟩
    · intro a' ha
      obtain rfl := Suspend.Label.start.inj ha
      exact hP
    · rw [hr]
      exact ⟨rfl, rfl, by rw [hhist]; rfl, hC.startCurr a _ _ hr⟩
  | @resume k hpend hexec hhist =>
    have hr := mapRest_returned (Option.some.inj (hexec.symm.trans he))
    refine ⟨_, ⟨.resume, by simp only [Suspend.step, hpend]; rfl, fun a' ha => by cases ha⟩, ?_⟩
    rw [hr]
    refine ⟨rfl, rfl, ?_, hC.resumeCurr k _ _ hr⟩
    rw [hhist]
    simp [Config.settle]

/-- The stretch ends in a switch: the system makes its step. -/
theorem Inside.suspended {u : T} {st st' : σ} {hist : List E} {a : A} {p p' : Prog σ}
    (hu : S.curr c.st = u) (h : Inside S rest P c u st hist a p)
    (he : exec p st = some (.suspended st' p')) :
    ∃ c' k, Allowed S P c c' ∧ c'.st = st' ∧ c'.pend = update c.pend u (some (a, k)) ∧
      c'.hist = hist ∧ rest a k = p' := by
  subst hu
  cases h with
  | start hP hmay hpend hexec hhist =>
    obtain ⟨k, hr, hk⟩ := mapRest_suspended (Option.some.inj (hexec.symm.trans he))
    refine ⟨_, k, ⟨.start a, by simp only [Suspend.step, hpend, hmay]; rfl, ?_⟩, ?_⟩
    · intro a' ha
      obtain rfl := Suspend.Label.start.inj ha
      exact hP
    · rw [hr]
      exact ⟨rfl, rfl, by rw [hhist]; rfl, hk⟩
  | @resume k hpend hexec hhist =>
    obtain ⟨k', hr, hk⟩ := mapRest_suspended (Option.some.inj (hexec.symm.trans he))
    refine ⟨_, k', ⟨.resume, by simp only [Suspend.step, hpend]; rfl, fun a' ha => by cases ha⟩, ?_⟩
    rw [hr]
    refine ⟨rfl, rfl, ?_, hk⟩
    rw [hhist]
    simp [Config.settle]

/-! ### The steps of the machine -/

/-- The running agent starts an activity. -/
theorem Rel.call (h : Rel S C rest P I c m) {a : A} (hP : P a)
    (he : step S irq C m (.call a) = some m') : Rel S C rest P I c m' := by
  simp only [step] at he
  split at he
  swap
  · cases he
  rename_i hcode
  split at he
  swap
  · cases he
  rename_i hmay
  obtain rfl := Option.some.inj he
  have hflag : m.flag = true := by
    by_contra hne
    obtain ⟨a', p, below, hcode', -⟩ := h.inside (Bool.eq_false_iff.mpr hne)
    rw [hcode] at hcode'
    cases hcode'
  obtain ⟨hst, hhist, hpend, -⟩ := h.outside hflag
  refine ⟨h.inv, h.running, h.others _, fun _ => ⟨hst, hhist, hpend, ?_⟩, fun hf => ?_⟩
  · refine Or.inr ⟨a, hP, ⟨m.st, ?_, hmay⟩, Function.update_self _ _ _⟩
    rw [hst]
    exact h.running
  · exact absurd (hf.symm.trans hflag) Bool.false_ne_true

/-- An interrupt comes. The flag is set, so no activity is half done. -/
theorem Rel.interrupt (h : Rel S C rest P I c m) (hP : P irq) (hC : Implements S irq C rest P I)
    (he : step S irq C m .irq = some m') : Rel S C rest P I c m' := by
  simp only [step] at he
  split at he
  swap
  · cases he
  rename_i hmask
  obtain rfl := Option.some.inj he
  obtain ⟨hst, hhist, hpend, hfresh⟩ := h.outside hmask
  rw [hmask]
  refine h.move rfl hfresh (.start hP (hC.irq _) hpend ?_ ?_)
  · rw [hst]
    exact hC.start irq c.st h.inv (hC.irq _)
  · rw [hhist, hst]

/-- A program that is left is left by a restore with the flag set. -/
theorem exec_restore_true {k : Prog σ} {s : σ} {r : Stretch σ (Prog σ)}
    (h : exec (.restore true k) s = some r) : k = .ret ∧ r = .returned s := by
  cases k with
  | ret => exact ⟨rfl, (Option.some.inj h).symm⟩
  | act f k => cases h
  | mask k => cases h
  | restore b k => cases h
  | switch k => cases h

/-- The running agent sets the flag: its stretch is over. -/
theorem Rel.leave (h : Rel S C rest P I c m) (hC : Implements S irq C rest P I) {a : A}
    {below : List (A × Prog σ)} (hbelow : Fresh S C P m.running below) {st : σ}
    (hin : Inside S rest P c m.running st m.hist a (.restore true .ret)) :
    ∃ c', Allowed S P c c' ∧ Rel S C rest P I c'
      { m with
        st := st
        flag := true
        code := update m.code m.running below
        hist := m.hist ++ [S.finish m.running a] } := by
  obtain ⟨c', hstep, hst, hpend, hhist, hcurr⟩ := hin.returned hC h.running rfl
  refine ⟨c', hstep, ⟨hC.keeps c c' h.inv hstep, hst ▸ hcurr, fun u hu => ?_,
    fun _ => ⟨hst.symm, hhist.symm, ?_, ?_⟩, fun hf => by cases hf⟩⟩
  · rw [hpend, Function.update_of_ne hu]
    exact h.others below u hu
  · rw [hpend]
    exact Function.update_self _ _ _
  · show Fresh S C P m.running (update m.code m.running below m.running)
    rw [Function.update_self]
    exact hbelow

/-- The running agent switches: its stretch is over, and the next agent goes on. -/
theorem Rel.yield (h : Rel S C rest P I c m) (hC : Implements S irq C rest P I) {a : A}
    {k : Prog σ} {below : List (A × Prog σ)} (hflag : m.flag = false)
    (hbelow : Fresh S C P m.running below)
    (hin : Inside S rest P c m.running m.st m.hist a (.switch k)) :
    ∃ c', Allowed S P c c' ∧ Rel S C rest P I c'
      { m with
        running := S.curr m.st
        flag := update m.saved m.running m.flag (S.curr m.st)
        saved := update m.saved m.running m.flag
        code := update m.code m.running ((a, k) :: below) } ∧
      (update m.saved m.running m.flag (S.curr m.st) = true ∨ c'.pend (S.curr m.st) ≠ none) := by
  obtain ⟨c', κ', hstep, hst, hpend, hhist, hk⟩ := hin.suspended h.running rfl
  subst hk
  -- Every agent waits now, also the one that has switched.
  have hwaits : ∀ u, Waits S C rest P u (c'.pend u) (update m.saved m.running m.flag u)
      (update m.code m.running ((a, rest a κ') :: below) u) := by
    intro u
    by_cases hu : u = m.running
    · subst hu
      rw [hpend, Function.update_self, Function.update_self, Function.update_self]
      exact Or.inr ⟨a, κ', below, rfl, hflag, hbelow, rfl⟩
    · rw [hpend, Function.update_of_ne hu, Function.update_of_ne hu, Function.update_of_ne hu]
      exact h.waits u hu
  have hinv : I c'.st := hC.keeps c c' h.inv hstep
  refine ⟨c', hstep, ⟨hinv, congrArg S.curr hst, fun u _ => hwaits u, fun hf => ?_, fun hf => ?_⟩,
    (hwaits _).flag_or⟩
  · rcases hwaits (S.curr m.st) with ⟨hnone, -, hfresh⟩ | ⟨_, _, _, -, hfalse, -⟩
    · exact ⟨hst.symm, hhist.symm, hnone, hfresh⟩
    · exact absurd (hfalse.symm.trans hf) Bool.false_ne_true
  · rcases hwaits (S.curr m.st) with ⟨-, htrue, -⟩ | ⟨a', k', below', hsome, -, hfresh, hcode⟩
    · exact absurd (hf.symm.trans htrue) Bool.false_ne_true
    · refine ⟨a', rest a' k', below', hcode, hfresh, .resume hsome ?_ hhist.symm⟩
      rw [← hst]
      exact hC.resume a' k' c'.st hinv

/-- `p'` is left of the program `p` behind its first step. -/
inductive Next : Prog σ → Prog σ → Prop
  | act (f : σ → σ) (k : σ → Prog σ) (s : σ) : Next (k s) (.act f k)
  | mask (k : Bool → Prog σ) (b : Bool) : Next (k b) (.mask k)
  | restore (b : Bool) (k : Prog σ) : Next k (.restore b k)

/-- Inside of a stretch the running agent can make a step. The stretch is over with it, or a smaller
program is left. -/
theorem Rel.inner (h : Rel S C rest P I c m) (hC : Implements S irq C rest P I)
    (hflag : m.flag = false) {a : A} {p : Prog σ} {below : List (A × Prog σ)}
    (hcode : m.code m.running = (a, p) :: below) :
    ∃ m', step S irq C m .step = some m' ∧
      ((Rel S C rest P I c m' ∧ m'.flag = false ∧
        ∃ p', Next p' p ∧ m'.code m'.running = (a, p') :: below) ∨
      ∃ c', Allowed S P c c' ∧ Rel S C rest P I c' m' ∧
        (m'.flag = true ∨ c'.pend m'.running ≠ none)) := by
  obtain ⟨a', p', below', hcode', hfresh, hin⟩ := h.inside hflag
  rw [hcode] at hcode'
  obtain ⟨hap, rfl⟩ := List.cons.inj hcode'
  obtain ⟨rfl, rfl⟩ := Prod.mk.inj hap
  obtain ⟨r, hr⟩ := hin.computes
  simp only [step, hcode]
  cases p with
  | ret => cases hr
  | act f k =>
    have hk : exec (k m.st) (f m.st) = some r := hr
    simp only [settle_of_exec hk]
    refine ⟨_, rfl, Or.inl ⟨h.move hflag hfresh (hin.next rfl), hflag, _, .act f k m.st, ?_⟩⟩
    exact Function.update_self _ _ _
  | mask k =>
    have hk : exec (k false) m.st = some r := hr
    simp only [hflag, settle_of_exec hk, Bool.false_eq_true, ↓reduceIte, List.append_nil]
    refine ⟨_, rfl, Or.inl ⟨h.move rfl hfresh (hin.next rfl), rfl, _, .mask k false, ?_⟩⟩
    exact Function.update_self _ _ _
  | restore b k =>
    cases b with
    | false =>
      have hk : exec k m.st = some r := hr
      simp only [settle_of_exec hk]
      refine ⟨_, rfl, Or.inl ⟨h.move rfl hfresh (hin.next rfl), rfl, _, .restore false k, ?_⟩⟩
      exact Function.update_self _ _ _
    | true =>
      obtain ⟨rfl, -⟩ := exec_restore_true hr
      obtain ⟨c', hstep, hrel⟩ := h.leave hC hfresh hin
      exact ⟨_, rfl, Or.inr ⟨c', hstep, hrel, Or.inl rfl⟩⟩
  | switch k =>
    obtain ⟨c', hstep, hrel, hnext⟩ := h.yield hC hflag hfresh hin
    -- The rest of an activity is not over.
    obtain ⟨c₁, κ', hstep₁, hst₁, -, -, hk⟩ := hin.suspended h.running rfl
    have hexec := hC.resume a κ' c₁.st (hC.keeps c c₁ h.inv hstep₁)
    rw [hk] at hexec
    simp only [settle_of_exec hexec]
    exact ⟨_, rfl, Or.inr ⟨c', hstep, hrel, hnext⟩⟩

/-- The running agent makes a step of its program. -/
theorem Rel.turn (h : Rel S C rest P I c m) (hC : Implements S irq C rest P I)
    (he : step S irq C m .step = some m') :
    ∃ c', (c' = c ∨ Allowed S P c c') ∧ Rel S C rest P I c' m' := by
  by_cases hflag : m.flag = true
  · -- The first step of an activity.
    obtain ⟨hst, hhist, hpend, hfresh⟩ := h.outside hflag
    simp only [step] at he
    rcases hfresh with hnil | ⟨a, hP, ⟨s, hs, hmay⟩, hone⟩
    · rw [hnil] at he
      cases he
    rw [hone] at he
    obtain rfl := Option.some.inj he
    have hmay : S.may a c.st = true := by
      rw [hC.may a c.st s (h.running.trans hs.symm)]
      exact hmay
    have hexec := hC.start a c.st h.inv hmay
    rw [← hst] at hexec
    rw [hflag, settle_of_exec hexec]
    refine ⟨c, Or.inl rfl, h.move rfl (Or.inl rfl) (.start hP hmay hpend ?_ ?_)⟩
    · rw [hst] at hexec ⊢
      exact hexec
    · rw [hhist, hst]
      rfl
  · have hfalse : m.flag = false := Bool.eq_false_iff.mpr hflag
    obtain ⟨a, p, below, hcode, -⟩ := h.inside hfalse
    obtain ⟨m₁, hm₁, hor⟩ := h.inner hC hfalse hcode
    obtain rfl := Option.some.inj (hm₁.symm.trans he)
    rcases hor with ⟨hrel, -⟩ | ⟨c', hstep, hrel, -⟩
    · exact ⟨c, Or.inl rfl, hrel⟩
    · exact ⟨c', Or.inr hstep, hrel⟩

/-- Each step of the machine is a step of the system, or none. -/
theorem Rel.step (h : Rel S C rest P I c m) (hC : Implements S irq C rest P I) {l : Label A}
    (hirq : P irq) (hP : ∀ a, l = .call a → P a) (he : Masked.step S irq C m l = some m') :
    ∃ c', (c' = c ∨ Allowed S P c c') ∧ Rel S C rest P I c' m' := by
  cases l with
  | call a => exact ⟨c, Or.inl rfl, h.call (hP a rfl) he⟩
  | irq => exact ⟨c, Or.inl rfl, h.interrupt hirq hC he⟩
  | step => exact h.turn hC he

/-- Every run of the machine, with interrupts wherever the flag lets them through, is a run of the
system. -/
theorem refines (hC : Implements S irq C rest P I) (hirq : P irq) {ls : List (Label A)}
    (hP : ∀ a, .call a ∈ ls → P a) (h : Rel S C rest P I c m)
    (hrun : Trace.run (step S irq C) m ls = some m') :
    ∃ ls' c', Suspend.run S c ls' = some c' ∧ (∀ a, .start a ∈ ls' → P a) ∧
      Rel S C rest P I c' m' := by
  induction ls generalizing c m with
  | nil =>
    obtain rfl := Option.some.inj hrun
    exact ⟨[], c, rfl, fun a ha => absurd ha List.not_mem_nil, h⟩
  | cons l ls ih =>
    obtain ⟨m₁, h₁, h₂⟩ := Option.bind_eq_some_iff.mp hrun
    obtain ⟨c₁, hstep, hrel⟩ := h.step hC hirq (fun a ha => hP a (ha ▸ List.mem_cons_self)) h₁
    obtain ⟨ls', c', hrun', hls', hrel'⟩ :=
      ih (fun a ha => hP a (List.mem_cons_of_mem l ha)) hrel h₂
    rcases hstep with rfl | ⟨l', hl', hPl'⟩
    · exact ⟨ls', c', hrun', hls', hrel'⟩
    · refine ⟨l' :: ls', c', ?_, fun a ha => ?_, hrel'⟩
      · show (Suspend.step S c l').bind _ = _
        rw [hl']
        exact hrun'
      · rcases List.mem_cons.mp ha with ha | ha
        · exact hPl' a ha.symm
        · exact hls' a ha

/-! ### The flag is set again -/

/-- A program has an end. -/
theorem acc_next (p : Prog σ) : Acc Next p := by
  induction p with
  | ret => exact ⟨_, fun _ h => by cases h⟩
  | act f k ih => exact ⟨_, fun _ h => by cases h; exact ih _⟩
  | mask k ih => exact ⟨_, fun _ h => by cases h; exact ih _⟩
  | restore b k ih => exact ⟨_, fun _ h => by cases h; exact ih⟩
  | switch k => exact ⟨_, fun _ h => by cases h⟩

/-- Some steps without interrupts. -/
def Reaches (S : System σ T A κ E) (irq : A) (C : A → Bool → Prog σ)
    (m m' : Machine σ T A E) : Prop :=
  ∃ n, Trace.run (Masked.step S irq C) m (List.replicate n .step) = some m'

theorem Reaches.refl (m : Machine σ T A E) : Reaches S irq C m m := ⟨0, rfl⟩

theorem Reaches.head {m₁ : Machine σ T A E} (h : Masked.step S irq C m .step = some m₁)
    (h' : Reaches S irq C m₁ m') : Reaches S irq C m m' := by
  obtain ⟨n, hn⟩ := h'
  refine ⟨n + 1, ?_⟩
  rw [List.replicate_succ, Trace.run, h]
  exact hn

theorem Reaches.trans {m₁ : Machine σ T A E} (h : Reaches S irq C m m₁)
    (h' : Reaches S irq C m₁ m') : Reaches S irq C m m' := by
  obtain ⟨n, hn⟩ := h
  obtain ⟨n', hn'⟩ := h'
  refine ⟨n + n', ?_⟩
  rw [List.replicate_add, Trace.run_append, hn]
  exact hn'

/-- Inside of a stretch, its end is some steps away. -/
theorem Rel.stretch (h : Rel S C rest P I c m) (hC : Implements S irq C rest P I)
    (hflag : m.flag = false) {a : A} {p : Prog σ} {below : List (A × Prog σ)}
    (hcode : m.code m.running = (a, p) :: below) :
    ∃ m' c', Reaches S irq C m m' ∧ Allowed S P c c' ∧ Rel S C rest P I c' m' ∧
      (m'.flag = true ∨ c'.pend m'.running ≠ none) := by
  induction acc_next p generalizing m with
  | intro p _ ih =>
    obtain ⟨m₁, hm₁, hor⟩ := h.inner hC hflag hcode
    rcases hor with ⟨hrel, hflag₁, p', hnext, hcode₁⟩ | ⟨c', hstep, hrel, hend⟩
    · obtain ⟨m', c', hreach, hrest⟩ := ih p' hnext hrel hflag₁ hcode₁
      exact ⟨m', c', hreach.head hm₁, hrest⟩
    · exact ⟨m₁, c', (Reaches.refl m₁).head hm₁, hstep, hrel, hend⟩

/-- How much of what is pending is left. `rank` is the number of switches that a rest can still
make. -/
def weight (rank : κ → Nat) : Option (A × κ) → Nat
  | none => 0
  | some (_, k) => rank k + 1

section Rank

variable [Fintype T] {rank : κ → Nat}

/-- The rests that are pending. -/
def pending (rank : κ → Nat) (c : Config σ T A κ E) : Nat := ∑ u, weight rank (c.pend u)

/-- A rest that goes on leaves less pending. -/
theorem Allowed.pending_lt {c' : Config σ T A κ E} (h : Allowed S P c c')
    (hrank : ∀ k s s' k', S.resume k s = .suspended s' k' → rank k' < rank k)
    (hpend : c.pend (S.curr c.st) ≠ none) : pending rank c' < pending rank c := by
  obtain ⟨l, hl, -⟩ := h
  rcases Suspend.step_cases hl with ⟨a, -, hnone, -⟩ | ⟨a, k, -, hsome, rfl⟩
  · exact absurd hnone hpend
  -- Only the pending rest of the current agent changes.
  have hlt : weight rank ((c.settle S (S.curr c.st) a [] (S.resume k c.st)).pend (S.curr c.st)) <
      weight rank (c.pend (S.curr c.st)) := by
    rw [hsome]
    cases hr : S.resume k c.st with
    | returned s => simp [Config.settle, weight]
    | suspended s k' => simpa [Config.settle, weight] using hrank k _ _ _ hr
  have hne : ∀ u, u ≠ S.curr c.st →
      (c.settle S (S.curr c.st) a [] (S.resume k c.st)).pend u = c.pend u := by
    intro u hu
    cases S.resume k c.st with
    | returned s => exact Function.update_of_ne hu _ _
    | suspended s k' => exact Function.update_of_ne hu _ _
  refine Finset.sum_lt_sum (fun u _ => ?_) ⟨S.curr c.st, Finset.mem_univ _, hlt⟩
  by_cases hu : u = S.curr c.st
  · rw [hu]
    exact hlt.le
  · rw [hne u hu]

/-- The flag is set again after some steps without interrupts. -/
theorem Rel.flag_set (h : Rel S C rest P I c m) (hC : Implements S irq C rest P I)
    (hrank : ∀ k s s' k', S.resume k s = .suspended s' k' → rank k' < rank k) :
    ∃ m', Reaches S irq C m m' ∧ m'.flag = true := by
  -- With something pending of the running agent, less and less is pending.
  have hpending : ∀ n c m, pending rank c = n → Rel S C rest P I c m →
      (m.flag = true ∨ c.pend m.running ≠ none) → ∃ m', Reaches S irq C m m' ∧ m'.flag = true := by
    intro n
    induction n using Nat.strong_induction_on with
    | _ n ih =>
      intro c m hn h hor
      by_cases hflag : m.flag = true
      · exact ⟨m, .refl m, hflag⟩
      have hfalse := Bool.eq_false_iff.mpr hflag
      obtain ⟨a, p, below, hcode, -⟩ := h.inside hfalse
      obtain ⟨m₁, c₁, hreach, hstep, hrel, hor₁⟩ := h.stretch hC hfalse hcode
      have hlt := hstep.pending_lt hrank (h.running ▸ hor.resolve_left hflag)
      obtain ⟨m', hreach', hset⟩ := ih _ (hn ▸ hlt) c₁ m₁ rfl hrel hor₁
      exact ⟨m', hreach.trans hreach', hset⟩
  by_cases hflag : m.flag = true
  · exact ⟨m, .refl m, hflag⟩
  have hfalse := Bool.eq_false_iff.mpr hflag
  obtain ⟨a, p, below, hcode, -⟩ := h.inside hfalse
  obtain ⟨m₁, c₁, hreach, -, hrel, hor⟩ := h.stretch hC hfalse hcode
  obtain ⟨m', hreach', hset⟩ := hpending _ c₁ m₁ rfl hrel hor
  exact ⟨m', hreach.trans hreach', hset⟩

end Rank

end Masked
