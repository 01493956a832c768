import StartKernel.Proofs.Locked
import StartKernel.Proofs.Sprintf
import StartKernel.Tools.Log

/-!
# `StartKernel.Proofs.LogLocked`: the lines of the log

* `logFill_spec`: a text of at most 127 bytes fits into the buffer of `log_printf`.
* `log_locked`: tasks that log at the same time send whole lines, one after the other.
-/

set_option autoImplicit false
set_option linter.unusedSectionVars false

namespace StartKernel

open ByteMem
open Format
open Section (Partial Turn Whole Serial)
open Trace (run)

variable {m m' : Mem} {strBuf fmt : Nat} {ws : List Nat} {f s : List (BitVec 8)} {args : List Arg}
  {ps : List Piece} {T M S : Type} {d d' out : List (BitVec 8)} {l : LogLocal}

/-! ### The text -/

/-- A call of `log_printf` with the output `ps`, which fits into the buffer with a zero byte. The
format string and the strings among the arguments do not lie in the buffer. -/
structure LogFits (j : LogCall) (ps : List Piece) : Prop where
  nonnull : 0 < j.strBuf
  top : j.strBuf + strBufSize ≤ 2 ^ 32
  format : ∃ f args, IsStr j.mem j.fmt f ∧
    (j.fmt + f.length < j.strBuf ∨ j.strBuf + (strBufSize - 1) < j.fmt) ∧
    List.Forall₂ (ArgIs j.mem j.strBuf (j.strBuf + (strBufSize - 1))) j.args args ∧
    j.fmt + f.length < 2 ^ 32 ∧ pieces f args = some ps
  fits : (output ps).length < strBufSize

/-- `log_printf` writes the output into its buffer, as a string, and nothing else. -/
theorem logFill_spec {j : LogCall} (h : LogFits j ps) :
    ∃ m', logFill j.mem j.strBuf j.fmt j.args = some m' ∧ IsStr m' j.strBuf (output ps) ∧
      ∀ x, x < j.strBuf ∨ j.strBuf + strBufSize ≤ x → m' x = j.mem x := by
  obtain ⟨f, args, hf, hapart, hws, hfmt, hp⟩ := h.format
  have hpos := h.nonnull
  have htop := h.top
  have hfits := h.fits
  unfold strBufSize at htop hfits hapart hws
  have hclear : kernelMemset j.mem j.strBuf 0#8 strBufSize = fill j.mem j.strBuf 0#8 128 := by
    unfold kernelMemset strBufSize
    exact if_neg (by omega)
  have hout : ∀ x, x < j.strBuf ∨ j.strBuf + (128 - 1) < x →
      fill j.mem j.strBuf 0#8 128 x = j.mem x := by
    intro x hx
    rw [fill_apply, if_neg (by omega)]
  have hf' : IsStr (fill j.mem j.strBuf 0#8 128) j.fmt f :=
    hf.congr fun x h₁ h₂ => hout x (by omega)
  have hws' := hws.imp fun _ _ ha => ha.congr hout
  obtain ⟨m', he, hwrote⟩ := vsprintfLoop_spec hf' hapart hws' hp (Nat.le_refl _) hpos (by omega)
    (by omega) (n := addrCount) (by unfold addrCount; omega)
  refine ⟨m', ?_, IsStr.intro hwrote.bytes (pieces_ne_zero hws' hf'.nonzero hp) ?_, fun x hx => ?_⟩
  · unfold logFill
    rw [hclear]
    exact he
  · -- The buffer was cleared.
    have hzero : fill j.mem j.strBuf 0#8 128 (j.strBuf + (output ps).length) = 0#8 := by
      rw [fill_apply, if_pos (by omega)]
    rw [hwrote.stop, hzero]
    exact ite_self 0#8
  · unfold strBufSize at hx
    have hstop := hwrote.stop
    rw [hwrote.keep x (by omega)]
    exact hout x (by omega)

/-! ### The lines -/

/-- The line of a text. -/
def logLine (s : List (BitVec 8)) : List (BitVec 8) := s ++ [0x0D#8, 0x0A#8]

/-- What a call has sent of the line of the text `s` in the buffer `m`. -/
def LogSent (m : Mem) (strBuf : Nat) (s d : List (BitVec 8)) :
    LogLocal → List (BitVec 8) → Prop
  | .test m' p, d' => m' = m ∧ ∃ k ≤ s.length, p = strBuf + k ∧ d' = d ++ s.take k
  | .wait m' p, d' => m' = m ∧ ∃ k < s.length, p = strBuf + k ∧ d' = d ++ s.take k
  | .send m' p, d' => m' = m ∧ ∃ k < s.length, p = strBuf + k ∧ d' = d ++ s.take k
  | .cr, d' => d' = d ++ s
  | .lf, d' => d' = d ++ (s ++ [0x0D#8])

/-- A step sends the next byte of the line, or nothing. -/
theorem LogSent.step {e : BitVec 8} {l' : LogLocal} {d₁ d₂ : List (BitVec 8)}
    (hs : IsStr m strBuf s) (h : LogSent m strBuf s d l d₁)
    (hstep : logTurn e d₁ l = (d₂, .next l')) : LogSent m strBuf s d l' d₂ := by
  cases l with
  | test m₁ p =>
    obtain ⟨rfl, k, hk, rfl, rfl⟩ := h
    simp only [logTurn] at hstep
    split at hstep
    · rename_i hne
      obtain ⟨rfl, hl⟩ := Prod.mk.inj hstep
      obtain rfl := Turn.next.inj hl
      refine ⟨rfl, k, ?_, rfl, rfl⟩
      -- The byte behind the text is zero.
      refine lt_of_le_of_ne hk fun hend => hne ?_
      rw [hend]
      exact hs.stop
    · rename_i hzero
      obtain ⟨rfl, hl⟩ := Prod.mk.inj hstep
      obtain rfl := Turn.next.inj hl
      have hend : k = s.length := by
        by_contra hne
        exact hzero (hs.ne_zero (by omega))
      show _ = _
      rw [hend, List.take_length]
  | wait m₁ p =>
    obtain ⟨rfl, k, hk, rfl, rfl⟩ := h
    simp only [logTurn] at hstep
    split at hstep <;> obtain ⟨rfl, hl⟩ := Prod.mk.inj hstep <;> obtain rfl := Turn.next.inj hl <;>
      exact ⟨rfl, k, hk, rfl, rfl⟩
  | send m₁ p =>
    obtain ⟨rfl, k, hk, rfl, rfl⟩ := h
    obtain ⟨rfl, hl⟩ := Prod.mk.inj hstep
    obtain rfl := Turn.next.inj hl
    refine ⟨rfl, k + 1, hk, rfl, ?_⟩
    rw [List.append_assoc, List.take_add_one, hs.byte hk]
    rfl
  | cr =>
    obtain rfl := h
    obtain ⟨rfl, hl⟩ := Prod.mk.inj hstep
    obtain rfl := Turn.next.inj hl
    show _ = _
    rw [List.append_assoc]
  | lf => cases hstep

/-- A part of a line was sent inside of a call. -/
theorem LogSent.isPrefix (h : LogSent m strBuf s d l d') :
    ∃ pre, pre <+: logLine s ∧ d' = d ++ pre := by
  cases l with
  | test m₁ p =>
    obtain ⟨-, k, -, -, rfl⟩ := h
    exact ⟨s.take k, (List.take_prefix k s).trans (List.prefix_append s _), rfl⟩
  | wait m₁ p =>
    obtain ⟨-, k, -, -, rfl⟩ := h
    exact ⟨s.take k, (List.take_prefix k s).trans (List.prefix_append s _), rfl⟩
  | send m₁ p =>
    obtain ⟨-, k, -, -, rfl⟩ := h
    exact ⟨s.take k, (List.take_prefix k s).trans (List.prefix_append s _), rfl⟩
  | cr => exact ⟨s, List.prefix_append s _, h⟩
  | lf => exact ⟨s ++ [0x0D#8], ⟨[0x0A#8], List.append_assoc s _ _⟩, h⟩

section Call

variable {j : LogCall}

/-- Inside of a call. -/
theorem LogFits.inside (h : LogFits j ps) (hpart : Partial logBody j d l d') :
    ∃ m', IsStr m' j.strBuf (output ps) ∧ LogSent m' j.strBuf (output ps) d l d' := by
  obtain ⟨m', he, hs, -⟩ := logFill_spec h
  refine ⟨m', hs, hpart.invariant (I := fun l d' => LogSent m' j.strBuf (output ps) d l d') ?_ ?_⟩
  · show LogSent m' j.strBuf _ d (.test ((logFill _ _ _ _).getD _) _) d
    rw [he]
    exact ⟨rfl, 0, Nat.zero_le _, rfl, (List.append_nil d).symm⟩
  · exact fun _ _ _ _ _ hI hturn => hI.step hs hturn

/-- A call sends the line of its output. -/
theorem LogFits.whole (h : LogFits j ps) {r : Unit} (hw : Whole logBody j d r d') :
    d' = d ++ logLine (output ps) := by
  obtain ⟨e, l, d₁, hpart, hstep⟩ := hw
  obtain ⟨m', -, hsent⟩ := h.inside hpart
  have hstep : logTurn e d₁ l = (d', .done r) := hstep
  cases l with
  | test m₁ p =>
    simp only [logTurn] at hstep
    split at hstep <;> cases hstep
  | wait m₁ p =>
    simp only [logTurn] at hstep
    split at hstep <;> cases hstep
  | send m₁ p => cases hstep
  | cr => cases hstep
  | lf =>
    obtain rfl := hsent
    obtain ⟨rfl, -⟩ := Prod.mk.inj hstep
    rw [List.append_assoc, List.append_assoc]
    rfl

end Call

/-! ### The tasks -/

section Tasks

variable [DecidableEq T] [HasIdle T] [DecidableEq M] [DecidableEq S]

/-- The lines of the calls that are over. `text` is the output of a call. -/
def logLines (text : LogCall → List Piece) (log : List (Section.Entry T LogCall Unit)) :
    List (BitVec 8) :=
  log.flatMap fun x => logLine (output (text x.job))

/-- Calls in a row send their lines in a row. -/
theorem serial_lines {text : LogCall → List Piece} {log : List (Section.Entry T LogCall Unit)}
    (hfits : ∀ x ∈ log, LogFits x.job (text x.job)) (h : Serial logBody d log d') :
    d' = d ++ logLines text log := by
  induction h with
  | nil => exact (List.append_nil _).symm
  | cons hfirst _ ih =>
    have hline := (hfits _ List.mem_cons_self).whole hfirst
    rw [ih fun x hx => hfits x (List.mem_cons_of_mem _ hx), hline, List.append_assoc]
    rfl

/-- The bytes that were sent, up to the state `c`. Before, it was `sent`. -/
structure LogSerial (text : LogCall → List Piece) (sent : List (BitVec 8))
    (c : Locked T M S LogCall LogLocal (List (BitVec 8)) Unit) : Prop where
  /-- Between calls, the lines of the calls that are over were sent, one after the other. -/
  lines : (∀ t j l, c.phase t ≠ .inside j l) → c.data = sent ++ logLines text c.log
  /-- Behind them, a part of the line of the call that is not over. -/
  current : ∀ t j l, c.phase t = .inside j l → ∃ pre, pre <+: logLine (output (text j)) ∧
    c.data = sent ++ logLines text c.log ++ pre
  /-- One task at most is inside of a call. -/
  one : ∀ t u j j' l l', c.phase t = .inside j l → c.phase u = .inside j' l' → t = u

/-- Tasks that log at the same time do not mix their lines. -/
theorem log_locked {m : M} {c c' : Locked T M S LogCall LogLocal (List (BitVec 8)) Unit}
    {ls : List (LockedLabel M S (BitVec 8) LogCall)} (text : LogCall → List Piece)
    (h : LockedStart m c) (hfit : ∀ l ∈ ls, LockedFits l)
    (htext : ∀ j, .lock j ∈ ls → LogFits j (text j))
    (hrun : run (lockedStep m logBody) c ls = some c') : LogSerial text c.data c' := by
  obtain ⟨⟨d, hserial, hpart, hidle⟩, hone⟩ := locked_serial h hfit hrun
  have hjobs := locked_jobs (P := fun j => LogFits j (text j)) h htext hrun
  have hlines := serial_lines hjobs.log hserial
  refine ⟨fun hnone => (hidle hnone).trans hlines, fun t j l ht => ?_, hone⟩
  have hj : LogFits j (text j) := hjobs.phase t j (by rw [ht]; rfl)
  obtain ⟨m', -, hsent⟩ := hj.inside (hpart t j l ht)
  obtain ⟨pre, hpre, hdata⟩ := hsent.isPrefix
  exact ⟨pre, hpre, hlines ▸ hdata⟩

/-- A call with the output "a7", and one with the output "b". -/
def logA7 : LogCall := ⟨oneFormat 0#8 ['a', '%', 'd'], 200, 100, [7]⟩

def logB : LogCall := ⟨oneFormat 0#8 ['b'], 400, 100, []⟩

def logText (j : LogCall) : List Piece :=
  if j.strBuf = 200 then [.text [char 'a'], .num (decimal 7)] else [.text [char 'b']]

theorem logFits_a7 : LogFits logA7 (logText logA7) := by
  refine ⟨by decide, by decide, ?_, by decide⟩
  exact ⟨[char 'a', char '%', char 'd'], [.int 7], by decide, by decide,
    .cons ⟨by decide, by decide, by decide⟩ .nil, by decide, rfl⟩

theorem logFits_b : LogFits logB (logText logB) := by
  refine ⟨by decide, by decide, ?_, by decide⟩
  exact ⟨[char 'b'], [], by decide, by decide, .nil, by decide, rfl⟩

/-- Two tasks, and a port that has sent nothing. -/
def twoLoggers : Locked (Fin 3) Unit Unit LogCall LogLocal (List (BitVec 8)) Unit where
  cfg := startConfig (readySched [1, 2] 0)
  data := []
  phase _ := .out
  log := []

/-- The first task is switched out behind its first byte, and the port is busy once. -/
def twoLoggersRun : List (LockedLabel Unit Unit (BitVec 8) LogCall) :=
  [.lock logA7, .work 0x40#8, .work 0#8, .work 0x40#8, .work 0x40#8,
    .kernel (.start .schedYield), .lock logB, .kernel .resume, .work 0x40#8, .work 0x40#8,
    .work 0x40#8, .work 0x40#8, .work 0x40#8, .work 0x40#8, .unlock,
    .kernel (.start .schedYield), .kernel .resume, .work 0x40#8, .work 0x40#8, .work 0x40#8]

theorem log_locked_two_tasks :
    ∃ c', run (lockedStep () logBody) twoLoggers twoLoggersRun = some c' ∧
      c'.data = [char 'a', char '7', 0x0D#8, 0x0A#8, char 'b'] ∧
      LogSerial logText twoLoggers.data c' := by
  have hrun : (run (lockedStep () logBody) twoLoggers twoLoggersRun).map
      (fun c => decide (c.data = [char 'a', char '7', 0x0D#8, 0x0A#8, char 'b'])) = some true := by
    decide +kernel
  obtain ⟨c, hc, hd⟩ := Option.map_eq_some_iff.mp hrun
  have hstart : LockedStart () twoLoggers := by
    refine ⟨?_, rfl, fun _ => pendsOther_none (), fun _ => rfl, rfl⟩
    exact readySched_inv (by decide) (by decide) 0
  refine ⟨c, hc, of_decide_eq_true hd, log_locked logText hstart (by decide) (fun j hj => ?_) hc⟩
  simp only [twoLoggersRun, List.mem_cons, LockedLabel.lock.injEq, reduceCtorEq, List.not_mem_nil,
    or_false, false_or] at hj
  rcases hj with rfl | rfl
  · exact logFits_a7
  · exact logFits_b

end Tasks

end StartKernel
