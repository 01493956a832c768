import StartKernel.Core.Messages
import StartKernel.Proofs.Irq
import StartKernel.Proofs.LogLocked

/-!
# `StartKernel.Proofs.Messages`: the messages of the kernel

* `kernel_messages_fit`: every message fits into the buffer of `log_printf`.
* `report_shows`: what the report of an exception says about the interrupted code.
-/

set_option autoImplicit false

namespace StartKernel

open ByteMem (IsStr load32)
open Format

variable {t : Message} {j : LogCall} {frame : ExceptionFrame} {cr2 : Nat} {h : Handler}

/-! ### The length of the messages -/

/-- The message fits into the buffer, whatever its numbers are. -/
def Message.Short (t : Message) : Prop :=
  (∀ a ∈ t.args, a.Fits) ∧ ∃ n, room t.fmt (t.args.map Arg.isStr) = some n ∧
    n + (t.args.map Arg.strLength).sum < strBufSize

theorem word_fits (w : Nat) : (word w).Fits := by
  have hw : toInt w = Int.bmod w (2 ^ 32) := rfl
  have h₁ := Int.le_bmod (x := (w : Int)) (m := 2 ^ 32) (by decide)
  have h₂ := Int.bmod_lt (x := (w : Int)) (m := 2 ^ 32) (by decide)
  exact ⟨by omega, by omega⟩

/-- A message whose arguments are numbers. -/
theorem short_words {fmt : String} (ws : List Nat) (k : Nat) (hk : ws.length = k)
    (hroom : (room (literal fmt) (List.replicate k false)).any (· < strBufSize) = true) :
    (logPrintf fmt (ws.map word)).Short := by
  obtain ⟨n, hn, hlt⟩ := (Option.any_eq_true _ _).mp hroom
  refine ⟨fun a ha => ?_, n, ?_, ?_⟩
  · obtain ⟨w, -, rfl⟩ := List.mem_map.mp ha
    exact word_fits w
  · show room (literal fmt) ((ws.map word).map Arg.isStr) = some n
    have hkinds : (ws.map word).map Arg.isStr = List.replicate k false := by
      rw [List.map_map, ← hk]
      exact List.map_const
    rw [hkinds, hn]
  · show n + ((ws.map word).map Arg.strLength).sum < _
    have hzero : ((ws.map word).map Arg.strLength).sum = 0 := by
      rw [List.map_map]
      exact List.sum_eq_zero fun k hk => by
        obtain ⟨w, -, rfl⟩ := List.mem_map.mp hk
        rfl
    rw [hzero]
    exact of_decide_eq_true hlt

/-- A message without arguments. -/
theorem short_text {fmt : String} (hroom : (room (literal fmt) []).any (· < strBufSize) = true) :
    (logPrintf fmt []).Short :=
  short_words [] 0 rfl hroom

/-- A message with one string. -/
theorem short_str {fmt : String} {s : List (BitVec 8)} (n : Nat)
    (hroom : room (literal fmt) [true] = some n) (hn : n + s.length < strBufSize) :
    (logPrintf fmt [.str (some s)]).Short := by
  refine ⟨fun a ha => ?_, n, hroom, hn⟩
  obtain rfl := List.mem_singleton.mp ha
  trivial

theorem short_ruler : ruler.Short := short_text (by decide +kernel)

theorem short_dumpCoreRegs (frame : ExceptionFrame) : ∀ t ∈ dumpCoreRegs frame, t.Short := by
  unfold dumpCoreRegs
  simp only [List.forall_mem_cons]
  refine ⟨?_, ?_, ?_, ?_, fun t ht => absurd ht List.not_mem_nil⟩
  · exact short_words [_, _] 2 rfl (by decide +kernel)
  · exact short_words [_, _, _, _, _, _] 6 rfl (by decide +kernel)
  · exact short_words [_, _, _, _, _, _, _, _] 8 rfl (by decide +kernel)
  · exact short_words [_, _] 2 rfl (by decide +kernel)

theorem short_append {ts ts' : List Message} (h : ∀ t ∈ ts, t.Short) (h' : ∀ t ∈ ts', t.Short) :
    ∀ t ∈ ts ++ ts', t.Short := fun t ht => (List.mem_append.mp ht).elim (h t) (h' t)

theorem short_defaultHandler (frame : ExceptionFrame) {message : String}
    (hm : (literal message).length < 104) : ∀ t ∈ doDefaultHandler frame message, t.Short := by
  refine short_append (short_append ?_ (short_dumpCoreRegs frame)) ?_
  · simp only [List.forall_mem_cons]
    refine ⟨short_ruler, short_str 24 (by decide +kernel) ?_,
      fun t ht => absurd ht List.not_mem_nil⟩
    unfold strBufSize
    omega
  · exact List.forall_mem_singleton.mpr short_ruler

theorem short_ite {c : Prop} [Decidable c] {t₁ t₂ : Message} (h₁ : t₁.Short) (h₂ : t₂.Short) :
    (if c then t₁ else t₂).Short := by
  split
  · exact h₁
  · exact h₂

theorem short_generalProtection (frame : ExceptionFrame) :
    ∀ t ∈ doHandlerGeneralProtection frame, t.Short := by
  refine short_append ?_ (short_dumpCoreRegs frame)
  simp only [List.forall_mem_cons]
  refine ⟨short_ruler, ?_, ?_, ?_, ?_, fun t ht => absurd ht List.not_mem_nil⟩
  · exact short_text (by decide +kernel)
  · exact short_ite (short_text (by decide +kernel))
      (short_text (by decide +kernel))
  · exact short_ite (short_text (by decide +kernel))
      (short_text (by decide +kernel))
  · exact short_words [_] 1 rfl (by decide +kernel)

theorem short_pageFault (frame : ExceptionFrame) (cr2 : Nat) :
    ∀ t ∈ doHandlerPageFault frame cr2, t.Short := by
  refine short_append ?_ (short_dumpCoreRegs frame)
  simp only [List.forall_mem_cons]
  refine ⟨short_ruler, ?_, ?_, ?_, ?_, fun t ht => absurd ht List.not_mem_nil⟩
  · exact short_text (by decide +kernel)
  · exact short_ite (short_words [_] 1 rfl (by decide +kernel))
      (short_words [_] 1 rfl (by decide +kernel))
  · exact short_ite (short_text (by decide +kernel))
      (short_text (by decide +kernel))
  · exact short_ite (short_text (by decide +kernel))
      (short_text (by decide +kernel))

theorem short_report (frame : ExceptionFrame) (cr2 : Nat) (h : Handler) :
    ∀ t ∈ h.report frame cr2, t.Short := by
  cases h with
  | generalProtection => exact short_generalProtection frame
  | pageFault => exact short_pageFault frame cr2
  | timer => exact fun t ht => absurd ht List.not_mem_nil
  | _ => exact short_defaultHandler frame (by decide +kernel)

theorem short_showMemInfo (regions : List (Nat × Nat)) : ∀ t ∈ showMemInfo regions, t.Short := by
  unfold showMemInfo
  refine List.forall_mem_cons.mpr ⟨short_text (by decide +kernel), ?_⟩
  refine short_append (fun t ht => ?_) ?_
  · obtain ⟨r, -, rfl⟩ := List.mem_map.mp ht
    exact short_words [_, _, _] 3 rfl (by decide +kernel)
  · exact List.forall_mem_singleton.mpr (short_text (by decide +kernel))

theorem short_of_kernelMessage (ht : KernelMessage t) : t.Short := by
  cases ht with
  | exception h frame cr2 ht => exact short_report frame cr2 h t ht
  | initMain ht =>
    revert t
    simp only [initMainLog, List.forall_mem_cons]
    refine ⟨short_text (by decide +kernel), ?_, fun t ht => absurd ht List.not_mem_nil⟩
    exact short_str 9 (by decide +kernel) (by decide)
  | showMemInfo regions ht => exact short_showMemInfo regions t ht
  | memory err preHeapEnd memUp1MBFree ht =>
    revert t
    simp only [memoryLog, List.forall_mem_cons]
    refine ⟨?_, ?_, ?_, ?_, ?_, ?_, fun t ht => absurd ht List.not_mem_nil⟩
    · exact short_text (by decide +kernel)
    · exact short_words [_, _] 2 rfl (by decide +kernel)
    · exact short_text (by decide +kernel)
    · exact short_words [_] 1 rfl (by decide +kernel)
    · exact short_words [_] 1 rfl (by decide +kernel)
    · exact short_text (by decide +kernel)
  | tssInit ht =>
    obtain rfl := List.mem_singleton.mp ht
    exact short_text (by decide +kernel)
  | panic file line func cond hcond hnames ht =>
    revert t
    simp only [panic, List.forall_mem_cons]
    refine ⟨?_, ?_, fun t ht => absurd ht List.not_mem_nil⟩
    · refine short_str 15 (by decide +kernel) ?_
      unfold strBufSize
      omega
    · refine ⟨?_, 31, ?_, ?_⟩
      · refine List.forall_mem_cons.mpr ⟨trivial, List.forall_mem_cons.mpr ⟨word_fits line, ?_⟩⟩
        exact List.forall_mem_singleton.mpr trivial
      · show room (literal "file: %s\nline %d\nfunc: %s\n") [true, false, true] = some 31
        decide +kernel
      · show 31 + (file.length + (0 + (func.length + 0))) < 128
        omega

/-- Every message of the kernel fits into the buffer of `log_printf`, whatever its numbers are: the
text is formatted in full, and nothing outside of the buffer is written. -/
theorem kernel_messages_fit (ht : KernelMessage t) (hj : Passed j t) :
    ∃ ps m', pieces t.fmt t.args = some ps ∧ (output ps).length < strBufSize ∧
      logFill j.mem j.strBuf j.fmt j.args = some m' ∧ IsStr m' j.strBuf (output ps) ∧
      ∀ x, x < j.strBuf ∨ j.strBuf + strBufSize ≤ x → m' x = j.mem x := by
  obtain ⟨hargs, n, hroom, hn⟩ := short_of_kernelMessage ht
  obtain ⟨ps, hps, hlen⟩ := room_spec hargs hroom
  have hfits : (output ps).length < strBufSize := by omega
  have hcall : LogFits j ps := ⟨hj.nonnull, hj.top,
    ⟨t.fmt, t.args, hj.fmt, hj.apart, hj.args, hj.fmtTop, hps⟩, hfits⟩
  obtain ⟨m', hfill, hstr, hout⟩ := logFill_spec hcall
  exact ⟨ps, m', hps, hfits, hfill, hstr, hout⟩

/-- The frame of a page fault at address 0. -/
def pageFaultFrame : ExceptionFrame :=
  { gs := 0x23, fs := 0x23, es := 0x23, ds := 0x23, edi := 0, esi := 0, ebp := 0, esp := 0x8FE4,
    ebx := 0, edx := 0, ecx := 0, eax := 0, num := 14, errorCode := 6, eip := 0x80000010,
    cs := 0x2B, eflags := 0x202, esp3 := 0x80009FF0, ss3 := 0x23 }

theorem kernel_messages_fit_page_fault : ∃ ps m',
    pieces (literal "IRQ: %d, error code: %d.") [word 14, word 6] = some ps ∧
      (output ps).length < strBufSize ∧
      logFill (oneFormat 0#8 "IRQ: %d, error code: %d.".toList) 400 100 [14, 6] = some m' ∧
      IsStr m' 400 (output ps) ∧ ∀ x, x < 400 ∨ 400 + strBufSize ≤ x →
        m' x = oneFormat 0#8 "IRQ: %d, error code: %d.".toList x := by
  have ht : KernelMessage (logPrintf "IRQ: %d, error code: %d." [word 14, word 6]) := by
    exact .exception .pageFault pageFaultFrame 0 (List.mem_append_right _ List.mem_cons_self)
  refine kernel_messages_fit (j := ⟨_, 400, 100, [14, 6]⟩) ht ⟨by decide, by decide, ?_, ?_, ?_, ?_⟩
  · show IsStr (oneFormat 0#8 "IRQ: %d, error code: %d.".toList) 100
      (literal "IRQ: %d, error code: %d.")
    decide +kernel
  · show 100 + (literal "IRQ: %d, error code: %d.").length < 2 ^ 32
    decide +kernel
  · show 100 + (literal "IRQ: %d, error code: %d.").length < 400 ∨ 400 + (strBufSize - 1) < 100
    decide +kernel
  · exact .cons ⟨by decide, by decide, by decide⟩ (.cons ⟨by decide, by decide, by decide⟩ .nil)

/-! ### What a report says -/

variable {p q : Proc} {gdt : Gdt} {v err : Nat}

/-- The test for the privilege in `dump_core_regs`. -/
theorem InTable.and_seven {sel : Nat} (h : InTable sel) : sel &&& 0x7 ≠ 0 ↔ sel % 4 ≠ 0 := by
  obtain ⟨-, -, hti⟩ := h
  rw [show (0x7 : Nat) = 2 ^ 3 - 1 by rfl, Nat.and_two_pow_sub_one_eq_mod]
  omega

/-- The bits of the error code of a page fault: the page is there, the access was a write, and it
came from an application. -/
def faultBit (err i : Nat) : Bool := err.testBit i

theorem and_bit_ne_zero (err i : Nat) : err &&& 1 <<< i ≠ 0 ↔ faultBit err i = true := by
  unfold faultBit
  rw [Nat.one_shiftLeft, Nat.and_two_pow]
  cases err.testBit i <;> simp

/-- What the report of an exception says. The general registers, `CS`, `EIP` and `EFLAGS` are those
of the interrupted code. The stack is not: from an application the report shows its `DS` and an
address in the kernel stack, and from the kernel the two words on top of the interrupted stack. A
page fault is called a read when it was a write, and one of the kernel when it was a write. -/
theorem report_shows (h : Entered v err p q) (hsegs : SegsOk gdt p.regs) {frame : ExceptionFrame}
    (hframe : frame = .read q.mem (load32 q.mem (q.regs.esp + 4))) (cr2 : Nat) :
    (∃ es fs gs ds, es % 2 ^ 16 = p.regs.es ∧ fs % 2 ^ 16 = p.regs.fs ∧ gs % 2 ^ 16 = p.regs.gs ∧
      ds % 2 ^ 16 = p.regs.ds ∧ dumpCoreRegs frame =
        [logPrintf "IRQ: %d, error code: %d." [word (handlerOf v).num, word (errorWord v err)],
          logPrintf "CS: %d\nDS: %d\nES: %d\nSS: %d\nFS:%d\nGS:%d"
            [word p.regs.cs, word ds, word es, word (dumpStack frame).1, word fs, word gs],
          logPrintf
            "EAX:0x%x\nEBX:0x%x\nECX:0x%x\nEDX:0x%x\nEDI:0x%x\nESI:0x%x\nEBP:0x%x\nESP:0x%x\n"
            [word p.regs.eax, word p.regs.ebx, word p.regs.ecx, word p.regs.edx, word p.regs.edi,
              word p.regs.esi, word p.regs.ebp, word (dumpStack frame).2],
          logPrintf "EIP:0x%x\nEFLAGS:0x%x\n" [word p.regs.eip, word p.regs.eflags]]) ∧
    (p.regs.cs % 4 ≠ 0 → (dumpStack frame).1 % 2 ^ 16 = p.regs.ds ∧
      (dumpStack frame).2 + 4 * 7 = kernelTop p) ∧
    (p.regs.cs % 4 = 0 →
      dumpStack frame = (load32 p.mem (p.regs.esp + 4), load32 p.mem p.regs.esp)) ∧
    (v = 14 → doHandlerPageFault frame cr2
      = [ruler, logPrintf "IRQ/Exception happend: Page fault." [],
          logPrintf (if faultBit err 0 then "\tpage-level protection violation: 0x%x."
            else "\tPage doesn't present 0x%x") [word cr2],
          logPrintf (if faultBit err 1 then "\tThe access causing the fault was a read."
            else "\tThe access causing the fault was a write.") [],
          logPrintf (if faultBit err 1 then "\tA supervisor-mode access caused the fault."
            else "\tA user-mode access caused the fault.") []] ++ dumpCoreRegs frame) := by
  have hf := h.frame
  rw [← hframe] at hf
  obtain ⟨hgs, hfs, hes, hds⟩ := hf.segs
  obtain ⟨hedi, hesi, hebp, hebx, hedx, hecx, heax⟩ := hf.general
  obtain ⟨heip, hcs, heflags⟩ := hf.code
  have htest := hsegs.cs.1.and_seven
  rw [← hcs] at htest
  refine ⟨⟨_, _, _, _, hes, hfs, hgs, hds, ?_⟩, fun hmode => ?_, fun hmode => ?_, fun hv => ?_⟩
  · unfold dumpCoreRegs
    rw [hf.num, hf.errorCode, hcs, heax, hebx, hecx, hedx, hedi, hesi, hebp, heip, heflags]
  · have hstack : dumpStack frame = (frame.ds, frame.esp) := if_pos (htest.mpr (hcs ▸ hmode))
    have hlower : lowerWords p = [p.regs.esp, p.regs.ss] := if_neg hmode
    have hesp := hf.esp
    rw [hlower] at hesp
    rw [hstack]
    exact ⟨hds, hesp⟩
  · have hstack : dumpStack frame = (frame.ss3, frame.esp3) :=
      if_neg fun hne => htest.mp hne (hcs ▸ hmode)
    obtain ⟨hesp3, hss3⟩ := hf.same hmode
    rw [hstack, hesp3, hss3]
  · subst hv
    have herr : frame.errorCode = err := hf.errorCode
    have hp : (frame.errorCode &&& errPageP ≠ 0) = (faultBit err 0 = true) :=
      propext (herr ▸ and_bit_ne_zero frame.errorCode 0)
    have hwr : (frame.errorCode &&& errPageWr ≠ 0) = (faultBit err 1 = true) :=
      propext (herr ▸ and_bit_ne_zero frame.errorCode 1)
    have hus : (frame.errorCode &&& errPageUs ≠ 0) = (faultBit err 1 = true) := hwr
    unfold doHandlerPageFault
    simp only [hp, hwr, hus]
    cases faultBit err 0 <;> cases faultBit err 1 <;> rfl

/-- A write of the application to a page that is not there. -/
theorem report_shows_write : ∃ q frame, Entered 14 6 appProc q ∧
    frame = .read q.mem (load32 q.mem (q.regs.esp + 4)) ∧ (dumpStack frame).2 + 4 * 7 = 0x9000 ∧
    doHandlerPageFault frame 0x90000000
      = [ruler, logPrintf "IRQ/Exception happend: Page fault." [],
          logPrintf "\tPage doesn't present 0x%x" [word 0x90000000],
          logPrintf "\tThe access causing the fault was a read." [],
          logPrintf "\tA supervisor-mode access caused the fault." []] ++ dumpCoreRegs frame := by
  have hentered : ∃ q, AtHandler appGdt (timeInit (fun _ => 0) (irqInit (fun _ => 0)
      fun _ => ⟨0, 0, 0, 0⟩)) ⟨false, fun _ _ => 0⟩ (fun _ => 0) 0 14 6 appProc q :=
    exception_entered _ _ (fun _ => by decide) (by decide) (by decide) (by decide) (by decide)
      ⟨by decide +kernel, by decide +kernel, by decide +kernel⟩ (by decide +kernel) (by decide)
  obtain ⟨q, h⟩ := hentered
  have hsegs : SegsOk appGdt appProc.regs := by decide +kernel
  have hshows := report_shows h.entered hsegs rfl 0x90000000
  have htop : kernelTop appProc = 0x9000 := by decide +kernel
  exact ⟨q, _, h.entered, rfl, htop ▸ (hshows.2.1 (by decide)).2, hshows.2.2.2 rfl⟩

end StartKernel
