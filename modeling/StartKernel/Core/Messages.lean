import StartKernel.Abs.FormatRoom
import StartKernel.Cpu.Irq
import StartKernel.Tools.Log

/-!
# `StartKernel.Core.Messages`: what the kernel writes to its log

The calls of `log_printf` in the kernel, with their format strings and arguments: the reports of the
exception handlers (`cpu/irq.c`), and the messages of `init.c`, `memory.c`, `task.c` and `klib.c`.
The calls that are commented out are left out.
-/

set_option autoImplicit false

namespace StartKernel

open ByteMem (char IsStr)
open Format (Arg ArgIs)

/-- A format string and its arguments. -/
structure Message where
  fmt : List (BitVec 8)
  args : List Arg

/-- The bytes of a string literal. -/
def literal (s : String) : List (BitVec 8) := s.toList.map char

/-- A call with the string literal `fmt`. -/
def logPrintf (fmt : String) (args : List Arg) : Message := ⟨literal fmt, args⟩

/-- A word that is passed for an `int`. -/
def word (w : Nat) : Arg := .int (toInt w)

/-- A string literal as an argument. -/
def str (s : String) : Arg := .str (some (literal s))

/-! ### The exceptions -/

/-- `ERR_PAGE_P`. -/
def errPageP : Nat := 1 <<< 0

/-- `ERR_PAGE_WR`. -/
def errPageWr : Nat := 1 <<< 1

/-- `ERR_PAGE_US`. -/
def errPageUs : Nat := 1 <<< 1

/-- `ERR_EXT`. -/
def errExt : Nat := 1 <<< 0

/-- `ERR_IDT`. -/
def errIdt : Nat := 1 <<< 1

/-- The variables `ss` and `esp` of `dump_core_regs`. -/
def dumpStack (frame : ExceptionFrame) : Nat × Nat :=
  if frame.cs &&& 0x7 ≠ 0 then (frame.ds, frame.esp) else (frame.ss3, frame.esp3)

/-- `dump_core_regs`. -/
def dumpCoreRegs (frame : ExceptionFrame) : List Message :=
  let (ss, esp) := dumpStack frame
  [logPrintf "IRQ: %d, error code: %d." [word frame.num, word frame.errorCode],
    logPrintf "CS: %d\nDS: %d\nES: %d\nSS: %d\nFS:%d\nGS:%d"
      [word frame.cs, word frame.ds, word frame.es, word ss, word frame.fs, word frame.gs],
    logPrintf
      "EAX:0x%x\nEBX:0x%x\nECX:0x%x\nEDX:0x%x\nEDI:0x%x\nESI:0x%x\nEBP:0x%x\nESP:0x%x\n"
      [word frame.eax, word frame.ebx, word frame.ecx, word frame.edx, word frame.edi,
        word frame.esi, word frame.ebp, word esp],
    logPrintf "EIP:0x%x\nEFLAGS:0x%x\n" [word frame.eip, word frame.eflags]]

def ruler : Message := logPrintf "--------------------------------" []

/-- `do_default_handler`. -/
def doDefaultHandler (frame : ExceptionFrame) (message : String) : List Message :=
  [ruler, logPrintf "IRQ/Exception happend: %s." [str message]] ++ dumpCoreRegs frame ++ [ruler]

/-- `do_handler_general_protection`. -/
def doHandlerGeneralProtection (frame : ExceptionFrame) : List Message :=
  [ruler, logPrintf "IRQ/Exception happend: General Protection." [],
    if frame.errorCode &&& errExt ≠ 0 then
      logPrintf ("the exception occurred during delivery of an event external to the program, " ++
        "such as an interruptor an earlier exception.") []
    else
      logPrintf ("the exception occurred during delivery of asoftware interrupt " ++
        "(INT n, INT3, or INTO).") [],
    if frame.errorCode &&& errIdt ≠ 0 then
      logPrintf "the index portion of the error code refers to a gate descriptor in the IDT" []
    else logPrintf "the index refers to a descriptor in the GDT" [],
    logPrintf "segment index: %d" [word (frame.errorCode &&& 0xFFF8)]] ++ dumpCoreRegs frame

/-- `do_handler_page_fault`. -/
def doHandlerPageFault (frame : ExceptionFrame) (cr2 : Nat) : List Message :=
  [ruler, logPrintf "IRQ/Exception happend: Page fault." [],
    if frame.errorCode &&& errPageP ≠ 0 then
      logPrintf "\tpage-level protection violation: 0x%x." [word cr2]
    else logPrintf "\tPage doesn't present 0x%x" [word cr2],
    if frame.errorCode &&& errPageWr ≠ 0 then
      logPrintf "\tThe access causing the fault was a read." []
    else logPrintf "\tThe access causing the fault was a write." [],
    if frame.errorCode &&& errPageUs ≠ 0 then
      logPrintf "\tA supervisor-mode access caused the fault." []
    else logPrintf "\tA user-mode access caused the fault." []] ++ dumpCoreRegs frame

/-- What the C function of a handler writes. -/
def Handler.report (frame : ExceptionFrame) (cr2 : Nat) : Handler → List Message
  | .unknown => doDefaultHandler frame "Unknown exception."
  | .divider => doDefaultHandler frame "Divider Error."
  | .debug => doDefaultHandler frame "Debug Exception"
  | .nmi => doDefaultHandler frame "NMI Interrupt."
  | .breakpoint => doDefaultHandler frame "Breakpoint."
  | .overflow => doDefaultHandler frame "Overflow."
  | .boundRange => doDefaultHandler frame "BOUND Range Exceeded."
  | .invalidOpcode => doDefaultHandler frame "Invalid Opcode."
  | .deviceUnavailable => doDefaultHandler frame "Device Not Available."
  | .doubleFault => doDefaultHandler frame "Double Fault."
  | .invalidTss => doDefaultHandler frame "Invalid TSS"
  | .segmentNotPresent => doDefaultHandler frame "Segment Not Present."
  | .stackSegmentFault => doDefaultHandler frame "Stack-Segment Fault."
  | .generalProtection => doHandlerGeneralProtection frame
  | .pageFault => doHandlerPageFault frame cr2
  | .fpuError => doDefaultHandler frame "X87 FPU Floating Point Error."
  | .alignmentCheck => doDefaultHandler frame "Alignment Check."
  | .machineCheck => doDefaultHandler frame "Machine Check."
  | .smdException => doDefaultHandler frame "SIMD Floating Point Exception."
  | .virtualException => doDefaultHandler frame "Virtualization Exception."
  | .controlException => doDefaultHandler frame "Virtualization Exception."
  | .timer => []

/-! ### The other messages -/

/-- The messages of `init_main`. -/
def initMainLog : List Message :=
  [logPrintf "Kernel is running...." [], logPrintf "Version: %s" [str "0.0.1"]]

/-- `show_mem_info`. -/
def showMemInfo (regions : List (Nat × Nat)) : List Message :=
  logPrintf "mem region:" [] ::
    (regions.zipIdx.map fun r =>
      logPrintf "[%d]: 0x%x - 0x%x" [word r.2, word r.1.1, word r.1.2]) ++ [logPrintf "\n" []]

/-- The other messages of `memory.c`. -/
def memoryLog (err preHeapEnd memUp1MBFree : Nat) : List Message :=
  [logPrintf "mem init." [],
    logPrintf "Free memory: 0x%x, size: 0x%x" [word 0x100000, word memUp1MBFree],
    logPrintf "mem alloc failed. no memory" [],
    logPrintf "create memory map failed. err = %d" [word err],
    logPrintf "sbrk(0): end = 0x%x" [word preHeapEnd],
    logPrintf "sbrk: alloc mem failed." []]

/-- The message of `tss_init`. -/
def tssInitLog : List Message := [logPrintf "alloc tss failed.\n" []]

/-- `panic`. -/
def panic (file : List (BitVec 8)) (line : Nat) (func cond : List (BitVec 8)) : List Message :=
  [logPrintf "assert failed! %s" [.str (some cond)],
    logPrintf "file: %s\nline %d\nfunc: %s\n" [.str (some file), word line, .str (some func)]]

/-- The messages of the kernel. An assertion has a message that fits when its names are not too
long. -/
inductive KernelMessage : Message → Prop
  | exception {t : Message} (h : Handler) (frame : ExceptionFrame) (cr2 : Nat)
      (ht : t ∈ h.report frame cr2) : KernelMessage t
  | initMain {t : Message} (ht : t ∈ initMainLog) : KernelMessage t
  | showMemInfo {t : Message} (regions : List (Nat × Nat)) (ht : t ∈ showMemInfo regions) :
      KernelMessage t
  | memory {t : Message} (err preHeapEnd memUp1MBFree : Nat)
      (ht : t ∈ memoryLog err preHeapEnd memUp1MBFree) : KernelMessage t
  | tssInit {t : Message} (ht : t ∈ tssInitLog) : KernelMessage t
  | panic {t : Message} (file : List (BitVec 8)) (line : Nat) (func cond : List (BitVec 8))
      (hcond : cond.length ≤ 112) (hnames : file.length + func.length ≤ 96)
      (ht : t ∈ panic file line func cond) : KernelMessage t

/-- The call `j` of `log_printf` passes the message. The format string and the strings among the
arguments lie outside of the buffer. -/
structure Passed (j : LogCall) (t : Message) : Prop where
  nonnull : 0 < j.strBuf
  top : j.strBuf + strBufSize ≤ 2 ^ 32
  fmt : IsStr j.mem j.fmt t.fmt
  fmtTop : j.fmt + t.fmt.length < 2 ^ 32
  apart : j.fmt + t.fmt.length < j.strBuf ∨ j.strBuf + (strBufSize - 1) < j.fmt
  args : List.Forall₂ (ArgIs j.mem j.strBuf (j.strBuf + (strBufSize - 1))) j.args t.args

end StartKernel
